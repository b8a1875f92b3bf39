import Csilk.Lib.Transition
import Csilk.Messaging.Durability

namespace Csilk.Messaging.Flush
open Csilk.Lib Function List

deriving instance DecidableEq for WalTask

/-- Waiting, writing the rest of a batch, with `last_fd`, or past the sync. -/
inductive WriterPc where
  | idle
  | writing (rest : List WalTask) (lastFd : Option Nat)
  | synced

/-- `flush` gives the number of tasks appended before each running `_mq_wal_flush`; `broken` says
that one returned too early. -/
structure State where
  pending : List WalTask
  writing : Bool
  writer : WriterPc
  files : Nat → Bytes
  disk : List (WalTask × Bool)
  appended : List WalTask
  flush : Nat → Option Nat
  broken : Bool

inductive Act where
  | append (t : WalTask)
  | take
  | write
  | sync
  | finish
  | flushStart (f : Nat)
  | flushCheck (f : Nat)

def State.sync (s : State) (fd : Nat) : List (WalTask × Bool) :=
  s.disk.map fun e => if e.1.fd = fd then (e.1, true) else e

/-- The first `n` tasks were written and their descriptors synced afterwards. -/
def State.durable (s : State) (n : Nat) : Bool :=
  decide (s.disk.take n = (s.appended.take n).map fun t => (t, true))

def writerStep (s : State) : Act → Option State
  | .take =>
    match s.writer with
    | .idle =>
      if s.pending.isEmpty then none
      else some { s with pending := [], writing := true, writer := .writing s.pending none }
    | _ => none
  | .write =>
    match s.writer with
    | .writing (t :: rest) _ =>
      some { s with
        files := writeTask s.files t
        disk := s.disk ++ [(t, false)]
        writer := .writing rest (some t.fd) }
    | _ => none
  | .sync =>
    match s.writer with
    | .writing [] (some fd) => some { s with disk := s.sync fd, writer := .synced }
    | _ => none
  | .finish =>
    match s.writer with
    | .synced => some { s with writing := false, writer := .idle }
    | _ => none
  | _ => none

def flushCheck (s : State) (f n : Nat) : State :=
  if !s.pending.isEmpty || s.writing then s
  else { s with flush := update s.flush f none, broken := s.broken || !s.durable n }

def step (s : State) : Act → Option State
  | .append t => some { s with pending := s.pending ++ [t], appended := s.appended ++ [t] }
  | .flushStart f =>
    match s.flush f with
    | none => some { s with flush := update s.flush f (some s.appended.length) }
    | some _ => none
  | .flushCheck f =>
    match s.flush f with
    | none => none
    | some n => some (flushCheck s f n)
  | a => writerStep s a

def start (files : Nat → Bytes) : State where
  pending := []
  writing := false
  writer := .idle
  files := files
  disk := []
  appended := []
  flush := fun _ => none
  broken := false

def system (files : Nat → Bytes) : System State Act where
  init := (· = start files)
  step := step

def WriterPc.rest : WriterPc → List WalTask
  | .writing rest _ => rest
  | _ => []

def WriterPc.lastFd : WriterPc → Option Nat
  | .writing _ lastFd => lastFd
  | _ => none

def oneFile (s : State) : Act → Bool
  | .take => s.pending.all fun t => s.pending.head?.any fun u => t.fd = u.fd
  | _ => true

def WriterPc.Uniform (w : WriterPc) : Prop :=
  ∃ fd, (∀ t ∈ w.rest, t.fd = fd) ∧ (w.lastFd = none ∨ w.lastFd = some fd)

theorem WriterPc.Uniform.nil {w : WriterPc} (hrest : w.rest = []) (hlast : w.lastFd = none) :
    w.Uniform := by
  refine ⟨0, fun t ht => ?_, .inl hlast⟩
  rw [hrest] at ht
  cases ht

structure Inv (files : Nat → Bytes) (s : State) : Prop where
  order : s.appended = s.disk.map Prod.fst ++ s.writer.rest ++ s.pending
  contents : s.files = (s.disk.map Prod.fst).foldl writeTask files
  synced : ∀ e ∈ s.disk, e.2 = true ∨ s.writer.lastFd = some e.1.fd
  uniform : s.writer.Uniform
  idle : s.writing = false → s.writer = .idle
  broken : s.broken = false

theorem Inv.start : Inv files (start files) where
  order := rfl
  contents := rfl
  synced e he := by cases he
  uniform := .nil rfl rfl
  idle _ := rfl
  broken := rfl

theorem State.sync_fst (s : State) (fd : Nat) : (s.sync fd).map Prod.fst = s.disk.map Prod.fst := by
  rw [State.sync, List.map_map]
  apply map_congr_left
  intro e _
  rw [comp_apply]
  split <;> rfl

section

variable (h : Inv files s)
include h

theorem Inv.append (t : WalTask) :
    Inv files { s with pending := s.pending ++ [t], appended := s.appended ++ [t] } :=
  { h with
    order := by rw [h.order, append_assoc] }

theorem Inv.take (hidle : s.writer = .idle) (hok : oneFile s .take = true) :
    Inv files { s with pending := [], writing := true, writer := .writing s.pending none } :=
  { h with
    order := by
      have horder := h.order
      rw [hidle] at horder
      simpa [WriterPc.rest] using horder
    synced := fun e he => by
      have hsynced := h.synced e he
      rw [hidle] at hsynced
      exact hsynced
    uniform := by
      cases hp : s.pending with
      | nil => exact .nil rfl rfl
      | cons u us =>
        refine ⟨u.fd, fun t ht => ?_, .inl rfl⟩
        have hall := List.all_eq_true.1 hok t (hp ▸ ht)
        rw [hp] at hall
        exact of_decide_eq_true hall
    idle := fun hw => by cases hw }

theorem Inv.write (hw : s.writer = .writing (t :: rest) last) : Inv files { s with
      files := writeTask s.files t
      disk := s.disk ++ [(t, false)]
      writer := .writing rest (some t.fd) } := by
  obtain ⟨fd, hrest, hlast⟩ := h.uniform
  have horder := h.order
  rw [hw] at hrest hlast horder
  have htfd : t.fd = fd := hrest t mem_cons_self
  exact { h with
    order := by
      rw [horder]
      simp [WriterPc.rest]
    contents := by
      rw [h.contents, map_append, foldl_append]
      rfl
    synced := fun e he => by
      rcases mem_append.1 he with he | he
      · rcases h.synced e he with hsync | hfd
        · exact .inl hsync
        · rw [hw] at hfd
          right
          rcases hlast with hnone | hsome
          · rw [hnone] at hfd
            cases hfd
          · rw [hsome] at hfd
            rw [← Option.some.inj hfd, htfd]
            rfl
      · rw [mem_singleton.1 he]
        exact .inr rfl
    uniform := ⟨fd, fun u hu => hrest u (mem_cons_of_mem _ hu), .inr (congrArg some htfd)⟩
    idle := fun hwr => by cases (h.idle hwr).symm.trans hw }

theorem Inv.sync (hw : s.writer = .writing [] (some fd)) :
    Inv files { s with disk := s.sync fd, writer := .synced } := by
  have horder := h.order
  rw [hw] at horder
  exact { h with
    order := by
      rw [s.sync_fst, horder]
      rfl
    contents := by rw [s.sync_fst, h.contents]
    synced := fun e he => by
      obtain ⟨d, hd, rfl⟩ := List.mem_map.1 he
      split
      case isTrue => exact .inl rfl
      case isFalse hne =>
        rcases h.synced d hd with hsync | hfd
        · exact .inl hsync
        · rw [hw] at hfd
          exact absurd (Option.some.inj hfd).symm hne
    uniform := .nil rfl rfl
    idle := fun hwr => by cases (h.idle hwr).symm.trans hw }

theorem Inv.finish (hw : s.writer = .synced) : Inv files { s with writing := false, writer := .idle } := by
  have horder := h.order
  have hsynced := h.synced
  rw [hw] at horder hsynced
  exact { h with
    order := horder
    synced := hsynced
    uniform := .nil rfl rfl
    idle := fun _ => rfl }

theorem Inv.durable (hp : s.pending = []) (hw : s.writing = false) (n : Nat) : s.durable n = true := by
  have hidle := h.idle hw
  have horder := h.order
  have hsynced := h.synced
  rw [hidle] at horder hsynced
  rw [hp, append_nil] at horder
  have hdisk : s.disk = s.appended.map fun t => (t, true) := by
    have hrest : WriterPc.idle.rest = [] := rfl
    rw [horder, hrest, append_nil, List.map_map]
    apply (List.map_id s.disk).symm.trans
    apply map_congr_left
    intro e he
    have htrue : e.2 = true := (hsynced e he).resolve_right (by rintro ⟨⟩)
    rw [comp_apply, ← htrue]
    rfl
  rw [State.durable, hdisk, map_take]
  exact decide_eq_true rfl

theorem Inv.flushCheck (f n : Nat) : Inv files (flushCheck s f n) := by
  rw [Flush.flushCheck]
  split
  case isTrue => exact h
  case isFalse hdone =>
    simp only [Bool.or_eq_true, Bool.not_eq_true', not_or, Bool.not_eq_false,
      Bool.not_eq_true] at hdone
    have hdurable := h.durable (List.isEmpty_iff.1 hdone.1) hdone.2 n
    exact { h with
      broken := by
        rw [h.broken, hdurable]
        rfl }

theorem Inv.writerStep (hok : oneFile s a = true) (hs : writerStep s a = some s') : Inv files s' := by
  cases a with
  | take =>
    simp only [Flush.writerStep] at hs
    split at hs
    case h_1 hidle =>
      split at hs
      case isTrue => cases hs
      case isFalse =>
        cases hs
        exact h.take hidle hok
    case h_2 => cases hs
  | write =>
    simp only [Flush.writerStep] at hs
    split at hs
    case h_1 hw =>
      cases hs
      exact h.write hw
    case h_2 => cases hs
  | sync =>
    simp only [Flush.writerStep] at hs
    split at hs
    case h_1 hw =>
      cases hs
      exact h.sync hw
    case h_2 => cases hs
  | finish =>
    simp only [Flush.writerStep] at hs
    split at hs
    case h_1 hw =>
      cases hs
      exact h.finish hw
    case h_2 => cases hs
  | append t | flushStart f | flushCheck f => cases hs

theorem Inv.step (hok : oneFile s a = true) (hs : step s a = some s') : Inv files s' := by
  cases a with
  | append t =>
    cases hs
    exact h.append t
  | flushStart f =>
    simp only [Flush.step] at hs
    split at hs
    · cases hs
      exact { h with }
    · cases hs
  | flushCheck f =>
    simp only [Flush.step] at hs
    split at hs
    · cases hs
    · cases hs
      exact h.flushCheck f _
  | take | write | sync | finish => exact h.writerStep hok hs

end

/-- If every batch is for one descriptor, a flush returns only when all before it is written and
synced. -/
theorem mqWalFlush_durable (h : (system files).Reachable (fun s a => oneFile s a = true) s) :
    s.broken = false ∧ s.files = (s.disk.map Prod.fst).foldl writeTask files := by
  have hinv : Inv files s := by
    apply h.invariant (P := Inv files)
    · rintro s rfl
      exact Inv.start
    · intro s a s' hs hok hstep
      exact hs.step hok hstep
  exact ⟨hinv.broken, hinv.contents⟩

theorem mqWalFlush_durable_two :
    ∃ s, (system fun _ => []).Reachable (fun s a => oneFile s a = true) s ∧
      (s.broken = false ∧ s.files = (s.disk.map Prod.fst).foldl writeTask fun _ => []) ∧
      s.appended.length = 2 ∧ s.flush 0 = none := by
  have hrun := (system fun _ => []).run (p := fun s a => oneFile s a = true) (start fun _ => [])
    [.append ⟨3, [1], none, 0⟩, .append ⟨3, [2], none, 0⟩, .flushStart 0, .take, .write, .write, .sync,
      .finish, .flushCheck 0] rfl rfl
  exact ⟨_, hrun, mqWalFlush_durable hrun, rfl, rfl⟩

/-- Of a batch for two files only the second is synced. -/
theorem mqWalFlush_unsynced :
    ∃ s, (system fun _ => []).Reachable (fun _ _ => True) s ∧ s.broken = true ∧
      s.disk.map (fun e => (e.1.fd, e.2)) = [(3, false), (4, true)] ∧ s.flush 0 = none := by
  have hrun := (system fun _ => []).run (p := fun _ _ => True) (start fun _ => [])
    [.append ⟨3, [1], none, 0⟩, .append ⟨4, [2], none, 0⟩, .flushStart 0, .take, .write, .write, .sync,
      .finish, .flushCheck 0] rfl rfl
  exact ⟨_, hrun, rfl, rfl, rfl⟩

end Csilk.Messaging.Flush
