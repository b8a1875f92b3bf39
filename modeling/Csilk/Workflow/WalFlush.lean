import Csilk.Workflow.Engine
import Mathlib.Algebra.Group.Nat.Defs

namespace Csilk.Workflow.WalFlush
open Csilk.Lib Function List

structure Entry where
  walPath : Bytes
  type : EventType
  payload : Bytes
  deriving DecidableEq

structure WalTask where
  walPath : Option Bytes
  type : EventType
  payload : Option Bytes
  len : Nat
  deriving DecidableEq

/-- Which allocations succeed: the task, its path and its payload. -/
structure Alloc where
  task : Bool
  walPath : Bool
  payload : Bool

inductive WriterPc
  | unstarted
  | waiting
  | popped (t : WalTask)
  | header (t : WalTask) (timestamp : Nat)
  | written
  | exited

/-- `flush` gives for each running `_wf_wal_flush` how many calls had returned when it started, and
`ended` for each that has returned. -/
structure State where
  queue : List WalTask
  shutdown : Bool
  writer : WriterPc
  appending : Nat → Option Entry
  files : Bytes → Bytes
  returned : List Entry
  flush : Nat → Option Nat
  ended : List Nat

inductive Act
  | append (th : Nat) (e : Entry) (created : Bool)
  | enqueue (th : Nat) (alloc : Alloc)
  | pop
  | writeHeader (timestamp : Nat)
  | writePayload
  | sync
  | exit
  | cleanup
  | flushStart (f : Nat)
  | flushCheck (f : Nat)

def littleEndian (width n : Nat) : Bytes :=
  (List.range width).map fun i => UInt8.ofNat (n / 256 ^ i)

def EventType.code : EventType → Nat
  | .start => 1
  | .nodeStart => 2
  | .nodeFinish => 3
  | .pause => 4
  | .ended => 5

def magic : Nat := 0x5746414C

def header (t : WalTask) (timestamp : Nat) : Bytes :=
  littleEndian 4 magic ++ littleEndian 1 (EventType.code t.type) ++ littleEndian 8 timestamp ++
    littleEndian 4 t.len

def WalTask.body (t : WalTask) : Option Bytes :=
  if 0 < t.len then t.payload.map fun p => p.take t.len else none

def Alloc.build (alloc : Alloc) (e : Entry) : WalTask where
  walPath := if alloc.walPath then some e.walPath else none
  type := e.type
  payload := if 0 < e.payload.length && alloc.payload then some e.payload else none
  len := e.payload.length

def write (files : Bytes → Bytes) (path bs : Bytes) : Bytes → Bytes :=
  update files path (files path ++ bs)

/-- Every write is complete; a file is opened whenever there is a path. -/
def writerStep (s : State) : Act → Option State
  | .pop =>
    match s.writer, s.queue with
    | .waiting, t :: queue => some { s with queue := queue, writer := .popped t }
    | _, _ => none
  | .exit =>
    match s.writer, s.queue with
    | .waiting, [] => if s.shutdown then some { s with writer := .exited } else none
    | _, _ => none
  | .writeHeader timestamp =>
    match s.writer with
    | .popped t =>
      match t.walPath with
      | none => some { s with writer := .waiting }
      | some path =>
        some { s with
          files := write s.files path (header t timestamp)
          writer := if t.body.isSome then .header t timestamp else .written }
    | _ => none
  | .writePayload =>
    match s.writer with
    | .header t _ =>
      some { s with
        files := write s.files (t.walPath.getD []) (t.body.getD [])
        writer := .written }
    | _ => none
  | .sync =>
    match s.writer with
    | .written => some { s with writer := .waiting }
    | _ => none
  | _ => none

def WriterPc.create (w : WriterPc) (shutdown created : Bool) : WriterPc :=
  match w with
  | .unstarted => if !shutdown && created then .waiting else .unstarted
  | w => w

def step (s : State) : Act → Option State
  | .append th e created =>
    match s.appending th with
    | none =>
      some { s with
        writer := s.writer.create s.shutdown created
        appending := update s.appending th (some e) }
    | some _ => none
  | .enqueue th alloc =>
    match s.appending th with
    | none => none
    | some e =>
      let s' := { s with appending := update s.appending th none }
      -- without a task the call returns -1
      if alloc.task then
        some { s' with queue := s.queue ++ [alloc.build e], returned := s.returned ++ [e] }
      else some s'
  | .cleanup => some { s with shutdown := true }
  | .flushStart f =>
    match s.flush f with
    | none => some { s with flush := update s.flush f (some s.returned.length) }
    | some _ => none
  | .flushCheck f =>
    match s.flush f with
    | none => none
    | some n =>
      if s.queue.isEmpty then
        some { s with flush := update s.flush f none, ended := s.ended ++ [n] }
      else some s
  | a => writerStep s a

def start (files : Bytes → Bytes) : State :=
  ⟨[], false, .unstarted, fun _ => none, files, [], fun _ => none, []⟩

def system (files : Bytes → Bytes) : System State Act where
  init := (· = start files)
  step := step

def WriterPc.held : WriterPc → List WalTask
  | .popped t | .header t _ => [t]
  | _ => []

/-- The queue is found empty only while the writer holds no task, and a task has the copies of its
path and payload. -/
def settled (s : State) : Act → Bool
  | .enqueue _ alloc => !alloc.task || alloc.walPath && alloc.payload
  | .flushCheck _ => !s.queue.isEmpty || s.writer.held.isEmpty
  | _ => true

def Entry.task (e : Entry) : WalTask := Alloc.build ⟨true, true, true⟩ e

def Entry.record (e : Entry) (timestamp : Nat) : Bytes := header e.task timestamp ++ e.payload

def records (path : Bytes) (done : List (Entry × Nat)) : Bytes :=
  (done.filter fun d => d.1.walPath = path).flatMap fun d => d.1.record d.2

/-- The records of the first `n` calls that returned 0 are in their files, in order. -/
def Complete (files : Bytes → Bytes) (s : State) (n : Nat) : Prop :=
  ∃ done : List (Entry × Nat), done.map Prod.fst = s.returned.take n ∧ done.length = n ∧
    ∀ path, files path ++ records path done <+: s.files path

def WriterPc.torn (w : WriterPc) (path : Bytes) : Bytes :=
  match w with
  | .header t timestamp => if t.walPath = some path then WalFlush.header t timestamp else []
  | _ => []

structure Inv (files : Bytes → Bytes) (s : State) (done : List (Entry × Nat)) : Prop where
  order : ∃ rest : List Entry, s.returned = done.map Prod.fst ++ rest ∧
    rest.map Entry.task = s.writer.held ++ s.queue
  contents : ∀ path, s.files path = files path ++ records path done ++ s.writer.torn path
  flush : ∀ f n, s.flush f = some n → n ≤ s.returned.length
  ended : ∀ n ∈ s.ended, n ≤ done.length

theorem records_append (path : Bytes) (done more : List (Entry × Nat)) :
    records path (done ++ more) = records path done ++ records path more := by
  rw [records, filter_append, flatMap_append]
  rfl

theorem Inv.start : Inv files (start files) [] := by
  constructor
  · exact ⟨[], rfl, rfl⟩
  · intro path
    exact ((append_nil _).trans (append_nil _)).symm
  · rintro _ _ ⟨⟩
  · rintro _ ⟨⟩

theorem WriterPc.create_held (w : WriterPc) : (w.create shutdown created).held = w.held := by
  cases w with
  | unstarted =>
    rw [WriterPc.create]
    split <;> rfl
  | waiting | popped | header | written | exited => rfl

theorem WriterPc.create_torn (w : WriterPc) : (w.create shutdown created).torn = w.torn := by
  cases w with
  | unstarted =>
    rw [WriterPc.create]
    split <;> rfl
  | waiting | popped | header | written | exited => rfl

theorem Alloc.build_eq {alloc : Alloc} (hpath : alloc.walPath = true)
    (hpayload : alloc.payload = true) (e : Entry) : alloc.build e = e.task := by
  rw [Alloc.build, Entry.task, Alloc.build, hpath, hpayload]

theorem Entry.body (e : Entry) : e.task.body.getD [] = e.payload := by
  cases hpayload : e.payload with
  | nil | cons b bs => simp [WalTask.body, Entry.task, Alloc.build, hpayload]

theorem Entry.body_none {e : Entry} (h : e.task.body.isSome = false) : e.payload = [] := by
  rw [← e.body, Option.isSome_eq_false_iff.1 h |> Option.isNone_iff_eq_none.1]
  rfl

theorem records_single (path : Bytes) (e : Entry) (timestamp : Nat) :
    records path [(e, timestamp)] = if e.walPath = path then e.record timestamp else [] := by
  rw [records]
  by_cases hpath : e.walPath = path
  · simp [hpath]
  · simp [hpath]

theorem write_apply (files : Bytes → Bytes) (p bs path : Bytes) :
    write files p bs path = files path ++ if p = path then bs else [] := by
  rw [write]
  by_cases hpath : p = path
  · rw [hpath, update_self, if_pos rfl]
  · rw [update_of_ne (Ne.symm hpath), if_neg hpath, append_nil]

section

variable (h : Inv files s done)
include h

theorem Inv.complete (hn : n ∈ s.ended) : Complete files s n := by
  have hle := h.ended n hn
  obtain ⟨rest, hreturned, -⟩ := h.order
  refine ⟨done.take n, ?_, length_take_of_le hle, ?_⟩
  · rw [hreturned, take_append_of_le_length (by rwa [length_map]), map_take]
  · intro path
    rw [h.contents, append_assoc]
    apply (prefix_append_right_inj _).2
    have hsplit := records_append path (done.take n) (done.drop n)
    rw [take_append_drop] at hsplit
    rw [hsplit, append_assoc]
    exact prefix_append _ _

theorem Inv.frame (hreturned : s'.returned = s.returned)
    (hheld : s'.writer.held ++ s'.queue = s.writer.held ++ s.queue) (hfiles : s'.files = s.files)
    (htorn : s'.writer.torn = s.writer.torn)
    (hflush : ∀ f n, s'.flush f = some n → n ≤ s.returned.length)
    (hended : ∀ n ∈ s'.ended, n ≤ done.length) : Inv files s' done := by
  constructor
  · rw [hreturned, hheld]
    exact h.order
  · rw [hfiles, htorn]
    exact h.contents
  · rw [hreturned]
    exact hflush
  · exact hended

theorem Inv.enqueue (e : Entry) (appending : Nat → Option Entry) : Inv files { s with
      appending := appending
      queue := s.queue ++ [e.task]
      returned := s.returned ++ [e] } done := by
  constructor
  · obtain ⟨rest, hreturned, htasks⟩ := h.order
    refine ⟨rest ++ [e], ?_, ?_⟩
    · rw [hreturned, append_assoc]
    · rw [map_append, htasks, append_assoc]
      rfl
  · exact h.contents
  · intro f n hn
    rw [length_append]
    exact Nat.le_add_right_of_le (h.flush f n hn)
  · exact h.ended

theorem Inv.append (hok : settled s (.enqueue th alloc) = true)
    (hs : step s (.enqueue th alloc) = some s') : Inv files s' done := by
  rw [step] at hs
  split at hs
  · cases hs
  case h_2 e he =>
    split at hs
    case isTrue htask =>
      rw [settled, htask, Bool.not_true, Bool.false_or, Bool.and_eq_true] at hok
      rw [Alloc.build_eq hok.1 hok.2] at hs
      cases hs
      exact h.enqueue e _
    case isFalse =>
      cases hs
      exact h.frame rfl rfl rfl rfl h.flush h.ended

theorem Inv.held (hheld : s.writer.held = [t]) : ∃ e rest,
    t = e.task ∧ s.returned = done.map Prod.fst ++ e :: rest ∧ rest.map Entry.task = s.queue := by
  obtain ⟨rest, hreturned, htasks⟩ := h.order
  rw [hheld] at htasks
  obtain ⟨e, rest, rfl, rfl, hrest⟩ := map_eq_cons_iff.1 htasks
  exact ⟨e, rest, rfl, hreturned, hrest⟩

theorem Inv.finish (hreturned : s.returned = done.map Prod.fst ++ e :: rest)
    (hqueue : rest.map Entry.task = s.queue) (timestamp : Nat)
    (hfiles : ∀ path, files' path = files path ++ records path done ++
      if e.walPath = path then e.record timestamp else []) :
    Inv files { s with files := files', writer := .written } (done ++ [(e, timestamp)]) := by
  constructor
  · refine ⟨rest, ?_, hqueue⟩
    rw [hreturned, map_append, append_assoc]
    rfl
  · intro path
    apply (hfiles path).trans
    rw [records_append, records_single, ← append_assoc]
    exact (append_nil _).symm
  · exact h.flush
  · intro n hn
    rw [length_append]
    exact Nat.le_add_right_of_le (h.ended n hn)

theorem Inv.writeHeader
    (hs : writerStep s (.writeHeader timestamp) = some s') : ∃ done', Inv files s' done' := by
  rw [writerStep] at hs
  split at hs
  case h_2 => cases hs
  case h_1 t hw =>
    have hheld : s.writer.held = [t] := congrArg WriterPc.held hw
    have htorn : s.writer.torn = fun _ => [] := congrArg WriterPc.torn hw
    obtain ⟨e, rest, rfl, hreturned, hqueue⟩ := h.held hheld
    have hcontents (path : Bytes) : write s.files e.walPath (header e.task timestamp) path =
        files path ++ records path done ++
          if e.walPath = path then header e.task timestamp else [] := by
      rw [write_apply, h.contents, htorn, append_nil]
    cases hs
    cases hbody : e.task.body.isSome with
    | true =>
      refine ⟨done, ⟨e :: rest, hreturned, ?_⟩, ?_, h.flush, h.ended⟩
      · rw [map_cons, hqueue]
        rfl
      · intro path
        dsimp only
        rw [hcontents]
        congr 1
        show _ = if some e.walPath = some path then _ else _
        simp only [Option.some.injEq]
    | false =>
      refine ⟨_, h.finish hreturned hqueue timestamp ?_⟩
      intro path
      rw [hcontents, Entry.record, Entry.body_none hbody, append_nil]

theorem Inv.writePayload (hs : writerStep s .writePayload = some s') : ∃ done', Inv files s' done' := by
  rw [writerStep] at hs
  split at hs
  case h_2 => cases hs
  case h_1 t timestamp hw =>
    have hheld : s.writer.held = [t] := congrArg WriterPc.held hw
    obtain ⟨e, rest, rfl, hreturned, hqueue⟩ := h.held hheld
    cases hs
    refine ⟨_, h.finish hreturned hqueue timestamp ?_⟩
    intro path
    have htorn : s.writer.torn path =
        if e.walPath = path then header e.task timestamp else [] := by
      rw [hw]
      show (if some e.walPath = some path then _ else _) = _
      simp only [Option.some.injEq]
    show write s.files e.walPath (e.task.body.getD []) path = _
    rw [write_apply, h.contents, htorn, append_assoc, e.body]
    congr 1
    split
    · rfl
    · rfl

theorem Inv.goto (hw : s.writer = w) (hheld : w'.held ++ queue = w.held ++ s.queue)
    (htorn : w'.torn = w.torn) : Inv files { s with queue := queue, writer := w' } done := by
  subst hw
  exact h.frame rfl hheld rfl htorn h.flush h.ended

theorem Inv.pop (hs : writerStep s .pop = some s') : Inv files s' done := by
  rw [writerStep] at hs
  split at hs
  case h_2 => cases hs
  case h_1 t queue hw hqueue =>
    cases hs
    exact h.goto hw hqueue.symm rfl

theorem Inv.exit (hs : writerStep s .exit = some s') : Inv files s' done := by
  rw [writerStep] at hs
  split at hs
  case h_2 => cases hs
  case h_1 hw hqueue =>
    obtain ⟨-, rfl⟩ := of_enabled hs
    exact h.goto hw rfl rfl

theorem Inv.sync (hs : writerStep s .sync = some s') : Inv files s' done := by
  rw [writerStep] at hs
  split at hs
  case h_2 => cases hs
  case h_1 hw =>
    cases hs
    exact h.goto hw rfl rfl

theorem Inv.flushCheck (hok : settled s (.flushCheck f) = true)
    (hs : step s (.flushCheck f) = some s') : Inv files s' done := by
  rw [WalFlush.step] at hs
  split at hs
  case h_1 => cases hs
  case h_2 n hn =>
    split at hs
    case isFalse =>
      cases hs
      exact h
    case isTrue hempty =>
      cases hs
      rw [settled, hempty] at hok
      have hall : s.returned = done.map Prod.fst := by
        obtain ⟨rest, hreturned, htasks⟩ := h.order
        rw [List.isEmpty_iff.1 hempty, List.isEmpty_iff.1 hok] at htasks
        rw [hreturned, map_eq_nil_iff.1 htasks, append_nil]
      have hle := h.flush f n hn
      rw [hall, length_map] at hle
      refine h.frame rfl rfl rfl rfl ?_ ?_
      · intro g m hm
        dsimp only at hm
        rw [update_apply] at hm
        split at hm
        · cases hm
        · exact h.flush g m hm
      · exact forall_mem_append.2 ⟨h.ended, forall_mem_singleton.2 hle⟩

theorem Inv.step (hok : settled s a = true) (hs : step s a = some s') : ∃ done', Inv files s' done' := by
  cases a with
  | append th e created =>
    rw [WalFlush.step] at hs
    split at hs
    case h_2 => cases hs
    case h_1 =>
      cases hs
      refine ⟨done, h.frame rfl ?_ rfl (WriterPc.create_torn _) h.flush h.ended⟩
      rw [WriterPc.create_held]
  | enqueue th alloc => exact ⟨done, h.append hok hs⟩
  | cleanup =>
    cases hs
    exact ⟨done, h.frame rfl rfl rfl rfl h.flush h.ended⟩
  | flushStart f =>
    rw [WalFlush.step] at hs
    split at hs
    case h_2 => cases hs
    case h_1 =>
      cases hs
      refine ⟨done, h.frame rfl rfl rfl rfl ?_ h.ended⟩
      intro g n hn
      dsimp only at hn
      rw [update_apply] at hn
      split at hn
      · cases hn
        exact le_rfl
      · exact h.flush g n hn
  | flushCheck f => exact ⟨done, h.flushCheck hok hs⟩
  | pop => exact ⟨done, h.pop hs⟩
  | writeHeader timestamp => exact h.writeHeader hs
  | writePayload => exact h.writePayload hs
  | sync => exact ⟨done, h.sync hs⟩
  | exit => exact ⟨done, h.exit hs⟩

end

/-- If flushes find the queue empty only while the writer holds no task, all that was appended
before is in the files. -/
theorem wfWalFlush_complete (files : Bytes → Bytes) (s : State)
    (h : (system files).Reachable (fun s a => settled s a = true) s) :
    ∀ n ∈ s.ended, Complete files s n := by
  have hinv : ∃ done, Inv files s done := by
    apply h.invariant (P := fun s => ∃ done, Inv files s done)
    · intro s hs
      cases hs
      exact ⟨[], .start⟩
    · intro s a s' hs hok hstep
      obtain ⟨done, hdone⟩ := hs
      exact hdone.step hok hstep
  obtain ⟨done, hdone⟩ := hinv
  intro n hn
  exact hdone.complete hn

def started : Entry := ⟨ascii "w.wal", .nodeStart, ascii "a"⟩

theorem wfWalFlush_complete_started : ∃ s, (system fun _ => []).Reachable
    (fun s a => settled s a = true) s ∧ s.ended = [1] ∧ ∀ n ∈ s.ended, Complete (fun _ => []) s n := by
  have hrun := (system fun _ => []).run (p := fun s a => settled s a = true) (start fun _ => [])
    [.append 0 started true, .enqueue 0 ⟨true, true, true⟩, .flushStart 0, .flushCheck 0, .pop,
      .writeHeader 9, .writePayload, .flushCheck 0] rfl rfl
  exact ⟨_, hrun, rfl, wfWalFlush_complete _ _ hrun⟩

/-- The writer has popped the only record when the flush looks, and the file is empty. -/
theorem wfWalFlush_early : ∃ s, (system fun _ => []).Reachable (fun _ _ => True) s ∧
    s.returned = [started] ∧ s.ended = [1] ∧ s.files started.walPath = [] ∧
    ¬ Complete (fun _ => []) s 1 := by
  have hrun := (system fun _ => []).run (p := fun _ _ => True) (start fun _ => [])
    [.append 0 started true, .enqueue 0 ⟨true, true, true⟩, .flushStart 0, .pop, .flushCheck 0] rfl rfl
  refine ⟨_, hrun, rfl, rfl, rfl, ?_⟩
  intro hcomplete
  obtain ⟨done, hdone, hlen, hfiles⟩ := hcomplete
  obtain ⟨d, rfl⟩ := length_eq_one_iff.1 hlen
  obtain ⟨e, timestamp⟩ := d
  obtain rfl : e = started := head_eq_of_cons_eq hdone
  have hnil := prefix_nil.1 (hfiles started.walPath)
  cases hnil

end Csilk.Workflow.WalFlush
