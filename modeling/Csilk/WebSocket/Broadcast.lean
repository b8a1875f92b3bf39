import Csilk.Lib.Transition
import Csilk.WebSocket.Rooms

namespace Csilk.WebSocket.Rooms
open Csilk.Lib Function List

inductive Call
  | join (c : Nat) (room : Bytes)
  | leave (c : Nat) (room : Bytes)
deriving DecidableEq

def Call.ctx : Call → Nat
  | .join c _ | .leave c _ => c

def Call.room : Call → Bytes
  | .join _ room | .leave _ room => room

def Call.run (T : Table) : Call → Table
  | .join c room => T.join c room
  | .leave c room => T.leave c room

/-- `check`, `memset` and `flag` are those of `ws_room_manager_init`, which no mutex guards. -/
inductive Pc
  | idle
  | check (call : Call)
  | memset (call : Call)
  | flag (call : Call)
  | enter (call : Call)
  | lookup (room payload : Bytes)
  | loop (room : Bytes) (snap i : Nat) (payload : Bytes)
deriving DecidableEq

def Pc.call : Pc → Option Call
  | .check call | .memset call | .flag call | .enter call => some call
  | .idle | .lookup _ _ | .loop _ _ _ _ => none

def Pc.delivers (room : Bytes) : Pc → Bool
  | .loop name _ _ _ => name = room
  | _ => false

structure Sent where
  ctx : Nat
  payload : Bytes
  destroyed : Bool

/-- `joined` has the rooms that each context has joined and not left. -/
structure State where
  initialized : Bool
  table : Table
  threads : List Pc
  joined : List (Nat × Bytes)
  destroyed : List Nat
  sent : List Sent

def State.start (threads : Nat) : State := ⟨false, .empty, .replicate threads .idle, [], [], []⟩

def State.goto (s : State) (t : Nat) (pc : Pc) : State := { s with threads := s.threads.set t pc }

def Call.note (joined : List (Nat × Bytes)) : Call → List (Nat × Bytes)
  | .join c room => (c, room) :: joined
  | .leave c room => joined.filter (· ≠ (c, room))

def threadStep (s : State) (t : Nat) : Pc → Option State
  | .idle => none
  | .check call => some (s.goto t (if s.initialized then .enter call else .memset call))
  | .memset call => some { s.goto t (.flag call) with table := { s.table with rooms := [] } }
  | .flag call => some { s.goto t (.enter call) with initialized := true }
  | .enter call =>
    some { s.goto t .idle with table := call.run s.table, joined := call.note s.joined }
  | .lookup name payload =>
    match findRoom s.table.rooms name with
    | none => some (s.goto t .idle)
    | some room => some (s.goto t (.loop name room.snapshot 0 payload))
  | .loop name snap i payload =>
    match (s.table.clients snap)[i]? with
    | none => some (s.goto t .idle)
    | some c =>
      some { s.goto t (.loop name snap (i + 1) payload) with
        sent := s.sent ++ [⟨c, payload, c ∈ s.destroyed⟩] }

def topicStart : Bytes := ascii "ws.room."

inductive Event
  | call (t : Nat) (call : Call)
  | message (t : Nat) (topic payload : Bytes)
  | step (t : Nat)
  | destroy (c : Nat)

def eventStep (s : State) : Event → Option State
  | .call t call =>
    if s.threads[t]? = some .idle ∧ call.ctx ∉ s.destroyed then some (s.goto t (.check call))
    else none
  | .message t topic payload =>
    if s.threads[t]? = some .idle then
      if topicStart.isPrefixOf topic then
        some (s.goto t (.lookup (topic.drop topicStart.length) payload))
      else some s
    else none
  | .step t => s.threads[t]?.bind (threadStep s t)
  | .destroy c =>
    if (∀ p ∈ s.joined, p.1 ≠ c) ∧ ∀ pc ∈ s.threads, pc.call.all fun call => call.ctx ≠ c then
      some { s with destroyed := c :: s.destroyed }
    else none

def broadcasts : System State Event where
  init s := ∃ n, s = .start n
  step := eventStep

def Call.changes (T : Table) : Call → Bool
  | .join c room => c ∉ T.members room
  | .leave c room => c ∈ T.members room

/-- No call changes a room during a delivery, and the manager is cleared only while it has no rooms.
-/
def apart (s : State) : Event → Bool
  | .step t =>
    match s.threads[t]? with
    | some (.enter call) => !call.changes s.table || s.threads.all fun pc => !pc.delivers call.room
    | some (.memset _) => s.table.rooms.isEmpty
    | _ => true
  | _ => true

/-- The contexts are distinct and have joined the room. -/
def Noted (joined : List (Nat × Bytes)) (room : Bytes) (l : List Nat) : Prop :=
  l.Nodup ∧ ∀ c ∈ l, (c, room) ∈ joined

structure Inv (s : State) : Prop where
  table : s.table.Wf (Noted s.joined)
  loops : ∀ room snap i payload, .loop room snap i payload ∈ s.threads → ⟨room, snap⟩ ∈ s.table.rooms
  calls : ∀ pc ∈ s.threads, ∀ call, pc.call = some call → call.ctx ∉ s.destroyed
  destroyed : ∀ p ∈ s.joined, p.1 ∉ s.destroyed
  sent : ∀ d ∈ s.sent, d.destroyed = false

theorem Inv.start (n : Nat) : Inv (.start n) where
  table := .empty
  loops _ _ _ _ h := by cases eq_of_mem_replicate h
  calls pc h call hcall := by
    rw [eq_of_mem_replicate h] at hcall
    cases hcall
  destroyed _ h := by cases h
  sent _ h := by cases h

theorem Inv.goto (h : Inv s) (pc : Pc)
    (hloop : ∀ room snap i payload, pc = .loop room snap i payload → ⟨room, snap⟩ ∈ s.table.rooms)
    (hcall : ∀ call, pc.call = some call → call.ctx ∉ s.destroyed) (t : Nat) :
    Inv (s.goto t pc) := by
  refine { h with loops := ?_, calls := ?_ }
  · intro room snap i payload hmem
    rcases mem_or_eq_of_mem_set hmem with hmem | heq
    · exact h.loops room snap i payload hmem
    · exact hloop room snap i payload heq.symm
  · intro x hx call hc
    rcases mem_or_eq_of_mem_set hx with hx | rfl
    · exact h.calls x hx call hc
    · exact hcall call hc

theorem Inv.pursue (h : Inv s) (pc : Pc) (hpc : pc.call = some call) (hcall : call.ctx ∉ s.destroyed)
    (t : Nat) : Inv (s.goto t pc) := by
  apply h.goto
  · intro room snap i payload heq
    rw [heq] at hpc
    cases hpc
  · intro call' heq
    cases hpc.symm.trans heq
    exact hcall

theorem Inv.idle (h : Inv s) (t : Nat) : Inv (s.goto t .idle) := by
  apply h.goto
  · simp
  · rintro _ ⟨⟩

theorem Call.run_wf {T : Table} (h : T.Wf (Noted joined)) (call : Call) :
    (call.run T).Wf (Noted (call.note joined)) ∧ ∀ x ∈ T.rooms,
      (x.roomName = call.room → call.changes T = false) → x ∈ (call.run T).rooms := by
  cases call with
  | join c name =>
    have hmono (n : Bytes) (l : List Nat) (hl : Noted joined n l) : Noted ((c, name) :: joined) n l :=
      ⟨hl.1, fun c hc => mem_cons_of_mem _ (hl.2 c hc)⟩
    obtain ⟨hwf, hkept⟩ := h.join (c := c) ⟨nodup_nil, by simp⟩ (fun n _ => hmono n)
      (fun l _ => hmono name l) fun l hc hl => ⟨concat_eq_append ▸ hl.1.concat hc,
        forall_mem_append.2 ⟨(hmono name l hl).2, forall_mem_singleton.2 mem_cons_self⟩⟩
    refine ⟨hwf, fun x hx hname => hkept x hx fun heq => ?_⟩
    exact not_not.1 (of_decide_eq_false (hname heq))
  | leave c name =>
    have hmono (n : Bytes) (l : List Nat) (hne : ∀ x ∈ l, (x, n) ≠ (c, name)) (hl : Noted joined n l) :
        Noted (joined.filter (· ≠ (c, name))) n l :=
      ⟨hl.1, fun x hx => mem_filter.2 ⟨hl.2 x hx, decide_eq_true (hne x hx)⟩⟩
    have hself (l : List Nat) (hc : c ∉ l) : Noted joined name l → Noted (joined.filter (· ≠ (c, name))) name l :=
      hmono name l fun x hx heq => by
        cases heq
        exact hc hx
    obtain ⟨hwf, hkept⟩ := h.leave (c := c) (fun n hn l => hmono n l fun x _ heq => hn (Prod.ext_iff.1 heq).2)
      hself fun l hl => hself _ hl.1.not_mem_erase
        ⟨hl.1.erase c, fun x hx => hl.2 x (mem_of_mem_erase hx)⟩
    exact ⟨hwf, fun x hx hname => hkept x hx fun heq => of_decide_eq_false (hname heq)⟩

theorem Call.mem_note {joined : List (Nat × Bytes)} {call : Call} (hp : p ∈ call.note joined) :
    p ∈ joined ∨ p.1 = call.ctx := by
  cases call with
  | join c room =>
    rcases mem_cons.1 hp with rfl | hp
    · exact .inr rfl
    · exact .inl hp
  | leave c room => exact .inl (mem_filter.1 hp).1

theorem Inv.enter {call : Call} (h : Inv s) (hcall : call.ctx ∉ s.destroyed)
    (hapart : call.changes s.table = false ∨ ∀ pc ∈ s.threads, pc.delivers call.room = false) :
    Inv { s with table := call.run s.table, joined := call.note s.joined } := by
  obtain ⟨hwf, hkept⟩ := call.run_wf h.table
  refine ⟨hwf, ?_, h.calls, ?_, h.sent⟩
  · intro room snap i payload hmem
    apply hkept _ (h.loops room snap i payload hmem)
    intro hroom
    rcases hapart with hkeep | hnone
    · exact hkeep
    · have hdelivers := of_decide_eq_false (hnone _ hmem)
      exact absurd hroom hdelivers
  · intro p hp
    rcases Call.mem_note hp with hp | hctx
    · exact h.destroyed p hp
    · rw [hctx]
      exact hcall

theorem Inv.send (h : Inv s) (hmem : .loop room snap i payload ∈ s.threads)
    (hc : (s.table.clients snap)[i]? = some c) (payload' : Bytes) :
    Inv { s with sent := s.sent ++ [⟨c, payload', c ∈ s.destroyed⟩] } := by
  refine { h with sent := ?_ }
  refine forall_mem_append.2 ⟨h.sent, forall_mem_singleton.2 ?_⟩
  apply decide_eq_false
  have hjoined := (h.table.ok _ (h.loops room snap i payload hmem)).2 c (mem_of_getElem? hc)
  exact h.destroyed _ hjoined

theorem Inv.destroy (h : Inv s) (hleft : ∀ p ∈ s.joined, p.1 ≠ c)
    (hcalls : ∀ pc ∈ s.threads, pc.call.all (fun call => call.ctx ≠ c) = true) :
    Inv { s with destroyed := c :: s.destroyed } := by
  refine ⟨h.table, h.loops, ?_, ?_, h.sent⟩
  · intro pc hpc call hcall hmem
    rcases mem_cons.1 hmem with heq | hmem
    · have hne := hcalls pc hpc
      rw [hcall] at hne
      exact of_decide_eq_true hne heq
    · exact h.calls pc hpc call hcall hmem
  · intro p hp hmem
    rcases mem_cons.1 hmem with heq | hmem
    · exact hleft p hp heq
    · exact h.destroyed p hp hmem

theorem Inv.threadStep (h : Inv s) (ht : s.threads[t]? = some pc) (hapart : apart s (.step t) = true)
    (hs : threadStep s t pc = some s') : Inv s' := by
  have hmem := mem_of_getElem? ht
  rw [apart, ht] at hapart
  cases pc with
  | idle => cases hs
  | check call =>
    cases hs
    apply h.pursue _ _ (h.calls _ hmem call rfl)
    split <;> rfl
  | memset call =>
    cases hs
    have hrooms : s.table.rooms = [] := List.isEmpty_iff.1 hapart
    have hsame : { s.table with rooms := [] } = s.table := by rw [← hrooms]
    rw [hsame]
    exact h.pursue (.flag call) rfl (h.calls _ hmem call rfl) t
  | flag call =>
    cases hs
    have hset : Inv { s with initialized := true } :=
      { h with }
    exact hset.pursue (.enter call) rfl (h.calls _ hmem call rfl) t
  | enter call =>
    cases hs
    have hapart : call.changes s.table = false ∨ ∀ pc ∈ s.threads, pc.delivers call.room = false := by
      rcases Bool.or_eq_true_iff.1 hapart with hkeep | hnone
      · rw [Bool.not_eq_true'] at hkeep
        exact .inl hkeep
      · right
        intro pc hpc
        have hpc := List.all_eq_true.1 hnone pc hpc
        rwa [Bool.not_eq_true'] at hpc
    exact (h.enter (h.calls _ hmem call rfl) hapart).idle t
  | lookup name payload =>
    rw [Rooms.threadStep] at hs
    split at hs
    · cases hs
      exact h.idle t
    case h_2 room hfind =>
      cases hs
      obtain ⟨hroom, rfl⟩ := findRoom_mem hfind
      apply h.goto
      · intro name snap i payload hc
        cases hc
        exact hroom
      · rintro _ ⟨⟩
  | loop name snap i payload =>
    rw [Rooms.threadStep] at hs
    split at hs
    · cases hs
      exact h.idle t
    case h_2 c hc =>
      cases hs
      apply (h.send hmem hc payload).goto (.loop name snap (i + 1) payload)
      · intro room snap' j payload' heq
        cases heq
        exact h.loops _ _ _ _ hmem
      · rintro _ ⟨⟩

theorem Inv.eventStep (h : Inv s) (hapart : apart s e = true) (hs : eventStep s e = some s') :
    Inv s' := by
  cases e with
  | call t call =>
    obtain ⟨hc, rfl⟩ := of_enabled hs
    exact h.pursue (.check call) rfl hc.2 t
  | message t topic payload =>
    rw [Rooms.eventStep] at hs
    split at hs
    · split at hs
      · cases hs
        apply h.goto
        · simp
        · rintro _ ⟨⟩
      · cases hs
        exact h
    · cases hs
  | step t =>
    obtain ⟨pc, ht, hs⟩ := Option.bind_eq_some_iff.1 hs
    exact h.threadStep ht hapart hs
  | destroy c =>
    obtain ⟨hc, rfl⟩ := of_enabled hs
    exact h.destroy hc.1 hc.2

/-- Then no delivery reads a freed snapshot or meets a destroyed context. -/
theorem deliveries_safe (h : broadcasts.Reachable (fun s e => apart s e = true) s) :
    (∀ room snap i payload, .loop room snap i payload ∈ s.threads → snap ∉ s.table.freed) ∧
      ∀ d ∈ s.sent, d.destroyed = false := by
  have hinv : Inv s := by
    apply h.invariant (P := Inv)
    · intro s hs
      obtain ⟨n, rfl⟩ := hs
      exact .start n
    · intro s e s' hinv hok hs
      exact hinv.eventStep hok hs
  refine ⟨?_, hinv.sent⟩
  intro room snap i payload hmem
  exact hinv.table.live (hinv.loops room snap i payload hmem)

def lobby : Bytes := ascii "lobby"

def firstJoin (t c : Nat) : List Event :=
  [.call t (.join c lobby), .step t, .step t, .step t, .step t]

def callEvents (t : Nat) (call : Call) : List Event := [.call t call, .step t, .step t]

def messageEvents (t : Nat) : List Event := [.message t (topicStart ++ lobby) (ascii "hi"), .step t]

theorem deliveries_safe_join : ∃ s, broadcasts.Reachable (fun s e => apart s e = true) s ∧
    s.sent.map Sent.ctx = [7, 8] ∧
    (∀ room snap i payload, .loop room snap i payload ∈ s.threads → snap ∉ s.table.freed) ∧
      ∀ d ∈ s.sent, d.destroyed = false := by
  have hstart : broadcasts.Reachable (fun s e => apart s e = true) (.start 2) := .init ⟨2, rfl⟩
  have hrun := hstart.exec (show broadcasts.exec _ _ (firstJoin 0 7 ++ callEvents 0 (.join 8 lobby) ++
    messageEvents 1 ++ [.step 1, .step 1]) = some _ from rfl)
  exact ⟨_, hrun, rfl, deliveries_safe hrun⟩

/-- A member leaves during a delivery: its snapshot is freed under the loop, and it is sent the
message after it is destroyed. -/
theorem deliveries_unsafe : (∃ s, broadcasts.Reachable (fun _ _ => True) s ∧
      (∃ room snap i payload, .loop room snap i payload ∈ s.threads ∧ snap ∈ s.table.freed) ∧
      ∃ d ∈ s.sent, d.destroyed = true) ∧
    ∃ s, broadcasts.Reachable (fun _ _ => True) s ∧ s.table.freed = [0] ∧
      ∃ d ∈ s.sent, d.destroyed = true := by
  constructor
  · have hstart : broadcasts.Reachable (fun _ _ => True) (.start 2) := .init ⟨2, rfl⟩
    have hrun := hstart.exec (show broadcasts.exec _ _ (firstJoin 0 7 ++ messageEvents 1 ++
      callEvents 0 (.leave 7 lobby) ++ [.destroy 7, .step 1]) = some _ from rfl)
    exact ⟨_, hrun, ⟨lobby, 1, 1, ascii "hi", by decide, by decide⟩, _, mem_singleton_self _, rfl⟩
  · have hstart : broadcasts.Reachable (fun _ _ => True) (.start 3) := .init ⟨3, rfl⟩
    have hrun := hstart.exec (show broadcasts.exec _ _ ([.call 2 (.join 8 lobby), .step 2] ++
      firstJoin 0 7 ++ messageEvents 1 ++ [.step 2] ++ callEvents 0 (.leave 7 lobby) ++
      [.destroy 7, .step 1]) = some _ from rfl)
    exact ⟨_, hrun, rfl, _, mem_singleton_self _, rfl⟩

end Csilk.WebSocket.Rooms
