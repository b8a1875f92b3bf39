import Csilk.Uring.Submission

namespace Csilk.Uring.Write
open Csilk.Lib List

def State.Pending (s : State) (b : Nat) : Prop := ∃ w ∈ s.inFlight, w.buf = b

/-- Buffers are live while in flight and freed once otherwise; the flag tells whether the inline
request is in use. -/
structure Owned (s : State) : Prop where
  misfreed : s.heap.misfreed = false
  once : ∀ b ∈ s.handed, s.Pending b ∧ s.heap.live b = true ∧ s.heap.frees.count b = 0 ∨
    ¬ s.Pending b ∧ s.heap.frees.count b = 1
  primary : s.primaryWriteInFlight = true ↔ ∃ w ∈ s.inFlight, w.req = primaryWriteReq

structure Inv (s : State) : Prop extends Owned s where
  bounded : ∀ b ∈ s.heap.frees, b < s.heap.next
  handed_lt : ∀ b ∈ s.handed, b < s.heap.next
  flight : ∀ w ∈ s.inFlight, w.buf ∈ s.handed
  nodup : (s.inFlight.map Send.buf).Nodup

theorem Inv.start : Inv start where
  misfreed := rfl
  once _ hb := by cases hb
  primary := by simp [Write.start]
  bounded _ hb := by cases hb
  handed_lt _ hb := by cases hb
  flight _ hw := by cases hw
  nodup := nodup_nil

theorem Inv.once_extends (hi : Inv s) (he : s.heap.Extends h) (hb : b ∈ s.handed) :
    s.Pending b ∧ h.live b = true ∧ h.frees.count b = 0 ∨ ¬ s.Pending b ∧ h.frees.count b = 1 := by
  rw [he.live b (hi.handed_lt b hb), he.frees b (hi.handed_lt b hb)]
  exact hi.once b hb

theorem Inv.handed_extends (hi : Inv s) (he : s.heap.Extends h) (hb : b ∈ s.handed) : b < h.next :=
  lt_of_lt_of_le (hi.handed_lt b hb) he.next

theorem Inv.not_pending (hi : Inv s) (hnew : s.heap.next ≤ b) : ¬ s.Pending b :=
  fun ⟨w, hw, hbuf⟩ => not_lt.2 hnew (hbuf ▸ hi.handed_lt _ (hi.flight w hw))

theorem Inv.handled (hi : Inv s) (hh : Handled s e s') : Inv s' := by
  cases hh with
  | dropped h he =>
    exact {
      misfreed := he.misfreed.trans hi.misfreed
      once := fun b hb => hi.once_extends he hb
      primary := hi.primary
      bounded := he.bounded hi.bounded
      handed_lt := fun b hb => hi.handed_extends he hb
      flight := hi.flight
      nodup := hi.nodup }
  | refused h orphans buf he _ hnew hlt hfreed =>
    exact {
      misfreed := he.misfreed.trans hi.misfreed
      once := fun b hb => by
        rcases mem_cons.1 hb with rfl | hb
        · exact .inr ⟨hi.not_pending hnew, hfreed hi.bounded⟩
        · exact hi.once_extends he hb
      primary := hi.primary
      bounded := he.bounded hi.bounded
      handed_lt := fun b hb => by
        rcases mem_cons.1 hb with rfl | hb
        · exact hlt
        · exact hi.handed_extends he hb
      flight := fun w hw => mem_cons_of_mem _ (hi.flight w hw)
      nodup := hi.nodup }
  | accepted h w he hnew hlt hlive hfreed hreq =>
    have hpend : ∀ b, (∃ v ∈ s.inFlight ++ [w], v.buf = b) ↔ s.Pending b ∨ w.buf = b := by
      simp [State.Pending]
    exact {
      misfreed := he.misfreed.trans hi.misfreed
      once := fun b hb => by
        rw [State.Pending, hpend]
        rcases mem_cons.1 hb with rfl | hb
        · exact .inl ⟨.inr rfl, hlive, hfreed hi.bounded⟩
        · have hne : w.buf ≠ b := fun hc => not_lt.2 hnew (hc ▸ hi.handed_lt b hb)
          rw [or_iff_left hne]
          exact hi.once_extends he hb
      primary := by
        refine iff_of_true rfl ?_
        cases hflag : s.primaryWriteInFlight with
        | false => exact ⟨w, by simp, hreq.2 hflag⟩
        | true =>
          obtain ⟨v, hv, hvreq⟩ := hi.primary.1 hflag
          exact ⟨v, mem_append_left _ hv, hvreq⟩
      bounded := he.bounded hi.bounded
      handed_lt := fun b hb => by
        rcases mem_cons.1 hb with rfl | hb
        · exact hlt
        · exact hi.handed_extends he hb
      flight := fun v hv => by
        rcases mem_append.1 hv with hv | hv
        · exact mem_cons_of_mem _ (hi.flight v hv)
        · rw [mem_singleton.1 hv]
          exact mem_cons_self
      nodup := by
        rw [map_append, nodup_append]
        refine ⟨hi.nodup, by simp, fun b hb c hc hbc => ?_⟩
        obtain ⟨v, hv, rfl⟩ := List.mem_map.1 hb
        rw [mem_singleton.1 hc] at hbc
        exact hi.not_pending hnew ⟨v, hv, hbc⟩ }

theorem csilkUvOnWriteDone_misfreed (s : State) (w : Send) :
    (csilkUvOnWriteDone s w).heap.misfreed = true := by
  have hinner : ∀ h : MallocHeap, (h.free ⟨w.op, reqOffset⟩).misfreed = true := fun h =>
    MallocHeap.free_inner (Nat.succ_ne_zero 55)
  have hne : (⟨w.op, reqOffset⟩ : Ptr) ≠ primaryWriteReq := fun hc =>
    Nat.succ_ne_zero 54 (Nat.succ.inj (congrArg Ptr.offset hc))
  refine MallocHeap.free_misfreed ?_
  split
  case isTrue => exact hinner _
  case isFalse =>
    rw [onWrite, dropReq, if_neg hne]
    exact hinner _

theorem Inv.not_pending_arrive (hi : Inv s) (hw : s.inFlight[i]? = some w) :
    ¬ (s.arrive i w res).Pending w.buf := by
  rintro ⟨v, hv, hbuf⟩
  obtain ⟨j, hne, hj⟩ := mem_eraseIdx_iff_getElem?.1 hv
  have hlt : j < (s.inFlight.map Send.buf).length := by
    rw [length_map]
    exact (List.getElem?_eq_some_iff.1 hj).1
  refine hne ((getElem?_inj hlt hi.nodup).1 ?_)
  rw [getElem?_map, getElem?_map, hj, hw, Option.map_some, Option.map_some, hbuf]

theorem Inv.complete (hi : Inv s) (hs : complete s i res = some s') : ¬ Owned s' := by
  intro ho
  obtain ⟨w, hw, rfl⟩ := complete_some hs
  cases htag : w.tagged with
  | true =>
    rw [htag, if_pos rfl] at ho
    have hm := ho.misfreed
    rw [csilkUvOnWriteDone_misfreed] at hm
    cases hm
  | false =>
    rw [htag] at ho
    have hmem : w ∈ s.inFlight := mem_of_getElem? hw
    have hhanded : w.buf ∈ s.handed := hi.flight w hmem
    have hzero : s.heap.frees.count w.buf = 0 := by
      rcases hi.once w.buf hhanded with ⟨-, -, hz⟩ | ⟨hn, -⟩
      · exact hz
      · exact absurd ⟨w, hmem, rfl⟩ hn
    rcases ho.once w.buf hhanded with ⟨hpend, -⟩ | ⟨-, hone⟩
    · exact hi.not_pending_arrive hw hpend
    · exact absurd (hzero.symm.trans hone) Nat.zero_ne_one

/-- No write completes, and no write with the inline request is in flight at a recycling. -/
def guarded (s : State) : Act → Bool
  | .complete _ _ => false
  | .recycle => s.inFlight.all fun w => w.req ≠ primaryWriteReq
  | _ => true

theorem Inv.recycle (hi : Inv s) (hs : step s .recycle = some s')
    (hok : guarded s .recycle = true) : Inv s' := by
  cases hs
  refine { hi with primary := iff_of_false Bool.false_ne_true ?_ }
  rintro ⟨w, hw, hreq⟩
  have hne := List.all_eq_true.1 hok w hw
  exact of_decide_eq_true hne hreq

theorem Inv.step (hi : Inv s) (hok : guarded s a = true) (hs : step s a = some s') : Inv s' := by
  cases a with
  | clientWrite data e =>
    cases hs
    exact hi.handled csilkClientWrite_handled
  | sendDataOwned data e =>
    cases hs
    exact hi.handled csilkSendDataOwned_handled
  | complete i res => cases hok
  | orphan bytes =>
    simp only [Write.step] at hs
    split at hs
    case isTrue => cases hs
    case isFalse =>
      cases hs
      exact { hi with }
  | close =>
    cases hs
    exact { hi with }
  | recycle => exact hi.recycle hs hok

theorem Inv.step_lost (hi : Inv s) (hok : guarded s a ≠ true) (hs : Write.step s a = some s') :
    ¬ Owned s' := by
  cases a with
  | clientWrite data e | sendDataOwned data e | orphan bytes | close => exact absurd rfl hok
  | complete i res => exact hi.complete hs
  | recycle =>
    cases hs
    intro ho
    refine hok (List.all_eq_true.2 fun w hw => decide_eq_true fun hreq => ?_)
    exact Bool.false_ne_true (ho.primary.2 ⟨w, hw, hreq⟩)

/-- Buffers are owned until a write completes or the client is recycled under a write with its
inline request. -/
theorem csilkIoWrite_owned (h : system.Reachable (fun s a => guarded s a = true) s) :
    Owned s ∧ ∀ a s', system.step s a = some s' → (Owned s' ↔ guarded s a = true) := by
  have hi : Inv s := by
    refine h.invariant (P := Inv) ?_ fun s a s' hs hok hstep => hs.step hok hstep
    rintro s rfl
    exact Inv.start
  refine ⟨hi.toOwned, fun a s' hs => ⟨fun ho => ?_, fun hok => (hi.step hok hs).toOwned⟩⟩
  by_contra hok
  exact hi.step_lost hok hs ho

theorem csilkIoWrite_owned_refused : ∃ s, system.Reachable (fun s a => guarded s a = true) s ∧
      (Owned s ∧ ∀ a s', system.step s a = some s' → (Owned s' ↔ guarded s a = true)) ∧
      s.handed = [4, 1] ∧ s.heap.frees = [5, 4] := by
  have hrun := system.run (p := fun s a => guarded s a = true) start [.clientWrite [1] plenty,
    .sendDataOwned [2] { plenty with sqe := false }, .close] rfl rfl
  exact ⟨_, hrun, csilkIoWrite_owned hrun, rfl, rfl⟩

/-- One write completes: its buffer is not freed, and something that is no block is. The same after
a recycling. -/
theorem csilkIoWrite_misowned :
    (∃ s, system.Reachable (fun _ _ => True) s ∧ s.inFlight = [] ∧ s.handed = [1] ∧
      s.heap.frees.count 1 = 0 ∧ s.heap.misfreed = true ∧ s.primaryWriteInFlight = true) ∧
    ∃ s, system.Reachable (fun _ _ => True) s ∧ s.inFlight = [] ∧ s.handed = [1] ∧
      s.heap.frees.count 1 = 0 ∧ s.heap.misfreed = true ∧ s.generation = 2 := by
  have hone := system.run (p := fun _ _ => True) start [.clientWrite [1] plenty,
    .complete 0 1] rfl rfl
  have hstale := system.run (p := fun _ _ => True) start [.clientWrite [1] plenty, .close, .recycle,
    .complete 0 1] rfl rfl
  exact ⟨⟨_, hone, rfl, rfl, rfl, rfl, rfl⟩, _, hstale, rfl, rfl, rfl, rfl, rfl⟩

end Csilk.Uring.Write
