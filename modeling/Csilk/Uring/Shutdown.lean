import Csilk.Uring.Pool
import Mathlib.Algebra.BigOperators.Intervals
import Mathlib.Algebra.Order.BigOperators.Group.Finset

namespace Csilk.Uring.ThreadPool
open Csilk.Lib List Function

def WorkerPc.rank : WorkerPc → Nat
  | .wait => 7
  | .lock | .relock => 6
  | .loadHead => 5
  | .loadTail _ => 4
  | .loadRunning => 3
  | .checkRunning | .doneUnlock => 2
  | .exitUnlock | .loop => 1
  | _ => 0

/-- The steps left before `uring_tp_destroy` returns, with `m` completions to drain. -/
def LoopPc.rank (n m : Nat) : LoopPc → Nat
  | .stopLock => 10 * m + n + 8
  | .broadcast => 10 * m + n + 7
  | .stopUnlock => 10 * m + n + 6
  | .join w => 10 * m + (n - w) + 5
  | .drainUnlock _ _ => 10 * m + 7
  | .after _ _ => 10 * m + 6
  | .drainLock _ => 10 * m + 5
  | .drainHead _ => 10 * m + 4
  | .drainTail _ _ => 10 * m + 3
  | .drainIdx _ => 10 * m + 2
  | .drainRead _ _ => 10 * m + 1
  | .drainAdd _ _ => 10 * m
  | .drainEnd _ => 1
  | .destroyed | .idle => 0

def State.rank (n : Nat) (s : State) : Nat :=
  (∑ w ∈ Finset.range n, (s.worker w).rank) + s.loop.rank n (s.doneTail - s.doneHead)

def Moves (s : State) (v : Nat) : Prop :=
  ∃ s' pc, workerStep s v = some s' ∧ disciplined s (.worker v) = true ∧
    s'.worker = update s.worker v pc ∧ pc.rank < (s.worker v).rank ∧ s'.loop = s.loop ∧
    s'.doneHead = s.doneHead ∧ s'.doneTail = s.doneTail ∧ s'.running = s.running

section Progress

variable {s : State} {stored completed : List Entry}

theorem Moves.rank (h : Moves s v) (hv : v < n) :
    ∃ s', workerStep s v = some s' ∧ disciplined s (.worker v) = true ∧ s'.running = s.running ∧
      s'.rank n < s.rank n := by
  obtain ⟨s', pc, hstep, hok, hworker, hlt, hloop, hhead, htail, hrun⟩ := h
  refine ⟨s', hstep, hok, hrun, ?_⟩
  have hsum : (∑ w ∈ Finset.range n, (s'.worker w).rank) < ∑ w ∈ Finset.range n, (s.worker w).rank := by
    refine Finset.sum_lt_sum (fun w _ => ?_) ⟨v, Finset.mem_range.2 hv, ?_⟩
    · rw [hworker]
      by_cases hw : w = v
      · subst hw
        rw [update_self]
        exact le_of_lt hlt
      · rw [update_of_ne hw]
    · rw [hworker, update_self]
      exact hlt
  rw [State.rank, hloop, hhead, htail]
  exact Nat.add_lt_add_right hsum _

def Advances (n : Nat) (s : State) : Prop :=
  ∃ a s', disciplined s a = true ∧ step n s a = some s' ∧ s'.running = false ∧ s'.rank n < s.rank n

theorem Moves.advances (h : Moves s v) (hv : v < n) (hrun : s.running = false) : Advances n s := by
  obtain ⟨s', hstep, hok, hrun', hlt⟩ := h.rank hv
  exact ⟨.worker v, s', hok, (if_pos hv).trans hstep, hrun'.trans hrun, hlt⟩

theorem loop_advances (s' : State) (hstep : loopStep n s = some s') (hrun : s'.running = false)
    (hw : s'.worker = s.worker)
    (hlt : s'.loop.rank n (s'.doneTail - s'.doneHead) < s.loop.rank n (s.doneTail - s.doneHead)) :
    Advances n s := by
  refine ⟨.loop, s', rfl, hstep, hrun, ?_⟩
  rw [State.rank, hw]
  exact Nat.add_lt_add_left hlt _

def Returns (n : Nat) (s : State) : Prop :=
  ∃ acts s', (pool n).exec (fun s a => disciplined s a = true) s acts = some s' ∧ s'.loop = .destroyed

section

variable (h : Inv n s stored completed) (hrun : s.running = false)
include h hrun

theorem Inv.worker_rank (hs : workerStep s v = some s') : disciplined s (.worker v) = true ∧
    ∃ pc, s'.worker = update s.worker v pc ∧ pc.rank < (s.worker v).rank ∧ s'.loop = s.loop ∧
      s'.doneHead = s.doneHead ∧ s'.doneTail = s.doneTail ∧ s'.running = s.running := by
  obtain ⟨-, -, hempty, hnone⟩ := h.stopped hrun
  have hhand := hnone v
  have hqok := h.queueOk v
  rw [workerStep] at hs
  rw [disciplined]
  generalize s.worker v = pc at hs hhand hqok ⊢
  cases pc with
  | loop | loadRunning | checkRunning =>
    simp only [hrun] at hs
    cases hs
    exact ⟨rfl, _, rfl, by decide, rfl, rfl, rfl, hrun.symm⟩
  | lock | relock =>
    obtain ⟨-, rfl⟩ := of_enabled hs
    exact ⟨rfl, _, rfl, by decide, rfl, rfl, rfl, rfl⟩
  | wait | exitUnlock | doneUnlock =>
    cases hs
    exact ⟨rfl, _, rfl, by decide, rfl, rfl, rfl, rfl⟩
  | loadHead =>
    cases hs
    exact ⟨rfl, _, rfl, Nat.lt_succ_self 4, rfl, rfl, rfl, rfl⟩
  | loadTail head =>
    simp only [hqok.trans hempty] at hs
    cases hs
    exact ⟨rfl, _, rfl, Nat.lt_succ_self 3, rfl, rfl, rfl, rfl⟩
  | loadIdx => exact absurd hempty (Nat.ne_of_lt hqok)
  | read head => exact absurd hempty (Nat.ne_of_lt hqok.2)
  | addHead e =>
    have hlt := (List.getElem?_eq_some_iff.1 hqok).1
    rw [h.tail] at hlt
    exact absurd hempty (Nat.ne_of_lt hlt)
  | exited => cases hs
  | unlock e | work e | doneLock e | doneLoad e | doneStore e t | doneAdd e => cases hhand

theorem Inv.moves (hne : s.worker v ≠ .exited)
    (hfree : s.worker v = .lock ∨ s.worker v = .relock → s.queueMutex = none) : Moves s v := by
  obtain ⟨s', hs⟩ : ∃ s', workerStep s v = some s' := by
    obtain ⟨-, -, -, hnone⟩ := h.stopped hrun
    have hhand := hnone v
    rw [workerStep]
    generalize s.worker v = pc at hne hfree hhand
    cases pc with
    | lock => exact ⟨_, if_pos (hfree (.inl rfl))⟩
    | relock => exact ⟨_, if_pos (hfree (.inr rfl))⟩
    | loadRunning =>
      simp only [hrun]
      exact ⟨_, rfl⟩
    | doneLock e => cases hhand
    | exited => exact absurd rfl hne
    | _ => exact ⟨_, rfl⟩
  obtain ⟨hok, pc, hrest⟩ := h.worker_rank hrun hs
  exact ⟨s', pc, hs, hok, hrest⟩

theorem Inv.owner_moves
    (hloop : s.loop.inQueue = false) (hm : s.queueMutex = some t) : ∃ v < n, Moves s v := by
  obtain ⟨-, hprod, -, -⟩ := h.stopped hrun
  cases t with
  | producer => exact absurd hm hprod
  | loop => cases hloop.symm.trans (h.loopQ.1 hm)
  | worker v =>
    have hin := (h.workerQ v).1 hm
    have hv : v < n := by
      by_contra hge
      rw [h.unused v (Nat.le_of_not_lt hge)] at hin
      cases hin
    refine ⟨v, hv, h.moves hrun ?_ ?_⟩
    · intro hpc
      rw [hpc] at hin
      cases hin
    · rintro (hpc | hpc)
      · rw [hpc] at hin
        cases hin
      · rw [hpc] at hin
        cases hin

theorem Inv.worker_moves
    (hloop : s.loop.inQueue = false) (hw : w < n) (hne : s.worker w ≠ .exited) : ∃ v < n, Moves s v := by
  cases hm : s.queueMutex with
  | none => exact ⟨w, hw, h.moves hrun hne fun _ => hm⟩
  | some t => exact h.owner_moves hrun hloop hm

theorem Inv.loop_rank (hs : ThreadPool.loopStep n s = some s') : Advances n s := by
  have hd := h.stopping.2 hrun
  have hok := h.drain
  suffices s'.running = false ∧ s'.worker = s.worker ∧
      s'.loop.rank n (s'.doneTail - s'.doneHead) < s.loop.rank n (s.doneTail - s.doneHead) from
    loop_advances s' hs this.1 this.2.1 this.2.2
  rw [ThreadPool.loopStep] at hs
  generalize s.loop = pc at hs hd hok ⊢
  cases pc with
  | idle | destroyed => cases hs
  | drainHead d | drainIdx d | drainRead d head | drainUnlock d e | after d e | broadcast
  | stopUnlock =>
    cases hs
    refine ⟨hrun, rfl, ?_⟩
    simp only [LoopPc.rank, State.unlockDone, State.unlockQueue]
    omega
  | drainTail d head =>
    cases hs
    refine ⟨hrun, rfl, ?_⟩
    split <;> simp only [LoopPc.rank] <;> omega
  | drainAdd d e =>
    have hlt : s.doneHead < s.doneTail := by
      rw [← h.doneTail]
      exact (List.getElem?_eq_some_iff.1 hok).1
    cases hs
    refine ⟨hrun, rfl, ?_⟩
    simp only [LoopPc.rank]
    omega
  | drainLock d | stopLock =>
    obtain ⟨-, rfl⟩ := of_enabled hs
    refine ⟨hrun, rfl, ?_⟩
    simp only [LoopPc.rank]
    omega
  | drainEnd d =>
    cases (show d = true from hd)
    cases hs
    exact ⟨hrun, rfl, one_pos⟩
  | join w =>
    dsimp only at hs
    split at hs
    · cases hs
      refine ⟨hrun, rfl, ?_⟩
      simp only [LoopPc.rank]
      omega
    · obtain ⟨-, rfl⟩ := of_enabled hs
      refine ⟨hrun, rfl, ?_⟩
      simp only [LoopPc.rank]
      omega

theorem Inv.done_free (hpc : s.loop = .drainLock d) : s.doneMutex = none := by
  have hd := h.stopping.2 hrun
  have hjoined := h.joined
  have hloop := h.loopD
  rw [hpc] at hd hjoined hloop
  cases (show d = true from hd)
  cases hm : s.doneMutex with
  | none => rfl
  | some t =>
    cases t with
    | producer => exact absurd hm h.producerD
    | loop => cases (hloop (by simp)).1 hm
    | worker w =>
      have hin := (h.workerD w).1 hm
      by_cases hw : w < n
      · rw [hjoined w hw] at hin
        cases hin
      · rw [h.unused w (Nat.le_of_not_lt hw)] at hin
        cases hin

theorem Inv.progress (hne : s.loop ≠ .destroyed) : Advances n s := by
  have hstep {s' : State} (hs : ThreadPool.loopStep n s = some s') := h.loop_rank hrun hs
  rw [ThreadPool.loopStep] at hstep
  cases hpc : s.loop with
  | idle =>
    have hd := h.stopping.2 hrun
    rw [hpc] at hd
    cases hd
  | destroyed => exact absurd hpc hne
  | drainLock d =>
    rw [hpc] at hstep
    exact hstep (if_pos (h.done_free hrun hpc))
  | stopLock =>
    rw [hpc] at hstep
    cases hm : s.queueMutex with
    | none => exact hstep (if_pos hm)
    | some t =>
      obtain ⟨v, hv, hmoves⟩ := h.owner_moves hrun (by rw [hpc]; rfl) hm
      exact hmoves.advances hv hrun
  | join w =>
    rw [hpc] at hstep
    by_cases hw : n ≤ w
    · exact hstep (if_pos hw)
    · by_cases hexit : s.worker w = .exited
      · exact hstep ((if_neg hw).trans (if_pos hexit))
      · obtain ⟨v, hv, hmoves⟩ := h.worker_moves hrun (by rw [hpc]; rfl) (Nat.lt_of_not_le hw) hexit
        exact hmoves.advances hv hrun
  | _ =>
    rw [hpc] at hstep
    exact hstep rfl

theorem Inv.returns : Returns n s := by
  induction hrank : s.rank n using Nat.strong_induction_on generalizing s stored completed with
  | _ r ih =>
    by_cases hne : s.loop = .destroyed
    · exact ⟨[], s, rfl, hne⟩
    · obtain ⟨a, t, hok, hstep, hrun', hlt⟩ := h.progress hrun hne
      obtain ⟨stored', completed', ht⟩ := h.step hok hstep
      obtain ⟨acts, s', hexec, hd⟩ := ih _ (hrank ▸ hlt) ht hrun' rfl
      have hcons : (pool n).exec (fun s a => disciplined s a = true) s (a :: acts) = _ :=
        System.exec_cons hok hstep
      exact ⟨a :: acts, s', hcons.trans hexec, hd⟩

end

end Progress

/-- Every unlock is by the holder, and an item's work runs once and then its callback, before
`uring_tp_destroy` returns. -/
theorem uringTp_completes (n : Nat) (h : (pool n).Reachable (fun s a => disciplined s a = true) s) :
    s.badUnlock = false ∧ s.ran.Nodup ∧ s.ranAfter.Nodup ∧ (∀ e ∈ s.ranAfter, e ∈ s.ran) ∧
      (s.running = false → Returns n s) ∧
      (s.loop = .destroyed → ∀ e ∈ s.accepted, e ∈ s.ran ∧ (e.afterCb = true → e ∈ s.ranAfter)) := by
  obtain ⟨stored, completed, hinv⟩ : ∃ stored completed, Inv n s stored completed :=
    h.invariant (P := fun s => ∃ stored completed, Inv n s stored completed)
      (fun s hs => by cases hs; exact ⟨[], [], init_inv n⟩)
      (fun s a s' hinv hok hs => by
        obtain ⟨stored, completed, hinv⟩ := hinv
        exact hinv.step hok hs)
  have hran : ∀ e ∈ completed, e ∈ s.ran :=
    fun e he => hinv.flow.runs.mem_iff.2 (mem_append_left _ he)
  refine ⟨hinv.unlocks, hinv.flow.runsOnce hinv.nodup, ?_, ?_, hinv.returns, ?_⟩
  · rw [hinv.after]
    exact ((hinv.flow.nodup hinv.nodup).of_append_left.sublist (take_sublist _ _)).filter _
  · intro e he
    rw [hinv.after] at he
    exact hran e (mem_of_mem_take (mem_filter.1 he).1)
  · intro hd e he
    have hrun : s.running = false := hinv.stopping.1 (by rw [hd]; rfl)
    obtain ⟨-, -, hempty, hnone⟩ := hinv.stopped hrun
    have hc : e ∈ completed := by
      have htaken := hinv.flow.taken
      rw [filterMap_eq_nil_iff.2 fun w _ => hnone w, append_nil, hempty, ← hinv.tail, take_length] at htaken
      exact htaken.mem_iff.2 (hinv.accepts e he)
    refine ⟨hran e hc, fun hcb => ?_⟩
    have hdrain := hinv.drain
    rw [hd] at hdrain
    have hall : s.loop.drained s.doneHead = completed.length := by
      rw [hd]
      exact hdrain.trans hinv.doneTail.symm
    rw [hinv.after, hall, take_length]
    exact mem_filter.2 ⟨hc, hcb⟩

theorem uringTp_completes_one :
    ∃ s, (pool 1).Reachable (fun s a => disciplined s a = true) s ∧ s.loop = .destroyed ∧
      s.badUnlock = false ∧ s.accepted = [⟨0, true, true⟩] ∧ ⟨0, true, true⟩ ∈ s.ranAfter := by
  have hrun := (pool 1).run (p := fun s a => disciplined s a = true) uringTpInit
    ([.lockQueue, .enqueue true true] ++ List.replicate 7 .producer ++
      List.replicate 15 (.worker 0) ++
      [.lockDone, .destroy, .loop, .loop, .loop, .worker 0] ++ List.replicate 13 .loop) rfl rfl
  obtain ⟨hunlock, -, -, -, -, hall⟩ := uringTp_completes 1 hrun
  exact ⟨_, hrun, rfl, hunlock, rfl, (hall rfl _ (mem_singleton_self _)).2 rfl⟩

/-- An unlock without the mutex lets both workers run one item; a queued item is lost at the end. -/
theorem uringTp_broken : (∃ s, (pool 1).Reachable (fun _ _ => True) s ∧ s.badUnlock = true) ∧
      (∃ s, (pool 2).Reachable (fun _ _ => True) s ∧ s.ran = [⟨0, true, true⟩, ⟨0, true, true⟩]) ∧
      ∃ s, (pool 1).Reachable (fun _ _ => True) s ∧ s.loop = .destroyed ∧
        s.accepted = [⟨0, true, true⟩] ∧ s.ran = [] := by
  have hunlock := (pool 1).run (p := fun _ _ => True) uringTpInit
    (.enqueue true true :: List.replicate 7 .producer) rfl rfl
  have htwice := (pool 2).run (p := fun _ _ => True) uringTpInit
    (.enqueue true true :: List.replicate 7 .producer ++ List.replicate 7 (.worker 0) ++
      .enqueue true true :: List.replicate 7 .producer ++ List.replicate 7 (.worker 1) ++
      List.replicate 3 (.worker 0) ++ List.replicate 3 (.worker 1)) rfl rfl
  have hlost := (pool 1).run (p := fun _ _ => True) uringTpInit
    (.enqueue true true :: List.replicate 7 .producer ++
      [.destroy, .loop, .loop, .loop, .worker 0] ++ List.replicate 5 .loop) rfl rfl
  exact ⟨⟨_, hunlock, rfl⟩, ⟨_, htwice, rfl⟩, _, hlost, rfl, rfl, rfl⟩

end Csilk.Uring.ThreadPool
