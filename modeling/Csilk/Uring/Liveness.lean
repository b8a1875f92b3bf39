import Csilk.Uring.Loop

namespace Csilk.Uring.Loop
open Csilk.Lib Function

variable {s : State} {k : Nat} {f : Handle → Handle}

theorem State.numActive_modify (hk : k < n) :
    (s.modify k f).numActive n + (s.handle k).active.toNat =
      s.numActive n + (f (s.handle k)).active.toNat := by
  have hmem : k ∈ Finset.range n := Finset.mem_range.2 hk
  have hrest : ∑ j ∈ (Finset.range n).erase k, ((s.modify k f).handle j).active.toNat =
      ∑ j ∈ (Finset.range n).erase k, (s.handle j).active.toNat := by
    refine Finset.sum_congr rfl fun j hj => ?_
    have hother : (s.modify k f).handle j = s.handle j :=
      update_of_ne (Finset.ne_of_mem_erase hj) ..
    rw [hother]
  have hself : (s.modify k f).handle k = f (s.handle k) := update_self ..
  rw [State.numActive, State.numActive, ← Finset.add_sum_erase _ _ hmem,
    ← Finset.add_sum_erase _ _ hmem, hrest, hself]
  omega

@[simp] theorem State.handle_modify : (s.modify k f).handle k = f (s.handle k) := update_self ..

@[simp] theorem State.handle_acquire :
    (s.acquire k).handle k = { s.handle k with active := true } := update_self ..

@[simp] theorem State.handle_release :
    (s.release k).handle k = { s.handle k with active := false } := update_self ..

/-- The count is exact, and `csilk_io_run` returned only when it may. -/
structure Inv (n : Nat) (s : State) : Prop where
  exact : s.activeHandles = s.numActive n
  early : s.early = false

section

variable (h : Inv n s) (hk : k < n)
include h hk

theorem Inv.modify (hf : (f (s.handle k)).active = (s.handle k).active) : Inv n (s.modify k f) where
  exact := by
    have hm := s.numActive_modify (f := f) hk
    rw [hf] at hm
    exact h.exact.trans (by omega)
  early := h.early

theorem Inv.bump : Inv n (s.bump k) := h.modify hk rfl

theorem Inv.acquire (ha : (s.handle k).active = false) : Inv n (s.acquire k) where
  exact := by
    have hm := s.numActive_modify (f := fun h => { h with active := true }) hk
    rw [ha] at hm
    exact (congrArg (· + 1) h.exact).trans hm.symm
  early := h.early

theorem Inv.release (ha : (s.handle k).active = true) : Inv n (s.release k) where
  exact := by
    have hm := s.numActive_modify (f := fun h => { h with active := false }) hk
    rw [ha] at hm
    exact (congrArg (· - 1) (h.exact.trans hm.symm))
  early := h.early

theorem Inv.release_again (ha : (s.handle k).active = false)
    (hnone : s.activeHandles = 0) : Inv n (s.release k) where
  exact := by
    have hm := h.modify (f := fun h => { h with active := false }) hk ha.symm
    have hexact := hm.exact
    show s.activeHandles - 1 = _
    rw [hnone]
    exact hnone.symm.trans hexact
  early := h.early

theorem Inv.acquireOnce : Inv n (s.acquireOnce k) := by
  rw [State.acquireOnce]
  split
  case isTrue => exact h
  case isFalse ha => exact h.acquire hk (Bool.eq_false_iff.2 ha)

theorem Inv.releaseActive : Inv n (s.releaseActive k) := by
  rw [State.releaseActive]
  split
  case isTrue ha => exact h.release hk ha
  case isFalse => exact h

end

theorem State.active_acquireOnce : ((s.acquireOnce k).handle k).active = true := by
  rw [State.acquireOnce]
  split
  case isTrue ha => exact ha
  case isFalse => rw [State.handle_acquire]

theorem State.active_releaseActive : ((s.releaseActive k).handle k).active = false := by
  rw [State.releaseActive]
  split
  case isTrue => rw [State.handle_release]
  case isFalse ha => exact Bool.eq_false_iff.2 ha

theorem Inv.timerStop_inactive (h : Inv n s) (ha : (s.handle k).active = false) :
    Inv n (csilkIoTimerStop s k) := by
  rw [csilkIoTimerStop, ha]
  exact h

theorem isStalePoll_active (hstale : ¬ isStalePoll h gen = true) : h.active = true := by
  simp only [isStalePoll, Bool.or_eq_true, not_or] at hstale
  simpa using hstale.1.1.2

theorem isStaleTimer_active (hstale : ¬ isStaleTimer h gen = true) : h.active = true := by
  simp only [isStaleTimer, Bool.or_eq_true, not_or] at hstale
  simpa using hstale.1.1

section

variable (h : Inv n s) (hk : k < n)
include h hk

theorem Inv.dropOp (ha : (s.handle k).active = true) : Inv n (s.dropOp k) := by
  refine Inv.modify ?_ hk rfl
  rw [csilkIoOpCancel]
  split
  case isTrue =>
    refine Inv.release (h.modify hk rfl) hk ?_
    rw [State.handle_modify]
    exact ha
  case isFalse => exact h

theorem Inv.timerStart : Inv n (csilkIoTimerStart s k repeatMs allocated sqe) := by
  have hs : Inv n (((s.bump k).modify k fun h => { h with repeatMs := repeatMs }).acquireOnce k) :=
    ((h.bump hk).modify hk rfl).acquireOnce hk
  cases allocated with
  | false => exact hs
  | true =>
    have hop : Inv n (State.modify _ k fun h => { h with op := some .submitted }) :=
      hs.modify hk rfl
    cases sqe with
    | true => exact hop
    | false =>
      refine hop.dropOp hk ?_
      rw [State.handle_modify]
      exact State.active_acquireOnce

theorem Inv.timerStop_alone (hok : (s.handle k).op ≠ some .submitted ∨ s.activeHandles ≤ 1) :
    Inv n (csilkIoTimerStop s k) := by
  rw [csilkIoTimerStop]
  split
  case isFalse => exact h
  case isTrue ha =>
    have hs : Inv n (s.release k) := h.release hk ha
    refine Inv.bump (Inv.modify ?_ hk rfl) hk
    rw [csilkIoOpCancel]
    split
    case isFalse => exact hs
    case isTrue hop =>
      have hle : s.activeHandles ≤ 1 := hok.resolve_left fun hne => hne (by simpa using hop)
      refine Inv.release_again (hs.modify hk rfl) hk (by simp) ?_
      show s.activeHandles - 1 = 0
      omega

theorem Inv.signalStop : Inv n (csilkIoSignalStop s k) := by
  rw [csilkIoSignalStop]
  split
  case isTrue => exact ((h.releaseActive hk).bump hk).modify hk rfl
  case isFalse => exact h

theorem Inv.readStart : Inv n (csilkIoReadStart s k) := by
  rw [csilkIoReadStart]
  split
  case isFalse => exact h
  case isTrue =>
    split
    case isTrue => exact h
    case isFalse => exact ((h.modify hk rfl).acquireOnce hk).bump hk

theorem Inv.readStop : Inv n (csilkIoReadStop s k) :=
  ((h.releaseActive hk).modify hk rfl).bump hk

theorem Inv.close : Inv n (csilkIoClose type s k allocated) := by
  rw [csilkIoClose]
  split
  case isTrue => exact h
  case isFalse =>
    have hs : Inv n (((s.modify k fun h => { h with closing := true }).releaseActive k).bump k) :=
      ((h.modify hk rfl).releaseActive hk).bump hk
    cases type with
    | timer =>
      -- the flag is clear by now, so the operation is not cancelled here
      refine hs.timerStop_inactive ?_
      rw [State.bump, State.handle_modify]
      exact State.active_releaseActive
    | signal => exact hs.signalStop hk
    | async | stream => exact hs.modify hk rfl

theorem Inv.read : Inv n (readCompletion s k gen res) := by
  rw [readCompletion]
  split
  case isTrue => exact h
  case isFalse hstale =>
    have ha := isStalePoll_active hstale
    split_ifs
    · exact h
    · exact h
    · exact h
    · exact Inv.release (h.modify hk rfl) hk (by rw [State.handle_modify]; exact ha)

theorem Inv.timeout : Inv n (timerCompletion s k gen res) := by
  rw [timerCompletion]
  split
  case isTrue => exact h
  case isFalse hstale =>
    have ha := isStaleTimer_active hstale
    split_ifs
    · exact h
    · exact h.release hk ha
    · exact h

theorem Inv.listen (ha : (s.handle k).active = false) : Inv n (csilkIoListen s k listening) := by
  rw [csilkIoListen]
  split
  case isTrue => exact (h.acquire hk ha).bump hk
  case isFalse => exact h

theorem Inv.signalStart (ha : (s.handle k).active = false) : Inv n (csilkIoSignalStart s k opened) := by
  rw [csilkIoSignalStart]
  split
  case isTrue =>
    refine Inv.bump (Inv.acquire (h.modify hk rfl) hk ?_) hk
    rw [State.handle_modify]
    exact ha
  case isFalse => exact h

theorem Inv.asyncInit (ha : (s.handle k).active = false) : Inv n (csilkIoAsyncInit s k true) where
  exact := by
    have hm := s.numActive_modify
      (f := fun h => { handleInit (initGeneration .async h.generation) with
        fd := true, active := true }) hk
    rw [ha] at hm
    exact (congrArg (· + 1) h.exact).trans hm.symm
  early := h.early

end

theorem Inv.leave (h : Inv n s) (hs : s.stopFlag = true ∨ s.activeHandles = 0) :
    Inv n (s.leave n) where
  exact := h.exact
  early := by
    have hearly : s.returnsEarly n = false := by
      rw [State.returnsEarly]
      rcases hs with hstop | hzero
      · rw [hstop]
        rfl
      · rw [← h.exact, hzero]
        exact Bool.and_false _
    show (s.early || s.returnsEarly n) = false
    rw [h.early, hearly]
    rfl

theorem Inv.runTop (h : Inv n s) : Inv n (runTop n s) := by
  rw [Loop.runTop]
  split
  case isTrue hstop => exact h.leave (.inl hstop)
  case isFalse =>
    split
    case isTrue hzero => exact h.leave (.inr hzero)
    case isFalse => exact ⟨h.exact, h.early⟩

theorem Inv.runBottom (h : Inv n s) : Inv n (runBottom n s) := by
  rw [Loop.runBottom]
  split
  case isTrue => exact ⟨h.exact, h.early⟩
  case isFalse hcond =>
    refine h.leave ?_
    cases hstop : s.stopFlag with
    | true => exact .inl rfl
    | false => exact .inr (by simpa [hstop] using hcond)

/-- No submitted timer is stopped while other handles count, no active handle is initialised or
started again, `eventfd` succeeds, and `csilk_io_run` is not nested. -/
def disciplined (s : State) : Act → Bool
  | .timerStop k =>
    !(s.handle k).active || decide ((s.handle k).op ≠ some .submitted) ||
      decide (s.activeHandles ≤ 1)
  | .init k | .listen k _ | .signalStart k _ => !(s.handle k).active
  | .asyncInit k opened => !(s.handle k).active && opened
  | .run => !s.running
  | _ => true

theorem onHandle_some (h : onHandle n type t k s = some s') : k < n ∧ s = s' := by
  rw [onHandle] at h
  split at h
  case isTrue hk => exact ⟨hk.1, Option.some.inj h⟩
  case isFalse => cases h

theorem Inv.step (h : Inv n s) (hok : disciplined s a = true) (hs : step n type s a = some s') :
    Inv n s' := by
  cases a with
  | init k =>
    have ha : (s.handle k).active = false := by simpa [disciplined] using hok
    obtain ⟨hk, rfl⟩ := of_enabled hs
    exact h.modify hk.1 ha.symm
  | «open» k =>
    obtain ⟨hk, rfl⟩ := onHandle_some hs
    exact h.modify hk rfl
  | timerStart k repeatMs allocated sqe =>
    obtain ⟨hk, rfl⟩ := onHandle_some hs
    exact h.timerStart hk
  | timerStop k =>
    obtain ⟨hk, rfl⟩ := onHandle_some hs
    cases ha : (s.handle k).active with
    | false => exact h.timerStop_inactive ha
    | true => exact h.timerStop_alone hk (by simpa [disciplined, ha] using hok)
  | listen k listening =>
    obtain ⟨hk, rfl⟩ := onHandle_some hs
    exact h.listen hk (by simpa [disciplined] using hok)
  | readStart k =>
    obtain ⟨hk, rfl⟩ := onHandle_some hs
    exact h.readStart hk
  | readStop k =>
    obtain ⟨hk, rfl⟩ := onHandle_some hs
    exact h.readStop hk
  | asyncInit k opened =>
    obtain ⟨hk, rfl⟩ := onHandle_some hs
    obtain ⟨ha, rfl⟩ : (s.handle k).active = false ∧ opened = true := by
      simpa [disciplined] using hok
    exact h.asyncInit hk ha
  | signalStart k opened =>
    obtain ⟨hk, rfl⟩ := onHandle_some hs
    exact h.signalStart hk (by simpa [disciplined] using hok)
  | signalStop k =>
    obtain ⟨hk, rfl⟩ := onHandle_some hs
    exact h.signalStop hk
  | close k allocated =>
    obtain ⟨hk, rfl⟩ := of_enabled hs
    exact h.close hk
  | read k gen res =>
    obtain ⟨hk, rfl⟩ := onHandle_some hs
    exact h.read hk
  | timeout k gen res =>
    obtain ⟨hk, rfl⟩ := onHandle_some hs
    exact h.timeout hk
  | run =>
    have hrunning : s.running = false := by simpa [disciplined] using hok
    simp only [Loop.step, hrunning] at hs
    cases hs
    exact ⟨h.exact, h.early⟩
  | stop =>
    cases hs
    exact ⟨h.exact, h.early⟩
  | loopTop =>
    obtain ⟨-, rfl⟩ := of_enabled hs
    exact h.runTop
  | loopBottom =>
    obtain ⟨-, rfl⟩ := of_enabled hs
    exact h.runBottom

theorem numActive_start : start.numActive n = 0 := Finset.sum_eq_zero fun _ _ => rfl

/-- The count is the number of active handles, and `csilk_io_run` returns only when none is active
or a stop was requested. -/
theorem activeHandles_exact (h : (system n type).Reachable (fun s a => disciplined s a = true) s) :
    s.activeHandles = s.numActive n ∧ s.early = false := by
  have hinv : Inv n s := by
    refine h.invariant (P := Inv n) ?_ fun s a s' hs hok hstep => hs.step hok hstep
    rintro s rfl
    exact ⟨numActive_start.symm, rfl⟩
  exact ⟨hinv.exact, hinv.early⟩

theorem activeHandles_exact_drained :
    ∃ s, (system 3 fun k => if k = 0 then .timer else if k = 1 then .stream else .signal).Reachable
        (fun s a => disciplined s a = true) s ∧
      (s.activeHandles = s.numActive 3 ∧ s.early = false) ∧ s.pc = .outside := by
  have hrun := (system 3 fun k => if k = 0 then .timer else if k = 1 then .stream else .signal).run
    (p := fun s a => disciplined s a = true) start [.timerStart 0 0 true true, .open 1, .readStart 1,
      .signalStart 2 true, .run, .loopTop, .signalStop 2, .timeout 0 2 (-62), .read 1 2 0, .loopBottom]
    rfl rfl
  exact ⟨_, hrun, activeHandles_exact hrun, rfl⟩

/-- Stopping one of two timers leaves nothing counted, and `csilk_io_run` returns; a signal started
twice counts twice. -/
theorem activeHandles_inexact : (∃ s, (system 2 fun _ => .timer).Reachable (fun _ _ => True) s ∧
      s.activeHandles = 0 ∧ s.numActive 2 = 1 ∧ s.early = true) ∧
    ∃ s, (system 1 fun _ => .signal).Reachable (fun _ _ => True) s ∧
      s.activeHandles = 2 ∧ s.numActive 1 = 1 := by
  have htimer := (system 2 fun _ => .timer).run (p := fun _ _ => True) start
    [.timerStart 0 0 true true, .timerStart 1 0 true true, .timerStop 0, .run, .loopTop] rfl rfl
  have hsignal := (system 1 fun _ => .signal).run (p := fun _ _ => True) start
    [.signalStart 0 true, .signalStart 0 true] rfl rfl
  exact ⟨⟨_, htimer, rfl, rfl, rfl⟩, _, hsignal, rfl, rfl⟩

end Csilk.Uring.Loop
