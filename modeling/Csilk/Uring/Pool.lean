import Csilk.Uring.Completion

namespace Csilk.Uring.ThreadPool
open Csilk.Lib Function

section Producer

variable {s : State} {stored completed : List Entry}

section

variable (h : Inv n s stored completed) (hne : s.producer ≠ .idle)
include h hne

theorem Inv.producing : ∀ w, ¬(s.worker w).inQueue = true := by
  intro w hw
  cases (h.producerQ hne).symm.trans ((h.workerQ w).2 hw)

theorem Inv.notStopped {P : Prop}
    (hstop : s.running = false) : P := absurd (h.stopped hstop).1 hne

theorem Inv.produce (pc : ProducerPc)
    (hok : pc.Ok s.queue stored s.queueHead s.queueTail) :
    Inv n { s with producer := pc } stored completed :=
  { h with producerQ := fun _ => h.producerQ hne, enqueue := hok, stopped := h.notStopped hne }

end

theorem Inv.storeEntry {work afterCb : Bool} (h : Inv n s stored completed)
    (hne : s.producer ≠ .idle) (hpc : s.producer = .store work afterCb t) :
    Inv n { s with
      queue := update s.queue (t % maxWork) ⟨t, work, afterCb⟩
      producer := .addTail ⟨t, work, afterCb⟩ } stored completed := by
  have hok := h.enqueue
  rw [hpc] at hok
  obtain ⟨hwork, rfl, hroom⟩ := hok
  have hring : RingHolds maxWork (update s.queue (s.queueTail % maxWork) ⟨s.queueTail, work, afterCb⟩) stored
      s.queueHead := by
    rw [← h.tail] at hroom
    have hstore := h.ring.store hroom ⟨s.queueTail, work, afterCb⟩
    rw [h.tail] at hstore
    exact hstore
  have h' : Inv n { s with queue := update s.queue (s.queueTail % maxWork) ⟨s.queueTail, work, afterCb⟩ } stored
      completed := by
    refine { h with ring := hring, enqueue := ?_ }
    simp only [hpc]
    exact ⟨hwork, rfl, hroom⟩
  exact h'.produce hne _ ⟨hwork, rfl, update_self ..⟩

theorem Inv.addTail (h : Inv n s stored completed) (hne : s.producer ≠ .idle)
    (hpc : s.producer = .addTail e) :
    Inv n { s with queueTail := s.queueTail + 1, producer := .signal e } (stored ++ [e]) completed := by
  have hok := h.enqueue
  rw [hpc] at hok
  obtain ⟨hwork, hitem, hcell⟩ := hok
  refine { h with
    producerQ := fun _ => h.producerQ hne
    number := by rw [List.map_append, h.number, List.range_succ, ← hitem]; rfl
    works := ?_
    head := Nat.le_succ_of_le h.head
    ring := h.ring.concat (h.tail.symm ▸ hcell)
    enqueue := List.mem_append_right _ (List.mem_singleton_self e)
    accepts := fun b hb => List.mem_append_left _ (h.accepts b hb)
    queueOk := fun w => .of_outside (h.producing hne w)
    flow := ⟨?_, h.flow.runs⟩
    stopped := h.notStopped hne }
  · intro b hb
    rcases List.mem_append.1 hb with hb | hb
    · exact h.works b hb
    · cases List.mem_singleton.1 hb
      exact hwork
  · rw [List.take_append_of_le_length (h.tail.symm ▸ h.head)]
    exact h.flow.taken

theorem Inv.unlockProducer (h : Inv n s stored completed) (hne : s.producer ≠ .idle)
    (hpc : s.producer = .unlock accepted) :
    Inv n { s.unlockQueue .producer with
      producer := .idle
      accepted := s.accepted ++ accepted.toList } stored completed := by
  have hown := h.producerQ hne
  have hok := h.enqueue
  have hloop := h.loopQ
  rw [hpc] at hok
  rw [hown] at hloop
  rw [unlockQueue_eq hown]
  refine { h with
    workerQ := fun w => iff_of_false (by simp) (h.producing hne w)
    loopQ := iff_of_false (by simp) fun hin => by cases hloop.2 hin
    producerQ := fun hp => absurd rfl hp
    enqueue := trivial, accepts := fun e he => ?_, stopped := h.notStopped hne }
  rcases List.mem_append.1 he with he | he
  · exact h.accepts e he
  · exact hok e (Option.mem_toList.1 he)

theorem Inv.enqueueStep (h : Inv n s stored completed) (hs : enqueueStep s = some s') :
    ∃ stored', Inv n s' stored' completed := by
  have hok := h.enqueue
  have hne : s.producer ≠ .idle := by
    intro hidle
    rw [ThreadPool.enqueueStep, hidle] at hs
    cases hs
  rw [ThreadPool.enqueueStep] at hs
  generalize hpc : s.producer = pc at hs hok
  cases pc with
  | idle =>
    cases hs
  | loadTail work afterCb =>
    cases hs
    exact ⟨stored, h.produce hne _ ⟨hok, rfl⟩⟩
  | loadHead work afterCb t =>
    cases hs
    obtain ⟨hwork, rfl⟩ := hok
    refine ⟨stored, h.produce hne _ ?_⟩
    split
    · rintro _ ⟨⟩
    · exact ⟨hwork, Nat.lt_of_not_le ‹_›⟩
  | loadIdx work afterCb =>
    cases hs
    exact ⟨stored, h.produce hne _ ⟨hok.1, rfl, hok.2⟩⟩
  | store work afterCb t =>
    cases hs
    exact ⟨stored, h.storeEntry hne hpc⟩
  | addTail e =>
    cases hs
    exact ⟨stored ++ [e], h.addTail hne hpc⟩
  | signal e =>
    cases hs
    refine ⟨stored, h.produce hne _ ?_⟩
    intro b hb
    cases hb
    exact hok
  | unlock accepted =>
    cases hs
    exact ⟨stored, h.unlockProducer hne hpc⟩

end Producer

section Loop

variable {s : State} {stored completed : List Entry}

structure Goes (n : Nat) (s : State) (completed : List Entry) (old pc : LoopPc) : Prop where
  ok : pc.Ok completed s.doneHead s.doneTail
  drained : pc.drained s.doneHead = old.drained s.doneHead
  destroying : pc.destroying = old.destroying
  joined : ∀ w < pc.joined n, s.worker w = .exited

section

variable (h : Inv n s stored completed)
include h

theorem Inv.turn (hpc : s.loop = old) (hgo : Goes n s completed old pc)
    (ht : Threads n qm dm s.producer s.worker pc)
    (hprod : qm = some .producer ↔ s.queueMutex = some .producer) :
    Inv n { s with queueMutex := qm, doneMutex := dm, loop := pc } stored completed := by
  subst hpc
  refine { h with toThreads := ht, drain := hgo.ok, after := ?_, stopping := ?_, stopped := fun hrun => ?_ }
  · simp only [hgo.drained]
    exact h.after
  · simp only [hgo.destroying]
    exact h.stopping
  · obtain ⟨hp, hm, hrest⟩ := h.stopped hrun
    exact ⟨hp, fun hqm => hm (hprod.1 hqm), hrest⟩

theorem Inv.goto (hpc : s.loop = old) (hgo : Goes n s completed old pc) (hidle : old ≠ .idle)
    (hq : Passes .loop s.queueMutex qm old.inQueue pc.inQueue)
    (hd : Passes .loop s.doneMutex dm old.inDone pc.inDone) :
    Inv n { s with queueMutex := qm, doneMutex := dm, loop := pc } stored completed := by
  subst hpc
  exact h.turn rfl hgo (h.toThreads.loop_step hidle hq hd hgo.joined) (hq.others (by simp))

theorem Inv.unlockLoop (hpc : s.loop = old) (hgo : Goes n s completed old pc) (hidle : old ≠ .idle)
    (hin : old.inDone = true) (hq : pc.inQueue = old.inQueue) (hd : pc.inDone = false) :
    Inv n { s.unlockDone .loop with loop := pc } stored completed := by
  have hown : s.doneMutex = some .loop := (h.loopD (hpc ▸ hidle)).2 (hpc ▸ hin)
  rw [unlockDone_eq hown]
  refine h.goto hpc hgo hidle (hq ▸ .keep) ?_
  rw [hown, hin, hd]
  exact .unlock

theorem Inv.drainAdd (hpc : s.loop = .drainAdd d e) :
    Inv n { s with doneHead := s.doneHead + 1, loop := .drainUnlock d e } stored completed := by
  have hthreads := h.toThreads
  have hok := h.drain
  have hafter := h.after
  have hstopping := h.stopping
  rw [hpc] at hthreads hok hafter hstopping
  have hlt : s.doneHead < s.doneTail := by
    rw [← h.doneTail]
    exact (List.getElem?_eq_some_iff.1 hok).1
  exact { h with
    toThreads := hthreads.loop_step (by simp) .keep .keep hthreads.joined
    doneHead := hlt
    doneRing := h.doneRing.advance (Nat.le_succ _)
    drain := ⟨Nat.succ_pos _, hok⟩, after := hafter, stopping := hstopping }

theorem Inv.runAfter (hpc : s.loop = .after d e) : Inv n { s with
      ranAfter := if e.afterCb && e.work then s.ranAfter ++ [e] else s.ranAfter
      loop := .drainLock d } stored completed := by
  have hthreads := h.toThreads
  have hok := h.drain
  have hafter := h.after
  have hstopping := h.stopping
  rw [hpc] at hthreads hok hafter hstopping
  obtain ⟨hpos, hget⟩ := hok
  have hwork := h.works e (h.flow.mem_stored (.inl (List.mem_of_getElem? hget)))
  have htake : completed.take s.doneHead = completed.take (s.doneHead - 1) ++ [e] := by
    have hk : s.doneHead = s.doneHead - 1 + 1 := (Nat.sub_add_cancel hpos).symm
    rw [hk, List.take_add_one, hget]
    rfl
  refine { h with
    toThreads := hthreads.loop_step (by simp) .keep .keep hthreads.joined
    drain := trivial, after := ?_, stopping := hstopping }
  simp only [LoopPc.drained] at hafter ⊢
  rw [htake, List.filter_append, ← hafter, hwork, Bool.and_true]
  cases hcb : e.afterCb <;> simp [hcb]

theorem Inv.loopStep (hs : loopStep n s = some s') : Inv n s' stored completed := by
  have hok := h.drain
  have hjoined := h.joined
  rw [ThreadPool.loopStep] at hs
  generalize hpc : s.loop = pc at hs hok hjoined
  cases pc with
  | idle | destroyed =>
    cases hs
  | drainHead d =>
    cases hs
    exact h.goto hpc ⟨rfl, rfl, rfl, hjoined⟩ (by simp) .keep .keep
  | drainTail d head =>
    cases hs
    split
    · rename_i heq
      exact h.goto hpc ⟨fun _ => hok.symm.trans heq, rfl, rfl, hjoined⟩ (by simp) .keep .keep
    · rename_i hne
      have hlt : s.doneHead < s.doneTail := Nat.lt_of_le_of_ne h.doneHead fun heq => hne (hok.trans heq)
      exact h.goto hpc ⟨hlt, rfl, rfl, hjoined⟩ (by simp) .keep .keep
  | drainIdx d =>
    cases hs
    exact h.goto hpc ⟨⟨rfl, hok⟩, rfl, rfl, hjoined⟩ (by simp) .keep .keep
  | drainRead d head =>
    cases hs
    obtain ⟨rfl, hlt⟩ := hok
    have hread := h.doneRing.read (by rw [h.doneTail]; exact hlt)
    exact h.goto hpc ⟨hread, rfl, rfl, hjoined⟩ (by simp) .keep .keep
  | drainAdd d e =>
    cases hs
    exact h.drainAdd hpc
  | drainUnlock d e =>
    cases hs
    exact h.unlockLoop hpc ⟨hok, rfl, rfl, hjoined⟩ (by simp) rfl rfl rfl
  | after d e =>
    cases hs
    exact h.runAfter hpc
  | drainLock d =>
    obtain ⟨hfree, rfl⟩ := of_enabled hs
    exact h.goto hpc ⟨trivial, rfl, rfl, hjoined⟩ (by simp) .keep (hfree ▸ .lock)
  | drainEnd d =>
    cases hs
    cases d with
    | true => exact h.unlockLoop hpc ⟨hok rfl, rfl, rfl, hjoined⟩ (by simp) rfl rfl rfl
    | false => exact h.unlockLoop hpc ⟨trivial, rfl, rfl, hjoined⟩ (by simp) rfl rfl rfl
  | stopLock =>
    obtain ⟨hfree, rfl⟩ := of_enabled hs
    exact h.goto hpc ⟨trivial, rfl, rfl, hjoined⟩ (by simp) (hfree ▸ .lock) .keep
  | broadcast =>
    cases hs
    exact h.goto hpc ⟨trivial, rfl, rfl, hjoined⟩ (by simp) .keep .keep
  | stopUnlock =>
    cases hs
    have hown : s.queueMutex = some .loop := h.loopQ.2 (by rw [hpc]; rfl)
    rw [unlockQueue_eq hown]
    exact h.goto hpc ⟨trivial, rfl, rfl, hjoined⟩ (by simp) (hown ▸ .unlock) .keep
  | join w =>
    dsimp only at hs
    split at hs
    · cases hs
      exact h.goto hpc ⟨trivial, rfl, rfl, fun v hv => hjoined v (lt_of_lt_of_le hv ‹_›)⟩ (by simp)
        .keep .keep
    · split at hs <;> cases hs
      refine h.goto hpc ⟨trivial, rfl, rfl, fun v hv => ?_⟩ (by simp) .keep .keep
      rcases Nat.lt_succ_iff_lt_or_eq.1 hv with hlt | rfl
      · exact hjoined v hlt
      · assumption

end

end Loop

section Calls

variable {s : State} {stored completed : List Entry}

theorem WorkerPc.QueueOk.stop {pc : WorkerPc} (h : pc.QueueOk stored head tail running) :
    pc.QueueOk stored head tail false := by
  cases pc with
  | checkRunning => exact .inr rfl
  | _ => exact h

theorem Threads.call (h : Threads n qm dm producer worker .idle) (hown : dm = some .loop)
    (hq : pc.inQueue = false) (hd : pc.inDone = true) (hjoined : ∀ w < pc.joined n, worker w = .exited) :
    Threads n qm dm producer worker pc :=
  { h with
    loopQ := h.loopQ.trans (by rw [hq]; rfl), loopD := fun _ => iff_of_true hown hd, joined := hjoined }

theorem Inv.callDrain (h : Inv n s stored completed) (hidle : s.loop = .idle)
    (hown : s.doneMutex = some .loop) : Inv n { s with loop := .drainHead false } stored completed := by
  have hthreads := h.toThreads
  rw [hidle] at hthreads
  exact h.turn hidle ⟨trivial, rfl, rfl, hthreads.joined⟩ (hthreads.call hown rfl rfl hthreads.joined) Iff.rfl

theorem Inv.callDestroy (h : Inv n s stored completed) (hidle : s.loop = .idle)
    (hown : s.doneMutex = some .loop) (hprod : s.producer = .idle) (hfree : s.queueMutex ≠ some .producer)
    (hall : s.doneTail = s.queueTail) :
    Inv n { s with running := false, loop := .stopLock } stored completed := by
  have hthreads := h.toThreads
  have hafter := h.after
  rw [hidle] at hthreads hafter
  obtain ⟨hnone, hempty⟩ := h.flow.settled (by rw [h.doneTail, h.tail, hall]) (h.tail.symm ▸ h.head)
  refine { h with
    toThreads := hthreads.call hown rfl rfl (by rintro _ ⟨⟩)
    queueOk := fun w => (h.queueOk w).stop
    drain := trivial, after := hafter, stopping := iff_of_true rfl rfl
    stopped := fun _ => ⟨hprod, hfree, hempty.trans h.tail, fun w => ?_⟩ }
  by_cases hw : w < n
  · exact hnone w hw
  · simp only [h.unused w (Nat.le_of_not_lt hw)]
    rfl

theorem Inv.step (h : Inv n s stored completed) (hok : disciplined s a = true) (hs : step n s a = some s') :
    ∃ stored' completed', Inv n s' stored' completed' := by
  cases a with
  | lockQueue =>
    obtain ⟨hguard, rfl⟩ := of_enabled hs
    obtain ⟨-, hrun, hfree⟩ := hguard
    have hworker := h.workerQ
    have hloop := h.loopQ
    rw [hfree] at hworker hloop
    exact ⟨stored, completed, { h with
      workerQ := fun w => iff_of_false (by simp) fun hin => by cases (hworker w).2 hin
      loopQ := iff_of_false (by simp) fun hin => by cases hloop.2 hin
      producerQ := fun _ => rfl
      stopped := fun hstop => nomatch hrun.symm.trans hstop }⟩
  | enqueue work afterCb =>
    obtain ⟨hguard, rfl⟩ := of_enabled hs
    simp only [disciplined, Bool.and_eq_true, decide_eq_true_eq] at hok
    obtain ⟨⟨hown, rfl⟩, -⟩ := hok
    exact ⟨stored, completed, { h with
      producerQ := fun _ => hown, enqueue := rfl
      stopped := fun hstop => nomatch hguard.2.symm.trans hstop }⟩
  | producer =>
    obtain ⟨stored', hinv⟩ := h.enqueueStep hs
    exact ⟨stored', completed, hinv⟩
  | worker w =>
    simp only [ThreadPool.step] at hs
    split at hs
    · obtain ⟨completed', hinv⟩ := h.worker ‹_› hok hs
      exact ⟨stored, completed', hinv⟩
    · cases hs
  | lockDone =>
    obtain ⟨hguard, rfl⟩ := of_enabled hs
    have hworker := h.workerD
    rw [hguard.2] at hworker
    exact ⟨stored, completed, { h with
      workerD := fun w => iff_of_false (by simp) fun hin => by cases (hworker w).2 hin
      loopD := fun hne => absurd hguard.1 hne
      producerD := by simp }⟩
  | drain =>
    simp only [ThreadPool.step] at hs
    split at hs <;> cases hs
    simp only [disciplined, decide_eq_true_eq] at hok
    exact ⟨stored, completed, h.callDrain ‹_› hok⟩
  | destroy =>
    simp only [ThreadPool.step] at hs
    split at hs <;> cases hs
    simp only [disciplined, Bool.and_eq_true, decide_eq_true_eq] at hok
    obtain ⟨⟨⟨hown, hprod⟩, hfree⟩, hall⟩ := hok
    exact ⟨stored, completed, h.callDestroy ‹_› hown hprod hfree hall⟩
  | loop => exact ⟨stored, completed, h.loopStep hs⟩

end Calls

end Csilk.Uring.ThreadPool
