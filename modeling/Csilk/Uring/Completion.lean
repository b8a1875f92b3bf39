import Csilk.Lib.Mutex
import Csilk.Lib.Ring
import Csilk.Uring.ThreadPool
import Mathlib.Data.List.Nodup
import Mathlib.Data.List.Perm.Subperm

namespace Csilk.Uring.ThreadPool
open Csilk.Lib Function
open List hiding head tail

def WorkerPc.inQueue : WorkerPc → Bool
  | .loadHead | .loadTail _ | .loadRunning | .checkRunning | .exitUnlock | .loadIdx | .read _
  | .addHead _ | .unlock _ => true
  | _ => false

def WorkerPc.inDone : WorkerPc → Bool
  | .doneLoad _ | .doneStore _ _ | .doneAdd _ | .doneUnlock => true
  | _ => false

def WorkerPc.hand : WorkerPc → Option Entry
  | .unlock e | .work e | .doneLock e | .doneLoad e | .doneStore e _ | .doneAdd e => some e
  | _ => none

def WorkerPc.worked : WorkerPc → Option Entry
  | .doneLock e | .doneLoad e | .doneStore e _ | .doneAdd e => some e
  | _ => none

def LoopPc.inQueue : LoopPc → Bool
  | .broadcast | .stopUnlock => true
  | _ => false

/-- `uring_tp_destroy` keeps the mutex it is called with for the last drain. -/
def LoopPc.inDone : LoopPc → Bool
  | .idle | .after _ _ | .drainLock _ | .destroyed => false
  | _ => true

def LoopPc.destroying : LoopPc → Bool
  | .idle => false
  | .drainHead d | .drainTail d _ | .drainIdx d | .drainRead d _ | .drainAdd d _
  | .drainUnlock d _ | .after d _ | .drainLock d | .drainEnd d => d
  | .stopLock | .broadcast | .stopUnlock | .join _ | .destroyed => true

def LoopPc.joined (n : Nat) : LoopPc → Nat
  | .stopLock | .broadcast | .stopUnlock => 0
  | .join w => w
  | pc => if pc.destroying then n else 0

/-- The threads own the mutexes of their critical sections; callers may own one as well. -/
structure Threads (n : Nat) (queueMutex doneMutex : Option Thread) (producer : ProducerPc)
    (worker : Nat → WorkerPc) (loop : LoopPc) : Prop where
  workerQ : ∀ w, queueMutex = some (.worker w) ↔ (worker w).inQueue = true
  loopQ : queueMutex = some .loop ↔ loop.inQueue = true
  producerQ : producer ≠ .idle → queueMutex = some .producer
  workerD : ∀ w, doneMutex = some (.worker w) ↔ (worker w).inDone = true
  loopD : loop ≠ .idle → (doneMutex = some .loop ↔ loop.inDone = true)
  producerD : doneMutex ≠ some .producer
  joined : ∀ w < loop.joined n, worker w = .exited
  unused : ∀ w, n ≤ w → worker w = .loop

section Threads

variable {worker : Nat → WorkerPc} {loop : LoopPc}

theorem Threads.worker_step (h : Threads n qm dm producer worker loop) (hw : w < n) (hpc : worker w = old)
    (hnot : old ≠ .exited) (hq : Passes (.worker w) qm qm' old.inQueue pc.inQueue)
    (hd : Passes (.worker w) dm dm' old.inDone pc.inDone) :
    Threads n qm' dm' producer (update worker w pc) loop := by
  subst hpc
  have hne : ∀ {v}, v ≠ w → Thread.worker v ≠ .worker w := fun hv heq => hv (Thread.worker.inj heq)
  refine ⟨?_, ?_, ?_, ?_, ?_, ?_, ?_, ?_⟩
  · refine (forall_update_iff worker fun v pc => qm' = some (.worker v) ↔ pc.inQueue = true).2 ⟨hq.self (h.workerQ w), ?_⟩
    exact fun v hv => (hq.others (hne hv)).trans (h.workerQ v)
  · exact (hq.others (by simp)).trans h.loopQ
  · exact fun hp => (hq.others (by simp)).2 (h.producerQ hp)
  · refine (forall_update_iff worker fun v pc => dm' = some (.worker v) ↔ pc.inDone = true).2 ⟨hd.self (h.workerD w), ?_⟩
    exact fun v hv => (hd.others (hne hv)).trans (h.workerD v)
  · exact fun hl => (hd.others (by simp)).trans (h.loopD hl)
  · exact fun hp => h.producerD ((hd.others (by simp)).1 hp)
  · intro v hv
    rw [update_of_ne (by rintro rfl; exact hnot (h.joined v hv))]
    exact h.joined v hv
  · intro v hv
    rw [update_of_ne (ne_of_gt (lt_of_lt_of_le hw hv))]
    exact h.unused v hv

theorem Threads.loop_step (h : Threads n qm dm producer worker loop) (hidle : loop ≠ .idle)
    (hq : Passes .loop qm qm' loop.inQueue pc.inQueue) (hd : Passes .loop dm dm' loop.inDone pc.inDone)
    (hjoined : ∀ w < pc.joined n, worker w = .exited) : Threads n qm' dm' producer worker pc where
  workerQ w := (hq.others (by simp)).trans (h.workerQ w)
  loopQ := hq.self h.loopQ
  producerQ hp := (hq.others (by simp)).2 (h.producerQ hp)
  workerD w := (hd.others (by simp)).trans (h.workerD w)
  loopD _ := hd.self (h.loopD hidle)
  producerD hp := h.producerD ((hd.others (by simp)).1 hp)
  joined := hjoined
  unused := h.unused

end Threads

theorem filterMap_update (worker : Nat → WorkerPc) (g : WorkerPc → Option Entry) (hw : w < n) (pc : WorkerPc) :
    (range n).filterMap (fun v => g (update worker w pc v)) ~
      (g pc).toList ++ ((range n).erase w).filterMap fun v => g (worker v) := by
  have hrest : ((range n).erase w).filterMap (fun v => g (update worker w pc v)) =
      ((range n).erase w).filterMap fun v => g (worker v) := by
    apply filterMap_congr
    intro v hv
    rw [update_of_ne (nodup_range.mem_erase_iff.1 hv).1]
  refine ((perm_cons_erase (mem_range.2 hw)).filterMap _).trans ?_
  rw [filterMap_cons, update_self, hrest]
  cases g pc <;> rfl

theorem perm_update {worker : Nat → WorkerPc} (g : WorkerPc → Option Entry) (hw : w < n)
    (h : done' ++ (g pc).toList ~ done ++ (g (worker w)).toList ++ more) :
    done' ++ (range n).filterMap (fun v => g (update worker w pc v)) ~
      done ++ (range n).filterMap (fun v => g (worker v)) ++ more := by
  have hold := filterMap_update worker g hw (worker w)
  rw [update_eq_self] at hold
  refine ((filterMap_update worker g hw pc).append_left done').trans ?_
  refine Perm.trans ?_ ((hold.symm.append_left done).append_right more)
  rw [← append_assoc, ← append_assoc]
  refine (h.append_right _).trans ?_
  rw [append_assoc, append_assoc (_ ++ _)]
  exact perm_append_comm.append_left _

structure Flow (n : Nat) (stored : List Entry) (head : Nat) (completed ran : List Entry)
    (worker : Nat → WorkerPc) : Prop where
  taken : completed ++ (range n).filterMap (fun w => (worker w).hand) ~ stored.take head
  runs : ran ~ completed ++ (range n).filterMap fun w => (worker w).worked

section Flow

variable {stored completed ran : List Entry} {worker : Nat → WorkerPc}
variable (h : Flow n stored head completed ran worker)
include h

/-- A step of a worker: `took` leaves the queue and `did` is run. -/
theorem Flow.worker_step (took did : List Entry) (hw : w < n) (hpc : worker w = old)
    (hhead : stored.take head' = stored.take head ++ took) (hran : ran' = ran ++ did)
    (hhand : completed' ++ pc.hand.toList ~ completed ++ old.hand.toList ++ took)
    (hworked : completed' ++ pc.worked.toList ~ completed ++ old.worked.toList ++ did) :
    Flow n stored head' completed' ran' (update worker w pc) := by
  subst hpc
  rw [hran]
  constructor
  · rw [hhead]
    exact (perm_update WorkerPc.hand hw hhand).trans (h.taken.append_right took)
  · exact (h.runs.append_right did).trans (perm_update WorkerPc.worked hw hworked).symm

theorem Flow.mem_stored (he : e ∈ completed ∨ ∃ w < n, (worker w).hand = some e) : e ∈ stored := by
  refine mem_of_mem_take (h.taken.subset (mem_append.2 (he.imp_right ?_)))
  rintro ⟨w, hw, hhand⟩
  exact mem_filterMap.2 ⟨w, mem_range.2 hw, hhand⟩

theorem Flow.nodup (hstored : stored.Nodup) :
    (completed ++ (range n).filterMap fun w => (worker w).hand).Nodup :=
  h.taken.nodup_iff.2 (hstored.sublist (take_sublist _ _))

theorem Flow.runsOnce (hstored : stored.Nodup) : ran.Nodup := by
  have hworked : ∀ l : List Nat,
      l.filterMap (fun w => (worker w).worked) <+ l.filterMap fun w => (worker w).hand := by
    intro l
    induction l with
    | nil => rfl
    | cons w l ih =>
      rw [filterMap_cons, filterMap_cons]
      cases worker w with
      | unlock e | work e => exact ih.cons e
      | doneLock e | doneLoad e | doneStore e t | doneAdd e => exact ih.cons_cons e
      | _ => exact ih
  exact h.runs.nodup_iff.2 ((h.nodup hstored).sublist ((hworked _).append_left _))

theorem Flow.settled (hlen : completed.length = stored.length) (hle : head ≤ stored.length) :
    (∀ w < n, (worker w).hand = none) ∧ head = stored.length := by
  have hcount := h.taken.length_eq
  rw [length_append, length_take] at hcount
  have hnil : (range n).filterMap (fun w => (worker w).hand) = [] := length_eq_zero_iff.1 (by omega)
  exact ⟨fun w hw => filterMap_eq_nil_iff.1 hnil w (mem_range.2 hw), by omega⟩

end Flow

def WorkerPc.QueueOk (stored : List Entry) (head tail : Nat) (running : Bool) : WorkerPc → Prop
  | .loadTail h => h = head
  | .checkRunning => head < tail ∨ running = false
  | .loadIdx => head < tail
  | .read h => h = head ∧ head < tail
  | .addHead e => stored[head]? = some e
  | _ => True

def WorkerPc.DoneOk (done : Nat → Entry) (tail : Nat) : WorkerPc → Prop
  | .doneStore _ t => t = tail
  | .doneAdd e => done (tail % maxWork) = e
  | _ => True

theorem WorkerPc.QueueOk.of_outside {pc : WorkerPc} (h : ¬pc.inQueue = true) :
    pc.QueueOk stored head tail running := by
  cases pc <;> trivial

theorem WorkerPc.DoneOk.of_outside {pc : WorkerPc} (h : ¬pc.inDone = true) : pc.DoneOk done tail := by
  cases pc <;> trivial

def ProducerPc.Ok (queue : Nat → Entry) (stored : List Entry) (head tail : Nat) : ProducerPc → Prop
  | .idle => True
  | .loadTail work _ => work = true
  | .loadHead work _ t => work = true ∧ t = tail
  | .loadIdx work _ => work = true ∧ tail - head < maxWork
  | .store work _ t => work = true ∧ t = tail ∧ tail - head < maxWork
  | .addTail e => e.work = true ∧ e.item = tail ∧ queue (tail % maxWork) = e
  | .signal e => e ∈ stored
  | .unlock accepted => ∀ e, accepted = some e → e ∈ stored

def LoopPc.Ok (completed : List Entry) (head tail : Nat) : LoopPc → Prop
  | .drainTail _ h => h = head
  | .drainIdx _ => head < tail
  | .drainRead _ h => h = head ∧ head < tail
  | .drainAdd _ e => completed[head]? = some e
  | .drainUnlock _ e | .after _ e => 0 < head ∧ completed[head - 1]? = some e
  | .drainEnd d => d = true → head = tail
  | .destroyed => head = tail
  | _ => True

def LoopPc.drained (head : Nat) : LoopPc → Nat
  | .drainUnlock _ _ | .after _ _ => head - 1
  | _ => head

/-- `stored` were put into the queue, `completed` into the completion queue. -/
structure Inv (n : Nat) (s : State) (stored completed : List Entry) : Prop extends
    Threads n s.queueMutex s.doneMutex s.producer s.worker s.loop where
  unlocks : s.badUnlock = false
  number : stored.map Entry.item = range s.queueTail
  works : ∀ e ∈ stored, e.work = true
  head : s.queueHead ≤ s.queueTail
  ring : RingHolds maxWork s.queue stored s.queueHead
  enqueue : s.producer.Ok s.queue stored s.queueHead s.queueTail
  accepts : ∀ e ∈ s.accepted, e ∈ stored
  queueOk : ∀ w, (s.worker w).QueueOk stored s.queueHead s.queueTail s.running
  doneOk : ∀ w, (s.worker w).DoneOk s.done s.doneTail
  flow : Flow n stored s.queueHead completed s.ran s.worker
  doneTail : completed.length = s.doneTail
  doneHead : s.doneHead ≤ s.doneTail
  doneRing : RingHolds maxWork s.done completed s.doneHead
  drain : s.loop.Ok completed s.doneHead s.doneTail
  after : s.ranAfter = (completed.take (s.loop.drained s.doneHead)).filter (·.afterCb)
  stopping : s.loop.destroying = true ↔ s.running = false
  stopped : s.running = false → s.producer = .idle ∧ s.queueMutex ≠ some .producer ∧
    s.queueHead = s.queueTail ∧ ∀ w, (s.worker w).hand = none

theorem init_inv (n : Nat) : Inv n uringTpInit [] [] where
  workerQ _ := by simp [uringTpInit, WorkerPc.inQueue]
  loopQ := by simp [uringTpInit, LoopPc.inQueue]
  producerQ h := absurd rfl h
  workerD _ := by simp [uringTpInit, WorkerPc.inDone]
  loopD h := absurd rfl h
  producerD := by simp [uringTpInit]
  joined := (by rintro _ ⟨⟩)
  unused _ _ := rfl
  unlocks := rfl
  number := rfl
  works := (by simp)
  head := Nat.le_refl 0
  ring := .nil _ _ _
  enqueue := trivial
  accepts := (by rintro _ ⟨⟩)
  queueOk _ := trivial
  doneOk _ := trivial
  flow := by
    constructor
    · simp [uringTpInit, WorkerPc.hand]
    · simp [uringTpInit, WorkerPc.worked]
  doneTail := rfl
  doneHead := Nat.le_refl 0
  doneRing := .nil _ _ _
  drain := trivial
  after := rfl
  stopping := by simp [uringTpInit, LoopPc.destroying]
  stopped := (by rintro ⟨⟩)

section Worker

variable {s : State} {stored completed : List Entry}

theorem unlockQueue_eq (h : s.queueMutex = some t) :
    s.unlockQueue t = { s with queueMutex := none } := by
  rw [State.unlockQueue, h]
  simp only [ne_eq, not_true_eq_false, decide_false, Bool.or_false]

theorem unlockDone_eq (h : s.doneMutex = some t) :
    s.unlockDone t = { s with doneMutex := none } := by
  rw [State.unlockDone, h]
  simp only [ne_eq, not_true_eq_false, decide_false, Bool.or_false]

theorem Inv.tail (h : Inv n s stored completed) : stored.length = s.queueTail := by
  rw [← length_map Entry.item, h.number, length_range]

theorem Inv.nodup (h : Inv n s stored completed) : stored.Nodup := by
  apply Nodup.of_map Entry.item
  rw [h.number]
  exact nodup_range

section

variable (h : Inv n s stored completed) (hw : w < n) (hpc : s.worker w = old)
include h hw hpc

theorem Inv.move (pc : WorkerPc) (hnot : old ≠ .exited)
    (hq : Passes (.worker w) s.queueMutex qm old.inQueue pc.inQueue)
    (hd : Passes (.worker w) s.doneMutex dm old.inDone pc.inDone)
    (hhand : pc.hand = old.hand) (hworked : pc.worked = old.worked)
    (hqok : pc.QueueOk stored s.queueHead s.queueTail s.running) (hdok : pc.DoneOk s.done s.doneTail) :
    Inv n { s with worker := update s.worker w pc, queueMutex := qm, doneMutex := dm } stored completed := by
  refine { h with
    toThreads := h.toThreads.worker_step hw hpc hnot hq hd
    queueOk := (forall_update_iff s.worker _).2 ⟨hqok, fun v _ => h.queueOk v⟩
    doneOk := (forall_update_iff s.worker _).2 ⟨hdok, fun v _ => h.doneOk v⟩
    flow := h.flow.worker_step [] [] hw hpc (by simp) (by simp) (by simp [hhand]) (by simp [hworked])
    stopped := fun hrun => ?_ }
  obtain ⟨hp, hm, he, hnone⟩ := h.stopped hrun
  refine ⟨hp, fun hqm => hm ((hq.others (by simp)).1 hqm), he, ?_⟩
  refine (forall_update_iff s.worker fun _ pc => pc.hand = none).2 ⟨?_, fun v _ => hnone v⟩
  exact hhand.trans (hpc ▸ hnone w)

theorem Inv.unlockWorker (pc : WorkerPc) (hnot : old ≠ .exited) (hin : old.inQueue = true)
    (hq : pc.inQueue = false) (hd : pc.inDone = old.inDone) (hhand : pc.hand = old.hand)
    (hworked : pc.worked = old.worked) (hdok : pc.DoneOk s.done s.doneTail) :
    Inv n { s.unlockQueue (.worker w) with worker := update s.worker w pc } stored completed := by
  have hown : s.queueMutex = some (.worker w) := (h.workerQ w).2 (hpc ▸ hin)
  rw [unlockQueue_eq hown]
  refine h.move hw hpc pc hnot ?_ (hd ▸ .keep) hhand hworked (.of_outside (by simp [hq])) hdok
  rw [hown, hin, hq]
  exact .unlock

end

section

variable (h : Inv n s stored completed) (hw : w < n)
include h hw

theorem Inv.addHead (hpc : s.worker w = .addHead e) :
    Inv n { s with worker := update s.worker w (.unlock e), queueHead := s.queueHead + 1 } stored
      completed := by
  have hown : s.queueMutex = some (.worker w) := (h.workerQ w).2 (by rw [hpc]; rfl)
  have hget := h.queueOk w
  rw [hpc] at hget
  have hlt : s.queueHead < s.queueTail := by
    rw [← h.tail]
    exact (List.getElem?_eq_some_iff.1 hget).1
  refine { h with
    toThreads := h.toThreads.worker_step hw hpc (by simp) .keep .keep
    head := hlt, ring := h.ring.advance (Nat.le_succ _), enqueue := ?_
    queueOk := (forall_update_iff s.worker _).2 ⟨trivial, fun v hv => .of_outside fun hin => ?_⟩
    doneOk := (forall_update_iff s.worker _).2 ⟨trivial, fun v _ => h.doneOk v⟩
    flow := h.flow.worker_step [e] [] hw hpc (by rw [take_add_one, hget]; rfl) (by simp)
      (by simp [WorkerPc.hand]) (by simp [WorkerPc.worked])
    stopped := fun hrun => ?_ }
  · by_cases hidle : s.producer = .idle
    · simp only [hidle]
      trivial
    · cases hown.symm.trans (h.producerQ hidle)
  · cases hown.symm.trans ((h.workerQ v).2 hin)
    exact hv rfl
  · obtain ⟨-, -, heq, -⟩ := h.stopped hrun
    omega

theorem Inv.work (hpc : s.worker w = .work e) : Inv n { s with
      worker := update s.worker w (.doneLock e)
      ran := if e.work then s.ran ++ [e] else s.ran } stored completed := by
  have hhand : (s.worker w).hand = some e := by
    rw [hpc]
    rfl
  rw [if_pos (h.works e (h.flow.mem_stored (.inr ⟨w, hw, hhand⟩)))]
  refine { h with
    toThreads := h.toThreads.worker_step hw hpc (by simp) .keep .keep
    queueOk := (forall_update_iff s.worker _).2 ⟨trivial, fun v _ => h.queueOk v⟩
    doneOk := (forall_update_iff s.worker _).2 ⟨trivial, fun v _ => h.doneOk v⟩
    flow := h.flow.worker_step [] [e] hw hpc (by simp) rfl (by simp [WorkerPc.hand])
      (by simp [WorkerPc.worked])
    stopped := fun hrun => ?_ }
  obtain ⟨-, -, -, hnone⟩ := h.stopped hrun
  cases hhand.symm.trans (hnone w)

theorem Inv.doneStore (hpc : s.worker w = .doneStore e t) (hroom : s.doneTail - s.doneHead < maxWork) :
    Inv n { s with
      worker := update s.worker w (.doneAdd e)
      done := update s.done (t % maxWork) e } stored completed := by
  have hown : s.doneMutex = some (.worker w) := (h.workerD w).2 (by rw [hpc]; rfl)
  have ht := h.doneOk w
  rw [hpc] at ht
  subst ht
  have h' : Inv n { s with done := update s.done (s.doneTail % maxWork) e } stored completed := by
    refine { h with doneOk := fun v => ?_, doneRing := ?_ }
    · by_cases hv : v = w
      · simp only [hv, hpc]
        rfl
      · refine .of_outside fun hin => ?_
        cases hown.symm.trans ((h.workerD v).2 hin)
        exact hv rfl
    · rw [← h.doneTail] at hroom ⊢
      exact h.doneRing.store hroom e
  exact h'.move hw hpc (.doneAdd e) (by simp) .keep .keep rfl rfl trivial (update_self ..)

theorem Inv.doneAdd (hpc : s.worker w = .doneAdd e) :
    Inv n { s with worker := update s.worker w .doneUnlock, doneTail := s.doneTail + 1 } stored
      (completed ++ [e]) := by
  have hown : s.doneMutex = some (.worker w) := (h.workerD w).2 (by rw [hpc]; rfl)
  have hdok := h.doneOk w
  rw [hpc] at hdok
  have hdrained : s.loop.drained s.doneHead ≤ completed.length := by
    have hle : s.loop.drained s.doneHead ≤ s.doneHead := by
      cases s.loop <;> simp [LoopPc.drained]
    rw [h.doneTail]
    exact le_trans hle h.doneHead
  refine { h with
    toThreads := h.toThreads.worker_step hw hpc (by simp) .keep .keep
    queueOk := (forall_update_iff s.worker _).2 ⟨trivial, fun v _ => h.queueOk v⟩
    doneOk := (forall_update_iff s.worker _).2 ⟨trivial, fun v hv => .of_outside fun hin => ?_⟩
    flow := h.flow.worker_step [] [] hw hpc (by simp) (by simp) (.refl _) (.refl _)
    doneTail := ?_, doneHead := Nat.le_succ_of_le h.doneHead
    doneRing := h.doneRing.concat (h.doneTail.symm ▸ hdok), drain := ?_, after := ?_
    stopped := fun hrun => ?_ }
  · cases hown.symm.trans ((h.workerD v).2 hin)
    exact hv rfl
  · rw [length_append, h.doneTail]
    rfl
  · have hdrain := h.drain
    have hjoined := h.joined w
    have hloop := h.loopD
    cases hl : s.loop with
    | idle | drainLock d => trivial
    | after d b =>
      rw [hl] at hdrain
      refine ⟨hdrain.1, ?_⟩
      rw [List.getElem?_append_left (List.getElem?_eq_some_iff.1 hdrain.2).1]
      exact hdrain.2
    | destroyed =>
      rw [hl] at hjoined
      rw [hjoined hw] at hpc
      cases hpc
    | _ =>
      rw [hl] at hloop
      cases hown.symm.trans ((hloop (by simp)).2 rfl)
  · rw [take_append_of_le_length hdrained]
    exact h.after
  · obtain ⟨-, -, -, hnone⟩ := h.stopped hrun
    have hhand := hnone w
    rw [hpc] at hhand
    cases hhand

theorem Inv.worker (hok : disciplined s (.worker w) = true)
    (hs : workerStep s w = some s') : ∃ completed', Inv n s' stored completed' := by
  have hqok := h.queueOk w
  rw [workerStep] at hs
  generalize hpc : s.worker w = pc at hs hqok
  cases pc with
  | loop =>
    cases hs
    refine ⟨completed, ?_⟩
    split
    · exact h.move hw hpc .lock (by simp) .keep .keep rfl rfl trivial trivial
    · exact h.move hw hpc .exited (by simp) .keep .keep rfl rfl trivial trivial
  | lock | relock =>
    obtain ⟨hfree, rfl⟩ := of_enabled hs
    exact ⟨completed, h.move hw hpc .loadHead (by simp) (hfree ▸ .lock) .keep rfl rfl trivial trivial⟩
  | loadHead =>
    cases hs
    exact ⟨completed, h.move hw hpc _ (by simp) .keep .keep rfl rfl rfl trivial⟩
  | loadTail head =>
    cases hs
    refine ⟨completed, ?_⟩
    split
    · exact h.move hw hpc .loadRunning (by simp) .keep .keep rfl rfl trivial trivial
    · rename_i hne
      have hlt : s.queueHead < s.queueTail := Nat.lt_of_le_of_ne h.head fun heq => hne (hqok.trans heq)
      exact h.move hw hpc .checkRunning (by simp) .keep .keep rfl rfl (.inl hlt) trivial
  | loadRunning =>
    dsimp only at hs
    split at hs <;> cases hs
    · exact ⟨completed, h.unlockWorker hw hpc .wait (by simp) rfl rfl rfl rfl rfl trivial⟩
    · rename_i hrun
      exact ⟨completed, h.move hw hpc .checkRunning (by simp) .keep .keep rfl rfl
        (.inr (by simpa using hrun)) trivial⟩
  | wait =>
    cases hs
    exact ⟨completed, h.move hw hpc .relock (by simp) .keep .keep rfl rfl trivial trivial⟩
  | checkRunning =>
    cases hs
    refine ⟨completed, ?_⟩
    split
    · rename_i hrun
      have hlt : s.queueHead < s.queueTail := hqok.resolve_right (by simp [hrun])
      exact h.move hw hpc .loadIdx (by simp) .keep .keep rfl rfl hlt trivial
    · exact h.move hw hpc .exitUnlock (by simp) .keep .keep rfl rfl trivial trivial
  | exitUnlock =>
    cases hs
    exact ⟨completed, h.unlockWorker hw hpc .exited (by simp) rfl rfl rfl rfl rfl trivial⟩
  | loadIdx =>
    cases hs
    exact ⟨completed, h.move hw hpc _ (by simp) .keep .keep rfl rfl ⟨rfl, hqok⟩ trivial⟩
  | read head =>
    cases hs
    obtain ⟨rfl, hlt⟩ := hqok
    have hread := h.ring.read (by rw [h.tail]; exact hlt)
    exact ⟨completed, h.move hw hpc _ (by simp) .keep .keep rfl rfl hread trivial⟩
  | addHead e =>
    cases hs
    exact ⟨completed, h.addHead hw hpc⟩
  | unlock e =>
    cases hs
    exact ⟨completed, h.unlockWorker hw hpc (.work e) (by simp) rfl rfl rfl rfl rfl trivial⟩
  | work e =>
    cases hs
    exact ⟨completed, h.work hw hpc⟩
  | doneLock e =>
    obtain ⟨hfree, rfl⟩ := of_enabled hs
    exact ⟨completed, h.move hw hpc (.doneLoad e) (by simp) .keep (hfree ▸ .lock) rfl rfl trivial trivial⟩
  | doneLoad e =>
    cases hs
    exact ⟨completed, h.move hw hpc _ (by simp) .keep .keep rfl rfl trivial rfl⟩
  | doneStore e t =>
    cases hs
    simp only [disciplined, hpc, decide_eq_true_eq] at hok
    exact ⟨completed, h.doneStore hw hpc hok⟩
  | doneAdd e =>
    cases hs
    exact ⟨completed ++ [e], h.doneAdd hw hpc⟩
  | doneUnlock =>
    cases hs
    have hown : s.doneMutex = some (.worker w) := (h.workerD w).2 (by rw [hpc]; rfl)
    rw [unlockDone_eq hown]
    exact ⟨completed, h.move hw hpc .loop (by simp) .keep (hown ▸ .unlock) rfl rfl trivial trivial⟩
  | exited =>
    cases hs

end

end Worker

end Csilk.Uring.ThreadPool
