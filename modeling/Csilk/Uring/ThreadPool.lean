import Csilk.Lib.Transition
import Mathlib.Algebra.Group.Nat.Defs

namespace Csilk.Uring.ThreadPool
open Csilk.Lib Function

def maxWork : Nat := 4096

/-- Numbered by its value of `queue_tail`; `work` and `afterCb` say which pointers are not NULL. -/
structure Entry where
  item : Nat
  work : Bool
  afterCb : Bool
deriving DecidableEq

inductive Thread where
  | producer
  | worker (w : Nat)
  | loop
deriving DecidableEq

inductive ProducerPc where
  | idle
  | loadTail (work afterCb : Bool)
  | loadHead (work afterCb : Bool) (tail : Nat)
  | loadIdx (work afterCb : Bool)
  | store (work afterCb : Bool) (tail : Nat)
  | addTail (e : Entry)
  | signal (e : Entry)
  | unlock (accepted : Option Entry)
deriving DecidableEq

inductive WorkerPc where
  | loop
  | lock
  | loadHead
  | loadTail (head : Nat)
  | loadRunning
  | wait
  | relock
  | checkRunning
  | exitUnlock
  | loadIdx
  | read (head : Nat)
  | addHead (e : Entry)
  | unlock (e : Entry)
  | work (e : Entry)
  | doneLock (e : Entry)
  | doneLoad (e : Entry)
  | doneStore (e : Entry) (tail : Nat)
  | doneAdd (e : Entry)
  | doneUnlock
  | exited
deriving DecidableEq

/-- The next access of `uring_tp_drain` or of `uring_tp_destroy`, which calls it at its end. -/
inductive LoopPc where
  | idle
  | drainHead (destroying : Bool)
  | drainTail (destroying : Bool) (head : Nat)
  | drainIdx (destroying : Bool)
  | drainRead (destroying : Bool) (head : Nat)
  | drainAdd (destroying : Bool) (e : Entry)
  | drainUnlock (destroying : Bool) (e : Entry)
  | after (destroying : Bool) (e : Entry)
  | drainLock (destroying : Bool)
  | drainEnd (destroying : Bool)
  | stopLock
  | broadcast
  | stopUnlock
  | join (w : Nat)
  | destroyed
deriving DecidableEq

/-- The last four fields record the accepted items, the callbacks that ran, and an unlock by a
thread without the mutex. -/
structure State where
  running : Bool
  queue : Nat → Entry
  queueHead : Nat
  queueTail : Nat
  queueMutex : Option Thread
  done : Nat → Entry
  doneHead : Nat
  doneTail : Nat
  doneMutex : Option Thread
  producer : ProducerPc
  worker : Nat → WorkerPc
  loop : LoopPc
  accepted : List Entry
  ran : List Entry
  ranAfter : List Entry
  badUnlock : Bool

def uringTpInit : State where
  running := true
  queue := fun _ => ⟨0, false, false⟩
  queueHead := 0
  queueTail := 0
  queueMutex := none
  done := fun _ => ⟨0, false, false⟩
  doneHead := 0
  doneTail := 0
  doneMutex := none
  producer := .idle
  worker := fun _ => .loop
  loop := .idle
  accepted := []
  ran := []
  ranAfter := []
  badUnlock := false

def State.unlockQueue (s : State) (t : Thread) : State :=
  { s with queueMutex := none, badUnlock := s.badUnlock || decide (s.queueMutex ≠ some t) }

def State.unlockDone (s : State) (t : Thread) : State :=
  { s with doneMutex := none, badUnlock := s.badUnlock || decide (s.doneMutex ≠ some t) }

def enqueueStep (s : State) : Option State :=
  match s.producer with
  | .idle => none
  | .loadTail work afterCb => some { s with producer := .loadHead work afterCb s.queueTail }
  | .loadHead work afterCb tail =>
    some { s with
      producer := if maxWork ≤ tail - s.queueHead then .unlock none else .loadIdx work afterCb }
  | .loadIdx work afterCb => some { s with producer := .store work afterCb s.queueTail }
  | .store work afterCb tail =>
    some { s with
      queue := update s.queue (tail % maxWork) ⟨tail, work, afterCb⟩
      producer := .addTail ⟨tail, work, afterCb⟩ }
  | .addTail e => some { s with queueTail := s.queueTail + 1, producer := .signal e }
  | .signal e => some { s with producer := .unlock (some e) }
  | .unlock accepted =>
    some { s.unlockQueue .producer with
      producer := .idle
      accepted := s.accepted ++ accepted.toList }

/-- `worker_routine` of worker `w`. A wait may end at any time. -/
def workerStep (s : State) (w : Nat) : Option State :=
  let goto (s : State) (pc : WorkerPc) : State := { s with worker := update s.worker w pc }
  match s.worker w with
  | .loop => some (goto s (if s.running then .lock else .exited))
  | .lock =>
    if s.queueMutex = none then some (goto { s with queueMutex := some (.worker w) } .loadHead) else none
  | .loadHead => some (goto s (.loadTail s.queueHead))
  | .loadTail head => some (goto s (if head = s.queueTail then .loadRunning else .checkRunning))
  | .loadRunning =>
    -- `csilk_cond_wait` gives the mutex back and waits in one step
    if s.running then some (goto (s.unlockQueue (.worker w)) .wait) else some (goto s .checkRunning)
  | .wait => some (goto s .relock)
  | .relock =>
    if s.queueMutex = none then some (goto { s with queueMutex := some (.worker w) } .loadHead) else none
  | .checkRunning => some (goto s (if s.running then .loadIdx else .exitUnlock))
  | .exitUnlock => some (goto (s.unlockQueue (.worker w)) .exited)
  | .loadIdx => some (goto s (.read s.queueHead))
  | .read head => some (goto s (.addHead (s.queue (head % maxWork))))
  | .addHead e => some (goto { s with queueHead := s.queueHead + 1 } (.unlock e))
  | .unlock e => some (goto (s.unlockQueue (.worker w)) (.work e))
  | .work e => some (goto { s with ran := if e.work then s.ran ++ [e] else s.ran } (.doneLock e))
  | .doneLock e =>
    if s.doneMutex = none then some (goto { s with doneMutex := some (.worker w) } (.doneLoad e)) else none
  | .doneLoad e => some (goto s (.doneStore e s.doneTail))
  | .doneStore e tail =>
    some (goto { s with done := update s.done (tail % maxWork) e } (.doneAdd e))
  | .doneAdd _ => some (goto { s with doneTail := s.doneTail + 1 } .doneUnlock)
  | .doneUnlock => some (goto (s.unlockDone (.worker w)) .loop)
  | .exited => none

def loopStep (n : Nat) (s : State) : Option State :=
  match s.loop with
  | .idle => none
  | .drainHead d => some { s with loop := .drainTail d s.doneHead }
  | .drainTail d head => some { s with loop := if head = s.doneTail then .drainEnd d else .drainIdx d }
  | .drainIdx d => some { s with loop := .drainRead d s.doneHead }
  | .drainRead d head => some { s with loop := .drainAdd d (s.done (head % maxWork)) }
  | .drainAdd d e => some { s with doneHead := s.doneHead + 1, loop := .drainUnlock d e }
  | .drainUnlock d e => some { s.unlockDone .loop with loop := .after d e }
  | .after d e =>
    some { s with
      ranAfter := if e.afterCb && e.work then s.ranAfter ++ [e] else s.ranAfter
      loop := .drainLock d }
  | .drainLock d =>
    if s.doneMutex = none then some { s with doneMutex := some .loop, loop := .drainHead d } else none
  | .drainEnd d => some { s.unlockDone .loop with loop := if d then .destroyed else .idle }
  | .stopLock =>
    if s.queueMutex = none then some { s with queueMutex := some .loop, loop := .broadcast } else none
  | .broadcast => some { s with loop := .stopUnlock }
  | .stopUnlock => some { s.unlockQueue .loop with loop := .join 0 }
  | .join w =>
    if n ≤ w then some { s with loop := .drainHead true }
    else if s.worker w = .exited then some { s with loop := .join (w + 1) }
    else none
  | .destroyed => none

inductive Act where
  | lockQueue
  | enqueue (work afterCb : Bool)
  | producer
  | worker (w : Nat)
  | lockDone
  | drain
  | destroy
  | loop
deriving DecidableEq

/-- Once `uring_tp_destroy` has been called, no call comes after it. -/
def step (n : Nat) (s : State) : Act → Option State
  | .lockQueue =>
    if s.producer = .idle ∧ s.running ∧ s.queueMutex = none then
      some { s with queueMutex := some .producer }
    else none
  | .enqueue work afterCb =>
    if s.producer = .idle ∧ s.running then some { s with producer := .loadTail work afterCb } else none
  | .producer => enqueueStep s
  | .worker w => if w < n then workerStep s w else none
  | .lockDone =>
    if s.loop = .idle ∧ s.doneMutex = none then some { s with doneMutex := some .loop } else none
  | .drain => if s.loop = .idle then some { s with loop := .drainHead false } else none
  | .destroy => if s.loop = .idle then some { s with running := false, loop := .stopLock } else none
  | .loop => loopStep n s

def pool (n : Nat) : System State Act where
  init s := s = uringTpInit
  step := step n

/-- The callers hold the mutexes, there is work to do, no counter overflows, no ring is full, and
the pool is destroyed when all completions are there. -/
def disciplined (s : State) : Act → Bool
  | .enqueue work _ => decide (s.queueMutex = some .producer) && work && decide (s.queueTail < 2 ^ 31 - 1)
  | .worker w =>
    match s.worker w with
    | .doneStore _ _ => decide (s.doneTail - s.doneHead < maxWork)
    | _ => true
  | .drain => decide (s.doneMutex = some .loop)
  | .destroy =>
    decide (s.doneMutex = some .loop) && decide (s.producer = .idle) &&
      decide (s.queueMutex ≠ some .producer) && decide (s.doneTail = s.queueTail)
  | _ => true

end Csilk.Uring.ThreadPool
