import Csilk.Lib.Transition
import Csilk.Queue.Lfq

namespace Csilk.Logger
open Csilk.Lib Csilk.Queue Function

inductive Overflow where
  | drop
  | block
  | fallback
deriving DecidableEq

structure Config where
  capacity : Nat
  overflow : Overflow
  file : Bool
  maxFileSize : Nat

structure Msg where
  ticket : Nat
  len : Nat
deriving DecidableEq

inductive ProducerPc where
  | idle
  | popLoad (m : Msg)
  | popNext (m : Msg) (head : Nat)
  | popCas (m : Msg) (head : Nat) (next : Option Nat)
  | full (m : Msg)
  | blockWake (m : Msg)
  | format (m : Msg) (node : Nat)
  | enqueue (m : Msg) (node : Nat) (pc : EnqPc Nat)
  | count (m : Msg)
  | loadSleeping (m : Msg)
  | wake (m : Msg)
deriving DecidableEq

inductive ConsumerPc where
  | dequeue (processed : Nat) (pc : Option (DeqPc Nat))
  | write (processed : Nat) (node : Nat)
  | pushLoad (processed : Nat) (node : Nat)
  | pushStore (processed : Nat) (node : Nat) (head : Option Nat)
  | pushCas (processed : Nat) (node : Nat) (head : Option Nat)
  | count (processed : Nat)
  | drained (processed : Nat)
  | sleep
  | wait
  | wake
deriving DecidableEq

/-- `before` are the logging calls that had returned when it was made. -/
inductive FlushPc where
  | idle
  | loadQueued (before : List Nat)
  | spin (before : List Nat) (target : Nat)
  | flush (before : List Nat)
deriving DecidableEq

/-- `buffer` holds what was given to `fwrite` since the last flush and `sink` what was flushed. The
last fields record calls. -/
structure State where
  queue : Lfqueue Nat
  freeStack : Option Nat
  nextFree : Nat → Option Nat
  content : Nat → Msg
  sleeping : Bool
  dropped : Nat
  queuedSeq : Nat
  flushedSeq : Nat
  fp : Bool
  currentSize : Nat
  buffer : List Msg
  sink : List Msg
  producers : Nat → ProducerPc
  consumer : ConsumerPc
  flushers : Nat → FlushPc
  calls : Nat
  exchanged : List Nat
  returned : List Nat
  queued : List Nat
  barriers : List (List Nat)

def initPool (capacity : Nat) : Option Nat × (Nat → Option Nat) :=
  (List.range capacity).foldl (fun p i => (some i, update p.2 i p.1)) (none, fun _ => none)

def csilkLogInit (c : Config) (size : Nat) : State where
  queue := csilkLfqInit fun _ => none
  freeStack := (initPool c.capacity).1
  nextFree := (initPool c.capacity).2
  content := fun _ => ⟨0, 0⟩
  sleeping := false
  dropped := 0
  queuedSeq := 0
  flushedSeq := 0
  fp := true
  currentSize := size
  buffer := []
  sink := []
  producers := fun _ => .idle
  consumer := .dequeue 0 none
  flushers := fun _ => .idle
  calls := 0
  exchanged := []
  returned := []
  queued := []
  barriers := []

def State.goto (s : State) (i : Nat) (pc : ProducerPc) : State :=
  { s with producers := update s.producers i pc }

def State.finish (s : State) (i : Nat) (m : Msg) : State :=
  { s with producers := update s.producers i .idle, returned := s.returned ++ [m.ticket] }

def State.popHead (s : State) (i : Nat) (m : Msg) : State :=
  match s.freeStack with
  | some head => s.goto i (.popNext m head)
  | none => s.goto i (.full m)

def overflow (c : Config) (s : State) (i : Nat) (m : Msg) : State :=
  match c.overflow with
  | .block => s.goto i (if s.sleeping then .blockWake m else .popLoad m)
  | .fallback =>
    if s.fp then State.finish { s with sink := s.sink ++ s.buffer ++ [m], buffer := [] } i m
    else s.finish i m
  | .drop => State.finish { s with dropped := s.dropped + 1 } i m

def State.enqueueStep (s : State) (i : Nat) (m : Msg) (node : Nat) (pc : EnqPc Nat) : State :=
  { s with
    queue := (csilkLfqEnqueue s.queue (.item node) pc).1
    producers := update s.producers i
      ((csilkLfqEnqueue s.queue (.item node) pc).2.elim (.count m) (.enqueue m node))
    exchanged := if pc = .exchange then s.exchanged ++ [m.ticket] else s.exchanged
    queued := if pc = .exchange then s.queued ++ [node] else s.queued }

/-- While the logger is running. A weak compare-and-swap may fail `spurious`ly. -/
def emitLogPayload (c : Config) (s : State) (i : Nat) (spurious : Bool) : ProducerPc → Option State
  | .idle => none
  | .popLoad m => some (s.popHead i m)
  | .popNext m head => some (s.goto i (.popCas m head (s.nextFree head)))
  | .popCas m head next =>
    if s.freeStack = some head ∧ spurious = false then
      some (State.goto { s with freeStack := next } i (.format m head))
    else some (s.popHead i m)
  | .full m => some (overflow c s i m)
  | .blockWake m => some (State.goto { s with sleeping := false } i (.popLoad m))
  | .format m node =>
    some (State.goto { s with content := update s.content node m } i (.enqueue m node .store))
  | .enqueue m node pc => some (s.enqueueStep i m node pc)
  | .count m => some (State.goto { s with queuedSeq := s.queuedSeq + 1 } i (.loadSleeping m))
  | .loadSleeping m => some (if s.sleeping then s.goto i (.wake m) else s.finish i m)
  | .wake m => some (State.finish { s with sleeping := false } i m)

/-- `fclose` flushes the old file; `reopened` tells whether `fopen` succeeds. -/
def rotateLogFiles (c : Config) (s : State) (reopened : Bool) : State :=
  if c.file && s.fp then
    { s with sink := s.sink ++ s.buffer, buffer := [], fp := reopened, currentSize := 0 }
  else s

def State.fwrite (s : State) (m : Msg) : State :=
  if s.fp && decide (0 < m.len) then
    { s with buffer := s.buffer ++ [m], currentSize := s.currentSize + m.len }
  else s

def writeNode (c : Config) (s : State) (m : Msg) (reopened : Bool) : State :=
  if 0 < c.maxFileSize ∧ c.maxFileSize ≤ s.currentSize + m.len then
    (rotateLogFiles c s reopened).fwrite m
  else s.fwrite m

def State.fflush (s : State) : State :=
  if s.fp then { s with sink := s.sink ++ s.buffer, buffer := [] } else s

/-- The stub is no log node: nothing is said of a loop that gets it. -/
def State.dequeueStep (s : State) (processed : Nat) (pc : DeqPc Nat) : Option State :=
  match csilkLfqDequeue s.queue pc with
  | (q, .running pc) => some { s with queue := q, consumer := .dequeue processed (some pc) }
  | (q, .returned (some (.item n))) =>
    some { s with queue := q, queued := s.queued.erase n, consumer := .write processed n }
  | (q, .returned none) => some { s with queue := q, consumer := .drained processed }
  | (_, .returned (some .stub)) => none

def loggerConsumerLoop (c : Config) (s : State) (spurious reopened : Bool) : ConsumerPc → Option State
  | .dequeue processed none =>
    some { s with consumer := .dequeue processed (some (.loadNext s.queue.tail)) }
  | .dequeue processed (some pc) => s.dequeueStep processed pc
  | .write processed node =>
    some { writeNode c s (s.content node) reopened with consumer := .pushLoad processed node }
  | .pushLoad processed node => some { s with consumer := .pushStore processed node s.freeStack }
  | .pushStore processed node head =>
    some { s with
      nextFree := update s.nextFree node head
      consumer := .pushCas processed node head }
  | .pushCas processed node head =>
    if s.freeStack = head ∧ spurious = false then
      some { s with freeStack := some node, consumer := .count processed }
    else some { s with consumer := .pushStore processed node s.freeStack }
  | .count processed =>
    some { s with flushedSeq := s.flushedSeq + 1, consumer := .dequeue (processed + 1) none }
  | .drained processed =>
    if processed = 0 then some { s with consumer := .sleep }
    else some { s.fflush with consumer := .dequeue 0 none }
  | .sleep => some { s with sleeping := true, consumer := .wait }
  | .wait => some { s with consumer := .wake }
  | .wake => some { s with sleeping := false, consumer := .dequeue 0 none }

def csilkLogFlush (s : State) (f : Nat) : FlushPc → Option State
  | .idle => none
  | .loadQueued before => some { s with flushers := update s.flushers f (.spin before s.queuedSeq) }
  | .spin before target =>
    if s.flushedSeq < target then some s
    else some { s with flushers := update s.flushers f (.flush before) }
  | .flush before =>
    some { s.fflush with
      flushers := update s.flushers f .idle
      barriers := s.barriers ++ [before] }

inductive Act where
  | log (i : Nat) (len : Nat)
  | producer (i : Nat) (spurious : Bool)
  | consumer (spurious reopened : Bool)
  | flush (f : Nat)
  | flusher (f : Nat)

def step (c : Config) (s : State) : Act → Option State
  | .log i len =>
    if s.producers i = .idle then
      some (State.goto { s with calls := s.calls + 1 } i (.popLoad ⟨s.calls, len⟩))
    else none
  | .producer i spurious => emitLogPayload c s i spurious (s.producers i)
  | .consumer spurious reopened => loggerConsumerLoop c s spurious reopened s.consumer
  | .flush f =>
    if s.flushers f = .idle then
      some { s with flushers := update s.flushers f (.loadQueued s.returned) }
    else none
  | .flusher f => csilkLogFlush s f (s.flushers f)

def logger (c : Config) : System State Act where
  init s := ∃ size, s = csilkLogInit c size
  step := step c

end Csilk.Logger
