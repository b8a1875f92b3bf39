import Csilk.Lib.Transition
import Mathlib.Algebra.BigOperators.Group.Finset.Piecewise

namespace Csilk.Uring.Loop
open Csilk.Lib Function

inductive HandleType where
  | timer
  | stream
  | async
  | signal
deriving DecidableEq

inductive OpState where
  | created
  | submitted
  | completed
  | cancelRequested
  | cancelled
  | retired
deriving DecidableEq

/-- `fd` says whether the descriptor is not negative; `op` is the state of a timer's operation. -/
structure Handle where
  active : Bool
  closing : Bool
  generation : Nat
  fd : Bool
  reading : Bool
  repeatMs : Nat
  op : Option OpState

inductive RunPc where
  | outside
  | top
  | body
deriving DecidableEq

/-- `early` records that `csilk_io_run` returned while a handle was active and no stop was
requested. -/
structure State where
  handle : Nat → Handle
  activeHandles : Nat
  running : Bool
  stopFlag : Bool
  pc : RunPc
  early : Bool

def State.modify (s : State) (k : Nat) (f : Handle → Handle) : State :=
  { s with handle := update s.handle k (f (s.handle k)) }

/-- Set `CSILK_IO_HANDLE_ACTIVE` and count the handle, whether it was set or not. -/
def State.acquire (s : State) (k : Nat) : State :=
  { s.modify k (fun h => { h with active := true }) with activeHandles := s.activeHandles + 1 }

/-- Clear `CSILK_IO_HANDLE_ACTIVE`, and decrement the count if it is positive. -/
def State.release (s : State) (k : Nat) : State :=
  { s.modify k (fun h => { h with active := false }) with activeHandles := s.activeHandles - 1 }

def State.acquireOnce (s : State) (k : Nat) : State :=
  if (s.handle k).active then s else s.acquire k

def State.releaseActive (s : State) (k : Nat) : State :=
  if (s.handle k).active then s.release k else s

def State.bump (s : State) (k : Nat) : State :=
  s.modify k fun h => { h with generation := h.generation + 1 }

/-- `csilk_io_timer_init` casts to `uint8_t`. -/
def initGeneration : HandleType → Nat → Nat
  | .timer, gen => max 1 ((gen + 1) % 256)
  | .stream, gen => gen + 1
  | .signal, _ | .async, _ => 1

def handleInit (generation : Nat) : Handle where
  active := false
  closing := false
  generation := generation
  fd := false
  reading := false
  repeatMs := 0
  op := none

def csilkIoTimerOpCancel (s : State) (k : Nat) : State := s.release k

def csilkIoOpCancel (s : State) (k : Nat) : State :=
  if (s.handle k).op = some .submitted then
    csilkIoTimerOpCancel (s.modify k fun h => { h with op := some .cancelRequested }) k
  else s

def State.dropOp (s : State) (k : Nat) : State :=
  (csilkIoOpCancel s k).modify k fun h => { h with op := none }

/-- `allocated` is the operation's allocation, `sqe` whether the ring had room. -/
def csilkIoTimerStart (s : State) (k repeatMs : Nat) (allocated sqe : Bool) : State :=
  let s := ((s.bump k).modify k fun h => { h with repeatMs := repeatMs }).acquireOnce k
  if allocated then
    let s := s.modify k fun h => { h with op := some .submitted }
    if sqe then s else s.dropOp k
  else s

def csilkIoTimerStop (s : State) (k : Nat) : State :=
  if (s.handle k).active then
    -- the operation is still submitted, and its cancel callback decrements the count again
    ((s.release k).dropOp k).bump k
  else s

def csilkIoListen (s : State) (k : Nat) (listening : Bool) : State :=
  if (s.handle k).fd && listening then (s.acquire k).bump k else s

def csilkIoReadStart (s : State) (k : Nat) : State :=
  if (s.handle k).fd then
    if (s.handle k).reading && (s.handle k).active then s
    else ((s.modify k fun h => { h with reading := true }).acquireOnce k).bump k
  else s

def csilkIoReadStop (s : State) (k : Nat) : State :=
  ((s.releaseActive k).modify k fun h => { h with reading := false }).bump k

/-- `opened` says whether `eventfd` succeeds. The flag is set before. -/
def csilkIoAsyncInit (s : State) (k : Nat) (opened : Bool) : State :=
  let s := s.modify k fun h =>
    { handleInit (initGeneration .async h.generation) with fd := opened, active := true }
  if opened then { s with activeHandles := s.activeHandles + 1 } else s

/-- `opened` says whether the signal number is positive and `signalfd` succeeds. -/
def csilkIoSignalStart (s : State) (k : Nat) (opened : Bool) : State :=
  if opened then ((s.modify k fun h => { h with fd := true }).acquire k).bump k else s

def csilkIoSignalStop (s : State) (k : Nat) : State :=
  if (s.handle k).fd then
    ((s.releaseActive k).bump k).modify k fun h => { h with fd := false }
  else s

def csilkIoClose (type : HandleType) (s : State) (k : Nat) (allocated : Bool) : State :=
  if (s.handle k).closing || !allocated then s
  else
    let s := ((s.modify k fun h => { h with closing := true }).releaseActive k).bump k
    match type with
    | .timer => csilkIoTimerStop s k
    | .signal => csilkIoSignalStop s k
    | .async | .stream => s.modify k fun h => { h with fd := false }

def isStalePoll (h : Handle) (gen : Nat) : Bool :=
  !h.fd || !h.active || h.closing || h.generation != gen

def isStaleTimer (h : Handle) (gen : Nat) : Bool :=
  !h.active || h.closing || h.generation != gen

def ecanceled : Int := 125

def etime : Int := 62

def eagain : Int := 11

/-- Callbacks and re-armed requests are steps of their own. -/
def readCompletion (s : State) (k gen : Nat) (res : Int) : State :=
  if isStalePoll (s.handle k) gen then s
  else if 0 < res then s
  else if res = -ecanceled then s
  else if res = -eagain then s
  else (s.modify k fun h => { h with reading := false }).release k

def timerCompletion (s : State) (k gen : Nat) (res : Int) : State :=
  if isStaleTimer (s.handle k) gen then s
  else if 0 ≤ res ∨ res = -ecanceled ∨ res = -etime then
    if 0 < (s.handle k).repeatMs then s else s.release k
  else s

def State.numActive (n : Nat) (s : State) : Nat :=
  ∑ k ∈ Finset.range n, (s.handle k).active.toNat

def State.returnsEarly (n : Nat) (s : State) : Bool :=
  !s.stopFlag && s.numActive n != 0

def State.leave (n : Nat) (s : State) : State :=
  { s with
    running := false
    pc := .outside
    early := s.early || s.returnsEarly n }

inductive Act where
  | init (k : Nat)
  | open (k : Nat)
  | timerStart (k repeatMs : Nat) (allocated sqe : Bool)
  | timerStop (k : Nat)
  | listen (k : Nat) (listening : Bool)
  | readStart (k : Nat)
  | readStop (k : Nat)
  | asyncInit (k : Nat) (opened : Bool)
  | signalStart (k : Nat) (opened : Bool)
  | signalStop (k : Nat)
  | close (k : Nat) (allocated : Bool)
  | read (k gen : Nat) (res : Int)
  | timeout (k gen : Nat) (res : Int)
  | run
  | stop
  | loopTop
  | loopBottom
deriving DecidableEq

section
variable (n : Nat) (type : Nat → HandleType)

def onHandle (t : HandleType) (k : Nat) (s : State) : Option State :=
  if k < n ∧ type k = t then some s else none

def runTop (s : State) : State :=
  if s.stopFlag then s.leave n
  else if s.activeHandles = 0 then s.leave n
  else { s with pc := .body }

def runBottom (s : State) : State :=
  if !s.stopFlag && decide (0 < s.activeHandles) then { s with pc := .top } else s.leave n

/-- Completions may carry any generation and any result. -/
def step (s : State) : Act → Option State
  | .init k =>
    if k < n ∧ type k ≠ .async then
      some (s.modify k fun h => handleInit (initGeneration (type k) h.generation))
    else none
  | .open k => onHandle n type .stream k (s.modify k fun h => { h with fd := true })
  | .timerStart k repeatMs allocated sqe =>
    onHandle n type .timer k (csilkIoTimerStart s k repeatMs allocated sqe)
  | .timerStop k => onHandle n type .timer k (csilkIoTimerStop s k)
  | .listen k listening => onHandle n type .stream k (csilkIoListen s k listening)
  | .readStart k => onHandle n type .stream k (csilkIoReadStart s k)
  | .readStop k => onHandle n type .stream k (csilkIoReadStop s k)
  | .asyncInit k opened => onHandle n type .async k (csilkIoAsyncInit s k opened)
  | .signalStart k opened => onHandle n type .signal k (csilkIoSignalStart s k opened)
  | .signalStop k => onHandle n type .signal k (csilkIoSignalStop s k)
  | .close k allocated => if k < n then some (csilkIoClose (type k) s k allocated) else none
  | .read k gen res => onHandle n type .stream k (readCompletion s k gen res)
  | .timeout k gen res => onHandle n type .timer k (timerCompletion s k gen res)
  | .run =>
    if s.running then
      -- a recursive call returns at once
      some { s with early := s.early || s.returnsEarly n }
    else some { s with running := true, stopFlag := false, pc := .top }
  | .stop => some { s with stopFlag := true }
  | .loopTop => if s.pc = .top then some (runTop n s) else none
  | .loopBottom => if s.pc = .body then some (runBottom n s) else none

end

def start : State where
  handle := fun _ => handleInit 1
  activeHandles := 0
  running := false
  stopFlag := false
  pc := .outside
  early := false

def system (n : Nat) (type : Nat → HandleType) : System State Act where
  init := (· = start)
  step := step n type

end Csilk.Uring.Loop
