import Csilk.Lib.Transition
import Mathlib.Algebra.Group.Nat.Defs

namespace Csilk.Async
open Csilk.Lib

structure BeginArgs where
  client : Bool
  stream : Bool
  timer : Bool
  onComplete : Bool
  stream_client : stream = true → client = true
deriving DecidableEq

/-- The generation counters of the context, and whether its stream was closed. -/
structure Ctx where
  generation : Nat
  requestSeq : Nat
  streamGen : Nat
  streamClosed : Bool
deriving DecidableEq

structure Op where
  generation : Nat
  requestSeq : Nat
  streamGen : Nat
  completed : Bool
  refCount : Int
  timerArmed : Bool
  timerClosed : Bool
deriving DecidableEq

inductive Callback where
  | complete
  | timeout
deriving DecidableEq

inductive UserPc where
  | idle
  | completeCas
  | cancelCas
  | chooseThread
  | inlineDisarm
  | inlineCallback
  | disarm
  | addRef
  | dispatch
  | undoRef
  | unref
  | done
deriving DecidableEq

inductive LoopPc where
  | idle
  | timerCas
  | timerCallback
  | timerDisarm
  | timerUnref
  | taskDisarm
  | taskCallback
  | taskUnref
deriving DecidableEq

structure State where
  args : BeginArgs
  begun : Ctx
  ctx : Ctx
  op : Op
  timerActive : Bool
  closePending : Bool
  taskQueued : Bool
  user : UserPc
  loop : LoopPc
  ran : List (Callback × Ctx)
  freed : Nat
  clientReleased : Nat
  streamReleased : Nat
  touchedFreed : Bool
deriving DecidableEq

def csilkAsyncOpBegin (args : BeginArgs) (c : Ctx) : State where
  args := args
  begun := c
  ctx := c
  op := {
    generation := if args.client then c.generation else 0
    requestSeq := c.requestSeq
    streamGen := c.streamGen % 2 ^ 32
    completed := false
    refCount := if args.timer then 2 else 1
    timerArmed := args.timer
    timerClosed := false }
  timerActive := args.timer
  closePending := false
  taskQueued := false
  user := .idle
  loop := .idle
  ran := []
  freed := 0
  clientReleased := 0
  streamReleased := 0
  touchedFreed := false

def touch (s : State) : State := { s with touchedFreed := s.touchedFreed || decide (0 < s.freed) }

def csilkAsyncOpUnref (s : State) : State :=
  let s := touch s
  let s' := { s with op := { s.op with refCount := s.op.refCount - 1 } }
  if 1 < s.op.refCount then s'
  else
    { s' with
      streamReleased := s.streamReleased + s.args.stream.toNat
      clientReleased := s.clientReleased + s.args.client.toNat
      freed := s.freed + 1 }

def csilkAsyncOpDisarmTimer (s : State) : State :=
  let s := touch s
  if s.op.timerArmed then
    { s with
      op := { s.op with timerArmed := false, timerClosed := true }
      timerActive := false
      closePending := s.closePending || !s.op.timerClosed }
  else s

def stillValid (s : State) : Bool :=
  !s.args.client || (s.ctx.generation = s.op.generation && s.ctx.requestSeq = s.op.requestSeq &&
      (!s.args.stream || s.ctx.streamGen = s.op.streamGen) && !s.ctx.streamClosed)

def runCallback (cb : Callback) (present : Bool) (s : State) : State :=
  let s := touch s
  if stillValid s && present then { s with ran := s.ran ++ [(cb, s.ctx)] } else s

/-- The compare-and-swap on `completed`; `won` is next if it succeeds. -/
def userCas (s : State) (won : UserPc) : State :=
  let s := touch s
  if s.op.completed then { s with user := .done }
  else { s with op := { s.op with completed := true }, user := won }

def userStep (s : State) : Option State :=
  match s.user with
  | .completeCas => some (userCas s .chooseThread)
  | .cancelCas => some (userCas s .disarm)
  | .inlineDisarm => some { csilkAsyncOpDisarmTimer s with user := .inlineCallback }
  | .inlineCallback => some { runCallback .complete s.args.onComplete s with user := .unref }
  | .disarm => some { csilkAsyncOpDisarmTimer s with user := .unref }
  | .addRef =>
    let s := touch s
    some { s with op := { s.op with refCount := s.op.refCount + 1 }, user := .dispatch }
  | .undoRef | .unref => some { csilkAsyncOpUnref s with user := .done }
  | _ => none

def loopStep (s : State) : Option State :=
  match s.loop with
  | .timerCas =>
    let s := touch s
    some (if s.op.completed then { s with loop := .idle }
      else { s with op := { s.op with completed := true }, loop := .timerCallback })
  | .timerCallback => some { runCallback .timeout true s with loop := .timerDisarm }
  | .timerDisarm => some { csilkAsyncOpDisarmTimer s with loop := .timerUnref }
  | .timerUnref => some { csilkAsyncOpUnref s with loop := .idle }
  | .taskDisarm => some { csilkAsyncOpDisarmTimer s with loop := .taskCallback }
  | .taskCallback => some { runCallback .complete s.args.onComplete s with loop := .taskUnref }
  | .taskUnref => some { csilkAsyncOpUnref s with loop := .idle }
  | .idle => none

/-- The user's call and its choices, the loop's callbacks, and changes of the context by the server.
-/
inductive Act where
  | callComplete
  | callCancel
  | user
  | userInline
  | userAlloc (ok : Bool)
  | userDispatch (ok : Bool)
  | fire
  | close
  | task
  | loop
  | setGeneration (n : Nat)
  | setRequestSeq (n : Nat)
  | nextStreamGen
  | closeStream
deriving DecidableEq

def step (s : State) : Act → Option State
  | .callComplete =>
    if s.user = .idle then some { touch s with user := .completeCas } else none
  | .callCancel => if s.user = .idle then some { s with user := .cancelCas } else none
  | .user => userStep s
  | .userInline =>
    if s.user = .chooseThread then some { touch s with user := .inlineDisarm } else none
  | .userAlloc ok =>
    if s.user = .chooseThread ∧ s.args.client = true then
      some { touch s with user := if ok then .addRef else .disarm }
    else none
  | .userDispatch ok =>
    if s.user = .dispatch then
      some (if ok then { touch s with taskQueued := true, user := .unref }
        else { touch s with user := .undoRef })
    else none
  | .fire =>
    if s.loop = .idle ∧ s.timerActive = true then
      some { touch s with timerActive := false, loop := .timerCas }
    else none
  | .close =>
    if s.loop = .idle ∧ s.closePending = true then
      some (csilkAsyncOpUnref { s with closePending := false })
    else none
  | .task =>
    if s.loop = .idle ∧ s.taskQueued = true then
      some { touch s with taskQueued := false, loop := .taskDisarm }
    else none
  | .loop => loopStep s
  | .setGeneration n => some { s with ctx := { s.ctx with generation := n } }
  | .setRequestSeq n => some { s with ctx := { s.ctx with requestSeq := n } }
  | .nextStreamGen => some { s with ctx := { s.ctx with streamGen := s.ctx.streamGen + 1 } }
  | .closeStream => some { s with ctx := { s.ctx with streamClosed := true } }

def asyncOp : System State Act where
  init s := ∃ args c, s = csilkAsyncOpBegin args c
  step := step

end Csilk.Async
