import Csilk.Lib.Transition

namespace Csilk.Http2.Session
open Csilk.Lib Function

/-- Another thread in `_csilk_stream_unref`, and how deep it has called itself. -/
inductive UnrefPc where
  | idle
  | reserve (depth : Nat)
  | addRef (depth : Nat)
  | dispatch (depth : Nat)
  | undo (depth : Nat)
  | clear (depth : Nat)
deriving DecidableEq

/-- A call to itself is followed by the reset of `stream_destroy_pending`. -/
def UnrefPc.back : Nat → UnrefPc
  | 0 => .idle
  | depth + 1 => .clear depth

/-- `held` counts the operations with a reference, `queued` the tasks that will destroy the stream.
-/
structure Stream where
  streamId : Nat
  streamRef : Int
  streamDestroyPending : Bool
  requestCancelled : Bool
  streamClosed : Bool
  requestDispatched : Bool
  isAsync : Bool
  endReceived : Bool
  responded : Bool
  held : Nat
  unref : UnrefPc
  queued : Nat
  destroyed : Nat
  misused : Bool

/-- The calls on the owner's stack; `send` and `flush` are `nghttp2_session_send`. -/
inductive Frame where
  | handler (k : Nat)
  | callback (k : Nat)
  | send (k : Nat)
  | flush
deriving DecidableEq

structure State where
  created : Nat
  stream : Nat → Stream
  live : Nat → Option Nat
  stack : List Frame

def streamCtxInit (id : Nat) : Stream where
  streamId := id
  streamRef := 1
  streamDestroyPending := false
  requestCancelled := false
  streamClosed := false
  requestDispatched := false
  isAsync := false
  endReceived := false
  responded := false
  held := 0
  unref := .idle
  queued := 0
  destroyed := 0
  misused := false

def init : State := ⟨0, fun _ => streamCtxInit 0, fun _ => none, []⟩

def Stream.touch (x : Stream) : Stream := { x with misused := x.misused || decide (0 < x.destroyed) }

def Stream.destroyPhysically (x : Stream) : Stream := { x.touch with destroyed := x.destroyed + 1 }

def Stream.unrefOwner (x : Stream) : Stream :=
  let y := { x.touch with streamRef := x.streamRef - 1 }
  if 1 < x.streamRef then y else y.destroyPhysically

def Stream.unrefRemote (x : Stream) (depth : Nat) : Stream :=
  let y := { x.touch with streamRef := x.streamRef - 1 }
  if 1 < x.streamRef then { y with unref := .back depth } else { y with unref := .reserve depth }

/-- The later steps; `dispatched` is the outcome of `_csilk_dispatch_try`. -/
def Stream.remote (x : Stream) (dispatched : Bool) : Option Stream :=
  match x.unref with
  | .idle => none
  | .reserve depth =>
    if x.streamDestroyPending then some { x.touch with unref := .back depth }
    else some { x.touch with streamDestroyPending := true, unref := .addRef depth }
  | .addRef depth => some { x.touch with streamRef := x.streamRef + 1, unref := .dispatch depth }
  | .dispatch depth =>
    if dispatched then some { x.touch with queued := x.queued + 1, unref := .back depth }
    else some { x.touch with unref := .undo depth }
  | .undo depth => some (x.unrefRemote (depth + 1))
  | .clear depth => some { x.touch with streamDestroyPending := false, unref := .back depth }

def State.modify (s : State) (k : Nat) (f : Stream → Stream) : State :=
  { s with stream := update s.stream k (f (s.stream k)) }

def csilkH2GetOrCreateStream (s : State) (id : Nat) : State × Nat :=
  match s.live id with
  | some k => (s, k)
  | none =>
    ({ s with
        created := s.created + 1
        stream := update s.stream s.created (streamCtxInit id)
        live := update s.live id (some s.created) }, s.created)

def csilkH2RemoveStream (s : State) (id : Nat) : State :=
  (s.live id).elim s fun k =>
    { s.modify k fun x => { x.touch with streamClosed := true }.unrefOwner with
      live := update s.live id none }

def onHeaderCallback (s : State) (id : Nat) : State :=
  let p := csilkH2GetOrCreateStream s id
  p.1.modify p.2 Stream.touch

def onDataChunkRecvCallback (s : State) (id : Nat) : State :=
  (s.live id).elim s fun k => s.modify k Stream.touch

def onFrameRecvCallback (s : State) (id : Nat) : State :=
  (s.live id).elim s fun k =>
    let x := s.stream k
    if x.requestDispatched || x.requestCancelled || x.streamClosed then
      s.modify k fun x => { x.touch with endReceived := true }
    else
      { s.modify k fun x => { x.touch with endReceived := true, requestDispatched := true } with
        stack := .handler k :: s.stack }

def onStreamCloseCallback (s : State) (id : Nat) : State :=
  (s.live id).elim s fun k =>
    csilkH2RemoveStream
      (s.modify k fun x => { x.touch with requestCancelled := true, streamClosed := true }) id

def csilkH2SendResponse (s : State) (k : Nat) : State :=
  { s.modify k fun x => { x.touch with responded := true } with stack := .send k :: s.stack }

def State.user (s : State) : Option Nat :=
  match s.stack with
  | .handler k :: _ | .callback k :: _ => some k
  | _ => none

def State.sending (s : State) : Bool :=
  match s.stack with
  | .send _ :: _ | .flush :: _ => true
  | _ => false

def State.idleOp (s : State) (k : Nat) : Prop := s.stack.count (.callback k) < (s.stream k).held

instance : Decidable (State.idleOp s k) := inferInstanceAs (Decidable (_ < _))

/-- The first four need an empty stack; `bodyRead` and `closeInSend` come from a
`nghttp2_session_send`. `drop` is on another thread. -/
inductive Act where
  | header (id : Nat)
  | data (id : Nat)
  | frameRecv (id : Nat)
  | streamClose (id : Nat)
  | use
  | opBegin
  | push (id : Nat)
  | handlerReturn (sends : Bool)
  | callback (k : Nat)
  | respond
  | callbackReturn
  | bodyRead (id : Nat)
  | closeInSend (id : Nat)
  | sendReturn
  | release (k : Nat)
  | drop (k : Nat)
  | remote (k : Nat) (dispatched : Bool)
  | destroyTask (k : Nat)

/-- `hooked`: the server has a `CSILK_HOOK_REQUEST_END` hook. -/
def step (hooked : Bool) (s : State) : Act → Option State
  | .header id => if s.stack = [] then some (onHeaderCallback s id) else none
  | .data id => if s.stack = [] then some (onDataChunkRecvCallback s id) else none
  | .frameRecv id => if s.stack = [] then some (onFrameRecvCallback s id) else none
  | .streamClose id => if s.stack = [] then some (onStreamCloseCallback s id) else none
  | .use => s.user.map fun k => s.modify k Stream.touch
  | .opBegin =>
    s.user.map fun k =>
      s.modify k fun x =>
        { x.touch with streamRef := x.streamRef + 1, held := x.held + 1, isAsync := true }
  | .push id =>
    s.user.map fun k =>
      let p := csilkH2GetOrCreateStream (s.modify k Stream.touch) id
      { p.1.modify p.2 fun x => { x.touch with endReceived := true } with
        stack := .handler p.2 :: .flush :: s.stack }
  | .handlerReturn sends =>
    match s.stack with
    | .handler k :: stack =>
      let t := { s.modify k Stream.touch with stack := stack }
      -- an asynchronous handler leaves the response to the callback of its operation
      some (if (s.stream k).isAsync || !sends then t else csilkH2SendResponse t k)
    | _ => none
  | .callback k =>
    if (s.stack = [] ∨ s.user.isSome) ∧ s.idleOp k then
      let t := s.modify k Stream.touch
      some (if (s.stream k).streamClosed then t else { t with stack := .callback k :: s.stack })
    else none
  | .respond =>
    match s.stack with
    | .callback k :: _ => some (csilkH2SendResponse s k)
    | _ => none
  | .callbackReturn =>
    match s.stack with
    | .callback _ :: stack => some { s with stack := stack }
    | _ => none
  | .bodyRead id =>
    (s.live id).bind fun k =>
      if (s.stack = [] ∨ s.sending) ∧ (s.stream k).responded then some (s.modify k Stream.touch)
      else none
  | .closeInSend id =>
    (s.live id).bind fun k =>
      if s.sending ∧ (s.stream k).endReceived ∧ (s.stream k).responded then
        some (onStreamCloseCallback s id)
      else none
  | .sendReturn =>
    match s.stack with
    | .send k :: stack => some { (if hooked then s.modify k Stream.touch else s) with stack := stack }
    | .flush :: stack => some { s with stack := stack }
    | _ => none
  | .release k =>
    if s.idleOp k then some (s.modify k fun x => { x with held := x.held - 1 }.unrefOwner) else none
  | .drop k =>
    if s.idleOp k then some (s.modify k fun x => { x with held := x.held - 1 }.unrefRemote 0) else none
  | .remote k dispatched =>
    ((s.stream k).remote dispatched).map fun x => { s with stream := update s.stream k x }
  | .destroyTask k =>
    if s.stack = [] ∧ 0 < (s.stream k).queued then
      some (s.modify k fun x =>
        { x with queued := x.queued - 1, streamDestroyPending := false }.destroyPhysically)
    else none

def session (hooked : Bool) : System State Act where
  init s := s = init
  step := step hooked

/-- No call on the stack will use the context of `k` without an operation's reference. -/
def spared (hooked : Bool) (k : Nat) : List Frame → Bool
  | [] => true
  | .handler j :: stack => decide (j ≠ k) && spared hooked k stack
  | .send j :: stack =>
    (decide (j ≠ k) || !hooked || decide (.callback k ∈ stack)) && spared hooked k stack
  | .callback _ :: stack | .flush :: stack => spared hooked k stack

/-- No stream is closed inside a send while a call goes on to use it, and its destruction can be
dispatched. -/
def guarded (hooked : Bool) (s : State) : Act → Bool
  | .closeInSend id => (s.live id).all fun k => spared hooked k s.stack
  | .remote _ dispatched => dispatched
  | _ => true

end Csilk.Http2.Session
