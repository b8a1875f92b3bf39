import Csilk.Lib.Transition

namespace Csilk.Connection
open Csilk.Lib

inductive ConnState where
  | init | accepted | tls | reading | processing | writing | streaming | closing | closed
deriving DecidableEq

def csilkConnIsValidTransition : ConnState → ConnState → Bool
  | .init, new => new ∈ [.init, .accepted, .closing, .closed]
  | .accepted, new => new ∈ [.accepted, .tls, .reading, .closing, .closed]
  | .tls, new => new ∈ [.tls, .reading, .closing, .closed]
  | .reading, new => new ∈ [.reading, .processing, .streaming, .closing, .closed]
  | .processing, new => new ∈ [.processing, .writing, .streaming, .closing, .closed]
  | .writing, new | .streaming, new => new ∈ [.reading, .writing, .streaming, .closing, .closed]
  | .closing, new => new ∈ [.closing, .closed]
  | .closed, new => new ∈ [.init, .closed]

/-- The state after `csilk_conn_set_state`; a forbidden transition is ignored. -/
def csilkConnSetState (old new : ConnState) : ConnState :=
  if csilkConnIsValidTransition old new then new else old

/-- `cb` says that it is closed with the callback the connection waits for. -/
inductive Handle where
  | active
  | closing (cb : Bool)
  | closed
deriving DecidableEq

/-- The flags of `csilk_ctx_t` that decide what happens to its connection. -/
structure Ctx where
  isWebsocket : Bool
  isSse : Bool
  responseStarted : Bool
  connClosed : Bool
  hasFile : Bool
deriving DecidableEq

def csilkCtxCleanup (c : Ctx) : Ctx := ⟨false, false, false, c.connClosed, false⟩

inductive WriteCb where
  | onWrite
  | release
deriving DecidableEq

/-- The socket or memory is not available, `sendfile` is refused, or it is under way. -/
inductive FileStart where
  | unavailable
  | refused
  | started
deriving DecidableEq

/-- The last two fields count the releases of the accept's reference and the runs of
`client_destroy`. -/
structure Conn where
  state : ConnState
  refCount : Nat
  pendingIo : Nat
  handle : Handle
  /-- `timer`, `read_timer`, `write_timer` and `request_timer` -/
  timers : List Handle
  ssl : Bool
  ctx : Ctx
  pooled : Bool
  writes : List WriteCb
  sendfiles : Nat
  asyncOps : Nat
  dispatched : Nat
  /-- Threads that dropped the last reference and are about to dispatch a recycle task. -/
  remoteChecks : Nat
  recycleTasks : Nat
  activeConnections : Int
  baseReleases : Nat
  destroys : Nat
deriving DecidableEq

namespace Conn

def setState (s : Conn) (new : ConnState) : Conn :=
  { s with state := csilkConnSetState s.state new }

def ending (s : Conn) : Bool := s.state = .closing || s.state = .closed

def clientDestroy (s : Conn) : Conn :=
  if s.state = .closing then
    { s with
      state := csilkConnSetState .closed .init
      refCount := 0
      pendingIo := 0
      ctx := ⟨false, false, false, false, false⟩
      pooled := true
      activeConnections := s.activeConnections - 1
      destroys := s.destroys + 1 }
  else s

def csilkClientCheckRecycle (s : Conn) : Conn :=
  if s.ending = true ∧ s.refCount = 0 ∧ s.pendingIo = 0 then s.clientDestroy else s

def csilkClientRef (s : Conn) : Conn := { s with refCount := s.refCount + 1 }

def csilkClientUnref (s : Conn) : Conn :=
  if s.refCount = 1 then csilkClientCheckRecycle { s with refCount := 0 }
  else { s with refCount := s.refCount - 1 }

def csilkClientPendingIoInc (s : Conn) : Conn := { s with pendingIo := s.pendingIo + 1 }

def csilkClientPendingIoDec (s : Conn) : Conn :=
  if s.pendingIo = 1 then csilkClientCheckRecycle { s with pendingIo := 0 }
  else { s with pendingIo := s.pendingIo - 1 }

def close (s : Conn) (cb : Bool) : Conn :=
  if s.handle = .active then { s with handle := .closing cb } else s

def csilkClientStopTimers (s : Conn) : Conn :=
  { s with
    timers := s.timers.map fun t => if t = .active then .closing true else t
    pendingIo := s.pendingIo + s.timers.count .active }

def onClose (s : Conn) : Conn :=
  if s.ending then s
  else
    let s := s.setState .closing
    let s := { s with ctx := { s.ctx with connClosed := true } }
    let s := s.csilkClientStopTimers
    csilkClientUnref { s with baseReleases := s.baseReleases + 1 }

/-- A write with its reference and pending count; `csilk_io_write` fails unless `ok`. -/
def write (s : Conn) (cb : WriteCb) (ok : Bool) : Conn :=
  let s := s.csilkClientRef.csilkClientPendingIoInc
  if ok then { s with writes := s.writes ++ [cb] }
  else s.csilkClientPendingIoDec.csilkClientUnref

def flushTlsWrite (s : Conn) : List Bool → Conn
  | [] => s
  | true :: rs => (s.write .onWrite true).flushTlsWrite rs
  | false :: _ => s.write .onWrite false

/-- Without results there was no memory. -/
def csilkSendDataOwned (s : Conn) (rs : List Bool) : Conn :=
  if s.ctx.connClosed || s.ending then s
  else if s.ssl then s.flushTlsWrite rs
  else
    match rs with
    | [] => s
    | ok :: _ => s.write .onWrite ok

def csilkHandlePostResponse (s : Conn) (keepAlive : Bool) : Conn :=
  let ctx := s.ctx
  let s := { s with
    ctx := { csilkCtxCleanup ctx with isWebsocket := ctx.isWebsocket, isSse := ctx.isSse } }
  if ctx.isWebsocket || ctx.isSse then s
  else if keepAlive then
    if s.handle = .active then s.setState .reading else s
  else (s.setState .closing).close true

def csilkSendResponse (s : Conn) (keepAlive : Bool) (rs : List Bool) : Conn :=
  if s.ending then s
  else if s.ctx.isWebsocket then (s.setState .streaming).csilkSendDataOwned rs
  else if s.ctx.isSse then s
  else
    let isFile := s.ctx.hasFile && !s.ssl
    let s := (s.setState .writing).csilkSendDataOwned rs
    if isFile then s else s.csilkHandlePostResponse keepAlive

def sendChunkedHeaders (s : Conn) (r : Option Bool) : Conn :=
  match r with
  | none => s
  | some ok =>
    let s := s.write .release ok
    if ok then { s with ctx := { s.ctx with responseStarted := true } } else s

def csilkResponseWrite (s : Conn) (r : Option Bool) (rs : List Bool) : Conn :=
  if s.ctx.connClosed || s.ending then s
  else
    let s := s.setState .streaming
    let s := if s.ctx.responseStarted then s else s.sendChunkedHeaders r
    if s.ctx.responseStarted then s.csilkSendDataOwned rs else s

def csilkResponseEnd (s : Conn) (keepAlive : Bool) (r : Option Bool) (rs : List Bool) : Conn :=
  if s.ctx.connClosed then s
  else
    let s := if s.ctx.responseStarted then s else s.sendChunkedHeaders r
    if s.ending then s else (s.csilkSendDataOwned rs).csilkHandlePostResponse keepAlive

/-- The close branch; `r` is the result of the write of `csilk_ws_close`. -/
def csilkWsParseClose (s : Conn) (r : Option Bool) : Conn :=
  let s :=
    match r with
    | none => s
    | some ok => s.write .release ok
  s.close false

def csilkSseClose (s : Conn) : Conn := (s.setState .closing).close true

def releaseWrite (s : Conn) : Conn := s.csilkClientPendingIoDec.csilkClientUnref

def onWrite (s : Conn) (file : FileStart) : Conn :=
  if s.ctx.hasFile then
    match file with
    | .unavailable => s.releaseWrite
    | .refused =>
      let s := s.csilkClientRef.csilkClientPendingIoInc.releaseWrite
      releaseWrite { s with ctx := { s.ctx with hasFile := false } }
    | .started =>
      let s := s.csilkClientRef.csilkClientPendingIoInc
      releaseWrite { s with sendfiles := s.sendfiles + 1 }
  else s.releaseWrite

def onSendfileComplete (s : Conn) (keepAlive : Bool) : Conn :=
  let s := if keepAlive then s else s.close true
  releaseWrite { s with ctx := csilkCtxCleanup s.ctx }

/-- `csilk_client_unref` on another thread, up to the dispatch of a recycle task. -/
def remoteUnref (s : Conn) : Conn :=
  if s.refCount = 1 then { s with refCount := 0, remoteChecks := s.remoteChecks + 1 }
  else { s with refCount := s.refCount - 1 }

def recycle (s : Conn) : Conn :=
  if s.state = .closing ∧ s.refCount = 0 ∧ s.pendingIo = 0 then s.clientDestroy else s

end Conn

inductive Event where
  | readData
  | readFail
  | request
  | upgrade
  | sseInit (r : Option Bool)
  | openFile
  | sendResponse (keepAlive : Bool) (rs : List Bool)
  | responseWrite (r : Option Bool) (rs : List Bool)
  | responseEnd (keepAlive : Bool) (r : Option Bool) (rs : List Bool)
  | stream
  | send (ok : Bool)
  | flush (rs : List Bool)
  | wsCloseFrame (r : Option Bool)
  | sseClose
  | timeout (i : Nat)
  | shutdown
  | handleClosed
  | timerClosed (i : Nat)
  | writeDone (i : Nat) (file : FileStart)
  | sendfileDone (keepAlive : Bool)
  | asyncBegin
  | asyncEnd (owner : Bool)
  | dispatch
  | dispatchDone
  | remoteEnqueue (ok : Bool)
  | recycleTask
deriving DecidableEq

def Conn.use (s : Conn) (s' : Conn) : Option Conn := if s.pooled then none else some s'

/-- The next state; a callback without its cause does not happen. -/
def step (s : Conn) : Event → Option Conn
  | .readData =>
    if s.handle = .active ∧ s.pooled = false then
      some (if s.ending then s
        else s.setState (if s.ctx.isWebsocket ∧ s.ssl = false then .streaming else .reading))
    else none
  | .readFail =>
    if s.handle = .active ∧ s.pooled = false then some (if s.ending then s else s.close true)
    else none
  | .request => s.use (s.setState .processing)
  | .upgrade => s.use { s.setState .streaming with ctx := { s.ctx with isWebsocket := true } }
  | .sseInit r =>
    let s' := { s.setState .streaming with ctx := { s.ctx with isSse := true } }
    s.use (match r with
      | none => s'
      | some ok => s'.write .release ok)
  | .openFile => s.use { s with ctx := { s.ctx with hasFile := true } }
  | .sendResponse keepAlive rs => s.use (s.csilkSendResponse keepAlive rs)
  | .responseWrite r rs => s.use (s.csilkResponseWrite r rs)
  | .responseEnd keepAlive r rs => s.use (s.csilkResponseEnd keepAlive r rs)
  | .stream => s.use (s.setState .streaming)
  | .send ok => s.use (s.write .release ok)
  | .flush rs => s.use (s.flushTlsWrite rs)
  | .wsCloseFrame r => s.use (if s.ending then s else s.csilkWsParseClose r)
  | .sseClose => s.use s.csilkSseClose
  | .timeout i => if s.timers[i]? = some .active then some (s.close true) else none
  | .shutdown => s.use (s.close true)
  | .handleClosed =>
    match s.handle with
    | .closing cb =>
      let s := { s with handle := .closed }
      some (if cb then s.onClose else s)
    | _ => none
  | .timerClosed i =>
    match s.timers[i]? with
    | some (.closing _) =>
      some (Conn.csilkClientPendingIoDec { s with timers := s.timers.set i .closed })
    | _ => none
  | .writeDone i file =>
    match s.writes[i]? with
    | none => none
    | some cb =>
      let s := { s with writes := s.writes.eraseIdx i }
      some (match cb with
        | .onWrite => s.onWrite file
        | .release => s.releaseWrite)
  | .sendfileDone keepAlive =>
    if 0 < s.sendfiles then
      some (Conn.onSendfileComplete { s with sendfiles := s.sendfiles - 1 } keepAlive)
    else none
  | .asyncBegin => s.use { s.csilkClientRef with asyncOps := s.asyncOps + 1 }
  | .asyncEnd owner =>
    if 0 < s.asyncOps then
      let s := { s with asyncOps := s.asyncOps - 1 }
      some (if owner then s.csilkClientUnref else s.remoteUnref)
    else none
  | .dispatch => s.use { s.csilkClientRef with dispatched := s.dispatched + 1 }
  | .dispatchDone =>
    if 0 < s.dispatched then
      some (Conn.csilkClientUnref { s with dispatched := s.dispatched - 1 })
    else none
  | .remoteEnqueue ok =>
    if 0 < s.remoteChecks then
      let s := { s with remoteChecks := s.remoteChecks - 1 }
      some (if ok = true ∧ s.pooled = false then { s with recycleTasks := s.recycleTasks + 1 } else s)
    else none
  | .recycleTask =>
    if 0 < s.recycleTasks then
      some (Conn.recycle { s with recycleTasks := s.recycleTasks - 1 })
    else none

def onNewConnection (ssl : Bool) (n : Int) : Conn where
  state := if ssl then .tls else .reading
  refCount := 1
  pendingIo := 0
  handle := .active
  timers := List.replicate 4 .active
  ssl := ssl
  ctx := ⟨false, false, false, false, false⟩
  pooled := false
  writes := []
  sendfiles := 0
  asyncOps := 0
  dispatched := 0
  remoteChecks := 0
  recycleTasks := 0
  activeConnections := n + 1
  baseReleases := 0
  destroys := 0

def lifetime (n : Int) : System Conn Event where
  init s := ∃ ssl, s = onNewConnection ssl n
  step := step

end Csilk.Connection
