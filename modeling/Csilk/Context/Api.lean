import Csilk.Headers.Map
import Csilk.Lib.Transition

namespace Csilk.Context
open Csilk.Headers

def csilkUuidBufSize : Nat := 37
def csilkMaxStorage : Nat := 64

abbrev Fn := Nat

inductive Ownership
  | none | borrowed | arena | heap | pool | transfer
  deriving DecidableEq

structure Body where
  body : Option Bytes
  bodyLen : Nat
  bodyCapacity : Nat
  bodyOwnership : Ownership
  deriving DecidableEq

def Body.released : Body := ⟨none, 0, 0, .none⟩

structure KvMap where
  buckets : Nat → List (Bytes × Bytes)
  used : Bool

def KvMap.empty : KvMap := ⟨fun _ => [], false⟩

/-- The maps of query and form have as many buckets as those of headers. -/
def mapKvAdd (m : KvMap) (key value : Bytes) : KvMap :=
  let m := { m with used := true }
  let cleanKey := csilkSanitizeHeaderStr key
  if cleanKey.length = 0 then m
  else
    let bucket := bucketOf (headerHash cleanKey)
    let entry := (cleanKey, csilkSanitizeHeaderStr value)
    { m with buckets := Function.update m.buckets bucket (entry :: m.buckets bucket) }

structure Request where
  method : Option Bytes
  path : Option Bytes
  body : Body
  headers : HeaderMap
  queryParams : KvMap
  formParams : KvMap

structure Response where
  status : Int
  body : Body
  headers : HeaderMap

structure StorageItem where
  key : Bytes
  value : Option Nat
  freeFn : Option Fn
  deriving DecidableEq

/-- The request scope, and the response and file fields of the connection scope. -/
structure Ctx where
  handlerIndex : Int
  aborted : Bool
  panicked : Bool
  params : List (Bytes × Bytes)
  handlers : Option (List Fn)
  handlerCount : Nat
  deferHead : List Fn
  request : Request
  response : Response
  isAsync : Int
  responseStarted : Bool
  isWebsocket : Int
  isSse : Int
  onWsMessage : Option Fn
  onWsSend : Option Fn
  storageHead : List StorageItem
  currentHandler : Option Nat
  requestId : Bytes
  requestSeq : UInt64
  writePaused : Bool
  onDrain : Option Fn
  onDrainData : Option Nat
  fileFd : Int
  fileOffset : Nat
  fileSize : Nat

def csilkCtxInit : Ctx where
  handlerIndex := -1
  aborted := false
  panicked := false
  params := []
  handlers := none
  handlerCount := 0
  deferHead := []
  request := ⟨none, none, .released, .empty, .empty, .empty⟩
  response := ⟨0, .released, .empty⟩
  isAsync := 0
  responseStarted := false
  isWebsocket := 0
  isSse := 0
  onWsMessage := none
  onWsSend := none
  storageHead := []
  currentHandler := none
  requestId := List.replicate csilkUuidBufSize 0
  requestSeq := 1
  writePaused := false
  onDrain := none
  onDrainData := none
  fileFd := -1
  fileOffset := 0
  fileSize := 0

/-- The writes of the parser and the router, then of the public functions. -/
inductive Call
  | storeHeader (field value : Bytes)
  | addQuery (key value : Bytes)
  | addForm (key value : Bytes)
  | onBody (body : Body)
  | finalize (method path : Option Bytes)
  | matched (params : List (Bytes × Bytes)) (handlers : List Fn) (current : Option (Nat × Nat))
  | unmatched
  | drained
  | sendfileFailed
  | csilkNext
  | csilkAbort
  | csilkPanic
  | csilkCtxDefer (fn : Fn)
  | csilkCtxDeferFree
  | csilkSetStatus (status : Int)
  | csilkString (status : Int) (msg : Option Bytes)
  | csilkSetResponseBodyEx (body : Option Bytes) (len : Nat) (ownership : Ownership)
  | csilkSetResponseBodyPooled (data : Bytes) (capacity : Nat)
  | csilkSetHeader (key value : Bytes)
  | csilkAddHeader (key value : Bytes)
  | csilkSetRequestHeader (key value : Bytes)
  | csilkSetFileResponse (fd : Int) (offset size : Nat)
  | csilkSetEx (key : Bytes) (value : Option Nat) (freeFn : Option Fn)
  | csilkCtxSetWebsocket (isWebsocket : Int)
  | csilkCtxSetSse (isSse : Int)
  | csilkSseInit
  | csilkCtxSetAsync (isAsync : Int)
  | csilkSetOnWsMessage (callback : Option Fn)
  | csilkSetOnWsSend (callback : Option Fn)
  | csilkResponseOnDrain (onDrain : Option Fn) (userData : Option Nat)
  | csilkResponseWrite (paused : Bool)
  | csilkSetRequestId (id : Bytes)

/-- `snprintf` of a string into a buffer: the bytes behind the terminator stay. -/
def snprintf (buf s : Bytes) : Bytes :=
  let s := (cString s).take (buf.length - 1)
  s ++ 0 :: buf.drop (s.length + 1)

/-- `csilk_next`, but for the call of the handler. -/
def csilkNext (c : Ctx) : Ctx :=
  if c.aborted || c.panicked || c.handlers.isNone then c
  else { c with handlerIndex := c.handlerIndex + 1 }

def csilkResponseBodyRelease (c : Ctx) : Ctx :=
  { c with response := { c.response with body := .released } }

def csilkString (c : Ctx) (status : Int) (msg : Option Bytes) : Ctx :=
  let body : Body := match msg with
    | none => .released
    | some msg => ⟨some msg, msg.length, 0, .arena⟩
  { c with response := { c.response with status := status, body := body } }

def csilkSetResponseBodyEx (c : Ctx) (body : Option Bytes) (len : Nat) (ownership : Ownership) :
    Ctx :=
  let c := csilkResponseBodyRelease c
  let ownership := if body.isSome then ownership else .none
  { c with response := { c.response with body := ⟨body, len, 0, ownership⟩ } }

def csilkSetFileResponse (c : Ctx) (fd : Int) (offset size : Nat) : Ctx :=
  { csilkResponseBodyRelease c with fileFd := fd, fileOffset := offset, fileSize := size }

def csilkSetHeader (c : Ctx) (key value : Bytes) : Ctx :=
  { c with response := { c.response with headers := (mapSet c.response.headers key value).1 } }

def sseHeaders : List (Bytes × Bytes) :=
  [(ascii "Content-Type", ascii "text/event-stream"), (ascii "Cache-Control", ascii "no-cache"),
    (ascii "Connection", ascii "keep-alive"), (ascii "X-Accel-Buffering", ascii "no")]

def csilkSseInit (c : Ctx) : Ctx :=
  let c := sseHeaders.foldl (fun c h => csilkSetHeader c h.1 h.2) c
  { c with
    isSse := 1
    response := { c.response with status := 200, body := { c.response.body with bodyLen := 0 } } }

def Ctx.setItem (c : Ctx) (key : Bytes) (value : Option Nat) (freeFn : Option Fn) : Ctx :=
  { c with storageHead := c.storageHead.map fun item =>
      if item.key = key then { item with value := value, freeFn := freeFn } else item }

section Callbacks
variable (fire : Fn → Ctx → Option Ctx)

/-- What a callback registers meanwhile is dropped with the list. -/
def csilkCtxDeferFree (c : Ctx) : Option Ctx := do
  let c ← c.deferHead.foldlM (fun c fn => fire fn c) c
  return { c with deferHead := [] }

/-- `csilk_set_ex` without a storage driver. -/
def csilkSetEx (c : Ctx) (key : Bytes) (value : Option Nat) (freeFn : Option Fn) : Option Ctx :=
  match c.storageHead.find? fun item => item.key = key with
  | some ⟨_, old, some fn⟩ =>
    if old.isSome ∧ old ≠ value then do
      let c ← fire fn c
      return c.setItem key value freeFn
    else some (c.setItem key value freeFn)
  | some ⟨_, _, none⟩ => some (c.setItem key value freeFn)
  | none =>
    if c.storageHead.length ≥ csilkMaxStorage then some c
    else some { c with storageHead := ⟨key, value, freeFn⟩ :: c.storageHead }

def perform : Call → Ctx → Option Ctx
  | .storeHeader field value, c => some { c with
      request := { c.request with headers := (mapSetView c.request.headers field value).1 } }
  | .addQuery key value, c => some { c with
      request := { c.request with queryParams := mapKvAdd c.request.queryParams key value } }
  | .addForm key value, c => some { c with
      request := { c.request with formParams := mapKvAdd c.request.formParams key value } }
  | .onBody body, c => some { c with request := { c.request with body := body } }
  | .finalize method path, c => some { c with
      request := { c.request with method := method, path := path } }
  | .matched params handlers current, c => some { c with
      params := params
      handlers := some handlers
      handlerCount := match current with
        | some (_, count) => count
        | none => 0
      handlerIndex := -1
      currentHandler := current.map (·.1) }
  | .unmatched, c => some { c with params := [] }
  | .drained, c => some { c with writePaused := false }
  | .sendfileFailed, c => some { c with fileFd := -1 }
  | .csilkNext, c => some (csilkNext c)
  | .csilkAbort, c => some { c with aborted := true }
  | .csilkPanic, c => csilkCtxDeferFree fire { c with panicked := true, aborted := true }
  | .csilkCtxDefer fn, c => some { c with deferHead := fn :: c.deferHead }
  | .csilkCtxDeferFree, c => csilkCtxDeferFree fire c
  | .csilkSetStatus status, c => some { c with response := { c.response with status := status } }
  | .csilkString status msg, c => some (csilkString c status msg)
  | .csilkSetResponseBodyEx body len ownership, c =>
    some (csilkSetResponseBodyEx c body len ownership)
  | .csilkSetResponseBodyPooled data capacity, c => some { c with
      response := { c.response with body := ⟨some data, data.length, capacity, .pool⟩ } }
  | .csilkSetHeader key value, c => some (csilkSetHeader c key value)
  | .csilkAddHeader key value, c => some { c with
      response := { c.response with headers := (mapAdd c.response.headers key value).1 } }
  | .csilkSetRequestHeader key value, c => some { c with
      request := { c.request with headers := (mapSet c.request.headers key value).1 } }
  | .csilkSetFileResponse fd offset size, c => some (csilkSetFileResponse c fd offset size)
  | .csilkSetEx key value freeFn, c => csilkSetEx fire c key value freeFn
  | .csilkCtxSetWebsocket isWebsocket, c => some { c with isWebsocket := isWebsocket }
  | .csilkCtxSetSse isSse, c => some { c with isSse := isSse }
  | .csilkSseInit, c => some (csilkSseInit c)
  | .csilkCtxSetAsync isAsync, c => some { c with isAsync := isAsync }
  | .csilkSetOnWsMessage callback, c => some { c with onWsMessage := callback }
  | .csilkSetOnWsSend callback, c => some { c with onWsSend := callback }
  | .csilkResponseOnDrain onDrain userData, c => some { c with
      onDrain := onDrain, onDrainData := userData }
  | .csilkResponseWrite paused, c => some { c with
      responseStarted := true
      isAsync := if c.responseStarted then c.isAsync else 1
      writePaused := c.writePaused || paused }
  | .csilkSetRequestId id, c => some { c with requestId := snprintf c.requestId id }

/-- The first half of `csilk_ctx_cleanup`: deferred callbacks, then destructors. -/
def releaseCallbacks (c : Ctx) : Option Ctx := do
  let c ← csilkCtxDeferFree fire c
  let c ← (c.storageHead.map StorageItem.key).foldlM (fun c key =>
    match c.storageHead.find? fun item => item.key = key with
    | some ⟨_, some _, some fn⟩ => do
      let c ← fire fn c
      return { c with storageHead := c.storageHead.map fun item =>
        if item.key = key then { item with value := none } else item }
    | _ => some c) c
  return { c with storageHead := [] }

end Callbacks

def HeaderMap.clearUsed (m : HeaderMap) : HeaderMap := if m.used then .empty else m

def KvMap.clearUsed (m : KvMap) : KvMap := if m.used then .empty else m

def resetFields (c : Ctx) : Ctx where
  handlerIndex := -1
  aborted := false
  panicked := false
  params := []
  handlers := none
  handlerCount := 0
  deferHead := c.deferHead
  request :=
    { method := c.request.method
      path := none
      body := .released
      headers := HeaderMap.clearUsed c.request.headers
      queryParams := c.request.queryParams.clearUsed
      formParams := c.request.formParams.clearUsed }
  response := ⟨0, .released, HeaderMap.clearUsed c.response.headers⟩
  isAsync := 0
  responseStarted := false
  isWebsocket := 0
  isSse := 0
  onWsMessage := none
  onWsSend := c.onWsSend
  storageHead := c.storageHead
  currentHandler := none
  requestId :=
    if c.requestId.headD 0 ≠ 0 then List.replicate csilkUuidBufSize 0 else c.requestId
  requestSeq := c.requestSeq + 1
  writePaused := false
  onDrain := none
  onDrainData := none
  fileFd := if c.fileFd ≥ 0 then -1 else c.fileFd
  fileOffset := 0
  fileSize := 0

def csilkCtxCleanup (fire : Fn → Ctx → Option Ctx) (c : Ctx) : Option Ctx := do
  let c ← releaseCallbacks fire c
  return resetFields c

def csilkHandlePostResponse (fire : Fn → Ctx → Option Ctx) (c : Ctx) : Option Ctx := do
  let k ← csilkCtxCleanup fire c
  let k := if c.isWebsocket ≠ 0 then
      { k with isWebsocket := c.isWebsocket, onWsMessage := c.onWsMessage, onWsSend := c.onWsSend }
    else k
  return if c.isSse ≠ 0 then { k with isSse := 1 } else k

def resetHotState (c : Ctx) : Ctx :=
  { c with
    handlerIndex := -1
    handlers := none
    handlerCount := 0
    aborted := false
    panicked := false
    deferHead := []
    params := []
    isWebsocket := 0
    isSse := 0
    isAsync := 0
    responseStarted := false
    writePaused := false
    onDrain := none
    onDrainData := none
    fileFd := -1
    fileOffset := 0
    fileSize := 0
    storageHead := []
    onWsMessage := none
    onWsSend := none
    requestId := List.replicate csilkUuidBufSize 0 }

/-- A callback makes the calls `app` gives for it, at most `depth` deep. -/
def fire (app : Fn → List Call) : Nat → Fn → Ctx → Option Ctx
  | 0, _, _ => none
  | depth + 1, fn, c => (app fn).foldlM (fun c call => perform (fire app depth) call c) c

inductive Event
  | call (call : Call)
  | postResponse
  | recycle

def context (app : Fn → List Call) (depth : Nat) : Lib.System Ctx Event where
  init c := c = csilkCtxInit
  step
    | c, .call call => perform (fire app depth) call c
    | c, .postResponse => csilkHandlePostResponse (fire app depth) c
    | c, .recycle => some (resetHotState c)

end Csilk.Context
