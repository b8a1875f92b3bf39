import Csilk.Headers.Map

namespace Csilk.Http1
open Csilk.Headers

def sizeMax : Nat := 2 ^ 64 - 1

structure Limits where
  maxUrlSize : Nat
  maxHeaderSize : Nat
  maxHeadersCount : Nat
  maxBodySize : Nat

def readMem (mem : Nat → UInt8) (addr len : Nat) : Bytes := (List.range len).map fun i => mem (addr + i)

/-- Bytes of receive memory, or an arena block with the number of arena resets before it. -/
inductive Str where
  | view (addr len : Nat)
  | copy (resets : Nat) (bytes : Bytes)
deriving DecidableEq

/-- None, borrowed receive memory, or a block of the body pool. -/
inductive Body where
  | none
  | borrowed (addr len : Nat)
  | pool (bytes : Bytes) (capacity : Nat)
deriving DecidableEq

def Body.len : Body → Nat
  | .none => 0
  | .borrowed _ len => len
  | .pool bytes _ => bytes.length

/-- `csilk_request_t`; the query parameters are the pairs added to their map. -/
structure Request where
  method : Bytes
  path : Option Bytes
  body : Body
  headers : HeaderMap
  queryParams : List (Bytes × Bytes)

/-- The parser state, the receive memory it points into and the number of arena resets. -/
structure Client where
  mem : Nat → UInt8
  resets : Nat
  currentUrl : Option Str
  currentHeaderField : Option Str
  currentHeaderValue : Option Str
  headerFieldCompleted : Bool
  totalHeaderSize : Nat
  headerCount : Nat
  request : Request

def Client.new (mem : Nat → UInt8) : Client :=
  ⟨mem, 0, none, none, none, false, 0, 0, ⟨[], none, .none, .empty, []⟩⟩

def loadStr (mem : Nat → UInt8) (resets : Nat) : Str → Bytes
  | .view addr len => readMem mem addr len
  | .copy r bytes => if r = resets then bytes else []

def Client.load (c : Client) (s : Str) : Bytes := loadStr c.mem c.resets s

def Client.text (c : Client) (s : Option Str) : Bytes := (s.map c.load).getD []

/-- A piece that follows in memory extends the view, any other is copied behind the text so far. -/
def Client.extend (c : Client) (s : Option Str) (addr len : Nat) : Str :=
  match s with
  | none => .view addr len
  | some (.view a l) =>
    if addr = a + l then .view a (l + len)
    else .copy c.resets (readMem c.mem a l ++ readMem c.mem addr len)
  | some (.copy r bytes) => .copy c.resets (c.load (.copy r bytes) ++ readMem c.mem addr len)

def onMessageBegin (c : Client) : Client :=
  { c with
    totalHeaderSize := 0
    headerCount := 0
    headerFieldCompleted := false
    currentHeaderField := none
    currentHeaderValue := none }

/-- `on_url`; an error stands for HPE_USER. -/
def onUrl (lim : Limits) (c : Client) (addr len : Nat) : Except Client Client :=
  if 0 < lim.maxUrlSize ∧ lim.maxUrlSize < len then .error { c with currentUrl := none }
  else .ok { c with currentUrl := some (c.extend c.currentUrl addr len) }

/-- `_csilk_persist_header` on the pending header, whose views are then cleared. -/
def Client.persistHeader (c : Client) : Client :=
  match c.currentHeaderField with
  | none => c
  | some field =>
    let headers := (mapSetView c.request.headers (c.load field) (c.text c.currentHeaderValue)).1
    { c with
      request := { c.request with headers := headers }
      currentHeaderField := none
      currentHeaderValue := none }

/-- The part of `on_header_field` for a name that was completed without a value. -/
def Client.beginField (c : Client) : Client :=
  if c.headerFieldCompleted then { c.persistHeader with headerFieldCompleted := false } else c

/-- The rest of `on_header_field`: a further piece of the name, or the first. -/
def Client.appendField (c : Client) (lim : Limits) (addr len : Nat) : Except Client Client :=
  match c.currentHeaderField with
  | some field => .ok { c with currentHeaderField := some (c.extend (some field) addr len) }
  | none =>
    let c := { c with headerCount := c.headerCount + 1 }
    if 0 < lim.maxHeadersCount ∧ lim.maxHeadersCount < c.headerCount then .error c
    else .ok { c with currentHeaderField := some (.view addr len), currentHeaderValue := none }

def onHeaderField (lim : Limits) (c : Client) (addr len : Nat) : Except Client Client :=
  let c := { c with totalHeaderSize := c.totalHeaderSize + len }
  if lim.maxHeaderSize < c.totalHeaderSize then .error c
  else c.beginField.appendField lim addr len

def onHeaderFieldComplete (c : Client) : Client := { c with headerFieldCompleted := true }

def onHeaderValue (lim : Limits) (c : Client) (addr len : Nat) : Except Client Client :=
  let c := { c with totalHeaderSize := c.totalHeaderSize + len }
  if lim.maxHeaderSize < c.totalHeaderSize then
    .error { c with currentHeaderField := none, currentHeaderValue := none }
  else .ok { c with currentHeaderValue := some (c.extend c.currentHeaderValue addr len) }

def onHeaderValueComplete (c : Client) : Client :=
  Client.persistHeader { c with headerFieldCompleted := false }

def bodyTiers : List Nat := [64 * 1024, 128 * 1024, 256 * 1024, 524288, 1048576]

def csilkBodyAlloc (size : Nat) : Nat := (bodyTiers.find? (size ≤ ·)).getD size

def csilkBodyRealloc (old : Bytes) (oldCapacity newSize : Nat) : Bytes × Nat :=
  if newSize ≤ oldCapacity then (old, oldCapacity)
  else
    let newCap := csilkBodyAlloc newSize
    (old.take (min old.length newCap), newCap)

def onBody (lim : Limits) (c : Client) (addr len : Nat) : Except Client Client :=
  let bodyLen := c.request.body.len
  let setBody := fun b => { c with request := { c.request with body := b } }
  if lim.maxBodySize < bodyLen + len then .error c
  else if sizeMax - bodyLen - 1 < len then .error c
  else if bodyLen = 0 then .ok (setBody (.borrowed addr len))
  else
    let piece := readMem c.mem addr len
    let reqSize := bodyLen + len + 1
    match c.request.body with
    | .none => .ok c
    | .borrowed a l =>
      if a + l = addr then .ok (setBody (.borrowed a (l + len)))
      else .ok (setBody (.pool (readMem c.mem a l ++ piece) (csilkBodyAlloc reqSize)))
    | .pool bytes capacity =>
      if reqSize ≤ capacity then .ok (setBody (.pool (bytes ++ piece) capacity))
      else
        let (kept, newCap) := csilkBodyRealloc bytes capacity reqSize
        .ok (setBody (.pool (kept ++ piece) newCap))

def Client.bodyBytes (c : Client) : Bytes :=
  match c.request.body with
  | .none => []
  | .borrowed addr len => readMem c.mem addr len
  | .pool bytes _ => bytes

inductive Callback where
  | messageBegin
  | url (addr len : Nat)
  | headerField (addr len : Nat)
  | headerFieldComplete
  | headerValue (addr len : Nat)
  | headerValueComplete
  | headersComplete
  | body (addr len : Nat)
deriving DecidableEq

def Callback.run (lim : Limits) (c : Client) : Callback → Except Client Client
  | .messageBegin => .ok (onMessageBegin c)
  | .url addr len => onUrl lim c addr len
  | .headerField addr len => onHeaderField lim c addr len
  | .headerFieldComplete => .ok (onHeaderFieldComplete c)
  | .headerValue addr len => onHeaderValue lim c addr len
  | .headerValueComplete | .headersComplete => .ok (onHeaderValueComplete c)
  | .body addr len => onBody lim c addr len

def runCallbacks (lim : Limits) : Client → List Callback → Except Client Client
  | c, [] => .ok c
  | c, cb :: cbs =>
    match cb.run lim c with
    | .error c' => .error c'
    | .ok c' => runCallbacks lim c' cbs

end Csilk.Http1
