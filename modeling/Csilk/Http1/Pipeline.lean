import Csilk.Http1.Parse
import Csilk.Lib.Transition

namespace Csilk.Http1
open Csilk.Headers Csilk.Lib

def isxdigit (b : UInt8) : Bool := (48 ≤ b && b ≤ 57) || (65 ≤ b && b ≤ 70) || (97 ≤ b && b ≤ 102)

def hexToInt (b : UInt8) : UInt8 :=
  if b ≤ 57 then b - 48 else if 97 ≤ b then b - 97 + 10 else b - 65 + 10

def csilkUrlDecode : Bytes → Bytes
  | [] => []
  | [b] => [if b = 43 then 32 else b]
  | [b, h] => (if b = 43 then 32 else b) :: csilkUrlDecode [h]
  | b :: h :: l :: rest =>
    if b = 37 ∧ isxdigit h = true ∧ isxdigit l = true then
      (hexToInt h <<< 4 ||| hexToInt l) :: csilkUrlDecode rest
    else (if b = 43 then 32 else b) :: csilkUrlDecode (h :: l :: rest)

def parseKeyValuePairs (qs : Bytes) : List (Bytes × Bytes) :=
  (qs.splitOnP (· = 38)).filterMap fun pair =>
    let key := pair.takeWhile (· ≠ 61)
    let value := (pair.dropWhile (· ≠ 61)).drop 1
    if key = [] then none
    else some (cString (csilkUrlDecode key), cString (csilkUrlDecode value))

def Str.len : Str → Nat
  | .view _ len => len
  | .copy _ bytes => bytes.length

def finalizeRequest (c : Client) (method : Bytes) : Client :=
  let c := { c.persistHeader with headerFieldCompleted := false }
  let c :=
    match c.currentUrl with
    | none => c
    | some url =>
      if 0 < url.len then
        let u := c.load url
        let path := cString (csilkUrlDecode (cString (u.takeWhile (· ≠ 63))))
        let query := cString ((u.dropWhile (· ≠ 63)).drop 1)
        { c with
          request := { c.request with
            path := some path
            queryParams := c.request.queryParams ++ parseKeyValuePairs query }
          currentUrl := none }
      else c
  { c with request := { c.request with method := method } }

abbrev Buffer := Nat × Nat

def Buffer.has (b : Buffer) (a : Nat) : Prop := b.1 ≤ a ∧ a < b.1 + b.2

instance (b : Buffer) (a : Nat) : Decidable (Buffer.has b a) := inferInstanceAs (Decidable (_ ∧ _))

def Within (bs : List Buffer) (a : Nat) : Prop := ∃ b ∈ bs, Buffer.has b a

instance (bs : List Buffer) (a : Nat) : Decidable (Within bs a) :=
  inferInstanceAs (Decidable (∃ b ∈ bs, _))

structure Handler where
  async : Bool
  file : Bool
deriving DecidableEq

inductive Signal where
  | callback (cb : Callback)
  | messageComplete (method : Bytes)
deriving DecidableEq

def Callback.Fits (len : Nat) : Callback → Prop
  | .url addr n | .headerField addr n | .headerValue addr n | .body addr n => addr + n ≤ len
  | _ => True

def Signal.Fits (len : Nat) : Signal → Prop
  | .callback cb => cb.Fits len
  | .messageComplete _ => True

/-- Where a buffer lies, its bytes and what llhttp finds in them. Freed buffers show other bytes. -/
structure Read where
  base : Nat
  bytes : Bytes
  signals : List Signal
  freed : Option (Nat → UInt8)
  fits : ∀ sig ∈ signals, sig.Fits bytes.length

structure Op where
  requestSeq : Nat
  file : Bool
deriving DecidableEq

structure Data where
  method : Bytes
  path : Option Bytes
  query : List (Bytes × Bytes)
  headers : HeaderMap
  body : Bytes

/-- The data, and whether the URL and the body lay in memory that the request held. -/
structure Dispatch where
  data : Data
  urlAlive : Bool
  bodyAlive : Bool
  bodyPooled : Bool

/-- The parser and `ctx` state, the responses under way, and what was received and dispatched. -/
structure Conn where
  client : Client
  ssl : Bool
  registered : List Buffer
  chunks : List Buffer
  freed : Option (Nat → UInt8)
  paused : Bool
  reading : Bool
  closing : Bool
  isAsync : Bool
  hasFile : Bool
  requestSeq : Nat
  ops : List Op
  sendfiles : Nat
  received : List Read
  dispatched : List Dispatch

def Conn.new (ssl : Bool) (mem : Nat → UInt8) : Conn where
  client := Client.new mem
  ssl := ssl
  registered := []
  chunks := []
  freed := none
  paused := false
  reading := true
  closing := false
  isAsync := false
  hasFile := false
  requestSeq := 0
  ops := []
  sendfiles := 0
  received := []
  dispatched := []

def Conn.live (s : Conn) : List Buffer := s.registered ++ s.chunks

def Conn.Holds (s : Conn) (addr len : Nat) : Prop := ∀ i < len, Within s.live (addr + i)

instance (s : Conn) (addr len : Nat) : Decidable (s.Holds addr len) :=
  inferInstanceAs (Decidable (∀ i < len, _))

def Conn.StrAlive (s : Conn) : Option Str → Prop
  | none => True
  | some (.view addr len) => s.Holds addr len
  | some (.copy resets bytes) => bytes = [] ∨ resets = s.client.resets

def Conn.BodyAlive (s : Conn) : Body → Prop
  | .none => True
  | .borrowed addr len => s.Holds addr len
  | .pool _ _ => False

def Body.pooled : Body → Bool
  | .pool _ _ => true
  | _ => false

instance (s : Conn) (v : Option Str) : Decidable (s.StrAlive v) := by
  unfold Conn.StrAlive
  split <;> infer_instance

instance (s : Conn) (b : Body) : Decidable (s.BodyAlive b) := by
  unfold Conn.BodyAlive
  split <;> infer_instance

/-- Body and read buffers are released, the arena is reset, maps and flags are cleared. -/
def Conn.csilkCtxCleanup (s : Conn) : Conn :=
  let mem := fun a =>
    match s.freed with
    | some junk => if Within s.live a then junk a else s.client.mem a
    | none => s.client.mem a
  { s with
    client := { s.client with
      mem := mem
      resets := s.client.resets + 1
      request := { s.client.request with
        path := none, body := .none, headers := .empty, queryParams := [] } }
    registered := []
    chunks := []
    isAsync := false
    hasFile := false
    requestSeq := s.requestSeq + 1 }

def Conn.csilkHandlePostResponse (s : Conn) : Conn :=
  let s := s.csilkCtxCleanup
  if s.closing then s else { s with paused := false, reading := true }

def Conn.csilkSendResponse (s : Conn) : Conn :=
  if s.closing then s
  else if s.hasFile && !s.ssl then { s with sendfiles := s.sendfiles + 1 }
  else s.csilkHandlePostResponse

def Conn.data (s : Conn) : Data where
  method := s.client.request.method
  path := s.client.request.path
  query := s.client.request.queryParams
  headers := s.client.request.headers
  body := s.client.bodyBytes

/-- `_csilk_dispatch_request`, whose i-th run meets the i-th handler. -/
def Conn.csilkDispatchRequest (s : Conn) (handler : Nat → Handler) (urlAlive : Bool) : Conn :=
  let h := handler s.dispatched.length
  let body := s.client.request.body
  let d : Dispatch := ⟨s.data, urlAlive, decide (s.BodyAlive body), body.pooled⟩
  let op : Op := ⟨s.requestSeq, h.file⟩
  let s := { s with dispatched := s.dispatched ++ [d] }
  let s :=
    if h.async then { s with isAsync := true, ops := s.ops ++ [op] }
    else { s with hasFile := s.hasFile || h.file }
  if s.isAsync then { s with reading := false } else s.csilkSendResponse

def Conn.onMessageComplete (s : Conn) (handler : Nat → Handler) (method : Bytes) : Conn :=
  let urlAlive := decide (s.StrAlive s.client.currentUrl)
  let s := { s with client := finalizeRequest s.client method }
  Conn.csilkDispatchRequest { s with paused := true } handler urlAlive

def Callback.shift (base : Nat) : Callback → Callback
  | .url addr len => .url (base + addr) len
  | .headerField addr len => .headerField (base + addr) len
  | .headerValue addr len => .headerValue (base + addr) len
  | .body addr len => .body (base + addr) len
  | cb => cb

/-- The callbacks of one `llhttp_execute`, as long as they return 0. -/
def Conn.signals (lim : Limits) (handler : Nat → Handler) (base : Nat) (s : Conn) :
    List Signal → Except Conn Conn
  | [] => .ok s
  | .callback cb :: rest =>
    match (cb.shift base).run lim s.client with
    | .error c => .error { s with client := c }
    | .ok c => Conn.signals lim handler base { s with client := c } rest
  | .messageComplete method :: rest =>
    Conn.signals lim handler base (s.onMessageComplete handler method) rest

/-- A paused parser takes nothing, and an error closes the connection. -/
def Conn.llhttpExecute (s : Conn) (lim : Limits) (handler : Nat → Handler) (r : Read) : Conn :=
  if s.paused then s
  else
    match s.signals lim handler r.base r.signals with
    | .ok s => s
    | .error s => { s with closing := true }

def writeMem (mem : Nat → UInt8) (base : Nat) (bytes : Bytes) : Nat → UInt8 := fun a =>
  if base ≤ a ∧ a < base + bytes.length then bytes.getD (a - base) 0 else mem a

def Conn.receive (s : Conn) (r : Read) : Conn :=
  { s with
    client := { s.client with mem := writeMem s.client.mem r.base r.bytes }
    freed := r.freed
    received := s.received ++ [r] }

def Conn.onRead (s : Conn) (lim : Limits) (handler : Nat → Handler) (r : Read) : Conn :=
  let s := s.receive r
  Conn.llhttpExecute { s with registered := s.registered ++ [(r.base, r.bytes.length)] } lim handler r

def Conn.processTlsRead (s : Conn) (lim : Limits) (handler : Nat → Handler) : List Read → Conn
  | [] => s
  | r :: rs =>
    let s := s.receive r
    let s := Conn.llhttpExecute { s with chunks := s.chunks ++ [(r.base, 4096)] } lim handler r
    if s.closing then s else s.processTlsRead lim handler rs

def Conn.onSendfileComplete (s : Conn) : Conn :=
  Conn.csilkCtxCleanup { s with reading := true, sendfiles := s.sendfiles - 1 }

def Conn.asyncComplete (s : Conn) (op : Op) : Conn :=
  if op.requestSeq = s.requestSeq then
    Conn.csilkSendResponse { s with hasFile := s.hasFile || op.file }
  else s

inductive Event where
  | read (r : Read)
  | tlsRead (rs : List Read)
  | opDone (i : Nat)
  | sendfileDone
  | reuse (mem : Nat → UInt8)

def Apart (b : Buffer) (bs : List Buffer) : Prop := ∀ x ∈ bs, b.1 + b.2 ≤ x.1 ∨ x.1 + x.2 ≤ b.1

instance (b : Buffer) (bs : List Buffer) : Decidable (Apart b bs) :=
  inferInstanceAs (Decidable (∀ x ∈ bs, _))

/-- The next state; the allocator hands out buffers that are not registered. -/
def Conn.step (lim : Limits) (handler : Nat → Handler) (s : Conn) : Event → Option Conn
  | .read r =>
    if s.reading = true ∧ s.closing = false ∧ s.ssl = false ∧
        Apart (r.base, r.bytes.length) s.registered then
      some (s.onRead lim handler r)
    else none
  | .tlsRead rs =>
    if s.reading = true ∧ s.closing = false ∧ s.ssl = true ∧ ∀ r ∈ rs, r.bytes.length ≤ 4096 then
      some (s.processTlsRead lim handler rs)
    else none
  | .opDone i =>
    match s.ops[i]? with
    | none => none
    | some op => some (Conn.asyncComplete { s with ops := s.ops.eraseIdx i } op)
  | .sendfileDone => if 0 < s.sendfiles then some s.onSendfileComplete else none
  | .reuse mem =>
    some { s with client := { s.client with
      mem := fun a => if Within s.live a then s.client.mem a else mem a } }

def keepAlive (ssl : Bool) (lim : Limits) (handler : Nat → Handler) : System Conn Event where
  init s := ∃ mem, s = Conn.new ssl mem
  step := Conn.step lim handler

def postText : Bytes := ascii "POST /a HTTP/1.1\r\nContent-Length: 2\r\n\r\nhi"

def postSignals (off : Nat) : List Signal :=
  [.callback .messageBegin, .callback (.url (off + 5) 2), .callback (.headerField (off + 18) 14),
    .callback .headerFieldComplete, .callback (.headerValue (off + 34) 1),
    .callback .headerValueComplete, .callback .headersComplete, .callback (.body (off + 39) 2),
    .messageComplete (ascii "POST")]

instance (len : Nat) (sig : Signal) : Decidable (sig.Fits len) := by
  unfold Signal.Fits Callback.Fits
  split
  · split <;> infer_instance
  · infer_instance

def onePost : Read := ⟨1000, postText, postSignals 0, none, by decide⟩

def twoPosts : Read :=
  ⟨1000, postText ++ postText, postSignals 0 ++ postSignals 41, none, by decide +kernel⟩

def sampleLimits : Limits := ⟨0, 8192, 0, 1048576⟩

end Csilk.Http1
