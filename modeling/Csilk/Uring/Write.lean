import Csilk.Bytes
import Csilk.Lib.Malloc
import Csilk.Lib.Transition

namespace Csilk.Uring.Write
open Csilk.Lib

/-- The client is block 0, of which the request is not the first field. -/
def primaryWriteReq : Ptr := ⟨0, 1⟩

def reqOffset : Nat := 56

/-- `reqData` is the inner request's `data`, which nothing writes; `tagged`: the ring's entry
carries the context. -/
structure Send where
  req : Ptr
  op : Nat
  reqData : Option Ptr
  ctx : Nat
  tagged : Bool
  buf : Nat
  data : Bytes
  generation : Nat
deriving DecidableEq

/-- `handed` has the buffers handed to a write, `accepted` the data of accepted writes; orphans are
entries left in the ring. -/
structure State where
  heap : MallocHeap
  fd : Bool
  connClosed : Bool
  closing : Bool
  generation : Nat
  primaryWriteInFlight : Bool
  inFlight : List Send
  orphans : Nat
  handed : List Nat
  accepted : List Bytes
  completed : List (Bytes × Int)
  transmitted : Bytes

/-- Memory and an entry of the ring for one write. `garbage` is the uninitialised field of the
operation. -/
structure Supply where
  req : Bool
  buf : Bool
  sqe : Bool
  op : Bool
  ctx : Bool
  tag : Bool
  garbage : Option Ptr
deriving DecidableEq

def plenty : Supply := ⟨true, true, true, true, true, true, none⟩

/-- `csilk_io_write` with one buffer. Its result says whether it returned 0. -/
def csilkIoWrite (s : State) (e : Supply) (req : Ptr) (buf : Nat) (data : Bytes) : Bool × State :=
  if !s.fd || s.connClosed || !e.sqe then (false, s)
  else if !e.op then (false, { s with orphans := s.orphans + 1 })
  else
    let op := s.heap.next
    let heap := s.heap.malloc
    if !e.ctx then
      (false, { s with heap := heap.free ⟨op, 0⟩, orphans := s.orphans + 1 })
    else
      (true, { s with
        heap := heap.malloc
        inFlight := s.inFlight ++ [⟨req, op, e.garbage, heap.next, e.tag, buf, data, s.generation⟩]
        accepted := s.accepted ++ [data] })

def takeReq (s : State) (e : Supply) : Option Ptr × State :=
  if !s.primaryWriteInFlight then (some primaryWriteReq, { s with primaryWriteInFlight := true })
  else if e.req then (some ⟨s.heap.next, 0⟩, { s with heap := s.heap.malloc })
  else (none, s)

def dropReq (s : State) (req : Ptr) : State :=
  if req = primaryWriteReq then { s with primaryWriteInFlight := false }
  else { s with heap := s.heap.free req }

def submit (s : State) (e : Supply) (req : Ptr) (buf : Nat) (data : Bytes) : State :=
  let (ok, s) := csilkIoWrite { s with handed := buf :: s.handed } e req buf data
  if ok then s else dropReq { s with heap := s.heap.free ⟨buf, 0⟩ } req

def csilkClientWrite (s : State) (data : Bytes) (e : Supply) : State :=
  if s.closing then s
  else
    let (req, s) := takeReq s e
    match req with
    | none => s
    | some req =>
      if e.buf then submit { s with heap := s.heap.malloc } e req s.heap.next data
      else dropReq s req

/-- `_csilk_send_data_owned`. The caller hands over a block of the heap. -/
def csilkSendDataOwned (s : State) (data : Bytes) (e : Supply) : State :=
  let buf := s.heap.next
  let s := { s with heap := s.heap.malloc }
  if s.connClosed || s.closing then
    { s with heap := s.heap.free ⟨buf, 0⟩, handed := buf :: s.handed }
  else
    let (req, s) := takeReq s e
    match req with
    | none => { s with heap := s.heap.free ⟨buf, 0⟩, handed := buf :: s.handed }
    | some req => submit s e req buf data

def freeData (h : MallocHeap) : Option Ptr → MallocHeap
  | none => h
  | some p => h.free p

/-- A response that continues with a file treats the request in the same way. -/
def onWrite (s : State) (req : Ptr) (data : Option Ptr) : State :=
  dropReq { s with heap := freeData s.heap data } req

/-- The request is the inner one, whatever was passed to `csilk_io_write`, and the result is only
logged. -/
def csilkUvOnWriteDone (s : State) (w : Send) : State :=
  let req : Ptr := ⟨w.op, reqOffset⟩
  let s :=
    if w.generation ≠ s.generation then
      { s with heap := (freeData s.heap w.reqData).free req }
    else onWrite s req w.reqData
  { s with heap := s.heap.free ⟨w.ctx, 0⟩ }

inductive Act where
  | clientWrite (data : Bytes) (e : Supply)
  | sendDataOwned (data : Bytes) (e : Supply)
  | complete (i : Nat) (res : Int)
  | orphan (bytes : Bytes)
  | close
  | recycle
deriving DecidableEq

def State.arrive (s : State) (i : Nat) (w : Send) (res : Int) : State :=
  { s with
    inFlight := s.inFlight.eraseIdx i
    completed := s.completed ++ [(w.data, res)]
    transmitted := s.transmitted ++ w.data.take res.toNat }

def complete (s : State) (i : Nat) (res : Int) : Option State :=
  match s.inFlight[i]? with
  | none => none
  | some w =>
    some (if w.tagged then csilkUvOnWriteDone (s.arrive i w res) w else s.arrive i w res)

/-- An entry left in the ring goes out with a later one. The client may be closed and recycled at
any time. -/
def step (s : State) : Act → Option State
  | .clientWrite data e => some (csilkClientWrite s data e)
  | .sendDataOwned data e => some (csilkSendDataOwned s data e)
  | .complete i res => complete s i res
  | .orphan bytes =>
    if s.orphans = 0 then none
    else some { s with orphans := s.orphans - 1, transmitted := s.transmitted ++ bytes }
  | .close => some { s with fd := false, connClosed := true, closing := true }
  | .recycle =>
    some { s with
      fd := true
      connClosed := false
      closing := false
      generation := s.generation + 1
      primaryWriteInFlight := false }

def start : State where
  heap := ⟨1, fun b => b == 0, [], false⟩
  fd := true
  connClosed := false
  closing := false
  generation := 1
  primaryWriteInFlight := false
  inFlight := []
  orphans := 0
  handed := []
  accepted := []
  completed := []
  transmitted := []

def system : System State Act where
  init := (· = start)
  step := step

end Csilk.Uring.Write
