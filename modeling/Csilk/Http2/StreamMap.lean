import Csilk.Lib.Transition
import Mathlib.Algebra.Group.Nat.Defs

namespace Csilk.Http2
open Csilk.Lib Function

def inlineBuckets : Nat := 16

def streamPoolMax : Nat := 64

inductive StreamState where
  | active
  | closed
  | recycled
deriving DecidableEq

structure Ctx where
  streamId : Nat
  nextStream : Option Nat
  streamRef : Nat
  streamClosed : Bool
  streamState : StreamState

/-- `csilk_h2_stream_map_t`; `ready` says that `buckets` is not NULL. -/
structure StreamMap where
  ready : Bool
  buckets : Nat → Option Nat
  capacity : Nat
  mask : Nat
  count : Nat
  freeList : Option Nat
  poolCount : Nat
  poolMax : Nat

/-- `held` counts the references of asynchronous users, `live` is the map the calls describe. -/
structure State where
  ctx : Nat → Ctx
  allocated : Nat
  freed : List Nat
  map : StreamMap
  held : Nat → Nat
  live : List (Nat × Nat)

def init : State where
  ctx := fun _ => ⟨0, none, 0, false, .active⟩
  allocated := 0
  freed := []
  map := ⟨false, fun _ => none, 0, 0, 0, none, 0, 0⟩
  held := fun _ => 0
  live := []

def streamHash (id mask : Nat) : Nat := id * 2654435761 % 2 ^ 32 &&& mask

def streamMapEnsureInit (m : StreamMap) : StreamMap :=
  if m.ready then m
  else ⟨true, fun _ => none, inlineBuckets, inlineBuckets - 1, 0, none, 0, streamPoolMax⟩

/-- `none` if the chain does not end within `fuel` contexts. -/
def findStream (ctx : Nat → Ctx) (id : Nat) : Nat → Option Nat → Option (Option Nat)
  | _, none => some none
  | 0, some _ => none
  | fuel + 1, some c =>
    if (ctx c).streamId = id then some (some c) else findStream ctx id fuel (ctx c).nextStream

def rehashChain (mask : Nat) :
    Nat → (Nat → Ctx) → (Nat → Option Nat) → Option Nat → Option ((Nat → Ctx) × (Nat → Option Nat))
  | _, ctx, buckets, none => some (ctx, buckets)
  | 0, _, _, some _ => none
  | fuel + 1, ctx, buckets, some c =>
    let idx := streamHash (ctx c).streamId mask
    rehashChain mask fuel (update ctx c { ctx c with nextStream := buckets idx })
      (update buckets idx (some c)) (ctx c).nextStream

def rehash (mask fuel : Nat) (old : Nat → Option Nat) :
    List Nat → (Nat → Ctx) → (Nat → Option Nat) → Option ((Nat → Ctx) × (Nat → Option Nat))
  | [], ctx, buckets => some (ctx, buckets)
  | i :: is, ctx, buckets =>
    (rehashChain mask fuel ctx buckets (old i)).bind fun p => rehash mask fuel old is p.1 p.2

def streamMapResize (s : State) : Option State :=
  let capacity := s.map.capacity * 2
  if capacity < s.map.capacity ∨ 65536 < capacity then some s
  else
    (rehash (capacity - 1) s.allocated s.map.buckets (List.range s.map.capacity) s.ctx
      fun _ => none).map fun p =>
        { s with
          ctx := p.1
          map := { s.map with buckets := p.2, capacity := capacity, mask := capacity - 1 } }

def streamCtxInit (id : Nat) : Ctx := ⟨id, none, 1, false, .active⟩

def acquireCtx (s : State) (id : Nat) : State × Nat :=
  match s.map.freeList with
  | some c =>
    ({ s with
        ctx := update s.ctx c (streamCtxInit id)
        map := { s.map with freeList := (s.ctx c).nextStream, poolCount := s.map.poolCount - 1 } }, c)
  | none =>
    ({ s with
        ctx := update s.ctx s.allocated (streamCtxInit id)
        allocated := s.allocated + 1 }, s.allocated)

def linkCtx (s : State) (idx c : Nat) : State :=
  { s with
    ctx := update s.ctx c { s.ctx c with nextStream := s.map.buckets idx }
    map := { s.map with
      buckets := update s.map.buckets idx (some c)
      count := s.map.count + 1 } }

def csilkH2GetStream (s : State) (id : Nat) : Option (Option Nat) :=
  if s.map.ready = false ∨ s.map.count = 0 then some none
  else findStream s.ctx id s.allocated (s.map.buckets (streamHash id s.map.mask))

def createStream (s : State) (id : Nat) : Option (State × Nat) :=
  (if s.map.capacity ≤ s.map.count then streamMapResize s else some s).map fun s =>
    let p := acquireCtx s id
    (linkCtx p.1 (streamHash id s.map.mask) p.2, p.2)

def csilkH2GetOrCreateStream (s : State) (id : Nat) : Option (State × Nat) :=
  let s := { s with map := streamMapEnsureInit s.map }
  (findStream s.ctx id s.allocated (s.map.buckets (streamHash id s.map.mask))).bind fun found =>
    found.elim (createStream s id) fun c => some (s, c)

def streamDestroyPhysically (s : State) (c : Nat) : State :=
  if s.map.poolCount < s.map.poolMax then
    { s with
      ctx := update s.ctx c { s.ctx c with nextStream := s.map.freeList, streamState := .recycled }
      map := { s.map with freeList := some c, poolCount := s.map.poolCount + 1 } }
  else
    { s with
      ctx := update s.ctx c { s.ctx c with streamState := .closed }
      freed := c :: s.freed }

def csilkStreamRef (s : State) (c : Nat) : State :=
  { s with ctx := update s.ctx c { s.ctx c with streamRef := (s.ctx c).streamRef + 1 } }

def csilkStreamUnref (s : State) (c : Nat) : State :=
  let s' := { s with ctx := update s.ctx c { s.ctx c with streamRef := (s.ctx c).streamRef - 1 } }
  if 1 < (s.ctx c).streamRef then s' else streamDestroyPhysically s' c

def closeCtx (s : State) (c : Nat) : State :=
  { s with
    ctx := update s.ctx c
      { s.ctx c with nextStream := none, streamClosed := true, streamState := .closed } }

inductive Link where
  | bucket (idx : Nat)
  | next (c : Nat)
deriving DecidableEq

def State.readLink (s : State) : Link → Option Nat
  | .bucket idx => s.map.buckets idx
  | .next c => (s.ctx c).nextStream

def State.writeLink (s : State) (x : Option Nat) : Link → State
  | .bucket idx => { s with map := { s.map with buckets := update s.map.buckets idx x } }
  | .next c => { s with ctx := update s.ctx c { s.ctx c with nextStream := x } }

def seekStream (s : State) (id : Nat) : Nat → Link → Option (Option (Link × Nat))
  | 0, link =>
    match s.readLink link with
    | none => some none
    | some _ => none
  | fuel + 1, link =>
    match s.readLink link with
    | none => some none
    | some c =>
      if (s.ctx c).streamId = id then some (some (link, c)) else seekStream s id fuel (.next c)

def csilkH2RemoveStream (s : State) (id : Nat) : Option (State × Int) :=
  if s.map.ready = false ∨ s.map.count = 0 then some (s, -1)
  else
    (seekStream s id s.allocated (.bucket (streamHash id s.map.mask))).map fun found =>
      found.elim (s, -1) fun p =>
        let s := closeCtx (s.writeLink (s.ctx p.2).nextStream p.1) p.2
        (csilkStreamUnref { s with map := { s.map with count := s.map.count - 1 } } p.2, 0)

def releaseChain : Nat → State → Option Nat → Option State
  | _, s, none => some s
  | 0, _, some _ => none
  | fuel + 1, s, some c => releaseChain fuel (csilkStreamUnref (closeCtx s c) c) (s.ctx c).nextStream

def releaseBuckets : List Nat → State → Option State
  | [], s => some s
  | i :: is, s =>
    (releaseChain s.allocated s (s.map.buckets i)).bind fun s =>
      releaseBuckets is { s with map := { s.map with buckets := update s.map.buckets i none } }

def freePool : Nat → State → Option Nat → Option State
  | _, s, none => some s
  | 0, _, some _ => none
  | fuel + 1, s, some c => freePool fuel { s with freed := c :: s.freed } (s.ctx c).nextStream

def csilkH2FreeStreams (s : State) : Option State :=
  if s.map.ready = false then some s
  else
    (releaseBuckets (List.range s.map.capacity) s).bind fun s =>
      (freePool s.allocated
        { s with map := { s.map with count := 0, freeList := none, poolCount := 0 } }
        s.map.freeList).map fun s =>
          { s with map := { s.map with
              buckets := fun _ => none
              capacity := inlineBuckets
              mask := inlineBuckets - 1
              count := 0 } }

/-- A reference can be added to a context that has one; users drop those they have added. -/
inductive Act where
  | getOrCreateStream (id : Nat)
  | removeStream (id : Nat)
  | freeStreams
  | ref (c : Nat)
  | unref (c : Nat)

def step (s : State) : Act → Option State
  | .getOrCreateStream id =>
    (csilkH2GetOrCreateStream s id).map fun p =>
      { p.1 with live := if (s.live.lookup id).isSome then s.live else (id, p.2) :: s.live }
  | .removeStream id =>
    (csilkH2RemoveStream s id).map fun p => { p.1 with live := s.live.filter (·.1 ≠ id) }
  | .freeStreams => (csilkH2FreeStreams s).map fun s => { s with live := [] }
  | .ref c =>
    if c < s.allocated ∧ 0 < (s.ctx c).streamRef then
      some { csilkStreamRef s c with held := update s.held c (s.held c + 1) }
    else none
  | .unref c =>
    if 0 < s.held c then some { csilkStreamUnref s c with held := update s.held c (s.held c - 1) }
    else none

def streams : System State Act where
  init s := s = init
  step := step

end Csilk.Http2
