import Csilk.Bytes
import Csilk.Lib.Transition

namespace Csilk.Sessions
open Csilk.Lib

def sessionTtl : Nat := 3600

def sessionCookie : Bytes := ascii "csilk_session"

inductive Pointer
  | handler (p : Nat)
  | arena (request : Nat) (value : Bytes)
deriving DecidableEq

structure Item where
  key : Bytes
  value : Option Pointer
deriving DecidableEq

structure Session where
  addr : Nat
  id : Bytes
  data : List Item
  expiresAt : Nat
deriving DecidableEq

structure SetCookie where
  name : Bytes
  value : Bytes
  maxAge : Int
  path : Bytes
  domain : Option Bytes
  secure : Bool
  httpOnly : Bool
deriving DecidableEq

inductive Mark
  | created (id : Bytes) (time : Nat)
  | resumed (id : Bytes) (time : Nat)
  | destroyed (id : Bytes)
deriving DecidableEq

/-- `current` is the pointer under `_session`, `request` numbers requests and their arenas,
`faulted` says that a freed session was used. The last three are the history. -/
structure State where
  now : Nat
  store : List Session
  allocated : Nat
  request : Nat
  active : Bool
  current : Option Nat
  cookies : List SetCookie
  faulted : Bool
  history : List Mark
  stored : List Nat
  fetched : List Bytes

def State.start (now : Nat) : State := ⟨now, [], 0, 0, false, none, [], false, [], [], []⟩

def findSession (store : List Session) (id : Bytes) : Option Session :=
  store.find? fun x => x.id = id

def State.deref (s : State) (addr : Nat) : Option Session := s.store.find? fun x => x.addr = addr

def modify (addr : Nat) (f : Session → Session) (store : List Session) : List Session :=
  store.map fun x => if x.addr = addr then f x else x

def cleanupExpired (now : Nat) (store : List Session) : List Session :=
  store.filter fun x => now < x.expiresAt

def csilkSessionInit (s : State) : State := { s with store := cleanupExpired s.now s.store }

/-- The session cookie, if there is one, and the id that `generate_session_id` would make. -/
def csilkSessionStart (s : State) (cookie : Option Bytes) (newId : Bytes) : State :=
  match cookie.bind (findSession s.store) with
  | none =>
    { s with
      store := ⟨s.allocated, newId, [], s.now + sessionTtl⟩ :: s.store
      allocated := s.allocated + 1
      current := some s.allocated
      cookies := s.cookies ++ [⟨sessionCookie, newId, 60 * 60 * 24, ascii "/", none, true, true⟩]
      history := .created newId s.now :: s.history }
  | some session =>
    { s with
      store := modify session.addr (fun x => { x with expiresAt := s.now + sessionTtl }) s.store
      current := some session.addr
      history := .resumed session.id s.now :: s.history }

def assign (key : Bytes) (value : Option Pointer) : List Item → Option (List Item)
  | [] => none
  | d :: data =>
    if d.key = key then some ({ d with value := value } :: data)
    else (assign key value data).map (d :: ·)

def setData (key : Bytes) (value : Option Pointer) (alloc : Bool) (data : List Item) : List Item :=
  match assign key value data with
  | some data => data
  | none => if alloc then ⟨key, value⟩ :: data else data

/-- Nothing without a session, which returns `r`; a fault if it was freed. -/
def State.withSession (s : State) (r : ρ) (f : Session → ρ × State) : ρ × State :=
  match s.current with
  | none => (r, s)
  | some addr =>
    match s.deref addr with
    | none => (r, { s with faulted := true })
    | some session => f session

def csilkSessionSet (s : State) (key : Bytes) (value : Option Pointer) (alloc : Bool) : State :=
  (s.withSession () fun session =>
    let write (x : Session) := { x with data := setData key value alloc x.data }
    ((), { s with store := modify session.addr write s.store })).2

/-- The key is not in the session: `answer` is what the storage driver says, and `copied` lets the
arena take the copy. -/
def fetch (s : State) (key : Bytes) (answer : Option Bytes) (copied alloc : Bool) :
    Option Pointer × State :=
  match answer with
  | none => (none, s)
  | some val =>
    let value := if copied then some (.arena s.request val) else none
    (value, { csilkSessionSet s key value alloc with
      fetched := if copied && alloc then key :: s.fetched else s.fetched })

def csilkSessionGet (s : State) (key : Bytes) (answer : Option Bytes) (copied alloc : Bool) :
    Option Pointer × State :=
  s.withSession none fun session =>
    match session.data.find? fun d => d.key = key with
    | some d => (d.value, s)
    | none => fetch s key answer copied alloc

def csilkSessionDestroy (s : State) : State :=
  (s.withSession () fun session =>
    ((), { s with
      store := s.store.eraseP fun x => x.addr = session.addr
      current := none
      cookies := s.cookies ++ [⟨sessionCookie, [], -1, ascii "/", none, false, true⟩]
      history := .destroyed session.id :: s.history
      fetched := [] })).2

def csilkCtxCleanup (s : State) : State :=
  { s with active := false, current := none, cookies := [], fetched := [] }

inductive Event
  | advance (time : Nat)
  | init
  | start (cookie : Option Bytes) (newId : Bytes)
  | set (key : Bytes) (value : Option Nat) (alloc : Bool)
  | get (key : Bytes) (answer : Option Bytes) (copied alloc : Bool)
  | destroy
  | cleanup

def fresh (history : List Mark) (id : Bytes) : Bool :=
  history.all fun m => match m with
    | .created id' _ => id' ≠ id
    | _ => true

def step (s : State) : Event → Option State
  | .advance time => if s.now ≤ time then some { s with now := time } else none
  | .init => some (csilkSessionInit s)
  | .start cookie newId =>
    if !s.active && fresh s.history newId then
      some (csilkSessionStart { s with request := s.request + 1, active := true } cookie newId)
    else none
  | .set key value alloc =>
    if s.active then
      some { csilkSessionSet s key (value.map .handler) alloc with
        stored := value.toList ++ s.stored
        fetched := s.fetched.filter (· ≠ key) }
    else none
  | .get key answer copied alloc =>
    if s.active then some (csilkSessionGet s key answer copied alloc).2 else none
  | .destroy => if s.active then some (csilkSessionDestroy s) else none
  | .cleanup => if s.active then some (csilkCtxCleanup s) else none

def sessions : System State Event where
  init s := ∃ now, s = .start now
  step := step

end Csilk.Sessions
