import Csilk.Bytes
import Csilk.Lib.Chain
import Csilk.Lib.Epoch
import Csilk.Lib.Linearizability
import Csilk.Lib.Transition

namespace Csilk.Cache
open Csilk.Lib Function

/-- A `csilk_mvcc_node_t` without its links; `version` is its creation epoch. -/
structure Node where
  key : Bytes
  val : Bytes
  version : Nat
deriving DecidableEq

def hashKey (key : Bytes) : UInt64 :=
  key.foldl (fun h b => (h ^^^ b.toUInt64) * 1099511628211) 14695981039346656037

def maxReaders : Nat := 256

def retireThreshold : Nat := 32

/-- The argument of `csilk_mvcc_cache_new`, the number of threads, and their reader slots. -/
structure Config where
  capacity : Nat
  threads : Nat
  slotOf : Nat → Nat

def Config.buckets (c : Config) : Nat := if c.capacity = 0 then 1024 else c.capacity

def Config.bucketOf (c : Config) (key : Bytes) : Nat := (hashKey key).toNat % c.buckets

/-- A call as its caller sees it; `invalid` has a NULL argument. -/
inductive Op where
  | set (key val : Bytes)
  | delete (key : Bytes)
  | getView (key : Bytes)
  | getCopy (key : Bytes) (bufLen : Nat)
  | invalid
deriving DecidableEq

/-- What a call returns: `0` or `-1`, and with `0` what it stored for its caller. -/
inductive Res where
  | ok
  | fail
  | view (val : Bytes)
  | copy (buf : Bytes) (valLen : Nat)
deriving DecidableEq

/-- A set, with its new node, or a delete, and the epoch it loaded. -/
structure Write where
  key : Bytes
  node : Option Node
  epoch : Nat
deriving DecidableEq

inductive Job where
  | get (key : Bytes) (bufLen : Option Nat)
  | write (w : Write)
deriving DecidableEq

def Job.key : Job → Bytes
  | .get key _ => key
  | .write w => w.key

/-- What follows `reader_exit`. A node is retired alone or with the chain behind it. -/
inductive After where
  | ret (res : Res)
  | released
  | retry (w : Write)
  | retire (node : Nat) (chain : Bool) (epoch : Nat)
deriving DecidableEq

inductive ReclaimPc where
  | tryLock
  | loadEpoch
  | scan (current i : Nat) (low : Option Nat)
  | detach (limit : Nat)
  | sweep (limit : Nat) (rest kept : List (Nat × Nat))
  | pushBack (kept : List (Nat × Nat)) (head : Option Nat)
  | storeCount (n : Nat)
  | unlock
deriving DecidableEq

inductive Pc where
  | idle
  | setEpoch (key val : Bytes)
  | setAlloc (key val : Bytes) (epoch : Nat)
  | deleteEpoch (key : Bytes)
  | enterDepth (job : Job)
  | enterEpoch (job : Job)
  | enterActive (job : Job) (epoch : Nat)
  | loadHead (job : Job)
  | walk (job : Job) (head : Nat) (cur : Option Nat)
  | clone (w : Write) (head found : Nat) (iter : Option Nat) (copied : List Node)
  | cas (w : Write) (head : Option Nat) (new : List Node) (tail : Option Nat)
      (retire : Option (Nat × Bool))
  | exitDepth (after : After)
  | exitActive (after : After)
  | retireNext (node epoch : Nat)
  | retireLoad (node epoch : Nat) (rest : Option Nat)
  | retireCas (node epoch : Nat) (rest head : Option Nat)
  | retireCount (epoch : Nat) (rest : Option Nat)
  | reclaim (epoch : Nat) (rest : Option Nat) (pc : ReclaimPc)
deriving DecidableEq

/-- A thread with its call, the nodes of its unreleased views, and the bucket heads it has loaded.
-/
structure Thread where
  pc : Pc
  num : Nat
  op : Op
  views : List Nat
  heads : List Nat
deriving DecidableEq

structure Slot where
  active : Nat
  depth : Nat
deriving DecidableEq

/-- Nodes enter the heap when published. The last three fields record calls, returns and effects. -/
structure State where
  heap : Heap Node
  buckets : Nat → Option Nat
  globalEpoch : Nat
  slots : Nat → Slot
  reclaimLocked : Bool
  retired : List (Nat × Nat)
  retiredCount : Nat
  threads : Nat → Thread
  freed : List Nat
  calls : Nat
  history : List (ClientEvent Op Res)
  effects : List (Done Op Res)

def mvccCacheNew : State where
  heap := .empty
  buckets := fun _ => none
  globalEpoch := 1
  slots := fun _ => ⟨0, 0⟩
  reclaimLocked := false
  retired := []
  retiredCount := 0
  threads := fun _ => ⟨.idle, 0, .invalid, [], []⟩
  freed := []
  calls := 0
  history := []
  effects := []

def State.setThread (s : State) (t : Nat) (thread : Thread) : State :=
  { s with threads := update s.threads t thread }

@[simp] theorem State.setThread_self (s : State) (t : Nat) (thread : Thread) :
    (s.setThread t thread).threads t = thread :=
  update_self _ _ _

def State.goto (s : State) (t : Nat) (pc : Pc) : State :=
  s.setThread t { s.threads t with pc := pc }

def State.setSlot (s : State) (i : Nat) (slot : Slot) : State :=
  { s with slots := update s.slots i slot }

def State.call (s : State) (t : Nat) (op : Op) (pc : Pc) : State :=
  { s.setThread t { s.threads t with pc := pc, num := s.calls, op := op } with
    calls := s.calls + 1
    history := s.history ++ [.call s.calls op] }

def State.commit (s : State) (t : Nat) (res : Res) : State :=
  { s with effects := s.effects ++ [⟨(s.threads t).num, (s.threads t).op, res⟩] }

def State.ret (s : State) (t : Nat) (res : Res) : State :=
  { s.goto t .idle with history := s.history ++ [.ret (s.threads t).num res] }

def State.lookup (c : Config) (s : State) (key : Bytes) : Option Node :=
  (s.heap.vals (s.buckets (c.bucketOf key))).find? (·.key = key)

def foundRes (node : Node) : Option Nat → Res
  | none => .view node.val
  | some bufLen => .copy (node.val.take bufLen) node.val.length

/-- Where the key is not in its bucket, the head of which is `head`. -/
def notFound (head : Option Nat) : Job → Pc
  | .get _ _ => .exitDepth (.ret .fail)
  | .write w =>
    match w.node with
    | some node => .cas w head [node] head none
    | none => .exitDepth (.ret .fail)

def headEffect (found : Option Node) : Job → Option Res
  | .get _ bufLen => some (found.elim .fail (foundRes · bufLen))
  | .write w => if w.node = none ∧ found = none then some .fail else none

def loadHead (c : Config) (s : State) (t : Nat) (job : Job) : State :=
  let head := s.buckets (c.bucketOf job.key)
  let pc :=
    match head with
    | some h => .walk job h (some h)
    | none => notFound none job
  let thread := { s.threads t with pc := pc, heads := head.toList ++ (s.threads t).heads }
  match headEffect (s.lookup c job.key) job with
  | some res => (s.commit t res).setThread t thread
  | none => s.setThread t thread

def foundAt (s : State) (t : Nat) (head n : Nat) (cell : Cell Node) : Job → State
  | .get _ none =>
    (s.setThread t { s.threads t with views := n :: (s.threads t).views }).ret t
      (foundRes cell.val none)
  | .get _ (some bufLen) => s.goto t (.exitDepth (.ret (foundRes cell.val (some bufLen))))
  | .write w =>
    s.goto t (
      if n = head then .cas w (some head) w.node.toList cell.next (some (head, false))
      else .clone w head n (some head) [])

def walk (s : State) (t : Nat) (job : Job) (head : Nat) : Option Nat → Option State
  | none => some (s.goto t (notFound (some head) job))
  | some n =>
    match s.heap.cells[n]? with
    | none => none
    | some cell =>
      some (if cell.val.key = job.key then foundAt s t head n cell job
        else s.goto t (.walk job head cell.next))

/-- Copies the other nodes of the chain; `ok` lets an allocation succeed. -/
def clone (s : State) (t : Nat) (w : Write) (head found : Nat) (copied : List Node) (ok : Bool) :
    Option Nat → Option State
  | none => some (s.goto t (.cas w (some head) (w.node.toList ++ copied) none (some (head, true))))
  | some n =>
    match s.heap.cells[n]? with
    | none => none
    | some cell =>
      some (s.goto t (
        if n = found then .clone w head found cell.next copied
        else if ok then .clone w head found cell.next (copied ++ [cell.val])
        else .exitDepth (.ret .fail)))

def afterCas (w : Write) : Option (Nat × Bool) → After
  | some (n, chain) => .retire n chain w.epoch
  | none => .ret .ok

/-- The compare-and-swap on the bucket; `ok = false` is a spurious failure. -/
def cas (c : Config) (s : State) (t : Nat) (w : Write) (head : Option Nat) (new : List Node)
    (tail : Option Nat) (retire : Option (Nat × Bool)) (ok : Bool) : State :=
  let b := c.bucketOf w.key
  if ok = true ∧ s.buckets b = head then
    let published := s.heap.allocAll new tail
    State.goto (State.commit
      { s with heap := published.1, buckets := update s.buckets b published.2 } t .ok) t
      (.exitDepth (afterCas w retire))
  else s.goto t (.exitDepth (.retry w))

def afterExit (s : State) (t : Nat) : After → State
  | .ret res => s.ret t res
  | .released => s.goto t .idle
  | .retry w => s.goto t (.enterDepth (.write w))
  | .retire n true epoch => s.goto t (.retireNext n epoch)
  | .retire n false epoch => s.goto t (.retireLoad n epoch none)

def afterRetire (s : State) (t : Nat) (epoch : Nat) : Option Nat → State
  | some n => s.goto t (.retireNext n epoch)
  | none => s.ret t .ok

def State.retiredHead (s : State) : Option Nat := s.retired.head?.map Prod.fst

def tryReclaim (s : State) (t epoch : Nat) (rest : Option Nat) (ok : Bool) : ReclaimPc → State
  | .tryLock =>
    if s.reclaimLocked then afterRetire s t epoch rest
    else { s.goto t (.reclaim epoch rest .loadEpoch) with reclaimLocked := true }
  | .loadEpoch => s.goto t (.reclaim epoch rest (.scan s.globalEpoch 0 none))
  | .scan current i low =>
    if i < maxReaders then
      s.goto t (.reclaim epoch rest (.scan current (i + 1) (observe low (s.slots i).active)))
    else
      -- all readers have caught up
      { s.goto t (.reclaim epoch rest (.detach (low.getD (current + 2)))) with
        globalEpoch := if low.any (current ≤ ·) then s.globalEpoch + 1 else s.globalEpoch }
  | .detach limit =>
    { s.goto t (.reclaim epoch rest (.sweep limit s.retired [])) with retired := [] }
  | .sweep limit (rec :: recs) kept =>
    if rec.2 + 1 < limit then
      { s.goto t (.reclaim epoch rest (.sweep limit recs kept)) with freed := rec.1 :: s.freed }
    else s.goto t (.reclaim epoch rest (.sweep limit recs (rec :: kept)))
  | .sweep _ [] kept =>
    s.goto t (.reclaim epoch rest (
      if kept = [] then .storeCount 0 else .pushBack kept s.retiredHead))
  | .pushBack kept head =>
    if ok = true ∧ s.retiredHead = head then
      { s.goto t (.reclaim epoch rest (.storeCount kept.length)) with
        retired := kept ++ s.retired }
    else s.goto t (.reclaim epoch rest (.pushBack kept s.retiredHead))
  | .storeCount n => { s.goto t (.reclaim epoch rest .unlock) with retiredCount := n }
  | .unlock => { afterRetire s t epoch rest with reclaimLocked := false }

def threadStep (c : Config) (s : State) (t : Nat) (ok : Bool) : Option State :=
  let i := c.slotOf t
  let slot := s.slots i
  match (s.threads t).pc with
  | .idle => none
  | .setEpoch key val => some (s.goto t (.setAlloc key val s.globalEpoch))
  | .setAlloc key val epoch =>
    some (if ok then s.goto t (.enterDepth (.write ⟨key, some ⟨key, val, epoch⟩, epoch⟩))
      else s.ret t .fail)
  | .deleteEpoch key => some (s.goto t (.enterDepth (.write ⟨key, none, s.globalEpoch⟩)))
  | .enterDepth job =>
    some ((s.setSlot i { slot with depth := slot.depth + 1 }).goto t (
      if slot.depth = 0 then .enterEpoch job else .loadHead job))
  | .enterEpoch job => some (s.goto t (.enterActive job s.globalEpoch))
  | .enterActive job epoch =>
    some ((s.setSlot i { slot with active := epoch }).goto t (.loadHead job))
  | .loadHead job => some (loadHead c s t job)
  | .walk job head cur => walk s t job head cur
  | .clone w head found iter copied => clone s t w head found copied ok iter
  | .cas w head new tail retire => some (cas c s t w head new tail retire ok)
  | .exitDepth after =>
    let s' := s.setSlot i { slot with depth := slot.depth - 1 }
    some (if slot.depth ≤ 1 then s'.goto t (.exitActive after) else afterExit s' t after)
  | .exitActive after =>
    let s' := s.setSlot i { slot with active := 0 }
    some (afterExit (s'.setThread t { s.threads t with heads := [] }) t after)
  | .retireNext n epoch =>
    match s.heap.cells[n]? with
    | none => none
    | some cell => some (s.goto t (.retireLoad n epoch cell.next))
  | .retireLoad n epoch rest => some (s.goto t (.retireCas n epoch rest s.retiredHead))
  | .retireCas n epoch rest head =>
    some (if ok = true ∧ s.retiredHead = head then
        { s.goto t (.retireCount epoch rest) with retired := (n, epoch) :: s.retired }
      else s.goto t (.retireCas n epoch rest s.retiredHead))
  | .retireCount epoch rest =>
    let s' := { s with retiredCount := s.retiredCount + 1 }
    some (if retireThreshold ≤ s.retiredCount then s'.goto t (.reclaim epoch rest .tryLock)
      else afterRetire s' t epoch rest)
  | .reclaim epoch rest pc => some (tryReclaim s t epoch rest ok pc)

inductive Act where
  | set (t : Nat) (key val : Bytes)
  | delete (t : Nat) (key : Bytes)
  | getView (t : Nat) (key : Bytes)
  | getCopy (t : Nat) (key : Bytes) (bufLen : Nat)
  | invalid (t : Nat)
  | releaseView (t n : Nat)
  | thread (t : Nat) (ok : Bool)
deriving DecidableEq

def begin (c : Config) (s : State) (t : Nat) (op : Op) (pc : Pc) : Option State :=
  if t < c.threads ∧ (s.threads t).pc = .idle then some (s.call t op pc) else none

def step (c : Config) (s : State) : Act → Option State
  | .set t key val => begin c s t (.set key val) (.setEpoch key val)
  | .delete t key => begin c s t (.delete key) (.deleteEpoch key)
  | .getView t key => begin c s t (.getView key) (.enterDepth (.get key none))
  | .getCopy t key bufLen => begin c s t (.getCopy key bufLen) (.enterDepth (.get key (some bufLen)))
  | .invalid t => (begin c s t .invalid .idle).map fun s => (s.commit t .fail).ret t .fail
  | .releaseView t n =>
    if (s.threads t).pc = .idle ∧ n ∈ (s.threads t).views then
      some (s.setThread t { s.threads t with
        pc := .exitDepth .released
        views := (s.threads t).views.erase n })
    else none
  | .thread t ok => threadStep c s t ok

def mvcc (c : Config) : System State Act where
  init s := s = mvccCacheNew
  step := step c

end Csilk.Cache
