import Csilk.Lib.Epoch
import Csilk.Lib.Transition

namespace Csilk.Reload
open Csilk.Lib Function

abbrev RouterId := Nat

def maxReaders : Nat := 256

/-- `router` is NULL if only a library or a file was retired. -/
structure RetiredRouter where
  router : Option RouterId
  epoch : Nat
deriving DecidableEq

/-- Where the owner of a slot stands in an acquire, a release or its exit handler. -/
inductive ReaderPc where
  | unowned
  | clearActive
  | clearDepth
  | pushLoad
  | pushCas (head : List Nat)
  | idle
  | storeDepth (depth : Nat)
  | loadEpoch
  | storeActive (epoch : Nat)
  | loadActive
  | loadRouter
  | releaseDepth (depth : Nat)
  | releaseActive
  | exitActive
  | exitDepth
  | exitOwner
deriving DecidableEq

structure Slot where
  active : Nat
  depth : Nat
  pc : ReaderPc
  held : List RouterId
deriving DecidableEq

inductive ReclaimPc where
  | tryLock
  | loadEpoch
  | scanStatic (current i : Nat) (low : Option Nat)
  | scanOverflow (current : Nat) (low : Option Nat) (rest : List Nat)
  | sweep (limit : Nat) (rest kept : List RetiredRouter)
  | pushBack (kept : List RetiredRouter) (head : Option RetiredRouter)
  | storeCount (n : Nat)
  | unlock
deriving DecidableEq

/-- A thread that changes the router, stops hot reload or waits for a grace period; `locked` says
that it holds `config_mutex`. -/
inductive WorkerPc where
  | idle
  | lockConfig (new : RouterId) (extra : Bool)
  | exchange (new : RouterId) (extra : Bool)
  | advance (old : Option RouterId) (extra : Bool)
  | allocRec (rec : RetiredRouter)
  | pushLoad (rec : RetiredRouter) (locked : Bool)
  | pushCas (rec : RetiredRouter) (locked : Bool) (head : Option RetiredRouter)
  | count (locked : Bool)
  | unlockConfig
  | stopExchange (extra : Bool)
  | stopAlloc (old : Option RouterId)
  | stopEpoch (old : Option RouterId)
  | graceEpoch
  | graceStatic (target i : Nat)
  | graceOverflow (target : Nat) (rest : List Nat)
  | reclaim (locked : Bool) (pc : ReclaimPc)
deriving DecidableEq

/-- Slots below `maxReaders` are static, the others are pushed onto `overflow` and stay there. -/
structure State where
  router : Option RouterId
  globalEpoch : Nat
  slots : Nat → Slot
  overflow : List Nat
  configLocked : Bool
  reclaimLocked : Bool
  retired : List RetiredRouter
  retiredCount : Nat
  workers : Nat → WorkerPc
  /-- Routers returned to threads for which no slot could be allocated. -/
  unslotted : List RouterId
  freed : List RouterId

def reloadMgrInit (router : Option RouterId) : State where
  router := router
  globalEpoch := 1
  slots := fun _ => ⟨0, 0, .unowned, []⟩
  overflow := []
  configLocked := false
  reclaimLocked := false
  retired := []
  retiredCount := 0
  workers := fun _ => .idle
  unslotted := []
  freed := []

def State.setSlot (s : State) (i : Nat) (slot : Slot) : State :=
  { s with slots := update s.slots i slot }

def State.goto (s : State) (w : Nat) (pc : WorkerPc) : State :=
  { s with workers := update s.workers w pc }

def readerStep (s : State) (i : Nat) (ok : Bool) : Option State :=
  let slot := s.slots i
  match slot.pc with
  | .clearActive => some (s.setSlot i { slot with active := 0, pc := .clearDepth })
  | .clearDepth => some (s.setSlot i { slot with depth := 0, pc := .idle })
  | .pushLoad => some (s.setSlot i { slot with pc := .pushCas s.overflow })
  | .pushCas head =>
    if ok = true ∧ s.overflow = head then
      some { s.setSlot i { slot with pc := .idle } with overflow := i :: s.overflow }
    else some (s.setSlot i { slot with pc := .pushCas s.overflow })
  | .storeDepth d =>
    some (s.setSlot i { slot with
      depth := d + 1
      pc := if d = 0 then .loadEpoch else .loadActive })
  | .loadEpoch => some (s.setSlot i { slot with pc := .storeActive s.globalEpoch })
  | .storeActive e => some (s.setSlot i { slot with active := e, pc := .loadRouter })
  | .loadActive => some (s.setSlot i { slot with pc := .loadRouter })
  | .loadRouter =>
    some (s.setSlot i { slot with held := s.router.toList ++ slot.held, pc := .idle })
  | .releaseDepth d =>
    some (s.setSlot i { slot with
      depth := d - 1
      pc := if d ≤ 1 then .releaseActive else .idle })
  | .releaseActive => some (s.setSlot i { slot with active := 0, held := [], pc := .idle })
  | .exitActive => some (s.setSlot i { slot with active := 0, held := [], pc := .exitDepth })
  | .exitDepth => some (s.setSlot i { slot with depth := 0, pc := .exitOwner })
  | .exitOwner => some (s.setSlot i { slot with pc := .unowned })
  | .unowned | .idle => none

def afterReclaim (locked : Bool) : WorkerPc := if locked then .unlockConfig else .idle

def tryReclaimStep (s : State) (w : Nat) (locked ok : Bool) : ReclaimPc → State
  | .tryLock =>
    if s.reclaimLocked then s.goto w (afterReclaim locked)
    else { s.goto w (.reclaim locked .loadEpoch) with reclaimLocked := true }
  | .loadEpoch => s.goto w (.reclaim locked (.scanStatic s.globalEpoch 0 none))
  | .scanStatic current i low =>
    s.goto w (.reclaim locked (
      if i < maxReaders then .scanStatic current (i + 1) (observe low (s.slots i).active)
      else .scanOverflow current low s.overflow))
  | .scanOverflow current low (i :: rest) =>
    s.goto w (.reclaim locked (.scanOverflow current (observe low (s.slots i).active) rest))
  | .scanOverflow current low [] =>
    { s.goto w (.reclaim locked (.sweep (low.getD (current + 2)) s.retired [])) with
      retired := [] }
  | .sweep limit (rec :: rest) kept =>
    if rec.epoch < limit then
      { s.goto w (.reclaim locked (.sweep limit rest kept)) with
        freed := rec.router.toList ++ s.freed }
    else s.goto w (.reclaim locked (.sweep limit rest (rec :: kept)))
  | .sweep _ [] kept =>
    s.goto w (.reclaim locked (
      if kept = [] then .storeCount 0 else .pushBack kept s.retired.head?))
  | .pushBack kept head =>
    if ok = true ∧ s.retired.head? = head then
      { s.goto w (.reclaim locked (.storeCount kept.length)) with retired := kept ++ s.retired }
    else s.goto w (.reclaim locked (.pushBack kept s.retired.head?))
  | .storeCount n => { s.goto w (.reclaim locked .unlock) with retiredCount := n }
  | .unlock => { s.goto w (afterReclaim locked) with reclaimLocked := false }

def workerStep (s : State) (w : Nat) (ok : Bool) : Option State :=
  match s.workers w with
  | .idle => none
  | .lockConfig new extra =>
    if s.configLocked then none
    else some { s.goto w (.exchange new extra) with configLocked := true }
  | .exchange new extra => some { s.goto w (.advance s.router extra) with router := some new }
  | .advance old extra =>
    some { s.goto w (if old.isSome || extra then .allocRec ⟨old, s.globalEpoch⟩
        else .reclaim true .tryLock) with
      globalEpoch := s.globalEpoch + 1 }
  | .allocRec rec => some (s.goto w (if ok then .pushLoad rec true else .reclaim true .tryLock))
  | .pushLoad rec locked => some (s.goto w (.pushCas rec locked s.retired.head?))
  | .pushCas rec locked head =>
    if ok = true ∧ s.retired.head? = head then
      some { s.goto w (.count locked) with retired := rec :: s.retired }
    else some (s.goto w (.pushCas rec locked s.retired.head?))
  | .count locked =>
    some { s.goto w (if locked then .reclaim true .tryLock else .idle) with
      retiredCount := s.retiredCount + 1 }
  | .unlockConfig => some { s.goto w .idle with configLocked := false }
  | .stopExchange extra =>
    some { s.goto w (if s.router.isSome || extra then .stopAlloc s.router else .idle) with
      router := none }
  | .stopAlloc old => some (s.goto w (if ok then .stopEpoch old else .idle))
  | .stopEpoch old => some (s.goto w (.pushLoad ⟨old, s.globalEpoch⟩ false))
  | .graceEpoch => some (s.goto w (.graceStatic s.globalEpoch 0))
  | .graceStatic target i =>
    some (s.goto w (
      if i < maxReaders then
        let epoch := (s.slots i).active
        if epoch ≠ 0 ∧ epoch ≤ target then .graceStatic target 0 else .graceStatic target (i + 1)
      else .graceOverflow target s.overflow))
  | .graceOverflow target (i :: rest) =>
    let epoch := (s.slots i).active
    some (s.goto w (if epoch ≠ 0 ∧ epoch ≤ target then .graceStatic target 0
      else .graceOverflow target rest))
  | .graceOverflow _ [] => some (s.goto w (.reclaim false .tryLock))
  | .reclaim locked pc => some (tryReclaimStep s w locked ok pc)

inductive Act where
  | claimSlot (i : Nat)
  | allocSlot (i : Nat)
  | acquire (i : Nat)
  | release (i : Nat)
  | exitThread (i : Nat)
  | reader (i : Nat) (ok : Bool)
  | acquireUnslotted
  | releaseUnslotted (r : RouterId)
  | setRouterFull (w : Nat) (new : RouterId) (extra : Bool)
  | hotReloadStop (w : Nat) (extra : Bool)
  | waitGracePeriod (w : Nat)
  | worker (w : Nat) (ok : Bool)
deriving DecidableEq

def State.slotGoto (s : State) (i : Nat) (pc : ReaderPc) : State :=
  s.setSlot i { s.slots i with pc := pc }

def step (s : State) : Act → Option State
  | .claimSlot i =>
    if (s.slots i).pc = .unowned ∧ (i < maxReaders ∨ i ∈ s.overflow) then
      some (s.slotGoto i .clearActive)
    else none
  | .allocSlot i =>
    if (s.slots i).pc = .unowned ∧ maxReaders ≤ i ∧ i ∉ s.overflow then
      some (s.slotGoto i .pushLoad)
    else none
  | .acquire i =>
    if (s.slots i).pc = .idle then some (s.slotGoto i (.storeDepth (s.slots i).depth)) else none
  -- A token is active only while its acquire is open.
  | .release i =>
    if (s.slots i).pc = .idle ∧ 0 < (s.slots i).depth then
      some (s.slotGoto i (.releaseDepth (s.slots i).depth))
    else none
  | .exitThread i => if (s.slots i).pc = .idle then some (s.slotGoto i .exitActive) else none
  | .reader i ok => readerStep s i ok
  | .acquireUnslotted => some { s with unslotted := s.router.toList ++ s.unslotted }
  | .releaseUnslotted r => some { s with unslotted := s.unslotted.erase r }
  | .setRouterFull w new extra =>
    if s.workers w = .idle then some (s.goto w (.lockConfig new extra)) else none
  | .hotReloadStop w extra =>
    if s.workers w = .idle then some (s.goto w (.stopExchange extra)) else none
  | .waitGracePeriod w => if s.workers w = .idle then some (s.goto w .graceEpoch) else none
  | .worker w ok => workerStep s w ok

def rcu : System State Act where
  init s := ∃ router, s = reloadMgrInit router
  step := step

end Csilk.Reload
