import Csilk.Reload.Rcu

namespace Csilk.Hooks
open Csilk.Lib Function

inductive HookType where
  | serverStart
  | serverStop
  | connOpen
  | connClose
  | requestBegin
  | requestEnd
deriving DecidableEq

inductive Call where
  | addHook (type : HookType) (handler : Nat)
  | removeHook (type : HookType) (handler : Nat)
  | clearHooks (type : HookType)
deriving DecidableEq

def Call.type : Call → HookType
  | .addHook type _ | .removeHook type _ | .clearHooks type => type

/-- The handlers published in place of `old`; no handlers stand for NULL. -/
def Call.handlers (old : List Nat) : Call → Option (List Nat)
  | .addHook _ handler => some (handler :: old)
  | .removeHook _ handler => if handler ∈ old then some (old.erase handler) else none
  | .clearHooks _ => if old = [] then none else some []

/-- In `wait` it is in `csilk_server_wait_grace_period`, as worker of the reload manager. -/
inductive WriterPc where
  | idle
  | lock (c : Call)
  | load (c : Call)
  | store (type : HookType) (old new : Option Nat)
  | advance (old : Nat)
  | wait (old : Nat)
  | unlock
deriving DecidableEq

/-- About to load the array, in the loop before handler `i`, or about to acquire the router. -/
inductive Frame where
  | load (type : HookType)
  | loop (arr i : Nat)
  | acquire
deriving DecidableEq

def Frame.runs : Frame → Bool
  | .loop _ _ => true
  | _ => false

/-- A thread has a frame for each trigger it is in, since handlers may trigger hooks. -/
structure State where
  rcu : Reload.State
  hooks : HookType → Option Nat
  handlers : Nat → List Nat
  allocated : Nat
  freed : List Nat
  mutex : Option Nat
  writers : Nat → WriterPc
  threads : Nat → List Frame

def init (router : Option Reload.RouterId) : State where
  rcu := Reload.reloadMgrInit router
  hooks := fun _ => none
  handlers := fun _ => []
  allocated := 0
  freed := []
  mutex := none
  writers := fun _ => .idle
  threads := fun _ => []

def State.goto (s : State) (w : Nat) (pc : WriterPc) : State :=
  { s with writers := update s.writers w pc }

def State.frames (s : State) (i : Nat) (fs : List Frame) : State :=
  { s with threads := update s.threads i fs }

/-- The next access of a thread that changes hooks; `ok` lets `malloc` succeed. -/
def writerStep (s : State) (w : Nat) (ok : Bool) : Option State :=
  match s.writers w with
  | .idle => none
  | .lock c => if s.mutex = none then some { s.goto w (.load c) with mutex := some w } else none
  | .load c =>
    let old := s.hooks c.type
    match c.handlers (old.elim [] s.handlers) with
    | none => some (s.goto w .unlock)
    | some [] => some (s.goto w (.store c.type old none))
    | some (h :: hs) =>
      if ok then
        some { s.goto w (.store c.type old (some s.allocated)) with
          handlers := update s.handlers s.allocated (h :: hs)
          allocated := s.allocated + 1 }
      else some (s.goto w .unlock)
  | .store type old new =>
    some { s.goto w (old.elim .unlock .advance) with hooks := update s.hooks type new }
  | .advance old =>
    some { s.goto w (.wait old) with
      rcu := Reload.State.goto { s.rcu with globalEpoch := s.rcu.globalEpoch + 1 } w .graceEpoch }
  | .wait old =>
    if s.rcu.workers w = .idle then some { s.goto w .unlock with freed := old :: s.freed } else none
  | .unlock => some { s.goto w .idle with mutex := none }

def threadStep (s : State) (i : Nat) : Option State :=
  match s.threads i with
  | [] => none
  | .load type :: fs =>
    match s.hooks type with
    | none => some (s.frames i fs)
    | some arr => some (s.frames i (if s.handlers arr = [] then fs else .loop arr 0 :: fs))
  | .loop arr k :: fs =>
    some (s.frames i (if k < (s.handlers arr).length then .loop arr (k + 1) :: fs else fs))
  | .acquire :: fs =>
    (Reload.step s.rcu (.acquire i)).map fun rcu => { s.frames i fs with rcu := rcu }

/-- Thread `i` runs code outside of the hook functions. -/
def State.runs (s : State) (i : Nat) : Bool := (s.threads i).head?.all Frame.runs

/-- Other uses of the reload manager than those of `threadStep` and `writerStep`. -/
def State.enabled (s : State) : Reload.Act → Bool
  | .acquire _ => false
  | .release i => s.runs i
  | .exitThread i => (s.threads i).isEmpty
  | .setRouterFull w _ _ | .hotReloadStop w _ | .waitGracePeriod w => decide (s.writers w = .idle)
  | _ => true

/-- `dispatchRequest` triggers `requestBegin` and acquires the router; other hooks are triggered
alone. -/
inductive Act where
  | rcu (a : Reload.Act)
  | call (w : Nat) (c : Call)
  | writer (w : Nat) (ok : Bool)
  | trigger (i : Nat) (type : HookType)
  | dispatchRequest (i : Nat)
  | thread (i : Nat)

def step (s : State) : Act → Option State
  | .rcu a =>
    if s.enabled a then (Reload.step s.rcu a).map fun rcu => { s with rcu := rcu } else none
  | .call w c =>
    if s.writers w = .idle ∧ s.rcu.workers w = .idle then some (s.goto w (.lock c)) else none
  | .writer w ok => writerStep s w ok
  | .trigger i type =>
    if s.runs i ∧ type ≠ .requestBegin then some (s.frames i (.load type :: s.threads i)) else none
  | .dispatchRequest i =>
    if s.runs i then some (s.frames i (.load .requestBegin :: .acquire :: s.threads i)) else none
  | .thread i => threadStep s i

def hooks : System State Act where
  init s := ∃ router, s = init router
  step := step

end Csilk.Hooks
