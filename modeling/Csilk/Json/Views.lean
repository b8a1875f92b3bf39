import Csilk.Bytes
import Csilk.Lib.Transition
import Mathlib.Algebra.Group.Nat.Defs

namespace Csilk.Json
open Csilk.Lib Function

/-- The values of a document; `real` holds the bits of a double. -/
inductive Value
  | null
  | bool (b : Bool)
  | int (n : Int)
  | real (bits : UInt64)
  | str (s : Bytes)
  | arr (items : List Value)
  | obj (members : List (Bytes × Value))

def Value.isObj : Value → Bool
  | .obj _ => true
  | _ => false

def Value.isArr : Value → Bool
  | .arr _ => true
  | _ => false

def Value.get (key : Bytes) : Value → Option Value
  | .obj members => (members.find? fun m => m.1 = key).map Prod.snd
  | _ => none

inductive Getter
  | csilkJsonGet (key : Bytes)
  | csilkJsonGetObject (key : Bytes)
  | csilkJsonGetArray (key : Bytes)
  | csilkJsonArrayGet (index : Nat)
  | csilkJsonObjectVal (index : Nat)

def Getter.select : Getter → Value → Option Value
  | .csilkJsonGet key, v => v.get key
  | .csilkJsonGetObject key, v => (v.get key).filter Value.isObj
  | .csilkJsonGetArray key, v => (v.get key).filter Value.isArr
  | .csilkJsonArrayGet index, .arr items => items[index]?
  | .csilkJsonObjectVal index, .obj members => members[index]?.map Prod.snd
  | _, _ => none

/-- The owner of its document, or a view into the document of `root`. -/
structure Object where
  val : Value
  root : Nat
  owner : Bool
  allocated : Bool

def Object.isView (o : Object) : Bool := o.allocated && !o.owner

/-- The objects of one thread and its ring; `returned` counts the views returned. -/
structure State where
  objects : List Object
  tlsViewScratch : Nat → Option Nat
  tlsScratchIdx : Nat
  returned : Nat

def scratchSize : Nat := 64

inductive Act
  | csilkJsonParse (root : Option Value) (ok : Bool)
  | getter (v : Nat) (g : Getter) (ok : Bool)
  | csilkJsonFree (v : Nat)

/-- A text with the value `root`; `ok` tells whether `malloc` succeeds. -/
def csilkJsonParse (s : State) (root : Option Value) (ok : Bool) : State :=
  match root, ok with
  | some val, true => { s with objects := s.objects ++ [⟨val, s.objects.length, true, true⟩] }
  | _, _ => s

/-- `json_view_immutable`: the object that the ring held before is not freed. -/
def jsonViewImmutable (s : State) (root : Nat) (val : Option Value) (ok : Bool) : State :=
  match val with
  | none => s
  | some val =>
    let idx := s.tlsScratchIdx % scratchSize
    let s := { s with tlsScratchIdx := (s.tlsScratchIdx + 1) % 2 ^ 64 }
    if ok then
      { s with
        tlsViewScratch := update s.tlsViewScratch idx (some s.objects.length)
        objects := s.objects ++ [⟨val, root, false, true⟩]
        returned := s.returned + 1 }
    else s

def State.usable (s : State) (v : Nat) : Option Object :=
  s.objects[v]?.filter fun o => o.allocated && (s.objects[o.root]?.any Object.allocated)

def State.release (s : State) (v : Nat) (o : Object) : State :=
  { s with objects := s.objects.set v { o with owner := false, allocated := false } }

/-- A getter is given what may still be used, and only what was parsed is freed. -/
def step (s : State) : Act → Option State
  | .csilkJsonParse root ok => some (csilkJsonParse s root ok)
  | .getter v g ok => (s.usable v).map fun o => jsonViewImmutable s o.root (g.select o.val) ok
  | .csilkJsonFree v => ((s.usable v).filter Object.owner).map (s.release v)

def start : State := ⟨[], fun _ => none, 0, 0⟩

def thread : System State Act where
  init := (· = start)
  step := step

def State.views (s : State) : Nat := s.objects.countP Object.isView

def State.rootsFreed (s : State) : Bool := s.objects.all fun o => !o.owner

theorem State.usable_getElem? {s : State} (h : s.usable v = some o) : s.objects[v]? = some o :=
  (Option.filter_eq_some_iff.1 h).1

theorem State.release_views {s : State} (h : s.objects[v]? = some o) (ho : o.owner = true) :
    (s.release v o).views = s.views := by
  obtain ⟨hv, hget⟩ := List.getElem?_eq_some_iff.1 h
  have hview : s.objects[v].isView = false := by
    rw [hget, Object.isView, ho]
    exact Bool.and_false _
  rw [State.views, State.release, List.countP_set hv, hview]
  rfl

theorem jsonViewImmutable_views (h : s.views = s.returned) :
    (jsonViewImmutable s root val ok).views = (jsonViewImmutable s root val ok).returned := by
  cases val with
  | none => exact h
  | some val =>
    cases ok with
    | false => exact h
    | true => exact List.countP_append.trans (congrArg (· + 1) h)

theorem step_views (h : s.views = s.returned) (hs : step s a = some s') :
    s'.views = s'.returned := by
  cases a with
  | csilkJsonParse root ok =>
    cases hs
    cases root with
    | none => exact h
    | some val =>
      cases ok with
      | false => exact h
      | true => exact List.countP_append.trans h
  | getter v g ok =>
    obtain ⟨o, -, rfl⟩ := Option.map_eq_some_iff.1 hs
    exact jsonViewImmutable_views h
  | csilkJsonFree v =>
    obtain ⟨o, ho, rfl⟩ := Option.map_eq_some_iff.1 hs
    obtain ⟨hu, howner⟩ := Option.filter_eq_some_iff.1 ho
    exact (State.release_views (State.usable_getElem? hu) howner).trans h

/-- No view is freed: at most `scratchSize` remain just if no more were returned. -/
theorem views_le_iff (h : thread.Reachable (fun _ _ => True) s) :
    s.views ≤ scratchSize ↔ s.returned ≤ scratchSize := by
  have hviews : s.views = s.returned := by
    apply h.invariant (P := fun s => s.views = s.returned)
    · intro s hs
      cases hs
      rfl
    · intro s a s' ih _ hs
      exact step_views ih hs
  rw [hviews]

def gets (n : Nat) : List Act :=
  .csilkJsonParse (some (.arr [.null])) true ::
    List.replicate n (.getter 0 (.csilkJsonArrayGet 0) true) ++ [.csilkJsonFree 0]

theorem views_le_full : ∃ s, thread.Reachable (fun _ _ => True) s ∧ s.views ≤ scratchSize ∧
    s.returned = 64 := by
  have hrun := thread.run (p := fun _ _ => True) start (gets 64) rfl rfl
  exact ⟨_, hrun, (views_le_iff hrun).2 (by decide), by decide⟩

theorem views_unbounded : ∃ s, thread.Reachable (fun _ _ => True) s ∧
    s.rootsFreed ∧ scratchSize < s.views := by
  have hrun := thread.run (p := fun _ _ => True) start (gets 65) rfl rfl
  exact ⟨_, hrun, by decide, by decide⟩

end Csilk.Json
