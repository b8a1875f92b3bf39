import Csilk.Routing.Trie
import Mathlib.Algebra.GroupWithZero.Nat

namespace Csilk.Routing
open Csilk.Lib List

def csilkRouterMaxDepth : Nat := 64

def csilkMaxParams : Nat := 20

/-- `enableSimd` is the server's setting, if the context has a server. -/
structure Ctx where
  params : List (Bytes × Bytes)
  enableSimd : Option Bool
deriving DecidableEq

/-- Compare `w` bytes at a time while that many are left; `none` on a difference. -/
def cmpChunks (w : Nat) (s₁ s₂ : Bytes) : Option (Bytes × Bytes) :=
  if _h : 0 < w ∧ w ≤ s₁.length then
    if s₁.take w = s₂.take w then cmpChunks w (s₁.drop w) (s₂.drop w) else none
  else some (s₁, s₂)
termination_by s₁.length
decreasing_by
  rw [length_drop]
  omega

def cmpWidths : List Nat → Bytes → Bytes → Bool
  | [], _, _ => true
  | w :: ws, s₁, s₂ =>
    match cmpChunks w s₁ s₂ with
    | none => false
    | some (r₁, r₂) => cmpWidths ws r₁ r₂

def csilkMemcmpFast (vector : List Nat) (s₁ s₂ : Bytes) : Bool :=
  cmpWidths (vector ++ [8, 4, 2, 1]) s₁ s₂

def captureParam (ctx : Option Ctx) (key val : Bytes) : Option Ctx × Bool :=
  match ctx with
  | none => (none, false)
  | some c =>
    if csilkMaxParams ≤ c.params.length then (some c, false)
    else (some { c with params := c.params ++ [(key, val)] }, true)

def captureWildcardParam (ctx : Option Ctx) (key path : Bytes) : Option Ctx × Bool :=
  captureParam ctx key (path.dropWhile (· = slash))

def rollbackParam (ctx : Option Ctx) (targetCount : Nat) : Option Ctx :=
  ctx.map fun c => { c with params := c.params.take targetCount }

def paramsCount (ctx : Option Ctx) : Nat := (ctx.map (·.params.length)).getD 0

structure Frame where
  node : RouterNode
  path : Bytes
  p : Bytes
  seg : Option Bytes
  childIdx : Nat
  paramsCountSnapshot : Nat
  paramAdded : Bool
  checkedTerminal : Bool

def pushFrame (node : RouterNode) (path : Bytes) (snapshot : Nat) (added : Bool) : Frame where
  node := node
  path := path
  p := (getNextSegment path).2
  seg := (getNextSegment path).1
  childIdx := 0
  paramsCountSnapshot := snapshot
  paramAdded := added
  checkedTerminal := false

def findMethod (handlers : List MethodHandler) (method : Bytes) : Option MethodHandler :=
  handlers.find? (·.method = method)

inductive Visit where
  | hit (mh : MethodHandler) (ctx : Option Ctx)
  | push (frame : Frame) (ctx : Option Ctx)
  | next (ctx : Option Ctx)

def segmentEq (vector : List Nat) (ctx : Option Ctx) (s₁ s₂ : Bytes) : Bool :=
  if (ctx.bind (·.enableSimd)).getD true then csilkMemcmpFast vector s₁ s₂ else s₁ = s₂

def visitChild (vector : List Nat) (method : Bytes) (frame : Frame) (child : RouterNode)
    (ctx : Option Ctx) : Visit :=
  if frame.seg.isSome ∧ child.type = .static ∧ 0 < child.segment.length ∧
      child.segment.head? ≠ frame.seg.bind List.head? then .next ctx
  else
    match child.type, frame.seg with
    | .static, none => .next ctx
    | .static, some seg =>
      if child.segment.length = seg.length ∧ child.segment.head? = seg.head? ∧
          segmentEq vector ctx child.segment seg then
        .push (pushFrame child frame.p (paramsCount ctx) false) ctx
      else .next ctx
    | .param, none => .next ctx
    | .param, some seg =>
      let (ctx', added) := captureParam ctx child.segment seg
      .push (pushFrame child frame.p (paramsCount ctx) added) ctx'
    | .wildcard, _ =>
      let (ctx', added) := captureWildcardParam ctx child.segment frame.path
      match findMethod child.handlers method with
      | some mh => .hit mh ctx'
      | none => .next (if added then rollbackParam ctx' (paramsCount ctx) else ctx')

/-- The loop over the children, with the index it leaves in `child_idx`. -/
def scanChildren (vector : List Nat) (method : Bytes) (frame : Frame) :
    List RouterNode → Nat → Option Ctx → Nat × Visit
  | [], i, ctx => (i, .next ctx)
  | child :: rest, i, ctx =>
    match visitChild vector method frame child ctx with
    | .next ctx' => scanChildren vector method frame rest (i + 1) ctx'
    | v => (i + 1, v)

def terminalHandler (method : Bytes) (node : RouterNode) (path : Bytes) : Option MethodHandler :=
  if path = [] ∨ path = [slash] then findMethod node.handlers method else none

def backtrack (frame : Frame) (ctx : Option Ctx) : Option Ctx :=
  if frame.paramAdded then rollbackParam ctx frame.paramsCountSnapshot else ctx

theorem sizeOf_children (node : RouterNode) : sizeOf node.children < sizeOf node := by
  cases node
  simp only [RouterNode.mk.sizeOf_spec]
  omega

theorem sizeOf_list_pos (cs : List RouterNode) : 0 < sizeOf cs := by
  cases cs <;> simp only [List.nil.sizeOf_spec, List.cons.sizeOf_spec] <;> omega

theorem visitChild_push (h : visitChild vector method frame child ctx = .push f ctx') :
    f.node = child ∧ f.childIdx = 0 := by
  unfold visitChild at h
  split at h
  · cases h
  · split at h
    · cases h
    · split at h
      · cases h
        exact ⟨rfl, rfl⟩
      · cases h
    · cases h
    · cases h
      exact ⟨rfl, rfl⟩
    · simp only at h
      split at h <;> cases h

theorem scanChildren_push (h : scanChildren vector method frame cs i ctx = (j, .push f ctx')) :
    i < j ∧ f.childIdx = 0 ∧ sizeOf (cs.drop (j - i)) + sizeOf f.node.children < sizeOf cs := by
  induction cs generalizing i ctx with
  | nil => cases h
  | cons c rest ih =>
    rw [scanChildren] at h
    split at h
    · obtain ⟨hij, hf, hlt⟩ := ih h
      have he : j - i = j - (i + 1) + 1 := by omega
      rw [he, drop_succ_cons, List.cons.sizeOf_spec]
      exact ⟨by omega, hf, by omega⟩
    · obtain ⟨rfl, hv⟩ := Prod.mk.inj h
      obtain ⟨rfl, hf⟩ := visitChild_push hv
      have hs := sizeOf_children f.node
      rw [Nat.add_sub_cancel_left, drop_one, tail_cons, List.cons.sizeOf_spec]
      exact ⟨by omega, hf, by omega⟩

def matchLoop (vector : List Nat) (method : Bytes) :
    List Frame → Option Ctx → Option MethodHandler × Option Ctx
  | [], ctx => (none, ctx)
  | frame :: stack, ctx =>
    match if frame.checkedTerminal then none else terminalHandler method frame.node frame.path with
    | some mh => (some mh, ctx)
    | none =>
      let frame' := { frame with checkedTerminal := true }
      if csilkRouterMaxDepth - 1 ≤ stack.length then
        matchLoop vector method stack (backtrack frame' ctx)
      else
        match _h : scanChildren vector method frame' (frame.node.children.drop frame.childIdx)
            frame.childIdx ctx with
        | (_, .hit mh ctx') => (some mh, ctx')
        | (i, .push child ctx') =>
          matchLoop vector method (child :: { frame' with childIdx := i } :: stack) ctx'
        | (_, .next ctx') => matchLoop vector method stack (backtrack frame' ctx')
termination_by stack => (stack.map fun f => sizeOf (f.node.children.drop f.childIdx)).sum
decreasing_by
  · exact Nat.lt_add_of_pos_left (sizeOf_list_pos _)
  · obtain ⟨hij, hf, hlt⟩ := scanChildren_push _h
    rw [drop_drop, Nat.add_sub_cancel' (le_of_lt hij)] at hlt
    simp only [map_cons, sum_cons, hf, drop_zero]
    omega
  · exact Nat.lt_add_of_pos_left (sizeOf_list_pos _)

def matchNode (vector : List Nat) (node : Option RouterNode) (method path : Option Bytes)
    (ctx : Option Ctx) : Option MethodHandler × Option Ctx :=
  match node, method with
  | some node, some method =>
    matchLoop vector method [pushFrame node (path.getD []) (paramsCount ctx) false] ctx
  | _, _ => (none, ctx)

end Csilk.Routing
