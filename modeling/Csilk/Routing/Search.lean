import Csilk.Routing.Match

namespace Csilk.Routing
open Csilk.Lib List

theorem cmpChunks_some (hl : s₁.length = s₂.length) (h : cmpChunks w s₁ s₂ = some (r₁, r₂)) :
    r₁.length = r₂.length ∧ (s₁ = s₂ ↔ r₁ = r₂) ∧ (0 < w → r₁.length < w) := by
  induction s₁, s₂ using cmpChunks.induct w with
  | case1 s₁ s₂ hw he ih =>
    rw [cmpChunks, dif_pos hw, if_pos he] at h
    obtain ⟨hlr, hiff, hlt⟩ := ih (by simp only [length_drop]; omega) h
    refine ⟨hlr, ?_, hlt⟩
    rw [← hiff]
    constructor
    · intro hs
      rw [hs]
    · intro hd
      rw [← take_append_drop w s₁, he, hd, take_append_drop]
  | case2 s₁ s₂ hw he =>
    rw [cmpChunks, dif_pos hw, if_neg he] at h
    cases h
  | case3 s₁ s₂ hw =>
    rw [cmpChunks, dif_neg hw] at h
    cases h
    exact ⟨hl, Iff.rfl, by omega⟩

theorem cmpChunks_none (h : cmpChunks w s₁ s₂ = none) : s₁ ≠ s₂ := by
  induction s₁, s₂ using cmpChunks.induct w with
  | case1 s₁ s₂ hw he ih =>
    rw [cmpChunks, dif_pos hw, if_pos he] at h
    intro hs
    exact ih h (by rw [hs])
  | case2 s₁ s₂ hw he =>
    intro hs
    exact he (by rw [hs])
  | case3 s₁ s₂ hw =>
    rw [cmpChunks, dif_neg hw] at h
    cases h

theorem cmpWidths_iff (ws : List Nat) (hl : s₁.length = s₂.length) :
    cmpWidths (ws ++ [1]) s₁ s₂ = true ↔ s₁ = s₂ := by
  induction ws generalizing s₁ s₂ with
  | nil =>
    simp only [nil_append, cmpWidths]
    split
    · rename_i hn
      simpa using cmpChunks_none hn
    · rename_i r₁ r₂ hs
      obtain ⟨hlr, hiff, hlt⟩ := cmpChunks_some hl hs
      have h₁ : r₁ = [] := eq_nil_of_length_eq_zero (by omega)
      have h₂ : r₂ = [] := eq_nil_of_length_eq_zero (by omega)
      simp [hiff, h₁, h₂]
  | cons w ws ih =>
    simp only [cons_append, cmpWidths]
    split
    · rename_i hn
      simpa using cmpChunks_none hn
    · rename_i hs
      obtain ⟨hlr, hiff, -⟩ := cmpChunks_some hl hs
      rw [ih hlr, hiff]

theorem csilkMemcmpFast_iff (vector : List Nat) (hl : s₁.length = s₂.length) :
    csilkMemcmpFast vector s₁ s₂ = true ↔ s₁ = s₂ := by
  have h := cmpWidths_iff (vector ++ [8, 4, 2]) hl
  rwa [append_assoc] at h

theorem segmentEq_iff (vector : List Nat) (ctx : Option Ctx) (hl : s₁.length = s₂.length) :
    segmentEq vector ctx s₁ s₂ = true ↔ s₁ = s₂ := by
  unfold segmentEq
  split
  · exact csilkMemcmpFast_iff vector hl
  · simp

theorem rollback_captureParam (ctx : Option Ctx) (key val : Bytes) :
    (if (captureParam ctx key val).2 then
      rollbackParam (captureParam ctx key val).1 (paramsCount ctx)
    else (captureParam ctx key val).1) = ctx := by
  cases ctx with
  | none => rfl
  | some c =>
    simp only [captureParam]
    split
    · rfl
    · simp [rollbackParam, paramsCount]

def exploreChild (visit : RouterNode → Bytes → Option Ctx → Option (MethodHandler × Option Ctx))
    (method path : Bytes) (ctx : Option Ctx) (child : RouterNode) :
    Option (MethodHandler × Option Ctx) :=
  match child.type, getNextSegment path with
  | .static, (some seg, p) => if child.segment = seg then visit child p ctx else none
  | .param, (some seg, p) => visit child p (captureParam ctx child.segment seg).1
  | .wildcard, _ =>
    (findMethod child.handlers method).map (·, (captureWildcardParam ctx child.segment path).1)
  | _, (none, _) => none

/-- Depth-first search below `node`, at most `depth` segments deep. -/
def search (method : Bytes) :
    Nat → RouterNode → Bytes → Option Ctx → Option (MethodHandler × Option Ctx)
  | 0, node, path, ctx => (terminalHandler method node path).map (·, ctx)
  | depth + 1, node, path, ctx =>
    ((terminalHandler method node path).map (·, ctx)).or
      (node.children.findSome? (exploreChild (search method depth) method path ctx))

def Frame.Scanned (f : Frame) : Prop := (f.seg, f.p) = getNextSegment f.path

theorem visitChild_cases (vector : List Nat) (method : Bytes) (hf : f.Scanned) (c : RouterNode)
    (ctx : Option Ctx) :
    (visitChild vector method f c ctx = .next ctx ∧
      ∀ visit, exploreChild visit method f.path ctx c = none) ∨
    (∃ p n added ctx', visitChild vector method f c ctx = .push (pushFrame c p n added) ctx' ∧
      backtrack (pushFrame c p n added) ctx' = ctx ∧
      ∀ visit, exploreChild visit method f.path ctx c = visit c p ctx') ∨
    (∃ mh ctx', visitChild vector method f c ctx = .hit mh ctx' ∧
      ∀ visit, exploreChild visit method f.path ctx c = some (mh, ctx')) := by
  unfold visitChild exploreChild
  rw [← show _ = getNextSegment f.path from hf]
  cases ht : c.type with
  | wildcard =>
    simp only [reduceCtorEq, false_and, and_false]
    cases findMethod c.handlers method with
    | some mh => exact .inr (.inr ⟨mh, _, rfl, fun _ => rfl⟩)
    | none => exact .inl ⟨congrArg Visit.next (rollback_captureParam ..), fun _ => rfl⟩
  | param =>
    cases f.seg with
    | none => exact .inl ⟨rfl, fun _ => rfl⟩
    | some seg =>
      exact .inr (.inl ⟨f.p, _, _, _, rfl, rollback_captureParam .., fun _ => rfl⟩)
  | static =>
    cases f.seg with
    | none => exact .inl ⟨by simp, fun _ => rfl⟩
    | some seg =>
      by_cases he : c.segment = seg
      · subst he
        refine .inr (.inl ⟨f.p, paramsCount ctx, false, ctx, ?_, rfl, fun _ => ?_⟩)
        · simp [segmentEq_iff]
        · simp
      · refine .inl ⟨?_, fun _ => if_neg he⟩
        split
        · rfl
        · refine if_neg ?_
          rintro ⟨hl, -, hc⟩
          exact he ((segmentEq_iff vector ctx hl).1 hc)

theorem matchLoop_terminal (hc : f.checkedTerminal = false)
    (ht : terminalHandler method f.node f.path = some mh) :
    matchLoop vector method (f :: stack) ctx = (some mh, ctx) := by
  rw [matchLoop, hc]
  simp only [Bool.false_eq_true, ↓reduceIte, ht]

theorem matchLoop_entered (ht : terminalHandler method f.node f.path = none) :
    matchLoop vector method (f :: stack) ctx =
      matchLoop vector method ({ f with checkedTerminal := true } :: stack) ctx := by
  rw [matchLoop, matchLoop]
  simp only [ht, ite_self]

theorem matchLoop_cut (hc : f.checkedTerminal = true)
    (hd : csilkRouterMaxDepth - 1 ≤ stack.length) :
    matchLoop vector method (f :: stack) ctx = matchLoop vector method stack (backtrack f ctx) := by
  rw [matchLoop, hc]
  simp only [if_pos hd]
  rfl

def Frame.atChild (f : Frame) (i : Nat) : Frame := { f with childIdx := i }

theorem scanChildren_atChild (vector : List Nat) (method : Bytes) (f : Frame) (k : Nat)
    (cs : List RouterNode) (i : Nat) (ctx : Option Ctx) :
    scanChildren vector method (f.atChild k) cs i ctx = scanChildren vector method f cs i ctx := by
  induction cs generalizing i ctx with
  | nil => rfl
  | cons c cs ih =>
    have hv : visitChild vector method (f.atChild k) c ctx = visitChild vector method f c ctx := rfl
    simp only [scanChildren, hv, ih]

theorem matchLoop_scan (hc : f.checkedTerminal = true)
    (hd : stack.length < csilkRouterMaxDepth - 1) (i : Nat) :
    matchLoop vector method (f.atChild i :: stack) ctx =
      match scanChildren vector method f (f.node.children.drop i) i ctx with
      | (_, .hit mh ctx') => (some mh, ctx')
      | (j, .push child ctx') => matchLoop vector method (child :: f.atChild j :: stack) ctx'
      | (_, .next ctx') => matchLoop vector method stack (backtrack f ctx') := by
  rw [← scanChildren_atChild vector method f i]
  obtain ⟨node, path, p, seg, childIdx, count, added, checked⟩ := f
  subst hc
  rw [matchLoop]
  simp only [Frame.atChild, if_neg (Nat.not_le_of_lt hd)]
  generalize scanChildren .. = r
  obtain ⟨j, v⟩ := r
  cases v <;> rfl

def resume (found : Option (MethodHandler × Option Ctx))
    (rest : Option MethodHandler × Option Ctx) : Option MethodHandler × Option Ctx :=
  match found with
  | some (mh, ctx) => (some mh, ctx)
  | none => rest

theorem matchLoop_children (hd : stack.length < csilkRouterMaxDepth - 1)
    (visit : RouterNode → Bytes → Option Ctx → Option (MethodHandler × Option Ctx))
    (hvisit : ∀ node path n added g ctx,
      matchLoop vector method (pushFrame node path n added :: g :: stack) ctx =
        resume (visit node path ctx) (matchLoop vector method (g :: stack)
          (backtrack (pushFrame node path n added) ctx)))
    (hc : f.checkedTerminal = true) (hs : f.Scanned) (cs : List RouterNode)
    (hcs : f.node.children.drop i = cs) :
    matchLoop vector method (f.atChild i :: stack) ctx =
      resume (cs.findSome? (exploreChild visit method f.path ctx))
        (matchLoop vector method stack (backtrack f ctx)) := by
  induction cs generalizing i with
  | nil =>
    rw [matchLoop_scan hc hd, hcs]
    rfl
  | cons c cs ih =>
    have hnext : f.node.children.drop (i + 1) = cs := by
      rw [← drop_drop, hcs, drop_one, tail_cons]
    rw [matchLoop_scan hc hd, hcs, scanChildren, findSome?_cons]
    rcases visitChild_cases vector method hs c ctx with
      ⟨hv, he⟩ | ⟨p, n, added, ctx', hv, hb, he⟩ | ⟨mh, ctx', hv, he⟩
    · rw [hv, he, ← ih hnext, matchLoop_scan hc hd, hnext]
    · simp only [hv, he, hvisit, hb, ih hnext]
      cases visit c p ctx' <;> rfl
    · rw [hv, he]
      rfl

theorem matchLoop_search (depth : Nat) (hd : stack.length + depth = csilkRouterMaxDepth - 1)
    (node : RouterNode) (path : Bytes) (n : Nat) (added : Bool) (ctx : Option Ctx) :
    matchLoop vector method (pushFrame node path n added :: stack) ctx =
      resume (search method depth node path ctx)
        (matchLoop vector method stack (backtrack (pushFrame node path n added) ctx)) := by
  induction depth generalizing stack node path n added ctx with
  | zero =>
    cases ht : terminalHandler method node path with
    | some mh =>
      rw [matchLoop_terminal rfl ht, search, ht]
      rfl
    | none =>
      rw [matchLoop_entered ht, matchLoop_cut rfl (by omega), search, ht]
      rfl
  | succ depth ih =>
    cases ht : terminalHandler method node path with
    | some mh =>
      rw [matchLoop_terminal rfl ht, search, ht]
      rfl
    | none =>
      rw [matchLoop_entered ht, search, ht]
      exact matchLoop_children (f := { pushFrame node path n added with checkedTerminal := true })
        (by omega) (search method depth)
        (fun node path n added g ctx => ih (by simp only [length_cons]; omega) ..)
        rfl rfl node.children rfl

theorem matchNode_search (vector : List Nat) (node : RouterNode) (method path : Bytes)
    (ctx : Option Ctx) :
    matchNode vector (some node) (some method) (some path) ctx =
      resume (search method (csilkRouterMaxDepth - 1) node path ctx) (none, ctx) := by
  simp only [matchNode]
  rw [matchLoop_search (csilkRouterMaxDepth - 1) (by simp), matchLoop]
  rfl

/-- A search that fails drops what it captured; how wide the vectors are does not matter. -/
theorem matchNode_rolls_back (vector vector' : List Nat) (node : RouterNode) (method path : Bytes)
    (ctx : Option Ctx) :
    let found := matchNode vector (some node) (some method) (some path) ctx
    found = matchNode vector' (some node) (some method) (some path) ctx ∧
      (found.1 = none → found.2 = ctx) := by
  simp only [matchNode_search, true_and]
  cases search method (csilkRouterMaxDepth - 1) node path ctx with
  | none => exact fun _ => rfl
  | some => rintro ⟨⟩

end Csilk.Routing
