import Csilk.Routing.TrieMap

namespace Csilk.Routing
open List

def Eligible (method : Bytes) (depth : Nat) (node : RouterNode) (path : Bytes)
    (ks : List Key) : Prop :=
  ks.length ≤ depth ∧ Matches ks path ∧ (findMethod (lookup node ks) method).isSome

/-- The least eligible keys: literals before parameters before wildcards, a node's own handlers
before its children. -/
def Best (method : Bytes) (depth : Nat) (node : RouterNode) (path : Bytes)
    (mh : MethodHandler) : Prop :=
  ∃ ks, Eligible method depth node path ks ∧ findMethod (lookup node ks) method = some mh ∧
    ∀ ks', Eligible method depth node path ks' → ks ≤ ks'

theorem nil_le_keys (ks : List Key) : [] ≤ ks := not_lt.1 (not_lt_nil ks)

theorem cons_le_cons_keys (h : ks ≤ ks') (k : Key) : k :: ks ≤ k :: ks' := by
  rw [← not_lt, cons_lt_cons_iff]
  rintro (hlt | ⟨-, hlt⟩)
  · exact lt_irrefl k hlt
  · exact h.not_gt hlt

theorem FirstSegment.unique (h : FirstSegment path seg rest) (h' : FirstSegment path seg' rest') :
    seg = seg' ∧ rest = rest' := by
  have he := h.getNextSegment.symm.trans h'.getNextSegment
  simpa using he

theorem matches_nil : Matches [] path ↔ path = [] ∨ path = [slash] := by
  constructor
  · rintro ⟨h⟩
    exact h
  · exact Matches.done

theorem matches_cons (k : Key) (ks : List Key) (path : Bytes) : Matches (k :: ks) path ↔
      match k.type with
      | .static => ∃ rest, FirstSegment path k.name rest ∧ Matches ks rest
      | .param => ∃ seg rest, FirstSegment path seg rest ∧ Matches ks rest
      | .wildcard => True := by
  obtain ⟨t, n⟩ := k
  constructor
  · intro h
    cases h with
    | static hs hm => exact ⟨_, hs, hm⟩
    | param hs hm => exact ⟨_, _, hs, hm⟩
    | wildcard => trivial
  · intro h
    cases t with
    | static =>
      obtain ⟨rest, hs, hm⟩ := h
      exact .static hs hm
    | param =>
      obtain ⟨seg, rest, hs, hm⟩ := h
      exact .param hs hm
    | wildcard => exact .wildcard

theorem terminalHandler_eq (method : Bytes) (node : RouterNode) (path : Bytes)
    (h : Matches [] path) : terminalHandler method node path = findMethod (lookup node []) method :=
  if_pos (matches_nil.1 h)

theorem terminalHandler_some (h : terminalHandler method node path = some mh) :
    Matches [] path ∧ findMethod (lookup node []) method = some mh := by
  unfold terminalHandler at h
  split at h
  · exact ⟨.done ‹_›, h⟩
  · cases h

theorem Eligible.terminal (h : Eligible method depth node path []) :
    (terminalHandler method node path).isSome := by
  rw [terminalHandler_eq method node path h.2.1]
  exact h.2.2

theorem best_terminal (h : terminalHandler method node path = some mh) :
    Best method depth node path mh := by
  obtain ⟨hm, hf⟩ := terminalHandler_some h
  exact ⟨[], ⟨Nat.zero_le _, hm, by rw [hf]; rfl⟩, hf, fun ks' _ => nil_le_keys ks'⟩

theorem Eligible.child (h : Eligible method depth node path (k :: ks)) :
    ∃ c ∈ node.children, c.key = k := by
  obtain ⟨-, -, hf⟩ := h
  rw [lookup] at hf
  split at hf
  · cases hf
  · rename_i c hc
    exact ⟨c, mem_of_find?_eq_some hc, by simpa using find?_some hc⟩

theorem Trie.lookup_child (h : Trie node) (hc : c ∈ node.children) (ks : List Key) :
    lookup node (c.key :: ks) = lookup c ks := by
  obtain ⟨pre, post, hch⟩ := append_of_mem hc
  exact (h.split hch).lookup_cons ks

theorem lookup_leaf (h : node.children = []) (k : Key) (ks : List Key) :
    lookup node (k :: ks) = [] := by
  rw [lookup, h]
  rfl

def ChildBest (method : Bytes) (depth : Nat) (node : RouterNode) (path : Bytes) (c : RouterNode)
    (found : Option (MethodHandler × Option Ctx)) : Prop :=
  match found with
  | none => ∀ ks, ¬Eligible method depth node path (c.key :: ks)
  | some r => ∃ ks, Eligible method depth node path (c.key :: ks) ∧
      findMethod (lookup node (c.key :: ks)) method = some r.1 ∧
      ∀ ks', Eligible method depth node path (c.key :: ks') → ks ≤ ks'

def SearchBest (method : Bytes) (depth : Nat) (node : RouterNode) (path : Bytes)
    (found : Option (MethodHandler × Option Ctx)) : Prop :=
  match found with
  | none => ∀ ks, ¬Eligible method depth node path ks
  | some r => Best method depth node path r.1

theorem ChildBest.of_search (hiff : ∀ ks, Eligible method (depth + 1) node path (c.key :: ks) ↔
      Eligible method depth c rest ks)
    (hlook : ∀ ks, lookup node (c.key :: ks) = lookup c ks)
    (h : SearchBest method depth c rest found) :
    ChildBest method (depth + 1) node path c found := by
  cases found with
  | none => exact fun ks he => h ks ((hiff ks).1 he)
  | some r =>
    obtain ⟨ks, he, hf, hmin⟩ := h
    exact ⟨ks, (hiff ks).2 he, by rw [hlook]; exact hf, fun ks' he' => hmin ks' ((hiff ks').1 he')⟩

theorem Trie.eligible_child (ht : Trie node) (hc : c ∈ node.children)
    (hs : FirstSegment path seg rest)
    (hty : c.type = .param ∨ c.type = .static ∧ c.segment = seg) (ks : List Key) :
    Eligible method (depth + 1) node path (c.key :: ks) ↔ Eligible method depth c rest ks := by
  have hm : Matches (c.key :: ks) path ↔ Matches ks rest := by
    rw [matches_cons]
    rcases hty with hty | ⟨hty, rfl⟩
    · simp only [RouterNode.key, hty]
      constructor
      · rintro ⟨seg', rest', hs', hm⟩
        rwa [(hs.unique hs').2]
      · exact fun hm => ⟨_, _, hs, hm⟩
    · simp only [RouterNode.key, hty]
      constructor
      · rintro ⟨rest', hs', hm⟩
        rwa [(hs.unique hs').2]
      · exact fun hm => ⟨_, hs, hm⟩
  simp only [Eligible, hm, ht.lookup_child hc, length_cons, Nat.add_le_add_iff_right]

theorem not_eligible_child {c : RouterNode} (hw : c.type ≠ .wildcard)
    (h : ∀ seg rest, FirstSegment path seg rest → c.type = .static ∧ c.segment ≠ seg)
    (ks : List Key) : ¬Eligible method depth node path (c.key :: ks) := by
  rintro ⟨-, hm, -⟩
  rw [matches_cons] at hm
  cases ht : c.type with
  | static =>
    simp only [RouterNode.key, ht] at hm
    obtain ⟨rest, hs, -⟩ := hm
    exact (h _ _ hs).2 rfl
  | param =>
    simp only [RouterNode.key, ht] at hm
    obtain ⟨seg, rest, hs, -⟩ := hm
    have := (h _ _ hs).1
    rw [ht] at this
    cases this
  | wildcard => exact hw ht

theorem Trie.eligible_wildcard (ht : Trie node) (hc : c ∈ node.children)
    (hw : c.type = .wildcard) (method : Bytes) (depth : Nat) (path : Bytes) (ks : List Key) :
    Eligible method (depth + 1) node path (c.key :: ks) ↔
      ks = [] ∧ (findMethod c.handlers method).isSome := by
  have hleaf : c.children = [] := by
    obtain ⟨-, -, below⟩ := ht
    obtain ⟨-, leaf, -⟩ := below c hc
    exact leaf hw
  have hm : Matches (c.key :: ks) path := by
    rw [matches_cons]
    simp only [RouterNode.key, hw]
  simp only [Eligible, hm, ht.lookup_child hc]
  cases ks with
  | nil => simp [lookup]
  | cons k ks => simp [lookup_leaf hleaf, findMethod]

theorem exploreChild_best (ht : Trie node) (hc : c ∈ node.children)
    (hsearch : ∀ rest ctx, SearchBest method depth c rest (search method depth c rest ctx)) :
    ChildBest method (depth + 1) node path c
      (exploreChild (search method depth) method path ctx c) := by
  unfold exploreChild
  split
  · rename_i seg p hty hg
    have hs := firstSegment_of_getNextSegment hg
    split
    · rename_i he
      exact .of_search (ht.eligible_child hc hs (.inr ⟨hty, he⟩)) (ht.lookup_child hc) (hsearch _ _)
    · rename_i he
      refine not_eligible_child (by rw [hty]; decide) ?_
      intro seg' rest' hs'
      exact ⟨hty, (hs.unique hs').1 ▸ he⟩
  · rename_i seg p hty hg
    have hs := firstSegment_of_getNextSegment hg
    exact .of_search (ht.eligible_child hc hs (.inl hty)) (ht.lookup_child hc) (hsearch _ _)
  · rename_i hty
    have hel := ht.eligible_wildcard hc hty method depth path
    cases hf : findMethod c.handlers method with
    | none =>
      intro ks he
      have := ((hel ks).1 he).2
      rw [hf] at this
      cases this
    | some mh =>
      refine ⟨[], (hel []).2 ⟨rfl, by rw [hf]; rfl⟩, ?_, fun ks' _ => nil_le_keys ks'⟩
      rw [ht.lookup_child hc]
      exact hf
  · rename_i hg hty
    refine not_eligible_child (fun h => hty h) ?_
    intro seg rest hs
    have := hs.getNextSegment.symm.trans hg
    cases this

theorem Trie.least_of_first (h : Trie node) (hch : node.children = pre ++ c :: post)
    (hterm : ¬Eligible method depth node path [])
    (hpre : ∀ d ∈ pre, ∀ ks, ¬Eligible method depth node path (d.key :: ks))
    (hmin : ∀ ks', Eligible method depth node path (c.key :: ks') → ks ≤ ks') :
    ∀ ks', Eligible method depth node path ks' → c.key :: ks ≤ ks' := by
  intro ks' he'
  cases ks' with
  | nil => exact absurd he' hterm
  | cons k' ks' =>
    obtain ⟨d, hd, rfl⟩ := he'.child
    rw [hch, mem_append, mem_cons] at hd
    rcases hd with hd | rfl | hd
    · exact absurd he' (hpre d hd ks')
    · exact cons_le_cons_keys (hmin ks' he') _
    · exact le_of_lt (cons_lt_cons_iff.2 (.inl ((h.split hch).above d hd)))

theorem search_best (method : Bytes) (depth : Nat) (h : Trie node) (path : Bytes) (ctx : Option Ctx) :
    SearchBest method depth node path (search method depth node path ctx) := by
  induction depth generalizing node path ctx with
  | zero =>
    rw [search]
    cases ht : terminalHandler method node path with
    | some mh => exact best_terminal ht
    | none =>
      intro ks he
      have hnil : ks = [] := eq_nil_of_length_eq_zero (Nat.le_zero.1 he.1)
      subst hnil
      have := he.terminal
      rw [ht] at this
      cases this
  | succ depth ih =>
    rw [search]
    cases ht : terminalHandler method node path with
    | some mh => exact best_terminal ht
    | none =>
      have below : ∀ c ∈ node.children, Trie c := by
        obtain ⟨-, -, below⟩ := h
        exact below
      have hchild : ∀ c ∈ node.children, ChildBest method (depth + 1) node path c
          (exploreChild (search method depth) method path ctx c) :=
        fun c hc => exploreChild_best h hc fun rest ctx => ih (below c hc) rest ctx
      have hterm : ¬Eligible method (depth + 1) node path [] := by
        intro he
        have := he.terminal
        rw [ht] at this
        cases this
      cases hfind : node.children.findSome? (exploreChild (search method depth) method path ctx) with
      | none =>
        intro ks he
        cases ks with
        | nil => exact hterm he
        | cons k ks =>
          obtain ⟨c, hc, rfl⟩ := he.child
          have hb := hchild c hc
          rw [findSome?_eq_none_iff.1 hfind c hc] at hb
          exact hb ks he
      | some r =>
        obtain ⟨pre, c, post, hch, hsome, hpre⟩ := findSome?_eq_some_iff.1 hfind
        have hb := hchild c (hch ▸ mem_append_right _ mem_cons_self)
        rw [hsome] at hb
        obtain ⟨ks, he, hf, hmin⟩ := hb
        refine ⟨c.key :: ks, he, hf, h.least_of_first hch hterm ?_ hmin⟩
        intro d hd
        have hb := hchild d (hch ▸ mem_append_left _ hd)
        rwa [hpre d hd] at hb

end Csilk.Routing
