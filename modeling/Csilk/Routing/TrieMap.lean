import Csilk.Routing.Pattern

namespace Csilk.Routing
open Csilk.Lib List

/-- The children are strictly sorted by key, and nothing hangs below a wildcard. -/
inductive Trie : RouterNode → Prop
  | mk (sorted : node.children.Pairwise fun a b => a.key < b.key)
      (leaf : node.type = .wildcard → node.children = [])
      (below : ∀ c ∈ node.children, Trie c) : Trie node

def lookup (node : RouterNode) : List Key → List MethodHandler
  | [] => node.handlers
  | k :: ks =>
    match node.children.find? (·.key = k) with
    | none => []
    | some c => lookup c ks

def insertHandler (mh : MethodHandler) (hs : List MethodHandler) : List MethodHandler :=
  if hs.any (·.method = mh.method) then hs else mh :: hs

theorem addHandler_eq (mh : MethodHandler) (node : RouterNode) :
    addHandler mh node = (0, { node with handlers := insertHandler mh node.handlers }) := by
  cases node
  unfold addHandler insertHandler
  split <;> rfl

theorem Trie.withHandlers (h : Trie node) (hs : List MethodHandler) :
    Trie { node with handlers := hs } := by
  obtain ⟨sorted, leaf, below⟩ := h
  exact ⟨sorted, leaf, below⟩

theorem Trie.sortedFor (h : Trie node) (t : NodeType) (n : Bytes) :
    SortedFor (nodeCmpKey t n) node.children := by
  obtain ⟨sorted, -, -⟩ := h
  refine List.Pairwise.imp ?_ sorted
  intro a b hab hne
  rw [ne_eq, nodeCmpKey_gt_iff, not_lt] at hne
  exact (nodeCmpKey_lt_iff t n b).2 (hne.trans_lt hab)

theorem nodeNew_trie (n : Bytes) (t : NodeType) : Trie (nodeNew n t) :=
  ⟨List.Pairwise.nil, fun _ => rfl, fun _ h => absurd h not_mem_nil⟩

theorem lookup_nodeNew (n : Bytes) (t : NodeType) (ks : List Key) : lookup (nodeNew n t) ks = [] := by
  cases ks <;> rfl

structure SplitAt (node : RouterNode) (k : Key) (pre : List RouterNode) (c : RouterNode)
    (post : List RouterNode) : Prop where
  children : node.children = pre ++ c :: post
  key : c.key = k
  below : ∀ a ∈ pre, a.key < k
  above : ∀ b ∈ post, k < b.key

theorem SplitAt.find (h : SplitAt node k pre c post) (k' : Key) : node.children.find? (·.key = k') =
      if k' = k then some c else (pre ++ post).find? (·.key = k') := by
  obtain ⟨hch, hkey, hbelow, -⟩ := h
  rw [hch]
  by_cases hk : k' = k
  · subst hk
    have hpre : pre.find? (·.key = k') = none := by
      rw [find?_eq_none]
      intro a ha he
      exact (hbelow a ha).ne (by simpa using he)
    simp [hpre, hkey]
  · simp [hk, hkey, Ne.symm hk]

def withChild (node : RouterNode) (pre : List RouterNode) (c : RouterNode)
    (post : List RouterNode) : RouterNode :=
  { node with children := pre ++ c :: post }

theorem Trie.withChild (ht : node.type ≠ .wildcard)
    (sorted : (pre ++ post).Pairwise fun a b => a.key < b.key)
    (below : ∀ d ∈ pre ++ post, Trie d) (hpre : ∀ a ∈ pre, a.key < c.key)
    (hpost : ∀ b ∈ post, c.key < b.key) (hc : Trie c) : Trie (withChild node pre c post) := by
  obtain ⟨spre, spost, cross⟩ := pairwise_append.1 sorted
  refine ⟨?_, fun h => absurd h ht, ?_⟩
  · refine pairwise_append.2 ⟨spre, pairwise_cons.2 ⟨hpost, spost⟩, ?_⟩
    intro a ha b hb
    cases hb with
    | head => exact hpre a ha
    | tail _ hb => exact cross a ha b hb
  · intro d hd
    rcases mem_append.1 hd with hd | hd
    · exact below d (mem_append_left _ hd)
    · cases hd with
      | head => exact hc
      | tail _ hd => exact below d (mem_append_right _ hd)

theorem Trie.split (h : Trie node) (hch : node.children = pre ++ c :: post) :
    SplitAt node c.key pre c post := by
  obtain ⟨sorted, -, -⟩ := h
  rw [hch, pairwise_append, pairwise_cons] at sorted
  obtain ⟨-, ⟨hpost, -⟩, cross⟩ := sorted
  exact ⟨hch, rfl, fun a ha => cross a ha c mem_cons_self, hpost⟩

theorem insertIdx_append_length (pre post : List α) (x : α) :
    (pre ++ post).insertIdx pre.length x = pre ++ x :: post := by
  induction pre with
  | nil => rfl
  | cons a pre ih => simp [ih]

theorem findOrAddChild_spec (h : Trie curr) (ht : curr.type ≠ .wildcard) (t : NodeType)
    (n : Bytes) :
    ∃ pre c post, findOrAddChild curr t n = some (withChild curr pre c post, pre.length) ∧
      SplitAt (withChild curr pre c post) ⟨t, n⟩ pre c post ∧ Trie (withChild curr pre c post) ∧
      ∀ ks, lookup (withChild curr pre c post) ks = lookup curr ks := by
  rcases binarySearch_spec (h.sortedFor t n) with
    ⟨pre, c, post, hch, hcmp, hr⟩ | ⟨pre, post, hch, hgt, hlt, hr⟩
  · have hkey := (nodeCmpKey_eq_iff t n c).1 hcmp
    have hsame : withChild curr pre c post = curr := by
      cases curr
      simp only at hch
      rw [withChild, hch]
    refine ⟨pre, c, post, ?_, ?_, ?_, ?_⟩
    · rw [hsame]
      unfold findOrAddChild nodeFindChild
      simp [hr]
    · rw [hsame, hkey]
      exact h.split hch
    · rw [hsame]
      exact h
    · rw [hsame]
      exact fun _ => rfl
  · have hpre : ∀ a ∈ pre, a.key < ⟨t, n⟩ := fun a ha => (nodeCmpKey_gt_iff t n a).1 (hgt a ha)
    have hpost : ∀ b ∈ post, (⟨t, n⟩ : Key) < b.key :=
      fun b hb => (nodeCmpKey_lt_iff t n b).1 (hlt b hb)
    have hsplit : SplitAt (withChild curr pre (nodeNew n t) post) ⟨t, n⟩ pre (nodeNew n t) post :=
      ⟨rfl, rfl, hpre, hpost⟩
    refine ⟨pre, nodeNew n t, post, ?_, hsplit, ?_, ?_⟩
    · simp only [findOrAddChild, nodeFindChild, hr, nodeAddChild]
      have hle : (pre.length : Int) ≤ pre.length + post.length := by omega
      simp [hch, withChild, insertIdx_append_length, hle]
    · obtain ⟨sorted, -, below⟩ := h
      rw [hch] at sorted below
      exact Trie.withChild ht sorted below hpre hpost (nodeNew_trie n t)
    · intro ks
      cases ks with
      | nil => rfl
      | cons k ks =>
        rw [lookup, hsplit.find, lookup, hch]
        by_cases hk : k = ⟨t, n⟩
        · have hnone : (pre ++ post).find? (·.key = k) = none := by
            rw [find?_eq_none]
            intro a ha he
            rcases mem_append.1 ha with ha | ha
            · exact (hpre a ha).ne (by simpa [hk] using he)
            · exact (hpost a ha).ne' (by simpa [hk] using he)
          rw [if_pos hk, hnone]
          exact lookup_nodeNew n t ks
        · rw [if_neg hk]

theorem lookup_withChild (hs : SplitAt node k pre c post) (hkey : c'.key = k) (ks : List Key) :
    lookup (withChild node pre c' post) ks = match ks with
      | [] => node.handlers
      | k' :: ks' => if k' = k then lookup c' ks' else lookup node ks := by
  have hs' : SplitAt (withChild node pre c' post) k pre c' post := ⟨rfl, hkey, hs.below, hs.above⟩
  cases ks with
  | nil => rfl
  | cons k' ks' =>
    simp only [lookup, hs'.find, hs.find]
    by_cases hk : k' = k
    · simp [hk]
    · simp [hk]

section

variable (h : SplitAt node k pre c post)
include h

theorem SplitAt.mem : c ∈ node.children := by
  rw [h.children]
  exact mem_append_right _ mem_cons_self

theorem SplitAt.replace (hn : Trie node) (hkey : c'.key = k)
    (hc : Trie c') : Trie (withChild node pre c' post) := by
  obtain ⟨sorted, leaf, below⟩ := hn
  have ht : node.type ≠ .wildcard := fun ht => absurd (leaf ht) (by simp [h.children])
  have hsub : (pre ++ post).Sublist node.children := by
    rw [h.children]
    exact (sublist_cons_self c post).append_left pre
  exact Trie.withChild ht (sorted.sublist hsub) (fun d hd => below d (hsub.subset hd))
    (hkey ▸ h.below) (hkey ▸ h.above) hc

theorem SplitAt.lookup_cons (ks : List Key) :
    lookup node (k :: ks) = lookup c ks := by
  rw [lookup, h.find, if_pos rfl]

theorem SplitAt.lookup_update (hkey : c'.key = k)
    (hl : ∀ ks, lookup c' ks =
      if ks = kt then insertHandler mh (lookup c ks) else lookup c ks) (ks : List Key) :
    lookup (withChild node pre c' post) ks =
      if ks = k :: kt then insertHandler mh (lookup node ks) else lookup node ks := by
  rw [lookup_withChild h hkey]
  cases ks with
  | nil => rfl
  | cons k' ks =>
    simp only [List.cons.injEq]
    by_cases hk : k' = k
    · subst hk
      simp only [↓reduceIte, true_and, hl, h.lookup_cons]
    · simp only [hk, ↓reduceIte, false_and]

end

theorem addHandler_lookup (mh : MethodHandler) (node : RouterNode) (ks : List Key) :
    lookup (addHandler mh node).2 ks =
      if ks = [] then insertHandler mh (lookup node ks) else lookup node ks := by
  rw [addHandler_eq]
  cases ks <;> rfl

theorem addHandler_trie (mh : MethodHandler) (h : Trie node) : Trie (addHandler mh node).2 := by
  rw [addHandler_eq]
  exact h.withHandlers _

theorem addSegments_spec (mh : MethodHandler) (curr : RouterNode) (p : Bytes) (h : Trie curr)
    (ht : curr.type ≠ .wildcard) :
    (addSegments mh curr p).1 = 0 ∧ (addSegments mh curr p).2.key = curr.key ∧
      Trie (addSegments mh curr p).2 ∧
      ∀ ks, lookup (addSegments mh curr p).2 ks =
        if ks = patternKeys p then insertHandler mh (lookup curr ks) else lookup curr ks := by
  induction hlen : p.length using Nat.strong_induction_on generalizing curr p with
  | _ len ih =>
  rw [addSegments]
  split
  · rename_i hg
    rw [patternKeys_none (by rw [hg])]
    refine ⟨?_, ?_, addHandler_trie mh h, addHandler_lookup mh curr⟩
    · rw [addHandler_eq]
    · rw [addHandler_eq]
      rfl
  · rename_i seg p' hg
    have hlt := getNextSegment_shrinks hg
    obtain ⟨pre, c, post, hfind, hs, htrie, hlook⟩ :=
      findOrAddChild_spec h ht (segmentKind seg).1 (segmentKind seg).2
    have hc : Trie c := by
      obtain ⟨-, -, below⟩ := htrie
      exact below c hs.mem
    have hget : (withChild curr pre c post).children[pre.length]? = some c := by
      simp [withChild]
    have hset (c' : RouterNode) : { withChild curr pre c post with
        children := (withChild curr pre c post).children.set pre.length c' } =
        withChild (withChild curr pre c post) pre c' post := by
      simp [withChild]
    have hct : c.type = (segmentKind seg).1 := congrArg Key.type hs.key
    simp only [hfind, hget, hset, patternKeys_some hg, ← hlook]
    by_cases hw : (segmentKind seg).1 = .wildcard
    · have hw' : (segmentKey seg).type = .wildcard := hw
      rw [if_pos hw, if_pos hw']
      have hkey : (addHandler mh c).2.key = segmentKey seg := by
        rw [addHandler_eq]
        exact hs.key
      refine ⟨?_, rfl, hs.replace htrie hkey (addHandler_trie mh hc),
        hs.lookup_update hkey (addHandler_lookup mh c)⟩
      rw [addHandler_eq]
    · have hw' : ¬(segmentKey seg).type = .wildcard := hw
      rw [if_neg hw, if_neg hw']
      obtain ⟨hrc, hkey, htr, hl⟩ := ih p'.length (by omega) c p' hc (by rwa [hct]) rfl
      have hkey' : (addSegments mh c p').2.key = segmentKey seg := hkey.trans hs.key
      exact ⟨hrc, rfl, hs.replace htrie hkey' htr, hs.lookup_update hkey' hl⟩

end Csilk.Routing
