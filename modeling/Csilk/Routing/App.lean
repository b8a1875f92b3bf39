import Csilk.Routing.GroupTree
import Mathlib.Data.List.Dedup
import Mathlib.Data.List.Perm.Subperm

namespace Csilk.Routing
open List Option Function

def csilkMaxGroups : Nat := 32

def prefixBufSize : Nat := 128

structure CachedGroup where
  groupPrefix : Bytes
  group : Nat

/-- `csilk_app_s`: its groups; `csilk_app_new` fails if there is no root group. -/
structure App where
  registry : Registry
  rootGroup : Nat
  groups : List CachedGroup

def csilkAppNew (r : Router) : App := ⟨⟨r, csilkGroupNew .empty (some [])⟩, 0, []⟩

def IsRoot (p : Bytes) : Prop := p = [] ∨ p = [slash]

instance (p : Bytes) : Decidable (IsRoot p) := inferInstanceAs (Decidable (_ ∨ _))

def findOrCreateGroup (app : App) (p : Bytes) : Option (App × Nat) :=
  if IsRoot p then some (app, app.rootGroup)
  else
    match app.groups.find? fun g => g.groupPrefix = p with
    | some g => some (app, g.group)
    | none =>
      if csilkMaxGroups ≤ app.groups.length then none
      else
        (csilkGroupGroup app.registry.groups app.rootGroup (some p)).map fun G =>
          let group := app.registry.groups.groups.length
          ({ app with
            registry := { app.registry with groups := G }
            groups := app.groups ++ [⟨p.take (prefixBufSize - 1), group⟩] }, group)

def csilkAppUseGroup (app : App) (p : Bytes) (h : Handler) : App :=
  match findOrCreateGroup app p with
  | none => app
  | some (app, group) =>
    match csilkGroupUse app.registry.groups group h with
    | none => app
    | some G => { app with registry := { app.registry with groups := G } }

structure BestMatch where
  bestGroup : Nat
  bestLen : Nat
  relativePath : Bytes

def AtBoundary (p path : Bytes) : Prop :=
  path.take p.length = p ∧ (path.drop p.length = [] ∨ (path.drop p.length).head? = some slash)

instance (p path : Bytes) : Decidable (AtBoundary p path) := inferInstanceAs (Decidable (_ ∧ _))

def considerGroup (path : Bytes) (m : BestMatch) (g : CachedGroup) : BestMatch :=
  if m.bestLen < g.groupPrefix.length ∧ AtBoundary g.groupPrefix path then
    ⟨g.group, g.groupPrefix.length, path.drop g.groupPrefix.length⟩
  else m

def findMatchingGroupForPath (app : App) (path : Bytes) : BestMatch :=
  app.groups.foldl (considerGroup path) ⟨app.rootGroup, 0, path⟩

def csilkAppAddHandlers (app : App) (method path : Bytes) (handlers : List Handler) : App :=
  if handlers = [] then app
  else
    let m := findMatchingGroupForPath app path
    { app with registry := (csilkGroupAddHandlers app.registry m.bestGroup (some method)
        (some m.relativePath) handlers).2 }

def csilkAppAddRoute (app : App) (method path : Bytes) (handler : Handler) : App :=
  let m := findMatchingGroupForPath app path
  { app with registry := (csilkGroupAddRoute app.registry m.bestGroup (some method)
      (some m.relativePath) handler).2 }

def cachedGroups (groups : List CachedGroup) : List (Option Nat × Option Bytes) :=
  (none, some []) :: groups.map fun g => (some 0, some g.groupPrefix)

def cachedUses (uses : List (Bytes × Handler)) (groups : List CachedGroup) : Nat → List Handler
  | 0 => (uses.filter fun u => IsRoot u.1).map Prod.snd
  | k + 1 => groups[k]?.elim [] fun g => (uses.filter fun u => u.1 = g.groupPrefix).map Prod.snd

structure Cached (ps : List Bytes) (uses : List (Bytes × Handler)) (app : App) : Prop where
  built : Built (cachedGroups app.groups) (cachedUses uses app.groups) app.registry
  rootGroup : app.rootGroup = 0
  group : ∀ k g, app.groups[k]? = some g → g.group = k + 1
  nodup : (app.groups.map CachedGroup.groupPrefix).Nodup
  prefixes : ∀ p, p ∈ app.groups.map CachedGroup.groupPrefix ↔ ¬IsRoot p ∧ p ∈ ps
  used : ∀ u ∈ uses, u.1 ∈ ps

theorem csilkAppNew_cached (hr : Trie r.root) (ht : r.root.type ≠ .wildcard) :
    Cached [] [] (csilkAppNew r) where
  built := by
    have hnone : cachedUses [] [] = fun _ => [] := by
      funext i
      cases i <;> rfl
    rw [csilkAppNew, hnone]
    exact (Built.mk rfl (by rintro _ _ ⟨⟩) (fun _ _ => rfl) hr ht :
      Built [] (fun _ => []) ⟨r, .empty⟩).new (some [])
  rootGroup := rfl
  group := by rintro _ _ ⟨⟩
  nodup := nodup_nil
  prefixes := by simp [csilkAppNew]
  used := by rintro _ ⟨⟩

theorem cachedUses_concat {groups : List CachedGroup} (hi : i ≤ groups.length) (hroot : i = 0 ↔ IsRoot p)
    (hgroup : ∀ k g, groups[k]? = some g → (i = k + 1 ↔ p = g.groupPrefix)) :
    cachedUses (uses ++ [(p, m)]) groups =
      update (cachedUses uses groups) i (cachedUses uses groups i ++ [m]) := by
  have hconcat (q : Bytes × Handler → Bool) : ((uses ++ [(p, m)]).filter q).map Prod.snd =
      (uses.filter q).map Prod.snd ++ if q (p, m) then [m] else [] := by
    rw [filter_append, map_append, filter_singleton]
    cases q (p, m) <;> rfl
  have hall (j : Nat) : cachedUses (uses ++ [(p, m)]) groups j =
      cachedUses uses groups j ++ if i = j then [m] else [] := by
    cases j with
    | zero =>
      rw [cachedUses, hconcat]
      simp only [hroot, decide_eq_true_eq, cachedUses]
    | succ k =>
      rw [cachedUses, cachedUses]
      cases hk : groups[k]? with
      | none =>
        rw [List.getElem?_eq_none_iff] at hk
        rw [if_neg (by omega)]
        rfl
      | some g =>
        rw [elim_some, hconcat]
        simp only [hgroup k g hk, decide_eq_true_eq, elim_some]
  funext j
  rw [hall]
  by_cases hj : i = j
  · subst hj
    rw [if_pos rfl, update_self]
  · rw [if_neg hj, update_of_ne (Ne.symm hj), append_nil]

theorem csilkGroupGroup_some (G : Groups) (i : Nat) (p : Option Bytes) (h : i < G.groups.length) :
    ∃ G', csilkGroupGroup G i p = some G' ∧ G'.groups.length = G.groups.length + 1 := by
  unfold csilkGroupGroup
  split
  · rename_i hnone
    rw [List.getElem?_eq_none_iff] at hnone
    omega
  · exact ⟨_, rfl, length_append⟩

section Cached

variable {ps : List Bytes} {uses : List (Bytes × Handler)} {app : App} (h : Cached ps uses app)
include h

theorem Cached.length : app.registry.groups.groups.length = app.groups.length + 1 := by
  rw [h.built.length, cachedGroups, length_cons, length_map]

theorem Cached.use (hG : csilkGroupUse app.registry.groups i m = some G)
    (hroot : i = 0 ↔ IsRoot p) (hgroup : ∀ k g, app.groups[k]? = some g → (i = k + 1 ↔ p = g.groupPrefix))
    (hp : p ∈ ps) :
    Cached ps (uses ++ [(p, m)]) { app with registry := { app.registry with groups := G } } := by
  have hlt := (ite_none_right_eq_some.1 hG).1
  rw [h.length] at hlt
  refine ⟨?_, h.rootGroup, h.group, h.nodup, h.prefixes, ?_⟩
  · rw [cachedUses_concat (Nat.le_of_lt_succ hlt) hroot hgroup]
    exact h.built.use hG
  · exact forall_mem_append.2 ⟨h.used, forall_mem_singleton.2 hp⟩

theorem Cached.useRoot (hp : IsRoot p) (hps : p ∈ ps) (m : Handler) : Cached ps (uses ++ [(p, m)]) { app with
    registry := { app.registry with groups := app.registry.groups.use 0 m } } := by
  have hlen := h.length
  refine h.use (if_pos (by omega)) (iff_of_true rfl hp) (fun k g hk => ?_) hps
  have hnot := ((h.prefixes _).1 (List.mem_map_of_mem (mem_of_getElem? hk))).1
  exact iff_of_false (by omega) fun he => hnot (he ▸ hp)

theorem Cached.useCached (hk : app.groups[k]? = some g) (m : Handler) :
    Cached ps (uses ++ [(g.groupPrefix, m)]) { app with
      registry := { app.registry with groups := app.registry.groups.use (k + 1) m } } := by
  have hlen := h.length
  have hlt := (List.getElem?_eq_some_iff.1 hk).1
  obtain ⟨hnot, hps⟩ := (h.prefixes _).1 (List.mem_map_of_mem (mem_of_getElem? hk))
  refine h.use (if_pos (by omega)) (iff_of_false (by omega) hnot) (fun k' g' hk' => ?_) hps
  rw [Nat.add_right_cancel_iff]
  constructor
  · rintro rfl
    rw [Option.some.inj (hk.symm.trans hk')]
  · intro he
    refine (getElem?_inj (by simpa using hlt) h.nodup).1 ?_
    rw [getElem?_map, getElem?_map, hk, hk', map_some, map_some, he]

theorem Cached.know (hp : ¬IsRoot p → p ∈ app.groups.map CachedGroup.groupPrefix) :
    Cached (ps ++ [p]) uses app := by
  refine { h with prefixes := fun q => ?_, used := fun u hu => mem_append_left _ (h.used u hu) }
  rw [h.prefixes q, mem_append]
  refine ⟨fun hq => ⟨hq.1, .inl hq.2⟩, ?_⟩
  rintro ⟨hq, hm | hm⟩
  · exact ⟨hq, hm⟩
  · cases mem_singleton.1 hm
    exact (h.prefixes p).1 (hp hq)

theorem Cached.add (hp : ¬IsRoot p) (hnew : p ∉ app.groups.map CachedGroup.groupPrefix)
    (hG : csilkGroupGroup app.registry.groups 0 (some p) = some G) :
    Cached (ps ++ [p]) uses { app with
        registry := { app.registry with groups := G }
        groups := app.groups ++ [⟨p, app.registry.groups.groups.length⟩] } := by
  have hlen := h.length
  have hout : ∀ u ∈ uses, u.1 ≠ p := by
    rintro u hu rfl
    exact hnew ((h.prefixes _).2 ⟨hp, h.used u hu⟩)
  have huses : cachedUses uses (app.groups ++ [⟨p, app.registry.groups.groups.length⟩]) =
      cachedUses uses app.groups := by
    funext i
    cases i with
    | zero => rfl
    | succ k =>
      rw [cachedUses, cachedUses, getElem?_append]
      split
      · rfl
      · rename_i hk
        rw [getElem?_eq_none (Nat.le_of_not_lt hk), getElem?_singleton]
        split
        · simpa using hout
        · rfl
  refine ⟨?_, h.rootGroup, ?_, ?_, ?_, fun u hu => mem_append_left _ (h.used u hu)⟩
  · rw [huses, cachedGroups, map_append]
    exact h.built.child hG
  · intro k g hk
    rcases getElem?_concat_some hk with hk | ⟨rfl, rfl⟩
    · exact h.group k g hk
    · exact hlen
  · rw [map_append]
    refine List.Nodup.append h.nodup (nodup_singleton p) ?_
    intro q hq hq'
    cases mem_singleton.1 hq'
    exact hnew hq
  · intro q
    rw [map_append, mem_append, mem_append, h.prefixes q, and_or_left]
    refine or_congr_right ?_
    rw [map_singleton, mem_singleton]
    exact ⟨fun hq => ⟨hq ▸ hp, hq⟩, And.right⟩

theorem Cached.useGroup (m : Handler) (hfit : p.length < prefixBufSize)
    (hroom : ¬IsRoot p → p ∉ app.groups.map CachedGroup.groupPrefix →
      app.groups.length < csilkMaxGroups) :
    Cached (ps ++ [p]) (uses ++ [(p, m)]) (csilkAppUseGroup app p m) := by
  have hlen := h.length
  have hmem : p ∈ ps ++ [p] := mem_append_right _ mem_cons_self
  unfold csilkAppUseGroup findOrCreateGroup
  by_cases hp : IsRoot p
  · rw [if_pos hp, h.rootGroup]
    dsimp only
    rw [csilkGroupUse, if_pos (by omega)]
    exact (h.know (absurd hp)).useRoot hp hmem m
  · rw [if_neg hp]
    cases hfind : app.groups.find? fun g => g.groupPrefix = p with
    | some g =>
      obtain rfl : g.groupPrefix = p := by simpa using find?_some hfind
      obtain ⟨k, hk⟩ := mem_iff_getElem?.1 (mem_of_find?_eq_some hfind)
      have hlt := (List.getElem?_eq_some_iff.1 hk).1
      dsimp only
      rw [h.group k g hk, csilkGroupUse, if_pos (by omega)]
      exact (h.know fun _ => List.mem_map_of_mem (mem_of_getElem? hk)).useCached hk m
    | none =>
      have hnew : p ∉ app.groups.map CachedGroup.groupPrefix := by
        intro hm
        obtain ⟨g, hg, he⟩ := List.mem_map.1 hm
        exact find?_eq_none.1 hfind g hg (decide_eq_true he)
      have hroom := hroom hp hnew
      obtain ⟨G, hG, hlen'⟩ := csilkGroupGroup_some app.registry.groups 0 (some p) (by omega)
      rw [← h.rootGroup] at hG
      dsimp only
      rw [if_neg (by omega), hG]
      dsimp only [map_some]
      rw [csilkGroupUse, if_pos (by omega), take_of_length_le (by omega), hlen]
      have hadd := h.add hp hnew (h.rootGroup ▸ hG)
      rw [hlen] at hadd
      exact hadd.useCached getElem?_concat_length m

end Cached

def useGroups (app : App) (uses : List (Bytes × Handler)) : App :=
  uses.foldl (fun app u => csilkAppUseGroup app u.1 u.2) app

theorem useGroups_cached (hr : Trie r.root) (ht : r.root.type ≠ .wildcard)
    (hdistinct : (uses.map Prod.fst).dedup.length ≤ csilkMaxGroups)
    (hfit : ∀ u ∈ uses, u.1.length < prefixBufSize) :
    Cached (uses.map Prod.fst) uses (useGroups (csilkAppNew r) uses) := by
  -- along the calls, the prefixes cached are some of all those used
  suffices hall : ∀ rest done, uses = done ++ rest →
      Cached (done.map Prod.fst) done (useGroups (csilkAppNew r) done) by
    exact hall [] uses (append_nil _).symm
  intro rest done
  induction done using List.reverseRecOn generalizing rest with
  | nil => exact fun _ => csilkAppNew_cached hr ht
  | append_singleton done u ih =>
    intro he
    rw [append_assoc] at he
    have hc := ih _ he
    rw [useGroups, foldl_append, map_append]
    refine hc.useGroup u.2 (hfit u (he ▸ by simp)) fun hroot hnew => ?_
    have hsub : u.1 :: (useGroups (csilkAppNew r) done).groups.map CachedGroup.groupPrefix ⊆
        (uses.map Prod.fst).dedup := by
      intro q hq
      rw [mem_dedup, he]
      rcases mem_cons.1 hq with rfl | hq
      · simp
      · have hm := ((hc.prefixes q).1 hq).2
        rw [map_append, mem_append]
        exact .inl hm
    have hle := (subperm_of_subset (nodup_cons.2 ⟨hnew, hc.nodup⟩) hsub).length_le
    rw [length_cons, length_map] at hle
    omega

end Csilk.Routing
