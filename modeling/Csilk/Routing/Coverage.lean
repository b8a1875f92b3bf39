import Csilk.Routing.App

namespace Csilk.Routing
open List

def components (p : Bytes) : List Bytes := (p.splitOnP (· = slash)).rdropWhile (· = [])

def Covers (p path : Bytes) : Prop := components p <+: components path

instance (p path : Bytes) : Decidable (Covers p path) :=
  inferInstanceAs (Decidable (components p <+: components path))

/-- The middleware of every call whose prefix covers the path, shorter prefixes first, then the
route's handlers. -/
def Covered (uses : List (Bytes × Handler)) (path : Bytes) (handlers chain : List Handler) : Prop :=
  ∃ us, List.Perm us (uses.filter fun u => Covers u.1 path) ∧
    us.Pairwise (fun u v => (components u.1).length ≤ (components v.1).length) ∧
    (us.map Prod.snd ++ handlers).Sublist chain

def Longest (uses : List (Bytes × Handler)) (path p : Bytes) : Prop :=
  AtBoundary p path ∧ ∀ u ∈ uses, ¬IsRoot u.1 → AtBoundary u.1 path → u.1.length ≤ p.length

instance (uses : List (Bytes × Handler)) (path p : Bytes) : Decidable (Longest uses path p) :=
  inferInstanceAs (Decidable (_ ∧ _))

theorem components_of_isRoot (h : IsRoot p) : components p = [] := by
  rcases h with rfl | rfl <;> decide

theorem Covers.of_isRoot (h : IsRoot p) (path : Bytes) : Covers p path := by
  rw [Covers, components_of_isRoot h]
  exact nil_prefix

theorem AtBoundary.split (h : AtBoundary p path) :
    path = p ∨ ∃ rest, path = p ++ slash :: rest := by
  obtain ⟨htake, hrest⟩ := h
  have hpath := take_append_drop p.length path
  rw [htake] at hpath
  rcases hrest with hrest | hrest
  · rw [hrest, append_nil] at hpath
    exact .inl hpath.symm
  · obtain ⟨rest, hrest⟩ := head?_eq_some_iff.1 hrest
    exact .inr ⟨rest, by rw [← hrest, hpath]⟩

theorem rdropWhile_prefix_append (q : α → Bool) (l l' : List α) :
    l.rdropWhile q <+: (l ++ l').rdropWhile q := by
  induction l' using List.reverseRecOn with
  | nil => simp only [append_nil, prefix_rfl]
  | append_singleton l' x ih =>
    rw [← append_assoc, rdropWhile_concat]
    split
    · exact ih
    · exact (l.rdropWhile_prefix q).trans ((prefix_append _ _).trans (prefix_append _ _))

theorem Covers.of_atBoundary (h : AtBoundary p path) : Covers p path := by
  rcases h.split with rfl | ⟨rest, rfl⟩
  · exact prefix_rfl
  · rw [Covers, components, components, splitOnP_append_cons _ _ (by simp)]
    exact rdropWhile_prefix_append _ _ _

theorem AtBoundary.segments (h : AtBoundary p path) :
    segments p ++ segments (path.drop p.length) = segments path := by
  rcases h.split with rfl | ⟨rest, rfl⟩
  · rw [drop_length]
    exact append_nil _
  · rw [drop_left, segments_slash, segments_append_slash]

theorem AtBoundary.eq (h : AtBoundary p path) (h' : AtBoundary q path)
    (hlen : p.length = q.length) : p = q := by
  rw [← h.1, ← h'.1, hlen]

theorem foldl_considerGroup (path : Bytes) (gs : List CachedGroup) (m : BestMatch) :
    m.bestLen ≤ (gs.foldl (considerGroup path) m).bestLen ∧
      (∀ g ∈ gs, AtBoundary g.groupPrefix path →
        g.groupPrefix.length ≤ (gs.foldl (considerGroup path) m).bestLen) ∧
      (gs.foldl (considerGroup path) m = m ∨
        ∃ g ∈ gs, AtBoundary g.groupPrefix path ∧ gs.foldl (considerGroup path) m =
          ⟨g.group, g.groupPrefix.length, path.drop g.groupPrefix.length⟩) := by
  induction gs generalizing m with
  | nil => exact ⟨le_rfl, nofun, .inl rfl⟩
  | cons g gs ih =>
    rw [foldl_cons]
    obtain ⟨hle, hall, hfrom⟩ := ih (considerGroup path m g)
    have hstep : m.bestLen ≤ (considerGroup path m g).bestLen ∧ (AtBoundary g.groupPrefix path →
          g.groupPrefix.length ≤ (considerGroup path m g).bestLen) := by
      unfold considerGroup
      split
      · rename_i h
        exact ⟨h.1.le, fun _ => le_rfl⟩
      · rename_i h
        exact ⟨le_rfl, fun hb => not_lt.1 fun hlt => h ⟨hlt, hb⟩⟩
    refine ⟨hstep.1.trans hle, ?_, ?_⟩
    · intro g' hg' hb
      rcases mem_cons.1 hg' with rfl | hg'
      · exact (hstep.2 hb).trans hle
      · exact hall g' hg' hb
    · rcases hfrom with hfrom | ⟨g', hg', hb, hfrom⟩
      · rw [hfrom]
        unfold considerGroup
        split
        · rename_i h
          exact .inr ⟨g, mem_cons_self, h.2, rfl⟩
        · exact .inl rfl
      · exact .inr ⟨g', mem_cons_of_mem _ hg', hb, hfrom⟩

/-- The middlewares of the root prefixes and those of the longest prefix. -/
def chainOf (uses : List (Bytes × Handler)) (best : Option Bytes) : List Handler :=
  (uses.filter fun u => IsRoot u.1).map Prod.snd ++
    (uses.filter fun u => best = some u.1).map Prod.snd

theorem chainOf_none (uses : List (Bytes × Handler)) :
    chainOf uses none = (uses.filter fun u => IsRoot u.1).map Prod.snd := by
  have hnil : (uses.filter fun u => (none : Option Bytes) = some u.1) = [] :=
    filter_eq_nil_iff.2 (by simp)
  rw [chainOf, hnil]
  exact append_nil _

theorem lineage_group {groups : List CachedGroup} (hk : groups[k]? = some g) :
    Lineage (cachedGroups groups) (k + 1) [0, k + 1] ∧
      declaredSegments (cachedGroups groups) (k + 1) = segments g.groupPrefix := by
  have hd : (cachedGroups groups)[k + 1]? = some (some 0, some g.groupPrefix) := by
    rw [cachedGroups, getElem?_cons_succ, getElem?_map, hk]
    rfl
  refine ⟨.child hd (.root rfl), ?_⟩
  rw [declaredSegments, hd]
  rfl

theorem Cached.best (h : Cached (uses.map Prod.fst) uses app) (path : Bytes) :
    ∃ best is, Lineage (cachedGroups app.groups) (findMatchingGroupForPath app path).bestGroup is ∧
      is.flatMap (cachedUses uses app.groups) = chainOf uses best ∧
      is.flatMap (declaredSegments (cachedGroups app.groups)) ++
        segments (findMatchingGroupForPath app path).relativePath = segments path ∧
      (∀ p, best = some p → ¬IsRoot p ∧ AtBoundary p path) ∧
      ∀ u ∈ uses, ¬IsRoot u.1 → (Longest uses path u.1 ↔ best = some u.1) := by
  have hroot : Lineage (cachedGroups app.groups) 0 [0] := .root rfl
  have hnil : declaredSegments (cachedGroups app.groups) 0 = [] := rfl
  have hcached {u : Bytes × Handler} (hu : u ∈ uses) (hr : ¬IsRoot u.1) :
      ∃ g ∈ app.groups, g.groupPrefix = u.1 :=
    List.mem_map.1 ((h.prefixes u.1).2 ⟨hr, List.mem_map_of_mem hu⟩)
  obtain ⟨-, hmax, hfrom⟩ := foldl_considerGroup path app.groups ⟨app.rootGroup, 0, path⟩
  change ∀ g ∈ app.groups, AtBoundary g.groupPrefix path →
    g.groupPrefix.length ≤ (findMatchingGroupForPath app path).bestLen at hmax
  rcases hfrom with hfrom | ⟨g, hg, hb, hfrom⟩
  · change findMatchingGroupForPath app path = _ at hfrom
    rw [hfrom] at hmax ⊢
    refine ⟨none, [0], h.rootGroup ▸ hroot, ?_, ?_, by rintro _ ⟨⟩, ?_⟩
    · rw [flatMap_singleton, cachedUses, chainOf_none]
    · rw [flatMap_singleton, hnil, nil_append]
    · intro u hu hr
      refine iff_of_false (fun hl => ?_) (by rintro ⟨⟩)
      obtain ⟨g, hg, he⟩ := hcached hu hr
      have hle := hmax g hg (he ▸ hl.1)
      rw [he] at hle
      exact hr (.inl (length_eq_zero_iff.1 (Nat.le_zero.1 hle)))
  · change findMatchingGroupForPath app path = _ at hfrom
    rw [hfrom] at hmax ⊢
    obtain ⟨k, hk⟩ := mem_iff_getElem?.1 hg
    obtain ⟨hl, hseg⟩ := lineage_group hk
    obtain ⟨hgr, hgu⟩ := (h.prefixes g.groupPrefix).1 (List.mem_map_of_mem hg)
    refine ⟨some g.groupPrefix, [0, k + 1], h.group k g hk ▸ hl, ?_, ?_, ?_, ?_⟩
    · rw [flatMap_cons, flatMap_singleton, cachedUses, cachedUses, hk, chainOf]
      simp only [Option.some.injEq, eq_comm, Option.elim_some]
    · rw [flatMap_cons, flatMap_singleton, hnil, hseg]
      exact hb.segments
    · rintro _ ⟨rfl⟩
      exact ⟨hgr, hb⟩
    · intro u hu hr
      constructor
      · rintro ⟨hub, hul⟩
        obtain ⟨g', hg', he⟩ := hcached hu hr
        have hle := hmax g' hg' (he ▸ hub)
        rw [he] at hle
        obtain ⟨v, hv, hve⟩ := List.mem_map.1 hgu
        have hge := hul v hv (hve ▸ hgr) (hve ▸ hb)
        rw [hve] at hge
        rw [hb.eq hub (le_antisymm hge hle)]
      · intro he
        rw [← Option.some.inj he]
        refine ⟨hb, fun v hv hvr hvb => ?_⟩
        obtain ⟨g', hg', he⟩ := hcached hv hvr
        rw [← he] at hvb ⊢
        exact hmax g' hg' hvb

theorem filter_append_perm_or {P Q : α → Prop} [DecidablePred P] [DecidablePred Q]
    (h : ∀ a, P a → ¬Q a) (l : List α) :
    List.Perm ((l.filter fun a => P a) ++ l.filter fun a => Q a) (l.filter fun a => P a ∨ Q a) := by
  have hperm := filter_append_perm (fun a => decide (P a)) (l.filter fun a => P a ∨ Q a)
  rw [filter_filter, filter_filter] at hperm
  convert hperm using 2
  · apply filter_congr
    intro a _
    by_cases hP : P a <;> simp [hP]
  · apply filter_congr
    intro a _
    by_cases hP : P a
    · simp [h a hP]
    · simp [hP]

theorem covered_chainOf_iff (hbest : ∀ p, best = some p → ¬IsRoot p ∧ AtBoundary p path)
    (uses : List (Bytes × Handler)) (handlers : List Handler) :
    Covered uses path handlers (chainOf uses best ++ handlers) ↔
      ∀ u ∈ uses, Covers u.1 path → IsRoot u.1 ∨ best = some u.1 := by
  have hsplit : List.Perm
      ((uses.filter fun u => IsRoot u.1) ++ uses.filter fun u => best = some u.1)
      (uses.filter fun u => IsRoot u.1 ∨ best = some u.1) :=
    filter_append_perm_or (fun u hr hb => (hbest _ hb).1 hr) uses
  have hcovers (u : Bytes × Handler) (hu : IsRoot u.1 ∨ best = some u.1) : Covers u.1 path := by
    rcases hu with hu | hu
    · exact .of_isRoot hu path
    · exact .of_atBoundary (hbest _ hu).2
  have hsub : (uses.filter fun u => IsRoot u.1 ∨ best = some u.1).Sublist
      (uses.filter fun u => Covers u.1 path) :=
    monotone_filter_right _ fun u hu => decide_eq_true (hcovers u (of_decide_eq_true hu))
  have hlen : (chainOf uses best).length =
      (uses.filter fun u => IsRoot u.1 ∨ best = some u.1).length := by
    rw [← hsplit.length_eq, chainOf, length_append, length_append, length_map,
      length_map]
  constructor
  · rintro ⟨us, hperm, -, hs⟩
    have hle := hs.length_le
    rw [length_append, length_append, length_map, hperm.length_eq] at hle
    have heq := hsub.eq_of_length_le (by omega)
    intro u hu hc
    have hm : u ∈ uses.filter fun u => Covers u.1 path :=
      mem_filter.2 ⟨hu, decide_eq_true hc⟩
    rw [← heq] at hm
    exact of_decide_eq_true (mem_filter.1 hm).2
  · intro hall
    have heq : (uses.filter fun u => Covers u.1 path) =
        uses.filter fun u => IsRoot u.1 ∨ best = some u.1 := by
      refine filter_congr fun u hu => ?_
      rw [decide_eq_decide]
      exact ⟨hall u hu, hcovers u⟩
    refine ⟨_, heq ▸ hsplit, ?_, ?_⟩
    -- root prefixes have no components, and the others are one and the same
    · refine pairwise_append.2 ⟨?_, ?_, ?_⟩
      · refine pairwise_of_forall_mem_list fun u hu v _ => ?_
        rw [components_of_isRoot (of_decide_eq_true (mem_filter.1 hu).2)]
        exact Nat.zero_le _
      · refine pairwise_of_forall_mem_list fun u hu v hv => ?_
        have hu := of_decide_eq_true (mem_filter.1 hu).2
        have hv := of_decide_eq_true (mem_filter.1 hv).2
        rw [Option.some.inj (hu.symm.trans hv)]
      · intro u hu v _
        rw [components_of_isRoot (of_decide_eq_true (mem_filter.1 hu).2)]
        exact Nat.zero_le _
    · rw [map_append]
      exact List.Sublist.refl _

inductive RouteCall
  | addRoute (method path : Bytes) (handler : Handler)
  | addHandlers (method path : Bytes) (handlers : List Handler)

def RouteCall.method : RouteCall → Bytes
  | .addRoute method _ _ | .addHandlers method _ _ => method

def RouteCall.path : RouteCall → Bytes
  | .addRoute _ path _ | .addHandlers _ path _ => path

def RouteCall.handlers : RouteCall → List Handler
  | .addRoute _ _ handler => [handler]
  | .addHandlers _ _ handlers => handlers

def RouteCall.run (app : App) : RouteCall → App
  | .addRoute method path handler => csilkAppAddRoute app method path handler
  | .addHandlers method path handlers => csilkAppAddHandlers app method path handlers

theorem RouteCall.run_eq (app : App) (route : RouteCall) :
    route.run app = csilkAppAddHandlers app route.method route.path route.handlers := by
  cases route <;> rfl

theorem Cached.route (h : Cached ps uses app) (route : RouteCall) : Cached ps uses (route.run app) := by
  rw [route.run_eq, csilkAppAddHandlers]
  split
  · exact h
  · exact { h with built := h.built.addHandlers .. }

theorem Cached.routes (h : Cached ps uses app) (routes : List RouteCall) :
    Cached ps uses (routes.foldl RouteCall.run app) := by
  induction routes generalizing app with
  | nil => exact h
  | cons route routes ih => exact ih (h.route route)

def buildApp (r : Router) (uses : List (Bytes × Handler)) (routes : List RouteCall) : App :=
  routes.foldl RouteCall.run (useGroups (csilkAppNew r) uses)

/-- A chain runs the middlewares of all covering prefixes exactly if each is a root prefix or the
longest that ends at a boundary of the path. -/
theorem csilkAppUseGroup_covers_iff (hr : Trie r.root) (ht : r.root.type ≠ .wildcard)
    (hdistinct : (uses.map Prod.fst).dedup.length ≤ csilkMaxGroups)
    (hfit : ∀ u ∈ uses, u.1.length < prefixBufSize) (routes : List RouteCall) (route : RouteCall)
    (hhandlers : route.handlers ≠ []) :
    ∃ root, ∃ entry : MethodHandler,
      route.run (buildApp r uses routes) = { buildApp r uses routes with registry :=
        { (buildApp r uses routes).registry with router :=
          { (buildApp r uses routes).registry.router with root := root } } } ∧
      (∀ ks m, findMethod (lookup root ks) m =
        (findMethod (lookup (buildApp r uses routes).registry.router.root ks) m).or
          (if m = route.method ∧ ks = patternKeys entry.path then some entry else none)) ∧
      segments entry.path = segments route.path ∧
      (Covered uses route.path route.handlers entry.rawHandlers ↔
        ∀ u ∈ uses, Covers u.1 route.path → IsRoot u.1 ∨ Longest uses route.path u.1) := by
  have h := (useGroups_cached hr ht hdistinct hfit).routes routes
  rw [← buildApp] at h
  generalize buildApp r uses routes = app at h ⊢
  obtain ⟨best, is, hl, hchain, hseg, hbest, hlongest⟩ := h.best route.path
  have hlt := hl.lt _ hl.self_mem
  rw [← h.built.length] at hlt
  obtain ⟨is', root, entry, hl', hadd, hpath, -, hraw, -, hfind⟩ :=
    h.built.composes hlt hhandlers route.method
      (some (findMatchingGroupForPath app route.path).relativePath)
  cases hl.unique hl'
  refine ⟨root, entry, ?_, hfind, hpath.trans hseg, ?_⟩
  · rw [route.run_eq, csilkAppAddHandlers, if_neg hhandlers]
    dsimp only
    rw [hadd]
  · rw [hraw, hchain, covered_chainOf_iff hbest]
    refine forall₂_congr fun u hu => imp_congr_right fun _ => ?_
    by_cases hr : IsRoot u.1
    · exact iff_of_true (.inl hr) (.inl hr)
    · exact or_congr_right (hlongest u hu hr).symm

def plainUses : List (Bytes × Handler) := [(ascii "/", 1), (ascii "/api", 2)]

def plainRoute : RouteCall := .addRoute (ascii "GET") (ascii "/api/users") 3

theorem csilkAppUseGroup_covers_plain : ∃ root, ∃ entry : MethodHandler,
      (plainRoute.run (buildApp csilkRouterNew plainUses [])).registry.router.root = root ∧
      segments entry.path = segments plainRoute.path ∧
      Covered plainUses plainRoute.path plainRoute.handlers entry.rawHandlers := by
  have hdistinct : (plainUses.map Prod.fst).dedup.length ≤ csilkMaxGroups := by decide
  obtain ⟨root, entry, hrun, -, hpath, hiff⟩ := csilkAppUseGroup_covers_iff
    csilkRouterNew_ok.trie csilkRouterNew_ok.type hdistinct (by decide) [] plainRoute
    (cons_ne_nil _ _)
  exact ⟨root, entry, by rw [hrun], hpath, hiff.2 (by decide +kernel)⟩

def nestedUses : List (Bytes × Handler) := [(ascii "/api", 1), (ascii "/api/admin", 2)]

def nestedRoute : RouteCall := .addRoute (ascii "GET") (ascii "/api/admin/users") 3

/-- The route's chain has the middleware of `/api/admin` but not that of `/api`. -/
theorem csilkAppUseGroup_misses_outer : (findMethod (lookup
      (nestedRoute.run (buildApp csilkRouterNew nestedUses [])).registry.router.root
      (patternKeys nestedRoute.path)) nestedRoute.method).map MethodHandler.rawHandlers =
        some [2, 3] ∧
      Covers (ascii "/api") nestedRoute.path ∧
      ¬Covered nestedUses nestedRoute.path nestedRoute.handlers [2, 3] := by
  refine ⟨by decide +kernel, by decide +kernel, ?_⟩
  rintro ⟨us, hperm, -, hs⟩
  have hle := hs.length_le
  have hboth : (nestedUses.filter fun u => Covers u.1 nestedRoute.path).length = 2 := by
    decide +kernel
  have hone : nestedRoute.handlers.length = 1 := rfl
  rw [length_append, length_map, hperm.length_eq] at hle
  exact absurd hle (by decide)

end Csilk.Routing
