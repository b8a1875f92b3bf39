import Csilk.Routing.Group

namespace Csilk.Routing
open List Option Function

inductive GroupCall
  | new (p : Option Bytes)
  | group (parent : Nat) (p : Option Bytes)
  | use (group : Nat) (handler : Handler)
  | addHandlers (group : Nat) (method path : Option Bytes) (handlers : List Handler)

def Registry.step (s : Registry) : GroupCall → Option Registry
  | .new p => some { s with groups := csilkGroupNew s.groups p }
  | .group parent p => (csilkGroupGroup s.groups parent p).map fun G => { s with groups := G }
  | .use group handler => (csilkGroupUse s.groups group handler).map fun G => { s with groups := G }
  | .addHandlers group method path handlers =>
    some (csilkGroupAddHandlers s group method path handlers).2

def buildGroups (r : Router) (calls : List GroupCall) : Option Registry :=
  calls.foldlM Registry.step ⟨r, .empty⟩

def GroupCall.creates : GroupCall → Option (Option Nat × Option Bytes)
  | .new p => some (none, p)
  | .group parent p => some (some parent, p)
  | .use _ _ | .addHandlers _ _ _ _ => none

def declared (calls : List GroupCall) : List (Option Nat × Option Bytes) :=
  calls.filterMap GroupCall.creates

def GroupCall.usedOn (i : Nat) : GroupCall → Option Handler
  | .use g handler => if g = i then some handler else none
  | _ => none

def declaredUses (calls : List GroupCall) (i : Nat) : List Handler :=
  calls.filterMap (GroupCall.usedOn i)

def declaredSegments (ds : List (Option Nat × Option Bytes)) (i : Nat) : List Bytes :=
  match ds[i]? with
  | none => []
  | some (_, p) => segments (p.getD [])

inductive Lineage (ds : List (Option Nat × Option Bytes)) : Nat → List Nat → Prop
  | root (h : ds[i]? = some (none, p)) : Lineage ds i [i]
  | child (h : ds[i]? = some (some j, p)) (hj : Lineage ds j js) : Lineage ds i (js ++ [i])

theorem Lineage.append (h : Lineage ds i is) (ds' : List (Option Nat × Option Bytes)) :
    Lineage (ds ++ ds') i is := by
  have hget {i : Nat} {d} (h : ds[i]? = some d) : (ds ++ ds')[i]? = some d := by
    rw [getElem?_append_left (List.getElem?_eq_some_iff.1 h).1, h]
  induction h with
  | root h => exact .root (hget h)
  | child h _ ih => exact .child (hget h) ih

theorem Lineage.lt (h : Lineage ds i is) : ∀ j ∈ is, j < ds.length := by
  induction h with
  | root h =>
    intro j hj
    rw [mem_singleton.1 hj]
    exact (List.getElem?_eq_some_iff.1 h).1
  | child h _ ih =>
    exact forall_mem_append.2 ⟨ih, forall_mem_singleton.2 ((List.getElem?_eq_some_iff.1 h).1)⟩

theorem Lineage.self_mem (h : Lineage ds i is) : i ∈ is := by
  cases h <;> simp

theorem Lineage.unique (h : Lineage ds i is) (h' : Lineage ds i js) : is = js := by
  induction h generalizing js with
  | root h =>
    cases h' with
    | root => rfl
    | child hc => cases h.symm.trans hc
  | child h _ ih =>
    cases h' with
    | root hr => cases h.symm.trans hr
    | child hc hj =>
      cases h.symm.trans hc
      rw [ih hj]

theorem declaredSegments_append (ds ds' : List (Option Nat × Option Bytes)) (h : i < ds.length) :
    declaredSegments (ds ++ ds') i = declaredSegments ds i := by
  rw [declaredSegments, declaredSegments, getElem?_append_left h]

theorem flatMap_declaredSegments_append (h : Lineage ds i is)
    (ds' : List (Option Nat × Option Bytes)) :
    is.flatMap (declaredSegments (ds ++ ds')) = is.flatMap (declaredSegments ds) :=
  flatMap_congr fun j hj => declaredSegments_append ds ds' (h.lt j hj)

section

variable {ds : List (Option Nat × Option Bytes)} {mws : Nat → List Handler} {s : Registry}

structure GroupSpec (ds : List (Option Nat × Option Bytes)) (mws : List Handler) (i : Nat)
    (g : Group) : Prop where
  parent : ∃ p, ds[i]? = some (g.parent, p)
  middlewares : g.middlewares = mws
  lineage : ∃ is, Lineage ds i is ∧ segments g.groupPrefix = is.flatMap (declaredSegments ds)

structure Built (ds : List (Option Nat × Option Bytes)) (mws : Nat → List Handler) (s : Registry) :
    Prop where
  length : s.groups.groups.length = ds.length
  spec : ∀ i g, s.groups.groups[i]? = some g → GroupSpec ds (mws i) i g
  unused : ∀ i, ds.length ≤ i → mws i = []
  trie : Trie s.router.root
  type : s.router.root.type ≠ .wildcard

theorem declaredSegments_concat_length (ds : List (Option Nat × Option Bytes))
    (d : Option Nat × Option Bytes) :
    declaredSegments (ds ++ [d]) ds.length = segments (d.2.getD []) := by
  rw [declaredSegments, getElem?_concat_length]

theorem Built.add (h : Built ds mws s) (hm : g.middlewares = [])
    (hp : ∀ j, g.parent = some j → j < s.groups.groups.length) (hl : Lineage (ds ++ [(g.parent, p)]) ds.length is)
    (hs : segments g.groupPrefix = is.flatMap (declaredSegments (ds ++ [(g.parent, p)]))) :
    Built (ds ++ [(g.parent, p)]) mws { s with groups := s.groups.add g hp } := by
  refine ⟨?_, ?_, ?_, h.trie, h.type⟩
  · rw [Groups.add, length_append, length_append, h.length]
    rfl
  · intro i g' hg
    rcases getElem?_concat_some hg with hg | ⟨rfl, rfl⟩
    · obtain ⟨⟨q, hq⟩, hm, is, hl, hs⟩ := h.spec i g' hg
      refine ⟨⟨q, ?_⟩, hm, is, hl.append _, ?_⟩
      · rw [getElem?_append_left (List.getElem?_eq_some_iff.1 hq).1, hq]
      · rw [flatMap_declaredSegments_append hl, hs]
    · rw [h.length]
      refine ⟨⟨p, getElem?_concat_length⟩, ?_, is, hl, hs⟩
      rw [hm, h.unused _ le_rfl]
  · intro i hi
    rw [length_append] at hi
    exact h.unused i (Nat.le_of_add_right_le hi)

theorem Built.new (h : Built ds mws s) (p : Option Bytes) :
    Built (ds ++ [(none, p)]) mws { s with groups := csilkGroupNew s.groups p } := by
  refine h.add (g := ⟨none, p.getD [slash], []⟩) rfl (by simp) (.root getElem?_concat_length) ?_
  rw [flatMap_singleton, declaredSegments_concat_length]
  cases p with
  | none => exact segments_slash []
  | some p => rfl

theorem Built.child (h : Built ds mws s) (hG : csilkGroupGroup s.groups parent p = some G) :
    Built (ds ++ [(some parent, p)]) mws { s with groups := G } := by
  unfold csilkGroupGroup at hG
  split at hG
  · cases hG
  · rename_i g hg
    cases hG
    obtain ⟨-, -, is, hl, hs⟩ := h.spec parent g hg
    refine h.add (g := ⟨some parent, joinPath (some g.groupPrefix) p, []⟩) rfl _
      (.child getElem?_concat_length (hl.append _)) ?_
    rw [segments_joinPath, flatMap_append, flatMap_declaredSegments_append hl, flatMap_singleton,
      declaredSegments_concat_length]
    exact congrArg (· ++ _) hs

theorem Built.use (h : Built ds mws s) (hG : csilkGroupUse s.groups group handler = some G) :
    Built ds (update mws group (mws group ++ [handler])) { s with groups := G } := by
  obtain ⟨hlt, hG⟩ := ite_none_right_eq_some.1 hG
  cases hG
  refine ⟨(length_modify ..).trans h.length, ?_, ?_, h.trie, h.type⟩
  · intro i g hg
    rw [Groups.use, getElem?_modify] at hg
    obtain ⟨g', hg', rfl⟩ := map_eq_some_iff.1 hg
    obtain ⟨hp, hm, hl⟩ := h.spec i g' hg'
    by_cases hi : group = i
    · subst hi
      rw [if_pos rfl, update_self, ← hm]
      exact ⟨hp, rfl, hl⟩
    · rw [if_neg hi, update_of_ne (Ne.symm hi)]
      exact ⟨hp, hm, hl⟩
  · intro i hi
    rw [h.length] at hlt
    rw [update_of_ne (ne_of_gt (lt_of_lt_of_le hlt hi)), h.unused i hi]

theorem Built.addHandlers (h : Built ds mws s) (group : Nat) (method path : Option Bytes)
    (handlers : List Handler) : Built ds mws (csilkGroupAddHandlers s group method path handlers).2 := by
  unfold csilkGroupAddHandlers
  split
  · exact h
  · split
    · exact h
    · cases method with
      | none => exact { h with }
      | some method =>
        obtain ⟨root, hadd, htrie, htype, -⟩ := routerAddFull_simpleRoute h.trie h.type method _ _
        dsimp only
        rw [hadd]
        exact { h with trie := htrie, type := htype }

theorem declared_concat (calls : List GroupCall) (c : GroupCall) :
    declared (calls ++ [c]) = declared calls ++ c.creates.toList := by
  rw [declared, filterMap_append, filterMap_cons]
  cases c.creates <;> rfl

theorem declaredUses_concat (calls : List GroupCall) (c : GroupCall) :
    declaredUses (calls ++ [c]) = fun i => declaredUses calls i ++ (c.usedOn i).toList := by
  funext i
  rw [declaredUses, filterMap_append, filterMap_cons]
  cases c.usedOn i <;> rfl

theorem buildGroups_built (hr : Trie r.root) (ht : r.root.type ≠ .wildcard)
    (h : buildGroups r calls = some s) : Built (declared calls) (declaredUses calls) s := by
  induction calls using List.reverseRecOn generalizing s with
  | nil =>
    cases h
    exact ⟨rfl, (by rintro _ _ ⟨⟩), fun _ _ => rfl, hr, ht⟩
  | append_singleton calls c ih =>
    rw [buildGroups, foldlM_append] at h
    obtain ⟨t, hcalls, hc⟩ := bind_eq_some_iff.1 h
    obtain ⟨s', hs, hc⟩ := bind_eq_some_iff.1 hc
    cases hc
    have ih := ih hcalls
    rw [declared_concat, declaredUses_concat]
    cases c with
    | new p =>
      cases hs
      simpa [GroupCall.creates, GroupCall.usedOn] using ih.new p
    | group parent p =>
      obtain ⟨G, hG, rfl⟩ := map_eq_some_iff.1 hs
      simpa [GroupCall.creates, GroupCall.usedOn] using ih.child hG
    | use group handler =>
      obtain ⟨G, hG, rfl⟩ := map_eq_some_iff.1 hs
      have huses : (fun i => declaredUses calls i ++ ((GroupCall.use group handler).usedOn i).toList) =
          update (declaredUses calls) group (declaredUses calls group ++ [handler]) := by
        funext i
        by_cases hi : group = i
        · simp [GroupCall.usedOn, hi]
        · simp [GroupCall.usedOn, hi, Ne.symm hi]
      rw [huses]
      simpa [GroupCall.creates] using ih.use hG
    | addHandlers group method path handlers =>
      cases hs
      simpa [GroupCall.creates, GroupCall.usedOn] using ih.addHandlers group method path handlers

theorem gatherHandlers_eq (hg : G.groups[i]? = some g) (handlers : List Handler) :
    gatherHandlers G i handlers = (match g.parent with
      | some parent => gatherHandlers G parent handlers
      | none => handlers) ++ g.middlewares := by
  rw [gatherHandlers]
  split
  · rename_i hnone
    rw [hnone] at hg
    cases hg
  · rename_i g' hg'
    cases hg.symm.trans hg'
    split <;> simp_all

theorem Built.gather (h : Built ds mws s) (hl : Lineage ds i is) (handlers : List Handler) :
    gatherHandlers s.groups i handlers = handlers ++ is.flatMap mws := by
  have hget {i : Nat} {parent : Option Nat} {p : Option Bytes} (hd : ds[i]? = some (parent, p)) :
      ∃ g, s.groups.groups[i]? = some g ∧ g.parent = parent ∧ g.middlewares = mws i := by
    have hlt := (List.getElem?_eq_some_iff.1 hd).1
    rw [← h.length] at hlt
    have hg := getElem?_eq_getElem hlt
    obtain ⟨⟨q, hq⟩, hm, -⟩ := h.spec i _ hg
    cases hd.symm.trans hq
    exact ⟨_, hg, rfl, hm⟩
  -- the recursion runs up to the root and appends on its way back
  induction hl with
  | root hd =>
    obtain ⟨g, hg, hp, hm⟩ := hget hd
    rw [gatherHandlers_eq hg, hp, hm, flatMap_singleton]
  | child hd _ ih =>
    obtain ⟨g, hg, hp, hm⟩ := hget hd
    rw [gatherHandlers_eq hg, hp, hm, flatMap_append, flatMap_singleton,
      ← append_assoc]
    exact congrArg (· ++ _) ih

theorem Built.composes (hb : Built ds mws s) (hgroup : group < s.groups.groups.length)
    (hhandlers : handlers ≠ []) (method : Bytes) (path : Option Bytes) :
    ∃ is root, ∃ entry : MethodHandler, Lineage ds group is ∧
      csilkGroupAddHandlers s group (some method) path handlers =
        (0, { s with router := { s.router with root := root } }) ∧
      segments entry.path = is.flatMap (declaredSegments ds) ++
        segments (path.getD []) ∧
      entry.method = method ∧
      entry.rawHandlers = is.flatMap mws ++ handlers ∧
      entry.handlers = s.router.globalMiddlewares ++ entry.rawHandlers ∧
      ∀ ks m, findMethod (lookup root ks) m = (findMethod (lookup s.router.root ks) m).or
        (if m = method ∧ ks = patternKeys entry.path then some entry else none) := by
  have hg := getElem?_eq_getElem hgroup
  obtain ⟨-, -, is, hl, hs⟩ := hb.spec group _ hg
  have hgather := hb.gather hl []
  obtain ⟨root, hadd, -, -, hfind⟩ := routerAddFull_simpleRoute hb.trie hb.type method
    (joinPath (some (s.groups.groups[group]).groupPrefix) path)
    (gatherHandlers s.groups group [] ++ handlers)
  refine ⟨is, root, simpleEntry s.router method _ _, hl, ?_, ?_, rfl, ?_, rfl, hfind⟩
  · rw [csilkGroupAddHandlers, hg]
    dsimp only
    rw [if_neg hhandlers, hadd]
  · exact (segments_joinPath _ _).trans (congrArg (· ++ _) hs)
  · exact congrArg (· ++ handlers) hgather

end

/-- A route is registered under all prefixes above it, their middlewares before its handlers. -/
theorem csilkGroupAddHandlers_composes (hr : Trie r.root) (ht : r.root.type ≠ .wildcard)
    (h : buildGroups r calls = some s) (hgroup : group < s.groups.groups.length)
    (hhandlers : handlers ≠ []) (method : Bytes) (path : Option Bytes) :
    ∃ is root, ∃ entry : MethodHandler, Lineage (declared calls) group is ∧
      csilkGroupAddHandlers s group (some method) path handlers =
        (0, { s with router := { s.router with root := root } }) ∧
      segments entry.path = is.flatMap (declaredSegments (declared calls)) ++
        segments (path.getD []) ∧
      entry.method = method ∧
      entry.rawHandlers = is.flatMap (declaredUses calls) ++ handlers ∧
      entry.handlers = s.router.globalMiddlewares ++ entry.rawHandlers ∧
      ∀ ks m, findMethod (lookup root ks) m = (findMethod (lookup s.router.root ks) m).or
        (if m = method ∧ ks = patternKeys entry.path then some entry else none) := by
  have hb := buildGroups_built hr ht h
  exact hb.composes hgroup hhandlers method path

def nestedCalls : List GroupCall :=
  [.new (some (ascii "/api/")), .use 0 1, .group 0 (some (ascii "//v1//")), .group 1 none, .use 2 3,
    .use 0 2]

theorem csilkGroupAddHandlers_composes_nested :
    ∃ s root, ∃ entry : MethodHandler, buildGroups csilkRouterNew nestedCalls = some s ∧
      csilkGroupAddHandlers s 2 (some (ascii "GET")) (some (ascii "users")) [4] =
        (0, { s with router := { s.router with root := root } }) ∧
      segments entry.path = [ascii "api", ascii "v1", ascii "users"] ∧
      entry.rawHandlers = [1, 2, 3, 4] := by
  obtain ⟨s, hs⟩ : ∃ s, buildGroups csilkRouterNew nestedCalls = some s := ⟨_, rfl⟩
  have hlen : 2 < s.groups.groups.length := by
    have hb := buildGroups_built csilkRouterNew_ok.trie csilkRouterNew_ok.type hs
    rw [hb.length]
    decide
  have hl : Lineage (declared nestedCalls) 2 [0, 1, 2] := .child rfl (.child rfl (.root rfl))
  obtain ⟨is, root, entry, hl', hadd, hpath, -, hchain, -⟩ := csilkGroupAddHandlers_composes
    csilkRouterNew_ok.trie csilkRouterNew_ok.type hs hlen (cons_ne_nil 4 []) (ascii "GET")
    (some (ascii "users"))
  cases hl.unique hl'
  exact ⟨s, root, entry, hs, hadd, hpath.trans (by decide +kernel), hchain.trans (by decide)⟩

end Csilk.Routing
