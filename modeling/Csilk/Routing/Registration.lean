import Csilk.Routing.Priority

namespace Csilk.Routing
open List Option

def buildRouter (regs : List RouteArgs) : Router :=
  regs.foldl (fun r a => (routerAddFull r a).2) csilkRouterNew

def RouteArgs.keys (a : RouteArgs) : List Key := patternKeys (a.path.getD [])

def RouteArgs.entry (a : RouteArgs) : MethodHandler :=
  newHandler csilkRouterNew a (a.method.getD []) (a.path.getD []) (a.handlers.getD [])

def RouteArgs.For (a : RouteArgs) (method : Bytes) : Prop :=
  a.method = some method ∧ a.path.isSome ∧ a.handlers.isSome

instance (a : RouteArgs) (method : Bytes) : Decidable (a.For method) :=
  inferInstanceAs (Decidable (_ ∧ _ ∧ _))

def RouteArgs.stored (method : Bytes) (ks : List Key) (a : RouteArgs) : Option MethodHandler :=
  if a.For method ∧ a.keys = ks then some a.entry else none

theorem findMethod_insertHandler (mh : MethodHandler) (hs : List MethodHandler) (method : Bytes) :
    findMethod (insertHandler mh hs) method =
      (findMethod hs method).or (if mh.method = method then some mh else none) := by
  unfold insertHandler
  split
  · rename_i hany
    by_cases hm : mh.method = method
    · subst hm
      have hsome : (findMethod hs mh.method).isSome := by
        rw [findMethod]
        simpa using hany
      rw [or_of_isSome hsome]
    · rw [if_neg hm, or_none]
  · rename_i hany
    by_cases hm : mh.method = method
    · subst hm
      have hnone : findMethod hs mh.method = none := by
        rw [findMethod]
        simpa using hany
      rw [hnone, none_or, if_pos rfl, findMethod, find?_cons]
      simp
    · simp [hm, findMethod]

structure RootOk (r : Router) : Prop where
  trie : Trie r.root
  type : r.root.type ≠ .wildcard
  noGlobals : r.globalMiddlewares = []

theorem csilkRouterNew_ok : RootOk csilkRouterNew :=
  ⟨nodeNew_trie [] .static, (nomatch ·), rfl⟩

theorem routerAddFull_spec (h : RootOk r) (a : RouteArgs) : RootOk (routerAddFull r a).2 ∧
      ∀ ks method, findMethod (lookup (routerAddFull r a).2.root ks) method =
        (findMethod (lookup r.root ks) method).or (a.stored method ks) := by
  obtain ⟨htrie, htype, hglob⟩ := h
  unfold routerAddFull
  split
  · rename_i m p hs hm hp hhs
    obtain ⟨-, hkey, ht, hl⟩ := addSegments_spec (newHandler r a m p hs) r.root p htrie htype
    have hentry : newHandler r a m p hs = a.entry := by
      simp [RouteArgs.entry, newHandler, hm, hp, hhs, hglob, csilkRouterNew]
    have hty := congrArg Key.type hkey
    refine ⟨⟨ht, ?_, hglob⟩, ?_⟩
    · exact fun he => htype (hty.symm.trans he)
    · intro ks method
      have hkeys : a.keys = patternKeys p := by rw [RouteArgs.keys, hp, getD_some]
      have hfor : a.For method ↔ m = method := by simp [RouteArgs.For, hm, hp, hhs]
      have hmeth : (newHandler r a m p hs).method = m := rfl
      simp only [hl, RouteArgs.stored, hfor, hkeys, ← hentry]
      by_cases hk : ks = patternKeys p
      · rw [if_pos hk, findMethod_insertHandler, hmeth]
        simp [hk]
      · rw [if_neg hk, if_neg (fun h => hk h.2.symm), or_none]
  · rename_i hnull
    refine ⟨⟨htrie, htype, hglob⟩, ?_⟩
    intro ks method
    have hnone : a.stored method ks = none := by
      refine if_neg ?_
      rintro ⟨⟨hm, hp, hh⟩, -⟩
      obtain ⟨p, hp⟩ := isSome_iff_exists.1 hp
      obtain ⟨hs, hh⟩ := isSome_iff_exists.1 hh
      exact hnull method p hs hm hp hh
    rw [hnone, or_none]

theorem foldl_routerAddFull (h : RootOk r) (regs : List RouteArgs) :
    RootOk (regs.foldl (fun r a => (routerAddFull r a).2) r) ∧
      ∀ ks method, findMethod (lookup (regs.foldl (fun r a => (routerAddFull r a).2) r).root ks)
        method = (findMethod (lookup r.root ks) method).or (regs.findSome? (·.stored method ks)) := by
  induction regs generalizing r with
  | nil => exact ⟨h, fun ks method => by simp⟩
  | cons a regs ih =>
    obtain ⟨hok, hone⟩ := routerAddFull_spec h a
    obtain ⟨hok', hall⟩ := ih hok
    refine ⟨hok', ?_⟩
    intro ks method
    rw [foldl_cons, hall, hone, Option.or_assoc, findSome?_cons]
    cases a.stored method ks <;> rfl

theorem buildRouter_spec (regs : List RouteArgs) : Trie (buildRouter regs).root ∧
      ∀ ks method, findMethod (lookup (buildRouter regs).root ks) method =
        regs.findSome? (·.stored method ks) := by
  obtain ⟨⟨htrie, -, -⟩, hl⟩ := foldl_routerAddFull csilkRouterNew_ok regs
  refine ⟨htrie, ?_⟩
  intro ks method
  rw [buildRouter, hl, csilkRouterNew, lookup_nodeNew]
  rfl

/-- The keys, cut after a wildcard, match the path and are at most 63. -/
def RouteArgs.Serves (a : RouteArgs) (method path : Bytes) : Prop :=
  a.For method ∧ a.keys.length ≤ csilkRouterMaxDepth - 1 ∧ Matches a.keys path

theorem serves_iff_eligible (regs : List RouteArgs) (method path : Bytes) (ks : List Key) :
    Eligible method (csilkRouterMaxDepth - 1) (buildRouter regs).root path ks ↔
      ∃ a ∈ regs, a.keys = ks ∧ a.Serves method path := by
  rw [Eligible, (buildRouter_spec regs).2, findSome?_isSome_iff]
  constructor
  · rintro ⟨hlen, hm, a, ha, hs⟩
    unfold RouteArgs.stored at hs
    split at hs
    · rename_i h
      obtain ⟨hfor, rfl⟩ := h
      exact ⟨a, ha, rfl, hfor, hlen, hm⟩
    · cases hs
  · rintro ⟨a, ha, rfl, hfor, hlen, hm⟩
    refine ⟨hlen, hm, a, ha, ?_⟩
    rw [RouteArgs.stored, if_pos ⟨hfor, rfl⟩]
    rfl

theorem matchNode_best (regs : List RouteArgs) (vector : List Nat) (method path : Bytes)
    (ctx : Option Ctx) :
    match (matchNode vector (some (buildRouter regs).root) (some method) (some path) ctx).1 with
    | none => ∀ a ∈ regs, ¬a.Serves method path
    | some mh => Best method (csilkRouterMaxDepth - 1) (buildRouter regs).root path mh := by
  have hb := search_best method (csilkRouterMaxDepth - 1) (buildRouter_spec regs).1 path ctx
  rw [matchNode_search]
  cases hs : search method (csilkRouterMaxDepth - 1) (buildRouter regs).root path ctx with
  | none =>
    rw [hs] at hb
    exact fun a ha hserves => hb a.keys ((serves_iff_eligible regs method path _).2 ⟨a, ha, rfl, hserves⟩)
  | some r =>
    rw [hs] at hb
    exact hb

theorem Best.first (h : Best method (csilkRouterMaxDepth - 1) (buildRouter regs).root path mh) :
    ∃ (i : Nat) (a : RouteArgs), regs[i]? = some a ∧ a.Serves method path ∧ mh = a.entry ∧
      ∀ (j : Nat) (b : RouteArgs), regs[j]? = some b → b.Serves method path →
        a.keys < b.keys ∨ a.keys = b.keys ∧ i ≤ j := by
  obtain ⟨ks, ⟨hlen, hm, -⟩, hf, hmin⟩ := h
  rw [(buildRouter_spec regs).2] at hf
  obtain ⟨pre, a, post, hregs, hstored, hpre⟩ := findSome?_eq_some_iff.1 hf
  unfold RouteArgs.stored at hstored
  split at hstored
  · rename_i hcond
    obtain ⟨hfor, rfl⟩ := hcond
    cases hstored
    refine ⟨pre.length, a, by simp [hregs], ⟨hfor, hlen, hm⟩, rfl, ?_⟩
    intro j b hj hb
    have hle := hmin b.keys
      ((serves_iff_eligible regs method path _).2 ⟨b, mem_of_getElem? hj, rfl, hb⟩)
    rcases hle.lt_or_eq with hlt | heq
    · exact .inl hlt
    · refine .inr ⟨heq, ?_⟩
      by_contra hji
      rw [hregs, getElem?_append_left (Nat.lt_of_not_le hji)] at hj
      have hnone := hpre b (mem_of_getElem? hj)
      rw [RouteArgs.stored, if_pos ⟨hb.1, heq.symm⟩] at hnone
      cases hnone
  · cases hstored

/-- The matcher finds an entry exactly if some registration can answer, that of the first one with
the least keys. -/
theorem matchNode_priority (regs : List RouteArgs) (vector : List Nat) (method path : Bytes)
    (ctx : Option Ctx) :
    ((matchNode vector (some (buildRouter regs).root) (some method) (some path) ctx).1.isSome ↔
      ∃ a ∈ regs, a.Serves method path) ∧
    ∀ mh, (matchNode vector (some (buildRouter regs).root) (some method) (some path) ctx).1 =
        some mh →
      ∃ (i : Nat) (a : RouteArgs), regs[i]? = some a ∧ a.Serves method path ∧ mh = a.entry ∧
        ∀ (j : Nat) (b : RouteArgs), regs[j]? = some b → b.Serves method path →
          a.keys < b.keys ∨ a.keys = b.keys ∧ i ≤ j := by
  have hbest := matchNode_best regs vector method path ctx
  cases hm : (matchNode vector (some (buildRouter regs).root) (some method) (some path) ctx).1 with
  | none =>
    rw [hm] at hbest
    refine ⟨⟨(nomatch ·), ?_⟩, fun mh h => (nomatch h)⟩
    rintro ⟨a, ha, hs⟩
    exact absurd hs (hbest a ha)
  | some mh =>
    rw [hm] at hbest
    obtain ⟨i, a, hi, hs, he, hmin⟩ := Best.first hbest
    refine ⟨⟨fun _ => ⟨a, mem_of_getElem? hi, hs⟩, fun _ => rfl⟩, ?_⟩
    rintro mh' ⟨⟩
    exact ⟨i, a, hi, hs, he, hmin⟩

def longWildcard : RouteArgs where
  method := some [71]
  path := some (star :: 120 :: (List.replicate 63 [slash, 97]).flatten)
  handlers := some [1]
  pathPattern := none
  inputType := none
  outputType := none
  summary := none
  description := none
  permRequired := none
  permResource := none

/-- Only the segments up to the wildcard count. -/
theorem matchNode_long_wildcard :
    (matchNode [] (some (buildRouter [longWildcard]).root) (some [71]) (some [slash]) none).1.isSome ∧
      ∀ a ∈ [longWildcard], 63 < (segments (a.path.getD [])).length := by
  refine ⟨?_, by decide⟩
  have hbest := matchNode_best [longWildcard] [] [71] [slash] none
  cases hm : (matchNode [] (some (buildRouter [longWildcard]).root) (some [71]) (some [slash])
      none).1 with
  | some mh => rfl
  | none =>
    rw [hm] at hbest
    have hkeys : longWildcard.keys = [⟨.wildcard, [120]⟩] := by decide
    refine absurd ⟨by decide, by rw [hkeys]; decide, ?_⟩ (hbest longWildcard mem_cons_self)
    exact .wildcard

end Csilk.Routing
