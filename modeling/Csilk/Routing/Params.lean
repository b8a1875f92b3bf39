import Csilk.Routing.Group

namespace Csilk.Routing
open List Option

def nodeCompileHandlers (globals : List Handler) : RouterNode → RouterNode
  | ⟨segment, type, handlers, children⟩ =>
    ⟨segment, type, handlers.map fun mh => { mh with handlers := globals ++ mh.rawHandlers },
      children.map (nodeCompileHandlers globals)⟩

def csilkRouterCompile (r : Router) (globals : List Handler) : Router :=
  let globals := globals.take 32
  { r with root := nodeCompileHandlers globals r.root, globalMiddlewares := globals }

def csilkRouterMatch (vector : List Nat) (r : Router) (method path : Option Bytes) :
    Option (List Handler) :=
  match method, path with
  | some method, some path =>
    (matchNode vector (some r.root) (some method) (some path) none).1.map MethodHandler.handlers
  | _, _ => none

structure RequestCtx where
  method : Option Bytes
  path : Option Bytes
  captured : Ctx
  handlers : Option (List Handler)
  handlerCount : Nat
  handlerIndex : Int
  currentHandler : Option MethodHandler

def csilkRouterMatchCtx (vector : List Nat) (r : Router) (c : RequestCtx) : Int × RequestCtx :=
  match c.method, c.path with
  | some method, some path =>
    let captured := { c.captured with params := [] }
    match matchNode vector (some r.root) (some method) (some path) (some captured) with
    | (some mh, ctx) =>
      (1, { c with
        captured := ctx.getD captured
        handlers := some mh.handlers
        handlerCount := mh.handlers.length
        handlerIndex := -1
        currentHandler := some mh })
    | (none, ctx) => (0, { c with captured := ctx.getD captured })
  | _, _ => (0, c)

inductive RouterCall
  | add (args : RouteArgs)
  | compile (globals : List Handler)

def RouterCall.run (r : Router) : RouterCall → Router
  | .add args => (routerAddFull r args).2
  | .compile globals => csilkRouterCompile r globals

def compiledRouter (calls : List RouterCall) : Router := calls.foldl RouterCall.run csilkRouterNew

theorem nodeCompileHandlers_key (globals : List Handler) (node : RouterNode) :
    (nodeCompileHandlers globals node).key = node.key := by
  cases node
  rw [nodeCompileHandlers]
  rfl

theorem nodeCompileHandlers_trie (globals : List Handler) (h : Trie node) :
    Trie (nodeCompileHandlers globals node) := by
  induction h with
  | mk sorted leaf below ih =>
    rename_i node
    cases node
    rw [nodeCompileHandlers]
    refine ⟨?_, ?_, ?_⟩
    · rw [pairwise_map]
      simp only [nodeCompileHandlers_key]
      exact sorted
    · intro hw
      exact map_eq_nil_iff.2 (leaf hw)
    · intro c hc
      obtain ⟨d, hd, rfl⟩ := List.mem_map.1 hc
      exact ih d hd

def Router.Sorted (r : Router) : Prop := Trie r.root ∧ r.root.type ≠ .wildcard

theorem routerAddFull_sorted (h : r.Sorted) (args : RouteArgs) :
    (routerAddFull r args).2.Sorted := by
  obtain ⟨htrie, htype⟩ := h
  unfold routerAddFull
  split
  · rename_i method path handlers _ _ _
    obtain ⟨-, hkey, ht, -⟩ :=
      addSegments_spec (newHandler r args method path handlers) r.root path htrie htype
    exact ⟨ht, fun he => htype ((congrArg Key.type hkey).symm.trans he)⟩
  · exact ⟨htrie, htype⟩

theorem csilkRouterCompile_sorted (h : r.Sorted) (globals : List Handler) :
    (csilkRouterCompile r globals).Sorted := by
  have hkey := nodeCompileHandlers_key (globals.take 32) r.root
  exact ⟨nodeCompileHandlers_trie _ h.1, fun he => h.2 ((congrArg Key.type hkey).symm.trans he)⟩

theorem RouterCall.run_sorted (h : r.Sorted) (call : RouterCall) : (call.run r).Sorted := by
  cases call with
  | add args => exact routerAddFull_sorted h args
  | compile globals => exact csilkRouterCompile_sorted h globals

theorem compiledRouter_sorted (calls : List RouterCall) : (compiledRouter calls).Sorted := by
  have hrun (r : Router) (h : r.Sorted) : (calls.foldl RouterCall.run r).Sorted := by
    induction calls generalizing r with
    | nil => exact h
    | cons call calls ih => exact ih _ (call.run_sorted h)
  exact hrun _ ⟨csilkRouterNew_ok.trie, csilkRouterNew_ok.type⟩

def bindings : List Key → Bytes → List (Bytes × Bytes)
  | [], _ => []
  | k :: ks, path =>
    match k.type, getNextSegment path with
    | .static, (_, rest) => bindings ks rest
    | .param, (some seg, rest) => (k.name, seg) :: bindings ks rest
    | .param, (none, _) => []
    | .wildcard, _ => [(k.name, path.dropWhile (· = slash))]

def captureAll (ctx : Option Ctx) (bs : List (Bytes × Bytes)) : Option Ctx :=
  bs.foldl (fun ctx b => (captureParam ctx b.1 b.2).1) ctx

theorem captureAll_some (c : Ctx) (hlen : c.params.length ≤ csilkMaxParams)
    (bs : List (Bytes × Bytes)) :
    captureAll (some c) bs = some { c with params := (c.params ++ bs).take csilkMaxParams } := by
  induction bs generalizing c with
  | nil =>
    rw [append_nil, take_of_length_le hlen]
    rfl
  | cons b bs ih =>
    rw [captureAll, foldl_cons, captureParam]
    split
    · rename_i hfull
      have he := ih c hlen
      rw [captureAll] at he
      rw [he, take_append_of_le_length hfull, take_append_of_le_length hfull]
    · rename_i hroom
      have he := ih { c with params := c.params ++ [b] } (by
        rw [length_append, length_singleton]
        omega)
      rw [captureAll, append_assoc] at he
      exact he

/-- A search that ends in `r` has captured the bindings of the least eligible keys. -/
def Wins (method : Bytes) (depth : Nat) (node : RouterNode) (path : Bytes) (ctx : Option Ctx)
    (r : MethodHandler × Option Ctx) (ks : List Key) : Prop :=
  Eligible method depth node path ks ∧ findMethod (lookup node ks) method = some r.1 ∧
    (∀ ks', Eligible method depth node path ks' → ks ≤ ks') ∧
    r.2 = captureAll ctx (bindings ks path)

theorem wins_terminal (h : terminalHandler method node path = some mh) :
    Wins method depth node path ctx (mh, ctx) [] := by
  obtain ⟨hm, hf⟩ := terminalHandler_some h
  exact ⟨⟨Nat.zero_le _, hm, by rw [hf]; rfl⟩, hf, fun ks' _ => nil_le_keys ks', rfl⟩

theorem exploreChild_wins (ht : Trie node) (hc : c ∈ node.children)
    (hsearch : ∀ rest ctx r, search method depth c rest ctx = some r →
      ∃ ks, Wins method depth c rest ctx r ks)
    (h : exploreChild (search method depth) method path ctx c = some r) :
    ∃ ks, Eligible method (depth + 1) node path (c.key :: ks) ∧
      findMethod (lookup node (c.key :: ks)) method = some r.1 ∧
      (∀ ks', Eligible method (depth + 1) node path (c.key :: ks') → ks ≤ ks') ∧
      r.2 = captureAll ctx (bindings (c.key :: ks) path) := by
  unfold exploreChild at h
  split at h
  · rename_i seg p hty hg
    have hs := firstSegment_of_getNextSegment hg
    obtain ⟨he, h⟩ := ite_none_right_eq_some.1 h
    have hel (ks : List Key) : Eligible method (depth + 1) node path (c.key :: ks) ↔
        Eligible method depth c p ks := ht.eligible_child hc hs (.inr ⟨hty, he⟩) ks
    obtain ⟨ks, hks, hf, hmin, hcap⟩ := hsearch p ctx r h
    refine ⟨ks, (hel ks).2 hks, ?_, fun ks' hk => hmin ks' ((hel ks').1 hk), ?_⟩
    · rw [ht.lookup_child hc, hf]
    · rw [hcap, bindings]
      simp only [RouterNode.key, hty, hg]
  · rename_i seg p hty hg
    have hs := firstSegment_of_getNextSegment hg
    have hel (ks : List Key) : Eligible method (depth + 1) node path (c.key :: ks) ↔
        Eligible method depth c p ks := ht.eligible_child hc hs (.inl hty) ks
    obtain ⟨ks, hks, hf, hmin, hcap⟩ := hsearch p _ r h
    refine ⟨ks, (hel ks).2 hks, ?_, fun ks' hk => hmin ks' ((hel ks').1 hk), ?_⟩
    · rw [ht.lookup_child hc, hf]
    · rw [hcap, bindings]
      simp only [RouterNode.key, hty, hg]
      rfl
  · rename_i hty
    obtain ⟨mh, hf, rfl⟩ := map_eq_some_iff.1 h
    have hel := ht.eligible_wildcard hc hty method depth path
    refine ⟨[], (hel []).2 ⟨rfl, by rw [hf]; rfl⟩, ?_, fun ks' _ => nil_le_keys ks', ?_⟩
    · rw [ht.lookup_child hc]
      exact hf
    · simp only [RouterNode.key, hty]
      rfl
  · cases h

theorem search_wins (h : Trie node) (hs : search method depth node path ctx = some r) :
    ∃ ks, Wins method depth node path ctx r ks := by
  induction depth generalizing node path ctx r with
  | zero =>
    obtain ⟨mh, ht, rfl⟩ := map_eq_some_iff.1 hs
    exact ⟨[], wins_terminal ht⟩
  | succ depth ih =>
    rw [search] at hs
    cases ht : terminalHandler method node path with
    | some mh =>
      rw [ht] at hs
      cases hs
      exact ⟨[], wins_terminal ht⟩
    | none =>
      rw [ht, map_none] at hs
      have below : ∀ c ∈ node.children, Trie c := by
        obtain ⟨-, -, below⟩ := h
        exact below
      have hterm : ¬Eligible method (depth + 1) node path [] := by
        intro he
        have := he.terminal
        rw [ht] at this
        cases this
      obtain ⟨pre, c, post, hch, hsome, hpre⟩ := findSome?_eq_some_iff.1 hs
      have hc : c ∈ node.children := hch ▸ mem_append_right _ mem_cons_self
      obtain ⟨ks, he, hf, hmin, hcap⟩ :=
        exploreChild_wins h hc (fun rest ctx r hr => ih (below c hc) hr) hsome
      refine ⟨c.key :: ks, he, hf, h.least_of_first hch hterm ?_ hmin, hcap⟩
      intro d hd
      have hdc : d ∈ node.children := hch ▸ mem_append_left _ hd
      have hb : ChildBest method (depth + 1) node path d
          (exploreChild (search method depth) method path ctx d) :=
        exploreChild_best h hdc fun rest ctx => search_best method depth (below d hdc) rest ctx
      rwa [hpre d hd] at hb

theorem Best.unique (h : Best method depth node path mh) (h' : Best method depth node path mh') :
    mh = mh' := by
  obtain ⟨ks, he, hf, hmin⟩ := h
  obtain ⟨ks', he', hf', hmin'⟩ := h'
  cases le_antisymm (hmin ks' he') (hmin' ks he)
  exact Option.some.inj (hf.symm.trans hf')

theorem search_fst (h : Trie node) (method : Bytes) (depth : Nat) (path : Bytes)
    (ctx ctx' : Option Ctx) :
    (search method depth node path ctx).map Prod.fst =
      (search method depth node path ctx').map Prod.fst := by
  have hb := search_best method depth h path ctx
  have hb' := search_best method depth h path ctx'
  cases hs : search method depth node path ctx with
  | none =>
    rw [hs] at hb
    cases hs' : search method depth node path ctx' with
    | none => rfl
    | some r =>
      rw [hs'] at hb'
      obtain ⟨ks, he, -⟩ := hb'
      exact absurd he (hb ks)
  | some r =>
    rw [hs] at hb
    cases hs' : search method depth node path ctx' with
    | none =>
      rw [hs'] at hb'
      obtain ⟨ks, he, -⟩ := hb
      exact absurd he (hb' ks)
    | some r' =>
      rw [hs'] at hb'
      exact congrArg some (hb.unique hb')

theorem csilkRouterMatch_eq (h : r.Sorted) (vector : List Nat) (method path : Bytes)
    (ctx : Option Ctx) :
    csilkRouterMatch vector r (some method) (some path) =
      (search method (csilkRouterMaxDepth - 1) r.root path ctx).map fun m => m.1.handlers := by
  have hfst := search_fst h.1 method (csilkRouterMaxDepth - 1) path none ctx
  rw [csilkRouterMatch, matchNode_search]
  have hmap (m : Option (MethodHandler × Option Ctx)) :
      (m.map fun m => m.1.handlers) = (m.map Prod.fst).map MethodHandler.handlers :=
    (Option.map_map _ _ _).symm
  rw [hmap, ← hfst]
  cases search method (csilkRouterMaxDepth - 1) r.root path none <;> rfl

/-- A match has the chain that `csilk_router_match` finds and the first 20 bindings of the least
keys; otherwise no parameters. -/
theorem csilkRouterMatchCtx_params (calls : List RouterCall) (vector : List Nat) (c : RequestCtx)
    (method path : Bytes) :
    match csilkRouterMatch vector (compiledRouter calls) (some method) (some path),
      csilkRouterMatchCtx vector (compiledRouter calls)
        { c with method := some method, path := some path } with
    | none, (rc, c') => rc = 0 ∧ c'.captured.params = []
    | some handlers, (rc, c') => rc = 1 ∧ c'.handlers = some handlers ∧ c'.handlerIndex = -1 ∧
        ∃ ks mh, Eligible method (csilkRouterMaxDepth - 1) (compiledRouter calls).root path ks ∧
          (∀ ks', Eligible method (csilkRouterMaxDepth - 1) (compiledRouter calls).root path ks' →
            ks ≤ ks') ∧
          findMethod (lookup (compiledRouter calls).root ks) method = some mh ∧
          c'.currentHandler = some mh ∧ mh.handlers = handlers ∧
          c'.captured.params = (bindings ks path).take csilkMaxParams := by
  have hsorted := compiledRouter_sorted calls
  let ctx : Ctx := { c.captured with params := [] }
  rw [csilkRouterMatch_eq hsorted vector method path (some ctx), csilkRouterMatchCtx]
  dsimp only
  rw [matchNode_search]
  cases hs : search method (csilkRouterMaxDepth - 1) (compiledRouter calls).root path
      (some ctx) with
  | none => exact ⟨rfl, rfl⟩
  | some m =>
    obtain ⟨mh, ctx'⟩ := m
    obtain ⟨ks, he, hf, hmin, hcap⟩ := search_wins hsorted.1 hs
    refine ⟨rfl, rfl, rfl, ks, mh, he, hmin, hf, rfl, rfl, ?_⟩
    rw [captureAll_some ctx (Nat.zero_le _)] at hcap
    cases hcap
    rfl

end Csilk.Routing
