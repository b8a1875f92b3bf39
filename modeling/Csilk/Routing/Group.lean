import Csilk.Routing.Registration
import Mathlib.Data.List.DropRight

namespace Csilk.Routing
open List Option

/-- `csilk_group_t`; a group is known by its place in the order of creation. -/
structure Group where
  parent : Option Nat
  groupPrefix : Bytes
  middlewares : List Handler

structure Groups where
  groups : List Group
  parent_lt : ∀ i (g : Group) p, groups[i]? = some g → g.parent = some p → p < i

def Groups.empty : Groups := ⟨[], by simp⟩

theorem getElem?_concat_some {l : List α} (h : (l ++ [a])[i]? = some b) :
    l[i]? = some b ∨ i = l.length ∧ a = b := by
  rw [getElem?_append] at h
  split at h
  · exact .inl h
  · rw [getElem?_singleton, ite_none_right_eq_some] at h
    obtain ⟨hi, h⟩ := h
    exact .inr ⟨by omega, Option.some.inj h⟩

def Groups.add (G : Groups) (g : Group) (h : ∀ p, g.parent = some p → p < G.groups.length) :
    Groups where
  groups := G.groups ++ [g]
  parent_lt := by
    intro i g' p hi hp
    rcases getElem?_concat_some hi with hi | ⟨rfl, rfl⟩
    · exact G.parent_lt i g' p hi hp
    · exact h p hp

def Groups.use (G : Groups) (group : Nat) (handler : Handler) : Groups where
  groups := G.groups.modify group fun g => { g with middlewares := g.middlewares ++ [handler] }
  parent_lt := by
    intro i g p hi hp
    rw [getElem?_modify] at hi
    obtain ⟨g', hg', rfl⟩ := map_eq_some_iff.1 hi
    refine G.parent_lt i g' p hg' ?_
    split at hp <;> exact hp

def joinPath (p₁ p₂ : Option Bytes) : Bytes :=
  if p₁.getD [] = [] then p₂.getD [slash]
  else if p₂.getD [] = [] then p₁.getD []
  else
    let start := (p₁.getD []).rdropWhile (· = slash)
    let rest := (p₂.getD []).dropWhile (· = slash)
    if 0 < start.length then start ++ slash :: rest else slash :: rest

def csilkGroupNew (G : Groups) (p : Option Bytes) : Groups :=
  G.add ⟨none, p.getD [slash], []⟩ nofun

def csilkGroupGroup (G : Groups) (parent : Nat) (p : Option Bytes) : Option Groups :=
  match h : G.groups[parent]? with
  | none => none
  | some g => some (G.add ⟨some parent, joinPath (some g.groupPrefix) p, []⟩ (by
      rintro _ ⟨rfl⟩
      exact (List.getElem?_eq_some_iff.1 h).1))

def csilkGroupUse (G : Groups) (group : Nat) (handler : Handler) : Option Groups :=
  if group < G.groups.length then some (G.use group handler) else none

def gatherHandlers (G : Groups) (group : Nat) (handlers : List Handler) : List Handler :=
  match hg : G.groups[group]? with
  | none => handlers
  | some g =>
    let handlers := match hp : g.parent with
      | some parent =>
        have := G.parent_lt group g parent hg hp
        gatherHandlers G parent handlers
      | none => handlers
    handlers ++ g.middlewares
termination_by group

structure Registry where
  router : Router
  groups : Groups

def simpleRoute (method : Option Bytes) (path : Bytes) (handlers : List Handler) : RouteArgs where
  method := method
  path := some path
  handlers := some handlers
  pathPattern := some path
  inputType := none
  outputType := none
  summary := none
  description := none
  permRequired := none
  permResource := none

def csilkGroupAddHandlers (s : Registry) (group : Nat) (method path : Option Bytes)
    (handlers : List Handler) : Int × Registry :=
  match s.groups.groups[group]? with
  | none => (-1, s)
  | some g =>
    if handlers = [] then (-1, s)
    else
      let fullPath := joinPath (some g.groupPrefix) path
      let combined := gatherHandlers s.groups group [] ++ handlers
      let (rc, router) := routerAddFull s.router (simpleRoute method fullPath combined)
      (rc, { s with router := router })

def csilkGroupAddRoute (s : Registry) (group : Nat) (method path : Option Bytes)
    (handler : Handler) : Int × Registry :=
  csilkGroupAddHandlers s group method path [handler]

theorem segments_append_slash (p q : Bytes) :
    segments (p ++ slash :: q) = segments p ++ segments q := by
  rw [segments, splitOnP_append_cons _ _ (by simp), filter_append]
  rfl

theorem eq_replicate_slash {p : Bytes} (h : ∀ b ∈ p, b = slash) :
    p = List.replicate p.length slash :=
  eq_replicate_of_mem h

theorem segments_dropWhile_slash (p : Bytes) : segments (p.dropWhile (· = slash)) = segments p := by
  have hrep := eq_replicate_slash (p := p.takeWhile (· = slash))
    fun b hb => by simpa using mem_takeWhile_imp hb
  conv_rhs => rw [← takeWhile_append_dropWhile (p := fun b => b = slash) (l := p), hrep]
  rw [segments_slashes]

theorem segments_append_slashes (p : Bytes) (n : Nat) :
    segments (p ++ List.replicate n slash) = segments p := by
  cases n with
  | zero => rw [replicate_zero, append_nil]
  | succ n =>
    have hnil : segments (List.replicate n slash) = [] := by
      have h := segments_slashes n []
      rwa [append_nil] at h
    rw [replicate_succ, segments_append_slash, hnil, append_nil]

theorem segments_rdropWhile_slash (p : Bytes) :
    segments (p.rdropWhile (· = slash)) = segments p := by
  have hrep := eq_replicate_slash (p := p.rtakeWhile (· = slash))
    fun b hb => by simpa using mem_rtakeWhile_imp hb
  conv_rhs => rw [← rdropWhile_append_rtakeWhile (p := fun b => b = slash) (l := p), hrep]
  rw [segments_append_slashes]

/-- Joining two paths concatenates their segments, whatever their slashes. -/
theorem segments_joinPath (p₁ p₂ : Option Bytes) :
    segments (joinPath p₁ p₂) = segments (p₁.getD []) ++ segments (p₂.getD []) := by
  have hslash : segments [slash] = [] := segments_slash []
  unfold joinPath
  split
  · rename_i h
    rw [h]
    cases p₂ with
    | none => exact hslash
    | some p => rfl
  · split
    · rename_i h
      rw [h]
      exact (append_nil _).symm
    · have hstart := segments_rdropWhile_slash (p₁.getD [])
      have hrest := segments_dropWhile_slash (p₂.getD [])
      dsimp only
      split
      · rw [segments_append_slash, hstart, hrest]
      · rename_i hlen
        have hnil := length_eq_zero_iff.1 (Nat.eq_zero_of_not_pos hlen)
        rw [segments_slash, hrest, ← hstart, hnil]
        rfl

def simpleEntry (r : Router) (method path : Bytes) (handlers : List Handler) : MethodHandler :=
  newHandler r (simpleRoute (some method) path handlers) method path handlers

theorem routerAddFull_simpleRoute (hr : Trie r.root) (ht : r.root.type ≠ .wildcard)
    (method path : Bytes) (handlers : List Handler) :
    ∃ root,
      routerAddFull r (simpleRoute (some method) path handlers) = (0, { r with root := root }) ∧
      Trie root ∧ root.type ≠ .wildcard ∧
      ∀ ks m, findMethod (lookup root ks) m = (findMethod (lookup r.root ks) m).or
        (if m = method ∧ ks = patternKeys path then some (simpleEntry r method path handlers)
        else none) := by
  have hmethod : (simpleEntry r method path handlers).method = method := rfl
  obtain ⟨hrc, hkey, htrie, hl⟩ :=
    addSegments_spec (simpleEntry r method path handlers) r.root path hr ht
  refine ⟨(addSegments (simpleEntry r method path handlers) r.root path).2, Prod.ext hrc rfl, htrie,
    fun h => ht ((congrArg Key.type hkey).symm.trans h), ?_⟩
  intro ks m
  rw [hl]
  by_cases hk : ks = patternKeys path
  · rw [if_pos hk, findMethod_insertHandler, hmethod]
    simp only [hk, and_true, eq_comm]
  · rw [if_neg hk, if_neg (fun h => hk h.2), or_none]

end Csilk.Routing
