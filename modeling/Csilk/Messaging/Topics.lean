import Csilk.Bytes
import Mathlib.Algebra.Group.Int.Defs
import Mathlib.Algebra.Group.Nat.Defs
import Mathlib.Data.Int.Basic
import Mathlib.Data.List.Induction
import Mathlib.Data.List.Nodup

namespace Csilk.Messaging
open List

structure Topic (H : Type) where
  name : Bytes
  handlers : List H

structure Registry (H : Type) where
  topics : List (Topic H)
  globalMiddlewares : List H

def Registry.new : Registry H := ⟨[], []⟩

def getOrCreateTopic (topics : List (Topic H)) (name : Bytes) : List (Topic H) :=
  if topics.any fun t => t.name = name then topics else ⟨name, []⟩ :: topics

def appendHandler (name : Bytes) (h : H) : List (Topic H) → List (Topic H)
  | [] => []
  | t :: ts =>
    if t.name = name then { t with handlers := t.handlers ++ [h] } :: ts
    else t :: appendHandler name h ts

def csilkMqUse (r : Registry H) : Option Bytes × H → Registry H
  | (none, h) => { r with globalMiddlewares := r.globalMiddlewares ++ [h] }
  | (some name, h) =>
    { r with topics := appendHandler name h (getOrCreateTopic r.topics name) }

def register (calls : List (Option Bytes × H)) : Registry H := calls.foldl csilkMqUse .new

section
variable (fnmatch : Bytes → Bytes → Bool)

def matching (topic : Bytes) (topics : List (Topic H)) : List H :=
  (topics.filter fun t => fnmatch t.name topic).flatMap Topic.handlers

def handlerChain (r : Registry H) (topic : Bytes) : List H :=
  r.globalMiddlewares ++ matching fnmatch topic r.topics

end

@[irreducible] def toInt (n : Nat) : Int :=
  if n % 2 ^ 32 < 2 ^ 31 then (n % 2 ^ 32 : Nat) else (n % 2 ^ 32 : Nat) - 2 ^ 32

theorem toInt_lt (n : Nat) : toInt n < 2 ^ 31 := by
  unfold toInt
  split <;> omega

theorem toInt_of_lt (h : n < 2 ^ 31) : toInt n = n := by
  unfold toInt
  rw [Nat.mod_eq_of_lt (by omega), if_pos h]

def csilkMqNext (handlers : List H) (handlerIndex : Int) : List H :=
  if handlerIndex + 1 < toInt handlers.length then
    match handlers[(handlerIndex + 1).toNat]? with
    | none => []
    | some h => h :: csilkMqNext handlers (handlerIndex + 1)
  else []
termination_by (toInt handlers.length - handlerIndex).toNat
decreasing_by omega

def handlersRun (fnmatch : Bytes → Bytes → Bool) (r : Registry H) (topic : Bytes) : List H :=
  csilkMqNext (handlerChain fnmatch r topic) (-1)

theorem csilkMqNext_eq (hs : List H) (h : hs.length < 2 ^ 31) (i : Nat) (hi : i ≤ hs.length) :
    csilkMqNext hs ((i : Int) - 1) = hs.drop i := by
  generalize hn : hs.length - i = n
  induction n generalizing i with
  | zero =>
    rw [csilkMqNext, toInt_of_lt h, if_neg (by omega), drop_eq_nil_of_le (by omega)]
  | succ n ih =>
    have hlt : i < hs.length := by omega
    have hindex : (i : Int) - 1 + 1 = i := by omega
    have hnext := ih (i + 1) (by omega) (by omega)
    rw [Int.natCast_succ, Int.add_sub_cancel] at hnext
    rw [csilkMqNext, toInt_of_lt h, hindex, if_pos (by omega), Int.toNat_natCast,
      getElem?_eq_getElem hlt, drop_eq_getElem_cons hlt]
    exact congrArg _ hnext

theorem csilkMqNext_length (hs : List H) (i : Nat) :
    (csilkMqNext hs ((i : Int) - 1)).length + i ≤ max i (toInt hs.length).toNat := by
  generalize hn : (toInt hs.length).toNat - i = n
  induction n generalizing i with
  | zero =>
    rw [csilkMqNext, if_neg (by omega), length_nil]
    omega
  | succ n ih =>
    have hindex : (i : Int) - 1 + 1 = i := by omega
    have hnext := ih (i + 1) (by omega)
    rw [Int.natCast_succ, Int.add_sub_cancel] at hnext
    rw [csilkMqNext, hindex, if_pos (by omega)]
    cases hs[(i : Int).toNat]? with
    | none =>
      rw [length_nil]
      omega
    | some h =>
      rw [length_cons]
      omega

def inOrder (fnmatch : Bytes → Bytes → Bool) (calls : List (Option Bytes × H)) (topic : Bytes) :
    List H :=
  (calls.filter fun c => c.1 = none).map Prod.snd ++
    (calls.filter fun c => c.1.any fun p => fnmatch p topic).map Prod.snd

def handlersOf (calls : List (Option Bytes × H)) (name : Bytes) : List H :=
  (calls.filter fun c => c.1 = some name).map Prod.snd

theorem register_concat (calls : List (Option Bytes × H)) (c : Option Bytes × H) :
    register (calls ++ [c]) = csilkMqUse (register calls) c := by
  rw [register, foldl_append]
  rfl

theorem register_globalMiddlewares (calls : List (Option Bytes × H)) :
    (register calls).globalMiddlewares = (calls.filter fun c => c.1 = none).map Prod.snd := by
  induction calls using List.reverseRecOn with
  | nil => rfl
  | append_singleton calls c ih =>
    rw [register_concat, filter_append, map_append, ← ih]
    obtain ⟨_ | name, h⟩ := c
    · rfl
    · exact (append_nil _).symm

section
variable {fnmatch : Bytes → Bytes → Bool} {topics : List (Topic H)}

theorem matching_cons (t : Topic H) (ts : List (Topic H)) : matching fnmatch topic (t :: ts) =
    (if fnmatch t.name topic then t.handlers else []) ++ matching fnmatch topic ts := by
  unfold matching
  rw [filter_cons]
  split <;> rfl

theorem matching_getOrCreateTopic :
    matching fnmatch topic (getOrCreateTopic topics name) = matching fnmatch topic topics := by
  unfold getOrCreateTopic
  split
  · rfl
  · rw [matching_cons, ite_self, nil_append]

theorem mem_getOrCreateTopic : name ∈ (getOrCreateTopic topics name).map Topic.name := by
  unfold getOrCreateTopic
  split
  case isTrue h =>
    obtain ⟨t, ht, hname⟩ := List.any_eq_true.1 h
    exact List.mem_map.2 ⟨t, ht, of_decide_eq_true hname⟩
  case isFalse => exact mem_cons_self

theorem matching_appendHandler (hmem : name ∈ topics.map Topic.name) :
    (matching fnmatch topic (appendHandler name h topics)).Perm
      (matching fnmatch topic topics ++ if fnmatch name topic then [h] else []) := by
  induction topics with
  | nil => cases hmem
  | cons t ts ih =>
    rw [appendHandler]
    split
    case isTrue hname =>
      subst hname
      rw [matching_cons, matching_cons]
      split
      · rw [append_assoc, append_assoc]
        exact (perm_append_comm).append_left _
      · rw [append_nil]
    case isFalse hname =>
      have hrest := (mem_cons.1 hmem).resolve_left (Ne.symm hname)
      rw [matching_cons, matching_cons, append_assoc]
      exact (ih hrest).append_left _

end

theorem handlerChain_perm (calls : List (Option Bytes × H)) :
    (handlerChain fnmatch (register calls) topic).Perm (inOrder fnmatch calls topic) := by
  unfold handlerChain inOrder
  rw [register_globalMiddlewares]
  apply List.Perm.append_left
  induction calls using List.reverseRecOn with
  | nil => exact .refl _
  | append_singleton calls c ih =>
    rw [register_concat, filter_append, map_append]
    obtain ⟨_ | name, h⟩ := c
    · rw [filter_cons_of_neg (by simp), filter_nil, map_nil, append_nil]
      exact ih
    · apply (matching_appendHandler mem_getOrCreateTopic).trans
      rw [matching_getOrCreateTopic]
      apply ih.append
      rw [filter_cons, filter_nil]
      simp only [Option.any_some]
      split <;> exact .refl _

structure Filed (calls : List (Option Bytes × H)) (topics : List (Topic H)) : Prop where
  names : (topics.map Topic.name).Nodup
  handlers : ∀ t ∈ topics, t.handlers = handlersOf calls t.name
  mem : ∀ name, name ∈ topics.map Topic.name ↔ some name ∈ calls.map Prod.fst

theorem appendHandler_eq_map {topics : List (Topic H)} (hn : (topics.map Topic.name).Nodup) :
    appendHandler name h topics = topics.map fun t =>
      if t.name = name then { t with handlers := t.handlers ++ [h] } else t := by
  induction topics with
  | nil => rfl
  | cons t ts ih =>
    obtain ⟨hne, hts⟩ := nodup_cons.1 hn
    rw [appendHandler, map_cons]
    split
    case isTrue hname =>
      have hrest : ∀ u ∈ ts, (if u.name = name then { u with handlers := u.handlers ++ [h] }
          else u) = u := by
        intro u hu
        apply if_neg
        intro hu'
        exact hne (List.mem_map.2 ⟨u, hu, hu'.trans hname.symm⟩)
      rw [map_congr_left hrest, List.map_id']
    case isFalse => rw [ih hts]

theorem names_appendHandler {topics : List (Topic H)} :
    (appendHandler name h topics).map Topic.name = topics.map Topic.name := by
  induction topics with
  | nil => rfl
  | cons t ts ih =>
    rw [appendHandler]
    split
    · rfl
    · rw [map_cons, ih, map_cons]

theorem names_getOrCreateTopic {topics : List (Topic H)} : (getOrCreateTopic topics name).map Topic.name =
    if name ∈ topics.map Topic.name then topics.map Topic.name
    else name :: topics.map Topic.name := by
  have hany : (topics.any fun t => t.name = name) = true ↔ name ∈ topics.map Topic.name := by
    simp
  unfold getOrCreateTopic
  split
  case isTrue h => rw [if_pos (hany.1 h)]
  case isFalse h => rw [if_neg (fun hc => h (hany.2 hc)), map_cons]

theorem handlersOf_concat (calls : List (Option Bytes × H)) (p : Option Bytes) (h : H)
    (name : Bytes) : handlersOf (calls ++ [(p, h)]) name =
      handlersOf calls name ++ if p = some name then [h] else [] := by
  unfold handlersOf
  rw [filter_append, map_append, filter_cons]
  simp only [decide_eq_true_eq]
  split <;> rfl

theorem handlersOf_eq_nil {calls : List (Option Bytes × H)} (h : some name ∉ calls.map Prod.fst) : handlersOf calls name = [] := by
  unfold handlersOf
  rw [filter_eq_nil_iff.2, map_nil]
  intro c hc hname
  exact h (List.mem_map.2 ⟨c, hc, of_decide_eq_true hname⟩)

theorem Filed.getOrCreate (hf : Filed calls topics) (name : Bytes) :
    ((getOrCreateTopic topics name).map Topic.name).Nodup ∧
      ∀ t ∈ getOrCreateTopic topics name, t.handlers = handlersOf calls t.name := by
  constructor
  · rw [names_getOrCreateTopic]
    split
    case isTrue => exact hf.names
    case isFalse hnew => exact nodup_cons.2 ⟨hnew, hf.names⟩
  · unfold getOrCreateTopic
    split
    case isTrue => exact hf.handlers
    case isFalse hnew =>
      refine forall_mem_cons.2 ⟨?_, hf.handlers⟩
      apply (handlersOf_eq_nil _).symm
      intro hmem
      obtain ⟨u, hu, hname⟩ := List.mem_map.1 ((hf.mem name).2 hmem)
      exact hnew (List.any_eq_true.2 ⟨u, hu, decide_eq_true hname⟩)

theorem register_filed (calls : List (Option Bytes × H)) : Filed calls (register calls).topics := by
  induction calls using List.reverseRecOn with
  | nil =>
    constructor
    · exact nodup_nil
    · rintro _ ⟨⟩
    · intro name
      exact iff_of_false not_mem_nil not_mem_nil
  | append_singleton calls c ih =>
    rw [register_concat]
    obtain ⟨_ | name, h⟩ := c
    · refine ⟨ih.names, fun t ht => ?_, fun other => ?_⟩
      · rw [handlersOf_concat, if_neg (by simp), append_nil]
        exact ih.handlers t ht
      · apply (ih.mem other).trans
        simp
    · obtain ⟨hnames, hhandlers⟩ := ih.getOrCreate name
      refine ⟨?_, fun t ht => ?_, fun other => ?_⟩
      · rw [csilkMqUse, names_appendHandler]
        exact hnames
      · rw [csilkMqUse, appendHandler_eq_map hnames] at ht
        obtain ⟨u, hu, rfl⟩ := List.mem_map.1 ht
        rw [handlersOf_concat]
        split
        case isTrue hname => rw [if_pos (congrArg some hname.symm), hhandlers u hu]
        case isFalse hname =>
          rw [if_neg (fun hc => hname (Option.some.inj hc).symm), append_nil, hhandlers u hu]
      · rw [csilkMqUse, names_appendHandler, names_getOrCreateTopic, map_append]
        have hmem := ih.mem other
        simp only [map_cons, map_nil, mem_append, mem_singleton,
          Option.some.injEq]
        split
        case isTrue hold =>
          constructor
          · intro ho
            exact .inl (hmem.1 ho)
          · rintro (ho | rfl)
            · exact hmem.2 ho
            · exact hold
        case isFalse => rw [mem_cons, hmem, or_comm]

end Csilk.Messaging
