import Csilk.Messaging.Topics

namespace Csilk.Messaging
open List

def OnePattern (fnmatch : Bytes → Bytes → Bool) (patterns : List (Option Bytes)) (topic : Bytes) :
    Prop :=
  ∀ p q, some p ∈ patterns → some q ∈ patterns → fnmatch p topic = true →
    fnmatch q topic = true → p = q

theorem filter_name_eq {topics : List (Topic H)} (hn : (topics.map Topic.name).Nodup)
    (ht : t ∈ topics) : (topics.filter fun u => u.name = t.name) = [t] := by
  induction topics with
  | nil => cases ht
  | cons u us ih =>
    obtain ⟨hne, hus⟩ := nodup_cons.1 hn
    rcases mem_cons.1 ht with rfl | ht
    · rw [filter_cons, if_pos (decide_eq_true rfl), filter_eq_nil_iff.2]
      intro v hv hname
      exact hne (List.mem_map.2 ⟨v, hv, of_decide_eq_true hname⟩)
    · rw [filter_cons_of_neg, ih hus ht]
      intro hname
      exact hne (List.mem_map.2 ⟨t, ht, (of_decide_eq_true hname).symm⟩)

theorem Filed.matching_eq {calls : List (Option Bytes × H)} (hf : Filed calls topics)
    (hone : OnePattern fnmatch (calls.map Prod.fst) topic) :
    matching fnmatch topic topics =
      (calls.filter fun c => c.1.any fun p => fnmatch p topic).map Prod.snd := by
  by_cases hex : ∃ t ∈ topics, fnmatch t.name topic = true
  · obtain ⟨t, ht, hmatch⟩ := hex
    have hname := (hf.mem t.name).1 (List.mem_map_of_mem ht)
    have htopics : (topics.filter fun u => fnmatch u.name topic) =
        topics.filter fun u => u.name = t.name := by
      apply filter_congr
      intro u hu
      rw [Bool.eq_iff_iff, decide_eq_true_eq]
      constructor
      · intro hmu
        exact hone _ _ ((hf.mem u.name).1 (List.mem_map_of_mem hu)) hname hmu hmatch
      · intro heq
        rw [heq, hmatch]
    have hcalls : (calls.filter fun c => c.1.any fun p => fnmatch p topic) =
        calls.filter fun c => c.1 = some t.name := by
      apply filter_congr
      intro c hc
      rw [Bool.eq_iff_iff, decide_eq_true_eq, Option.any_eq_true]
      constructor
      · rintro ⟨p, hp, hmp⟩
        have hmem : some p ∈ calls.map Prod.fst := List.mem_map.2 ⟨c, hc, hp⟩
        rw [hp, hone _ _ hmem hname hmp hmatch]
      · intro heq
        exact ⟨t.name, heq, hmatch⟩
    rw [matching, htopics, filter_name_eq hf.names ht, hcalls, flatMap_singleton,
      hf.handlers t ht, handlersOf]
  · have htopics : (topics.filter fun u => fnmatch u.name topic) = [] :=
      filter_eq_nil_iff.2 fun u hu hmu => hex ⟨u, hu, hmu⟩
    have hcalls : (calls.filter fun c => c.1.any fun p => fnmatch p topic) = [] := by
      apply filter_eq_nil_iff.2
      intro c hc hany
      obtain ⟨p, hp, hmp⟩ := (Option.any_eq_true _ _).1 hany
      obtain ⟨u, hu, hname⟩ := List.mem_map.1 ((hf.mem p).2 (List.mem_map.2 ⟨c, hc, hp⟩))
      exact hex ⟨u, hu, hname ▸ hmp⟩
    rw [matching, htopics, hcalls]
    rfl

def callsWith (patterns : List (Option Bytes)) (handler : Nat → H) : List (Option Bytes × H) :=
  patterns.mapIdx fun i p => (p, handler i)

section

variable (patterns : List (Option Bytes))
include patterns

theorem callsWith_concat (p : Option Bytes) (handler : Nat → H) :
    callsWith (patterns ++ [p]) handler =
      callsWith patterns handler ++ [(p, handler patterns.length)] :=
  mapIdx_concat

theorem callsWith_fst (handler : Nat → H) :
    (callsWith patterns handler).map Prod.fst = patterns := by
  induction patterns using List.reverseRecOn with
  | nil => rfl
  | append_singleton patterns p ih => rw [callsWith_concat, map_append, ih]; rfl

theorem callsWith_snd (handler : Nat → H) :
    (callsWith patterns handler).map Prod.snd = (List.range patterns.length).map handler := by
  induction patterns using List.reverseRecOn with
  | nil => rfl
  | append_singleton patterns p ih =>
    rw [callsWith_concat, map_append, ih, length_append, length_singleton,
      range_succ, map_append]
    rfl

theorem register_later :
    (register (callsWith patterns id)).topics.Pairwise fun t u =>
      ∃ x ∈ t.handlers, ∃ y ∈ u.handlers, y < x := by
  induction patterns using List.reverseRecOn with
  | nil => exact .nil
  | append_singleton patterns p ih =>
    have hf := register_filed (callsWith patterns id)
    rw [callsWith_concat, register_concat]
    cases p with
    | none => exact ih
    | some name =>
      rw [csilkMqUse, getOrCreateTopic]
      split
      case isTrue =>
        rw [appendHandler_eq_map hf.names, pairwise_map]
        apply ih.imp
        rintro t u ⟨x, hx, y, hy, hlt⟩
        have hgrow : ∀ (v : Topic Nat) (z : Nat), z ∈ v.handlers →
            z ∈ (if v.name = name then { v with handlers := v.handlers ++ [id patterns.length] }
              else v).handlers := by
          intro v z hz
          split
          · exact mem_append_left _ hz
          · exact hz
        exact ⟨x, hgrow t x hx, y, hgrow u y hy, hlt⟩
      case isFalse =>
        rw [appendHandler, if_pos rfl]
        apply List.Pairwise.cons _ ih
        intro u hu
        obtain ⟨c, hc, hname⟩ := List.mem_map.1 ((hf.mem u.name).1 (List.mem_map_of_mem hu))
        have hlt : c.2 < patterns.length := by
          have hmem := List.mem_map_of_mem (f := Prod.snd) hc
          rw [callsWith_snd, List.map_id, mem_range] at hmem
          exact hmem
        refine ⟨_, mem_append_right _ (mem_singleton_self _), c.2, ?_, hlt⟩
        rw [hf.handlers u hu, handlersOf]
        exact List.mem_map_of_mem (mem_filter.2 ⟨hc, decide_eq_true hname⟩)

end

theorem callsWith_inOrder_sorted (fnmatch : Bytes → Bytes → Bool) (patterns : List (Option Bytes))
    (topic : Bytes) :
    (((callsWith patterns id).filter fun c => c.1.any fun p => fnmatch p topic).map
      Prod.snd).Pairwise (· < ·) := by
  have hsub := (filter_sublist (l := callsWith patterns id)
    (p := fun c => c.1.any fun p => fnmatch p topic)).map Prod.snd
  rw [callsWith_snd, List.map_id] at hsub
  exact pairwise_lt_range.sublist hsub

theorem eq_of_pairwise_false {l : List α} (h : l.Pairwise fun _ _ => False) (ha : a ∈ l)
    (hb : b ∈ l) : a = b := by
  cases l with
  | nil => cases ha
  | cons v vs =>
    have hvs : vs = [] := eq_nil_iff_forall_not_mem.2 (pairwise_cons.1 h).1
    rw [hvs, mem_singleton] at ha hb
    rw [ha, hb]

theorem onePattern_of_sorted
    (hs : (matching fnmatch topic (register (callsWith patterns id)).topics).Pairwise (· < ·)) :
    OnePattern fnmatch patterns topic := by
  have hf := register_filed (callsWith patterns id)
  rw [matching, pairwise_flatMap] at hs
  have hempty : ((register (callsWith patterns id)).topics.filter
      fun t => fnmatch t.name topic).Pairwise fun _ _ => False := by
    have hlater := (register_later patterns).filter fun t => fnmatch t.name topic
    apply (hlater.and hs.2).imp
    rintro t u ⟨⟨x, hx, y, hy, hlt⟩, hsorted⟩
    exact absurd (hsorted x hx y hy) (not_lt.2 hlt.le)
  intro p q hp hq hmp hmq
  rw [← callsWith_fst patterns id] at hp hq
  obtain ⟨t, ht, rfl⟩ := List.mem_map.1 ((hf.mem p).2 hp)
  obtain ⟨u, hu, rfl⟩ := List.mem_map.1 ((hf.mem q).2 hq)
  rw [eq_of_pairwise_false hempty (mem_filter.2 ⟨ht, hmp⟩) (mem_filter.2 ⟨hu, hmq⟩)]

theorem inOrder_length (fnmatch : Bytes → Bytes → Bool) (calls : List (Option Bytes × H))
    (topic : Bytes) : (inOrder fnmatch calls topic).length =
      (calls.map Prod.fst).countP fun p => p.all fun p => fnmatch p topic := by
  unfold inOrder
  induction calls with
  | nil => rfl
  | cons c calls ih =>
    simp only [length_append] at ih ⊢
    rw [map_cons, countP_cons, ← ih, filter_cons, filter_cons]
    cases c.1 with
    | none =>
      simp
      omega
    | some p =>
      cases hm : fnmatch p topic with
      | true => simp [hm, add_assoc]
      | false => simp [hm]

theorem handlersRun_eq (h : (handlerChain fnmatch r topic).length < 2 ^ 31) :
    handlersRun fnmatch r topic = handlerChain fnmatch r topic :=
  csilkMqNext_eq _ h 0 (Nat.zero_le _)

theorem handlersRun_length (fnmatch : Bytes → Bytes → Bool) (r : Registry H) (topic : Bytes) :
    (handlersRun fnmatch r topic).length < 2 ^ 31 := by
  have hnext := csilkMqNext_length (handlerChain fnmatch r topic) 0
  have hlt := toInt_lt (handlerChain fnmatch r topic).length
  have hrun : (handlersRun fnmatch r topic).length + 0 ≤
      max 0 (toInt (handlerChain fnmatch r topic).length).toNat := hnext
  omega

/-- Handlers run in the order of registration exactly if at most one pattern matches the topic and
their number fits into an `int`. -/
theorem handlersRun_inOrder_iff (fnmatch : Bytes → Bytes → Bool) (patterns : List (Option Bytes))
    (topic : Bytes) :
    (∀ (H : Type) (handler : Nat → H),
      handlersRun fnmatch (register (callsWith patterns handler)) topic =
        inOrder fnmatch (callsWith patterns handler) topic) ↔
      OnePattern fnmatch patterns topic ∧
        patterns.countP (fun p => p.all fun p => fnmatch p topic) < 2 ^ 31 := by
  have hchain : ∀ (H : Type) (handler : Nat → H),
      (handlerChain fnmatch (register (callsWith patterns handler)) topic).length =
        patterns.countP fun p => p.all fun p => fnmatch p topic := by
    intro H handler
    rw [(handlerChain_perm _).length_eq, inOrder_length, callsWith_fst]
  constructor
  · intro h
    have hid := h Nat id
    have hlen : patterns.countP (fun p => p.all fun p => fnmatch p topic) < 2 ^ 31 := by
      have hrun := handlersRun_length fnmatch (register (callsWith patterns id)) topic
      rw [hid, inOrder_length, callsWith_fst] at hrun
      exact hrun
    constructor
    · apply onePattern_of_sorted
      rw [handlersRun_eq ((hchain Nat id).trans_lt hlen), handlerChain, inOrder,
        register_globalMiddlewares] at hid
      rw [append_cancel_left hid]
      exact callsWith_inOrder_sorted fnmatch patterns topic
    · exact hlen
  · rintro ⟨hone, hlen⟩ H handler
    have hf := register_filed (callsWith patterns handler)
    rw [← callsWith_fst patterns handler] at hone
    rw [handlersRun_eq ((hchain H handler).trans_lt hlen), handlerChain,
      register_globalMiddlewares, hf.matching_eq hone, inOrder]

/-- Two patterns that match the topic: the handler registered last runs first. -/
theorem handlersRun_reversed :
    handlersRun (fun _ _ => true) (register (callsWith [some [1], some [2]] id)) [0] = [1, 0] ∧
      inOrder (fun _ _ => true) (callsWith [some [1], some [2]] id) [0] = [0, 1] := by
  constructor
  · rw [handlersRun_eq (by decide)]
    rfl
  · rfl

/-- Whatever their order, the handlers registered for a topic run, each as often as registered. -/
theorem handlersRun_perm_iff (fnmatch : Bytes → Bytes → Bool) (calls : List (Option Bytes × H))
    (topic : Bytes) :
    handlersRun fnmatch (register calls) topic ~ inOrder fnmatch calls topic ↔
      (inOrder fnmatch calls topic).length < 2 ^ 31 := by
  constructor
  · intro h
    rw [← h.length_eq]
    exact handlersRun_length ..
  · intro h
    have hperm : handlerChain fnmatch (register calls) topic ~ _ := handlerChain_perm calls
    rw [← hperm.length_eq] at h
    rw [handlersRun_eq h]
    exact hperm

end Csilk.Messaging
