import Csilk.Lib.Adjacent
import Csilk.Lib.Update
import Mathlib.Data.List.Nodup

namespace Csilk.Queue
open Csilk.Lib Function
open List hiding head tail lookup

inductive Node (ν : Type) where
  | stub
  | item (n : ν)
deriving DecidableEq

structure Lfqueue (ν : Type) where
  head : Node ν
  tail : Node ν
  next : Node ν → Option (Node ν)

/-- The state of a call of `csilk_lfq_enqueue`: its next atomic access. -/
inductive EnqPc (ν : Type) where
  | store
  | exchange
  | link (prev : Node ν)
deriving DecidableEq

inductive DeqPc (ν : Type) where
  | loadNext (tail : Node ν)
  | loadNextOfFirst (tail : Node ν)
  | loadHead (tail : Node ν)
  | reinsert (tail : Node ν) (pc : EnqPc ν)
  | reload (tail : Node ν)
deriving DecidableEq

inductive Progress (π ρ : Type) where
  | running (pc : π)
  | returned (result : ρ)
deriving DecidableEq

variable {ν : Type} [DecidableEq ν]

def csilkLfqInit (memory : Node ν → Option (Node ν)) : Lfqueue ν where
  head := .stub
  tail := .stub
  next := update memory .stub none

def csilkLfqEnqueue (q : Lfqueue ν) (n : Node ν) : EnqPc ν → Lfqueue ν × Option (EnqPc ν)
  | .store => ({ q with next := update q.next n none }, some .exchange)
  | .exchange => ({ q with head := n }, some (.link q.head))
  | .link prev => ({ q with next := update q.next prev (some n) }, none)

def takeTail (q : Lfqueue ν) (tail : Node ν) (null : Progress (DeqPc ν) (Option (Node ν))) :
    Lfqueue ν × Progress (DeqPc ν) (Option (Node ν)) :=
  match q.next tail with
  | some next => ({ q with tail := next }, .returned (some tail))
  | none => (q, null)

def csilkLfqDequeue (q : Lfqueue ν) : DeqPc ν → Lfqueue ν × Progress (DeqPc ν) (Option (Node ν))
  | .loadNext .stub =>
    match q.next .stub with
    | none => (q, .returned none)
    | some next => ({ q with tail := next }, .running (.loadNextOfFirst next))
  | .loadNext (.item n) => takeTail q (.item n) (.running (.loadHead (.item n)))
  | .loadNextOfFirst tail => takeTail q tail (.running (.loadHead tail))
  | .loadHead tail =>
    if tail = q.head then (q, .running (.reinsert tail .store)) else (q, .returned none)
  | .reinsert tail pc =>
    match csilkLfqEnqueue q .stub pc with
    | (q, some pc) => (q, .running (.reinsert tail pc))
    | (q, none) => (q, .running (.reload tail))
  | .reload tail => takeTail q tail (.returned none)

def EnqPc.Ok (q : Lfqueue ν) (chain : List (Node ν)) (n : Node ν) : EnqPc ν → Prop
  | .store => n ∉ chain
  | .exchange => n ∉ chain ∧ q.next n = none
  | .link prev => Adj chain prev n ∧ q.next prev = none

/-- The chain after the next step of a call for node `n`. -/
def EnqPc.grow (n : Node ν) (chain : List (Node ν)) : EnqPc ν → List (Node ν)
  | .exchange => chain ++ [n]
  | _ => chain

/-- The nodes from `tail` to `head` in the order of their exchanges; `calls` are the calls by node.
-/
structure Linked (q : Lfqueue ν) (calls : Node ν → Option (EnqPc ν)) (chain : List (Node ν)) :
    Prop where
  first : chain.head? = some q.tail
  last : chain.getLast? = some q.head
  nodup : chain.Nodup
  last_open : q.next q.head = none
  links : ∀ a b, Adj chain a b → q.next a = some b ∨ calls b = some (.link a)
  ok : ∀ n pc, calls n = some pc → pc.Ok q chain n

theorem csilkLfqInit_linked (memory : Node ν → Option (Node ν)) :
    Linked (csilkLfqInit memory) (fun _ => none) [.stub] where
  first := rfl
  last := rfl
  nodup := nodup_singleton _
  last_open := by simp [csilkLfqInit]
  links a b hab := by simp [adj_cons, not_adj_nil] at hab
  ok n pc hn := by cases hn

omit [DecidableEq ν] in
theorem EnqPc.Ok.mono {pc : EnqPc ν} {q q' : Lfqueue ν} (h : pc.Ok q chain n)
    (hout : n ∉ chain → n ∉ chain' ∧ q'.next n = q.next n)
    (hadj : ∀ a, Adj chain a n → q.next a = none → Adj chain' a n ∧ q'.next a = q.next a) :
    pc.Ok q' chain' n := by
  cases pc with
  | store => exact (hout h).1
  | exchange => exact ⟨(hout h.1).1, (hout h.1).2.trans h.2⟩
  | link prev => exact ⟨(hadj prev h.1 h.2).1, (hadj prev h.1 h.2).2.trans h.2⟩

section

variable {q q' : Lfqueue ν} {calls : Node ν → Option (EnqPc ν)} {chain : List (Node ν)}
  (h : Linked q calls chain)
include h

theorem Linked.update_ok (hn : ∀ e, call = some e → e.Ok q' chain' n)
    (hout : ∀ m, m ≠ n → m ∉ chain → m ∉ chain' ∧ q'.next m = q.next m)
    (hadj : ∀ m a, m ≠ n → Adj chain a m → Adj chain' a m ∧ q'.next a = q.next a) (m : Node ν)
    (e : EnqPc ν) (hm : update calls n call m = some e) : e.Ok q' chain' m := by
  rcases update_cases (· = some e) hm with ⟨rfl, he⟩ | ⟨hne, hm⟩
  · exact hn e he
  · exact (h.ok m e hm).mono (hout m hne) fun a ha _ => hadj m a hne ha

theorem Linked.begin (hn : n ∉ chain) : Linked q (update calls n (some .store)) chain := by
  refine { h with links := ?_, ok := ?_ }
  · intro a b hab
    exact (h.links a b hab).imp_right (update_of_ne (ne_of_mem_of_not_mem hab.right_mem hn) _ _).trans
  · apply h.update_ok
    · rintro e ⟨⟩
      exact hn
    · exact fun m _ hm => ⟨hm, rfl⟩
    · exact fun m a _ ha => ⟨ha, rfl⟩

theorem Linked.enqueue (hn : calls n = some pc) :
    Linked (csilkLfqEnqueue q n pc).1 (update calls n (csilkLfqEnqueue q n pc).2)
      (pc.grow n chain) := by
  have hok := h.ok n pc hn
  cases pc with
  | store =>
    have hkeep : ∀ a ∈ chain, update q.next n none a = q.next a :=
      fun a ha => update_of_ne (ne_of_mem_of_not_mem ha hok) _ _
    have hlast := (hkeep _ (mem_of_getLast? h.last)).trans h.last_open
    refine ⟨h.first, h.last, h.nodup, hlast, ?_, ?_⟩
    · intro a b hab
      exact (h.links a b hab).imp (hkeep a hab.left_mem).trans
        (update_of_ne (ne_of_mem_of_not_mem hab.right_mem hok) _ _).trans
    · apply h.update_ok
      · rintro e ⟨⟩
        exact ⟨hok, update_self _ _ _⟩
      · exact fun m hne hm => ⟨hm, update_of_ne hne _ _⟩
      · exact fun m a _ ha => ⟨ha, hkeep a ha.left_mem⟩
  | exchange =>
    refine ⟨?_, getLast?_concat, ?_, hok.2, ?_, ?_⟩
    · rw [EnqPc.grow, head?_append, h.first]
      rfl
    · rw [EnqPc.grow, ← concat_eq_append]
      exact h.nodup.concat hok.1
    · intro a b hab
      rcases adj_concat.1 hab with hab | ⟨hlast, rfl⟩
      · exact (h.links a b hab).imp_right
          (update_of_ne (ne_of_mem_of_not_mem hab.right_mem hok.1) _ _).trans
      · rw [h.last] at hlast
        cases hlast
        exact .inr (update_self _ _ _)
    · apply h.update_ok
      · rintro e ⟨⟩
        exact ⟨adj_concat.2 (.inr ⟨h.last, rfl⟩), h.last_open⟩
      · exact fun m hne hm => ⟨by simp [EnqPc.grow, hm, hne], rfl⟩
      · exact fun m a _ ha => ⟨adj_concat.2 (.inl ha), rfl⟩
  | link prev =>
    obtain ⟨hadj, -⟩ := hok
    have hlast := (update_of_ne (hadj.ne_last h.nodup h.last).symm (some n) q.next).trans h.last_open
    refine ⟨h.first, h.last, h.nodup, hlast, ?_, ?_⟩
    · intro a b hab
      by_cases ha : a = prev
      · subst ha
        rw [hab.right_unique hadj h.nodup]
        exact .inl (update_self _ _ _)
      · refine (h.links a b hab).imp (update_of_ne ha _ _).trans fun hb => ?_
        refine (update_of_ne ?_ _ _).trans hb
        rintro rfl
        cases hn.symm.trans hb
        exact ha rfl
    · apply h.update_ok
      · rintro e ⟨⟩
      · exact fun m _ hm => ⟨hm, update_of_ne (ne_of_mem_of_not_mem hadj.left_mem hm).symm _ _⟩
      · refine fun m a hne ha => ⟨ha, update_of_ne ?_ _ _⟩
        rintro rfl
        exact hne (ha.right_unique hadj h.nodup)

omit [DecidableEq ν] in
theorem Linked.advance (hnext : q.next q.tail = some x) :
    ∃ rest, chain = q.tail :: rest ∧ Linked { q with tail := x } calls rest := by
  obtain ⟨rest, rfl⟩ := head?_eq_some_iff.1 h.first
  refine ⟨rest, rfl, ?_⟩
  obtain ⟨y, rest, rfl⟩ : ∃ y l, rest = y :: l := by
    cases rest with
    | nil =>
      have hlast : q.tail = q.head := Option.some.inj h.last
      rw [hlast, h.last_open] at hnext
      cases hnext
    | cons y l => exact ⟨y, l, rfl⟩
  have hxy : y = x := by
    rcases h.links q.tail y (adj_cons.2 (.inl ⟨rfl, rfl⟩)) with hlink | hcall
    · exact Option.some.inj (hlink.symm.trans hnext)
    · rw [(h.ok y _ hcall).2] at hnext
      cases hnext
  refine ⟨congrArg some hxy, ?_, (nodup_cons.1 h.nodup).2, h.last_open, ?_, ?_⟩
  · rw [← h.last, getLast?_cons_cons]
  · intro a b hab
    exact h.links a b (adj_cons.2 (.inr hab))
  · intro n e hn
    refine (h.ok n e hn).mono (fun hout => ⟨not_mem_of_not_mem_cons hout, rfl⟩) fun a ha hnone => ?_
    refine ⟨(adj_cons.1 ha).resolve_left ?_, rfl⟩
    rintro ⟨rfl, -⟩
    rw [hnone] at hnext
    cases hnext

omit [DecidableEq ν] in
theorem Linked.tail_free (hchain : chain = a :: rest) : calls a = none := by
  subst hchain
  have hnodup := (nodup_cons.1 h.nodup).1
  cases hcall : calls a with
  | none => rfl
  | some e =>
    have hok := h.ok a e hcall
    cases e with
    | store => exact absurd mem_cons_self hok
    | exchange => exact absurd mem_cons_self hok.1
    | link prev =>
      rcases adj_cons.1 hok.1 with ⟨-, hb⟩ | hb
      · exact absurd (mem_of_head? hb) hnodup
      · exact absurd hb.right_mem hnodup

omit [DecidableEq ν] in
theorem Linked.eq_singleton (heq : q.tail = q.head) : chain = [q.tail] := by
  have hlast := h.last
  obtain ⟨rest, rfl⟩ := head?_eq_some_iff.1 h.first
  cases rest with
  | nil => rfl
  | cons z rest =>
    rw [getLast?_cons_cons, ← heq] at hlast
    exact absurd (mem_of_getLast? hlast) (nodup_cons.1 h.nodup).1

omit [DecidableEq ν] in
theorem Linked.tail_eq_head (hnext : q.next q.tail = none)
    (hcalls : ∀ b, calls b ≠ some (.link q.tail)) : q.tail = q.head := by
  obtain ⟨rest, rfl⟩ := head?_eq_some_iff.1 h.first
  cases rest with
  | nil => exact Option.some.inj h.last
  | cons z rest =>
    rcases h.links q.tail z (adj_cons.2 (.inl ⟨rfl, rfl⟩)) with hlink | hcall
    · rw [hnext] at hlink
      cases hlink
    · exact absurd hcall (hcalls z)

end

def DeqPc.enq : DeqPc ν → Option (EnqPc ν)
  | .reinsert _ pc => some pc
  | _ => none

def DeqPc.Ok (q : Lfqueue ν) : DeqPc ν → Prop
  | .loadNext tail => tail = q.tail
  | .loadNextOfFirst tail | .loadHead tail | .reload tail | .reinsert tail _ =>
    tail = q.tail ∧ tail ≠ .stub

structure Shared (q : Lfqueue ν) (pc : Option (DeqPc ν)) (calls : Node ν → Option (EnqPc ν))
    (chain : List (Node ν)) : Prop where
  linked : Linked q calls chain
  stub : calls .stub = pc.bind DeqPc.enq
  consumer : ∀ p, pc = some p → p.Ok q

/-- What a dequeue relies on while no producer is between its two steps. -/
def DeqPc.Near (q : Lfqueue ν) (chain : List (Node ν)) : DeqPc ν → Prop
  | .loadNext _ => ∃ n, .item n ∈ chain
  | .loadNextOfFirst _ => True
  | .loadHead tail | .reinsert tail .store | .reinsert tail .exchange => q.head = tail
  | .reinsert tail (.link prev) => prev = tail
  | .reload tail => q.next tail ≠ none

def DeqPc.rank : DeqPc ν → Nat
  | .loadNext _ => 7
  | .loadNextOfFirst _ => 6
  | .loadHead _ => 5
  | .reinsert _ .store => 4
  | .reinsert _ .exchange => 3
  | .reinsert _ (.link _) => 2
  | .reload _ => 1

/-- A step of a dequeue; it goes on to a node when it is `near`. -/
inductive Outcome (near : Prop) (pc : DeqPc ν) (calls : Node ν → Option (EnqPc ν))
    (chain : List (Node ν)) : Lfqueue ν × Progress (DeqPc ν) (Option (Node ν)) → Prop
  | running (h : Shared q (some pc') calls' chain') (hcalls : ∀ n, calls' (.item n) = calls (.item n))
    (hchain : chain'.filter (· ≠ .stub) = chain.filter (· ≠ .stub))
    (hnear : near → (∀ l, pc'.Near q l) ∧ pc'.rank < pc.rank) :
    Outcome near pc calls chain (q, .running pc')
  | empty (h : Shared q none calls chain) (hnear : ¬near) :
    Outcome near pc calls chain (q, .returned none)
  | item (h : Shared q none calls chain') (hchain : chain = .item n :: chain') :
    Outcome near pc calls chain (q, .returned (some (.item n)))

section

variable {q : Lfqueue ν} {pc : DeqPc ν} {calls : Node ν → Option (EnqPc ν)} {chain : List (Node ν)}
  (h : Shared q (some pc) calls chain)
include h

omit [DecidableEq ν] in
theorem Shared.tail_eq_head (hpc : pc.enq = none) (hquiet : ∀ n a, calls (.item n) ≠ some (.link a))
    (hnext : q.next q.tail = none) : q.tail = q.head := by
  apply h.linked.tail_eq_head hnext
  intro b
  cases b with
  | stub =>
    rw [h.stub, Option.bind_some, hpc]
    simp
  | item n => exact hquiet n _

theorem Shared.takeTail (hpc : pc.enq = none) (htail : tail = q.tail) (hstub : tail ≠ .stub)
    (hnull : q.next q.tail = none → Outcome near pc calls chain (q, null)) :
    Outcome near pc calls chain (takeTail q tail null) := by
  subst htail
  rw [Queue.takeTail]
  cases hnext : q.next q.tail with
  | none => exact hnull hnext
  | some x =>
    obtain ⟨rest, hrest, hlinked⟩ := h.linked.advance hnext
    cases htail : q.tail with
    | stub => exact absurd htail hstub
    | item n => exact .item ⟨hlinked, h.stub.trans hpc, by simp⟩ (htail ▸ hrest)

theorem Shared.loadNext (hpc : pc.enq = none) (htail : tail = q.tail) (hstub : tail ≠ .stub)
    (hrank : 5 < pc.rank) :
    Outcome ((∀ n a, calls (.item n) ≠ some (.link a)) ∧ pc.Near q chain) pc calls chain
      (Queue.takeTail q tail (.running (.loadHead tail))) := by
  refine h.takeTail hpc htail hstub fun hnext => ?_
  refine .running ⟨h.linked, h.stub.trans hpc, ?_⟩ (fun _ => rfl) rfl fun hnear => ⟨fun _ => ?_, hrank⟩
  · rintro p ⟨⟩
    exact ⟨htail, hstub⟩
  · exact (h.tail_eq_head hpc hnear.1 hnext).symm.trans htail.symm

theorem Shared.dequeue : Outcome ((∀ n a, calls (.item n) ≠ some (.link a)) ∧ pc.Near q chain) pc calls
    chain (csilkLfqDequeue q pc) := by
  have hok := h.consumer pc rfl
  cases pc with
  | loadNext tail =>
    cases tail with
    | stub =>
      rw [csilkLfqDequeue]
      cases hnext : q.next .stub with
      | none =>
        refine .empty ⟨h.linked, h.stub, by simp⟩ ?_
        rintro ⟨hquiet, n, hn⟩
        rw [hok] at hnext
        rw [h.linked.eq_singleton (h.tail_eq_head rfl hquiet hnext), ← hok] at hn
        simp at hn
      | some x =>
        rw [hok] at hnext
        obtain ⟨rest, rfl, hlinked⟩ := h.linked.advance hnext
        have hstub : .stub ∉ rest := hok ▸ (nodup_cons.1 h.linked.nodup).1
        have hshared : Shared { q with tail := x } (some (.loadNextOfFirst x)) calls rest := by
          refine ⟨hlinked, h.stub, ?_⟩
          rintro p ⟨⟩
          exact ⟨rfl, ne_of_mem_of_not_mem (mem_of_head? hlinked.first) hstub⟩
        refine .running hshared (fun _ => rfl) ?_ fun _ => ⟨fun _ => trivial, Nat.lt_succ_self _⟩
        rw [← hok]
        simp
    | item n => exact h.loadNext rfl hok (by simp) (by simp [DeqPc.rank])
  | loadNextOfFirst tail => exact h.loadNext rfl hok.1 hok.2 (Nat.lt_succ_self _)
  | loadHead tail =>
    rw [csilkLfqDequeue]
    split
    · rename_i htail
      have hstub : .stub ∉ chain := by
        rw [h.linked.eq_singleton (hok.1.symm.trans htail), mem_singleton, ← hok.1]
        exact hok.2.symm
      refine .running ⟨h.linked.begin hstub, update_self _ _ _, ?_⟩ (fun n => by simp) rfl
        fun _ => ⟨fun _ => htail.symm, Nat.lt_succ_self _⟩
      rintro p ⟨⟩
      exact hok
    · rename_i htail
      exact .empty ⟨h.linked, h.stub, by simp⟩ fun hnear => htail hnear.2.symm
  | reinsert tail e =>
    have hlinked := h.linked.enqueue h.stub
    have hchain : (e.grow .stub chain).filter (· ≠ .stub) = chain.filter (· ≠ .stub) := by
      cases e <;> simp [EnqPc.grow]
    have hok' : (DeqPc.reload tail).Ok (csilkLfqEnqueue q .stub e).1 := by
      cases e <;> exact hok
    cases e with
    | store | exchange =>
      refine .running ⟨hlinked, update_self _ _ _, ?_⟩ (fun n => by simp) hchain
        fun hnear => ⟨fun _ => hnear.2, Nat.lt_succ_self _⟩
      rintro p ⟨⟩
      exact hok'
    | link prev =>
      refine .running ⟨hlinked, update_self _ _ _, ?_⟩ (fun n => by simp) hchain
        fun hnear => ⟨fun _ => ?_, Nat.lt_succ_self _⟩
      · rintro p ⟨⟩
        exact hok'
      · obtain hprev : prev = tail := hnear.2
        rw [hprev]
        simp [DeqPc.Near]
  | reload tail =>
    refine h.takeTail rfl hok.1 hok.2 fun hnext => .empty ⟨h.linked, h.stub, by simp⟩ ?_
    rw [← hok.1] at hnext
    exact fun hnear => hnear.2 hnext

end

/-- The calls `enq` of the producers, no two for one node, and the consumer. -/
structure Serving (q : Lfqueue ν) (enq : Nat → Option (ν × EnqPc ν)) (pc : Option (DeqPc ν))
    (calls : Node ν → Option (EnqPc ν)) (chain : List (Node ν)) : Prop where
  shared : Shared q pc calls chain
  owned : ∃ owner : ν → Nat, ∀ i n e, enq i = some (n, e) ↔ owner n = i ∧ calls (.item n) = some e

theorem csilkLfqInit_serving (memory : Node ν → Option (Node ν)) :
    Serving (csilkLfqInit memory) (fun _ => none) none (fun _ => none) [.stub] where
  shared := ⟨csilkLfqInit_linked memory, rfl, by simp⟩
  owned := ⟨fun _ => 0, by simp⟩

theorem mem_chain_iff {chain chain' : List (Node ν)}
    (h : chain'.filter (· ≠ .stub) = chain.filter (· ≠ .stub)) : .item n ∈ chain' ↔ .item n ∈ chain := by
  have hmem : .item n ∈ chain'.filter (· ≠ .stub) ↔ .item n ∈ chain.filter (· ≠ .stub) := by rw [h]
  simpa using hmem

section

variable {q : Lfqueue ν} {enq : Nat → Option (ν × EnqPc ν)} {pc : Option (DeqPc ν)}
  {calls : Node ν → Option (EnqPc ν)} {chain : List (Node ν)} (h : Serving q enq pc calls chain)
include h

omit [DecidableEq ν] in
theorem Serving.call (hi : enq i = some (n, e)) : calls (.item n) = some e := by
  obtain ⟨owner, howned⟩ := h.owned
  exact ((howned i n e).1 hi).2

omit [DecidableEq ν] in
theorem Serving.caller (hn : calls (.item n) = some e) : ∃ i, enq i = some (n, e) := by
  obtain ⟨owner, howned⟩ := h.owned
  exact ⟨_, (howned _ n e).2 ⟨rfl, hn⟩⟩

omit [DecidableEq ν] in
theorem Serving.follow {q' : Lfqueue ν} (hshared : Shared q' pc' calls' chain')
    (hcalls : ∀ n, calls' (.item n) = calls (.item n)) : Serving q' enq pc' calls' chain' := by
  obtain ⟨owner, howned⟩ := h.owned
  refine ⟨hshared, owner, fun i n e => ?_⟩
  rw [hcalls]
  exact howned i n e

theorem Serving.begin (hi : enq i = none) (hn : .item n ∉ chain) (hfree : calls (.item n) = none) :
    Serving q (update enq i (some (n, .store))) pc (update calls (.item n) (some .store)) chain := by
  obtain ⟨owner, howned⟩ := h.owned
  refine ⟨⟨h.shared.linked.begin hn, ?_, h.shared.consumer⟩, update owner n i, ?_⟩
  · exact h.shared.stub
  · intro j m e
    grind [update]

theorem Serving.enqueue (hi : enq i = some (n, e)) :
    Serving (csilkLfqEnqueue q (.item n) e).1
      (update enq i ((csilkLfqEnqueue q (.item n) e).2.map (n, ·))) pc
      (update calls (.item n) (csilkLfqEnqueue q (.item n) e).2) (e.grow (.item n) chain) := by
  obtain ⟨owner, howned⟩ := h.owned
  refine ⟨⟨h.shared.linked.enqueue (h.call hi), ?_, ?_⟩, owner, ?_⟩
  · exact h.shared.stub
  · intro p hp
    have hok := h.shared.consumer p hp
    have htail : (csilkLfqEnqueue q (.item n) e).1.tail = q.tail := by cases e <;> rfl
    cases p <;> simpa only [DeqPc.Ok, htail] using hok
  · intro j m f
    cases (csilkLfqEnqueue q (.item n) e).2 <;> grind [update]

end

omit [DecidableEq ν] in
theorem Serving.dequeue {q : Lfqueue ν} (h : Serving q enq none calls chain) :
    Serving q enq (some (.loadNext q.tail)) calls chain := by
  refine ⟨⟨h.shared.linked, h.shared.stub, ?_⟩, h.owned⟩
  rintro p ⟨⟩
  rfl

end Csilk.Queue
