import Mathlib.Data.List.Nodup
import Mathlib.Data.List.Sublists

namespace Csilk.Lib
open List

/-- A sequential object: what a call does to its state, and what it returns. -/
structure SeqSpec (σ Op Res : Type) where
  init : σ
  apply : σ → Op → σ × Res

inductive ClientEvent (Op Res : Type) where
  | call (num : Nat) (op : Op)
  | ret (num : Nat) (res : Res)
deriving DecidableEq

structure Done (Op Res : Type) where
  num : Nat
  op : Op
  res : Res
deriving DecidableEq

def SeqSpec.run (S : SeqSpec σ Op Res) (L : List (Done Op Res)) : σ :=
  L.foldl (fun s d => (S.apply s d.op).1) S.init

/-- Every result is the one the object gives after the calls before it. -/
def SeqSpec.Legal (S : SeqSpec σ Op Res) (L : List (Done Op Res)) : Prop :=
  ∀ A d B, L = A ++ d :: B → (S.apply (S.run A) d.op).2 = d.res

/-- The order `L` is legal, has every call that has returned and none that was not made, and keeps
the order of calls that do not overlap. -/
structure Linearization (S : SeqSpec σ Op Res) (H : List (ClientEvent Op Res))
    (L : List (Done Op Res)) : Prop where
  legal : S.Legal L
  nodup : (L.map Done.num).Nodup
  called : ∀ d ∈ L, .call d.num d.op ∈ H
  returned : ∀ num res, .ret num res ∈ H → ∃ op, ⟨num, op, res⟩ ∈ L
  order : ∀ i j res op, [.ret i res, .call j op].Sublist H → j ∈ L.map Done.num →
    [i, j].Sublist (L.map Done.num)

/-- The calls that have taken effect so far explain the history. -/
structure Recorded (S : SeqSpec σ Op Res) (n : Nat) (H : List (ClientEvent Op Res))
    (L : List (Done Op Res)) : Prop where
  linearization : Linearization S H L
  fresh : ∀ num op, .call num op ∈ H → num < n

theorem pair_sublist_concat {a b c : α} (h : [a, b].Sublist (l ++ [c])) :
    [a, b].Sublist l ∨ a ∈ l ∧ b = c := by
  obtain ⟨l₁, l₂, heq, h₁, h₂⟩ := sublist_append_iff.1 h
  match l₁, heq with
  | [], heq =>
    subst heq
    have := h₂.length_le
    simp at this
  | [_], heq =>
    cases heq
    exact .inr ⟨singleton_sublist.1 h₁, mem_singleton.1 (singleton_sublist.1 h₂)⟩
  | [_, _], heq =>
    cases heq
    exact .inl h₁
  | _ :: _ :: _ :: _, heq => cases heq

theorem SeqSpec.run_concat (S : SeqSpec σ Op Res) (L : List (Done Op Res)) (d : Done Op Res) :
    S.run (L ++ [d]) = (S.apply (S.run L) d.op).1 := by
  simp [SeqSpec.run]

theorem SeqSpec.Legal.concat {S : SeqSpec σ Op Res} (h : S.Legal L)
    (hd : (S.apply (S.run L) d.op).2 = d.res) : S.Legal (L ++ [d]) := by
  intro A e B heq
  rcases eq_nil_or_concat B with rfl | ⟨B, b, rfl⟩
  · obtain ⟨rfl, he⟩ := append_inj' heq rfl
    cases he
    exact hd
  · have heq' : L ++ [d] = (A ++ e :: B) ++ [b] := by simpa using heq
    exact h A e B (append_inj' heq' rfl).1

theorem recorded_nil (S : SeqSpec σ Op Res) : Recorded S 0 [] [] := by
  refine ⟨⟨?_, nodup_nil, ?_, ?_, ?_⟩, ?_⟩
  · intro A d B h
    simp at h
  · simp
  · simp
  · simp
  · simp

section

variable {S : SeqSpec σ Op Res} (h : Recorded S n H L)
include h

theorem Recorded.call (op : Op) :
    Recorded S (n + 1) (H ++ [.call n op]) L := by
  obtain ⟨⟨hlegal, hnodup, hcalled, hret, horder⟩, hfresh⟩ := h
  refine ⟨⟨hlegal, hnodup, ?_, ?_, ?_⟩, ?_⟩
  · exact fun d hd => mem_append_left _ (hcalled d hd)
  · intro num res hr
    rcases mem_append.1 hr with hr | hr
    · exact hret num res hr
    · cases mem_singleton.1 hr
  · intro i j res op' hsub hj
    rcases pair_sublist_concat hsub with hsub | ⟨-, heq⟩
    · exact horder i j res op' hsub hj
    · -- the new call has not taken effect
      cases heq
      obtain ⟨d, hd, hid⟩ := List.mem_map.1 hj
      exact absurd (hfresh d.num d.op (hcalled d hd)) (hid ▸ Nat.lt_irrefl _)
  · intro num op' hid
    rcases mem_append.1 hid with hid | hid
    · exact Nat.lt_succ_of_lt (hfresh num op' hid)
    · cases mem_singleton.1 hid
      exact Nat.lt_succ_self n

theorem Recorded.commit (hcall : ClientEvent.call num op ∈ H)
    (hid : num ∉ L.map Done.num) (hres : (S.apply (S.run L) op).2 = res) :
    Recorded S n H (L ++ [⟨num, op, res⟩]) := by
  obtain ⟨⟨hlegal, hnodup, hcalled, hret, horder⟩, hfresh⟩ := h
  refine ⟨⟨hlegal.concat hres, ?_, ?_, ?_, ?_⟩, hfresh⟩
  · rw [map_append]
    refine hnodup.append (nodup_singleton _) ?_
    intro i hi hn
    cases mem_singleton.1 hn
    exact hid hi
  · exact forall_mem_append.2 ⟨hcalled, forall_mem_singleton.2 hcall⟩
  · intro i r hr
    obtain ⟨op', hop⟩ := hret i r hr
    exact ⟨op', mem_append_left _ hop⟩
  · intro i j r op' hsub hj
    rw [map_append] at hj ⊢
    rcases mem_append.1 hj with hj | hj
    · exact (horder i j r op' hsub hj).trans (sublist_append_left _ _)
    · -- whatever has returned took effect earlier
      obtain ⟨op'', hop⟩ := hret i r (hsub.subset mem_cons_self)
      have hi : [i].Sublist (L.map Done.num) :=
        singleton_sublist.2 (List.mem_map.2 ⟨_, hop, rfl⟩)
      exact hi.append (singleton_sublist.2 hj)

theorem Recorded.ret (hd : ⟨num, op, res⟩ ∈ L) :
    Recorded S n (H ++ [.ret num res]) L := by
  obtain ⟨⟨hlegal, hnodup, hcalled, hret, horder⟩, hfresh⟩ := h
  refine ⟨⟨hlegal, hnodup, ?_, ?_, ?_⟩, ?_⟩
  · exact fun d hd => mem_append_left _ (hcalled d hd)
  · intro i r hr
    rcases mem_append.1 hr with hr | hr
    · exact hret i r hr
    · cases mem_singleton.1 hr
      exact ⟨op, hd⟩
  · intro i j r op' hsub hj
    rcases pair_sublist_concat hsub with hsub | ⟨-, heq⟩
    · exact horder i j r op' hsub hj
    · cases heq
  · intro i op' hi
    rcases mem_append.1 hi with hi | hi
    · exact hfresh i op' hi
    · cases mem_singleton.1 hi

end

end Csilk.Lib
