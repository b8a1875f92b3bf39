import Mathlib.Data.List.Basic

namespace Csilk.Lib
open List

def Adj (l : List α) (a b : α) : Prop := [a, b] <:+: l

theorem Adj.left_mem (h : Adj l a b) : a ∈ l := h.subset mem_cons_self

theorem Adj.right_mem (h : Adj l a b) : b ∈ l :=
  h.subset (mem_cons_of_mem _ mem_cons_self)

theorem not_adj_nil : ¬Adj [] a b := by
  intro h
  cases h.left_mem

theorem adj_cons : Adj (x :: l) a b ↔ (a = x ∧ l.head? = some b) ∨ Adj l a b := by
  rw [Adj, infix_cons_iff, cons_prefix_cons]
  refine or_congr (and_congr_right fun _ => ?_) Iff.rfl
  cases l with
  | nil => simp
  | cons y l => simp [eq_comm]

theorem adj_concat : Adj (l ++ [x]) a b ↔ Adj l a b ∨ (l.getLast? = some a ∧ b = x) := by
  induction l with
  | nil => simp [adj_cons]
  | cons y l ih =>
    rw [cons_append, adj_cons, ih, adj_cons]
    cases l with
    | nil =>
      simp only [nil_append, head?_cons, Option.some.injEq, not_adj_nil, getLast?_nil,
        reduceCtorEq, false_and, or_false, head?_nil, and_false, getLast?_singleton, false_or]
      exact and_congr eq_comm eq_comm
    | cons z l =>
      rw [cons_append, head?_cons, head?_cons, getLast?_cons_cons, or_assoc]

theorem Adj.ne_last (h : Adj l a b) (hn : l.Nodup) (hl : l.getLast? = some x) : a ≠ x := by
  rintro rfl
  induction l with
  | nil => exact not_adj_nil h
  | cons y l ih =>
    rw [nodup_cons] at hn
    cases l with
    | nil => simp [adj_cons, not_adj_nil] at h
    | cons z l =>
      rcases adj_cons.1 h with ⟨rfl, -⟩ | h
      · exact hn.1 (mem_of_getLast? hl)
      · exact ih h hn.2 hl

theorem Adj.right_unique (h : Adj l a b) (h' : Adj l a c) (hn : l.Nodup) : b = c := by
  induction l with
  | nil => exact absurd h not_adj_nil
  | cons y l ih =>
    rw [nodup_cons] at hn
    rcases adj_cons.1 h with ⟨rfl, hb⟩ | hb
    · rcases adj_cons.1 h' with ⟨-, hc⟩ | hc
      · exact Option.some.inj (hb.symm.trans hc)
      · exact absurd hc.left_mem hn.1
    · rcases adj_cons.1 h' with ⟨rfl, -⟩ | hc
      · exact absurd hb.left_mem hn.1
      · exact ih hb hc hn.2

end Csilk.Lib
