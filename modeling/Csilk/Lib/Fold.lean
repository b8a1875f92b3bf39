import Mathlib.Algebra.BigOperators.Group.List.Basic
import Mathlib.Algebra.GroupWithZero.Nat

namespace Csilk.Lib
open List

theorem sum_map_eraseIdx {l : List α} {i : Nat} (f : α → Nat) (h : l[i]? = some x) :
    ((l.eraseIdx i).map f).sum + f x = (l.map f).sum := by
  obtain ⟨hlt, rfl⟩ := List.getElem?_eq_some_iff.1 h
  have hsum := List.CommMonoid.add_sum_eraseIdx (l := l.map f) (by rwa [length_map])
  rw [getElem_map, eraseIdx_map] at hsum
  rw [add_comm]
  exact hsum

theorem sum_map_set {l : List α} {i : Nat} (f : α → Nat) (y : α) (h : l[i]? = some x) :
    ((l.set i y).map f).sum + f x = (l.map f).sum + f y := by
  have hlt := (List.getElem?_eq_some_iff.1 h).1
  have hbefore := sum_map_eraseIdx f h
  have hafter := sum_map_eraseIdx f (getElem?_set_self hlt : (l.set i y)[i]? = some y)
  rw [eraseIdx_set_eq] at hafter
  omega

section

variable {c : α → Prop} [DecidablePred c] {f : α → β} {l : List α}

theorem foldl_ite_none
    (h : ∀ i ∈ l, ¬ c i) (init : β) : l.foldl (fun b i => if c i then f i else b) init = init := by
  induction l with
  | nil => rfl
  | cons i l ih =>
    rw [foldl_cons, if_neg (h i mem_cons_self)]
    exact ih fun j hj => h j (mem_cons_of_mem _ hj)

theorem foldl_ite_unique (hmem : j ∈ l)
    (hc : c j) (honly : ∀ i ∈ l, c i → i = j) (init : β) :
    l.foldl (fun b i => if c i then f i else b) init = f j := by
  induction l generalizing init with
  | nil => cases hmem
  | cons i l ih =>
    rw [foldl_cons]
    have hrest (i' : α) (hi' : i' ∈ l) : c i' → i' = j := honly i' (mem_cons_of_mem _ hi')
    by_cases hj : j ∈ l
    · exact ih hj hrest _
    · rcases mem_cons.1 hmem with rfl | hj'
      · rw [if_pos hc]
        apply foldl_ite_none
        exact fun i' hi' hci' => hj (hrest i' hi' hci' ▸ hi')
      · exact absurd hj' hj

end

end Csilk.Lib
