import Mathlib.Data.List.Basic

namespace Csilk.Lib
open List Option

/-- The index of the element found between `low` and `high`, or -1, and where the key belongs. -/
def binarySearch (cmp : α → Ordering) (xs : List α) (low high : Int) : Int × Int :=
  if h : low ≤ high then
    let mid := low + (high - low) / 2
    match xs[mid.toNat]?.map cmp with
    | some .eq => (mid, mid)
    | some .lt => binarySearch cmp xs low (mid - 1)
    | some .gt => binarySearch cmp xs (mid + 1) high
    | none => (-1, low)
  else (-1, low)
termination_by (high + 1 - low).toNat
decreasing_by all_goals omega

/-- The key is at or before `a` only if strictly before everything behind `a`. -/
def SortedFor (cmp : α → Ordering) (xs : List α) : Prop :=
  xs.Pairwise fun a b => cmp a ≠ .gt → cmp b = .lt

theorem SortedFor.lt_of_le {cmp : α → Ordering} {i j : Nat} (hs : SortedFor cmp xs)
    (hij : i < j) (hi : xs[i]? = some a)
    (hj : xs[j]? = some b) (h : cmp a ≠ .gt) : cmp b = .lt := by
  obtain ⟨hi', rfl⟩ := List.getElem?_eq_some_iff.1 hi
  obtain ⟨hj', rfl⟩ := List.getElem?_eq_some_iff.1 hj
  exact pairwise_iff_getElem.1 hs i j hi' hj' hij h

/-- A successful search points at an equal element, a failed one at the gap. -/
def Located (cmp : α → Ordering) (xs : List α) (r : Int × Int) : Prop :=
  (∃ pre x post, xs = pre ++ x :: post ∧ cmp x = .eq ∧ r = (↑pre.length, ↑pre.length)) ∨
  (∃ pre post, xs = pre ++ post ∧ (∀ a ∈ pre, cmp a = .gt) ∧ (∀ b ∈ post, cmp b = .lt) ∧
    r = (-1, ↑pre.length))

theorem binarySearch_located {cmp : α → Ordering} (hs : SortedFor cmp xs) (low high : Int) (h0 : 0 ≤ low)
    (hle : low ≤ high + 1) (hn : high < xs.length)
    (hlow : ∀ i : Nat, i < low → ∀ a, xs[i]? = some a → cmp a = .gt)
    (hhigh : ∀ i : Nat, high < i → ∀ a, xs[i]? = some a → cmp a = .lt) :
    Located cmp xs (binarySearch cmp xs low high) := by
  induction low, high using binarySearch.induct cmp xs with
  | case1 low high h mid hm =>
    rw [binarySearch, dif_pos h]
    simp only [mid] at hm ⊢
    rw [hm]
    obtain ⟨x, hx, he⟩ := map_eq_some_iff.1 hm
    left
    obtain ⟨hlt, hxe⟩ := List.getElem?_eq_some_iff.1 hx
    refine ⟨xs.take mid.toNat, x, xs.drop (mid.toNat + 1), ?_, he, ?_⟩
    · rw [← hxe, getElem_cons_drop, take_append_drop]
    · simp only [length_take, Prod.mk.injEq]
      omega
  | case2 low high h mid hm ih =>
    rw [binarySearch, dif_pos h]
    simp only [mid] at hm ⊢
    rw [hm]
    obtain ⟨x, hx, he⟩ := map_eq_some_iff.1 hm
    refine ih h0 (by omega) (by omega) hlow ?_
    intro i hi a ha
    by_cases him : i = mid.toNat
    · subst him
      rw [hx] at ha
      cases ha
      exact he
    · exact hs.lt_of_le (by omega) hx ha (by rw [he]; decide)
  | case3 low high h mid hm ih =>
    rw [binarySearch, dif_pos h]
    simp only [mid] at hm ⊢
    rw [hm]
    obtain ⟨x, hx, he⟩ := map_eq_some_iff.1 hm
    refine ih (by omega) (by omega) hn ?_ hhigh
    intro i hi a ha
    by_cases him : i = mid.toNat
    · subst him
      rw [hx] at ha
      cases ha
      exact he
    · by_contra hne
      have hlt := hs.lt_of_le (by omega : i < mid.toNat) ha hx hne
      rw [he] at hlt
      cases hlt
  | case4 low high h mid hm =>
    rw [map_eq_none_iff, List.getElem?_eq_none_iff] at hm
    omega
  | case5 low high h =>
    rw [binarySearch, dif_neg h]
    have hb : low = high + 1 := by omega
    right
    refine ⟨xs.take low.toNat, xs.drop low.toNat, (take_append_drop ..).symm, ?_, ?_, ?_⟩
    · intro a ha
      obtain ⟨i, hi, hia⟩ := mem_take_iff_getElem.1 ha
      exact hlow i (by omega) a (by rw [getElem?_eq_getElem (by omega), hia])
    · intro b hb'
      obtain ⟨i, hi, hib⟩ := mem_drop_iff_getElem.1 hb'
      exact hhigh (low.toNat + i) (by omega) b (by rw [getElem?_eq_getElem (by omega), hib])
    · simp only [length_take, Prod.mk.injEq, true_and]
      omega

theorem binarySearch_spec {cmp : α → Ordering} (hs : SortedFor cmp xs) :
    Located cmp xs (binarySearch cmp xs 0 ((xs.length : Int) - 1)) := by
  apply binarySearch_located hs 0 _ (by omega) (by omega) (by omega)
  · intro i hi
    omega
  · intro i hi a ha
    obtain ⟨hlt, -⟩ := List.getElem?_eq_some_iff.1 ha
    omega

end Csilk.Lib
