import Mathlib.Data.Nat.ModEq
import Mathlib.Logic.Function.Basic

namespace Csilk.Lib
open Function

variable {α : Type} {ring : Nat → α} {items : List α}

/-- The cells of a ring of `m` cells have the items from position `head` on. -/
def RingHolds (m : Nat) (ring : Nat → α) (items : List α) (head : Nat) : Prop :=
  ∀ j x, head ≤ j → items[j]? = some x → ring (j % m) = x

theorem mod_ne_of_lt {j n m : Nat} (hlt : j < n) (hroom : n - j < m) : j % m ≠ n % m := by
  intro heq
  have hdvd : m ∣ n - j := (Nat.modEq_iff_dvd' (le_of_lt hlt)).1 heq
  exact absurd (Nat.le_of_dvd (Nat.sub_pos_of_lt hlt) hdvd) (Nat.not_le_of_lt hroom)

theorem RingHolds.nil (m : Nat) (ring : Nat → α) (head : Nat) : RingHolds m ring [] head := by
  rintro _ _ _ ⟨⟩

section

variable (h : RingHolds m ring items head)
include h

theorem RingHolds.advance (hle : head ≤ head') :
    RingHolds m ring items head' :=
  fun j x hj => h j x (le_trans hle hj)

theorem RingHolds.store (hroom : items.length - head < m) (x : α) :
    RingHolds m (update ring (items.length % m) x) items head := by
  intro j y hj hy
  have hlt : j < items.length := (List.getElem?_eq_some_iff.1 hy).1
  have hne := mod_ne_of_lt hlt (lt_of_le_of_lt (Nat.sub_le_sub_left hj _) hroom)
  rw [update_of_ne hne]
  exact h j y hj hy

theorem RingHolds.concat (hx : ring (items.length % m) = x) :
    RingHolds m ring (items ++ [x]) head := by
  intro j y hj hy
  by_cases hlt : j < items.length
  · rw [List.getElem?_append_left hlt] at hy
    exact h j y hj hy
  · obtain ⟨hlen, hval⟩ := List.getElem?_eq_some_iff.1 hy
    have heq : j = items.length := by
      rw [List.length_append, List.length_singleton] at hlen
      omega
    subst heq
    rw [List.getElem_concat_length rfl] at hval
    rw [hx, hval]

theorem RingHolds.read (hlt : head < items.length) :
    items[head]? = some (ring (head % m)) := by
  rw [List.getElem?_eq_getElem hlt, h head items[head] le_rfl (List.getElem?_eq_getElem hlt)]

end

end Csilk.Lib
