import Mathlib.Logic.Function.Basic

namespace Csilk.Lib
open Function

variable [DecidableEq ι] {g : ι → σ}

theorem update_same (f : σ → β) (h : f v = f (g i)) (j : ι) : f (update g i v j) = f (g j) := by
  by_cases hj : j = i
  · subst hj
    rw [update_self, h]
  · rw [update_of_ne hj]

theorem update_cases (P : σ → Prop) (h : P (update g i v j)) : j = i ∧ P v ∨ j ≠ i ∧ P (g j) := by
  by_cases hj : j = i
  · subst hj
    rw [update_self] at h
    exact .inl ⟨rfl, h⟩
  · rw [update_of_ne hj] at h
    exact .inr ⟨hj, h⟩

end Csilk.Lib
