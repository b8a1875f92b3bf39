import Mathlib.Logic.Basic

namespace Csilk.Lib

/-- What a step of `t` does to a mutex; the flags say whether `t` is in the critical section before
and after. -/
inductive Passes (t : τ) : Option τ → Option τ → Bool → Bool → Prop
  | keep : Passes t owner owner b b
  | lock : Passes t none (some t) false true
  | unlock : Passes t (some t) none true false

theorem Passes.others (h : Passes t owner owner' b b') (hu : u ≠ t) :
    owner' = some u ↔ owner = some u := by
  cases h with
  | keep => rfl
  | lock | unlock => simp [hu.symm]

theorem Passes.self (h : Passes t owner owner' b b') (ht : owner = some t ↔ b = true) :
    owner' = some t ↔ b' = true := by
  cases h with
  | keep => exact ht
  | lock | unlock => simp

end Csilk.Lib
