import Mathlib.Algebra.Order.Group.Nat

namespace Csilk.Lib

/-- The nearest magnitude with 53 significant bits, ties to even. -/
def roundMagnitude (m : Nat) : Nat :=
  if m < 2 ^ 53 then m
  else
    let unit := 2 ^ (m.log2 - 52)
    let q := m / unit
    let r := m % unit
    if 2 * r > unit ∨ 2 * r = unit ∧ q % 2 = 1 then (q + 1) * unit else q * unit

/-- An integer as an IEEE double, rounded to nearest. -/
def toDouble (x : Int) : Int :=
  if x < 0 then -(roundMagnitude x.natAbs) else roundMagnitude x.natAbs

theorem roundMagnitude_small (h : m ≤ 2 ^ 53) : roundMagnitude m = m := by
  rcases Nat.lt_or_eq_of_le h with hlt | rfl
  · exact if_pos hlt
  · decide

theorem le_roundMagnitude (h : 2 ^ 53 ≤ m) : 2 ^ 53 ≤ roundMagnitude m := by
  have hlog : 53 ≤ m.log2 := (Nat.le_log2 (by omega)).2 h
  have hpow : 2 ^ (m.log2 - 52) * 2 ^ 52 = 2 ^ m.log2 := by
    rw [← Nat.pow_add, Nat.sub_add_cancel (by omega)]
  have hself : 2 ^ m.log2 ≤ m := Nat.log2_self_le (by omega)
  have hq : 2 ^ 52 ≤ m / 2 ^ (m.log2 - 52) := by
    rw [Nat.le_div_iff_mul_le (Nat.two_pow_pos _), mul_comm, hpow]
    exact hself
  have hdown : 2 ^ 53 ≤ m / 2 ^ (m.log2 - 52) * 2 ^ (m.log2 - 52) := by
    calc 2 ^ 53 ≤ 2 ^ m.log2 := Nat.pow_le_pow_right (by decide) hlog
      _ = 2 ^ 52 * 2 ^ (m.log2 - 52) := by rw [← hpow, mul_comm]
      _ ≤ _ := Nat.mul_le_mul_right _ hq
  rw [roundMagnitude, if_neg (Nat.not_lt_of_le h)]
  dsimp only
  split
  · exact le_trans hdown (Nat.mul_le_mul_right _ (Nat.le_succ _))
  · exact hdown

theorem toDouble_small (h : x.natAbs ≤ 2 ^ 53) : toDouble x = x := by
  rw [toDouble, roundMagnitude_small h]
  split <;> omega

theorem toDouble_le_iff (he : e.natAbs < 2 ^ 53) : toDouble x ≤ e ↔ x ≤ e := by
  rcases le_total x.natAbs (2 ^ 53) with hle | hge
  · rw [toDouble_small hle]
  · have hround := le_roundMagnitude hge
    rw [toDouble]
    split <;> omega

theorem le_toDouble_iff (he : e.natAbs < 2 ^ 53) : e ≤ toDouble x ↔ e ≤ x := by
  rcases le_total x.natAbs (2 ^ 53) with hle | hge
  · rw [toDouble_small hle]
  · have hround := le_roundMagnitude hge
    rw [toDouble]
    split <;> omega

end Csilk.Lib
