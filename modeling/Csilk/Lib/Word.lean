import Mathlib.Data.Nat.Bitwise

namespace Csilk.Lib

def leWord : List UInt8 → Nat
  | [] => 0
  | b :: bs => b.toNat + 256 * leWord bs

def leBytes : Nat → Nat → List UInt8
  | 0, _ => []
  | n + 1, v => UInt8.ofNat v :: leBytes n (v / 256)

theorem length_leBytes : (leBytes n v).length = n := by
  induction n generalizing v with
  | zero => rfl
  | succ n ih => exact congrArg Nat.succ ih

theorem leWord_injective (hl : xs.length = ys.length) (h : leWord xs = leWord ys) : xs = ys := by
  induction xs generalizing ys with
  | nil =>
    cases ys with
    | nil => rfl
    | cons y ys => cases hl
  | cons x xs ih =>
    cases ys with
    | nil => cases hl
    | cons y ys =>
      have hx := x.toNat_lt
      have hy := y.toNat_lt
      simp only [leWord] at h
      have hxy : x = y := UInt8.toNat_inj.1 (by omega)
      have hs : xs = ys := ih (by simpa using hl) (by omega)
      rw [hxy, hs]

theorem or_low_byte (hb : b < 256) (hc : c < 256) (x y : Nat) :
    (b + 256 * x) ||| (c + 256 * y) = (b ||| c) + 256 * (x ||| y) := by
  have hbc : b ||| c < 2 ^ 8 := Nat.or_lt_two_pow (by simpa using hb) (by simpa using hc)
  apply Nat.eq_of_testBit_eq
  intro i
  have h256 : (256 : Nat) = 2 ^ 8 := rfl
  rw [h256, add_comm b, add_comm c, add_comm (b ||| c), Nat.testBit_or,
    Nat.testBit_two_pow_mul_add _ hb, Nat.testBit_two_pow_mul_add _ hc,
    Nat.testBit_two_pow_mul_add _ hbc]
  split
  · rw [Nat.testBit_or]
  · rw [Nat.testBit_or]

theorem leWord_or_mask (m : UInt8) (bs : List UInt8) :
    leWord bs ||| leWord (List.replicate bs.length m) = leWord (bs.map (· ||| m)) := by
  induction bs with
  | nil => simp [leWord]
  | cons b bs ih =>
    simp only [List.length_cons, List.replicate_succ, leWord, List.map_cons]
    rw [or_low_byte b.toNat_lt m.toNat_lt, ih, UInt8.toNat_or]

theorem leWord_or_mask_eq (m : UInt8) (hl : bs.length = cs.length) :
    leWord bs ||| leWord (List.replicate cs.length m) = leWord cs ↔ bs.map (· ||| m) = cs := by
  rw [← hl, leWord_or_mask]
  constructor
  · intro h
    exact leWord_injective (by rw [List.length_map, hl]) h
  · intro h
    rw [h]

end Csilk.Lib
