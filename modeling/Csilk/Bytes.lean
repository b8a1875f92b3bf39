import Mathlib.Data.List.TakeWhile

namespace Csilk

/-- Memory contents; a C string is the bytes before its terminating NUL. -/
abbrev Bytes := List UInt8

/-- The bytes a `char*` function sees of a buffer that may hold NULs. -/
def cString (bs : Bytes) : Bytes := bs.takeWhile (· ≠ 0)

def ascii (s : String) : Bytes := s.toList.map fun c => UInt8.ofNat c.toNat

theorem cString_eq_self (h : 0 ∉ bs) : cString bs = bs := by
  apply List.takeWhile_eq_self_iff.2
  intro b hb
  simp only [decide_not, Bool.not_eq_eq_eq_not, Bool.not_true, decide_eq_false_iff_not]
  exact fun he => h (he ▸ hb)

theorem cString_length_le (bs : Bytes) : (cString bs).length ≤ bs.length :=
  (List.takeWhile_sublist _).length_le

theorem cString_length_le_of_nul (h : bs[i]? = some 0) : (cString bs).length ≤ i := by
  induction bs generalizing i with
  | nil => simp at h
  | cons b bs ih =>
    cases i with
    | zero =>
      simp only [List.getElem?_cons_zero, Option.some.injEq] at h
      subst b
      simp [cString]
    | succ i =>
      have hi := ih (by simpa using h)
      rw [cString, List.takeWhile_cons]
      split
      · simpa [cString] using hi
      · simp

end Csilk
