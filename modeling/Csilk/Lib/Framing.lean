import Mathlib.Data.List.Basic

namespace Csilk.Lib
open List

structure FrameReader (β α : Type) where
  read : List β → Option (α × List β)
  shrinks : read bs = some (a, rest) → rest.length < bs.length

/-- Read frames until the first position where none can be read. -/
def FrameReader.readAll (R : FrameReader β α) (bs : List β) : List α :=
  match h : R.read bs with
  | none => []
  | some (a, rest) =>
    have : rest.length < bs.length := R.shrinks h
    a :: R.readAll rest
termination_by bs.length

theorem FrameReader.readAll_none {R : FrameReader β α} (h : R.read bs = none) :
    R.readAll bs = [] := by
  rw [FrameReader.readAll]
  split
  · rfl
  · rename_i he
    rw [h] at he
    cases he

theorem FrameReader.readAll_some {R : FrameReader β α} (h : R.read bs = some (a, rest)) :
    R.readAll bs = a :: R.readAll rest := by
  rw [FrameReader.readAll]
  split
  · rename_i he
    rw [h] at he
    cases he
  · rename_i he
    rw [h] at he
    cases he
    rfl

theorem FrameReader.readAll_flatMap {R : FrameReader β α} {frame : γ → List β} {val : α → δ}
    {out : γ → δ} (ms : List γ)
    (h : ∀ m ∈ ms, ∀ rest, ∃ a, R.read (frame m ++ rest) = some (a, rest) ∧ val a = out m)
    (rest : List β) :
    (R.readAll (ms.flatMap frame ++ rest)).map val = ms.map out ++ (R.readAll rest).map val := by
  induction ms with
  | nil => rfl
  | cons m ms ih =>
    obtain ⟨a, ha, hv⟩ := h m mem_cons_self (ms.flatMap frame ++ rest)
    rw [flatMap_cons, append_assoc, R.readAll_some ha, map_cons, hv,
      ih (fun m' hm' => h m' (mem_cons_of_mem _ hm'))]
    rfl

/-- The messages whose frames lie wholly within the first `k` elements. -/
def completeFrames (frame : γ → List β) : List γ → Nat → List γ
  | [], _ => []
  | m :: ms, k =>
    if (frame m).length ≤ k then m :: completeFrames frame ms (k - (frame m).length) else []

theorem take_flatMap (frame : γ → List β) (ms : List γ) (k : Nat) :
    ∃ torn, (ms.flatMap frame).take k = (completeFrames frame ms k).flatMap frame ++ torn ∧
      (torn ≠ [] → ∃ m ∈ ms, ∃ lost, lost ≠ [] ∧ frame m = torn ++ lost) := by
  induction ms generalizing k with
  | nil => exact ⟨[], by simp [completeFrames], fun h => absurd rfl h⟩
  | cons m ms ih =>
    by_cases hk : (frame m).length ≤ k
    · obtain ⟨torn, ht, hm⟩ := ih (k - (frame m).length)
      refine ⟨torn, ?_, ?_⟩
      · rw [flatMap_cons, take_append, take_of_length_le hk, ht, completeFrames,
          if_pos hk, flatMap_cons, append_assoc]
      · intro hne
        obtain ⟨m', hm', lost, hl⟩ := hm hne
        exact ⟨m', mem_cons_of_mem _ hm', lost, hl⟩
    · have hlt : k < (frame m).length := Nat.lt_of_not_le hk
      refine ⟨(frame m).take k, ?_, ?_⟩
      · rw [flatMap_cons, take_append_of_le_length (Nat.le_of_lt hlt), completeFrames, if_neg hk]
        rfl
      · intro _
        refine ⟨m, mem_cons_self, (frame m).drop k, ?_, (take_append_drop k _).symm⟩
        intro hd
        exact absurd (drop_eq_nil_iff.1 hd) hk

theorem mem_of_mem_completeFrames {frame : γ → List β} {ms : List γ} {k : Nat}
    (h : m ∈ completeFrames frame ms k) : m ∈ ms := by
  induction ms generalizing k with
  | nil => exact h
  | cons m' ms ih =>
    rw [completeFrames] at h
    split at h
    · cases h with
      | head => exact mem_cons_self
      | tail _ h => exact mem_cons_of_mem _ (ih h)
    · cases h

end Csilk.Lib
