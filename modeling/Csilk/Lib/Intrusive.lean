import Csilk.Lib.Update
import Mathlib.Data.List.Nodup

namespace Csilk.Lib
open List (mem_cons mem_cons_self mem_cons_of_mem nodup_nil nodup_cons nodup_middle append_assoc)
open Function (update update_self update_of_ne update_eq_self)

/-- The nodes that are met from `first` on along the `next` fields, up to NULL. -/
def Threaded (next : α → Option α) : Option α → List α → Prop
  | first, [] => first = none
  | first, a :: l => first = some a ∧ Threaded next (next a) l

@[simp] theorem threaded_nil : Threaded next first [] ↔ first = none := Iff.rfl

@[simp] theorem threaded_cons :
    Threaded next first (a :: l) ↔ first = some a ∧ Threaded next (next a) l := Iff.rfl

theorem Threaded.congr (h : Threaded next first l) (heq : ∀ a ∈ l, next' a = next a) :
    Threaded next' first l := by
  induction l generalizing first with
  | nil => exact h
  | cons a l ih =>
    refine ⟨h.1, ?_⟩
    rw [heq a mem_cons_self]
    exact ih h.2 fun b hb => heq b (mem_cons_of_mem _ hb)

theorem Threaded.unique (h : Threaded next first l) (h' : Threaded next first l') : l = l' := by
  induction l generalizing first l' with
  | nil =>
    cases l' with
    | nil => rfl
    | cons b l' =>
      rw [threaded_nil.1 h] at h'
      cases h'.1
  | cons a l ih =>
    cases l' with
    | nil =>
      rw [threaded_nil.1 h'] at h
      cases h.1
    | cons b l' =>
      obtain rfl : a = b := Option.some.inj (h.1.symm.trans h'.1)
      rw [ih h.2 h'.2]

theorem Threaded.cases_some (h : Threaded next (some a) l) :
    ∃ l', l = a :: l' ∧ Threaded next (next a) l' := by
  cases l with
  | nil => cases h
  | cons b l =>
    obtain rfl : a = b := Option.some.inj h.1
    exact ⟨l, rfl, h.2⟩

section

variable [DecidableEq α] {next : α → Option α} (h : Threaded next first l) (ha : a ∉ l)
include h ha

theorem Threaded.update :
    Threaded (Function.update next a x) first l :=
  h.congr fun _ hb => update_of_ne (ne_of_mem_of_not_mem hb ha) _ _

theorem Threaded.push :
    Threaded (Function.update next a first) (some a) (a :: l) := by
  refine ⟨rfl, ?_⟩
  rw [update_self]
  exact h.update ha

end

theorem Threaded.from_mem (h : Threaded next first l) (ha : a ∈ l) :
    ∃ l', Threaded next (some a) l' ∧ l'.length ≤ l.length := by
  induction l generalizing first with
  | nil => cases ha
  | cons b l ih =>
    rcases mem_cons.1 ha with rfl | ha
    · exact ⟨a :: l, ⟨rfl, h.2⟩, Nat.le_refl _⟩
    · obtain ⟨l', hl', hle⟩ := ih h.2 ha
      exact ⟨l', hl', Nat.le_succ_of_le hle⟩

theorem Threaded.nodup (h : Threaded next first l) : l.Nodup := by
  induction l generalizing first with
  | nil => exact nodup_nil
  | cons a l ih =>
    refine nodup_cons.2 ⟨?_, ih h.2⟩
    intro ha
    obtain ⟨l', hl', hle⟩ := h.2.from_mem ha
    have hlist : Threaded next (some a) (a :: l) := ⟨rfl, h.2⟩
    rw [hl'.unique hlist] at hle
    exact Nat.not_succ_le_self _ hle

theorem Threaded.unlink [DecidableEq α] {next : α → Option α}
    (h : Threaded next first (l₁ ++ b :: a :: l₂)) :
    Threaded (Function.update next b (next a)) first (l₁ ++ b :: l₂) := by
  have hnodup := h.nodup
  induction l₁ generalizing first with
  | nil =>
    obtain ⟨hfirst, hb, ha⟩ := h
    have hmem : b ∉ l₂ := fun hmem =>
      (nodup_cons.1 hnodup).1 (mem_cons_of_mem a hmem)
    refine ⟨hfirst, ?_⟩
    rw [update_self]
    exact ha.update hmem
  | cons x l₁ ih =>
    obtain ⟨hx, hnodup⟩ := nodup_cons.1 hnodup
    have hne : x ≠ b := fun heq => hx (by simp [heq])
    refine ⟨h.1, ?_⟩
    rw [update_of_ne hne]
    exact ih h.2 hnodup

/-- Lists that share `next`. A node is in the list that `place` says, or in none. -/
structure Lists (next : α → Option α) (first : ι → Option α) (chain : ι → List α) (place : α → Option ι) :
    Prop where
  threaded : ∀ i, Threaded next (first i) (chain i)
  member : ∀ i a, a ∈ chain i ↔ place a = some i

section Lists

variable [DecidableEq α] {next : α → Option α} {first : ι → Option α} {chain : ι → List α}
  {place : α → Option ι} (h : Lists next first chain place)
include h

theorem Lists.write (ha : place a = none) : Lists (update next a x) first chain place := by
  refine ⟨fun i => (h.threaded i).update fun hmem => ?_, h.member⟩
  cases ha.symm.trans ((h.member i a).1 hmem)

variable [DecidableEq ι]

theorem Lists.push (ha : place a = none) (i : ι) :
    Lists (update next a (first i)) (update first i (some a)) (update chain i (a :: chain i))
      (update place a (some i)) := by
  have hout : ∀ j, a ∉ chain j := fun j hmem => by cases ha.symm.trans ((h.member j a).1 hmem)
  refine ⟨fun j => ?_, fun j b => ?_⟩
  · by_cases hj : j = i
    · subst hj
      rw [update_self, update_self]
      exact (h.threaded j).push (hout j)
    · rw [update_of_ne hj, update_of_ne hj]
      exact (h.threaded j).update (hout j)
  · have hb := h.member j b
    by_cases hj : j = i
    · subst hj
      by_cases hba : b = a <;> simp [hba, hb]
    · by_cases hba : b = a
      · simp [hj, hba, hout j, Ne.symm hj]
      · simp [hj, hba, hb]

theorem Lists.remove (hchain : chain i = l₁ ++ a :: l₂) (hl : Threaded next' first' (l₁ ++ l₂))
    (hnext : ∀ b, b ∉ chain i → next' b = next b) :
    Lists next' (update first i first') (update chain i (l₁ ++ l₂)) (update place a none) := by
  have ha := (h.member i a).1 (by simp [hchain])
  have hnodup := (h.threaded i).nodup
  rw [hchain, nodup_middle] at hnodup
  obtain ⟨hfresh, -⟩ := nodup_cons.1 hnodup
  refine ⟨fun j => ?_, fun j b => ?_⟩
  · by_cases hj : j = i
    · subst hj
      rw [update_self, update_self]
      exact hl
    · rw [update_of_ne hj, update_of_ne hj]
      refine (h.threaded j).congr fun b hb => hnext b fun hbi => hj ?_
      exact Option.some.inj (((h.member j b).1 hb).symm.trans ((h.member i b).1 hbi))
  · have hb := h.member j b
    by_cases hj : j = i
    · subst hj
      rw [hchain] at hb
      by_cases hba : b = a
      · simpa [hba] using hfresh
      · simp only [update_self, update_of_ne hba, ← hb]
        simp [hba]
    · by_cases hba : b = a
      · simp [hj, hba, h.member, ha, Ne.symm hj]
      · simp [hj, hba, hb]

theorem Lists.pop (hfirst : first i = some a) :
    ∃ l, chain i = a :: l ∧ Lists next (update first i (next a)) (update chain i l) (update place a none) := by
  have hthreaded := h.threaded i
  rw [hfirst] at hthreaded
  obtain ⟨l, hchain, hl⟩ := hthreaded.cases_some
  exact ⟨l, hchain, h.remove (show chain i = [] ++ a :: l from hchain) hl fun _ _ => rfl⟩

theorem Lists.unlink (hchain : chain i = l₁ ++ [b] ++ a :: l₂) :
    Lists (update next b (next a)) first (update chain i (l₁ ++ [b] ++ l₂)) (update place a none) := by
  have hthreaded := h.threaded i
  rw [hchain, append_assoc] at hthreaded
  have hl := hthreaded.unlink
  rw [← List.singleton_append, ← append_assoc] at hl
  have hlists := h.remove hchain hl fun c hc => update_of_ne (fun heq : c = b => hc (by simp [hchain, heq])) ..
  rwa [update_eq_self] at hlists

end Lists

end Csilk.Lib
