import Csilk.Lib.Update
import Mathlib.Data.List.Basic

namespace Csilk.Lib

/-- A machine whose enabled steps are those with a result. -/
structure System (σ α : Type) where
  init : σ → Prop
  step : σ → α → Option σ

theorem of_enabled [Decidable c] {s s' : σ} (h : (if c then some s else none) = some s') :
    c ∧ s = s' := by
  split at h
  · exact ⟨‹c›, Option.some.inj h⟩
  · cases h

/-- States reached by steps that all meet the condition `ok`. -/
inductive System.Reachable (S : System σ α) (ok : σ → α → Prop) : σ → Prop
  | init (h : S.init s) : S.Reachable ok s
  | step (h : S.Reachable ok s) (hok : ok s a) (hs : S.step s a = some s') : S.Reachable ok s'

theorem System.Reachable.invariant {S : System σ α} {ok : σ → α → Prop} {P : σ → Prop}
    (h : S.Reachable ok s) (hinit : ∀ s, S.init s → P s)
    (hstep : ∀ s a s', P s → ok s a → S.step s a = some s' → P s') : P s := by
  induction h with
  | init h => exact hinit _ h
  | step _ hok hs ih => exact hstep _ _ _ ih hok hs

theorem System.Reachable.mono {S : System σ α} {ok ok' : σ → α → Prop} (h : S.Reachable ok s)
    (hok : ∀ s a, ok s a → ok' s a) : S.Reachable ok' s := by
  induction h with
  | init h => exact .init h
  | step _ ha hs ih => exact .step ih (hok _ _ ha) hs

def System.exec (S : System σ α) (ok : σ → α → Prop) [∀ s a, Decidable (ok s a)] (s : σ) :
    List α → Option σ
  | [] => some s
  | a :: as => if ok s a then (S.step s a).bind fun s' => S.exec ok s' as else none

section

variable {S : System σ α} {ok : σ → α → Prop} [∀ s a, Decidable (ok s a)]

theorem System.exec_cons
    (hok : ok s a) (hs : S.step s a = some t) : S.exec ok s (a :: as) = S.exec ok t as := by
  rw [System.exec, if_pos hok, hs]
  rfl

theorem System.exec_cons_some (h : S.exec ok s (a :: as) = some s') :
    ok s a ∧ ∃ t, S.step s a = some t ∧ S.exec ok t as = some s' := by
  rw [System.exec] at h
  split at h
  · exact ⟨‹_›, Option.bind_eq_some_iff.1 h⟩
  · cases h

theorem System.Reachable.exec
    (h : S.Reachable ok s) (he : S.exec ok s as = some s') : S.Reachable ok s' := by
  induction as generalizing s with
  | nil =>
    cases he
    exact h
  | cons a as ih =>
    obtain ⟨hok, t, ht, he⟩ := S.exec_cons_some he
    exact ih (.step h hok ht) he

end

theorem System.run (S : System σ α) {p : σ → α → Prop} [∀ s a, Decidable (p s a)] (s : σ) (l : List α)
    (hs : S.init s) (he : S.exec p s l = some s') : S.Reachable p s' :=
  (System.Reachable.init hs).exec he

theorem System.run_map (S : System σ α) {p : σ → α → Prop} [∀ s a, Decidable (p s a)] (s : σ)
    (l : List α) (f : σ → β) (b : β) (hs : S.init s) (he : (S.exec p s l).map f = some b) :
    ∃ t, S.Reachable p t ∧ f t = b := by
  obtain ⟨t, ht, hb⟩ := Option.map_eq_some_iff.1 he
  exact ⟨t, S.run s l hs ht, hb⟩

end Csilk.Lib
