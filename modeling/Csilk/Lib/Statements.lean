import Mathlib.Logic.Basic

namespace Csilk.Lib

/-- A program that issues statements one by one, each continued with its answer. -/
inductive Stmts (τ α ρ : Type)
  | ret (r : ρ)
  | stmt (t : τ) (k : α → Stmts τ α ρ)

namespace Stmts

def bind : Stmts τ α ρ → (ρ → Stmts τ α ρ') → Stmts τ α ρ'
  | .ret r, f => f r
  | .stmt t k, f => .stmt t fun a => (k a).bind f

instance : Monad (Stmts τ α) where
  pure := .ret
  bind := bind

def issue (t : τ) : Stmts τ α α := .stmt t .ret

section
variable (next : γ → τ → α → γ) (answers : γ → τ → α → Prop) (allowed : γ → τ → Prop)

/-- Each statement is allowed where it is issued, and the result meets `Q`. -/
def Follows (Q : ρ → γ → Prop) : Stmts τ α ρ → γ → Prop
  | .ret r, g => Q r g
  | .stmt t k, g => allowed g t ∧ ∀ a, answers g t a → Follows Q (k a) (next g t a)

variable {next answers allowed}

theorem Follows.mono (h : Follows next answers allowed Q p g) (hQ : ∀ r g, Q r g → Q' r g) :
    Follows next answers allowed Q' p g := by
  induction p generalizing g with
  | ret r => exact hQ r g h
  | stmt t k ih => exact ⟨h.1, fun a ha => ih a (h.2 a ha)⟩

theorem Follows.bind (h : Follows next answers allowed Q p g)
    (hf : ∀ r g, Q r g → Follows next answers allowed Q' (f r) g) :
    Follows next answers allowed Q' (p.bind f) g := by
  induction p generalizing g with
  | ret r => exact hf r g h
  | stmt t k ih => exact ⟨h.1, fun a ha => ih a (h.2 a ha)⟩

theorem Follows.issue {f : α → Stmts τ α ρ} (ht : allowed g t)
    (hf : ∀ a, answers g t a → Follows next answers allowed Q (f a) (next g t a)) :
    Follows next answers allowed Q ((Stmts.issue t).bind f) g :=
  ⟨ht, hf⟩

end

section
variable (exec : σ → τ → ω → α × σ) (ok : σ → τ → ω → Prop)

/-- What is left of a program, after statements whose outcomes all meet `ok`. -/
inductive Reaches (p : Stmts τ α ρ) (s : σ) : Stmts τ α ρ → σ → Prop
  | refl : Reaches p s p s
  | step (h : Reaches p s (.stmt t k) s') (hok : ok s' t o) :
      Reaches p s (k (exec s' t o).1) (exec s' t o).2

variable {exec ok}

theorem Reaches.follows {I : γ → σ → Prop} (h : Reaches exec ok p s p' s')
    (hp : Follows next answers allowed Q p g) (hs : I g s)
    (hstep : ∀ g s t o, I g s → allowed g t → ok s t o → answers g t (exec s t o).1 ∧
      I (next g t (exec s t o).1) (exec s t o).2) :
    ∃ g', Follows next answers allowed Q p' g' ∧ I g' s' := by
  induction h with
  | refl => exact ⟨g, hp, hs⟩
  | @step t k s' o h hok ih =>
    obtain ⟨g', hp', hs'⟩ := ih
    obtain ⟨hanswer, hinv⟩ := hstep g' s' t o hs' hp'.1 hok
    exact ⟨_, hp'.2 _ hanswer, hinv⟩

theorem Reaches.trans (h : Reaches exec ok p s p' s') (h' : Reaches exec ok p' s' p'' s'') :
    Reaches exec ok p s p'' s'' := by
  induction h' with
  | refl => exact h
  | step _ hok ih => exact .step ih hok

theorem Reaches.bind {p p' : Stmts τ α ρ} (h : Reaches exec ok p s p' s') (f : ρ → Stmts τ α ρ') :
    Reaches exec ok (p.bind f) s (p'.bind f) s' := by
  induction h with
  | refl => exact .refl
  | step _ hok ih => exact .step ih hok

end

def eval (exec : σ → τ → α × σ) : Stmts τ α ρ → σ → ρ × σ
  | .ret r, s => (r, s)
  | .stmt t k, s => eval exec (k (exec s t).1) (exec s t).2

/-- Whether every statement of such a run meets a condition. -/
def meets (exec : σ → τ → α × σ) (ok : σ → τ → Bool) : Stmts τ α ρ → σ → Bool
  | .ret _, _ => true
  | .stmt t k, s => ok s t && meets exec ok (k (exec s t).1) (exec s t).2

theorem reaches_eval {exec : σ → τ → ω → α × σ} {ok : σ → τ → ω → Prop} (o : σ → τ → ω)
    {check : σ → τ → Bool} (hok : ∀ s t, check s t = true → ok s t (o s t)) (p : Stmts τ α ρ) (s : σ)
    (h : meets (fun s t => exec s t (o s t)) check p s = true) :
    Reaches exec ok p s (.ret (eval (fun s t => exec s t (o s t)) p s).1)
      (eval (fun s t => exec s t (o s t)) p s).2 := by
  induction p generalizing s with
  | ret r => exact .refl
  | stmt t k ih =>
    obtain ⟨hfirst, hrest⟩ := Bool.and_eq_true_iff.1 h
    exact .trans (.step .refl (hok s t hfirst)) (ih _ _ hrest)

theorem meets_true (exec : σ → τ → α × σ) (p : Stmts τ α ρ) (s : σ) :
    meets exec (fun _ _ => true) p s = true := by
  induction p generalizing s with
  | ret r => rfl
  | stmt t k ih => exact ih _ _

end Stmts

end Csilk.Lib
