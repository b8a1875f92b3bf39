import Csilk.Lib.Update
import Mathlib.Data.Set.Insert

namespace Csilk.Lib
open Function

/-- Readers `ι` announce an epoch and hold linked objects, unlinked ones carry the epoch of their
retirement, and reclaimers `κ` scan and sweep below a limit. -/
structure Epochs (ι κ α : Type) where
  epoch : Nat
  active : ι → Nat
  held : ι → Set α
  linked : Set α
  retired : Set (α × Nat)
  freed : Set α
  /-- The readers a scan has read, and the least epoch it found. -/
  scan : κ → Option (Set ι × Option Nat)
  /-- The objects of a sweep, and its limit. -/
  sweep : κ → Option (Set (α × Nat) × Nat)

/-- What a scan remembers of an announced epoch: the least one other than `0`. -/
def observe (low : Option Nat) (epoch : Nat) : Option Nat :=
  if epoch = 0 then low else some (min epoch (low.getD epoch))

theorem observe_le (low : Option Nat) (he : e ≠ 0) : ∃ m, observe low e = some m ∧ m ≤ e := by
  rw [observe, if_neg he]
  exact ⟨_, rfl, Nat.min_le_left _ _⟩

theorem observe_some (m e : Nat) : ∃ m', observe (some m) e = some m' ∧ m' ≤ m := by
  unfold observe
  split
  · exact ⟨m, rfl, Nat.le_refl m⟩
  · exact ⟨_, rfl, Nat.min_le_right _ _⟩

namespace Epochs

/-- A reader's objects are out of reach of every free; an object is freed once its epoch lies more
than `slack` below the limit. -/
structure Safe (slack : Nat) (a : Epochs ι κ α) : Prop where
  active_le : ∀ i, a.active i ≤ a.epoch
  announced : ∀ i, (a.held i).Nonempty → a.active i ≠ 0
  linked_live : ∀ o ∈ a.linked, o ∉ a.freed ∧ ∀ e, (o, e) ∉ a.retired
  retired_after : ∀ i, ∀ o ∈ a.held i, ∀ e, (o, e) ∈ a.retired → a.active i ≤ e + slack
  scanned : ∀ k S low, a.scan k = some (S, low) → ∀ i ∈ S, ∀ o ∈ a.held i,
    o ∈ a.linked ∨ ∃ m, low = some m ∧ m ≤ a.active i
  swept : ∀ k L lim, a.sweep k = some (L, lim) → L ⊆ a.retired ∧
    ∀ x ∈ L, ∀ i, x.1 ∈ a.held i → lim ≤ x.2 + slack
  not_freed : ∀ i, ∀ o ∈ a.held i, o ∉ a.freed

/-- `b` promises no more than `a`: fewer objects held or under a scan, no smaller retirement epochs.
-/
structure Below (b a : Epochs ι κ α) : Prop where
  epoch : a.epoch ≤ b.epoch
  active : ∀ i, b.active i = a.active i
  held : ∀ i, b.held i ⊆ a.held i
  linked : b.linked = a.linked
  retired : ∀ o e, (o, e) ∈ b.retired → ∃ e' ≤ e, (o, e') ∈ a.retired
  freed : b.freed ⊆ a.freed
  scan : ∀ k S low, b.scan k = some (S, low) → ∃ S', a.scan k = some (S', low) ∧ S ⊆ S'
  sweep : ∀ k L lim, b.sweep k = some (L, lim) → L ⊆ b.retired ∧
    ∃ L', a.sweep k = some (L', lim) ∧ L ⊆ L'

theorem Safe.below {a b : Epochs ι κ α} (h : Safe slack a) (hb : Below b a) : Safe slack b := by
  refine ⟨?_, ?_, ?_, ?_, ?_, ?_, ?_⟩
  · intro i
    rw [hb.active]
    exact (h.active_le i).trans hb.epoch
  · intro i hi
    rw [hb.active]
    exact h.announced i (hi.mono (hb.held i))
  · intro o ho
    rw [hb.linked] at ho
    obtain ⟨hf, hr⟩ := h.linked_live o ho
    refine ⟨fun hof => hf (hb.freed hof), fun e he => ?_⟩
    obtain ⟨e', -, he'⟩ := hb.retired o e he
    exact hr e' he'
  · intro i o ho e he
    obtain ⟨e', hle, he'⟩ := hb.retired o e he
    rw [hb.active]
    exact (h.retired_after i o (hb.held i ho) e' he').trans (Nat.add_le_add_right hle slack)
  · intro k S low hk i hi o ho
    obtain ⟨S', hk', hS⟩ := hb.scan k S low hk
    rw [hb.linked, hb.active]
    exact h.scanned k S' low hk' i (hS hi) o (hb.held i ho)
  · intro k L lim hk
    obtain ⟨hL, L', hk', hLL⟩ := hb.sweep k L lim hk
    refine ⟨hL, fun x hx i hi => ?_⟩
    exact (h.swept k L' lim hk').2 x (hLL hx) i (hb.held i hi)
  · intro i o ho hf
    exact h.not_freed i o (hb.held i ho) (hb.freed hf)

/-- The part of `Below` for the threads `g`, when one goes on to `v`. -/
theorem below_update [DecidableEq κ] {g : κ → σ} (f : σ → Option (Set β × γ))
    (old : κ → Option (Set β × γ))
    (hnew : ∀ S x, f v = some (S, x) → ∃ S', old k = some (S', x) ∧ S ⊆ S')
    (hold : ∀ j, j ≠ k → old j = f (g j)) :
    ∀ j S x, f (update g k v j) = some (S, x) → ∃ S', old j = some (S', x) ∧ S ⊆ S' := by
  refine (forall_update_iff g fun j v =>
    ∀ S x, f v = some (S, x) → ∃ S', old j = some (S', x) ∧ S ⊆ S').2 ⟨hnew, ?_⟩
  exact fun j hj S x hf => ⟨S, (hold j hj).trans hf, Set.Subset.refl S⟩

/-- A reader that holds nothing announces an epoch, or leaves with `0`. -/
def announce [DecidableEq ι] (a : Epochs ι κ α) (i : ι) (e : Nat) : Epochs ι κ α :=
  { a with active := update a.active i e, held := update a.held i ∅ }

def acquire [DecidableEq ι] (a : Epochs ι κ α) (i : ι) (S : Set α) : Epochs ι κ α :=
  { a with held := update a.held i (a.held i ∪ S) }

/-- The objects `new` replace `old`, which retire with epoch `e`. -/
def publish (a : Epochs ι κ α) (old new : Set α) (e : Nat) : Epochs ι κ α :=
  { a with
    linked := a.linked \ old ∪ new
    retired := a.retired ∪ {x | x.1 ∈ old ∧ x.2 = e} }

def scanTo [DecidableEq κ] (a : Epochs ι κ α) (k : κ) (S : Set ι) (low : Option Nat) :
    Epochs ι κ α :=
  { a with scan := update a.scan k (some (S, low)) }

def detach [DecidableEq κ] (a : Epochs ι κ α) (k : κ) (L : Set (α × Nat)) (lim : Nat) :
    Epochs ι κ α :=
  { a with scan := update a.scan k none, sweep := update a.sweep k (some (L, lim)) }

def free (a : Epochs ι κ α) (o : α) : Epochs ι κ α := { a with freed := insert o a.freed }

variable {a : Epochs ι κ α}

theorem Safe.announce [DecidableEq ι] (h : Safe slack a) (i : ι) (he : e ≤ a.epoch) :
    Safe slack (a.announce i e) := by
  have hother : ∀ j, (o : α) → o ∈ update a.held i ∅ j → j ≠ i ∧ o ∈ a.held j := by
    exact fun j o ho => (update_cases (o ∈ ·) ho).resolve_left fun hj => hj.2
  refine ⟨?_, ?_, h.linked_live, ?_, ?_, ?_, ?_⟩
  · intro j
    by_cases hj : j = i
    · subst hj
      simpa [Epochs.announce] using he
    · simpa [Epochs.announce, hj] using h.active_le j
  · rintro j ⟨o, ho⟩
    obtain ⟨hj, ho⟩ := hother j o ho
    simpa [Epochs.announce, hj] using h.announced j ⟨o, ho⟩
  · intro j o ho e he
    obtain ⟨hj, ho⟩ := hother j o ho
    simpa [Epochs.announce, hj] using h.retired_after j o ho e he
  · intro k S low hk j hjS o ho
    obtain ⟨hj, ho⟩ := hother j o ho
    simpa [Epochs.announce, hj] using h.scanned k S low hk j hjS o ho
  · intro k L lim hk
    refine ⟨(h.swept k L lim hk).1, fun x hx j hj => ?_⟩
    exact (h.swept k L lim hk).2 x hx j (hother j x.1 hj).2
  · intro j o ho
    exact h.not_freed j o (hother j o ho).2

theorem Safe.acquire [DecidableEq ι] (h : Safe slack a) (hi : a.active i ≠ 0) (hS : S ⊆ a.linked) :
    Safe slack (a.acquire i S) := by
  -- What a reader holds afterwards it held before, or it is linked.
  have hheld : ∀ j, (o : α) → o ∈ (a.acquire i S).held j → o ∈ a.held j ∨ j = i ∧ o ∈ a.linked := by
    intro j o ho
    rcases update_cases (o ∈ ·) ho with ⟨rfl, ho⟩ | ⟨-, ho⟩
    · exact ho.imp_right fun ho => ⟨rfl, hS ho⟩
    · exact .inl ho
  refine ⟨h.active_le, ?_, h.linked_live, ?_, ?_, ?_, ?_⟩
  · rintro j ⟨o, ho⟩
    rcases hheld j o ho with ho | ⟨rfl, -⟩
    · exact h.announced j ⟨o, ho⟩
    · exact hi
  · intro j o ho e he
    rcases hheld j o ho with ho | ⟨-, ho⟩
    · exact h.retired_after j o ho e he
    · exact absurd he ((h.linked_live o ho).2 e)
  · intro k S' low hk j hj o ho
    rcases hheld j o ho with ho | ⟨-, ho⟩
    · exact h.scanned k S' low hk j hj o ho
    · exact .inl ho
  · intro k L lim hk
    obtain ⟨hL, hlim⟩ := h.swept k L lim hk
    refine ⟨hL, fun x hx j hj => ?_⟩
    rcases hheld j x.1 hj with ho | ⟨-, ho⟩
    · exact hlim x hx j ho
    · exact absurd (hL hx) ((h.linked_live x.1 ho).2 x.2)
  · intro j o ho
    rcases hheld j o ho with ho | ⟨-, ho⟩
    · exact h.not_freed j o ho
    · exact (h.linked_live o ho).1

theorem Safe.publish (h : Safe slack a) (old new : Set α) (he : old.Nonempty → a.epoch ≤ e + slack)
    (hscan : old.Nonempty → ∀ k S low, a.scan k = some (S, low) → S = ∅)
    (hnew : ∀ o ∈ new, o ∉ a.freed ∧ o ∉ old ∧ ∀ e, (o, e) ∉ a.retired) :
    Safe slack (a.publish old new e) := by
  refine ⟨h.active_le, h.announced, ?_, ?_, ?_, ?_, h.not_freed⟩
  · intro o ho
    have hlive : o ∉ a.freed ∧ o ∉ old ∧ ∀ e, (o, e) ∉ a.retired := by
      rcases ho with ⟨ho, hold⟩ | ho
      · exact ⟨(h.linked_live o ho).1, hold, (h.linked_live o ho).2⟩
      · exact hnew o ho
    exact ⟨hlive.1, fun e' he' => he'.elim (hlive.2.2 e') fun he' => hlive.2.1 he'.1⟩
  · rintro i o ho e' (he' | ⟨hold, rfl⟩)
    · exact h.retired_after i o ho e' he'
    · exact (h.active_le i).trans (he ⟨o, hold⟩)
  · intro k S low hk i hi o ho
    rcases h.scanned k S low hk i hi o ho with hl | hl
    · by_cases hold : o ∈ old
      · rw [hscan ⟨o, hold⟩ k S low hk] at hi
        exact absurd hi (Set.notMem_empty i)
      · exact .inl (.inl ⟨hl, hold⟩)
    · exact .inr hl
  · intro k L lim hk
    obtain ⟨hL, hlim⟩ := h.swept k L lim hk
    exact ⟨hL.trans Set.subset_union_left, hlim⟩

section

variable [DecidableEq κ] (h : Safe slack a)
include h

theorem Safe.scanTo (k : κ)
    (hS : ∀ i ∈ S, ∀ o ∈ a.held i, o ∈ a.linked ∨ ∃ m, low = some m ∧ m ≤ a.active i) :
    Safe slack (a.scanTo k S low) := by
  refine { h with scanned := ?_ }
  intro k' S' low' hk i hi o ho
  rcases update_cases (· = some (S', low')) hk with ⟨-, hk⟩ | ⟨-, hk⟩
  · cases hk
    exact hS i hi o ho
  · exact h.scanned k' S' low' hk i hi o ho

theorem Safe.scanMore (hk : a.scan k = some (S, low))
    (hlow : ∀ m, low = some m → ∃ m', low' = some m' ∧ m' ≤ m)
    (hT : ∀ i ∈ T, i ∈ S ∨ ∀ o ∈ a.held i, ∃ m, low' = some m ∧ m ≤ a.active i) :
    Safe slack (a.scanTo k T low') := by
  apply h.scanTo k
  intro i hi o ho
  rcases hT i hi with hi | hi
  · rcases h.scanned k S low hk i hi o ho with hl | ⟨m, hm, hle⟩
    · exact .inl hl
    · obtain ⟨m', hm', hle'⟩ := hlow m hm
      exact .inr ⟨m', hm', hle'.trans hle⟩
  · exact .inr (hi o ho)

theorem Safe.scanReader (hk : a.scan k = some (S, low))
    (hT : ∀ j ∈ T, j ∈ S ∨ j = i) : Safe slack (a.scanTo k T (observe low (a.active i))) := by
  apply h.scanMore hk
  · rintro m rfl
    exact observe_some m _
  · intro j hj
    rcases hT j hj with hj | rfl
    · exact .inl hj
    · exact .inr fun o ho => observe_le low (h.announced j ⟨o, ho⟩)

theorem Safe.detach (L : Set (α × Nat)) (lim : Nat)
    (hk : a.scan k = some (S, low))
    (hS : ∀ i, i ∈ S) (hL : L ⊆ a.retired) (hlim : ∀ m, low = some m → lim ≤ m) :
    Safe slack (a.detach k L lim) := by
  refine { h with scanned := ?_, swept := ?_ }
  · intro k' S' low' hk' i hi o ho
    rcases update_cases (· = some (S', low')) hk' with ⟨-, hk'⟩ | ⟨-, hk'⟩
    · cases hk'
    · exact h.scanned k' S' low' hk' i hi o ho
  · intro k' L' lim' hk'
    rcases update_cases (· = some (L', lim')) hk' with ⟨-, hk'⟩ | ⟨-, hk'⟩
    · cases hk'
      refine ⟨hL, fun x hx i hi => ?_⟩
      rcases h.scanned k S low hk i (hS i) x.1 hi with hl | ⟨m, hm, hle⟩
      · exact absurd (hL hx) ((h.linked_live x.1 hl).2 x.2)
      · exact ((hlim m hm).trans hle).trans (h.retired_after i x.1 hi x.2 (hL hx))
    · exact h.swept k' L' lim' hk'

end

theorem Safe.free (h : Safe slack a) (hk : a.sweep k = some (L, lim)) (hx : (o, e) ∈ L)
    (hlt : e + slack < lim) : Safe slack (a.free o) := by
  obtain ⟨hL, hlim⟩ := h.swept k L lim hk
  refine { h with linked_live := ?_, not_freed := ?_ }
  · intro o' ho'
    obtain ⟨hf, hr⟩ := h.linked_live o' ho'
    refine ⟨?_, hr⟩
    rintro (rfl | hf')
    · exact hr e (hL hx)
    · exact hf hf'
  · rintro i o' ho' (rfl | hf)
    · exact absurd (hlim _ hx i ho') (Nat.not_le_of_lt hlt)
    · exact h.not_freed i o' ho' hf

theorem safe_initial (hactive : ∀ i, a.active i ≤ a.epoch)
    (hheld : ∀ i, a.held i = ∅) (hretired : a.retired = ∅) (hfreed : a.freed = ∅)
    (hsweep : ∀ k, a.sweep k = none) : Safe slack a := by
  have hno : ∀ i, (o : α) → o ∉ a.held i := fun i o ho => by rw [hheld i] at ho; exact ho
  refine ⟨hactive, ?_, ?_, ?_, ?_, ?_, ?_⟩
  · rintro i ⟨o, ho⟩
    exact absurd ho (hno i o)
  · intro o _
    rw [hretired, hfreed]
    exact ⟨Set.notMem_empty o, fun e => Set.notMem_empty _⟩
  · intro i o ho
    exact absurd ho (hno i o)
  · intro k S low _ i _ o ho
    exact absurd ho (hno i o)
  · intro k L lim hk
    rw [hsweep k] at hk
    cases hk
  · intro i o ho
    exact absurd ho (hno i o)

end Epochs

end Csilk.Lib
