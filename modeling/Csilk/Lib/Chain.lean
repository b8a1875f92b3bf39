import Mathlib.Data.List.Basic
import Mathlib.Data.Option.Basic

namespace Csilk.Lib
open List hiding head tail

structure Cell (α : Type) where
  val : α
  next : Option Nat
deriving DecidableEq

/-- Cells never written again. Addresses are given out in order, so a cell points at an older one.
-/
structure Heap (α : Type) where
  cells : List (Cell α)
  next_lt : ∀ i (c : Cell α), cells[i]? = some c → ∀ j, c.next = some j → j < i

namespace Heap

def empty : Heap α := ⟨[], fun _ _ h => nomatch h⟩

def size (h : Heap α) : Nat := h.cells.length

def path (h : Heap α) : Option Nat → List (Nat × α)
  | none => []
  | some i =>
    match _hc : h.cells[i]? with
    | none => []
    | some c => (i, c.val) :: h.path c.next
termination_by p => p.elim 0 (· + 1)
decreasing_by
  cases hn : c.next with
  | none => exact Nat.succ_pos i
  | some j => exact Nat.succ_lt_succ (h.next_lt i c _hc j hn)

def addrs (h : Heap α) (p : Option Nat) : List Nat := (h.path p).map Prod.fst

def vals (h : Heap α) (p : Option Nat) : List α := (h.path p).map Prod.snd

def Valid (h : Heap α) (p : Option Nat) : Prop := ∀ i, p = some i → i < h.size

def alloc (h : Heap α) (a : α) (next : Option Nat) : Heap α where
  cells := h.cells ++ [⟨a, next.filter (· < h.cells.length)⟩]
  next_lt := by
    intro i c hc j hj
    rw [getElem?_append] at hc
    split at hc
    · exact h.next_lt i c hc j hj
    · rename_i hlt
      have hi : i = h.cells.length := by
        by_contra hne
        rw [getElem?_eq_none (by simp only [length_singleton]; omega)] at hc
        cases hc
      subst hi
      simp only [Nat.sub_self, getElem?_cons_zero, Option.some.injEq] at hc
      subst hc
      exact of_decide_eq_true (Option.filter_eq_some_iff.1 hj).2

/-- Cells for `as` in front of the list at `tail`, and the pointer to the first. -/
def allocAll (h : Heap α) : List α → Option Nat → Heap α × Option Nat
  | [], tail => (h, tail)
  | a :: as, tail =>
    let (h', p) := h.allocAll as tail
    (h'.alloc a p, some h'.size)

section

variable (h : Heap α)
include h

@[simp] theorem path_none : h.path none = [] := by
  rw [path]

theorem path_some (hc : h.cells[i]? = some c) :
    h.path (some i) = (i, c.val) :: h.path c.next := by
  rw [path]
  split
  · rename_i hn
    rw [hn] at hc
    cases hc
  · rename_i c' hc'
    rw [hc'] at hc
    cases hc
    rfl

@[simp] theorem addrs_none : h.addrs none = [] := by
  rw [addrs, path_none, map_nil]

@[simp] theorem vals_none : h.vals none = [] := by
  rw [vals, path_none, map_nil]

theorem addrs_some (hc : h.cells[i]? = some c) :
    h.addrs (some i) = i :: h.addrs c.next := by
  rw [addrs, path_some h hc]
  rfl

theorem vals_some (hc : h.cells[i]? = some c) :
    h.vals (some i) = c.val :: h.vals c.next := by
  rw [vals, path_some h hc]
  rfl

theorem valid_none : h.Valid none := (by rintro _ ⟨⟩)

theorem valid_next {c : Cell α} {i : Nat} (hc : h.cells[i]? = some c) :
    h.Valid c.next := by
  intro j hj
  exact Nat.lt_trans (h.next_lt i c hc j hj) (List.getElem?_eq_some_iff.1 hc).1

theorem exists_cell (hp : h.Valid (some i)) : ∃ c, h.cells[i]? = some c :=
  ⟨_, getElem?_eq_getElem (hp i rfl)⟩

end

/-- Walking a list from a valid pointer: the induction along `next`. -/
theorem path_induction {P : Option Nat → Prop} (h : Heap α) (hnil : P none)
    (hcons : ∀ i c, h.cells[i]? = some c → P c.next → P (some i)) :
    ∀ p, h.Valid p → P p := by
  have hsome : ∀ i, h.Valid (some i) → P (some i) := by
    intro i
    induction i using Nat.strongRecOn with
    | ind i ih =>
      intro hv
      obtain ⟨c, hc⟩ := h.exists_cell hv
      apply hcons i c hc
      cases hn : c.next with
      | none => exact hnil
      | some j => exact ih j (h.next_lt i c hc j hn) (hn ▸ h.valid_next hc)
  intro p hv
  cases p with
  | none => exact hnil
  | some i => exact hsome i hv

structure Extends (h h' : Heap α) : Prop where
  size : h.size ≤ h'.size
  get : ∀ i < h.size, h'.cells[i]? = h.cells[i]?

section

variable {h h' : Heap α} (he : h.Extends h') (hv : h.Valid p)
include he hv

theorem Extends.valid : h'.Valid p :=
  fun i hi => Nat.lt_of_lt_of_le (hv i hi) he.size

theorem Extends.path : h'.path p = h.path p := by
  apply h.path_induction (P := fun p => h'.path p = h.path p) _ _ p hv
  · rw [path_none, path_none]
  · intro i c hc ih
    have hi : i < h.size := (List.getElem?_eq_some_iff.1 hc).1
    rw [path_some _ ((he.get i hi).trans hc), h.path_some hc, ih]

theorem Extends.addrs : h'.addrs p = h.addrs p := by
  rw [Heap.addrs, he.path hv, Heap.addrs]

theorem Extends.vals : h'.vals p = h.vals p := by
  rw [Heap.vals, he.path hv, Heap.vals]

end

theorem Extends.trans {h₁ h₂ h₃ : Heap α} (h : h₁.Extends h₂) (h' : h₂.Extends h₃) :
    h₁.Extends h₃ :=
  ⟨Nat.le_trans h.size h'.size,
    fun i hi => (h'.get i (Nat.lt_of_lt_of_le hi h.size)).trans (h.get i hi)⟩

/-- Older cells stay, new ones hold `as` in front of `tail`. -/
structure Allocated (h : Heap α) (as : List α) (tail : Option Nat) (h' : Heap α)
    (p : Option Nat) : Prop where
  extend : h.Extends h'
  valid : h'.Valid p
  path : ∃ new, h'.path p = new ++ h.path tail ∧ new.map Prod.snd = as ∧ ∀ x ∈ new, h.size ≤ x.1

section

variable (h : Heap α)
include h

theorem mem_addrs (hv : h.Valid p) (hi : p = some i) : i ∈ h.addrs p := by
  subst hi
  obtain ⟨c, hc⟩ := h.exists_cell hv
  rw [h.addrs_some hc]
  exact mem_cons_self

theorem addrs_le (hv : h.Valid p) : ∀ i, p = some i → ∀ j ∈ h.addrs p, j ≤ i := by
  apply h.path_induction (P := fun p => ∀ i, p = some i → ∀ j ∈ h.addrs p, j ≤ i) _ _ p hv
  · simp
  · rintro i c hc ih _ ⟨⟩ j hj
    rw [h.addrs_some hc] at hj
    rcases mem_cons.1 hj with rfl | hj
    · exact Nat.le_refl j
    · cases hn : c.next with
      | none =>
        rw [hn, addrs_none] at hj
        cases hj
      | some k => exact Nat.le_trans (ih k hn j hj) (Nat.le_of_lt (h.next_lt i c hc k hn))

theorem addrs_lt_size (hv : h.Valid p) (hj : j ∈ h.addrs p) : j < h.size := by
  cases p with
  | none =>
    rw [addrs_none] at hj
    cases hj
  | some i => exact Nat.lt_of_le_of_lt (h.addrs_le hv i rfl j hj) (hv i rfl)

theorem addrs_nodup (hv : h.Valid p) : (h.addrs p).Nodup := by
  apply h.path_induction (P := fun p => (h.addrs p).Nodup) _ _ p hv
  · rw [addrs_none]
    exact nodup_nil
  · intro i c hc ih
    rw [h.addrs_some hc, nodup_cons]
    refine ⟨fun hi => ?_, ih⟩
    cases hn : c.next with
    | none =>
      rw [hn, addrs_none] at hi
      cases hi
    | some j =>
      rw [hn] at hi
      have hle := h.addrs_le (hn ▸ h.valid_next hc) j rfl i hi
      exact absurd (h.next_lt i c hc j hn) (Nat.not_lt.2 hle)

theorem cell_of_mem_path (hv : h.Valid p) (hx : x ∈ h.path p) :
    ∃ c, h.cells[x.1]? = some c ∧ c.val = x.2 := by
  revert hx
  apply h.path_induction (P := fun p => x ∈ h.path p → ∃ c, h.cells[x.1]? = some c ∧ c.val = x.2)
    _ _ p hv
  · intro hx
    rw [path_none] at hx
    cases hx
  · intro i c hc ih hx
    rw [h.path_some hc] at hx
    rcases mem_cons.1 hx with rfl | hx
    · exact ⟨c, hc, rfl⟩
    · exact ih hx

theorem size_alloc (a : α) (next : Option Nat) : (h.alloc a next).size = h.size + 1 := by
  simp [alloc, size]

theorem getElem_alloc_size {next : Option Nat} (a : α) (hv : h.Valid next) :
    (h.alloc a next).cells[h.size]? = some ⟨a, next⟩ := by
  have hfilter : next.filter (· < h.cells.length) = next := by
    cases next with
    | none => rfl
    | some j =>
      have hj : j < h.cells.length := hv j rfl
      simpa [Option.filter] using hj
  simp [alloc, size, hfilter]

theorem Extends.refl : h.Extends h := ⟨Nat.le_refl _, fun _ _ => rfl⟩

theorem extends_alloc (a : α) (next : Option Nat) : h.Extends (h.alloc a next) :=
  ⟨by rw [size_alloc]; exact Nat.le_succ _, fun _ hi => getElem?_append_left hi⟩

theorem allocAll_spec (as : List α) (hv : h.Valid tail) :
    Allocated h as tail (h.allocAll as tail).1 (h.allocAll as tail).2 := by
  induction as with
  | nil => exact ⟨.refl h, hv, [], rfl, rfl, (by simp)⟩
  | cons a as ih =>
    obtain ⟨hext, hvalid, new, hpath, hvals, hnew⟩ := ih
    rw [allocAll]
    generalize h.allocAll as tail = r at *
    obtain ⟨h', p⟩ := r
    refine ⟨hext.trans (h'.extends_alloc a p), ?_, (h'.size, a) :: new, ?_, ?_, ?_⟩
    · rintro i ⟨⟩
      rw [size_alloc]
      exact Nat.lt_succ_self _
    · rw [path_some _ (getElem_alloc_size h' a hvalid), (h'.extends_alloc a p).path hvalid, hpath]
      rfl
    · rw [map_cons, hvals]
    · exact forall_mem_cons.2 ⟨hext.size, hnew⟩

end

theorem Allocated.vals {h h' : Heap α} (ha : Allocated h as tail h' p) :
    h'.vals p = as ++ h.vals tail := by
  obtain ⟨new, hpath, hvals, -⟩ := ha.path
  rw [Heap.vals, hpath, map_append, hvals, Heap.vals]

theorem Allocated.addrs {h h' : Heap α} (ha : Allocated h as tail h' p) :
    ∃ new, h'.addrs p = new ++ h.addrs tail ∧ ∀ i ∈ new, h.size ≤ i := by
  obtain ⟨new, hpath, -, hnew⟩ := ha.path
  refine ⟨new.map Prod.fst, ?_, ?_⟩
  · rw [Heap.addrs, hpath, map_append, Heap.addrs]
  · intro i hi
    obtain ⟨x, hx, rfl⟩ := mem_map.1 hi
    exact hnew x hx

end Heap

end Csilk.Lib
