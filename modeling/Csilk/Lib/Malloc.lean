import Mathlib.Data.List.Count
import Mathlib.Logic.Function.Basic

namespace Csilk.Lib
open Function

structure Ptr where
  block : Nat
  offset : Nat
deriving DecidableEq

/-- Blocks are numbered by allocation; `misfreed` says that `free` was given anything but the start
of a live block. -/
structure MallocHeap where
  next : Nat
  live : Nat → Bool
  frees : List Nat
  misfreed : Bool

def MallocHeap.malloc (h : MallocHeap) : MallocHeap :=
  { h with next := h.next + 1, live := update h.live h.next true }

def MallocHeap.free (h : MallocHeap) (p : Ptr) : MallocHeap :=
  if p.offset = 0 ∧ h.live p.block = true then
    { h with live := update h.live p.block false, frees := p.block :: h.frees }
  else { h with misfreed := true }

theorem MallocHeap.free_start {h : MallocHeap} (hb : h.live b = true) :
    h.free ⟨b, 0⟩ = { h with live := update h.live b false, frees := b :: h.frees } :=
  if_pos ⟨rfl, hb⟩

theorem MallocHeap.free_inner {h : MallocHeap} {p : Ptr} (hp : p.offset ≠ 0) :
    (h.free p).misfreed = true := by
  rw [MallocHeap.free, if_neg fun hc => hp hc.1]

theorem MallocHeap.free_misfreed {h : MallocHeap} (hm : h.misfreed = true) :
    (h.free p).misfreed = true := by
  rw [MallocHeap.free]
  split
  case isTrue => exact hm
  case isFalse => rfl

/-- Only new blocks were allocated and freed, each at most once. -/
structure MallocHeap.Extends (h h' : MallocHeap) : Prop where
  next : h.next ≤ h'.next
  live : ∀ b < h.next, h'.live b = h.live b
  frees : ∀ b < h.next, h'.frees.count b = h.frees.count b
  bounded : (∀ b ∈ h.frees, b < h.next) → ∀ b ∈ h'.frees, b < h'.next
  misfreed : h'.misfreed = h.misfreed

theorem MallocHeap.Extends.refl (h : MallocHeap) : h.Extends h where
  next := Nat.le_refl _
  live _ _ := rfl
  frees _ _ := rfl
  bounded hb := hb
  misfreed := rfl

theorem MallocHeap.Extends.trans {h₁ h₂ h₃ : MallocHeap} (h : h₁.Extends h₂) (h' : h₂.Extends h₃) :
    h₁.Extends h₃ where
  next := Nat.le_trans h.next h'.next
  live b hb := (h'.live b (Nat.lt_of_lt_of_le hb h.next)).trans (h.live b hb)
  frees b hb := (h'.frees b (Nat.lt_of_lt_of_le hb h.next)).trans (h.frees b hb)
  bounded hb := h'.bounded (h.bounded hb)
  misfreed := h'.misfreed.trans h.misfreed

theorem MallocHeap.Extends.malloc {h h' : MallocHeap} (he : h.Extends h') :
    h.Extends h'.malloc where
  next := Nat.le_succ_of_le he.next
  live b hb := (update_of_ne (Nat.ne_of_lt (Nat.lt_of_lt_of_le hb he.next)) ..).trans (he.live b hb)
  frees := he.frees
  bounded hb b hmem := Nat.lt_succ_of_lt (he.bounded hb b hmem)
  misfreed := he.misfreed

theorem MallocHeap.Extends.free {h h' : MallocHeap} (he : h.Extends h') (hnew : h.next ≤ b)
    (hlt : b < h'.next) (hb : h'.live b = true) : h.Extends (h'.free ⟨b, 0⟩) := by
  rw [MallocHeap.free_start hb]
  refine ⟨he.next, fun c hc => ?_, fun c hc => ?_, fun hbd c hmem => ?_, he.misfreed⟩
  · exact (update_of_ne (Nat.ne_of_lt (Nat.lt_of_lt_of_le hc hnew)) ..).trans (he.live c hc)
  · rw [List.count_cons_of_ne (Nat.ne_of_gt (Nat.lt_of_lt_of_le hc hnew))]
    exact he.frees c hc
  · rcases List.mem_cons.1 hmem with rfl | hmem
    · exact hlt
    · exact he.bounded hbd c hmem

theorem MallocHeap.malloc_live (h : MallocHeap) : h.malloc.live h.next = true := update_self ..

theorem MallocHeap.count_new {h : MallocHeap} (hbd : ∀ b ∈ h.frees, b < h.next)
    (hnew : h.next ≤ b) : h.frees.count b = 0 :=
  List.count_eq_zero.2 fun hmem => Nat.not_lt.2 hnew (hbd _ hmem)

end Csilk.Lib
