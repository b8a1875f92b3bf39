import Mathlib.Data.List.Basic

namespace Csilk.Lib
open List

structure Extent where
  base : Nat
  len : Nat
deriving DecidableEq

namespace Extent

def limit (e : Extent) : Nat := e.base + e.len

def Apart (a b : Extent) : Prop := a.limit ≤ b.base ∨ b.limit ≤ a.base

def Inside (a b : Extent) : Prop := b.base ≤ a.base ∧ a.limit ≤ b.limit

instance (a b : Extent) : Decidable (a.Apart b) := inferInstanceAs (Decidable (_ ∨ _))

theorem Apart.symm (h : Apart a b) : Apart b a := Or.symm h

theorem Apart.inside (h : Apart a b) (hx : Inside x a) (hy : Inside y b) : Apart x y := by
  rcases h with h | h
  · exact .inl (Nat.le_trans hx.2 (Nat.le_trans h hy.1))
  · exact .inr (Nat.le_trans hy.2 (Nat.le_trans h hx.1))

end Extent

open Extent

structure Bump (areas : List Extent) (mark : Nat) (blocks : List Extent) : Prop where
  areas_apart : areas.Pairwise Apart
  mark_le : ∀ c ∈ areas.head?, c.base ≤ mark ∧ mark ≤ c.limit
  placed : ∀ b ∈ blocks, (∃ c ∈ areas.tail, b.Inside c) ∨
    ∃ c ∈ areas.head?, c.base ≤ b.base ∧ b.limit ≤ mark
  blocks_apart : blocks.Pairwise Apart

theorem Bump.inside (h : Bump areas mark blocks) (hb : b ∈ blocks) : ∃ c ∈ areas, b.Inside c := by
  rcases h.placed b hb with ⟨c, hc, hin⟩ | ⟨c, hc, hlo, hhi⟩
  · exact ⟨c, mem_of_mem_tail hc, hin⟩
  · exact ⟨c, mem_of_mem_head? hc, hlo, Nat.le_trans hhi (h.mark_le c hc).2⟩

theorem Bump.push (h : Bump (c :: rest) mark blocks) (hb : mark ≤ b.base) (hm : b.limit ≤ mark')
    (hc : mark' ≤ c.limit) : Bump (c :: rest) mark' (b :: blocks) := by
  obtain ⟨hlo, hhi⟩ := h.mark_le c rfl
  have hlimit : b.base ≤ b.limit := Nat.le_add_right _ _
  have hbc : b.Inside c := ⟨Nat.le_trans hlo hb, Nat.le_trans hm hc⟩
  refine ⟨h.areas_apart, ?_, ?_, pairwise_cons.2 ⟨?_, h.blocks_apart⟩⟩
  · rintro d ⟨⟩
    exact ⟨by omega, hc⟩
  · intro x hx
    rcases mem_cons.1 hx with rfl | hx
    · exact .inr ⟨c, rfl, hbc.1, hm⟩
    · refine (h.placed x hx).imp id ?_
      rintro ⟨d, ⟨⟩, hd, hxm⟩
      exact ⟨c, rfl, hd, by omega⟩
  · intro x hx
    rcases h.placed x hx with ⟨d, hd, hin⟩ | ⟨d, ⟨⟩, _, hxm⟩
    · exact ((pairwise_cons.1 h.areas_apart).1 d hd).inside hbc hin
    · exact .inr (by omega)

theorem Bump.grow (h : Bump areas mark blocks) (hnew : ∀ a ∈ areas, Apart c a)
    (hb : c.base ≤ b.base) (hm : b.limit ≤ mark') (hc : mark' ≤ c.limit) :
    Bump (c :: areas) mark' (b :: blocks) := by
  have hlimit : b.base ≤ b.limit := Nat.le_add_right _ _
  have hbc : b.Inside c := ⟨hb, Nat.le_trans hm hc⟩
  refine ⟨pairwise_cons.2 ⟨hnew, h.areas_apart⟩, ?_, ?_,
    pairwise_cons.2 ⟨?_, h.blocks_apart⟩⟩
  · rintro d ⟨⟩
    exact ⟨by omega, hc⟩
  · intro x hx
    rcases mem_cons.1 hx with rfl | hx
    · exact .inr ⟨c, rfl, hb, hm⟩
    · exact .inl (h.inside hx)
  · intro x hx
    obtain ⟨d, hd, hin⟩ := h.inside hx
    exact (hnew d hd).inside hbc hin

theorem Bump.empty (h : areas.Pairwise Apart)
    (hm : ∀ c ∈ areas.head?, c.base ≤ mark ∧ mark ≤ c.limit) : Bump areas mark [] :=
  ⟨h, hm, (by simp), .nil⟩

end Csilk.Lib
