import Csilk.Memory.Arena
import Mathlib.Data.List.Perm.Subperm

namespace Csilk.Memory
open Csilk.Lib List

theorem alignUp_eq (h : x + (n - 1) < 2 ^ 64) : alignUp n x = (x + (n - 1)) / n * n := by
  rw [alignUp, Nat.mod_eq_of_lt h]

theorem alignUp_mod (n x : Nat) : alignUp n x % n = 0 := Nat.mul_mod_left _ _

theorem le_alignUp (hn : 0 < n) (h : x + (n - 1) < 2 ^ 64) : x ≤ alignUp n x := by
  rw [alignUp_eq h]
  have hdiv := Nat.div_add_mod (x + (n - 1)) n
  have hmod := Nat.mod_lt (x + (n - 1)) hn
  rw [mul_comm] at hdiv
  omega

theorem alignUp_self (hn : 0 < n) (h : x + (n - 1) < 2 ^ 64) (hx : x % n = 0) : alignUp n x = x := by
  obtain ⟨k, rfl⟩ := Nat.dvd_of_mod_eq_zero hx
  rw [alignUp_eq h, add_comm, Nat.add_mul_div_left _ _ hn, Nat.div_eq_of_lt (by omega),
    zero_add, mul_comm]

theorem Arena.chunkSize_eq (a : Arena) (size n : Nat) :
    a.chunkSize size n = max (alignUp n size) a.defaultChunkSize := by
  unfold Arena.chunkSize
  dsimp only
  -- The chunk is never smaller than the allocation, so that it is not made larger again.
  split
  · rw [if_neg (by omega)]
    omega
  · rw [if_neg (by omega)]
    omega

def Arena.cur (a : Arena) : Nat := if a.align64 then alignUp 64 a.ptr else a.ptr

inductive SlowOutcome (a : Arena) (tls : Tls) (sys : Option Nat) (size n : Nat) :
    Arena × Tls × Option Nat → Prop
  | none : SlowOutcome a tls sys size n (a, tls, none)
  | back (h : tls.take sys (a.chunkSize size n) = some (c, tls')) :
    SlowOutcome a tls sys size n (a, tls'.give c, none)
  | chunk (h : tls.take sys (a.chunkSize size n) = some (c, tls')) (hsize : size + (n - 1) ≤ sizeMax)
    (hchunk : a.chunkSize size n + 64 ≤ sizeMax)
    (hmax : a.maxTotalBytes = 0 ∨
      a.chunkSize size n ≤ (a.maxTotalBytes + 2 ^ 64 - a.totalAllocated) % 2 ^ 64) :
    SlowOutcome a tls sys size n ({ a with
          ptr := (alignUp n c.data + alignUp n size) % 2 ^ 64
          endPtr := (c.data + a.chunkSize size n) % 2 ^ 64
          chunks := c :: a.chunks
          totalAllocated := a.totalAllocated + a.chunkSize size n }, tls', some (alignUp n c.data))

theorem arenaAllocSlow_outcome (a : Arena) (tls : Tls) (sys : Option Nat) (size n : Nat)
    (hn : n - 1 ≤ sizeMax) : SlowOutcome a tls sys size n (arenaAllocSlow a tls sys size n) := by
  unfold arenaAllocSlow
  split
  · exact .none
  rename_i hsize
  dsimp only
  split
  · exact .none
  rename_i hchunk
  split
  · exact .none
  rename_i hmax
  split
  · exact .none
  · rename_i c tls' htake
    split
    · exact .back htake
    · refine .chunk htake (by omega) ?_ ?_
      · have h64 : 64 ≤ sizeMax := by decide
        omega
      · rw [not_and_or, Nat.not_lt, Nat.not_lt] at hmax
        exact hmax.imp Nat.le_zero.1 id

inductive AllocOutcome (a : Arena) (tls : Tls) (sys : Option Nat) (size : Nat) :
    Arena × Tls × Option Nat → Prop
  | fast (hsize : size + (a.alignment - 1) ≤ sizeMax)
    (hroom : (a.cur + alignUp a.alignment size) % 2 ^ 64 ≤ a.endPtr) (hptr : a.ptr ≠ 0) :
    AllocOutcome a tls sys size
      ({ a with ptr := (a.cur + alignUp a.alignment size) % 2 ^ 64 }, tls, some a.cur)
  | none : AllocOutcome a tls sys size (a, tls, none)
  | slow (h : SlowOutcome a tls sys size a.alignment r) : AllocOutcome a tls sys size r

theorem csilkArenaAlloc_outcome (a : Arena) (tls : Tls) (sys : Option Nat) (hsize : 0 < size) :
    AllocOutcome a tls sys size (csilkArenaAlloc a tls sys size) := by
  -- Both alignments try the chunk in the same way.
  have htry (al cur : Nat) (hal : a.alignment = al) (hcur : a.cur = cur) (hle : al - 1 ≤ 63) :
      AllocOutcome a tls sys size
        (if size > sizeMax - (al - 1) then (a, tls, none)
        else if (cur + alignUp al size) % 2 ^ 64 ≤ a.endPtr ∧ a.ptr ≠ 0 then
          ({ a with ptr := (cur + alignUp al size) % 2 ^ 64 }, tls, some cur)
        else arenaAllocSlow a tls sys size al) := by
    subst hal hcur
    split
    · exact .none
    rename_i hs
    split
    · rename_i hroom
      exact .fast (by omega) hroom.1 hroom.2
    · exact .slow (arenaAllocSlow_outcome a tls sys size _ (by omega))
  unfold csilkArenaAlloc
  rw [if_neg (by omega)]
  by_cases h64 : a.align64 = false
  · rw [if_pos h64]
    exact htry 8 a.ptr (by rw [Arena.alignment, h64]; rfl) (by rw [Arena.cur, h64]; rfl) (by decide)
  · have ht : a.align64 = true := eq_true_of_ne_false h64
    rw [if_neg h64]
    exact htry 64 (alignUp 64 a.ptr) (by rw [Arena.alignment, ht]; rfl) (by rw [Arena.cur, ht]; rfl)
      (by decide)

theorem Tls.chunks_set (tls : Tls) (t : Tier) (h : tls.get t = c :: cs) :
    tls.chunks.Perm (c :: (tls.set t cs).chunks) := by
  unfold Tls.chunks Tls.set
  cases t with
  | small =>
    rw [show tls.small = c :: cs from h]
    exact .refl _
  | medium =>
    rw [show tls.medium = c :: cs from h, append_assoc, append_assoc]
    exact perm_middle
  | large =>
    rw [show tls.large = c :: cs from h]
    exact perm_middle

theorem Tls.get_set (tls : Tls) (t : Tier) (cs : List Chunk) : (tls.set t cs).get t = cs := by
  cases t <;> rfl

theorem Tls.set_set (tls : Tls) (t : Tier) (cs ds : List Chunk) :
    (tls.set t cs).set t ds = tls.set t ds := by
  cases t <;> rfl

theorem Tls.set_get (tls : Tls) (t : Tier) : tls.set t (tls.get t) = tls := by
  cases t <;> rfl

def Tier.size : Tier → Nat
  | .small => 4096
  | .medium => 16384
  | .large => 65536

theorem arenaSizeToTier_eq (h : arenaSizeToTier n = some t) : n = t.size := by
  unfold arenaSizeToTier at h
  split at h
  · cases h
    assumption
  split at h
  · cases h
    assumption
  split at h
  · cases h
    assumption
  · cases h

theorem Tls.Tiered.get {tls : Tls} (h : tls.Tiered) (t : Tier) : ∀ c ∈ tls.get t, c.size = t.size := by
  cases t with
  | small => exact h.1
  | medium => exact h.2.1
  | large => exact h.2.2

theorem Tls.Tiered.set {tls : Tls} (h : tls.Tiered) (t : Tier) (hc : ∀ c ∈ cs, c.size = t.size) :
    (tls.set t cs).Tiered := by
  cases t with
  | small => exact ⟨hc, h.2⟩
  | medium => exact ⟨h.1, hc, h.2.2⟩
  | large => exact ⟨h.1, h.2.1, hc⟩

theorem Tls.give_chunks (tls : Tls) (c : Chunk) : (tls.give c).chunks.Subperm (c :: tls.chunks) := by
  unfold Tls.give
  split
  · rename_i t _
    split
    · have hp := Tls.chunks_set (tls.set t (c :: tls.get t)) t (Tls.get_set tls t _)
      rw [Tls.set_set, Tls.set_get] at hp
      exact hp.subperm
    · exact (sublist_cons_self _ _).subperm
  · exact (sublist_cons_self _ _).subperm

theorem Tls.Tiered.give {tls : Tls} (h : tls.Tiered) (c : Chunk) : (tls.give c).Tiered := by
  unfold Tls.give
  split
  · rename_i t ht
    split
    · apply h.set t
      exact forall_mem_cons.2 ⟨arenaSizeToTier_eq ht, h.get t⟩
    · exact h
  · exact h

inductive Taken (tls : Tls) (sys : Option Nat) (size : Nat) : Chunk → Tls → Prop
  | list (hc : c.size = size) (hp : tls.chunks.Perm (c :: tls'.chunks)) (ht : tls'.Tiered) :
    Taken tls sys size c tls'
  | system (h : sys = some addr) (hs : 64 + size + 63 ≤ sizeMax) :
    Taken tls sys size ⟨addr + 64, size⟩ tls

theorem Tls.Tiered.take {tls : Tls} (h : tls.Tiered) (ht : tls.take sys size = some (c, tls')) :
    Taken tls sys size c tls' := by
  have hfresh : (arenaAlignedAlloc sys (64 + size)).map (fun addr => ((⟨addr + 64, size⟩ : Chunk), tls)) =
      some (c, tls') → Taken tls sys size c tls' := by
    intro hm
    obtain ⟨addr, haddr, heq⟩ := Option.map_eq_some_iff.1 hm
    cases heq
    unfold arenaAlignedAlloc at haddr
    split at haddr
    · cases haddr
    · exact .system haddr (by omega)
  unfold Tls.take at ht
  split at ht
  · rename_i t htier
    split at ht
    · rename_i d ds hget
      cases ht
      have hsize : d.size = size :=
        (h.get t d (hget ▸ mem_cons_self)).trans (arenaSizeToTier_eq htier).symm
      have hd : (⟨d.data, size⟩ : Chunk) = d := by rw [← hsize]
      rw [hd]
      refine .list hsize (tls.chunks_set t hget) (h.set t fun e he => ?_)
      exact h.get t e (hget ▸ mem_cons_of_mem _ he)
    · exact hfresh ht
  · exact hfresh ht

end Csilk.Memory
