import Csilk.Lib.Extent
import Csilk.Lib.Transition
import Mathlib.Algebra.GroupWithZero.Nat

namespace Csilk.Memory
open Csilk.Lib

def sizeMax : Nat := 2 ^ 64 - 1

/-- `(x + alignment - 1) & ~(alignment - 1)` on 64-bit words. -/
def alignUp (alignment x : Nat) : Nat := (x + (alignment - 1)) % 2 ^ 64 / alignment * alignment

/-- The address of the data area, which follows a header of 64 bytes, and its size. -/
structure Chunk where
  data : Nat
  size : Nat
deriving DecidableEq

/-- NULL is 0, and the list of chunks starts with `head`. -/
structure Arena where
  ptr : Nat
  endPtr : Nat
  chunks : List Chunk
  defaultChunkSize : Nat
  maxTotalBytes : Nat
  totalAllocated : Nat
  align64 : Bool
deriving DecidableEq

inductive Tier where
  | small
  | medium
  | large
deriving DecidableEq

def arenaSizeToTier (size : Nat) : Option Tier :=
  if size = 4096 then some .small
  else if size = 16384 then some .medium
  else if size = 65536 then some .large
  else none

structure Tls where
  small : List Chunk
  medium : List Chunk
  large : List Chunk
deriving DecidableEq

def Tls.get (tls : Tls) : Tier → List Chunk
  | .small => tls.small
  | .medium => tls.medium
  | .large => tls.large

def Tls.set (tls : Tls) (t : Tier) (cs : List Chunk) : Tls :=
  match t with
  | .small => { tls with small := cs }
  | .medium => { tls with medium := cs }
  | .large => { tls with large := cs }

def Tls.chunks (tls : Tls) : List Chunk := tls.small ++ tls.medium ++ tls.large

def maxTlsChunksPerTier : Nat := 8
def csilkMaxTlsChunks : Nat := 16

def Tls.give (tls : Tls) (c : Chunk) : Tls :=
  match arenaSizeToTier c.size with
  | some t =>
    if (tls.get t).length < maxTlsChunksPerTier ∧ tls.chunks.length < csilkMaxTlsChunks then
      tls.set t (c :: tls.get t)
    else tls
  | none => tls

def arenaAlignedAlloc (sys : Option Nat) (size : Nat) : Option Nat :=
  if sizeMax - 63 < size then none else sys

def Tls.take (tls : Tls) (sys : Option Nat) (size : Nat) : Option (Chunk × Tls) :=
  let fresh := (arenaAlignedAlloc sys (64 + size)).map fun addr => (⟨addr + 64, size⟩, tls)
  match arenaSizeToTier size with
  | some t =>
    match tls.get t with
    | c :: cs => some (⟨c.data, size⟩, tls.set t cs)
    | [] => fresh
  | none => fresh

def Arena.chunkSize (a : Arena) (size alignment : Nat) : Nat :=
  let alignedSize := alignUp alignment size
  let chunkSize := if a.defaultChunkSize < alignedSize then alignedSize else a.defaultChunkSize
  if 8 < alignment ∧ chunkSize < alignedSize ∧ chunkSize ≤ sizeMax - alignment then
    alignedSize + alignment
  else chunkSize

def arenaAllocSlow (a : Arena) (tls : Tls) (sys : Option Nat) (size alignment : Nat) :
    Arena × Tls × Option Nat :=
  if sizeMax - (alignment - 1) < size then (a, tls, none)
  else
    let alignedSize := alignUp alignment size
    let chunkSize := a.chunkSize size alignment
    if sizeMax - 64 < chunkSize then (a, tls, none)
    else if 0 < a.maxTotalBytes ∧
        (a.maxTotalBytes + 2 ^ 64 - a.totalAllocated) % 2 ^ 64 < chunkSize then (a, tls, none)
    else
      match tls.take sys chunkSize with
      | none => (a, tls, none)
      | some (chunk, tls) =>
        if sizeMax - a.totalAllocated < chunkSize then (a, tls.give chunk, none)
        else
          let alignedBase := alignUp alignment chunk.data
          ({ a with
              ptr := (alignedBase + alignedSize) % 2 ^ 64
              endPtr := (chunk.data + chunkSize) % 2 ^ 64
              chunks := chunk :: a.chunks
              totalAllocated := a.totalAllocated + chunkSize }, tls, some alignedBase)

def Arena.alignment (a : Arena) : Nat := if a.align64 then 64 else 8

def csilkArenaAlloc (a : Arena) (tls : Tls) (sys : Option Nat) (size : Nat) :
    Arena × Tls × Option Nat :=
  if size = 0 then (a, tls, some 1)
  else if a.align64 = false then
    if sizeMax - 7 < size then (a, tls, none)
    else
      let alignedSize := alignUp 8 size
      let cur := a.ptr
      let next := (cur + alignedSize) % 2 ^ 64
      if next ≤ a.endPtr ∧ cur ≠ 0 then ({ a with ptr := next }, tls, some cur)
      else arenaAllocSlow a tls sys size 8
  else if sizeMax - 63 < size then (a, tls, none)
  else
    let alignedSize := alignUp 64 size
    let alignedCur := alignUp 64 a.ptr
    let next := (alignedCur + alignedSize) % 2 ^ 64
    if next ≤ a.endPtr ∧ a.ptr ≠ 0 then ({ a with ptr := next }, tls, some alignedCur)
    else arenaAllocSlow a tls sys size 64

def csilkArenaReset (a : Arena) (tls : Tls) : Arena × Tls :=
  match a.chunks with
  | head :: rest =>
    ({ a with
        ptr := head.data
        endPtr := (head.data + head.size) % 2 ^ 64
        chunks := [head]
        totalAllocated := head.size }, rest.foldl Tls.give tls)
  | [] => ({ a with ptr := 0, endPtr := 0, totalAllocated := 0 }, tls)

def csilkArenaNew (defaultChunkSize : Nat) : Arena where
  ptr := 0
  endPtr := 0
  chunks := []
  defaultChunkSize := if 0 < defaultChunkSize then defaultChunkSize else 4096
  maxTotalBytes := 0
  totalAllocated := 0
  align64 := false

def csilkArenaSetAlignment (a : Arena) (enabled : Bool) : Arena := { a with align64 := enabled }

def csilkArenaSetMaxBytes (a : Arena) (maxBytes : Nat) : Arena :=
  { a with maxTotalBytes := maxBytes, totalAllocated := 0 }

def Arena.held (a : Arena) : Nat := (a.chunks.map Chunk.size).sum

def Chunk.extent (c : Chunk) : Extent := ⟨c.data, c.size⟩

def Chunk.region (c : Chunk) : Extent := ⟨c.data - 64, 64 + c.size⟩

structure Block where
  addr : Nat
  size : Nat
  alignment : Nat
deriving DecidableEq

def Block.extent (b : Block) : Extent := ⟨b.addr, b.size⟩

/-- An arena, its thread's free lists, and the blocks since the last reset. -/
structure World where
  arena : Arena
  tls : Tls
  blocks : List Block
deriving DecidableEq

def World.chunks (w : World) : List Chunk := w.arena.chunks ++ w.tls.chunks

/-- A call on the arena; other arenas of the thread may change the free lists. -/
inductive Call where
  | alloc (size : Nat) (sys : Option Nat)
  | reset
  | setAlignment (enabled : Bool)
  | setMaxBytes (maxBytes : Nat)
  | others (tls : Tls)

def World.SysOk (w : World) (size addr : Nat) : Prop :=
  0 < addr ∧ addr % 64 = 0 ∧ addr + alignUp 64 (64 + size) < 2 ^ 64 ∧
    ∀ c ∈ w.chunks, Extent.Apart ⟨addr, alignUp 64 (64 + size)⟩ c.region

instance (w : World) (size addr : Nat) : Decidable (w.SysOk size addr) :=
  inferInstanceAs (Decidable (_ ∧ _ ∧ _ ∧ ∀ _ ∈ _, _))

def Chunk.Sound (c : Chunk) : Prop := 64 < c.data ∧ c.data % 64 = 0 ∧ c.data + c.size + 64 ≤ 2 ^ 64

instance (c : Chunk) : Decidable c.Sound := inferInstanceAs (Decidable (_ ∧ _ ∧ _))

def Tls.Tiered (tls : Tls) : Prop :=
  (∀ c ∈ tls.small, c.size = 4096) ∧ (∀ c ∈ tls.medium, c.size = 16384) ∧
    ∀ c ∈ tls.large, c.size = 65536

instance (tls : Tls) : Decidable tls.Tiered :=
  inferInstanceAs (Decidable ((∀ _ ∈ _, _) ∧ (∀ _ ∈ _, _) ∧ ∀ _ ∈ _, _))

def Tls.Sound (tls : Tls) (chunks : List Chunk) : Prop :=
  (∀ c ∈ tls.chunks, c.Sound) ∧ (chunks ++ tls.chunks).Pairwise (fun c d => c.region.Apart d.region) ∧
    tls.Tiered

instance (tls : Tls) (chunks : List Chunk) : Decidable (tls.Sound chunks) :=
  inferInstanceAs (Decidable ((∀ _ ∈ _, _) ∧ _ ∧ _))

def World.step (w : World) : Call → Option World
  | .alloc size sys =>
    if 0 < size ∧ ∀ addr ∈ sys, w.SysOk (w.arena.chunkSize size w.arena.alignment) addr then
      let (arena, tls, p) := csilkArenaAlloc w.arena w.tls sys size
      some ⟨arena, tls, p.toList.map (⟨·, size, w.arena.alignment⟩) ++ w.blocks⟩
    else none
  | .reset =>
    let (arena, tls) := csilkArenaReset w.arena w.tls
    some ⟨arena, tls, []⟩
  | .setAlignment enabled => some { w with arena := csilkArenaSetAlignment w.arena enabled }
  | .setMaxBytes maxBytes => some { w with arena := csilkArenaSetMaxBytes w.arena maxBytes }
  | .others tls => if tls.Sound w.arena.chunks then some { w with tls := tls } else none

def arenaCalls : System World Call where
  init w := (∃ n, w.arena = csilkArenaNew n) ∧ w.tls.Sound [] ∧ w.blocks = []
  step := World.step

end Csilk.Memory
