import Mathlib.Data.List.Basic
import Mathlib.Logic.Function.Basic

namespace Csilk.ReadBuffers
open List Function

def csilkReadBufEmbedded : Nat := 4

/-- `embedded` says that the arrays are those of the struct, `released` that `read_buffers` points
to freed memory. -/
structure Ctx where
  readBuffers : Nat → Nat
  readBufSizes : Nat → Nat
  embedded : Bool
  readBuffersCount : Nat
  readBuffersCapacity : Nat
  released : Bool

/-- Both allocations succeed, with these contents, or the first or the second fails. -/
inductive Alloc where
  | both (newArr newSizes : Nat → Nat)
  | neither
  | first

/-- The part that makes room. A `realloc` keeps what the array holds. -/
def growReadBuffers (c : Ctx) : Alloc → Ctx × Bool
  | .neither => (c, false)
  | .first => ({ c with released := c.released || !c.embedded }, false)
  | .both newArr newSizes =>
    ({ c with
        readBuffers :=
          if c.embedded then fun i => if i < c.readBuffersCount then c.readBuffers i else newArr i
          else c.readBuffers
        readBufSizes := if c.embedded then newSizes else c.readBufSizes
        embedded := false
        readBuffersCapacity := c.readBuffersCapacity * 2 }, true)

def csilkCtxRegisterPooledReadBuffer (c : Ctx) (alloc : Alloc) (base size : Nat) : Ctx × Bool :=
  let c := if c.readBuffersCapacity = 0 then
      { c with embedded := true, readBuffersCapacity := csilkReadBufEmbedded, readBuffersCount := 0 }
    else c
  let p := if c.readBuffersCapacity ≤ c.readBuffersCount then growReadBuffers c alloc else (c, true)
  if p.2 then
    ({ p.1 with
        readBuffers := update p.1.readBuffers p.1.readBuffersCount base
        readBufSizes := update p.1.readBufSizes p.1.readBuffersCount size
        readBuffersCount := p.1.readBuffersCount + 1 }, true)
  else p

def readBufTierIndex (size : Nat) : Nat := if size ≤ 4096 then 0 else if size ≤ 16384 then 1 else 2

/-- Where `csilk_ctx_cleanup` puts a buffer: into a tier, or none if it frees it. -/
def route (size : Nat) : Option Nat := if 0 < size then some (readBufTierIndex size) else none

/-- The buffers given back, on a server with worker pools. -/
def csilkCtxCleanup (c : Ctx) : List (Nat × Option Nat) :=
  (range c.readBuffersCount).map fun i => (c.readBuffers i, route (c.readBufSizes i))

def registerAll (s : Ctx × List (Nat × Nat)) (calls : List (Alloc × Nat × Nat)) : Ctx × List (Nat × Nat) :=
  calls.foldl (fun s call =>
    let p := csilkCtxRegisterPooledReadBuffer s.1 call.1 call.2.1 call.2.2
    (p.1, if p.2 then s.2 ++ [call.2] else s.2)) s

def initial (readBuffers readBufSizes : Nat → Nat) : Ctx :=
  ⟨readBuffers, readBufSizes, true, 0, csilkReadBufEmbedded, false⟩

/-- The two arrays describe the same buffers in the same order. -/
def Aligned (c : Ctx) (registered : List (Nat × Nat)) : Prop :=
  (range c.readBuffersCount).map (fun i => (c.readBuffers i, c.readBufSizes i)) = registered

theorem Aligned.count (h : Aligned c registered) : c.readBuffersCount = registered.length := by
  rw [← h, length_map, length_range]

theorem Aligned.cleanup (h : Aligned c registered) :
    csilkCtxCleanup c = registered.map fun e => (e.1, route e.2) := by
  rw [← h, map_map]
  rfl

theorem Aligned.register (h : Aligned c registered) (hroom : registered.length < c.readBuffersCapacity)
    (alloc : Alloc) (base size : Nat) :
    ∃ c', csilkCtxRegisterPooledReadBuffer c alloc base size = (c', true) ∧
      c'.readBuffersCapacity = c.readBuffersCapacity ∧ Aligned c' (registered ++ [(base, size)]) := by
  have hcount := h.count
  refine ⟨{ c with
      readBuffers := update c.readBuffers c.readBuffersCount base
      readBufSizes := update c.readBufSizes c.readBuffersCount size
      readBuffersCount := c.readBuffersCount + 1 }, ?_, rfl, ?_⟩
  · have hcap : c.readBuffersCapacity ≠ 0 := by omega
    have hfree : ¬ c.readBuffersCapacity ≤ c.readBuffersCount := by omega
    simp only [csilkCtxRegisterPooledReadBuffer, if_neg hcap, if_neg hfree, if_true]
  · unfold Aligned
    rw [range_succ, map_append, ← h]
    congr 1
    · apply map_congr_left
      intro i hi
      have hne : i ≠ c.readBuffersCount := Nat.ne_of_lt (mem_range.1 hi)
      simp only [update_of_ne hne]
    · simp only [map_cons, map_nil, update_self]

theorem Aligned.registerAll (h : Aligned c registered) (calls : List (Alloc × Nat × Nat))
    (hroom : registered.length + calls.length ≤ c.readBuffersCapacity) :
    ∃ c', registerAll (c, registered) calls = (c', registered ++ calls.map Prod.snd) ∧
      Aligned c' (registered ++ calls.map Prod.snd) := by
  induction calls generalizing c registered with
  | nil =>
    rw [map_nil, append_nil]
    exact ⟨c, rfl, h⟩
  | cons call calls ih =>
    rw [length_cons] at hroom
    obtain ⟨c', hstep, hcap, h'⟩ := h.register (by omega) call.1 call.2.1 call.2.2
    have hrest := ih h' (by rw [length_append, length_singleton]; omega)
    rw [append_assoc] at hrest
    rw [ReadBuffers.registerAll, foldl_cons, hstep]
    exact hrest

/-- While the embedded arrays are enough, each buffer goes back once, to its own tier. -/
theorem csilkCtxRegisterPooledReadBuffer_aligned (readBuffers readBufSizes : Nat → Nat)
    (calls : List (Alloc × Nat × Nat)) (hlen : calls.length ≤ csilkReadBufEmbedded) :
    ∃ c, registerAll (initial readBuffers readBufSizes, []) calls = (c, calls.map Prod.snd) ∧
      Aligned c (calls.map Prod.snd) ∧
      csilkCtxCleanup c = calls.map fun call => (call.2.1, route call.2.2) := by
  have hinit : Aligned (initial readBuffers readBufSizes) [] := rfl
  obtain ⟨c, hrun, haligned⟩ := hinit.registerAll calls ((Nat.zero_add _).symm ▸ hlen)
  refine ⟨c, hrun, haligned, haligned.cleanup.trans ?_⟩
  rw [nil_append, map_map]
  rfl

theorem csilkCtxRegisterPooledReadBuffer_aligned_two :
    ∃ c, registerAll (initial id id, []) [(.neither, 7, 4096), (.neither, 9, 65536)] =
        (c, [(7, 4096), (9, 65536)]) ∧
      Aligned c [(7, 4096), (9, 65536)] ∧ csilkCtxCleanup c = [(7, some 0), (9, some 2)] :=
  csilkCtxRegisterPooledReadBuffer_aligned id id [(.neither, 7, 4096), (.neither, 9, 65536)] (by decide)

/-- The fifth buffer moves the arrays to the heap; of the first four only pointers are copied. -/
theorem csilkCtxRegisterPooledReadBuffer_fifth :
    csilkCtxCleanup (registerAll (initial id id, [])
      ([1, 2, 3, 4, 5].map fun base => (.both id fun _ => 65536, base, 4096))).1 =
      [(1, some 2), (2, some 2), (3, some 2), (4, some 2), (5, some 0)] := by
  decide

end Csilk.ReadBuffers
