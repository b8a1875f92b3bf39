import Csilk.Memory.Outcome

namespace Csilk.Memory
open Csilk.Lib Option

def Call.isReset : Call → Bool
  | .reset => true
  | _ => false

/-- An arena with a cap, and whether its counter started with the chunks: it held none, or it has
been reset since. -/
structure CapState where
  world : World
  counted : Bool
deriving DecidableEq

def CapState.step (s : CapState) (e : Call) : Option CapState :=
  (s.world.step e).map fun w => ⟨w, s.counted || e.isReset⟩

def cappedCalls (maxBytes : Nat) : System CapState Call where
  init s := ∃ w : World, w.arena.held ≤ maxBytes ∧
    s = ⟨{ w with arena := csilkArenaSetMaxBytes w.arena maxBytes }, w.arena.chunks.isEmpty⟩
  step := CapState.step

/-- The cap stays, and no allocation comes before the counter is right. -/
def Call.Counted (s : CapState) : Call → Prop
  | .alloc _ _ => s.counted = true
  | .setMaxBytes _ => False
  | _ => True

instance (s : CapState) : (e : Call) → Decidable (e.Counted s)
  | .alloc _ _ => inferInstanceAs (Decidable (s.counted = true))
  | .setMaxBytes _ => inferInstanceAs (Decidable False)
  | .reset | .setAlignment _ | .others _ => inferInstanceAs (Decidable True)

def Arena.Full (a : Arena) (size : Nat) : Prop :=
  ¬((a.cur + alignUp a.alignment size) % 2 ^ 64 ≤ a.endPtr ∧ a.ptr ≠ 0)

structure CapInv (maxBytes : Nat) (s : CapState) : Prop where
  max : s.world.arena.maxTotalBytes = maxBytes
  held : s.world.arena.held ≤ maxBytes
  total : s.counted = true → s.world.arena.totalAllocated = s.world.arena.held

theorem held_cons (c : Chunk) (cs : List Chunk) :
    ((c :: cs).map Chunk.size).sum = c.size + (cs.map Chunk.size).sum := rfl

theorem Tls.take_size (h : Tls.take tls sys size = some (c, tls')) : c.size = size := by
  have hfresh : (arenaAlignedAlloc sys (64 + size)).map (fun addr => ((⟨addr + 64, size⟩ : Chunk), tls)) =
      some (c, tls') → c.size = size := by
    intro hm
    obtain ⟨addr, _, heq⟩ := map_eq_some_iff.1 hm
    cases heq
    rfl
  unfold Tls.take at h
  dsimp only at h
  split at h
  · split at h
    · cases h
      rfl
    · exact hfresh h
  · exact hfresh h

theorem csilkArenaAlloc_held {a b : Arena} (hpos : 0 < size) (hmax : 0 < a.maxTotalBytes)
    (hword : a.maxTotalBytes ≤ sizeMax) (htotal : a.totalAllocated ≤ a.maxTotalBytes)
    (hr : csilkArenaAlloc a tls sys size = (b, tls', p)) :
    b.maxTotalBytes = a.maxTotalBytes ∧
      ((b.held = a.held ∧ b.totalAllocated = a.totalAllocated ∧ (a.Full size → p = none)) ∨
        (b.held = a.held + a.chunkSize size a.alignment ∧
          b.totalAllocated = a.totalAllocated + a.chunkSize size a.alignment ∧
          b.totalAllocated ≤ a.maxTotalBytes)) := by
  have hout := csilkArenaAlloc_outcome a tls sys hpos
  rw [hr] at hout
  cases hout with
  | fast _ hroom hptr => exact ⟨rfl, .inl ⟨rfl, rfl, fun hfull => absurd ⟨hroom, hptr⟩ hfull⟩⟩
  | none => exact ⟨rfl, .inl ⟨rfl, rfl, fun _ => rfl⟩⟩
  | slow hslow =>
    cases hslow with
    | none | back _ => exact ⟨rfl, .inl ⟨rfl, rfl, fun _ => rfl⟩⟩
    | chunk htake _ _ hcap =>
      have hc := Tls.take_size htake
      have hlt : sizeMax < 2 ^ 64 := by decide
      refine ⟨rfl, .inr ⟨?_, rfl, ?_⟩⟩
      · rw [Arena.held, held_cons, hc, add_comm]
        rfl
      · show a.totalAllocated + a.chunkSize size a.alignment ≤ a.maxTotalBytes
        rcases hcap with hcap | hcap
        · omega
        · have hsub : a.maxTotalBytes + 2 ^ 64 - a.totalAllocated =
              a.maxTotalBytes - a.totalAllocated + 2 ^ 64 := by omega
          rw [hsub, Nat.add_mod_right, Nat.mod_eq_of_lt (by omega)] at hcap
          omega

theorem csilkArenaReset_held (a : Arena) (tls : Tls) :
    let b := (csilkArenaReset a tls).1
    b.maxTotalBytes = a.maxTotalBytes ∧ b.held ≤ a.held ∧ b.totalAllocated = b.held := by
  unfold csilkArenaReset
  cases hc : a.chunks with
  | nil => exact ⟨rfl, Nat.zero_le _, rfl⟩
  | cons c rest =>
    refine ⟨rfl, ?_, rfl⟩
    rw [Arena.held, Arena.held, hc]
    exact Nat.add_le_add_left (Nat.zero_le _) _

theorem CapInv.alloc {s : CapState} (h : CapInv maxBytes s) (hmax : 0 < maxBytes)
    (hword : maxBytes ≤ sizeMax) (hcount : s.counted = true) (hpos : 0 < size)
    (hr : csilkArenaAlloc s.world.arena s.world.tls sys size = (b, t, p)) :
    CapInv maxBytes ⟨⟨b, t, blocks⟩, counted⟩ := by
  have htotal := h.total hcount
  obtain ⟨hsame, hcases⟩ := csilkArenaAlloc_held hpos (h.max ▸ hmax) (h.max ▸ hword)
    (by rw [htotal, h.max]; exact h.held) hr
  rcases hcases with ⟨hheld, hsum, _⟩ | ⟨hheld, hsum, hle⟩
  · exact ⟨hsame.trans h.max, hheld ▸ h.held, fun _ => hsum.trans (htotal.trans hheld.symm)⟩
  · have heq : b.totalAllocated = b.held := by rw [hsum, hheld, htotal]
    exact ⟨hsame.trans h.max, by rw [← h.max, ← heq]; exact hle, fun _ => heq⟩

theorem CapInv.step {s s' : CapState} (h : CapInv maxBytes s) (hpos : 0 < maxBytes)
    (hword : maxBytes ≤ sizeMax) {e : Call} (hok : e.Counted s) (hs : s.step e = some s') :
    CapInv maxBytes s' := by
  obtain ⟨w, hw, rfl⟩ := map_eq_some_iff.1 hs
  cases e with
  | alloc size sys =>
    rw [World.step] at hw
    split at hw
    · rename_i hg
      cases hw
      exact h.alloc hpos hword hok hg.1 rfl
    · cases hw
  | reset =>
    cases hw
    obtain ⟨hmax, hle, htotal⟩ := csilkArenaReset_held s.world.arena s.world.tls
    exact ⟨hmax.trans h.max, Nat.le_trans hle h.held, fun _ => htotal⟩
  | setAlignment enabled =>
    cases hw
    rw [show (s.counted || (Call.setAlignment enabled).isReset) = s.counted from Bool.or_false _]
    exact { h with }
  | setMaxBytes n => exact absurd hok id
  | others t =>
    rw [World.step] at hw
    split at hw
    · cases hw
      rw [show (s.counted || (Call.others t).isReset) = s.counted from Bool.or_false _]
      exact { h with }
    · cases hw

theorem CapInv.init {s : CapState} (h : (cappedCalls maxBytes).init s) : CapInv maxBytes s := by
  obtain ⟨w, hheld, rfl⟩ := h
  refine ⟨rfl, hheld, fun hempty => ?_⟩
  have hc : w.arena.chunks = [] := List.isEmpty_iff.1 hempty
  show 0 = (w.arena.chunks.map Chunk.size).sum
  rw [hc]
  rfl

/-- With no allocation between setting the cap and the next reset, the chunks stay within it. -/
theorem arena_cap_holds (maxBytes : Nat) (hpos : 0 < maxBytes) (hword : maxBytes ≤ sizeMax)
    (s : CapState) (hr : (cappedCalls maxBytes).Reachable (fun s e => e.Counted s) s) :
    s.world.arena.held ≤ maxBytes ∧
      ∀ size sys b t p, 0 < size → s.counted = true → s.world.arena.Full size →
        maxBytes < s.world.arena.held + s.world.arena.chunkSize size s.world.arena.alignment →
        csilkArenaAlloc s.world.arena s.world.tls sys size = (b, t, p) →
        p = none ∧ b.held = s.world.arena.held := by
  have h : CapInv maxBytes s :=
    hr.invariant (fun _ hi => .init hi) fun _ _ _ h hok hs => h.step hpos hword hok hs
  refine ⟨h.held, fun size sys b t p hsize hcount hfull hmore halloc => ?_⟩
  have htotal := h.total hcount
  obtain ⟨_, hcases⟩ := csilkArenaAlloc_held hsize (h.max ▸ hpos) (h.max ▸ hword)
    (by rw [htotal, h.max]; exact h.held) halloc
  rcases hcases with ⟨hheld, _, hnone⟩ | ⟨_, hsum, hle⟩
  · exact ⟨hnone hfull, hheld⟩
  · rw [hsum, htotal, h.max] at hle
    omega

def cappedFresh : CapState := ⟨⟨csilkArenaSetMaxBytes (csilkArenaNew 0) 8192, ⟨[], [], []⟩, []⟩, true⟩

theorem arena_cap_holds_two :
    ∃ s, (cappedCalls 8192).Reachable (fun s e => e.Counted s) s ∧ s.world.arena.held = 8192 ∧
      (csilkArenaAlloc s.world.arena s.world.tls (some 196608) 8).2.2 = none := by
  have hinit : (cappedCalls 8192).init cappedFresh :=
    ⟨⟨csilkArenaNew 0, ⟨[], [], []⟩, []⟩, by decide, rfl⟩
  obtain ⟨s, hreach, hfacts⟩ := (cappedCalls 8192).run_map (p := fun s e => e.Counted s) cappedFresh
    [.alloc 4096 (some 65536), .alloc 4096 (some 131072)]
    (fun s => (s.world.arena.held, s.counted, decide (s.world.arena.ptr = s.world.arena.endPtr),
      s.world.arena.align64, s.world.arena.defaultChunkSize, s.world.arena.ptr))
    (8192, true, true, false, 4096, 135232) hinit (by decide +kernel)
  simp only [Prod.mk.injEq, decide_eq_true_eq] at hfacts
  obtain ⟨hheld, hcount, hend, h64, hsize, hptr⟩ := hfacts
  have halign : s.world.arena.alignment = 8 := by rw [Arena.alignment, h64]; rfl
  have hfull : s.world.arena.Full 8 := by
    unfold Arena.Full
    rw [halign, ← hend, Arena.cur, h64, hptr]
    decide
  obtain ⟨_, hcap⟩ := arena_cap_holds 8192 (by decide) (by decide) s hreach
  refine ⟨s, hreach, hheld, ?_⟩
  refine (hcap 8 (some 196608) _ _ _ (by decide) hcount hfull ?_ rfl).1
  rw [hheld, Arena.chunkSize_eq, halign, hsize]
  decide

/-- Setting the cap clears the counter, and the next allocation gets a second chunk. -/
theorem arena_cap_exceeded : ∃ w, arenaCalls.Reachable (fun _ _ => True) w ∧ w.arena.held ≤ 4096 ∧
      ∃ w', World.step { w with arena := csilkArenaSetMaxBytes w.arena 4096 }
        (.alloc 8 (some 131072)) = some w' ∧ w'.arena.held = 8192 := by
  have hinit : arenaCalls.init ⟨csilkArenaNew 0, ⟨[], [], []⟩, []⟩ :=
    ⟨⟨0, rfl⟩, ⟨(by rintro _ ⟨⟩), .nil, by decide⟩, rfl⟩
  obtain ⟨w, hw, hpair⟩ := arenaCalls.run_map (p := fun _ _ => True) _ [.alloc 4096 (some 65536)]
    (fun w => (w.arena.held, (World.step { w with arena := csilkArenaSetMaxBytes w.arena 4096 }
      (.alloc 8 (some 131072))).map fun w => w.arena.held)) (4096, some 8192) hinit (by decide +kernel)
  obtain ⟨hheld, hnext⟩ := Prod.mk.inj hpair
  obtain ⟨w', hw', hheld'⟩ := map_eq_some_iff.1 hnext
  exact ⟨w, hw, Nat.le_of_eq hheld, w', hw', hheld'⟩

end Csilk.Memory
