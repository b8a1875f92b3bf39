import Csilk.Memory.Outcome

namespace Csilk.Memory
open Csilk.Lib List

def Chunk.Apart (c d : Chunk) : Prop := c.region.Apart d.region

theorem Chunk.Apart.symm (h : Chunk.Apart c d) : Chunk.Apart d c := Extent.Apart.symm h

theorem pairwise_apart_subperm {xs ys : List Chunk} (h : xs.Pairwise Chunk.Apart) (hs : ys.Subperm xs) :
    ys.Pairwise Chunk.Apart := by
  obtain ⟨zs, hperm, hsub⟩ := hs
  exact (hperm.pairwise_iff fun {_ _} => Chunk.Apart.symm).1 (h.sublist hsub)

theorem Chunk.Apart.extent (h : Chunk.Apart c d) (hc : c.Sound) (hd : d.Sound) :
    c.extent.Apart d.extent := by
  have hin : ∀ e : Chunk, e.Sound → e.extent.Inside e.region := by
    intro e he
    constructor
    · show e.data - 64 ≤ e.data
      omega
    · show e.data + e.size ≤ e.data - 64 + (64 + e.size)
      omega
  exact Extent.Apart.inside h (hin c hc) (hin d hd)

structure World.Inv (w : World) : Prop where
  sound : ∀ c ∈ w.chunks, c.Sound
  apart : w.chunks.Pairwise Chunk.Apart
  tiered : w.tls.Tiered
  endPtr : ∀ c ∈ w.arena.chunks.head?, w.arena.endPtr = c.data + c.size
  null : w.arena.chunks = [] → w.arena.ptr = 0
  ptr : w.arena.ptr % 8 = 0
  bump : Bump (w.arena.chunks.map Chunk.extent) w.arena.ptr (w.blocks.map Block.extent)
  aligned : ∀ b ∈ w.blocks, b.addr % b.alignment = 0

theorem Arena.alignment_cases (a : Arena) : (a.align64 = false ∧ a.alignment = 8 ∧ a.cur = a.ptr) ∨
      (a.align64 = true ∧ a.alignment = 64 ∧ a.cur = alignUp 64 a.ptr) := by
  unfold Arena.alignment Arena.cur
  cases a.align64 with
  | false => exact .inl ⟨rfl, rfl, rfl⟩
  | true => exact .inr ⟨rfl, rfl, rfl⟩

theorem Arena.cur_spec {a : Arena} (hptr : a.ptr % 8 = 0) (hlt : a.ptr + 64 ≤ 2 ^ 64) :
    a.ptr ≤ a.cur ∧ a.cur % a.alignment = 0 ∧ a.cur % 8 = 0 := by
  rcases a.alignment_cases with ⟨_, hal, hcur⟩ | ⟨_, hal, hcur⟩
  · rw [hal, hcur]
    exact ⟨Nat.le_refl _, hptr, hptr⟩
  · rw [hal, hcur]
    have hmod := alignUp_mod 64 a.ptr
    exact ⟨le_alignUp (by decide) (by omega), hmod, by omega⟩

theorem Arena.alignUp_spec (a : Arena) (hsize : size + (a.alignment - 1) ≤ sizeMax) :
    size ≤ alignUp a.alignment size ∧ alignUp a.alignment size % 8 = 0 := by
  have hmax : sizeMax < 2 ^ 64 := by decide
  have hmod := alignUp_mod a.alignment size
  rcases a.alignment_cases with ⟨_, hal, _⟩ | ⟨_, hal, _⟩ <;> rw [hal] at hsize hmod ⊢
  · exact ⟨le_alignUp (by decide) (by omega), hmod⟩
  · exact ⟨le_alignUp (by decide) (by omega), by omega⟩

theorem Chunk.Sound.alignUp {c : Chunk} (h : c.Sound) (a : Arena) :
    alignUp a.alignment c.data = c.data ∧ c.data % a.alignment = 0 := by
  obtain ⟨_, hmod, hlt⟩ := h
  rcases a.alignment_cases with ⟨_, hal, _⟩ | ⟨_, hal, _⟩ <;> rw [hal]
  · exact ⟨alignUp_self (by decide) (by omega) (by omega), by omega⟩
  · exact ⟨alignUp_self (by decide) (by omega) hmod, hmod⟩

/-- An allocation that does not run over the end of the address space. -/
def Call.NoWrap (w : World) : Call → Prop
  | .alloc size _ => w.arena.cur + alignUp w.arena.alignment size < 2 ^ 64
  | _ => True

instance (w : World) (e : Call) : Decidable (e.NoWrap w) := by
  unfold Call.NoWrap
  split <;> infer_instance

theorem World.Inv.fast {w : World} (h : w.Inv) (hsize : size + (w.arena.alignment - 1) ≤ sizeMax)
    (hroom : (w.arena.cur + alignUp w.arena.alignment size) % 2 ^ 64 ≤ w.arena.endPtr)
    (hptr : w.arena.ptr ≠ 0) (hwrap : w.arena.cur + alignUp w.arena.alignment size < 2 ^ 64) :
    World.Inv { w with
        arena := { w.arena with ptr := (w.arena.cur + alignUp w.arena.alignment size) % 2 ^ 64 }
        blocks := ⟨w.arena.cur, size, w.arena.alignment⟩ :: w.blocks } := by
  rw [Nat.mod_eq_of_lt hwrap] at hroom ⊢
  cases hc : w.arena.chunks with
  | nil => exact absurd (h.null hc) hptr
  | cons c rest =>
    have hend := h.endPtr c (by rw [hc]; rfl)
    have hsound := h.sound c (by rw [World.chunks, hc]; exact mem_cons_self)
    have hbump := h.bump
    rw [hc] at hbump
    obtain ⟨hlo, hhi⟩ := hbump.mark_le c.extent rfl
    have hlim : c.extent.limit = c.data + c.size := rfl
    obtain ⟨_, _, hspace⟩ := hsound
    obtain ⟨hle, hmod, hmod8⟩ := Arena.cur_spec h.ptr (by omega)
    obtain ⟨hup, hup8⟩ := w.arena.alignUp_spec hsize
    refine ⟨h.sound, h.apart, h.tiered, h.endPtr, fun he => ?_, ?_, ?_, ?_⟩
    · rw [hc] at he
      cases he
    · show (w.arena.cur + alignUp w.arena.alignment size) % 8 = 0
      omega
    · show Bump (w.arena.chunks.map Chunk.extent) (w.arena.cur + alignUp w.arena.alignment size)
        (Block.extent ⟨w.arena.cur, size, w.arena.alignment⟩ :: w.blocks.map Block.extent)
      rw [hc]
      apply hbump.push
      · exact hle
      · exact Nat.add_le_add_left hup _
      · omega
    · exact forall_mem_cons.2 ⟨hmod, h.aligned⟩

structure NewChunk (w : World) (c : Chunk) (tls : Tls) : Prop where
  sound : ∀ d ∈ c :: (w.arena.chunks ++ tls.chunks), d.Sound
  apart : (c :: (w.arena.chunks ++ tls.chunks)).Pairwise Chunk.Apart
  tiered : tls.Tiered

theorem World.Inv.take {w : World} (h : w.Inv) (ht : w.tls.take sys size = some (c, t))
    (hsys : ∀ addr ∈ sys, w.SysOk size addr) : NewChunk w c t ∧ c.size = size := by
  cases h.tiered.take ht with
  | list hc hp ht' =>
    have hperm : w.chunks.Perm (c :: (w.arena.chunks ++ t.chunks)) :=
      (hp.append_left _).trans perm_middle
    refine ⟨⟨fun d hd => h.sound d (hperm.mem_iff.2 hd), ?_, ht'⟩, hc⟩
    exact (hperm.pairwise_iff fun {_ _} => Chunk.Apart.symm).1 h.apart
  | system haddr hs =>
    rename_i addr
    obtain ⟨hpos, hmod, hlt, hap⟩ := hsys addr haddr
    have hmax : sizeMax < 2 ^ 64 := by decide
    have hle : 64 + size ≤ alignUp 64 (64 + size) := le_alignUp (by decide) (by omega)
    have hmul := alignUp_mod 64 (64 + size)
    have hsound : Chunk.Sound ⟨addr + 64, size⟩ :=
      ⟨by dsimp only; omega, by dsimp only; omega, by dsimp only; omega⟩
    have hin : (Chunk.region ⟨addr + 64, size⟩).Inside ⟨addr, alignUp 64 (64 + size)⟩ :=
      ⟨by dsimp only [Chunk.region]; omega, by dsimp only [Chunk.region, Extent.limit]; omega⟩
    refine ⟨⟨forall_mem_cons.2 ⟨hsound, h.sound⟩, pairwise_cons.2 ⟨?_, h.apart⟩,
      h.tiered⟩, rfl⟩
    intro d hd
    exact (hap d hd).inside hin ⟨Nat.le_refl _, Nat.le_refl _⟩

theorem World.Inv.slow {w : World} (h : w.Inv) (hnew : NewChunk w c t)
    (hc : c.size = w.arena.chunkSize size w.arena.alignment)
    (hsize : size + (w.arena.alignment - 1) ≤ sizeMax) :
    World.Inv
      { arena := { w.arena with
          ptr := (alignUp w.arena.alignment c.data + alignUp w.arena.alignment size) % 2 ^ 64
          endPtr := (c.data + w.arena.chunkSize size w.arena.alignment) % 2 ^ 64
          chunks := c :: w.arena.chunks
          totalAllocated := w.arena.totalAllocated + w.arena.chunkSize size w.arena.alignment }
        tls := t
        blocks := ⟨alignUp w.arena.alignment c.data, size, w.arena.alignment⟩ :: w.blocks } := by
  have hsound := hnew.sound c mem_cons_self
  obtain ⟨hbase, hmod⟩ := hsound.alignUp w.arena
  obtain ⟨hup, hup8⟩ := w.arena.alignUp_spec hsize
  have hle : alignUp w.arena.alignment size ≤ c.size := by
    rw [hc, Arena.chunkSize_eq]
    exact Nat.le_max_left _ _
  obtain ⟨hpos, hmod64, hspace⟩ := hsound
  rw [hbase, ← hc, Nat.mod_eq_of_lt (show c.data + alignUp w.arena.alignment size < 2 ^ 64 by omega),
    Nat.mod_eq_of_lt (show c.data + c.size < 2 ^ 64 by omega)]
  refine ⟨hnew.sound, hnew.apart, hnew.tiered, ?_, fun he => ?_, ?_, ?_, ?_⟩
  · rintro d ⟨⟩
    rfl
  · cases he
  · show (c.data + alignUp w.arena.alignment size) % 8 = 0
    omega
  · show Bump (c.extent :: w.arena.chunks.map Chunk.extent) (c.data + alignUp w.arena.alignment size)
      (Block.extent ⟨c.data, size, w.arena.alignment⟩ :: w.blocks.map Block.extent)
    apply h.bump.grow
    · intro e he
      obtain ⟨d, hd, rfl⟩ := List.mem_map.1 he
      have hd' : d ∈ w.arena.chunks ++ t.chunks := mem_append_left _ hd
      exact ((pairwise_cons.1 hnew.apart).1 d hd').extent ⟨hpos, hmod64, hspace⟩
        (hnew.sound d (mem_cons_of_mem _ hd'))
    · exact Nat.le_refl _
    · exact Nat.add_le_add_left hup _
    · exact Nat.add_le_add_left hle _
  · exact forall_mem_cons.2 ⟨hmod, h.aligned⟩

theorem World.Inv.withTls {w : World} (h : w.Inv) (hsound : ∀ c ∈ t.chunks, c.Sound)
    (hap : (w.arena.chunks ++ t.chunks).Pairwise Chunk.Apart) (ht : t.Tiered) :
    World.Inv { w with tls := t } := by
  refine ⟨fun c hc => ?_, hap, ht, h.endPtr, h.null, h.ptr, h.bump, h.aligned⟩
  rcases mem_append.1 hc with hc | hc
  · exact h.sound c (mem_append_left _ hc)
  · exact hsound c hc

theorem World.Inv.back {w : World} (h : w.Inv) (hnew : NewChunk w c t) :
    World.Inv { w with tls := t.give c } := by
  have hsub : (w.arena.chunks ++ (t.give c).chunks).Subperm (c :: (w.arena.chunks ++ t.chunks)) :=
    ((subperm_append_left _).2 (t.give_chunks c)).trans perm_middle.subperm
  refine h.withTls (fun d hd => ?_) (pairwise_apart_subperm hnew.apart hsub) (hnew.tiered.give c)
  exact hnew.sound d (hsub.subset (mem_append_right _ hd))

theorem Tls.foldl_give (cs : List Chunk) (tls : Tls) (h : tls.Tiered) :
    (cs.foldl Tls.give tls).chunks.Subperm (cs ++ tls.chunks) ∧ (cs.foldl Tls.give tls).Tiered := by
  induction cs generalizing tls with
  | nil => exact ⟨.refl _, h⟩
  | cons c cs ih =>
    obtain ⟨hsub, htier⟩ := ih (tls.give c) (h.give c)
    refine ⟨hsub.trans ?_, htier⟩
    exact ((subperm_append_left _).2 (tls.give_chunks c)).trans perm_middle.subperm

theorem World.Inv.reset {w : World} (h : w.Inv) :
    World.Inv ⟨(csilkArenaReset w.arena w.tls).1, (csilkArenaReset w.arena w.tls).2, []⟩ := by
  unfold csilkArenaReset
  cases hc : w.arena.chunks with
  | nil =>
    have hsound := h.sound
    have hap := h.apart
    rw [World.chunks, hc] at hsound hap
    exact ⟨hsound, hap, h.tiered, (by simp), fun _ => rfl, rfl, .empty .nil (by simp), (by simp)⟩
  | cons c rest =>
    obtain ⟨hsub, htier⟩ := Tls.foldl_give rest w.tls h.tiered
    have hall : ([c] ++ (rest.foldl Tls.give w.tls).chunks).Subperm w.chunks := by
      rw [World.chunks, hc]
      exact (subperm_cons c).2 hsub
    have hsound := h.sound c (by rw [World.chunks, hc]; exact mem_cons_self)
    obtain ⟨_, hmod, hspace⟩ := hsound
    refine ⟨fun d hd => h.sound d (hall.subset hd), pairwise_apart_subperm h.apart hall, htier, ?_,
      (by simp), ?_, ?_, (by simp)⟩
    · rintro d ⟨⟩
      exact Nat.mod_eq_of_lt (by omega)
    · show c.data % 8 = 0
      omega
    · refine .empty (pairwise_singleton _ _) ?_
      rintro d ⟨⟩
      exact ⟨Nat.le_refl _, Nat.le_add_right _ _⟩

theorem World.Inv.alloc {w : World} (h : w.Inv) (hpos : 0 < size)
    (hsys : ∀ addr ∈ sys, w.SysOk (w.arena.chunkSize size w.arena.alignment) addr)
    (hwrap : w.arena.cur + alignUp w.arena.alignment size < 2 ^ 64)
    (hr : csilkArenaAlloc w.arena w.tls sys size = (a, t, p)) :
    World.Inv ⟨a, t, p.toList.map (⟨·, size, w.arena.alignment⟩) ++ w.blocks⟩ := by
  have hout := csilkArenaAlloc_outcome w.arena w.tls sys hpos
  rw [hr] at hout
  cases hout with
  | fast hsize hroom hptr => exact h.fast hsize hroom hptr hwrap
  | none => exact h
  | slow hslow =>
    cases hslow with
    | none => exact h
    | back htake => exact h.back (h.take htake hsys).1
    | chunk htake hsize _ _ =>
      obtain ⟨hnew, hc⟩ := h.take htake hsys
      exact h.slow hnew hc hsize

theorem World.Inv.step {w w' : World} (h : w.Inv) {e : Call} (hok : e.NoWrap w)
    (hs : w.step e = some w') : w'.Inv := by
  cases e with
  | alloc size sys =>
    rw [World.step] at hs
    split at hs
    · rename_i hg
      cases hs
      exact h.alloc hg.1 hg.2 hok rfl
    · cases hs
  | reset =>
    cases hs
    exact h.reset
  | setAlignment enabled | setMaxBytes maxBytes =>
    cases hs
    exact { h with }
  | others t =>
    rw [World.step] at hs
    split at hs
    · rename_i hg
      cases hs
      exact h.withTls hg.1 hg.2.1 hg.2.2
    · cases hs

theorem World.Inv.init {w : World} (h : arenaCalls.init w) : w.Inv := by
  obtain ⟨⟨n, hn⟩, ⟨hsound, hap, htier⟩, hb⟩ := h
  obtain ⟨arena, tls, blocks⟩ := w
  cases hn
  cases hb
  exact ⟨hsound, hap, htier, (by simp), fun _ => rfl, rfl, .empty .nil (by simp), (by simp)⟩

/-- While no allocation overflows the address space, the blocks lie in chunks, aligned and apart. -/
theorem arena_blocks_disjoint (w : World) (hr : arenaCalls.Reachable (fun w e => e.NoWrap w) w) :
    (∀ b ∈ w.blocks, (∃ c ∈ w.arena.chunks, c.data ≤ b.addr ∧ b.addr + b.size ≤ c.data + c.size) ∧
        b.addr % b.alignment = 0) ∧
      w.blocks.Pairwise fun b d => b.addr + b.size ≤ d.addr ∨ d.addr + d.size ≤ b.addr := by
  have h : w.Inv := hr.invariant (fun _ hi => .init hi) fun _ _ _ h hok hs => h.step hok hs
  constructor
  · intro b hb
    refine ⟨?_, h.aligned b hb⟩
    obtain ⟨e, he, hin⟩ := h.bump.inside (List.mem_map_of_mem hb)
    obtain ⟨c, hc, rfl⟩ := List.mem_map.1 he
    exact ⟨c, hc, hin⟩
  · exact pairwise_map.1 h.bump.blocks_apart

def freshWorld : World := ⟨csilkArenaNew 0, ⟨[], [], []⟩, []⟩

theorem freshWorld_init : arenaCalls.init freshWorld :=
  ⟨⟨0, rfl⟩, ⟨(by rintro _ ⟨⟩), .nil, by decide⟩, rfl⟩

theorem arena_blocks_disjoint_three : ∃ w, arenaCalls.Reachable (fun w e => e.NoWrap w) w ∧
      w.blocks = [⟨131136, 5000, 64⟩, ⟨65728, 10, 64⟩, ⟨65600, 100, 8⟩] ∧
      w.blocks.Pairwise fun b d => b.addr + b.size ≤ d.addr ∨ d.addr + d.size ≤ b.addr := by
  obtain ⟨w, hreach, hblocks⟩ := arenaCalls.run_map (p := fun w e => e.NoWrap w) freshWorld
    [.alloc 100 (some 65536), .setAlignment true, .alloc 10 none, .alloc 5000 (some 131072)]
    World.blocks [⟨131136, 5000, 64⟩, ⟨65728, 10, 64⟩, ⟨65600, 100, 8⟩] freshWorld_init
    (by decide +kernel)
  exact ⟨w, hreach, hblocks, (arena_blocks_disjoint w hreach).2⟩

/-- The end of a block wraps around: it runs out of its chunk, and the next one is the first again.
-/
theorem arena_blocks_wrap : ∃ w, arenaCalls.Reachable (fun _ _ => True) w ∧
      w.arena.chunks = [⟨65600, 4096⟩] ∧
      w.blocks = [⟨65600, 8, 8⟩, ⟨65608, 2 ^ 64 - 8, 8⟩, ⟨65600, 8, 8⟩] ∧
      (¬∀ b ∈ w.blocks, ∃ c ∈ w.arena.chunks, c.data ≤ b.addr ∧ b.addr + b.size ≤ c.data + c.size) ∧
      ¬w.blocks.Pairwise fun b d => b.addr + b.size ≤ d.addr ∨ d.addr + d.size ≤ b.addr := by
  obtain ⟨w, hw, hpair⟩ := arenaCalls.run_map (p := fun _ _ => True) freshWorld
    [.alloc 8 (some 65536), .alloc (2 ^ 64 - 8) none, .alloc 8 none] (fun w => (w.arena.chunks, w.blocks))
    ([⟨65600, 4096⟩], [⟨65600, 8, 8⟩, ⟨65608, 2 ^ 64 - 8, 8⟩, ⟨65600, 8, 8⟩]) freshWorld_init
    (by decide +kernel)
  obtain ⟨hchunks, hblocks⟩ := Prod.mk.inj hpair
  refine ⟨w, hw, hchunks, hblocks, ?_, ?_⟩
  · rw [hblocks, hchunks]
    decide
  · rw [hblocks]
    decide

end Csilk.Memory
