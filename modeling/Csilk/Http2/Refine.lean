import Csilk.Http2.Streams

namespace Csilk.Http2
open Csilk.Lib List Function

section Table

variable {s : State} {buckets : Nat → Option Nat} {chain : Option Nat → List Nat} {place : Nat → Place}

/-- The table is that of an array in which the bucket points to the next context. -/
theorem Table.releaseChain (h : Table s (update buckets i curr) chain place) (hsettled : ∀ c, place c ≠ .hand)
    (hl : chain (some i) = l) (hfuel : l.length ≤ fuel) :
    ∃ s' chain' place', releaseChain fuel s curr = some s' ∧ Table s' (update buckets i none) chain' place' ∧
      (∀ c, place' c ≠ .hand) ∧ (∀ c j, place' c = .bucket j → place c = .bucket j ∧ j ≠ i) ∧
      s'.map.buckets = s.map.buckets ∧ s'.map.ready = s.map.ready := by
  induction l generalizing s curr chain place fuel with
  | nil =>
    have hthreaded := h.lists.threaded (some i)
    rw [hl] at hthreaded
    simp only [threaded_nil, firstOf, update_self] at hthreaded
    subst hthreaded
    refine ⟨s, chain, place, by cases fuel <;> rfl, h, hsettled, fun c j hp => ⟨hp, ?_⟩, rfl, rfl⟩
    rintro rfl
    have hmem := h.mem_bucket.2 hp
    rw [hl] at hmem
    cases hmem
  | cons c l ih =>
    have hthreaded := h.lists.threaded (some i)
    rw [hl] at hthreaded
    have hcurr : curr = some c := by simpa [firstOf] using hthreaded.1
    subst hcurr
    cases fuel with
    | zero => cases hfuel
    | succ fuel =>
      obtain ⟨hp, l', hcons, hpop⟩ := h.popBucket (update_self ..)
      cases hl.symm.trans hcons
      have hok := h.ctxs c
      rw [hp] at hok
      rw [update_idem] at hpop
      obtain ⟨chain₁, q, hq, hchain, h₁⟩ := hpop.release (update_self ..) hok.2.2.1
      rw [update_idem] at h₁
      obtain ⟨ctx', freed', freeList, poolCount, heq, -⟩ := csilkStreamUnref_eq (closeCtx s c) c
      have hsettled₁ : ∀ b, update place c q b ≠ .hand :=
        (forall_update_iff place fun _ p => p ≠ .hand).2 ⟨(Place.dropped_ne hq).1, fun b _ => hsettled b⟩
      obtain ⟨s', chain', place', hrun, htable, hsettled', hbuckets, harray, hready⟩ := ih h₁ hsettled₁
        ((hchain i).trans (update_self ..)) (Nat.le_of_succ_le_succ hfuel)
      rw [heq] at harray hready
      refine ⟨s', chain', place', hrun, htable, hsettled', fun b j hb => ?_, harray, hready⟩
      obtain ⟨hb, hj⟩ := hbuckets b j hb
      rcases update_cases (· = Place.bucket j) hb with ⟨-, hb⟩ | ⟨-, hb⟩
      · cases hb ▸ (Place.dropped_ne hq).2
      · exact ⟨hb, hj⟩

theorem Table.releaseBuckets (h : Table s s.map.buckets chain place) (hsettled : ∀ c, place c ≠ .hand)
    (is : List Nat) :
    ∃ s' chain' place', releaseBuckets is s = some s' ∧ Table s' s'.map.buckets chain' place' ∧
      (∀ c, place' c ≠ .hand) ∧ (∀ c j, place' c = .bucket j → place c = .bucket j ∧ j ∉ is) ∧
      s'.map.ready = s.map.ready := by
  induction is generalizing s chain place with
  | nil => exact ⟨s, chain, place, rfl, h, hsettled, fun c j hp => ⟨hp, not_mem_nil⟩, rfl⟩
  | cons i is ih =>
    have h₀ := h
    rw [← update_eq_self i s.map.buckets] at h₀
    obtain ⟨s₁, chain₁, place₁, heq₁, h₁, hsettled₁, hbuckets₁, harray, hready₁⟩ :=
      h₀.releaseChain hsettled rfl (h.chain_length (some i))
    rw [← harray] at h₁
    obtain ⟨s', chain', place', heq, h', hsettled', hbuckets, hready⟩ :=
      ih (h₁.remap (update s₁.map.buckets i none) s₁.map.capacity s₁.map.count s₁.live) hsettled₁
    refine ⟨s', chain', place', ?_, h', hsettled', fun c j hp => ?_, hready.trans hready₁⟩
    · rw [Http2.releaseBuckets, heq₁]
      exact heq
    · obtain ⟨hp, hj⟩ := hbuckets c j hp
      obtain ⟨hp, hi⟩ := hbuckets₁ c j hp
      exact ⟨hp, by simp [hi, hj]⟩

theorem Table.freePool
    (h : Table { s with map := { s.map with freeList := curr, poolCount := n } } buckets chain place)
    (hsettled : ∀ c, place c ≠ .hand) (hl : chain none = l) (hfuel : l.length ≤ fuel) :
    ∃ s' chain' place', freePool fuel s curr = some s' ∧
      Table { s' with map := { s.map with freeList := none, poolCount := 0 } } buckets chain' place' ∧
      (∀ c, place' c ≠ .hand) ∧ (∀ c j, place' c = .bucket j → place c = .bucket j) ∧ s'.map = s.map := by
  induction l generalizing s curr n chain place fuel with
  | nil =>
    have hthreaded := h.lists.threaded none
    have hcount := h.poolCount
    rw [hl] at hthreaded hcount
    cases threaded_nil.1 hthreaded
    have hzero : n = 0 := hcount.symm
    subst hzero
    exact ⟨s, chain, place, by cases fuel <;> rfl, h, hsettled, fun c j hp => hp, rfl⟩
  | cons c l ih =>
    have hthreaded := h.lists.threaded none
    rw [hl] at hthreaded
    obtain rfl : curr = some c := hthreaded.1
    cases fuel with
    | zero => cases hfuel
    | succ fuel =>
      obtain ⟨hp, l', hcons, hpop⟩ := h.popPool rfl
      cases hl.symm.trans hcons
      have hok := h.ctxs c
      rw [hp] at hok
      obtain ⟨hu, -, hheld, href⟩ := hok
      have hput := hpop.put (c := c) (q := .freed) (x := s.ctx c) (k := s.held c) (f := c :: s.freed)
        (a := s.allocated) (by rw [update_self]; rfl) (.inr rfl) ⟨hu, by simp, by simpa using hheld, by simpa using href⟩
        (fun b hb => by simp [hb]) fun _ _ => Iff.rfl
      simp only [update_eq_self, update_idem] at hput
      have hsettled₁ : ∀ b, update place c .freed b ≠ .hand :=
        (forall_update_iff place fun _ p => p ≠ .hand).2 ⟨by simp, fun b _ => hsettled b⟩
      obtain ⟨s', chain', place', hrun, htable, hsettled', hbuckets, hm⟩ := ih
        (s := { s with freed := c :: s.freed }) hput hsettled₁ (update_self ..) (Nat.le_of_succ_le_succ hfuel)
      refine ⟨s', chain', place', hrun, htable, hsettled', fun b j hb => ?_, hm⟩
      rcases update_cases (· = Place.bucket j) (hbuckets b j hb) with ⟨-, hb⟩ | ⟨-, hb⟩
      · cases hb
      · exact hb

theorem Table.emptied (h : Table s buckets chain place) (hnone : ∀ c i, place c ≠ .bucket i)
    (capacity mask count : Nat) (live : List (Nat × Nat)) :
    Table { s with
      map := { s.map with buckets := fun _ => none, capacity := capacity, mask := mask, count := count }
      live := live } (fun _ => none) chain place := by
  refine ⟨⟨?_, h.lists.member⟩, h.poolCount, h.poolMax, fun c => ?_⟩
  · rintro (_ | i)
    · exact h.lists.threaded none
    · have hnil : chain (some i) = [] :=
        eq_nil_iff_forall_not_mem.2 fun c hc => hnone c i (h.mem_bucket.1 hc)
      rw [hnil]
      rfl
  · have hok := (h.ctxs c).rehashed (streamHash (s.ctx c).streamId mask)
    cases hp : place c with
    | bucket i => exact absurd hp (hnone c i)
    | _ =>
      rw [hp] at hok
      exact hok

theorem Inv.free (h : Inv s chain place) :
    ∃ s' chain' place', csilkH2FreeStreams s = some s' ∧ Inv { s' with live := [] } chain' place' := by
  rw [csilkH2FreeStreams]
  by_cases hready : s.map.ready = false
  · have hlive := h.live_eq_nil (.inl hready)
    refine ⟨s, chain, place, if_pos hready, ?_⟩
    rw [← hlive]
    exact h
  · have hready' : s.map.ready = true := by simpa using hready
    obtain ⟨s₁, chain₁, place₁, heq₁, h₁, hsettled₁, hbuckets₁, hready₁⟩ :=
      h.table.releaseBuckets h.settled (range s.map.capacity)
    obtain ⟨s₂, chain₂, place₂, heq₂, h₂, hsettled₂, hbuckets₂, hm⟩ :=
      Table.freePool (s := { s₁ with map := { s₁.map with count := 0, freeList := none, poolCount := 0 } })
        (h₁.remap s₁.map.buckets s₁.map.capacity 0 s₁.live) hsettled₁ rfl (h₁.chain_length none)
    have hnone : ∀ c i, place₂ c ≠ .bucket i := by
      intro c i hp
      obtain ⟨hp, hi⟩ := hbuckets₁ c i (hbuckets₂ c i hp)
      exact hi (mem_range.2 (h.table.bucket_lt (h.sized hready') hp))
    rw [if_neg hready, heq₁, Option.bind_some, heq₂]
    obtain ⟨ctx, allocated, freed, map, held, live⟩ := s₂
    cases hm
    refine ⟨_, chain₂, place₂, rfl, h₂.emptied hnone .., hsettled₂, fun _ => ⟨Nat.succ_pos 15, rfl⟩, ?_, ?_,
      nodup_nil, rfl⟩
    · intro hr
      cases (hready₁.trans hready').symm.trans hr
    · intro k c
      refine iff_of_false not_mem_nil fun hl => ?_
      exact hnone c _ (h₂.bucket_of_linked hl.1)

end Table

inductive Home where
  | bucket (i : Nat)
  | pool
  | detached
  | freed
deriving DecidableEq

def Home.place : Home → Place
  | .bucket i => .bucket i
  | .pool => .pool
  | .detached => .detached
  | .freed => .freed

def State.InChain (s : State) (c i : Nat) : Prop :=
  i < s.map.capacity ∧ ∃ l, Threaded (nextOf s.ctx) (s.map.buckets i) l ∧ c ∈ l

def State.InPool (s : State) (c : Nat) : Prop :=
  ∃ l, Threaded (nextOf s.ctx) s.map.freeList l ∧ c ∈ l

def State.At (s : State) (c : Nat) : Home → Prop
  | .bucket i => s.InChain c i
  | .pool => s.InPool c
  | .detached => (∀ i, ¬s.InChain c i) ∧ ¬s.InPool c ∧ c ∉ s.freed ∧ 0 < (s.ctx c).streamRef
  | .freed => c ∈ s.freed

section Inv

variable {s : State} {chain : Option Nat → List Nat} {place : Nat → Place} (h : Inv s chain place)
include h

theorem Inv.inChain : s.InChain c i ↔ place c = .bucket i := by
  have hthreaded := h.table.lists.threaded (some i)
  rw [← h.table.mem_bucket]
  constructor
  · rintro ⟨-, l, hl, hc⟩
    rw [hl.unique hthreaded] at hc
    exact hc
  · intro hc
    refine ⟨?_, chain (some i), hthreaded, hc⟩
    have hp := h.table.mem_bucket.1 hc
    cases hr : s.map.ready with
    | true => exact h.table.bucket_lt (h.sized hr) hp
    | false =>
      have hlt := h.table.allocated_of_bucket hp
      rw [h.empty hr] at hlt
      cases hlt

theorem Inv.inPool : s.InPool c ↔ place c = .pool := by
  have hthreaded := h.table.lists.threaded none
  rw [← h.table.mem_pool]
  constructor
  · rintro ⟨l, hl, hc⟩
    rw [hl.unique hthreaded] at hc
    exact hc
  · exact fun hc => ⟨chain none, hthreaded, hc⟩

theorem Inv.mem_freed : c ∈ s.freed ↔ place c = .freed := by
  have hok := h.table.ctxs c
  cases hp : place c with
  | hand => exact absurd hp (h.settled c)
  | freed =>
    rw [hp] at hok
    exact iff_of_true hok.2.1 rfl
  | _ =>
    rw [hp] at hok
    exact iff_of_false hok.2.1 (by simp)

theorem Inv.at_iff (hc : c < s.allocated) (p : Home) : s.At c p ↔ place c = p.place := by
  have hok := h.table.ctxs c
  cases p with
  | bucket i => exact h.inChain
  | pool => exact h.inPool
  | freed => exact h.mem_freed
  | detached =>
    simp only [State.At, h.inChain, h.inPool, h.mem_freed]
    cases hp : place c with
    | unborn =>
      rw [hp] at hok
      exact absurd hc (Nat.not_lt.2 hok.1)
    | hand => exact absurd hp (h.settled c)
    | detached =>
      rw [hp] at hok
      simpa [Home.place, hok.2.2.1] using hok.2.2.2
    | _ => simp [Home.place]

theorem Inv.home (hc : c < s.allocated) : ∃! p, s.At c p := by
  have hok := h.table.ctxs c
  simp only [h.at_iff hc]
  cases hp : place c with
  | unborn =>
    rw [hp] at hok
    exact absurd hc (Nat.not_lt.2 hok.1)
  | hand => exact absurd hp (h.settled c)
  | bucket i => exact ⟨.bucket i, rfl, by rintro (j | _ | _ | _) ⟨⟩; rfl⟩
  | pool => exact ⟨.pool, rfl, by rintro (j | _ | _ | _) ⟨⟩; rfl⟩
  | detached => exact ⟨.detached, rfl, by rintro (j | _ | _ | _) ⟨⟩; rfl⟩
  | freed => exact ⟨.freed, rfl, by rintro (j | _ | _ | _) ⟨⟩; rfl⟩

theorem Inv.step (hs : step s a = some s') : ∃ chain' place', Inv s' chain' place' := by
  cases a with
  | getOrCreateStream k =>
    obtain ⟨t, c, chain', place', heq, -, hinv⟩ := h.getOrCreate k
    rw [Http2.step, heq] at hs
    cases hs
    exact ⟨chain', place', hinv⟩
  | removeStream k =>
    obtain ⟨t, r, chain', place', heq, -, hinv⟩ := h.remove k
    rw [Http2.step, heq] at hs
    cases hs
    exact ⟨chain', place', hinv⟩
  | freeStreams =>
    obtain ⟨t, chain', place', heq, hinv⟩ := h.free
    rw [Http2.step, heq] at hs
    cases hs
    exact ⟨chain', place', hinv⟩
  | ref c =>
    obtain ⟨hc, rfl⟩ := of_enabled hs
    refine ⟨chain, place, h.table.ref hc.1 hc.2, h.settled, h.sized, h.empty, fun k b => ?_, h.keys, h.count⟩
    refine (h.entries k b).trans ?_
    by_cases hb : b = c <;> simp [csilkStreamRef, hb]
  | unref c =>
    obtain ⟨hheld, rfl⟩ := of_enabled hs
    obtain ⟨chain', q, hq, -, htable⟩ := h.table.unref hheld (h.settled c)
    obtain ⟨ctx', freed', freeList, poolCount, heq, hid⟩ := csilkStreamUnref_eq s c
    rw [heq] at htable ⊢
    have hsame : q ≠ .hand ∧ q.linked = (place c).linked := by
      rcases hq with rfl | ⟨hp, hq⟩
      · exact ⟨h.settled c, rfl⟩
      · rw [hp]
        exact Place.dropped_ne hq
    refine ⟨chain', update place c q, htable, ?_, h.sized, h.empty, fun k b => ?_, h.keys, h.count⟩
    · exact (forall_update_iff place fun _ p => p ≠ .hand).2 ⟨hsame.1, fun b _ => h.settled b⟩
    · rw [update_same Place.linked hsame.2]
      simp only [hid]
      exact h.entries k b

end Inv

/-- A lookup returns the context created for the id since its last removal, and every context is in
one place. -/
theorem h2Streams_refine (h : streams.Reachable (fun _ _ => True) s) :
    (∀ id, csilkH2GetStream s id = some (s.live.lookup id)) ∧
      (s.live.map Prod.fst).Nodup ∧ s.map.count = s.live.length ∧
      (∀ id c, (id, c) ∈ s.live → ∀ i, s.InChain c i ↔ i = streamHash id s.map.mask) ∧
      (∃ pool, Threaded (nextOf s.ctx) s.map.freeList pool ∧ pool.length = s.map.poolCount) ∧
      s.map.poolCount ≤ s.map.poolMax ∧
      (∀ c < s.allocated, ∃! p, s.At c p) ∧
      (∀ id, ∃ s' c, csilkH2GetOrCreateStream s id = some (s', c) ∧
        ∀ c', s.live.lookup id = some c' → c = c') ∧
      (∀ id, ∃ s' r, csilkH2RemoveStream s id = some (s', r) ∧ (r = 0 ↔ (s.live.lookup id).isSome)) ∧
      (csilkH2FreeStreams s).isSome := by
  obtain ⟨chain, place, hinv⟩ : ∃ chain place, Inv s chain place := by
    refine h.invariant (P := fun s => ∃ chain place, Inv s chain place) ?_ ?_
    · rintro s rfl
      exact ⟨_, _, init_inv⟩
    · rintro s a s' ⟨_, _, hinv⟩ - hs
      exact hinv.step hs
  refine ⟨hinv.getStream_eq, hinv.keys, hinv.count, ?_, ⟨_, hinv.table.lists.threaded none, hinv.table.poolCount⟩,
    hinv.table.poolMax, fun c hc => hinv.home hc, fun k => ?_, fun k => ?_, ?_⟩
  · intro k c hc i
    rw [hinv.inChain, hinv.table.mem_bucket.1 (hinv.mem_live.1 hc).1, Place.bucket.injEq]
    exact eq_comm
  · obtain ⟨s', c, _, _, heq, hsame, -⟩ := hinv.getOrCreate k
    exact ⟨s', c, heq, hsame⟩
  · obtain ⟨s', r, _, _, heq, hfound, -⟩ := hinv.remove k
    exact ⟨s', r, heq, hfound⟩
  · obtain ⟨s', _, _, heq, -⟩ := hinv.free
    rw [heq]
    rfl

theorem h2Streams_refine_detached : ∃ s, streams.Reachable (fun _ _ => True) s ∧ s.live = [(3, 1)] ∧
      csilkH2GetStream s 3 = some (some 1) ∧ ∃! p, s.At 0 p := by
  have hrun := streams.run (p := fun _ _ => True) init
    [.getOrCreateStream 1, .getOrCreateStream 3, .ref 0, .removeStream 1] rfl rfl
  obtain ⟨hget, -, -, -, -, -, hhome, -⟩ := h2Streams_refine hrun
  exact ⟨_, hrun, rfl, hget 3, hhome 0 (by decide)⟩

end Csilk.Http2
