import Csilk.Http2.Table

namespace Csilk.Http2
open Csilk.Lib List Function

def Place.linked : Place → Bool
  | .bucket _ => true
  | _ => false

def Place.rehashed (idx : Nat) : Place → Place
  | .bucket _ => .bucket idx
  | p => p

theorem Place.dropped_ne {q : Place} (h : q.dropped = true) : q ≠ .hand ∧ q.linked = false := by
  cases q with
  | unborn | hand | bucket i => cases h
  | _ => exact ⟨by simp, rfl⟩

theorem Place.rehashed_same (p : Place) (idx : Nat) :
    (p.rehashed idx).linked = p.linked ∧ (p.rehashed idx = .hand → p = .hand) := by
  cases p with
  | hand => exact ⟨rfl, id⟩
  | _ => exact ⟨rfl, by rintro ⟨⟩⟩

theorem Place.Ok.rehashed {p : Place} {u f : Prop} (h : p.Ok idx u f held refs) (idx' : Nat) :
    (p.rehashed idx').Ok idx' u f held refs := by
  cases p with
  | bucket i => exact ⟨h.1, h.2.1, h.2.2.1, rfl⟩
  | _ => exact h

section Table

variable {s : State} {buckets : Nat → Option Nat} {chain : Option Nat → List Nat} {place : Nat → Place}
variable (h : Table s buckets chain place)
include h

theorem Table.bucket_of_linked (hl : (place c).linked = true) :
    place c = .bucket (streamHash (s.ctx c).streamId s.map.mask) := by
  have hok := h.ctxs c
  cases hp : place c with
  | bucket i =>
    rw [hp] at hok
    rw [hok.2.2.2]
  | _ =>
    rw [hp] at hl
    cases hl

theorem Table.bucket_lt (hsize : 0 < s.map.capacity ∧ s.map.mask = s.map.capacity - 1)
    (hp : place c = .bucket i) : i < s.map.capacity := by
  have hok := h.ctxs c
  have hle : streamHash (s.ctx c).streamId s.map.mask ≤ s.map.mask := Nat.and_le_right
  rw [hp] at hok
  rw [hok.2.2.2] at hle
  omega

theorem Table.old_lists : Lists (nextOf s.ctx) (Sum.elim buckets (firstOf (fun _ => none) s.map.freeList))
    (Sum.elim (fun i => chain (some i)) fun j => j.elim (chain none) fun _ => [])
    fun c => (place c).list.map fun j => j.elim (.inr none) .inl := by
  refine ⟨?_, ?_⟩
  · rintro (i | _ | j)
    · exact h.lists.threaded (some i)
    · exact h.lists.threaded none
    · rfl
  · rintro (i | _ | j) c
    · rw [Sum.elim_inl, h.mem_bucket]
      cases place c <;> simp [Place.list]
    · rw [Sum.elim_inr, Option.elim_none, h.mem_pool]
      cases place c <;> simp [Place.list]
    · cases place c <;> simp [Place.list]

theorem Table.rehash (hlt : ∀ c i, place c = .bucket i → i < n) (mask : Nat) :
    ∃ ctx' buckets' chain', rehash mask s.allocated buckets (range n) s.ctx (fun _ => none) = some (ctx', buckets') ∧
      Relinked s.ctx ctx' ∧ Table { s with ctx := ctx', map := { s.map with mask := mask } } buckets' chain'
        fun c => (place c).rehashed (streamHash (s.ctx c).streamId mask) := by
  obtain ⟨ctx', buckets', curr', oldc, chain', heq, hrel, hnone, hlists⟩ := rehash_eq mask h.old_lists
    nodup_range (fun i _ => (rfl : _ = buckets i)) (fun i _ => h.chain_length (some i))
  refine ⟨ctx', buckets', chain', heq, hrel, ⟨fun j => hlists.threaded (.inr j), fun j c => ?_⟩, ?_, h.poolMax, fun c => ?_⟩
  · refine (hlists.member (.inr j) c).trans ?_
    cases hp : place c with
    | bucket i =>
      have hi := hlt c i hp
      simp [Place.list, Place.rehashed, hi]
    | _ => simp [Place.list, Place.rehashed]
  · rw [hnone]
    exact h.poolCount
  · have hok := h.ctxs c
    obtain ⟨hid, href⟩ := hrel.same c
    unfold State.CtxOk at hok ⊢
    simp only [hid, href]
    exact hok.rehashed _

theorem Table.remap (array : Nat → Option Nat) (capacity count : Nat) (live : List (Nat × Nat)) :
    Table { s with
      map := { s.map with buckets := array, capacity := capacity, count := count }
      live := live } buckets chain place :=
  { h with }

omit h in
theorem Table.grow (h : Table s s.map.buckets chain place)
    (hsize : 0 < s.map.capacity ∧ s.map.mask = s.map.capacity - 1) :
    ∃ ctx' buckets' capacity mask s' chain' place', s' = { s with
        ctx := ctx'
        map := { s.map with buckets := buckets', capacity := capacity, mask := mask } } ∧
      (if s.map.capacity ≤ s.map.count then streamMapResize s else some s) = some s' ∧
      (0 < capacity ∧ mask = capacity - 1) ∧ Relinked s.ctx ctx' ∧ Table s' buckets' chain' place' ∧
      ∀ c, (place' c).linked = (place c).linked ∧ (place' c = .hand → place c = .hand) := by
  rw [streamMapResize]
  by_cases hsame : s.map.count < s.map.capacity ∨ s.map.capacity * 2 < s.map.capacity ∨ 65536 < s.map.capacity * 2
  · refine ⟨_, _, _, _, s, chain, place, rfl, ?_, hsize, fun _ => ⟨_, rfl⟩, h, fun _ => ⟨rfl, id⟩⟩
    rcases hsame with hlt | hcap
    · exact if_neg (Nat.not_le.2 hlt)
    · exact (ite_congr rfl (fun _ => if_pos hcap) fun _ => rfl).trans (ite_self _)
  · obtain ⟨ctx', buckets', chain', heq, hrel, htable⟩ :=
      h.rehash (fun c i hp => h.bucket_lt hsize hp) (s.map.capacity * 2 - 1)
    rw [not_or, Nat.not_lt] at hsame
    refine ⟨ctx', buckets', _, _, _, chain', _, rfl, ?_, ⟨Nat.mul_pos hsize.1 Nat.two_pos, rfl⟩, hrel,
      htable.remap .., fun c => (place c).rehashed_same _⟩
    rw [if_pos hsame.1, if_neg hsame.2, heq]
    rfl

theorem Table.release (hp : place c = .hand) (href : (s.ctx c).streamRef = s.held c + 1) :
    ∃ chain' q, q.dropped = true ∧ (∀ i, chain' (some i) = chain (some i)) ∧
      Table (csilkStreamUnref (closeCtx s c) c) buckets chain' (update place c q) := by
  have hok := h.ctxs c
  rw [hp] at hok
  have hwrite := h.write (c := c) (q := .hand) (k := s.held c) (x := { s.ctx c with
    nextStream := none, streamClosed := true, streamState := .closed }) (by rw [hp]) (.inl (by rw [hp]; rfl))
    ⟨hok.1, hok.2⟩
  rw [update_eq_self] at hwrite
  have hclose : Table (closeCtx s c) buckets chain (update place c .hand) := hwrite
  obtain ⟨chain', q, hq, hchain, hdrop⟩ := hclose.drop (update_self ..)
    (by simpa [closeCtx] using href)
  rw [update_idem] at hdrop
  exact ⟨chain', q, hq, hchain, hdrop⟩

end Table

structure Inv (s : State) (chain : Option Nat → List Nat) (place : Nat → Place) : Prop where
  table : Table s s.map.buckets chain place
  settled : ∀ c, place c ≠ .hand
  sized : s.map.ready = true → 0 < s.map.capacity ∧ s.map.mask = s.map.capacity - 1
  empty : s.map.ready = false → s.allocated = 0
  entries : ∀ id c, (id, c) ∈ s.live ↔ (place c).linked = true ∧ (s.ctx c).streamId = id
  keys : (s.live.map Prod.fst).Nodup
  count : s.map.count = s.live.length

theorem init_inv : Inv init (fun _ => []) (fun _ => .unborn) where
  table := init_table
  settled _ := by simp
  sized h := by cases h
  empty _ := rfl
  entries id c := by simp [init, Place.linked]
  keys := nodup_nil
  count := rfl

theorem csilkStreamUnref_eq (s : State) (c : Nat) :
    ∃ ctx' freed' freeList poolCount, csilkStreamUnref s c = { s with
        ctx := ctx'
        freed := freed'
        map := { s.map with freeList := freeList, poolCount := poolCount } } ∧
      ∀ b, (ctx' b).streamId = (s.ctx b).streamId := by
  simp only [csilkStreamUnref, streamDestroyPhysically]
  repeat' split
  all_goals
    refine ⟨_, _, _, _, rfl, fun b => ?_⟩
    by_cases hb : b = c <;> simp [hb]

section Inv

variable {s : State} {chain : Option Nat → List Nat} {place : Nat → Place}

section

variable (h : Inv s chain place)
include h

theorem Inv.mem_live :
    (k, c) ∈ s.live ↔ c ∈ chain (some (streamHash k s.map.mask)) ∧ (s.ctx c).streamId = k := by
  rw [h.entries, h.table.mem_bucket]
  refine and_congr_left ?_
  rintro rfl
  exact ⟨h.table.bucket_of_linked, fun hp => by rw [hp]; rfl⟩

theorem Inv.live_unique (hc : (k, c) ∈ s.live) (hc' : (k, c') ∈ s.live) : c = c' :=
  (Prod.mk.inj (inj_on_of_nodup_map h.keys hc hc' rfl)).2

theorem Inv.lookup_eq_some : s.live.lookup k = some c ↔ (k, c) ∈ s.live := by
  have hmem : ∀ {c}, s.live.lookup k = some c → (k, c) ∈ s.live := by
    intro c hlookup
    obtain ⟨l₁, l₂, hlive, -⟩ := lookup_eq_some_iff.1 hlookup
    rw [hlive]
    exact mem_append_right _ mem_cons_self
  refine ⟨hmem, fun hc => ?_⟩
  cases hlookup : s.live.lookup k with
  | none =>
    have hne := lookup_eq_none_iff.1 hlookup _ hc
    simp at hne
  | some c' => rw [h.live_unique hc (hmem hlookup)]

theorem Inv.find_eq (k : Nat) : findStream s.ctx k s.allocated (s.map.buckets (streamHash k s.map.mask)) =
      some (s.live.lookup k) := by
  refine (findStream_eq (h.table.lists.threaded (some (streamHash k s.map.mask)))
    (h.table.chain_length _)).trans (congrArg some ?_)
  ext c
  rw [h.lookup_eq_some]
  constructor
  · intro hfind
    exact h.mem_live.2 ⟨mem_of_find?_eq_some hfind, by simpa using find?_some hfind⟩
  · intro hlive
    obtain ⟨hc, hid⟩ := h.mem_live.1 hlive
    cases hfind : (chain (some (streamHash k s.map.mask))).find? fun c => decide ((s.ctx c).streamId = k) with
    | none => exact absurd (decide_eq_true hid) (find?_eq_none.1 hfind c hc)
    | some c' =>
      have hlive' := h.mem_live.2 ⟨mem_of_find?_eq_some hfind, by simpa using find?_some hfind⟩
      rw [h.live_unique hlive' hlive]

theorem Inv.live_eq_nil (hs : s.map.ready = false ∨ s.map.count = 0) : s.live = [] := by
  rcases hs with hs | hs
  · refine eq_nil_iff_forall_not_mem.2 fun ⟨k, c⟩ hmem => ?_
    have hl := ((h.entries k c).1 hmem).1
    rw [h.table.place_unborn (by rw [h.empty hs]; exact Nat.zero_le c)] at hl
    cases hl
  · exact length_eq_zero_iff.1 (h.count.symm.trans hs)

theorem Inv.getStream_eq (k : Nat) : csilkH2GetStream s k = some (s.live.lookup k) := by
  rw [csilkH2GetStream]
  by_cases hs : s.map.ready = false ∨ s.map.count = 0
  · rw [if_pos hs, h.live_eq_nil hs]
    rfl
  · rw [if_neg hs, h.find_eq]

theorem Inv.ensureInit :
    ∃ chain', Inv { s with map := streamMapEnsureInit s.map } chain' place ∧
      (streamMapEnsureInit s.map).ready = true := by
  rw [streamMapEnsureInit]
  by_cases hready : s.map.ready = true
  · simp only [hready, if_true]
    exact ⟨chain, h, trivial⟩
  · have hready : s.map.ready = false := by simpa using hready
    have hplace : ∀ c, place c = .unborn := fun c =>
      h.table.place_unborn (by rw [h.empty hready]; exact Nat.zero_le c)
    have hlive := h.live_eq_nil (.inl hready)
    simp only [hready, Bool.false_eq_true, if_false]
    refine ⟨fun _ => [], ⟨⟨⟨?_, ?_⟩, rfl, Nat.zero_le _, ?_⟩, h.settled, fun _ => ⟨Nat.succ_pos 15, rfl⟩, by simp,
      h.entries, h.keys, ?_⟩, trivial⟩
    · rintro (_ | i) <;> rfl
    · simp [hplace, Place.list]
    · intro c
      have hok := h.table.ctxs c
      rw [hplace c] at hok ⊢
      exact ⟨hok.1, hok.2⟩
    · simp [hlive]

theorem Inv.create (hready : s.map.ready = true) (hnew : s.live.lookup k = none) :
    ∃ s' c chain' place', createStream s k = some (s', c) ∧
      Inv { s' with live := (k, c) :: s.live } chain' place' := by
  obtain ⟨ctx₁, buckets₁, capacity, mask, s₁, chain₁, place₁, rfl, hs₁, hsize, hrel, h₁, hplace⟩ :=
    h.table.grow (h.sized hready)
  obtain ⟨c, allocated, freeList, poolCount, s₂, chain₂, rfl, hacq, hheld, hout, h₂⟩ := h₁.acquire k
  have hlink := h₂.link (c := c) (update_self ..) (show _ = streamHash k mask by simp only [update_self]; rfl)
    (by simp only [update_self]; exact congrArg (· + 1) hheld.symm)
  rw [createStream, hs₁, Option.map_some, hacq]
  refine ⟨_, c, _, _, rfl, hlink.remap .., ?_, fun _ => hsize, ?_, ?_, ?_, ?_⟩
  · rw [update_idem]
    refine (forall_update_iff place₁ fun _ p => p ≠ .hand).2 ⟨by simp, fun b _ hb => ?_⟩
    exact h.settled b ((hplace b).2 hb)
  · intro hr
    cases hready.symm.trans hr
  · intro k' b
    have hb := h.entries k' b
    rw [← (hplace b).1, ← (hrel.same b).1] at hb
    by_cases hbc : b = c
    · subst hbc
      have hnot : (k', b) ∉ s.live := by
        rw [hb]
        rintro ⟨hl, -⟩
        exact hout _ (h₁.bucket_of_linked hl)
      simp [linkCtx, hnot, streamCtxInit, Place.linked, eq_comm]
    · simp [linkCtx, hbc, hb]
  · refine nodup_cons.2 ⟨?_, h.keys⟩
    intro hmem
    obtain ⟨⟨k', b⟩, hlive, rfl⟩ := List.mem_map.1 hmem
    rw [h.lookup_eq_some.2 hlive] at hnew
    cases hnew
  · rw [length_cons, ← h.count]
    rfl

theorem Inv.getOrCreate (k : Nat) :
    ∃ s' c chain' place', csilkH2GetOrCreateStream s k = some (s', c) ∧
      (∀ c', s.live.lookup k = some c' → c = c') ∧
      Inv { s' with live := if (s.live.lookup k).isSome then s.live else (k, c) :: s.live } chain' place' := by
  obtain ⟨chain', hinit, hready⟩ := h.ensureInit
  rw [csilkH2GetOrCreateStream, hinit.find_eq]
  cases hlookup : s.live.lookup k with
  | none =>
    obtain ⟨s', c, chain'', place'', heq, hinv⟩ := hinit.create hready hlookup
    exact ⟨s', c, chain'', place'', heq, (by simp), hinv⟩
  | some c => exact ⟨_, c, chain', place, rfl, fun c' hc => Option.some.inj hc, hinit⟩

end

end Inv

theorem seekStream_eq {s : State} {k : Nat} (link : Link) (h : Threaded (nextOf s.ctx) (s.readLink link) l)
    (hfuel : l.length ≤ fuel) :
    (seekStream s k fuel link = some none ∧ ∀ c ∈ l, (s.ctx c).streamId ≠ k) ∨
      ∃ l₁ c l₂, l = l₁ ++ c :: l₂ ∧ (s.ctx c).streamId = k ∧
        seekStream s k fuel link = some (some (l₁.getLast?.elim link .next, c)) := by
  induction l generalizing link fuel with
  | nil =>
    refine .inl ⟨?_, (by simp)⟩
    cases fuel <;> rw [seekStream, threaded_nil.1 h]
  | cons c l ih =>
    cases fuel with
    | zero => cases hfuel
    | succ fuel =>
      have hseek : seekStream s k (fuel + 1) link =
          if (s.ctx c).streamId = k then some (some (link, c)) else seekStream s k fuel (.next c) := by
        rw [seekStream, h.1]
      by_cases hid : (s.ctx c).streamId = k
      · exact .inr ⟨[], c, l, rfl, hid, by rw [hseek, if_pos hid]; rfl⟩
      · rw [hseek, if_neg hid]
        rcases ih (.next c) h.2 (Nat.le_of_succ_le_succ hfuel) with ⟨hnone, hall⟩ | ⟨l₁, b, l₂, rfl, hb, hsome⟩
        · refine .inl ⟨hnone, fun b hb => ?_⟩
          rcases mem_cons.1 hb with rfl | hb
          · exact hid
          · exact hall b hb
        · refine .inr ⟨c :: l₁, b, l₂, rfl, hb, ?_⟩
          rw [hsome, getLast?_cons]
          cases l₁.getLast? <;> rfl

section Inv

variable {s : State} {chain : Option Nat → List Nat} {place : Nat → Place}

theorem Table.unlink (h : Table s s.map.buckets chain place) (hchain : chain (some idx) = l₁ ++ c :: l₂) :
    ∃ ctx' buckets', s.writeLink (s.ctx c).nextStream (l₁.getLast?.elim (.bucket idx) .next) =
        { s with ctx := ctx', map := { s.map with buckets := buckets' } } ∧ Relinked s.ctx ctx' ∧
      Table { s with ctx := ctx' } buckets' (update chain (some idx) (l₁ ++ l₂)) (update place c .hand) := by
  rcases eq_nil_or_concat' l₁ with rfl | ⟨l, b, rfl⟩
  · have hfirst := h.lists.threaded (some idx)
    rw [hchain] at hfirst
    obtain ⟨-, l, hl, hpop⟩ := h.popBucket hfirst.1
    cases hchain.symm.trans hl
    exact ⟨s.ctx, _, rfl, fun _ => ⟨_, rfl⟩, hpop⟩
  · have hlink : (l ++ [b]).getLast?.elim (Link.bucket idx) .next = .next b := by simp
    rw [hlink]
    exact ⟨_, s.map.buckets, rfl, relinked_update _ _ _, h.unlinkNext hchain⟩

theorem length_filter_ne {l : List (Nat × Nat)} (hkeys : (l.map Prod.fst).Nodup) (hmem : (k, c) ∈ l) :
    (l.filter fun p : Nat × Nat => p.1 ≠ k).length = l.length - 1 := by
  have hnodup : l.Nodup := hkeys.of_map _
  have hfilter : l.filter (fun p => p.1 ≠ k) = l.filter (fun p => p ≠ (k, c)) := by
    refine filter_congr fun p hp => ?_
    have hiff : p.1 ≠ k ↔ p ≠ (k, c) := by
      constructor
      · rintro hne rfl
        exact hne rfl
      · exact fun hne heq => hne (inj_on_of_nodup_map hkeys hp hmem heq)
    simp only [hiff]
  rw [hfilter, ← length_erase_of_mem hmem, hnodup.erase_eq_filter]
  congr 1
  refine filter_congr fun p _ => ?_
  by_cases hp : p = (k, c) <;> simp [hp]

theorem Inv.removed (h : Inv s chain place) (hp : place c = .bucket idx) (hid : (s.ctx c).streamId = k)
    (hrel : Relinked s.ctx ctx) (htable : Table { s with ctx := ctx } buckets chain' (update place c .hand)) :
    ∃ chain'' place'', Inv { csilkStreamUnref (closeCtx { s with
        ctx := ctx, map := { s.map with buckets := buckets, count := s.map.count - 1 } } c) c with
      live := s.live.filter (·.1 ≠ k) } chain'' place'' := by
  have hlive : (k, c) ∈ s.live := (h.entries k c).2 ⟨by rw [hp]; rfl, hid⟩
  have hok := h.table.ctxs c
  rw [hp] at hok
  have hremap := htable.remap buckets s.map.capacity (s.map.count - 1) s.live
  obtain ⟨chain₁, q, hq, -, hrelease⟩ := hremap.release (update_self ..) ((hrel.same c).2.trans hok.2.2.1)
  obtain ⟨ctx₁, freed, freeList, poolCount, heq, hids⟩ := csilkStreamUnref_eq (closeCtx
    { s with ctx := ctx, map := { s.map with buckets := buckets, count := s.map.count - 1 } } c) c
  rw [update_idem, heq] at hrelease
  rw [heq]
  have hsame : ∀ b, (ctx₁ b).streamId = (s.ctx b).streamId := by
    intro b
    rw [hids, ← (hrel.same b).1]
    by_cases hb : b = c <;> simp [closeCtx, hb]
  refine ⟨chain₁, update place c q, { hrelease with }, ?_, h.sized, h.empty, ?_, ?_, ?_⟩
  · exact (forall_update_iff place fun _ p => p ≠ .hand).2 ⟨(Place.dropped_ne hq).1, fun b _ => h.settled b⟩
  · intro k' b
    simp only [mem_filter, hsame, decide_eq_true_eq]
    by_cases hb : b = c
    · subst hb
      rw [update_self, (Place.dropped_ne hq).2]
      refine iff_of_false (fun hmem => hmem.2 ?_) (by simp)
      exact ((h.entries k' b).1 hmem.1).2.symm.trans hid
    · rw [update_of_ne hb, ← h.entries]
      refine and_iff_left_of_imp ?_
      rintro hmem rfl
      exact hb (h.live_unique hmem hlive)
  · exact (filter_sublist.map _).nodup h.keys
  · rw [length_filter_ne h.keys hlive, ← h.count]
    rfl

theorem Inv.remove (h : Inv s chain place) (k : Nat) :
    ∃ s' r chain' place', csilkH2RemoveStream s k = some (s', r) ∧
      (r = 0 ↔ (s.live.lookup k).isSome) ∧
      Inv { s' with live := s.live.filter (·.1 ≠ k) } chain' place' := by
  have hkeep : (∀ c, (k, c) ∉ s.live) → s.live.filter (·.1 ≠ k) = s.live ∧ s.live.lookup k = none := by
    intro hnone
    constructor
    · refine filter_eq_self.2 fun p hp => ?_
      simp only [decide_eq_true_eq]
      rintro rfl
      exact hnone p.2 hp
    · exact Option.eq_none_iff_forall_ne_some.2 fun c hc => hnone c (h.lookup_eq_some.1 hc)
  rw [csilkH2RemoveStream]
  by_cases hs : s.map.ready = false ∨ s.map.count = 0
  · obtain ⟨hfilter, hlookup⟩ := hkeep fun c hc => by rw [h.live_eq_nil hs] at hc; cases hc
    refine ⟨s, -1, chain, place, if_pos hs, ?_, ?_⟩
    · simp [hlookup]
    · rw [hfilter]
      exact h
  · rw [if_neg hs]
    rcases seekStream_eq (k := k) (.bucket (streamHash k s.map.mask)) (h.table.lists.threaded (some _))
      (h.table.chain_length _) with ⟨hseek, hall⟩ | ⟨l₁, c, l₂, hchain, hid, hseek⟩
    · obtain ⟨hfilter, hlookup⟩ := hkeep fun c hc =>
        hall c (h.mem_live.1 hc).1 (h.mem_live.1 hc).2
      refine ⟨s, -1, chain, place, by rw [hseek]; rfl, ?_, ?_⟩
      · simp [hlookup]
      · rw [hfilter]
        exact h
    · have hmem : c ∈ chain (some (streamHash k s.map.mask)) := by rw [hchain]; simp
      obtain ⟨ctx, buckets, hwrite, hrel, htable⟩ := h.table.unlink hchain
      obtain ⟨chain', place', hinv⟩ := h.removed (h.table.mem_bucket.1 hmem) hid hrel htable
      have hlive := h.lookup_eq_some.2 (h.mem_live.2 ⟨hmem, hid⟩)
      refine ⟨_, 0, chain', place', ?_, ?_, hinv⟩
      · rw [hseek]
        simp only [Option.map_some, Option.elim_some, hwrite]
        rfl
      · simp [hlive]

end Inv

end Csilk.Http2
