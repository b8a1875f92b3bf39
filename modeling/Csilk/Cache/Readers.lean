import Csilk.Cache.Reclaim

namespace Csilk.Cache
open Csilk.Lib Function
open List hiding head tail iter after

variable {s s' : State}

theorem tagged_extend (he : Heap.Extends heap heap') (hp : heap.Valid p) (epoch : Nat) :
    tagged heap' p epoch = tagged heap p epoch := by
  rw [tagged, he.addrs hp, tagged]

theorem Pc.retiring_extend {pc : Pc} (h : PcOk c heap pc) (he : heap.Extends heap') :
    pc.retiring heap' = pc.retiring heap := by
  have hsome : ∀ n, n < heap.size → heap.Valid (some n) := by
    rintro n hn i ⟨⟩
    exact hn
  cases pc with
  | exitDepth after | exitActive after =>
    cases after with
    | retire n chain epoch =>
      cases chain with
      | false => rfl
      | true => exact tagged_extend he (hsome n h) epoch
    | _ => rfl
  | retireNext n epoch => exact tagged_extend he (hsome n h) epoch
  | retireLoad n epoch rest | retireCas n epoch rest head =>
    exact congrArg _ (tagged_extend he h.2 epoch)
  | retireCount epoch rest => exact tagged_extend he h epoch
  | reclaim epoch rest pc => exact congrArg (· ++ pc.recs) (tagged_extend he h epoch)
  | _ => rfl

theorem CasOk.unlinked (h : CasOk c heap w head new tail retire) :
    ∃ old, heap.addrs head = old ++ heap.addrs tail ∧ (retire = none → old = []) ∧
      (afterCas w retire).retiring heap = old.map (·, w.epoch) := by
  have hunlink := h.unlink
  rcases retire with _ | ⟨n, chain⟩
  · exact ⟨[], hunlink.symm, fun _ => rfl, rfl⟩
  · cases chain with
    | false => exact ⟨[n], hunlink, (by simp), rfl⟩
    | true =>
      obtain ⟨rfl, rfl⟩ := hunlink
      exact ⟨heap.addrs (some n), by rw [Heap.addrs_none, append_nil], (by simp), rfl⟩

theorem linked_publish (h : Wf c s.view) (hhead : s.heap.addrs (s.buckets b) = old ++ s.heap.addrs tail)
    (hext : s.heap.Extends heap') (hnew : heap'.addrs p = new ++ s.heap.addrs tail) :
    {n | ∃ b', n ∈ heap'.addrs (update s.buckets b p b')} =
      {n | ∃ b', n ∈ s.heap.addrs (s.buckets b')} \ {n | n ∈ old} ∪ {n | n ∈ new} := by
  have hnodup := s.heap.addrs_nodup (h.bucket b).valid
  rw [hhead] at hnodup
  ext n
  refine ⟨?_, ?_⟩
  · rintro ⟨b', hn⟩
    by_cases hb : b' = b
    · subst hb
      rw [update_self, hnew] at hn
      rcases mem_append.1 hn with hn | hn
      · exact .inr hn
      · refine .inl ⟨⟨b', ?_⟩, fun hold => (nodup_append.1 hnodup).2.2 n hold n hn rfl⟩
        rw [hhead]
        exact mem_append_right _ hn
    · rw [update_of_ne hb, hext.addrs (h.bucket b').valid] at hn
      refine .inl ⟨⟨b', hn⟩, fun hold => hb ?_⟩
      apply (h.bucket b').bucket_eq (h.bucket b) hn
      rw [hhead]
      exact mem_append_left _ hold
  · rintro (⟨⟨b', hn⟩, hold⟩ | hn)
    · refine ⟨b', ?_⟩
      by_cases hb : b' = b
      · subst hb
        rw [hhead] at hn
        rw [update_self, hnew]
        exact mem_append_right _ ((mem_append.1 hn).resolve_left hold)
      · rwa [update_of_ne hb, hext.addrs (h.bucket b').valid]
    · refine ⟨b, ?_⟩
      rw [update_self, hnew]
      exact mem_append_left _ hn

theorem EpochsOk.publish (h : Inv c s) (hcas : CasOk c s.heap w head new tail retire)
    (hhead : s.buckets (c.bucketOf w.key) = head)
    (htimely : retire ≠ none → s.globalEpoch ≤ w.epoch + 1 ∧ s.NoScan) :
    EpochsOk { s.store with
      heap := (s.heap.allocAll new tail).1
      buckets := update s.buckets (c.bucketOf w.key) (s.heap.allocAll new tail).2 }
      (update s.threads t { s.threads t with pc := .exitDepth (afterCas w retire) }) := by
  have hspec := s.heap.allocAll_spec new hcas.tail_valid
  generalize s.heap.allocAll new tail = pub at hspec
  obtain ⟨ids, hids, hfresh⟩ := hspec.addrs
  obtain ⟨old, hold, hnone, hafter⟩ := hcas.unlinked
  have hext := hspec.extend
  have hne : {n | n ∈ old}.Nonempty → retire ≠ none := by
    rintro ⟨n, hn⟩ hr
    rw [hnone hr] at hn
    cases hn
  have holdlt : ∀ n ∈ old, n < s.heap.size := by
    intro n hn
    apply s.heap.addrs_lt_size hcas.chain.valid
    rw [hold]
    exact mem_append_left _ hn
  -- what is retired afterwards was retired before, or is one of the unlinked nodes
  have hsub : ∀ x ∈ (Store.epochs { s.store with
        heap := pub.1, buckets := update s.buckets (c.bucketOf w.key) pub.2 }
        (update s.threads t { s.threads t with pc := .exitDepth (afterCas w retire) })).retired,
      x ∈ (s.store.epochs s.threads).retired ∨ x.1 ∈ old ∧ x.2 = w.epoch := by
    rintro x (hx | ⟨t', hx⟩)
    · exact .inl (.inl hx)
    · rcases update_cases (fun u : Thread => x ∈ u.pc.retiring pub.1) hx with ⟨-, hx⟩ | ⟨-, hx⟩
      · have hok : PcOk c s.heap (.exitDepth (afterCas w retire)) := by
          cases retire with
          | none => trivial
          | some r => exact hcas.retire_lt
        rw [Pc.retiring_extend hok hext, Pc.retiring, hafter] at hx
        obtain ⟨n, hn, rfl⟩ := mem_map.1 hx
        exact .inr ⟨hn, rfl⟩
      · rw [Pc.retiring_extend (h.wf.pc t') hext] at hx
        exact .inl (.inr ⟨t', hx⟩)
  have hpub := h.epochs.safe.publish {n | n ∈ old} {n | n ∈ ids} (e := w.epoch)
    (fun hn => (htimely (hne hn)).1) (fun hn => (htimely (hne hn)).2) ?_
  · refine ⟨hpub.below ⟨le_rfl, fun _ => rfl, ?_, ?_, ?_, Set.Subset.refl _, ?_, ?_⟩, ?_, ?_⟩
    · rintro i n ⟨j, hj, hn⟩
      have hj' : j ∈ (s.threads i).heads := by
        rcases update_cases (fun u : Thread => j ∈ u.heads) hj with ⟨hi, hj⟩ | ⟨-, hj⟩
        · exact hi ▸ hj
        · exact hj
      rw [hext.addrs fun k hk => by cases hk; exact h.wf.heads i j hj'] at hn
      exact ⟨j, hj', hn⟩
    · rw [← hhead] at hold
      exact linked_publish h.wf hold hext hids
    · exact fun n e hx => ⟨e, Nat.le_refl e, hsub _ hx⟩
    · exact Epochs.below_update (fun u : Thread => u.pc.scanned) _ (by rintro _ _ ⟨⟩) fun _ _ => rfl
    · exact fun k L lim hk => ⟨sweep_subset_retired _ _ hk, Epochs.below_update
        (fun u : Thread => u.pc.sweeping) _ (by rintro _ _ ⟨⟩) (fun _ _ => rfl) k L lim hk⟩
    · intro x hx
      refine lt_of_lt_of_le ?_ hext.size
      rcases hsub x hx with hx | ⟨hx, -⟩
      · exact h.epochs.known x hx
      · exact holdlt x.1 hx
    · exact fun n hn => lt_of_lt_of_le (h.epochs.known_freed n hn) hext.size
  · intro n hn
    have hge : s.heap.size ≤ n := hfresh n hn
    refine ⟨fun hf => ?_, fun ho => ?_, fun e he => ?_⟩
    · exact absurd (h.epochs.known_freed n hf) (not_lt.2 hge)
    · exact absurd (holdlt n ho) (not_lt.2 hge)
    · exact absurd (h.epochs.known _ he) (not_lt.2 hge)

def After.next : After → Pc
  | .ret _ | .released => .idle
  | .retry w => .enterDepth (.write w)
  | .retire n true epoch => .retireNext n epoch
  | .retire n false epoch => .retireLoad n epoch none

theorem afterExit_store (s : State) (t : Nat) (after : After) :
    (afterExit s t after).store = s.store ∧
      (afterExit s t after).threads = update s.threads t { s.threads t with pc := after.next } := by
  unfold afterExit
  split <;> exact ⟨rfl, rfl⟩

theorem After.next_retiring (after : After) (heap : Heap Node) :
    ∀ x ∈ after.next.retiring heap, x ∈ after.retiring heap := by
  intro x hx
  unfold After.next at hx
  split at hx
  · cases hx
  · cases hx
  · cases hx
  · exact hx
  · simpa [Pc.retiring, After.retiring, tagged] using hx

theorem After.next_spec (after : After) : after.next.plain = true ∧ after.next.inside = false ∧
    after.next.head = none ∧ after.next.scanned = none ∧ after.next.sweeping = none := by
  unfold After.next
  split <;> exact ⟨rfl, rfl, rfl, rfl, rfl⟩

section

variable {s : Store} {threads : Nat → Thread}

theorem EpochsOk.announce (h : EpochsOk s threads) (t : Nat) (he : e ≤ s.globalEpoch) :
    EpochsOk { s with slots := update s.slots t { s.slots t with active := e } }
      (update threads t { threads t with heads := [] }) := by
  have hpc : ∀ i, (update threads t { threads t with heads := [] } i).pc = (threads i).pc :=
    update_same Thread.pc rfl
  have heq : Store.epochs { s with slots := update s.slots t { s.slots t with active := e } }
      (update threads t { threads t with heads := [] }) = (s.epochs threads).announce t e := by
    simp only [Store.epochs, hpc]
    congr 1
    · exact comp_update Slot.active s.slots t _
    · refine (comp_update (Thread.reaches s.heap) threads t _).trans (congrArg _ ?_)
      ext n
      simp [Thread.reaches]
  refine ⟨heq ▸ h.safe.announce t he, ?_, h.known_freed⟩
  rw [heq]
  exact h.known

theorem EpochsOk.acquire (h : EpochsOk s threads) (hactive : (s.slots t).active ≠ 0) (b : Nat) :
    EpochsOk s (update threads t { threads t with
      heads := (s.buckets b).toList ++ (threads t).heads }) := by
  have hpc : ∀ i, (update threads t { threads t with
      heads := (s.buckets b).toList ++ (threads t).heads } i).pc = (threads i).pc :=
    update_same Thread.pc rfl
  have heq : s.epochs (update threads t { threads t with
      heads := (s.buckets b).toList ++ (threads t).heads }) =
        (s.epochs threads).acquire t {n | n ∈ s.heap.addrs (s.buckets b)} := by
    simp only [Store.epochs, hpc]
    congr 1
    refine (comp_update (Thread.reaches s.heap) threads t _).trans (congrArg _ ?_)
    ext n
    cases hb : s.buckets b with
    | none => simp [Thread.reaches]
    | some j => simp [Thread.reaches, or_comm]
  refine ⟨heq ▸ h.safe.acquire hactive fun n hn => ⟨b, hn⟩, ?_, h.known_freed⟩
  rw [heq]
  exact h.known

end

theorem Inv.withDepth {pc : Pc} (h : Inv c s) (ht : t < c.threads)
    (hretiring : ∀ x ∈ pc.retiring s.heap, x ∈ (s.threads t).pc.retiring s.heap)
    (hscan : pc.scanned = none) (hsweep : pc.sweeping = none)
    (hthread : ThreadOk s.globalEpoch { s.slots t with depth := d } s.heap
      { s.threads t with pc := pc }) :
    Core c { s.store with slots := update s.slots t { s.slots t with depth := d } }
      (update s.threads t { s.threads t with pc := pc }) := by
  refine h.withThread ht ?_ (.refl _) le_rfl (fun i hi => update_of_ne hi _ _) ?_
  · exact h.epochs.moveQuiet le_rfl (update_same Slot.active rfl) (fun _ hn => hn) hretiring
      hscan hsweep
  · simp only [update_self]
    exact hthread

theorem enterDepth_inv (h : Inv c s) (hpc : (s.threads t).pc = .enterDepth job) :
    Core c { s.store with slots := update s.slots t { s.slots t with depth := (s.slots t).depth + 1 } }
      (update s.threads t { s.threads t with
        pc := if (s.slots t).depth = 0 then .enterEpoch job else .loadHead job }) := by
  have ht : t < c.threads := h.lt_threads_of_pc hpc (by simp)
  obtain ⟨hdepth, hann, -, hviews⟩ := h.thread t
  rw [announced_plain (by rw [hpc]; rfl)] at hann
  rw [hpc] at hdepth
  refine h.withDepth ht ?_ ?_ ?_ ⟨?_, ?_, ?_, hviews⟩
  · intro x hx
    split at hx <;> cases hx
  · split <;> rfl
  · split <;> rfl
  · rw [hdepth]
    split <;> rfl
  · by_cases hd : (s.slots t).depth = 0
    · rw [if_pos hd]
      exact hann.1 hd
    · rw [if_neg hd]
      exact ⟨fun hz => absurd hz (Nat.succ_ne_zero _), fun _ => hann.2 (Nat.pos_of_ne_zero hd)⟩
  · intro n hn
    split at hn <;> cases hn

theorem exitDepth_inv (h : Inv c s) (hpc : (s.threads t).pc = .exitDepth after) :
    Core c { s.store with slots := update s.slots t { s.slots t with depth := (s.slots t).depth - 1 } }
      (update s.threads t { s.threads t with
        pc := if (s.slots t).depth ≤ 1 then .exitActive after else after.next }) := by
  have ht : t < c.threads := h.lt_threads_of_pc hpc (by simp)
  obtain ⟨hdepth, hann, -, hviews⟩ := h.thread t
  rw [announced_plain (by rw [hpc]; rfl)] at hann
  rw [hpc] at hdepth
  have hd : (s.slots t).depth = (s.threads t).views.length + 1 := hdepth
  split
  · rename_i hle
    refine h.withDepth ht ?_ rfl rfl ⟨?_, ?_, ?_, hviews⟩
    · rw [hpc]
      exact fun x hx => hx
    · rw [hd]
      rfl
    · rw [hd] at hle
      exact eq_nil_of_length_eq_zero (Nat.le_zero.1 (Nat.le_of_succ_le_succ hle))
    · rintro _ ⟨⟩
  · rename_i hle
    obtain ⟨hplain, hinside, hhead, hscan, hsweep⟩ := after.next_spec
    refine h.withDepth ht ?_ hscan hsweep ⟨?_, ?_, ?_, hviews⟩
    · rw [hpc]
      exact after.next_retiring s.heap
    · rw [hd, hinside]
      rfl
    · rw [announced_plain hplain]
      refine ⟨fun hz => absurd hz ?_, fun _ => hann.2 ?_⟩
      · exact Nat.sub_ne_zero_of_lt (not_le.1 hle)
      · exact lt_trans Nat.zero_lt_one (not_le.1 hle)
    · rw [hhead]
      simp

theorem exitActive_inv (h : Inv c s) (hpc : (s.threads t).pc = .exitActive after) :
    Core c { s.store with slots := update s.slots t { s.slots t with active := 0 } }
      (update s.threads t { s.threads t with pc := after.next, heads := [] }) := by
  have ht : t < c.threads := h.lt_threads_of_pc hpc (by simp)
  obtain ⟨hdepth, hann, -, -⟩ := h.thread t
  simp only [Announced, hpc] at hann
  rw [hpc, hann] at hdepth
  have hd : (s.slots t).depth = 0 := hdepth
  obtain ⟨hplain, hinside, hhead, hscan, hsweep⟩ := after.next_spec
  have hleave := h.epochs.announce t (Nat.zero_le _)
  refine h.withThread ht ?_ (.refl _) le_rfl (fun i hi => update_of_ne hi _ _) ?_
  · have hnext := hleave.moveQuiet (t := t) (u := { s.threads t with pc := after.next, heads := [] })
      le_rfl (fun _ => rfl) (by simp) ?_ hscan hsweep
    · rwa [update_idem] at hnext
    · rw [update_self, hpc]
      exact after.next_retiring s.heap
  · simp only [update_self]
    refine ⟨?_, (announced_plain hplain).2 ⟨fun _ => rfl, fun hpos => ?_⟩, ?_, ?_⟩
    · rw [hinside, hann]
      exact hd
    · exact absurd hd (ne_of_gt hpos)
    · rw [hhead]
      simp
    · rw [hann]
      simp

theorem enterEpoch_inv (h : Inv c s) (hpc : (s.threads t).pc = .enterEpoch job) :
    Core c s.store (update s.threads t { s.threads t with pc := .enterActive job s.globalEpoch }) := by
  have ht : t < c.threads := h.lt_threads_of_pc hpc (by simp)
  obtain ⟨hdepth, hann, -, hviews⟩ := h.thread t
  simp only [Announced, hpc] at hann
  rw [hpc] at hdepth
  refine h.withThread ht ?_ (.refl _) le_rfl (fun _ _ => rfl)
    ⟨hdepth, ⟨hann, h.epoch, le_rfl⟩, (by rintro _ ⟨⟩), hviews⟩
  exact h.epochs.moveQuiet le_rfl (fun _ => rfl) (fun _ hn => hn) (by rintro _ ⟨⟩) rfl rfl

theorem enterActive_inv (h : Inv c s) (hpc : (s.threads t).pc = .enterActive job epoch) :
    Core c { s.store with slots := update s.slots t { s.slots t with active := epoch } }
      (update s.threads t { s.threads t with pc := .loadHead job }) := by
  have ht : t < c.threads := h.lt_threads_of_pc hpc (by simp)
  obtain ⟨hdepth, hann, -, hviews⟩ := h.thread t
  simp only [Announced, hpc] at hann
  obtain ⟨hheads, hne, hle⟩ := hann
  rw [hpc] at hdepth
  refine h.withThread ht ?_ (.refl _) le_rfl (fun i hi => update_of_ne hi _ _) ?_
  · have hnext := (h.epochs.announce t hle).moveQuiet (t := t)
      (u := { s.threads t with pc := .loadHead job }) le_rfl (fun _ => rfl)
      (by simp [hheads]) (by rintro _ ⟨⟩) rfl rfl
    rwa [update_idem] at hnext
  · simp only [update_self]
    exact ⟨hdepth, (announced_plain rfl).2 ⟨fun _ => hheads, fun _ => hne⟩, (by rintro _ ⟨⟩), hviews⟩

/-- In the reader section, on the chain at `head` or on none. -/
structure Inside (head : Option Nat) (pc : Pc) : Prop where
  plain : pc.plain = true
  inside : pc.inside = true
  head : ∀ n, pc.head = some n → head = some n
  retiring : ∀ heap, pc.retiring heap = []
  scanned : pc.scanned = none
  sweeping : pc.sweeping = none

theorem notFound_inside (head : Option Nat) (job : Job) : Inside head (notFound head job) := by
  cases job with
  | get key bufLen => exact ⟨rfl, rfl, (by rintro _ ⟨⟩), fun _ => rfl, rfl, rfl⟩
  | write w =>
    cases hn : w.node with
    | none =>
      simp only [notFound, hn]
      exact ⟨rfl, rfl, (by rintro _ ⟨⟩), fun _ => rfl, rfl, rfl⟩
    | some node =>
      simp only [notFound, hn]
      exact ⟨rfl, rfl, fun n hn => hn, fun _ => rfl, rfl, rfl⟩

theorem afterLoad_inside (job : Job) (head : Option Nat) : Inside head (afterLoad job head) := by
  cases head with
  | none => exact notFound_inside none job
  | some i => exact ⟨rfl, rfl, fun n hn => hn, fun _ => rfl, rfl, rfl⟩

theorem loadHead_inv (h : Inv c s) (hpc : (s.threads t).pc = .loadHead job) :
    Core c s.store (update s.threads t { s.threads t with
      pc := afterLoad job (s.buckets (c.bucketOf job.key))
      heads := (s.buckets (c.bucketOf job.key)).toList ++ (s.threads t).heads }) := by
  have ht : t < c.threads := h.lt_threads_of_pc hpc (by simp)
  obtain ⟨hdepth, hann, -, hviews⟩ := h.thread t
  rw [announced_plain (by rw [hpc]; rfl)] at hann
  rw [hpc] at hdepth
  have hpos : 0 < (s.slots t).depth := Nat.lt_of_lt_of_eq (Nat.succ_pos _) hdepth.symm
  have hin := afterLoad_inside job (s.buckets (c.bucketOf job.key))
  refine h.withThread ht ?_ (.refl _) le_rfl (fun _ _ => rfl) ⟨?_, ?_, ?_, ?_⟩
  · have hnext := (h.epochs.acquire (hann.2 hpos) (c.bucketOf job.key)).moveQuiet (t := t)
      (u := { s.threads t with
        pc := afterLoad job (s.buckets (c.bucketOf job.key))
        heads := (s.buckets (c.bucketOf job.key)).toList ++ (s.threads t).heads })
      le_rfl (fun _ => rfl) ?_ ?_ hin.scanned hin.sweeping
    · rwa [update_idem] at hnext
    · rw [update_self]
      exact fun _ hn => hn
    · rw [hin.retiring]
      rintro _ ⟨⟩
  · rw [hin.inside]
    exact hdepth
  · rw [announced_plain hin.plain]
    exact ⟨fun hz => absurd hz (ne_of_gt hpos), hann.2⟩
  · intro n hn
    exact mem_append_left _ (Option.mem_toList.2 (hin.head n hn))
  · intro n hn
    obtain ⟨i, hi, hmem⟩ := hviews n hn
    exact ⟨i, mem_append_right _ hi, hmem⟩

theorem Inv.stay {pc : Pc} (h : Inv c s) (hpc : (s.threads t).pc = old)
    (hplain : old.plain = true) (hinside : old.inside = true) (hin : Inside old.head pc) :
    Core c s.store (update s.threads t { s.threads t with pc := pc }) := by
  subst hpc
  have ht : t < c.threads := by
    apply h.lt_threads
    intro hidle
    rw [hidle] at hinside
    cases hinside
  refine h.quiet ht rfl rfl
    ⟨⟨hplain, hin.plain⟩, hin.inside.trans hinside.symm, hin.head, ?_, hin.scanned, hin.sweeping⟩
  intro x hx
  rw [hin.retiring] at hx
  cases hx

theorem foundView_inv (h : Inv c s) (hpc : (s.threads t).pc = .walk job head (some n))
    (hmem : n ∈ s.heap.addrs (some head)) :
    Core c s.store (update s.threads t { s.threads t with
      pc := .idle, views := n :: (s.threads t).views }) := by
  have ht : t < c.threads := h.lt_threads_of_pc hpc (by simp)
  obtain ⟨hdepth, hann, hhead, hviews⟩ := h.thread t
  rw [announced_plain (by rw [hpc]; rfl)] at hann
  rw [hpc] at hdepth hhead
  refine h.withThread ht ?_ (.refl _) le_rfl (fun _ _ => rfl)
    ⟨hdepth, (announced_plain rfl).2 hann, (by rintro _ ⟨⟩), ?_⟩
  · exact h.epochs.moveQuiet le_rfl (fun _ => rfl) (fun _ hn => hn) (by rintro _ ⟨⟩) rfl rfl
  · exact forall_mem_cons.2 ⟨⟨head, hhead head rfl, hmem⟩, hviews⟩

theorem walk_inv (h : Inv c s) (hpc : (s.threads t).pc = .walk job head cur)
    (hs : walk s t job head cur = some s') : Core c s'.store s'.threads := by
  have hok := h.wf.pc t
  rw [hpc] at hok
  obtain ⟨-, -, hcur, pre, hpath, -⟩ := hok
  cases cur with
  | none =>
    cases hs
    exact h.stay hpc rfl rfl (notFound_inside (some head) job)
  | some n =>
    obtain ⟨cell, hc⟩ := s.heap.exists_cell hcur
    simp only [walk, hc, Option.some.injEq] at hs
    subst hs
    have hmem : n ∈ s.heap.addrs (some head) := by
      rw [Heap.addrs, hpath, s.heap.path_some hc, map_append]
      exact mem_append_right _ mem_cons_self
    by_cases hkey : cell.val.key = job.key
    · rw [if_pos hkey]
      cases job with
      | get key bufLen =>
        cases bufLen with
        | none =>
          simp only [foundAt, State.ret, State.goto, State.setThread, update_self, update_idem]
          exact foundView_inv h hpc hmem
        | some bufLen =>
          exact h.stay hpc rfl rfl ⟨rfl, rfl, (by rintro _ ⟨⟩), fun _ => rfl, rfl, rfl⟩
      | write w =>
        apply h.stay hpc rfl rfl
        split <;> exact ⟨rfl, rfl, fun n hn => hn, fun _ => rfl, rfl, rfl⟩
    · rw [if_neg hkey]
      exact h.stay hpc rfl rfl ⟨rfl, rfl, fun n hn => hn, fun _ => rfl, rfl, rfl⟩

theorem clone_inv (h : Inv c s) (hpc : (s.threads t).pc = .clone w head found iter copied)
    (hs : clone s t w head found copied ok iter = some s') : Core c s'.store s'.threads := by
  have hok := h.wf.pc t
  rw [hpc] at hok
  cases iter with
  | none =>
    cases hs
    exact h.stay hpc rfl rfl ⟨rfl, rfl, fun n hn => hn, fun _ => rfl, rfl, rfl⟩
  | some n =>
    obtain ⟨cell, hc⟩ := s.heap.exists_cell hok.2.2.1
    simp only [clone, hc, Option.some.injEq] at hs
    subst hs
    apply h.stay hpc rfl rfl
    split
    · exact ⟨rfl, rfl, fun n hn => hn, fun _ => rfl, rfl, rfl⟩
    · split
      · exact ⟨rfl, rfl, fun n hn => hn, fun _ => rfl, rfl, rfl⟩
      · exact ⟨rfl, rfl, (by rintro _ ⟨⟩), fun _ => rfl, rfl, rfl⟩

theorem cas_inv (h : Inv c s) (hpc : (s.threads t).pc = .cas w head new tail retire)
    (htimely : Timely c s (.thread t ok)) : Core c (cas c s t w head new tail retire ok).store
      (cas c s t w head new tail retire ok).threads := by
  have hok := h.wf.pc t
  rw [hpc] at hok
  have hcas : CasOk c s.heap w head new tail retire := hok
  have ht : t < c.threads := h.lt_threads_of_pc hpc (by simp)
  unfold cas
  dsimp only
  split
  · rename_i hsucc
    obtain ⟨rfl, hhead⟩ := hsucc
    have hext := (s.heap.allocAll_spec new hcas.tail_valid).extend
    obtain ⟨hdepth, hann, -, hviews⟩ := (h.thread t).extend le_rfl hext (h.wf.heads t)
    rw [announced_plain (by rw [hpc]; rfl)] at hann
    rw [hpc] at hdepth
    refine h.withThread ht ?_ hext le_rfl (fun _ _ => rfl)
      ⟨hdepth, (announced_plain rfl).2 hann, (by rintro _ ⟨⟩), hviews⟩
    refine EpochsOk.publish h hcas hhead ?_
    intro hr
    obtain ⟨r, rfl⟩ := Option.ne_none_iff_exists'.1 hr
    simp only [Timely, hpc] at htimely
    exact htimely hhead
  · exact h.stay hpc rfl rfl ⟨rfl, rfl, (by rintro _ ⟨⟩), fun _ => rfl, rfl, rfl⟩

end Csilk.Cache
