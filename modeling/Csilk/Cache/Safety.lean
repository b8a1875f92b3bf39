import Csilk.Cache.Readers

namespace Csilk.Cache
open Csilk.Lib Function Option
open List hiding head

variable {s s' : State}

def nextRetire (epoch : Nat) : Option Nat → Pc
  | some n => .retireNext n epoch
  | none => .idle

theorem afterRetire_store (s : State) (t epoch : Nat) (rest : Option Nat) :
    (afterRetire s t epoch rest).store = s.store ∧ (afterRetire s t epoch rest).threads =
      update s.threads t { s.threads t with pc := nextRetire epoch rest } := by
  unfold afterRetire
  split <;> exact ⟨rfl, rfl⟩

theorem nextRetire_quiet (hplain : old.plain = true) (hinside : old.inside = false)
    (hrest : ∀ x ∈ tagged heap rest epoch, x ∈ old.retiring heap) :
    Quiet heap old (nextRetire epoch rest) := by
  cases rest with
  | none => exact .of_nil ⟨hplain, rfl⟩ hinside.symm rfl rfl rfl rfl
  | some n => exact ⟨⟨hplain, rfl⟩, hinside.symm, (by rintro _ ⟨⟩), hrest, rfl, rfl⟩

theorem Inv.withReclaim {epoch : Nat} (h : Inv c s) (hpc : (s.threads t).pc = .reclaim epoch rest pc)
    (hepochs : EpochsOk { s.store with globalEpoch := g, retired := retired, freed := freed }
      (update s.threads t { s.threads t with pc := .reclaim epoch rest pc' }))
    (hle : s.globalEpoch ≤ g) :
    Core c { s.store with globalEpoch := g, retired := retired, freed := freed }
      (update s.threads t { s.threads t with pc := .reclaim epoch rest pc' }) := by
  have ht : t < c.threads := h.lt_threads_of_pc hpc (by simp)
  have hthread := (h.thread t).extend hle (.refl _) (h.wf.heads t)
  refine h.withThread ht hepochs (.refl _) hle (fun _ _ => rfl) ?_
  refine hthread.quiet ⟨by rw [hpc]; rfl, rfl⟩ (by rw [hpc]; rfl) ?_ rfl rfl
  rintro _ ⟨⟩

theorem Inv.scan {epoch : Nat} (h : Inv c s) (hpc : (s.threads t).pc = .reclaim epoch rest pc)
    (hsafe : ((s.store.epochs s.threads).scanTo t S low).Safe 1) (hle : s.globalEpoch ≤ g)
    (hscan : pc'.scanned = some (S, low)) (hsweep : pc'.sweeping = none) (hrecs : pc'.recs = []) :
    Core c { s.store with globalEpoch := g }
      (update s.threads t { s.threads t with pc := .reclaim epoch rest pc' }) := by
  refine h.withReclaim hpc ?_ hle
  refine h.epochs.moveTo hle (fun _ => rfl) (fun _ hn => hn) ?_ hsafe ?_ (fun k hk => update_of_ne hk _ _)
    ?_ fun _ _ => rfl
  · rintro x (hx | hx)
    · exact .inl hx
    · rw [hpc]
      refine .inr (mem_append_left _ ?_)
      simpa [Pc.retiring, hrecs] using hx
  · intro S' low' hk
    cases hscan.symm.trans hk
    exact ⟨_, update_self _ _ _, Set.Subset.refl _⟩
  · intro L lim hL
    cases hsweep.symm.trans hL

section

variable {s : Store} {threads : Nat → Thread} (h : EpochsOk s threads)
include h

theorem EpochsOk.detach (hpc : (threads t).pc = .reclaim epoch rest (.detach limit)) :
    EpochsOk { s with retired := [] } (update threads t { threads t with
      pc := .reclaim epoch rest (.sweep limit s.retired []) }) := by
  have hscan : (s.epochs threads).scan t = some (Set.univ, some limit) := congrArg Pc.scanned hpc
  have hsafe := h.safe.detach {x | x ∈ s.retired} limit hscan (fun _ => trivial)
    (fun x hx => .inl hx) (by rintro m ⟨⟩; exact le_rfl)
  refine h.moveTo le_rfl (fun _ => rfl) (fun _ hn => hn) ?_ hsafe (by rintro _ _ ⟨⟩)
    (fun k hk => update_of_ne hk _ _) ?_ fun k hk => update_of_ne hk _ _
  · rintro x (hx | hx)
    · cases hx
    · rw [hpc]
      rcases mem_append.1 hx with hx | hx
      · exact .inr (mem_append_left _ hx)
      · rw [ReclaimPc.recs, append_nil] at hx
        exact .inl hx
  · rintro L lim ⟨⟩
    exact ⟨_, update_self _ _ _, Set.Subset.refl _⟩

variable (hpc : (threads t).pc = .reclaim epoch rest (.sweep limit (x₀ :: recs) kept))
include hpc

theorem EpochsOk.free (hlt : x₀.2 + 1 < limit) :
    EpochsOk { s with freed := x₀.1 :: s.freed } threads := by
  have hsweep : (s.epochs threads).sweep t = some ({x | x ∈ x₀ :: recs}, limit) :=
    congrArg Pc.sweeping hpc
  have hmem : x₀ ∈ {x | x ∈ x₀ :: recs} := mem_cons_self
  have heq : Store.epochs { s with freed := x₀.1 :: s.freed } threads = (s.epochs threads).free x₀.1 := by
    have hset : {x | x ∈ x₀.1 :: s.freed} = insert x₀.1 {x | x ∈ s.freed} := by
      ext x
      simp
    simp only [Store.epochs, Epochs.free, hset]
  refine ⟨heq ▸ h.safe.free hsweep hmem hlt, h.known, ?_⟩
  exact forall_mem_cons.2 ⟨h.known x₀ (sweep_subset_retired s threads hsweep hmem), h.known_freed⟩

theorem EpochsOk.sweepOn (hkept : ∀ x ∈ kept', x = x₀ ∨ x ∈ kept) :
    EpochsOk s (update threads t { threads t with
      pc := .reclaim epoch rest (.sweep limit recs kept') }) := by
  refine h.move le_rfl (fun _ => rfl) (fun _ hn => hn) ?_ rfl ?_
  · rintro x (hx | hx)
    · exact .inl hx
    · refine .inr ?_
      rw [hpc]
      rcases mem_append.1 hx with hx | hx
      · exact mem_append_left _ hx
      · apply mem_append_right
        rcases mem_append.1 hx with hx | hx
        · exact mem_append_left _ (mem_cons_of_mem x₀ hx)
        · rcases hkept x hx with rfl | hx
          · exact mem_append_left _ mem_cons_self
          · exact mem_append_right _ hx
  · rintro L lim ⟨⟩
    rw [hpc]
    exact ⟨_, rfl, fun x hx => mem_cons_of_mem x₀ hx⟩

end

theorem Inv.gotoReclaim {epoch : Nat} (h : Inv c s) (hpc : (s.threads t).pc = .reclaim epoch rest pc)
    (hrecs : ∀ x, x ∈ retired ∨ x ∈ pc'.recs → x ∈ s.retired ∨ x ∈ pc.recs)
    (hscan : pc'.scanned = none) (hsweep : pc'.sweeping = none) :
    Core c { s.store with retired := retired }
      (update s.threads t { s.threads t with pc := .reclaim epoch rest pc' }) := by
  refine h.withReclaim hpc ?_ le_rfl
  refine h.epochs.move le_rfl (fun _ => rfl) (fun _ hn => hn) ?_ hscan ?_
  · intro x hx
    rw [hpc]
    have hold : x ∈ retired ∨ x ∈ pc'.recs →
        x ∈ s.retired ∨ x ∈ tagged s.heap rest epoch ++ pc.recs :=
      fun hx => (hrecs x hx).imp_right (mem_append_right _)
    rcases hx with hx | hx
    · exact hold (.inl hx)
    · rcases mem_append.1 hx with hx | hx
      · exact .inr (mem_append_left _ hx)
      · exact hold (.inr hx)
  · intro L lim hL
    cases hsweep.symm.trans hL

theorem afterRetire_inv (h : Inv c s) (hpc : (s.threads t).pc = .reclaim epoch rest pc) :
    Core c (afterRetire s t epoch rest).store (afterRetire s t epoch rest).threads := by
  obtain ⟨hstore, hthreads⟩ := afterRetire_store s t epoch rest
  rw [hstore, hthreads]
  refine h.quiet (h.lt_threads_of_pc hpc (by simp)) rfl rfl ?_
  rw [hpc]
  exact nextRetire_quiet rfl rfl fun x hx => mem_append_left _ hx

theorem scanEnd_safe (h : Inv c s) (hown : Owned c)
    (hpc : (s.threads t).pc = .reclaim epoch rest (.scan cur i low)) (hi : maxReaders ≤ i) :
    ((s.store.epochs s.threads).scanTo t Set.univ (some (low.getD (cur + 2)))).Safe 1 := by
  have hscan : (s.store.epochs s.threads).scan t = some ({j | j < i}, low) := congrArg Pc.scanned hpc
  apply h.epochs.safe.scanMore hscan
  · rintro m rfl
    exact ⟨m, rfl, Nat.le_refl m⟩
  · intro j _
    by_cases hj : j < c.threads
    · exact .inl (lt_of_lt_of_le (lt_of_lt_of_le hj hown.threads) hi)
    · refine .inr ?_
      rintro n ⟨k, hk, -⟩
      rw [(h.unused j (not_lt.1 hj)).2] at hk
      cases hk

theorem tryReclaim_inv (h : Inv c s) (hown : Owned c)
    (hpc : (s.threads t).pc = .reclaim epoch rest pc) :
    Core c (tryReclaim s t epoch rest ok pc).store (tryReclaim s t epoch rest ok pc).threads := by
  cases pc with
  | tryLock =>
    rw [tryReclaim]
    split
    · exact afterRetire_inv h hpc
    · exact h.gotoReclaim hpc (fun x hx => hx) rfl rfl
  | loadEpoch =>
    refine h.scan hpc (S := {j | j < 0}) ?_ le_rfl rfl rfl rfl
    exact h.epochs.safe.scanTo t fun i hi => absurd hi (Nat.not_lt_zero i)
  | scan cur i low =>
    rw [tryReclaim]
    split
    · refine h.scan hpc (S := {j | j < i + 1}) ?_ le_rfl rfl rfl rfl
      exact h.epochs.safe.scanReader (i := i) (congrArg Pc.scanned hpc)
        fun j hj => Nat.lt_succ_iff_lt_or_eq.1 hj
    · rename_i hi
      have hle : s.globalEpoch ≤ if low.any (cur ≤ ·) then s.globalEpoch + 1 else s.globalEpoch := by
        split
        · exact Nat.le_succ _
        · exact le_rfl
      exact h.scan hpc (scanEnd_safe h hown hpc (not_lt.1 hi)) hle rfl rfl rfl
  | detach limit => exact h.withReclaim hpc (h.epochs.detach hpc) le_rfl
  | sweep limit recs kept =>
    cases recs with
    | nil =>
      refine h.gotoReclaim hpc ?_ ?_ ?_
      · rintro x (hx | hx)
        · exact .inl hx
        · split at hx
          · cases hx
          · exact .inr hx
      · split <;> rfl
      · split <;> rfl
    | cons x₀ recs =>
      rw [tryReclaim]
      split
      · rename_i hlt
        have hkept : ∀ x ∈ kept, x = x₀ ∨ x ∈ kept := fun x hx => .inr hx
        exact h.withReclaim hpc ((h.epochs.free hpc hlt).sweepOn hpc hkept) le_rfl
      · exact h.withReclaim hpc (h.epochs.sweepOn hpc fun x hx => mem_cons.1 hx) le_rfl
  | pushBack kept head =>
    rw [tryReclaim]
    split
    · refine h.gotoReclaim hpc ?_ rfl rfl
      rintro x (hx | hx)
      · exact (mem_append.1 hx).symm
      · cases hx
    · exact h.gotoReclaim hpc (fun x hx => hx) rfl rfl
  | storeCount n => exact h.gotoReclaim hpc (fun x hx => hx) rfl rfl
  | unlock => exact afterRetire_inv h hpc

theorem retirePush_inv (h : Inv c s) (hpc : (s.threads t).pc = .retireCas n epoch rest head) :
    Core c { s.store with retired := (n, epoch) :: s.retired }
      (update s.threads t { s.threads t with pc := .retireCount epoch rest }) := by
  have ht : t < c.threads := h.lt_threads_of_pc hpc (by simp)
  refine h.withThread ht ?_ (.refl _) le_rfl (fun _ _ => rfl) ?_
  · refine h.epochs.move le_rfl (fun _ => rfl) (fun _ hn => hn) ?_ rfl (by rintro _ _ ⟨⟩)
    rintro x (hx | hx)
    · rcases mem_cons.1 hx with rfl | hx
      · rw [hpc]
        exact .inr mem_cons_self
      · exact .inl hx
    · rw [hpc]
      exact .inr (mem_cons_of_mem _ hx)
  · refine (h.thread t).quiet ⟨by rw [hpc]; rfl, rfl⟩ (by rw [hpc]; rfl) ?_ rfl rfl
    rintro _ ⟨⟩

theorem Inv.goto {pc : Pc} (h : Inv c s) (hold : (s.threads t).pc = old) (hne : old ≠ .idle)
    (hq : Quiet s.heap old pc) :
    Core c s.store (update s.threads t { s.threads t with pc := pc }) := by
  subst hold
  exact h.quiet (h.lt_threads hne) rfl rfl hq

theorem threadStep_inv (h : Inv c s) (hown : Owned c) (htimely : Timely c s (.thread t ok))
    (hs : threadStep c s t ok = some s') : Core c s'.store s'.threads := by
  have hok := h.wf.pc t
  unfold threadStep at hs
  rw [hown.slotOf t] at hs
  generalize hpc : (s.threads t).pc = pc at hs hok
  cases pc with
  | idle => cases hs
  | setEpoch key val | deleteEpoch key =>
    cases hs
    exact h.goto hpc (by simp) (.of_nil ⟨rfl, rfl⟩ rfl rfl rfl rfl rfl)
  | setAlloc key val epoch =>
    cases hs
    split <;> exact h.goto hpc (by simp) (.of_nil ⟨rfl, rfl⟩ rfl rfl rfl rfl rfl)
  | enterDepth job =>
    cases hs
    exact enterDepth_inv h hpc
  | enterEpoch job =>
    cases hs
    exact enterEpoch_inv h hpc
  | enterActive job epoch =>
    cases hs
    exact enterActive_inv h hpc
  | loadHead job =>
    cases hs
    rw [loadHead_store, loadHead_threads]
    exact loadHead_inv h hpc
  | walk job head cur =>
    exact walk_inv h hpc hs
  | clone w head found iter copied =>
    exact clone_inv h hpc hs
  | cas w head new tail retire =>
    cases hs
    exact cas_inv h hpc htimely
  | exitDepth after =>
    cases hs
    have hexit := exitDepth_inv h hpc
    by_cases hle : (s.slots t).depth ≤ 1
    · rw [if_pos hle] at hexit ⊢
      exact hexit
    · rw [if_neg hle] at hexit ⊢
      rw [(afterExit_store _ t after).1, (afterExit_store _ t after).2]
      exact hexit
  | exitActive after =>
    cases hs
    rw [(afterExit_store _ t after).1, (afterExit_store _ t after).2, State.setThread_self,
      State.setThread, update_idem]
    exact exitActive_inv h hpc
  | retireNext n epoch =>
    obtain ⟨cell, hc⟩ := s.heap.exists_cell (i := n) fun i hi => by cases hi; exact hok
    simp only [hc, Option.some.injEq] at hs
    subst hs
    refine h.goto hpc (by simp) ⟨⟨rfl, rfl⟩, rfl, (by rintro _ ⟨⟩), ?_, rfl, rfl⟩
    rw [Pc.retiring, Pc.retiring, tagged, tagged, s.heap.addrs_some hc]
    exact fun x hx => hx
  | retireLoad n epoch rest =>
    cases hs
    exact h.goto hpc (by simp) ⟨⟨rfl, rfl⟩, rfl, (by rintro _ ⟨⟩), fun x hx => hx, rfl, rfl⟩
  | retireCas n epoch rest head =>
    dsimp only at hs
    split at hs <;> cases hs
    · exact retirePush_inv h hpc
    · exact h.goto hpc (by simp) ⟨⟨rfl, rfl⟩, rfl, (by rintro _ ⟨⟩), fun x hx => hx, rfl, rfl⟩
  | retireCount epoch rest =>
    cases hs
    split
    · refine h.goto hpc (by simp) ⟨⟨rfl, rfl⟩, rfl, (by rintro _ ⟨⟩), ?_, rfl, rfl⟩
      intro x hx
      exact (mem_append.1 hx).resolve_right (by rintro ⟨⟩)
    · rw [(afterRetire_store _ t epoch rest).1, (afterRetire_store _ t epoch rest).2]
      exact h.goto hpc (by simp) (nextRetire_quiet rfl rfl fun x hx => hx)
  | reclaim epoch rest pc =>
    cases hs
    exact tryReclaim_inv h hown hpc

theorem begin_pc {pc : Pc} (hs : begin c s t op pc = some s') :
    t < c.threads ∧ (s'.threads t).pc = pc := by
  obtain ⟨⟨ht, -⟩, rfl⟩ := of_enabled hs
  refine ⟨ht, ?_⟩
  rw [State.call, State.setThread_self]

theorem begin_inv {pc : Pc} (h : Inv c s) (hs : begin c s t op pc = some s')
    (hq : Quiet s.heap .idle pc) : Core c s'.store s'.threads := by
  obtain ⟨⟨ht, hpc⟩, rfl⟩ := of_enabled hs
  refine h.quiet ht rfl rfl ?_
  rwa [hpc]

theorem releaseView_inv (h : Inv c s) (hpc : (s.threads t).pc = .idle)
    (hn : n ∈ (s.threads t).views) :
    Core c s.store (update s.threads t { s.threads t with
      pc := .exitDepth .released, views := (s.threads t).views.erase n }) := by
  obtain ⟨hdepth, hann, -, hviews⟩ := h.thread t
  rw [announced_plain (by rw [hpc]; rfl)] at hann
  rw [hpc] at hdepth
  refine h.withThread (h.lt_threads_of_view hn) ?_ (.refl _) le_rfl (fun _ _ => rfl)
    ⟨?_, (announced_plain rfl).2 hann, (by rintro _ ⟨⟩), ?_⟩
  · exact h.epochs.moveQuiet le_rfl (fun _ => rfl) (fun _ hn => hn) (by rintro _ ⟨⟩) rfl rfl
  · have hlen : (s.threads t).views.length = ((s.threads t).views.erase n).length + 1 := by
      rw [length_erase_of_mem hn]
      exact (Nat.succ_pred_eq_of_pos (length_pos_of_mem hn)).symm
    exact (show (s.slots t).depth = (s.threads t).views.length from hdepth).trans hlen
  · exact fun m hm => hviews m (mem_of_mem_erase hm)

theorem step_inv (h : Inv c s) (hown : Owned c) (htimely : Timely c s a)
    (hs : step c s a = some s') : Inv c s' := by
  refine ⟨?_, step_wf h.wf hs⟩
  cases a with
  | set t key val | delete t key | getView t key | getCopy t key bufLen =>
    exact begin_inv h hs (.of_nil ⟨rfl, rfl⟩ rfl rfl rfl rfl rfl)
  | invalid t =>
    obtain ⟨s₁, hs₁, rfl⟩ := map_eq_some_iff.1 hs
    have h₁ : Inv c s₁ :=
      ⟨begin_inv h hs₁ (.of_nil ⟨rfl, rfl⟩ rfl rfl rfl rfl rfl), begin_wf h.wf hs₁ trivial⟩
    obtain ⟨ht, hpc⟩ := begin_pc hs₁
    refine h₁.quiet ht rfl rfl ?_
    rw [hpc]
    exact ⟨⟨rfl, rfl⟩, rfl, fun n hn => hn, fun x hx => hx, rfl, rfl⟩
  | releaseView t n =>
    obtain ⟨⟨hpc, hn⟩, rfl⟩ := of_enabled hs
    exact releaseView_inv h hpc hn
  | thread t ok => exact threadStep_inv h hown htimely hs

def Pc.traversed : Pc → List Nat
  | .walk _ head cur => head :: cur.toList
  | .clone _ head found iter _ => head :: found :: iter.toList
  | .cas _ head _ tail _ => head.toList ++ tail.toList
  | _ => []

theorem Inv.traversed_reaches (h : Inv c s) (t : Nat) :
    ∀ n ∈ (s.threads t).pc.traversed, n ∈ (s.threads t).reaches s.heap := by
  have hok := h.wf.pc t
  have hhead := (h.thread t).head
  intro n hn
  generalize (s.threads t).pc = pc at hok hhead hn
  cases pc with
  | walk job head cur =>
    obtain ⟨-, hchain, hcur, pre, hpath, -⟩ := hok
    refine ⟨head, hhead head rfl, ?_⟩
    rcases mem_cons.1 hn with rfl | hn
    · exact s.heap.mem_addrs hchain.valid rfl
    · rw [Heap.addrs, hpath, map_append]
      exact mem_append_right _ (s.heap.mem_addrs hcur (mem_toList.1 hn))
  | clone w head found iter copied =>
    obtain ⟨-, hchain, hiter, ⟨node, hfound, -⟩, pre, hpath, -⟩ := hok
    refine ⟨head, hhead head rfl, ?_⟩
    rcases mem_cons.1 hn with rfl | hn
    · exact s.heap.mem_addrs hchain.valid rfl
    · rcases mem_cons.1 hn with rfl | hn
      · exact mem_map_of_mem (f := Prod.fst) hfound
      · rw [Heap.addrs, hpath, map_append]
        exact mem_append_right _ (s.heap.mem_addrs hiter (mem_toList.1 hn))
  | cas w head new tail retire =>
    have hcas : CasOk c s.heap w head new tail retire := hok
    obtain ⟨old, hold, -⟩ := hcas.unlinked
    have hmem : n ∈ s.heap.addrs head := by
      rcases mem_append.1 hn with hn | hn
      · exact s.heap.mem_addrs hcas.chain.valid (mem_toList.1 hn)
      · rw [hold]
        exact mem_append_right _ (s.heap.mem_addrs hcas.tail_valid (mem_toList.1 hn))
    cases head with
    | none =>
      rw [Heap.addrs_none] at hmem
      cases hmem
    | some i => exact ⟨i, hhead i rfl, hmem⟩
  | _ => cases hn

/-- In a timely run of at most 256 threads no node is freed that a view exposes or a thread looks
at. -/
theorem tryReclaim_safe (hown : Owned c) (h : (mvcc c).Reachable (Timely c) s) (t : Nat) :
    (∀ n ∈ (s.threads t).views, n ∉ s.freed) ∧ ∀ n ∈ (s.threads t).pc.traversed, n ∉ s.freed := by
  have hinv : Inv c s := h.invariant
    (fun s hs => by obtain rfl : s = mvccCacheNew := hs; exact mvccCacheNew_inv c)
    (fun s a s' hi hok hs => step_inv hi hown hok hs)
  refine ⟨fun n hn => ?_, fun n hn => ?_⟩
  · exact hinv.epochs.safe.not_freed t n ((hinv.thread t).views n hn)
  · exact hinv.epochs.safe.not_freed t n (hinv.traversed_reaches t n hn)

def Pc.unlinks : Pc → Bool
  | .cas _ _ _ _ (some _) => true
  | _ => false

def Linking (s : State) : Act → Bool
  | .thread t _ => !(s.threads t).pc.unlinks
  | _ => true

theorem timely_of_linking (h : Linking s a = true) : Timely c s a := by
  unfold Timely
  split
  · split
    · rename_i hpc
      simp [Linking, hpc, Pc.unlinks] at h
    · trivial
  · trivial

def viewedActs : List Act :=
  .set 0 [] [7] :: replicate 9 (.thread 0 true) ++
    .getView 0 [] :: replicate 5 (.thread 0 true) ++
    .set 1 [] [8] :: replicate 7 (.thread 1 true)

theorem tryReclaim_safe_viewed :
    ∃ s, (mvcc ⟨1, 2, id⟩).Reachable (Timely ⟨1, 2, id⟩) s ∧ (s.threads 0).views = [0] ∧
      s.retired = [(0, 1)] ∧ 0 ∉ s.freed := by
  have hviewed :=
    ((mvcc ⟨1, 2, id⟩).run (p := fun s a => Linking s a = true) mvccCacheNew viewedActs rfl rfl).mono
      fun s a ha => timely_of_linking (c := ⟨1, 2, id⟩) ha
  have hcas := hviewed.step (a := Act.thread 1 true) (fun _ => ⟨by decide, ?_⟩) rfl
  · have hexit := (hcas.step (a := Act.thread 1 true) (timely_of_linking rfl) rfl).step
      (a := Act.thread 1 true) (timely_of_linking rfl) rfl
    have hpush := (hexit.step (a := Act.thread 1 true) (timely_of_linking rfl) rfl).step
      (a := Act.thread 1 true) (timely_of_linking rfl) rfl
    exact ⟨_, hpush, rfl, rfl, (tryReclaim_safe ⟨fun _ => rfl, by decide⟩ hpush 0).1 0 (by decide)⟩
  · rintro (_ | _ | t) S low ⟨⟩

/-- Thread `0` has found no reader; then thread `1` gets a view, thread `2` retires its node, and
thread `0` frees it. -/
def racingActs : List Act :=
  .set 0 [] [] :: replicate 9 (.thread 0 true) ++
    (replicate 33 (.set 0 [] [] :: replicate 13 (.thread 0 true))).flatten ++
    replicate 259 (.thread 0 true) ++
    .getView 1 [] :: replicate 5 (.thread 1 true) ++
    .set 2 [] [] :: replicate 14 (.thread 2 true) ++
    replicate 35 (.thread 0 true)

theorem tryReclaim_frees_viewed :
    Owned ⟨1, 3, id⟩ ∧ ∃ s, (mvcc ⟨1, 3, id⟩).Reachable (fun _ _ => True) s ∧
      ∃ n ∈ (s.threads 1).views, n ∈ s.freed := by
  refine ⟨⟨fun _ => rfl, by decide⟩, ?_⟩
  have hrun : ((mvcc ⟨1, 3, id⟩).exec (fun _ _ => True) mvccCacheNew racingActs).any
      (fun s => decide (33 ∈ (s.threads 1).views ∧ 33 ∈ s.freed)) = true := by
    decide +kernel
  obtain ⟨s, hs, hbad⟩ := (Option.any_eq_true _ _).1 hrun
  have hinit : (mvcc ⟨1, 3, id⟩).Reachable (fun _ _ => True) mvccCacheNew := .init rfl
  obtain ⟨hview, hfreed⟩ := of_decide_eq_true hbad
  exact ⟨s, hinit.exec hs, 33, hview, hfreed⟩

end Csilk.Cache
