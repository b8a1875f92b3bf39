import Csilk.Reload.Grace
import Csilk.Reload.Reclaim

namespace Csilk.Reload
open Csilk.Lib Function

variable {s s' : State}

section

variable (h : s.epochs.Safe 0)
include h

theorem safe_exchange (hpc : pc.recs = []) (hsc : pc.scanned = none)
    (hsw : pc.sweeping = none) (htransit : ∀ o, pc.transit = some o → s.router = some o)
    (hnoscan : s.NoScan) (hfresh : ∀ r, new = some r → s.Fresh r) :
    ({ s.goto w pc with router := new } : State).epochs.Safe 0 := by
  have hpub := h.publish {r | s.router = some r} {r | new = some r}
    (e := s.globalEpoch) (fun _ => le_rfl) (fun _ => hnoscan)
    (fun o ho => ⟨(hfresh o ho).2.1, (hfresh o ho).1, (hfresh o ho).2.2⟩)
  apply hpub.below
  refine ⟨le_rfl, fun _ => rfl, fun _ => Set.Subset.refl _, ?_, ?_, Set.Subset.refl _,
    Epochs.below_update WorkerPc.scanned _ ?_ fun _ _ => rfl, fun k L lim hk =>
      ⟨sweep_subset_retired _ hk, Epochs.below_update WorkerPc.sweeping _ ?_ (fun _ _ => rfl) k L lim hk⟩⟩
  · ext r
    simp [State.epochs, Epochs.publish]
  · intro o e hx
    refine ⟨e, Nat.le_refl e, ?_⟩
    rcases retired_goto (s := { s with router := new }) hx with
      hx | hx | ⟨hx, he⟩ | ⟨w', hx⟩ | ⟨hx, he⟩
    · exact .inl (.inl (.inl hx))
    · rw [hpc] at hx
      cases hx
    · exact .inr ⟨htransit o hx, he⟩
    · exact .inl (retired_of_worker s w' hx)
    · exact .inl (.inr ⟨hx, he⟩)
  · rw [hsc]
    rintro _ _ ⟨⟩
  · rw [hsw]
    rintro _ _ ⟨⟩

theorem safe_scan (hw : s.workers w = old) (hold : old.scanned = some (S, low))
    (hT : ∀ j ∈ T, j ∈ S ∨ j = i) (hr : pc.recs = old.recs) (ht : pc.transit = old.transit)
    (hsw : pc.sweeping = old.sweeping)
    (hsc : pc.scanned = some (T, observe low (s.slots i).active)) : (s.goto w pc).epochs.Safe 0 := by
  rw [epochs_goto_scan hw hr ht hsw hsc]
  subst hw
  exact h.scanReader hold hT

theorem safe_detach (hw : s.workers w = .reclaim locked (.scanOverflow cur low [])) :
    ({ s.goto w (.reclaim locked (.sweep (low.getD (cur + 2)) s.retired [])) with
      retired := [] } : State).epochs.Safe 0 := by
  have hscan : s.epochs.scan w = some ({j | j ∉ []}, low) := congrArg WorkerPc.scanned hw
  have hdet := h.detach (routersOf s.retired) (low.getD (cur + 2)) hscan
    (fun _ => List.not_mem_nil) (fun x hx => .inl (.inl hx))
    (by rintro m rfl; exact le_rfl)
  apply hdet.below
  refine ⟨le_rfl, fun _ => rfl, fun _ => Set.Subset.refl _, rfl, ?_, Set.Subset.refl _,
    Epochs.below_update WorkerPc.scanned _ (by rintro _ _ ⟨⟩) fun k hk => update_of_ne hk _ _,
    fun k L lim hk => ⟨sweep_subset_retired _ hk, Epochs.below_update WorkerPc.sweeping _ ?_
      (fun k hk => update_of_ne hk _ _) k L lim hk⟩⟩
  · intro o e hx
    refine ⟨e, Nat.le_refl e, ?_⟩
    rcases retired_goto hx with hx | hx | ⟨hx, -⟩ | ⟨w', hx⟩ | hx
    · cases hx
    · rw [WorkerPc.recs, List.append_nil] at hx
      exact .inl (.inl hx)
    · cases hx
    · exact retired_of_worker s w' hx
    · exact .inr hx
  · rintro L lim ⟨⟩
    exact ⟨_, update_self _ _ _, Set.Subset.refl _⟩

theorem safe_free
    (hw : s.workers w = .reclaim locked (.sweep limit (rec :: rest) kept)) (hlt : rec.epoch < limit) :
    ({ s with freed := rec.router.toList ++ s.freed } : State).epochs.Safe 0 := by
  cases hr : rec.router with
  | none => exact h
  | some r =>
    have hsweep : s.epochs.sweep w = some (routersOf (rec :: rest), limit) :=
      congrArg WorkerPc.sweeping hw
    have hmem : (r, rec.epoch) ∈ routersOf (rec :: rest) := by
      change ⟨some r, rec.epoch⟩ ∈ rec :: rest
      rw [← hr]
      exact List.mem_cons_self
    have hfree := h.free hsweep hmem hlt
    have he : ({ s with freed := [r] ++ s.freed } : State).epochs = s.epochs.free r := by
      have hset : {x | x ∈ [r] ++ s.freed} = insert r {x | x ∈ s.freed} := by
        ext x
        simp
      simp only [State.epochs, Epochs.free, hset]
    rwa [Option.toList_some, he]

theorem safe_sweepOn (hw : s.workers w = .reclaim locked (.sweep limit (rec :: rest) kept))
    (hkept : ∀ r ∈ kept', r = rec ∨ r ∈ kept) :
    (s.goto w (.reclaim locked (.sweep limit rest kept'))).epochs.Safe 0 := by
  apply safe_goto (l := s.retired) h le_rfl
  · rintro x (hx | hx)
    · exact .inl hx
    · refine .inr (.inl ?_)
      rw [hw]
      rcases List.mem_append.1 hx with hx | hx
      · exact List.mem_append_left _ (List.mem_cons_of_mem rec hx)
      · rcases hkept _ hx with hx | hx
        · exact List.mem_append_left _ (hx ▸ List.mem_cons_self)
        · exact List.mem_append_right _ hx
  · rintro _ ⟨⟩
  · rfl
  · intro L lim hL
    cases hL
    rw [hw]
    exact ⟨_, rfl, fun x hx => List.mem_cons_of_mem rec hx⟩

end

def WorkerPc.bare : WorkerPc → Bool
  | .advance .. | .allocRec _ | .pushLoad .. | .pushCas .. | .stopAlloc _ | .stopEpoch _ => false
  | .reclaim _ (.scanStatic ..) | .reclaim _ (.scanOverflow ..) | .reclaim _ (.sweep ..)
  | .reclaim _ (.pushBack ..) => false
  | _ => true

theorem WorkerPc.bare_spec (h : WorkerPc.bare pc = true) :
    pc.recs = [] ∧ pc.transit = none ∧ pc.scanned = none ∧ pc.sweeping = none := by
  cases pc with
  | reclaim locked pc => cases pc <;> first | exact ⟨rfl, rfl, rfl, rfl⟩ | cases h
  | _ => first | exact ⟨rfl, rfl, rfl, rfl⟩ | cases h

theorem afterReclaim_bare (locked : Bool) : (afterReclaim locked).bare = true := by
  cases locked <;> rfl

section

variable (h : Inv s)
include h

theorem Inv.held_unlisted (hle : maxReaders ≤ i) (hi : i ∉ s.overflow) : (s.slots i).held = [] := by
  have hun := h.unlisted i hle hi
  have hok := h.slot i
  unfold Slot.Ok at hok
  cases hpc : (s.slots i).pc with
  | unowned | pushLoad | pushCas head =>
    rw [hpc] at hok
    exact hok.1
  | _ =>
    rw [hpc] at hun
    cases hun

theorem safe_overflow (hw : s.workers w = .reclaim locked (.scanStatic cur i low)) (hi : maxReaders ≤ i) :
    (s.goto w (.reclaim locked (.scanOverflow cur low s.overflow))).epochs.Safe 0 := by
  rw [epochs_goto_scan hw (by rfl) (by rfl) (by rfl) rfl]
  have hscan : s.epochs.scan w = some ({j | j < i}, low) := congrArg WorkerPc.scanned hw
  apply h.safe.scanMore hscan
  · intro m hm
    exact ⟨m, hm, Nat.le_refl m⟩
  · intro j hj
    by_cases hlt : j < maxReaders
    · exact .inl (lt_of_lt_of_le hlt hi)
    · refine .inr fun o ho => ?_
      rw [show s.epochs.held j = {r | r ∈ (s.slots j).held} from rfl,
        h.held_unlisted (Nat.le_of_not_lt hlt) hj] at ho
      cases ho

end

section

variable (h : s.epochs.Safe 0)
include h

theorem safe_bare (hpc : pc.bare = true) : (s.goto w pc).epochs.Safe 0 := by
  obtain ⟨hr, ht, hsc, hsw⟩ := WorkerPc.bare_spec hpc
  apply safe_quiet h _ _ hsc hsw
  · rw [hr]
    simp
  · rw [ht]
    simp

theorem safe_keep (hw : s.workers w = old) (hr : pc.recs = old.recs) (ht : pc.transit = old.transit)
    (hsc : pc.scanned = none) (hsw : pc.sweeping = none) : (s.goto w pc).epochs.Safe 0 := by
  subst hw
  apply safe_quiet h _ _ hsc hsw
  · rw [hr]
    exact fun rec hrec => hrec
  · rw [ht]
    exact fun o ho => ho

theorem safe_push (hpc : pc.bare = true) (hrecs : ∀ rec ∈ recs, rec ∈ (s.workers w).recs) :
    ({ s.goto w pc with retired := recs ++ s.retired } : State).epochs.Safe 0 := by
  obtain ⟨hr, ht, hsc, hsw⟩ := WorkerPc.bare_spec hpc
  apply safe_goto h le_rfl _ _ hsc
  · rw [hsw]
    rintro _ _ ⟨⟩
  · rintro x (hx | hx)
    · rcases List.mem_append.1 hx with hx | hx
      · exact .inr (.inl (hrecs _ hx))
      · exact .inl hx
    · rw [hr] at hx
      cases hx
  · rw [ht]
    simp

theorem safe_tag (hg : s.globalEpoch ≤ g) (ht : (s.workers w).transit = old)
    (hrecs : pc.recs = [⟨old, s.globalEpoch⟩]) (htr : pc.transit = none)
    (hsc : pc.scanned = none) (hsw : pc.sweeping = none) :
    ({ s.goto w pc with globalEpoch := g } : State).epochs.Safe 0 := by
  apply safe_goto (l := s.retired) h hg _ _ hsc
  · rw [hsw]
    rintro _ _ ⟨⟩
  · rintro x (hx | hx)
    · exact .inl hx
    · rw [hrecs] at hx
      have heq := List.mem_singleton.1 hx
      rw [RetiredRouter.mk.injEq] at heq
      exact .inr (.inr ⟨ht.trans heq.1.symm, le_of_eq heq.2.symm⟩)
  · rw [htr]
    simp

theorem safe_advance (hw : s.workers w = .advance old extra) :
    ({ s.goto w (if old.isSome || extra then .allocRec ⟨old, s.globalEpoch⟩
        else .reclaim true .tryLock) with
      globalEpoch := s.globalEpoch + 1 } : State).epochs.Safe 0 := by
  split
  · exact safe_tag h (Nat.le_succ _) (congrArg WorkerPc.transit hw) rfl rfl rfl rfl
  · apply safe_goto (l := s.retired) h (Nat.le_succ _)
    · rintro x (hx | hx)
      · exact .inl hx
      · cases hx
    · rintro _ ⟨⟩
    · rfl
    · rintro _ _ ⟨⟩

end

section

variable (h : Inv s)
include h

theorem tryReclaimStep_safe (hw : s.workers w = .reclaim locked pc) :
    (tryReclaimStep s w locked ok pc).epochs.Safe 0 := by
  cases pc with
  | tryLock =>
    rw [tryReclaimStep]
    split
    · exact safe_bare h.safe (afterReclaim_bare locked)
    · exact safe_bare h.safe rfl
  | loadEpoch =>
    rw [tryReclaimStep, epochs_goto_scan hw (by rfl) (by rfl) (by rfl) rfl]
    exact h.safe.scanTo w fun i hi => absurd hi (Nat.not_lt_zero i)
  | scanStatic cur i low =>
    rw [tryReclaimStep]
    split
    · refine safe_scan h.safe hw rfl ?_ rfl rfl rfl rfl
      intro j hj
      exact Nat.lt_succ_iff_lt_or_eq.1 hj
    · rename_i hi
      exact safe_overflow h hw (Nat.le_of_not_lt hi)
  | scanOverflow cur low rest =>
    cases rest with
    | nil => exact safe_detach h.safe hw
    | cons i rest =>
      refine safe_scan h.safe hw rfl ?_ rfl rfl rfl rfl
      intro j hj
      by_cases hji : j = i
      · exact .inr hji
      · exact .inl fun hmem => hj ((List.mem_cons.1 hmem).resolve_left hji)
  | sweep limit rest kept =>
    cases rest with
    | nil =>
      rw [tryReclaimStep]
      split
      · exact safe_bare h.safe rfl
      · exact safe_keep h.safe hw rfl rfl rfl rfl
    | cons rec rest =>
      rw [tryReclaimStep]
      split
      · rename_i hlt
        have hkept : ∀ r ∈ kept, r = rec ∨ r ∈ kept := fun r hr => .inr hr
        exact safe_sweepOn (safe_free h.safe hw hlt) hw hkept
      · exact safe_sweepOn h.safe hw fun r hr => List.mem_cons.1 hr
  | pushBack kept head =>
    rw [tryReclaimStep]
    split
    · apply safe_push h.safe rfl
      rw [hw]
      exact fun rec hrec => hrec
    · exact safe_keep h.safe hw rfl rfl rfl rfl
  | storeCount n => exact safe_bare h.safe rfl
  | unlock => exact safe_bare h.safe (afterReclaim_bare locked)

theorem workerStep_safe (hok : Orderly s (.worker w ok)) (hs : workerStep s w ok = some s') :
    s'.epochs.Safe 0 := by
  unfold workerStep at hs
  dsimp only [Orderly] at hok
  generalize hw : s.workers w = pc at hs hok
  cases pc with
  | idle => cases hs
  | lockConfig new extra =>
    simp only [Option.ite_none_left_eq_some, Option.some.injEq] at hs
    obtain ⟨-, rfl⟩ := hs
    exact safe_bare h.safe rfl
  | exchange new extra =>
    cases hs
    refine safe_exchange h.safe rfl rfl rfl (fun o ho => ho) hok.2 ?_
    rintro r ⟨⟩
    exact hok.1
  | advance old extra =>
    cases hs
    exact safe_advance h.safe hw
  | allocRec rec | stopAlloc old =>
    cases hs
    split
    · exact safe_keep h.safe hw rfl rfl rfl rfl
    · exact safe_bare h.safe rfl
  | pushLoad rec locked =>
    cases hs
    exact safe_keep h.safe hw rfl rfl rfl rfl
  | pushCas rec locked head =>
    dsimp only at hs
    split at hs <;> cases hs
    · have hrecs : ∀ r ∈ [rec], r ∈ (s.workers w).recs := by
        rw [hw]
        exact fun r hr => hr
      exact safe_push h.safe rfl hrecs
    · exact safe_keep h.safe hw rfl rfl rfl rfl
  | count locked =>
    cases hs
    cases locked <;> exact safe_bare h.safe rfl
  | unlockConfig | graceEpoch =>
    cases hs
    exact safe_bare h.safe rfl
  | stopExchange extra =>
    cases hs
    split
    · exact safe_exchange h.safe rfl rfl rfl (fun o ho => ho) hok (by simp)
    · exact safe_exchange h.safe rfl rfl rfl (by rintro _ ⟨⟩) hok (by simp)
  | stopEpoch old =>
    cases hs
    exact safe_tag h.safe le_rfl (congrArg WorkerPc.transit hw) rfl rfl rfl rfl
  | graceStatic target i =>
    cases hs
    apply safe_bare h.safe
    dsimp only
    split
    · split <;> rfl
    · rfl
  | graceOverflow target rest =>
    cases rest with
    | nil =>
      cases hs
      exact safe_bare h.safe rfl
    | cons i rest =>
      cases hs
      apply safe_bare h.safe
      split <;> rfl
  | reclaim locked pc =>
    cases hs
    exact tryReclaimStep_safe h hw

theorem step_inv (hok : Orderly s a) (hs : step s a = some s') : Inv s' := by
  have hslots := h.toSlots.step hs
  cases a with
  | claimSlot i | allocSlot i | acquire i | release i | exitThread i =>
    obtain ⟨-, rfl⟩ := of_enabled hs
    exact ⟨hslots, safe_keepSlot h.safe rfl rfl, h.unslotted⟩
  | reader i ok => exact readerStep_inv h hs
  | acquireUnslotted => exact absurd hok id
  | releaseUnslotted r =>
    cases hs
    refine { h with unslotted := ?_ }
    rw [h.unslotted]
    rfl
  | setRouterFull w new extra | hotReloadStop w extra | waitGracePeriod w =>
    obtain ⟨-, rfl⟩ := of_enabled hs
    exact ⟨hslots, safe_bare h.safe rfl, h.unslotted⟩
  | worker w ok =>
    exact ⟨hslots, workerStep_safe h hok hs, (workerStep_frame hs).unslotted.trans h.unslotted⟩

end

/-- No router is freed that some reader got since its outermost acquire. -/
theorem csilkServerRouterAcquire_safe (h : rcu.Reachable Orderly s) :
    (∀ i, ∀ r ∈ (s.slots i).held, r ∉ s.freed) ∧ ∀ r ∈ s.unslotted, r ∉ s.freed := by
  have hinv : Inv s := h.invariant
    (fun s hs => by obtain ⟨router, rfl⟩ := hs; exact reloadMgrInit_inv router)
    (fun s a s' hi hok hs => step_inv hi hok hs)
  refine ⟨fun i r hr => hinv.safe.not_freed i r hr, ?_⟩
  rw [hinv.unslotted]
  simp

def acquireActs : List Act :=
  [.claimSlot 0, .reader 0 true, .reader 0 true, .acquire 0, .reader 0 true, .reader 0 true,
    .reader 0 true, .reader 0 true]

theorem orderly_of_bare (hw : ∀ w, (s.workers w).bare = true) (hretired : s.retired = [])
    (hrouter : s.router ≠ some r) (hfreed : r ∉ s.freed) : s.Fresh r ∧ s.NoScan := by
  refine ⟨⟨hrouter, hfreed, ?_⟩, ?_⟩
  · rintro e ((hx | ⟨w, hx⟩) | ⟨⟨w, hx⟩, -⟩)
    · rw [hretired] at hx
      cases hx
    · rw [(WorkerPc.bare_spec (hw w)).1] at hx
      cases hx
    · rw [(WorkerPc.bare_spec (hw w)).2.1] at hx
      cases hx
  · intro w S low hS
    rw [(WorkerPc.bare_spec (hw w)).2.2.1] at hS
    cases hS

theorem csilkServerRouterAcquire_safe_replaced :
    ∃ s, rcu.Reachable Orderly s ∧ (s.slots 0).held = [7] ∧ s.retired = [⟨some 7, 1⟩] ∧
      7 ∉ s.freed := by
  have hinit : rcu.Reachable Orderly (reloadMgrInit (some 7)) := .init ⟨_, rfl⟩
  have hslot := ((hinit.step (a := Act.claimSlot 0) trivial rfl).step (a := Act.reader 0 true)
    trivial rfl).step (a := Act.reader 0 true) trivial rfl
  have hdepth := (hslot.step (a := Act.acquire 0) trivial rfl).step (a := Act.reader 0 true) trivial rfl
  have hheld := ((hdepth.step (a := Act.reader 0 true) trivial rfl).step (a := Act.reader 0 true)
    trivial rfl).step (a := Act.reader 0 true) trivial rfl
  have hlock := (hheld.step (a := Act.setRouterFull 0 8 false) trivial rfl).step (a := Act.worker 0 true)
    trivial rfl
  have hswap := hlock.step (a := Act.worker 0 true) (orderly_of_bare
    (by intro w; cases w <;> rfl) rfl (by decide) (by decide)) rfl
  have halloc := (hswap.step (a := Act.worker 0 true) trivial rfl).step (a := Act.worker 0 true)
    trivial rfl
  have hpush := (halloc.step (a := Act.worker 0 true) trivial rfl).step (a := Act.worker 0 true)
    trivial rfl
  exact ⟨_, hpush, rfl, rfl, (csilkServerRouterAcquire_safe hpush).1 0 7 (by decide)⟩

/-- Router `7` and a thread in its first grace period, past its scan. -/
def waitingServer : State :=
  { reloadMgrInit (some 7) with reclaimLocked := true }.goto 1
    (.reclaim false (.scanStatic 1 maxReaders none))

theorem waitingServer_reachable : rcu.Reachable (fun _ _ => True) waitingServer := by
  have hinit : rcu.Reachable (fun _ _ => True) (reloadMgrInit (some 7)) := .init ⟨_, rfl⟩
  have hstart : rcu.exec (fun _ _ => True) (reloadMgrInit (some 7))
      [.waitGracePeriod 1, .worker 1 true] =
        some ((reloadMgrInit (some 7)).goto 1 (.graceStatic 1 0)) := by
    simp [System.exec, rcu, step, workerStep, State.goto, reloadMgrInit]
  have hgrace := (hinit.exec hstart).exec (exec_grace (n := 256) (fun _ => rfl) rfl)
  have hlock : rcu.exec (fun _ _ => True)
      ((reloadMgrInit (some 7)).goto 1 (.graceStatic 1 maxReaders))
      [.worker 1 true, .worker 1 true, .worker 1 true, .worker 1 true] =
        some ({ reloadMgrInit (some 7) with reclaimLocked := true }.goto 1
          (.reclaim false (.scanStatic 1 0 none))) := by
    simp [System.exec, rcu, step, workerStep, tryReclaimStep, State.goto, reloadMgrInit]
  exact (hgrace.exec hlock).exec (exec_scan (n := 256) (fun _ => rfl) rfl)

/-- A reader gets router `7`, a writer retires it, and the thread above frees it. -/
theorem csilkServerWaitGracePeriod_frees_held :
    ∃ s, rcu.Reachable (fun _ _ => True) s ∧ 7 ∈ (s.slots 0).held ∧ 7 ∈ s.freed := by
  refine ⟨_, waitingServer_reachable.exec (show rcu.exec (fun _ _ => True) waitingServer
    (.worker 1 true :: acquireActs ++ .setRouterFull 2 8 false ::
      List.replicate 9 (.worker 2 true) ++ List.replicate 2 (.worker 1 true)) = some _ from rfl),
    ?_, ?_⟩
  · decide
  · decide

end Csilk.Reload
