import Csilk.Reload.Slots

namespace Csilk.Reload
open Csilk.Lib Function

def WorkerPc.recs : WorkerPc → List RetiredRouter
  | .allocRec rec | .pushLoad rec _ | .pushCas rec _ _ => [rec]
  | .reclaim _ (.sweep _ rest kept) => rest ++ kept
  | .reclaim _ (.pushBack kept _) => kept
  | _ => []

def WorkerPc.transit : WorkerPc → Option RouterId
  | .advance old _ | .stopAlloc old | .stopEpoch old => old
  | _ => none

def WorkerPc.scanned : WorkerPc → Option (Set Nat × Option Nat)
  | .reclaim _ (.scanStatic _ i low) => some ({j | j < i}, low)
  | .reclaim _ (.scanOverflow _ low rest) => some ({j | j ∉ rest}, low)
  | _ => none

def routersOf (recs : List RetiredRouter) : Set (RouterId × Nat) :=
  {x | ⟨some x.1, x.2⟩ ∈ recs}

def WorkerPc.sweeping : WorkerPc → Option (Set (RouterId × Nat) × Nat)
  | .reclaim _ (.sweep limit rest _) => some (routersOf rest, limit)
  | _ => none

def State.epochs (s : State) : Epochs Nat Nat RouterId where
  epoch := s.globalEpoch
  active := fun i => (s.slots i).active
  held := fun i => {r | r ∈ (s.slots i).held}
  linked := {r | s.router = some r}
  retired := routersOf s.retired ∪ {x | ∃ w, x ∈ routersOf (s.workers w).recs} ∪
    {x | (∃ w, (s.workers w).transit = some x.1) ∧ x.2 = s.globalEpoch}
  freed := {r | r ∈ s.freed}
  scan := fun w => (s.workers w).scanned
  sweep := fun w => (s.workers w).sweeping

theorem WorkerPc.sweeping_subset (h : WorkerPc.sweeping pc = some (L, lim)) :
    L ⊆ routersOf pc.recs := by
  unfold WorkerPc.sweeping at h
  split at h <;> cases h
  intro x hx
  exact List.mem_append_left _ hx

structure Inv (s : State) : Prop extends Slots s where
  safe : s.epochs.Safe 0
  unslotted : s.unslotted = []

/-- A router that is neither published nor on its way to be freed. -/
def State.Fresh (s : State) (r : RouterId) : Prop :=
  s.router ≠ some r ∧ r ∉ s.freed ∧ ∀ e, (r, e) ∉ s.epochs.retired

def State.NoScan (s : State) : Prop :=
  ∀ w S low, (s.workers w).scanned = some (S, low) → S = ∅

/-- Every thread gets a slot, routers are published once, and not exchanged during a scan. -/
def Orderly (s : State) : Act → Prop
  | .acquireUnslotted => False
  | .worker w _ =>
    match s.workers w with
    | .exchange new _ => s.Fresh new ∧ s.NoScan
    | .stopExchange _ => s.NoScan
    | _ => True
  | _ => True

theorem reloadMgrInit_inv (router : Option RouterId) : Inv (reloadMgrInit router) := by
  refine ⟨reloadMgrInit_slots router, ?_, rfl⟩
  apply Epochs.safe_initial
  · intro i
    exact Nat.zero_le _
  · intro i
    exact Set.eq_empty_of_forall_notMem (by rintro _ ⟨⟩)
  · apply Set.eq_empty_of_forall_notMem
    rintro x ((hx | ⟨w, hx⟩) | ⟨⟨w, hx⟩, -⟩)
    · cases hx
    · cases hx
    · cases hx
  · exact Set.eq_empty_of_forall_notMem (by rintro _ ⟨⟩)
  · intro k
    rfl

theorem epochs_setSlot (s : State) (i : Nat) (slot : Slot) :
    (s.setSlot i slot).epochs = { s.epochs with
      active := update s.epochs.active i slot.active
      held := update s.epochs.held i {r | r ∈ slot.held} } := by
  have hactive : (fun j => (update s.slots i slot j).active) =
      update s.epochs.active i slot.active := comp_update Slot.active s.slots i slot
  have hheld : (fun j => {r | r ∈ (update s.slots i slot j).held}) =
      update s.epochs.held i {r | r ∈ slot.held} :=
    comp_update (fun slot : Slot => {r | r ∈ slot.held}) s.slots i slot
  rw [← hactive, ← hheld]
  rfl

variable {s s' : State} {slot : Slot}

theorem safe_keepSlot (h : s.epochs.Safe 0) (ha : slot.active = (s.slots i).active)
    (hh : slot.held = (s.slots i).held) : (s.setSlot i slot).epochs.Safe 0 := by
  have he : (s.setSlot i slot).epochs = s.epochs := by
    rw [epochs_setSlot, ha, hh]
    simp [State.epochs]
  rwa [he]

theorem safe_announceSlot (h : s.epochs.Safe 0) (ha : slot.active ≤ s.globalEpoch)
    (hh : slot.held = []) : (s.setSlot i slot).epochs.Safe 0 := by
  have he : (s.setSlot i slot).epochs = s.epochs.announce i slot.active := by
    rw [epochs_setSlot, hh]
    simp [Epochs.announce]
  rw [he]
  exact h.announce i ha

theorem safe_acquireSlot (h : s.epochs.Safe 0) (ha : slot.active = (s.slots i).active)
    (hh : slot.held = s.router.toList ++ (s.slots i).held) (hi : slot.active ≠ 0) :
    (s.setSlot i slot).epochs.Safe 0 := by
  have he : (s.setSlot i slot).epochs = s.epochs.acquire i {r | s.router = some r} := by
    have hheld : {r | r ∈ slot.held} = s.epochs.held i ∪ {r | s.router = some r} := by
      ext r
      rw [hh]
      simp [State.epochs, or_comm]
    rw [epochs_setSlot, ha, hheld]
    simp [State.epochs, Epochs.acquire]
  rw [he]
  exact h.acquire (by rwa [ha] at hi) (Set.Subset.refl _)

theorem readerStep_safe (h : Inv s) (hs : readerStep s i ok = some s') :
    s'.epochs.Safe 0 ∧ s'.unslotted = s.unslotted := by
  have hok := h.slot i
  unfold Slot.Ok at hok
  dsimp only [readerStep] at hs
  generalize (s.slots i).pc = pc at hs hok
  cases pc with
  | unowned | idle => cases hs
  | clearActive =>
    cases hs
    exact ⟨safe_announceSlot h.safe (Nat.zero_le _) hok, rfl⟩
  | pushCas head =>
    dsimp only at hs
    split at hs <;> cases hs <;> exact ⟨safe_keepSlot h.safe rfl rfl, rfl⟩
  | storeActive e =>
    cases hs
    obtain ⟨hheld, -, -, hle⟩ := hok
    exact ⟨safe_announceSlot h.safe hle hheld, rfl⟩
  | loadRouter =>
    cases hs
    exact ⟨safe_acquireSlot h.safe rfl rfl hok.1, rfl⟩
  | releaseActive | exitActive =>
    cases hs
    exact ⟨safe_announceSlot h.safe (Nat.zero_le _) rfl, rfl⟩
  | _ =>
    cases hs
    exact ⟨safe_keepSlot h.safe rfl rfl, rfl⟩

theorem readerStep_inv (h : Inv s) (hs : readerStep s i ok = some s') : Inv s' := by
  obtain ⟨hsafe, hunslotted⟩ := readerStep_safe h hs
  exact ⟨h.toSlots.readerStep hs, hsafe, hunslotted.trans h.unslotted⟩

theorem retired_of_worker (s : State) (w : Nat) (hx : x ∈ routersOf (s.workers w).recs) :
    x ∈ s.epochs.retired :=
  .inl (.inr ⟨w, hx⟩)

theorem sweep_subset_retired (s : State) (hk : s.epochs.sweep k = some (L, lim)) :
    L ⊆ s.epochs.retired := by
  intro x hx
  exact retired_of_worker s k (WorkerPc.sweeping_subset hk hx)

theorem retired_goto {l : List RetiredRouter} {g : Nat}
    (hx : (o, e) ∈ ({ s.goto w pc with retired := l, globalEpoch := g } : State).epochs.retired) :
    (o, e) ∈ routersOf l ∨ (o, e) ∈ routersOf pc.recs ∨ pc.transit = some o ∧ e = g ∨
      (∃ w', (o, e) ∈ routersOf (s.workers w').recs) ∨
      (∃ w', (s.workers w').transit = some o) ∧ e = g := by
  rcases hx with (hx | ⟨w', hx⟩) | ⟨⟨w', hx⟩, he⟩
  · exact .inl hx
  · rcases update_cases (fun pc : WorkerPc => (o, e) ∈ routersOf pc.recs) hx with ⟨-, hx⟩ | ⟨-, hx⟩
    · exact .inr (.inl hx)
    · exact .inr (.inr (.inr (.inl ⟨w', hx⟩)))
  · rcases update_cases (fun pc : WorkerPc => pc.transit = some o) hx with ⟨-, hx⟩ | ⟨-, hx⟩
    · exact .inr (.inr (.inl ⟨hx, he⟩))
    · exact .inr (.inr (.inr (.inr ⟨⟨w', hx⟩, he⟩)))

theorem safe_goto {l : List RetiredRouter} {g : Nat} (h : s.epochs.Safe 0) (hg : s.globalEpoch ≤ g)
    (hrecs : ∀ x, x ∈ routersOf l ∨ x ∈ routersOf pc.recs → x ∈ routersOf s.retired ∨
      x ∈ routersOf (s.workers w).recs ∨ (s.workers w).transit = some x.1 ∧ s.globalEpoch ≤ x.2)
    (htransit : ∀ o, pc.transit = some o → (s.workers w).transit = some o)
    (hscan : pc.scanned = none)
    (hsweep : ∀ L lim, pc.sweeping = some (L, lim) →
      ∃ L', (s.workers w).sweeping = some (L', lim) ∧ L ⊆ L') :
    ({ s.goto w pc with retired := l, globalEpoch := g } : State).epochs.Safe 0 := by
  have hold : ∀ o e, (o, e) ∈ routersOf l ∨ (o, e) ∈ routersOf pc.recs →
      ∃ e' ≤ e, (o, e') ∈ s.epochs.retired := by
    intro o e hx
    rcases hrecs (o, e) hx with hx | hx | ⟨hx, hle⟩
    · exact ⟨e, Nat.le_refl e, .inl (.inl hx)⟩
    · exact ⟨e, Nat.le_refl e, retired_of_worker s w hx⟩
    · exact ⟨s.globalEpoch, hle, .inr ⟨⟨w, hx⟩, rfl⟩⟩
  apply h.below
  refine ⟨hg, fun _ => rfl, fun _ => Set.Subset.refl _, rfl, ?_, Set.Subset.refl _,
    Epochs.below_update WorkerPc.scanned _ ?_ fun _ _ => rfl, fun k L lim hk =>
      ⟨sweep_subset_retired _ hk, Epochs.below_update _ s.epochs.sweep hsweep (fun _ _ => rfl) k L lim hk⟩⟩
  · intro o e hx
    rcases retired_goto hx with hx | hx | ⟨ht, he⟩ | ⟨w', hx⟩ | ⟨⟨w', ht⟩, he⟩
    · exact hold o e (.inl hx)
    · exact hold o e (.inr hx)
    · exact ⟨s.globalEpoch, he ▸ hg, .inr ⟨⟨w, htransit o ht⟩, rfl⟩⟩
    · exact ⟨e, Nat.le_refl e, retired_of_worker s w' hx⟩
    · exact ⟨s.globalEpoch, he ▸ hg, .inr ⟨⟨w', ht⟩, rfl⟩⟩
  · rw [hscan]
    rintro _ _ ⟨⟩

theorem safe_quiet (h : s.epochs.Safe 0) (hr : ∀ rec ∈ pc.recs, rec ∈ (s.workers w).recs)
    (ht : ∀ o, pc.transit = some o → (s.workers w).transit = some o) (hsc : pc.scanned = none)
    (hsw : pc.sweeping = none) : (s.goto w pc).epochs.Safe 0 := by
  apply safe_goto (l := s.retired) h le_rfl _ ht hsc
  · intro L lim hL
    rw [hsw] at hL
    cases hL
  · rintro x (hx | hx)
    · exact .inl hx
    · exact .inr (.inl (hr _ hx))

theorem epochs_goto_scan (hw : s.workers w = old) (hr : pc.recs = old.recs)
    (ht : pc.transit = old.transit) (hsw : pc.sweeping = old.sweeping)
    (hsc : pc.scanned = some (S, low)) : (s.goto w pc).epochs = s.epochs.scanTo w S low := by
  subst hw
  have hupd : ∀ (β : Type) (f : WorkerPc → β), f pc = f (s.workers w) →
      (fun w' => f (update s.workers w pc w')) = fun w' => f (s.workers w') :=
    fun β f hf => funext (update_same f hf)
  have hscan : (fun w' => (update s.workers w pc w').scanned) =
      update s.epochs.scan w (some (S, low)) :=
    hsc ▸ comp_update WorkerPc.scanned s.workers w pc
  simp only [State.epochs, State.goto, Epochs.scanTo, Epochs.mk.injEq, true_and]
  refine ⟨?_, hscan, hupd _ _ hsw⟩
  have h1 := congrFun (hupd _ _ hr)
  have h2 := congrFun (hupd _ _ ht)
  simp only [h1, h2]

end Csilk.Reload
