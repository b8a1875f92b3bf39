import Csilk.Reload.Rcu

namespace Csilk.Reload
open Csilk.Lib Function

def Slot.Ok (epoch : Nat) (slot : Slot) : Prop :=
  match slot.pc with
  | .clearActive | .clearDepth | .exitDepth => slot.held = []
  | .unowned | .pushLoad | .pushCas _ | .exitOwner => slot.held = [] ∧ slot.depth = 0
  | .idle => (slot.depth = 0 → slot.held = []) ∧ (0 < slot.depth → slot.active ≠ 0)
  | .storeDepth d =>
    d = slot.depth ∧ (slot.depth = 0 → slot.held = []) ∧ (0 < slot.depth → slot.active ≠ 0)
  | .loadEpoch => slot.held = [] ∧ 0 < slot.depth
  | .storeActive e => slot.held = [] ∧ 0 < slot.depth ∧ e ≠ 0 ∧ e ≤ epoch
  | .loadActive | .loadRouter => slot.active ≠ 0 ∧ 0 < slot.depth
  | .releaseDepth d => d = slot.depth ∧ slot.active ≠ 0
  | .releaseActive => slot.depth = 0
  | .exitActive => True

def ReaderPc.unlisted : ReaderPc → Bool
  | .unowned | .pushLoad | .pushCas _ => true
  | _ => false

theorem Slot.Ok.mono (h : Slot.Ok e slot) (he : e ≤ e') : Slot.Ok e' slot := by
  unfold Slot.Ok at h ⊢
  cases hpc : slot.pc with
  | storeActive d =>
    rw [hpc] at h
    exact ⟨h.1, h.2.1, h.2.2.1, h.2.2.2.trans he⟩
  | _ =>
    rw [hpc] at h
    exact h

structure Slots (s : State) : Prop where
  epoch : s.globalEpoch ≠ 0
  slot : ∀ i, (s.slots i).Ok s.globalEpoch
  unlisted : ∀ i, maxReaders ≤ i → i ∉ s.overflow → (s.slots i).pc.unlisted = true
  active : ∀ i, (s.slots i).active ≤ s.globalEpoch

theorem reloadMgrInit_slots (router : Option RouterId) : Slots (reloadMgrInit router) :=
  ⟨Nat.one_ne_zero, fun _ => ⟨rfl, rfl⟩, fun _ _ _ => rfl, fun _ => Nat.zero_le _⟩

variable {s s' : State}

theorem Slots.set {new : Slot} (h : Slots s) (hok : new.Ok s.globalEpoch)
    (hactive : new.active ≤ s.globalEpoch)
    (hun : (s.slots i).pc.unlisted = false ∨ (i < maxReaders ∨ i ∈ s.overflow) ∨
      new.pc.unlisted = true) : Slots (s.setSlot i new) := by
  refine ⟨h.epoch, ?_, ?_, ?_⟩
  · exact (forall_update_iff s.slots fun _ slot => slot.Ok s.globalEpoch).2
      ⟨hok, fun j _ => h.slot j⟩
  · intro j hle hj
    have hold := h.unlisted j hle hj
    by_cases hji : j = i
    · subst hji
      rcases hun with hun | hun | hun
      · rw [hold] at hun
        cases hun
      · exact absurd hun (not_or.2 ⟨not_lt.2 hle, hj⟩)
      · simpa [State.setSlot] using hun
    · simpa [State.setSlot, hji] using hold
  · exact (forall_update_iff s.slots fun _ slot => slot.active ≤ s.globalEpoch).2
      ⟨hactive, fun j _ => h.active j⟩

theorem Slots.frame (h : Slots s) (hslots : s'.slots = s.slots) (hoverflow : s'.overflow = s.overflow)
    (hepoch : s.globalEpoch ≤ s'.globalEpoch) : Slots s' := by
  refine ⟨?_, ?_, ?_, ?_⟩
  · exact ne_of_gt (lt_of_lt_of_le (Nat.pos_of_ne_zero h.epoch) hepoch)
  · intro i
    rw [hslots]
    exact (h.slot i).mono hepoch
  · intro i
    rw [hslots, hoverflow]
    exact h.unlisted i
  · intro i
    rw [hslots]
    exact (h.active i).trans hepoch

theorem Slots.listed (h : Slots s) (i : Nat) : Slots { s with overflow := i :: s.overflow } :=
  { h with
      unlisted := fun j hle hj => h.unlisted j hle fun hmem => hj (List.mem_cons_of_mem i hmem) }

theorem Slots.readerStep (h : Slots s) (hs : readerStep s i ok = some s') : Slots s' := by
  have hok := h.slot i
  have hactive := h.active i
  unfold Slot.Ok at hok
  dsimp only [Reload.readerStep] at hs
  generalize hpc : (s.slots i).pc = pc at hs hok
  cases pc with
  | unowned | idle => cases hs
  | clearActive =>
    cases hs
    exact h.set hok (Nat.zero_le _) (.inl (by rw [hpc]; rfl))
  | clearDepth =>
    cases hs
    exact h.set ⟨fun _ => hok, (absurd · (Nat.lt_irrefl 0))⟩ hactive (.inl (by rw [hpc]; rfl))
  | pushLoad | exitOwner =>
    cases hs
    exact h.set hok hactive (.inr (.inr rfl))
  | pushCas head =>
    dsimp only at hs
    split at hs <;> cases hs
    · exact (h.listed i).set ⟨fun _ => hok.1, fun hd => absurd hok.2 (Nat.ne_of_gt hd)⟩ hactive
        (.inr (.inl (.inr List.mem_cons_self)))
    · exact h.set hok hactive (.inr (.inr rfl))
  | storeDepth d =>
    cases hs
    obtain ⟨rfl, hnone, hact⟩ := hok
    refine h.set ?_ hactive (.inl (by rw [hpc]; rfl))
    cases hd : (s.slots i).depth with
    | zero => exact ⟨hnone hd, Nat.one_pos⟩
    | succ d => exact ⟨hact (by rw [hd]; exact Nat.succ_pos d), Nat.succ_pos _⟩
  | loadEpoch =>
    cases hs
    exact h.set ⟨hok.1, hok.2, h.epoch, Nat.le_refl _⟩ hactive (.inl (by rw [hpc]; rfl))
  | storeActive e =>
    cases hs
    obtain ⟨-, hd, hne, hle⟩ := hok
    exact h.set ⟨hne, hd⟩ hle (.inl (by rw [hpc]; rfl))
  | loadActive =>
    cases hs
    exact h.set hok hactive (.inl (by rw [hpc]; rfl))
  | loadRouter =>
    cases hs
    obtain ⟨hact, hd⟩ := hok
    exact h.set ⟨fun hz => absurd hz (Nat.ne_of_gt hd), fun _ => hact⟩ hactive (.inl (by rw [hpc]; rfl))
  | releaseDepth d =>
    cases hs
    obtain ⟨rfl, hact⟩ := hok
    refine h.set ?_ hactive (.inl (by rw [hpc]; rfl))
    by_cases hd : (s.slots i).depth ≤ 1
    · simp only [hd]
      exact Nat.sub_eq_zero_of_le hd
    · simp only [Slot.Ok, hd, ↓reduceIte]
      exact ⟨fun hz => absurd (Nat.sub_eq_zero_iff_le.1 hz) hd, fun _ => hact⟩
  | releaseActive =>
    cases hs
    exact h.set ⟨fun _ => rfl, fun hd => absurd hok (Nat.ne_of_gt hd)⟩ (Nat.zero_le _)
      (.inl (by rw [hpc]; rfl))
  | exitActive =>
    cases hs
    exact h.set rfl (Nat.zero_le _) (.inl (by rw [hpc]; rfl))
  | exitDepth =>
    cases hs
    exact h.set ⟨hok, rfl⟩ hactive (.inl (by rw [hpc]; rfl))

@[simp] theorem State.goto_self (s : State) : (s.goto w pc).workers w = pc := update_self ..

theorem State.goto_of_ne (s : State) (hk : k ≠ w) : (s.goto w pc).workers k = s.workers k :=
  update_of_ne hk ..

structure WorkerFrame (s s' : State) (w : Nat) : Prop where
  slots : s'.slots = s.slots
  overflow : s'.overflow = s.overflow
  unslotted : s'.unslotted = s.unslotted
  epoch : s.globalEpoch ≤ s'.globalEpoch
  others : ∀ k ≠ w, s'.workers k = s.workers k

theorem WorkerFrame.goto (s : State) (w : Nat) (pc : WorkerPc) : WorkerFrame s (s.goto w pc) w :=
  ⟨rfl, rfl, rfl, le_rfl, fun _ hk => s.goto_of_ne hk⟩

theorem tryReclaimStep_frame (s : State) (w : Nat) (locked ok : Bool) (pc : ReclaimPc) :
    WorkerFrame s (tryReclaimStep s w locked ok pc) w := by
  have hgoto := WorkerFrame.goto s w
  unfold tryReclaimStep
  repeat' split
  all_goals exact ⟨rfl, rfl, rfl, le_rfl, (hgoto _).others⟩

theorem workerStep_frame (hs : workerStep s w ok = some s') : WorkerFrame s s' w := by
  have hgoto := WorkerFrame.goto s w
  unfold workerStep at hs
  split at hs
  case h_1 => cases hs
  case h_2 =>
    split at hs <;> cases hs
    exact ⟨rfl, rfl, rfl, le_rfl, (hgoto _).others⟩
  case h_4 =>
    cases hs
    exact ⟨rfl, rfl, rfl, Nat.le_succ _, (hgoto _).others⟩
  case h_7 => split at hs <;> cases hs <;> exact ⟨rfl, rfl, rfl, le_rfl, (hgoto _).others⟩
  case h_17 =>
    cases hs
    exact tryReclaimStep_frame ..
  all_goals
    cases hs
    exact ⟨rfl, rfl, rfl, le_rfl, (hgoto _).others⟩

theorem Slots.slotGoto (h : Slots s) (hok : Slot.Ok s.globalEpoch { s.slots i with pc := pc })
    (hun : (s.slots i).pc.unlisted = false ∨ (i < maxReaders ∨ i ∈ s.overflow) ∨
      pc.unlisted = true) : Slots (s.slotGoto i pc) :=
  h.set hok (h.active i) hun

theorem Slots.step (h : Slots s) (hs : step s a = some s') : Slots s' := by
  cases a with
  | claimSlot i =>
    obtain ⟨⟨hpc, hi⟩, rfl⟩ := of_enabled hs
    have hslot := h.slot i
    simp only [Slot.Ok, hpc] at hslot
    exact h.slotGoto hslot.1 (.inr (.inl hi))
  | allocSlot i =>
    obtain ⟨⟨hpc, -, -⟩, rfl⟩ := of_enabled hs
    have hslot := h.slot i
    simp only [Slot.Ok, hpc] at hslot
    exact h.slotGoto hslot (.inr (.inr rfl))
  | acquire i =>
    obtain ⟨hpc, rfl⟩ := of_enabled hs
    have hslot := h.slot i
    simp only [Slot.Ok, hpc] at hslot
    exact h.slotGoto ⟨rfl, hslot⟩ (.inl (by rw [hpc]; rfl))
  | release i =>
    obtain ⟨⟨hpc, hd⟩, rfl⟩ := of_enabled hs
    have hslot := h.slot i
    simp only [Slot.Ok, hpc] at hslot
    exact h.slotGoto ⟨rfl, hslot.2 hd⟩ (.inl (by rw [hpc]; rfl))
  | exitThread i =>
    obtain ⟨hpc, rfl⟩ := of_enabled hs
    exact h.slotGoto trivial (.inl (by rw [hpc]; rfl))
  | reader i ok => exact h.readerStep hs
  | acquireUnslotted | releaseUnslotted r =>
    cases hs
    exact h.frame rfl rfl le_rfl
  | setRouterFull w new extra | hotReloadStop w extra | waitGracePeriod w =>
    obtain ⟨-, rfl⟩ := of_enabled hs
    exact h.frame rfl rfl le_rfl
  | worker w ok =>
    have hframe := workerStep_frame hs
    exact h.frame hframe.slots hframe.overflow hframe.epoch

end Csilk.Reload
