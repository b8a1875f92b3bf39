import Csilk.Reload.Slots

namespace Csilk.Reload
open Csilk.Lib Function

def Slot.inside (slot : Slot) : Bool :=
  match slot.pc with
  | .idle | .storeDepth _ => decide (0 < slot.depth)
  | .loadActive | .loadRouter => true
  | .releaseDepth d => decide (1 < d)
  | _ => false

def State.leaves (s : State) (i : Nat) : Act → Bool
  | .release j => decide (j = i) && decide ((s.slots i).depth ≤ 1)
  | .exitThread j => decide (j = i)
  | _ => false

/-- The grace period does not end before the thread of slot `i`, with epoch `e`, has left its
section. -/
def WorkerPc.Awaits (i e : Nat) : WorkerPc → Prop
  | .graceEpoch => True
  | .graceStatic target j => e ≤ target ∧ (i < maxReaders → j ≤ i)
  | .graceOverflow target rest => e ≤ target ∧ i ∈ rest
  | _ => False

variable {s s' : State}

theorem readerStep_frame (hs : readerStep s j ok = some s') :
    (∃ slot, s'.slots = update s.slots j slot) ∧ s'.workers = s.workers := by
  dsimp only [readerStep] at hs
  generalize (s.slots j).pc = pc at hs
  cases pc with
  | unowned | idle => cases hs
  | pushCas head =>
    dsimp only at hs
    split at hs <;> cases hs <;> exact ⟨⟨_, rfl⟩, rfl⟩
  | _ =>
    cases hs
    exact ⟨⟨_, rfl⟩, rfl⟩

theorem step_other (hs : step s a = some s') (hij : i ≠ j) :
    (a = .claimSlot j ∨ a = .allocSlot j ∨ a = .acquire j ∨ a = .release j ∨ a = .exitThread j) →
      s'.slots i = s.slots i := by
  rintro (rfl | rfl | rfl | rfl | rfl) <;>
  · obtain ⟨-, rfl⟩ := of_enabled hs
    simp [State.slotGoto, State.setSlot, hij]

section

variable (h : Slots s) (hi : (s.slots i).inside = true)
include h hi

theorem Slots.active_ne_zero : (s.slots i).active ≠ 0 := by
  have hok := h.slot i
  unfold Slot.inside at hi
  unfold Slot.Ok at hok
  generalize (s.slots i).pc = pc at hi hok
  cases pc with
  | idle => exact hok.2 (of_decide_eq_true hi)
  | storeDepth d => exact hok.2.2 (of_decide_eq_true hi)
  | loadActive | loadRouter => exact hok.1
  | releaseDepth d => exact hok.2
  | _ => cases hi

theorem Slots.mem_overflow (hle : maxReaders ≤ i) : i ∈ s.overflow := by
  by_contra hmem
  have hun := h.unlisted i hle hmem
  unfold Slot.inside at hi
  generalize (s.slots i).pc = pc at hi hun
  cases pc with
  | unowned | pushLoad | pushCas head => cases hi
  | _ => cases hun

theorem readerStep_inside (hs : readerStep s i ok = some s') :
    (s'.slots i).inside = true ∧ (s'.slots i).active = (s.slots i).active := by
  have hok := h.slot i
  unfold Slot.inside at hi
  unfold Slot.Ok at hok
  dsimp only [readerStep] at hs
  generalize (s.slots i).pc = pc at hs hok hi
  cases pc with
  | storeDepth d =>
    cases hs
    obtain ⟨rfl, -⟩ := hok
    simp [State.setSlot, Slot.inside, ne_of_gt (of_decide_eq_true hi)]
  | loadActive =>
    cases hs
    simp [State.setSlot, Slot.inside]
  | loadRouter =>
    cases hs
    simp [State.setSlot, Slot.inside, hok.2]
  | releaseDepth d =>
    cases hs
    have hlt : 1 < d := of_decide_eq_true hi
    simp [State.setSlot, Slot.inside, not_le.2 hlt, Nat.sub_pos_of_lt hlt]
  | idle => cases hs
  | _ => cases hi

theorem step_inside (hstay : s.leaves i a = false) (hs : step s a = some s') :
    (s'.slots i).inside = true ∧ (s'.slots i).active = (s.slots i).active := by
  have hsame : s'.slots i = s.slots i →
      (s'.slots i).inside = true ∧ (s'.slots i).active = (s.slots i).active :=
    fun heq => by rw [heq]; exact ⟨hi, rfl⟩
  cases a with
  | claimSlot j | allocSlot j =>
    by_cases hij : i = j
    · subst hij
      simp only [step, Option.ite_none_right_eq_some, Option.some.injEq] at hs
      unfold Slot.inside at hi
      rw [hs.1.1] at hi
      cases hi
    · exact hsame (step_other hs hij (by simp))
  | acquire j =>
    by_cases hij : i = j
    · subst hij
      obtain ⟨hpc, rfl⟩ := of_enabled hs
      unfold Slot.inside at hi
      rw [hpc] at hi
      simpa [State.slotGoto, State.setSlot, Slot.inside] using hi
    · exact hsame (step_other hs hij (by simp))
  | release j =>
    by_cases hij : i = j
    · subst hij
      obtain ⟨-, rfl⟩ := of_enabled hs
      simpa [State.leaves, State.slotGoto, State.setSlot, Slot.inside] using hstay
    · exact hsame (step_other hs hij (by simp))
  | exitThread j =>
    by_cases hij : i = j
    · subst hij
      simp [State.leaves] at hstay
    · exact hsame (step_other hs hij (by simp))
  | reader j ok =>
    by_cases hij : i = j
    · subst hij
      exact readerStep_inside h hi hs
    · obtain ⟨⟨slot, hslots⟩, -⟩ := readerStep_frame hs
      exact hsame (by rw [hslots, update_of_ne hij])
  | acquireUnslotted | releaseUnslotted r =>
    cases hs
    exact hsame rfl
  | setRouterFull w new extra | hotReloadStop w extra | waitGracePeriod w =>
    obtain ⟨-, rfl⟩ := of_enabled hs
    exact hsame rfl
  | worker w ok => exact hsame (by rw [(workerStep_frame hs).slots])

theorem workerStep_awaits
    (hw : (s.workers w).Awaits i (s.slots i).active) (hs : workerStep s w ok = some s') :
    (s'.workers w).Awaits i (s.slots i).active := by
  have hne := h.active_ne_zero hi
  dsimp only [workerStep] at hs
  generalize s.workers w = pc at hw hs
  cases pc with
  | graceEpoch =>
    cases hs
    rw [State.goto_self]
    exact ⟨h.active i, fun _ => Nat.zero_le _⟩
  | graceStatic target j =>
    obtain ⟨hle, hj⟩ := hw
    cases hs
    rw [State.goto_self]
    by_cases hlt : j < maxReaders
    · rw [if_pos hlt]
      split
      · exact ⟨hle, fun _ => Nat.zero_le _⟩
      · rename_i hpass
        refine ⟨hle, fun hlt' => Nat.succ_le_of_lt (Nat.lt_of_le_of_ne (hj hlt') ?_)⟩
        rintro rfl
        exact hpass ⟨hne, hle⟩
    · rw [if_neg hlt]
      exact ⟨hle, h.mem_overflow hi (Nat.le_of_not_lt fun hlt' => hlt ((hj hlt').trans_lt hlt'))⟩
  | graceOverflow target rest =>
    obtain ⟨hle, hmem⟩ := hw
    cases rest with
    | nil => cases hmem
    | cons j rest =>
      cases hs
      rw [State.goto_self]
      split
      · exact ⟨hle, fun _ => Nat.zero_le _⟩
      · rename_i hpass
        refine ⟨hle, (List.mem_cons.1 hmem).resolve_left ?_⟩
        rintro rfl
        exact hpass ⟨hne, hle⟩
  | _ => exact hw.elim

theorem step_awaits (hstay : s.leaves i a = false)
    (hw : (s.workers w).Awaits i (s.slots i).active) (hs : step s a = some s') :
    (s'.workers w).Awaits i (s'.slots i).active := by
  rw [(step_inside h hi hstay hs).2]
  cases a with
  | claimSlot j | allocSlot j | acquire j | release j | exitThread j =>
    obtain ⟨-, rfl⟩ := of_enabled hs
    exact hw
  | reader j ok =>
    rw [(readerStep_frame hs).2]
    exact hw
  | acquireUnslotted | releaseUnslotted r =>
    cases hs
    exact hw
  | setRouterFull k new extra | hotReloadStop k extra | waitGracePeriod k =>
    obtain ⟨hidle, rfl⟩ := of_enabled hs
    by_cases hk : w = k
    · subst hk
      rw [hidle] at hw
      exact hw.elim
    · rw [State.goto_of_ne _ hk]
      exact hw
  | worker k ok =>
    by_cases hk : w = k
    · subst hk
      exact workerStep_awaits h hi hw hs
    · rw [(workerStep_frame hs).others w hk]
      exact hw

end

theorem exec_slots {f : Nat → WorkerPc} (hstep : ∀ i < maxReaders,
      rcu.step (s.goto w (f i)) (.worker w true) = some (s.goto w (f (i + 1))))
    (hi : i + n = maxReaders) : rcu.exec (fun _ _ => True) (s.goto w (f i))
      (List.replicate n (.worker w true)) = some (s.goto w (f maxReaders)) := by
  induction n generalizing i with
  | zero =>
    rw [show i = maxReaders from hi]
    rfl
  | succ n ih =>
    rw [List.replicate_succ, System.exec_cons trivial (hstep i (by omega))]
    exact ih (by omega)

section

variable (hidle : ∀ j, (s.slots j).active = 0) (hi : i + n = maxReaders)
include hidle hi

theorem exec_grace : rcu.exec (fun _ _ => True) (s.goto w (.graceStatic target i))
    (List.replicate n (.worker w true)) = some (s.goto w (.graceStatic target maxReaders)) := by
  apply exec_slots (f := .graceStatic target) _ hi
  intro i hlt
  simp [rcu, step, workerStep, State.goto, hlt, hidle]

theorem exec_scan : rcu.exec (fun _ _ => True) (s.goto w (.reclaim locked (.scanStatic cur i none)))
      (List.replicate n (.worker w true)) =
    some (s.goto w (.reclaim locked (.scanStatic cur maxReaders none))) := by
  apply exec_slots (f := fun i => .reclaim locked (.scanStatic cur i none)) _ hi
  intro i hlt
  simp [rcu, step, workerStep, tryReclaimStep, State.goto, hlt, hidle, observe]

end

end Csilk.Reload
