import Csilk.Hooks.Model
import Csilk.Reload.Grace

namespace Csilk.Hooks
open Csilk.Lib Function Csilk.Reload List Option

def State.Looping (s : State) (i a : Nat) : Prop := ∃ k, .loop a k ∈ s.threads i

def WriterPc.outside : WriterPc → Bool
  | .idle | .lock _ => true
  | _ => false

def WriterPc.retiring : WriterPc → Option Nat
  | .advance old | .wait old => some old
  | _ => none

def WriterPc.fresh : WriterPc → Option Nat
  | .store _ _ new => new
  | _ => none

/-- At most the writer `w`, which stands at `pc`, has the mutex. -/
structure Inv (s : State) (w : Nat) (pc : WriterPc) : Prop where
  slots : Slots s.rcu
  known : ∀ a ∈ s.freed, a < s.allocated
  published : ∀ t a, s.hooks t = some a → a < s.allocated ∧ a ∉ s.freed
  distinct : ∀ t t' a, s.hooks t = some a → s.hooks t' = some a → t = t'
  replaces : ∀ t old new, pc = .store t old new → s.hooks t = old
  unpublished : ∀ a, pc.fresh = some a ∨ pc.retiring = some a →
    a < s.allocated ∧ a ∉ s.freed ∧ ∀ t, s.hooks t ≠ some a
  looping : ∀ i a, s.Looping i a → (s.rcu.slots i).inside = true ∧
    ((∃ t, s.hooks t = some a) ∨ pc = .advance a ∨
      pc = .wait a ∧ (s.rcu.workers w).Awaits i (s.rcu.slots i).active)

structure Alone (s : State) (w : Nat) : Prop where
  others : ∀ k ≠ w, (s.writers k).outside = true
  mutex : (s.writers w).outside = false → s.mutex = some w

def Safe (s : State) : Prop := ∃ w, Alone s w ∧ Inv s w (s.writers w)

def Frame.Guarded (s : State) (i : Nat) : Frame → Prop
  | .load type => (s.hooks type).isSome = true → (s.rcu.slots i).inside = true
  | _ => True

instance (s : State) (i : Nat) : DecidablePred (Frame.Guarded s i)
  | .load type =>
    inferInstanceAs (Decidable ((s.hooks type).isSome = true → (s.rcu.slots i).inside = true))
  | .loop _ _ | .acquire => .isTrue trivial

/-- Arrays are loaded inside a read-side section, which is not left in a loop. -/
def Guarded (s : State) : Act → Prop
  | .rcu (.release i) => (s.rcu.slots i).depth ≤ 1 → s.threads i = []
  | .thread i => ∀ f ∈ (s.threads i).head?, f.Guarded s i
  | _ => True

instance (s : State) : DecidablePred (Guarded s)
  | .rcu (.release i) => inferInstanceAs (Decidable ((s.rcu.slots i).depth ≤ 1 → s.threads i = []))
  | .thread i => inferInstanceAs (Decidable (∀ f ∈ (s.threads i).head?, f.Guarded s i))
  | .rcu (.claimSlot _) | .rcu (.allocSlot _) | .rcu (.acquire _) | .rcu (.exitThread _)
  | .rcu (.reader _ _) | .rcu .acquireUnslotted | .rcu (.releaseUnslotted _)
  | .rcu (.setRouterFull _ _ _) | .rcu (.hotReloadStop _ _) | .rcu (.waitGracePeriod _)
  | .rcu (.worker _ _) | .call _ _ | .writer _ _ | .trigger _ _ | .dispatchRequest _ => .isTrue trivial

theorem init_safe (router : Option RouterId) : Safe (init router) := by
  refine ⟨0, ⟨fun _ _ => rfl, by rintro ⟨⟩⟩, reloadMgrInit_slots router, by rintro _ ⟨⟩, by rintro _ _ ⟨⟩,
    by rintro _ _ _ ⟨⟩, by rintro _ _ _ ⟨⟩, ?_, ?_⟩
  · rintro a (ha | ha) <;> cases ha
  · rintro i a ⟨k, hk⟩
    cases hk

theorem WriterPc.outside_spec {pc : WriterPc} (h : pc.outside = true) :
    pc.fresh = none ∧ pc.retiring = none ∧ ∀ t old new, pc ≠ .store t old new := by
  cases pc with
  | idle | lock => exact ⟨rfl, rfl, by simp⟩
  | _ => cases h

theorem Guarded.stay {s : State} (hok : Guarded s (.rcu a)) (hen : s.enabled a = true)
    (hb : s.Looping i b) : s.rcu.leaves i a = false := by
  obtain ⟨k, hk⟩ := hb
  cases a with
  | release j =>
    by_cases hij : j = i
    · subst hij
      by_cases hd : (s.rcu.slots j).depth ≤ 1
      · rw [hok hd] at hk
        cases hk
      · simp [Reload.State.leaves, hd]
    · simp [Reload.State.leaves, hij]
  | exitThread j =>
    by_cases hij : j = i
    · subst hij
      rw [List.isEmpty_iff.1 hen] at hk
      cases hk
    · simp [Reload.State.leaves, hij]
  | _ => rfl

section Inv

variable {s s' : State} (h : Inv s w pc)
include h

theorem Inv.not_freed (ha : s.Looping i a) : a ∉ s.freed := by
  rcases (h.looping i a ha).2 with ⟨t, ht⟩ | rfl | ⟨rfl, -⟩
  · exact (h.published t a ht).2
  · exact (h.unpublished a (.inr rfl)).2.1
  · exact (h.unpublished a (.inr rfl)).2.1

theorem Inv.rcu (hs : Reload.step s.rcu a = some r)
    (hstay : ∀ i b, s.Looping i b → s.rcu.leaves i a = false) : Inv { s with rcu := r } w pc := by
  refine { h with slots := h.slots.step hs, looping := fun i b hb => ?_ }
  obtain ⟨hin, hplace⟩ := h.looping i b hb
  have hstay := hstay i b hb
  refine ⟨(step_inside h.slots hin hstay hs).1, hplace.imp_right (.imp_right ?_)⟩
  exact .imp_right fun hawait => step_awaits h.slots hin hstay hawait hs

theorem Inv.frames (hloop : ∀ a k, .loop a k ∈ fs → s.Looping i a ∨
    (s.rcu.slots i).inside = true ∧ ∃ t, s.hooks t = some a) : Inv (s.frames i fs) w pc := by
  refine { h with looping := fun j a ha => ?_ }
  obtain ⟨k, hk⟩ := ha
  rcases update_cases (Frame.loop a k ∈ ·) hk with ⟨rfl, hnew⟩ | ⟨-, hk⟩
  · rcases hloop a k hnew with ha | ⟨hin, ht⟩
    · exact h.looping j a ha
    · exact ⟨hin, .inl ht⟩
  · exact h.looping j a ⟨k, hk⟩

theorem Inv.threadStep (hok : Guarded s (.thread i)) (hs : threadStep s i = some s') : Inv s' w pc := by
  unfold Hooks.threadStep at hs
  generalize hfs : s.threads i = l at hs
  cases l with
  | nil => cases hs
  | cons f fs =>
    have hin : ∀ a k, .loop a k ∈ fs → s.Looping i a := by
      intro a k hk
      exact ⟨k, by rw [hfs]; exact mem_cons_of_mem _ hk⟩
    cases f with
    | load type =>
      dsimp only at hs
      cases ht : s.hooks type with
      | none =>
        rw [ht] at hs
        cases hs
        exact h.frames fun a k hk => .inl (hin a k hk)
      | some arr =>
        rw [ht] at hs
        cases hs
        refine h.frames fun a k hk => ?_
        split at hk
        · exact .inl (hin a k hk)
        · rcases mem_cons.1 hk with hk | hk
          · cases hk
            have hguard := hok (.load type) (by rw [hfs]; rfl)
            exact .inr ⟨hguard (by rw [ht]; rfl), type, ht⟩
          · exact .inl (hin a k hk)
    | loop arr k =>
      cases hs
      refine h.frames fun a k' hk => .inl ?_
      split at hk
      · rcases mem_cons.1 hk with hk | hk
        · cases hk
          exact ⟨k, by rw [hfs]; exact mem_cons_self⟩
        · exact hin a k' hk
      · exact hin a k' hk
    | acquire =>
      obtain ⟨rcu, hrcu, rfl⟩ := map_eq_some_iff.1 hs
      have hframes : Inv (s.frames i fs) w pc := h.frames fun a k hk => .inl (hin a k hk)
      exact hframes.rcu hrcu (a := .acquire i) fun _ _ _ => rfl

theorem Inv.placed (hret : pc.retiring = none) (ha : s.Looping i a) :
    (s.rcu.slots i).inside = true ∧ ∃ t, s.hooks t = some a := by
  obtain ⟨hin, ht | rfl | ⟨rfl, -⟩⟩ := h.looping i a ha
  · exact ⟨hin, ht⟩
  · cases hret
  · cases hret

theorem Inv.goto (hret : pc.retiring = none) (hfresh : pc'.fresh = none) (hretiring : pc'.retiring = none)
    (hold : ∀ t old new, pc' = .store t old new → s.hooks t = old) : Inv s k pc' := by
  refine { h with
    replaces := hold
    unpublished := ?_
    looping := fun i a ha => (h.placed hret ha).imp_right .inl }
  rw [hfresh, hretiring]
  rintro a (ha | ha) <;> cases ha

end Inv

section

variable {s s' : State}

theorem Inv.alloc (h : Inv s w (.load c)) :
    Inv { s with allocated := s.allocated + 1 } w
      (.store c.type (s.hooks c.type) (some s.allocated)) := by
  refine ⟨h.slots, ?_, ?_, h.distinct, ?_, ?_, fun i a ha => (h.placed rfl ha).imp_right .inl⟩
  · exact fun a ha => Nat.lt_succ_of_lt (h.known a ha)
  · exact fun t a ha => ⟨Nat.lt_succ_of_lt (h.published t a ha).1, (h.published t a ha).2⟩
  · rintro t old new ⟨⟩
    rfl
  · rintro a (⟨⟨⟩⟩ | ⟨⟨⟩⟩)
    refine ⟨Nat.lt_succ_self _, fun hmem => Nat.lt_irrefl _ (h.known _ hmem), fun t ht => ?_⟩
    exact Nat.lt_irrefl _ (h.published t _ ht).1

theorem Inv.store (h : Inv s w (.store type old new)) :
    Inv { s with hooks := update s.hooks type new } w (old.elim .unlock .advance) := by
  have hold := h.replaces type old new rfl
  have hnew : ∀ a, new = some a → a < s.allocated ∧ a ∉ s.freed ∧ ∀ t, s.hooks t ≠ some a :=
    fun a ha => h.unpublished a (.inl ha)
  have hcases : ∀ t a, update s.hooks type new t = some a →
      t = type ∧ new = some a ∨ t ≠ type ∧ s.hooks t = some a :=
    fun t a => update_cases (· = some a)
  refine ⟨h.slots, h.known, ?_, ?_, ?_, ?_, ?_⟩
  · intro t a ha
    rcases hcases t a ha with ⟨-, ha⟩ | ⟨-, ha⟩
    · exact ⟨(hnew a ha).1, (hnew a ha).2.1⟩
    · exact h.published t a ha
  · intro t t' a ha ha'
    rcases hcases t a ha with ⟨ht, hn⟩ | ⟨-, ht⟩ <;>
      rcases hcases t' a ha' with ⟨ht', hn'⟩ | ⟨-, ht'⟩
    · exact ht.trans ht'.symm
    · exact absurd ht' ((hnew a hn).2.2 t')
    · exact absurd ht ((hnew a hn').2.2 t)
    · exact h.distinct t t' a ht ht'
  · intro t old' new' heq
    cases old <;> cases heq
  · intro a ha
    cases old with
    | none => rcases ha with ha | ha <;> cases ha
    | some o =>
      obtain rfl : o = a := by
        rcases ha with ha | ha <;> cases ha
        rfl
      obtain ⟨hlt, hfreed⟩ := h.published type o hold
      refine ⟨hlt, hfreed, fun t ht => ?_⟩
      rcases hcases t o ht with ⟨-, ht⟩ | ⟨hne, ht⟩
      · exact (hnew o ht).2.2 type hold
      · exact hne (h.distinct t type o ht hold)
  · intro i a ha
    obtain ⟨hin, t, ht⟩ := h.placed rfl ha
    refine ⟨hin, ?_⟩
    by_cases htype : t = type
    · rw [htype, hold] at ht
      exact .inr (.inl (by rw [ht]; rfl))
    · exact .inl ⟨t, (update_of_ne htype ..).trans ht⟩

theorem Inv.advance (h : Inv s w (.advance old)) : Inv { s with
      rcu := Reload.State.goto { s.rcu with globalEpoch := s.rcu.globalEpoch + 1 } w .graceEpoch } w
    (.wait old) := by
  refine { h with slots := h.slots.frame rfl rfl (Nat.le_succ _), replaces := by simp, looping := ?_ }
  intro i a ha
  obtain ⟨hin, ht | hpc | ⟨hpc, -⟩⟩ := h.looping i a ha
  · exact ⟨hin, .inl ht⟩
  · cases hpc
    refine ⟨hin, .inr (.inr ⟨rfl, ?_⟩)⟩
    rw [Reload.State.goto_self]
    trivial
  · cases hpc

theorem Inv.free (h : Inv s w (.wait old)) (hidle : s.rcu.workers w = .idle) :
    Inv { s with freed := old :: s.freed } w .unlock := by
  obtain ⟨hlt, hfreed, hun⟩ := h.unpublished old (.inr rfl)
  refine ⟨h.slots, forall_mem_cons.2 ⟨hlt, h.known⟩, ?_, h.distinct, by simp, ?_, ?_⟩
  · intro t a ha
    obtain ⟨hlt', hnot⟩ := h.published t a ha
    refine ⟨hlt', fun hmem => ?_⟩
    rcases mem_cons.1 hmem with rfl | hmem
    · exact hun t ha
    · exact hnot hmem
  · rintro a (ha | ha) <;> cases ha
  · intro i a ha
    obtain ⟨hin, ht | hpc | ⟨-, hawait⟩⟩ := h.looping i a ha
    · exact ⟨hin, .inl ht⟩
    · cases hpc
    · rw [hidle] at hawait
      exact hawait.elim

theorem Alone.eq (h : Alone s w) (hk : (s.writers k).outside = false) : k = w := by
  by_contra hne
  rw [h.others k hne] at hk
  cases hk

theorem Alone.safe (h : Alone s w) (hw : s'.writers = update s.writers w pc)
    (hm : pc.outside = false → s'.mutex = some w) (hinv : Inv s' w pc) : Safe s' := by
  refine ⟨w, ⟨fun k hk => ?_, ?_⟩, ?_⟩
  · rw [hw, update_of_ne hk]
    exact h.others k hk
  · rwa [hw, update_self]
  · rwa [hw, update_self]

theorem Alone.all_outside (h : Alone s w) (hfree : s.mutex = none) (k : Nat) :
    (s.writers k).outside = true := by
  apply Bool.of_not_eq_false
  intro hk
  have hm := h.mutex (h.eq hk ▸ hk)
  rw [hfree] at hm
  cases hm

theorem Safe.writerStep (h : Safe s) (hs : writerStep s k ok = some s') : Safe s' := by
  obtain ⟨w, halone, h⟩ := h
  have hinside : (s.writers k).outside = false → k = w ∧ s.mutex = some w := by
    intro hk
    obtain rfl := halone.eq hk
    exact ⟨rfl, halone.mutex hk⟩
  unfold Hooks.writerStep at hs
  generalize hpc : s.writers k = pc at hs hinside
  cases pc with
  | idle => cases hs
  | lock c =>
    obtain ⟨hfree, rfl⟩ := of_enabled hs
    have hout := halone.all_outside hfree
    refine Alone.safe (w := k) ⟨fun j _ => hout j, fun hk => ?_⟩ rfl (fun _ => rfl)
      { h.goto (WriterPc.outside_spec (hout w)).2.1 rfl rfl (by simp) with }
    rw [hout k] at hk
    cases hk
  | load c =>
    obtain ⟨rfl, hm⟩ := hinside rfl
    rw [hpc] at h
    have hunlock : Safe (s.goto k .unlock) :=
      halone.safe rfl (fun _ => hm) { h.goto rfl rfl rfl (by simp) with }
    dsimp only at hs
    split at hs
    · cases hs
      exact hunlock
    · cases hs
      refine halone.safe rfl (fun _ => hm) { h.goto rfl rfl rfl ?_ with }
      rintro t old new ⟨⟩
      rfl
    · split at hs <;> cases hs
      · exact halone.safe rfl (fun _ => hm) { h.alloc with }
      · exact hunlock
  | store type old new =>
    cases hs
    obtain ⟨rfl, hm⟩ := hinside rfl
    rw [hpc] at h
    exact halone.safe rfl (fun _ => hm) { h.store with }
  | advance old =>
    cases hs
    obtain ⟨rfl, hm⟩ := hinside rfl
    rw [hpc] at h
    exact halone.safe rfl (fun _ => hm) { h.advance with }
  | wait old =>
    obtain ⟨hidle, rfl⟩ := of_enabled hs
    obtain ⟨rfl, hm⟩ := hinside rfl
    rw [hpc] at h
    exact halone.safe rfl (fun _ => hm) { h.free hidle with }
  | unlock =>
    cases hs
    obtain ⟨rfl, -⟩ := hinside rfl
    rw [hpc] at h
    exact halone.safe rfl (by rintro ⟨⟩) { h.goto rfl rfl rfl (by simp) with }

theorem Safe.call (h : Safe s) (hk : s.writers k = .idle) : Safe (s.goto k (.lock c)) := by
  obtain ⟨w, halone, h⟩ := h
  by_cases hkw : k = w
  · subst hkw
    rw [hk] at h
    exact halone.safe rfl (by rintro ⟨⟩) { h.goto rfl rfl rfl (by simp) with }
  · have hw : update s.writers k (.lock c) w = s.writers w := update_of_ne (Ne.symm hkw) ..
    refine ⟨w, ⟨?_, ?_⟩, ?_⟩
    · exact (forall_update_iff s.writers fun j u => j ≠ w → u.outside = true).2
        ⟨fun _ => rfl, fun j _ => halone.others j⟩
    · exact fun hin => halone.mutex (hw ▸ hin)
    · exact { hw.symm ▸ h with }

theorem threadStep_frame (hs : threadStep s i = some s') : s'.writers = s.writers ∧ s'.mutex = s.mutex := by
  unfold Hooks.threadStep at hs
  split at hs
  · cases hs
  · split at hs <;> cases hs <;> exact ⟨rfl, rfl⟩
  · cases hs
    exact ⟨rfl, rfl⟩
  · obtain ⟨_, -, rfl⟩ := map_eq_some_iff.1 hs
    exact ⟨rfl, rfl⟩

theorem Safe.step (h : Safe s) (hok : Guarded s a) (hs : step s a = some s') : Safe s' := by
  cases a with
  | rcu a =>
    simp only [Hooks.step, ite_none_right_eq_some, map_eq_some_iff] at hs
    obtain ⟨hen, r, hr, rfl⟩ := hs
    obtain ⟨w, halone, h⟩ := h
    exact ⟨w, ⟨halone.others, halone.mutex⟩, h.rcu hr fun i b hb => hok.stay hen hb⟩
  | call w c =>
    obtain ⟨⟨hw, -⟩, rfl⟩ := of_enabled hs
    exact h.call hw
  | writer w ok => exact h.writerStep hs
  | trigger i type | dispatchRequest i =>
    obtain ⟨-, rfl⟩ := of_enabled hs
    obtain ⟨w, halone, h⟩ := h
    refine ⟨w, ⟨halone.others, halone.mutex⟩, h.frames fun a k hk => .inl ⟨k, ?_⟩⟩
    simpa using hk
  | thread i =>
    obtain ⟨w, halone, h⟩ := h
    obtain ⟨hwriters, hmutex⟩ := threadStep_frame hs
    exact ⟨w, ⟨hwriters ▸ halone.others, hwriters ▸ hmutex ▸ halone.mutex⟩,
      hwriters ▸ h.threadStep hok hs⟩

end

/-- If read-side sections outlast the loops, no array is freed under a loop over it. -/
theorem csilkTriggerHooks_safe (h : hooks.Reachable Guarded s) (ha : s.Looping i a) : a ∉ s.freed := by
  have hsafe : Safe s := h.invariant (fun s hs => by obtain ⟨router, rfl⟩ := hs; exact init_safe router)
    (fun s a s' hsafe hok hs => hsafe.step hok hs)
  obtain ⟨w, -, hinv⟩ := hsafe
  exact hinv.not_freed ha

def asyncEndActs : List Act :=
  [.dispatchRequest 0, .thread 0, .rcu (.claimSlot 0), .rcu (.reader 0 true), .rcu (.reader 0 true),
    .thread 0] ++ List.replicate 4 (.rcu (.reader 0 true)) ++
    .call 1 (.addHook .requestEnd 7) :: List.replicate 4 (.writer 1 true) ++
    [.trigger 0 .requestEnd, .thread 0] ++
    .call 1 (.clearHooks .requestEnd) :: List.replicate 4 (.writer 1 true)

theorem csilkTriggerHooks_safe_async :
    ∃ s, hooks.Reachable Guarded s ∧ s.writers 1 = .wait 0 ∧ s.Looping 0 0 ∧ 0 ∉ s.freed := by
  have hrun := hooks.run (p := Guarded) (init none) asyncEndActs ⟨none, rfl⟩ rfl
  refine ⟨_, hrun, rfl, ⟨0, mem_singleton_self (Frame.loop 0 0)⟩, ?_⟩
  exact csilkTriggerHooks_safe hrun (i := 0) ⟨0, mem_singleton_self (Frame.loop 0 0)⟩

theorem reachable_worker (h : hooks.Reachable (fun _ _ => True) s)
    (hrun : rcu.exec (fun _ _ => True) s.rcu (List.replicate n (.worker w true)) = some r) :
    hooks.Reachable (fun _ _ => True) { s with rcu := r } := by
  induction n generalizing s with
  | zero =>
    cases hrun
    exact h
  | succ n ih =>
    obtain ⟨-, t, ht, hrun⟩ := System.exec_cons_some hrun
    refine ih (s := { s with rcu := t }) (h.step (a := Act.rcu (.worker w true)) trivial ?_) hrun
    have hmap : (Reload.step s.rcu (.worker w true)).map (fun r => { s with rcu := r }) =
        some { s with rcu := t } := congrArg (Option.map _) ht
    exact hmap

/-- Thread `0` has loaded the array and not yet acquired the router; a writer waits. -/
def beginActs : List Act :=
  .call 1 (.addHook .requestBegin 7) :: List.replicate 4 (.writer 1 true) ++
    [.dispatchRequest 0, .thread 0] ++
    .call 1 (.removeHook .requestBegin 7) :: List.replicate 4 (.writer 1 true)

/-- The grace period sees no reader, and the array is freed before its first handler. -/
theorem csilkTriggerHooks_frees_looping :
    ∃ s, hooks.Reachable (fun _ _ => True) s ∧ s.threads 0 = [.loop 0 0, .acquire] ∧ 0 ∈ s.freed := by
  obtain ⟨s, hs, hrcu, hthreads, hwriter⟩ : ∃ s, hooks.Reachable (fun _ _ => True) s ∧
      s.rcu = Reload.State.goto { reloadMgrInit none with globalEpoch := 2 } 1 .graceEpoch ∧
      s.threads 0 = [.loop 0 0, .acquire] ∧ s.writers 1 = .wait 0 :=
    ⟨_, (hooks.run (p := fun _ _ => True) (init none) beginActs ⟨none, rfl⟩ rfl), rfl, rfl, rfl⟩
  have hepoch := reachable_worker (n := 1) (w := 1)
    (r := Reload.State.goto { reloadMgrInit none with globalEpoch := 2 } 1 (.graceStatic 2 0)) hs
    (by rw [hrcu]; simp [System.exec, rcu, Reload.step, workerStep, Reload.State.goto])
  have hgrace := reachable_worker hepoch (exec_grace (n := 256) (fun _ => rfl) rfl)
  have hlock := reachable_worker (n := 4) (w := 1)
    (r := Reload.State.goto { reloadMgrInit none with globalEpoch := 2, reclaimLocked := true } 1
      (.reclaim false (.scanStatic 2 0 none))) hgrace
    (by simp [System.exec, rcu, Reload.step, workerStep, tryReclaimStep, Reload.State.goto, reloadMgrInit])
  have hscan := reachable_worker hlock (exec_scan (n := 256) (fun _ => rfl) rfl)
  have hidle := reachable_worker (n := 5) (w := 1)
    (r := Reload.State.goto { reloadMgrInit none with globalEpoch := 2 } 1 .idle) hscan
    (by simp [System.exec, rcu, Reload.step, workerStep, tryReclaimStep, Reload.State.goto, reloadMgrInit,
      afterReclaim])
  have hfree : ∀ r : Reload.State, r.workers 1 = .idle → writerStep { s with rcu := r } 1 true =
        some { s.goto 1 .unlock with rcu := r, freed := 0 :: s.freed } := by
    intro r hr
    simp [writerStep, hwriter, hr, State.goto]
  exact ⟨_, hidle.step (a := Act.writer 1 true) trivial (hfree _ (Reload.State.goto_self _)), hthreads,
    mem_cons_self⟩

end Csilk.Hooks
