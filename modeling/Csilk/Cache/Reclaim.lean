import Csilk.Cache.Chains

namespace Csilk.Cache
open Csilk.Lib Function

def tagged (heap : Heap Node) (p : Option Nat) (epoch : Nat) : List (Nat × Nat) :=
  (heap.addrs p).map (·, epoch)

def ReclaimPc.recs : ReclaimPc → List (Nat × Nat)
  | .sweep _ recs kept => recs ++ kept
  | .pushBack kept _ => kept
  | _ => []

def After.retiring (heap : Heap Node) : After → List (Nat × Nat)
  | .retire n true epoch => tagged heap (some n) epoch
  | .retire n false epoch => [(n, epoch)]
  | _ => []

def Pc.retiring (heap : Heap Node) : Pc → List (Nat × Nat)
  | .exitDepth after | .exitActive after => after.retiring heap
  | .retireNext n epoch => tagged heap (some n) epoch
  | .retireLoad n epoch rest | .retireCas n epoch rest _ => (n, epoch) :: tagged heap rest epoch
  | .retireCount epoch rest => tagged heap rest epoch
  | .reclaim epoch rest pc => tagged heap rest epoch ++ pc.recs
  | _ => []

def ReclaimPc.scanned : ReclaimPc → Option (Set Nat × Option Nat)
  | .scan _ i low => some ({j | j < i}, low)
  | .detach limit => some (Set.univ, some limit)
  | _ => none

def Pc.scanned : Pc → Option (Set Nat × Option Nat)
  | .reclaim _ _ pc => pc.scanned
  | _ => none

def ReclaimPc.sweeping : ReclaimPc → Option (Set (Nat × Nat) × Nat)
  | .sweep limit recs _ => some ({x | x ∈ recs}, limit)
  | _ => none

def Pc.sweeping : Pc → Option (Set (Nat × Nat) × Nat)
  | .reclaim _ _ pc => pc.sweeping
  | _ => none

def Thread.reaches (heap : Heap Node) (thread : Thread) : Set Nat :=
  {n | ∃ h ∈ thread.heads, n ∈ heap.addrs (some h)}

def Store.epochs (s : Store) (threads : Nat → Thread) : Epochs Nat Nat Nat where
  epoch := s.globalEpoch
  active := fun t => (s.slots t).active
  held := fun t => (threads t).reaches s.heap
  linked := {n | ∃ b, n ∈ s.heap.addrs (s.buckets b)}
  retired := {x | x ∈ s.retired} ∪ {x | ∃ t, x ∈ (threads t).pc.retiring s.heap}
  freed := {n | n ∈ s.freed}
  scan := fun t => (threads t).pc.scanned
  sweep := fun t => (threads t).pc.sweeping

theorem Pc.sweeping_subset (h : Pc.sweeping pc = some (L, lim)) (heap : Heap Node) :
    ∀ x ∈ L, x ∈ pc.retiring heap := by
  unfold Pc.sweeping at h
  split at h
  · unfold ReclaimPc.sweeping at h
    split at h <;> cases h
    intro x hx
    exact List.mem_append_right _ (List.mem_append_left _ hx)
  · cases h

/-- A thread counts in its slot's depth between `reader_enter` and `reader_exit`. -/
def Pc.inside : Pc → Bool
  | .enterEpoch _ | .enterActive _ _ | .loadHead _ | .walk _ _ _ | .clone _ _ _ _ _
  | .cas _ _ _ _ _ | .exitDepth _ => true
  | _ => false

def Announced (epoch : Nat) (slot : Slot) (thread : Thread) : Prop :=
  match thread.pc with
  | .enterEpoch _ => thread.heads = []
  | .enterActive _ e => thread.heads = [] ∧ e ≠ 0 ∧ e ≤ epoch
  | .exitActive _ => thread.views = []
  | _ => (slot.depth = 0 → thread.heads = []) ∧ (0 < slot.depth → slot.active ≠ 0)

def Pc.head : Pc → Option Nat
  | .walk _ head _ | .clone _ head _ _ _ => some head
  | .cas _ head _ _ _ => head
  | _ => none

structure ThreadOk (epoch : Nat) (slot : Slot) (heap : Heap Node) (thread : Thread) : Prop where
  depth : slot.depth = thread.views.length + thread.pc.inside.toNat
  announced : Announced epoch slot thread
  head : ∀ n, thread.pc.head = some n → n ∈ thread.heads
  views : ∀ n ∈ thread.views, n ∈ thread.reaches heap

structure EpochsOk (s : Store) (threads : Nat → Thread) : Prop where
  safe : (s.epochs threads).Safe 1
  known : ∀ x ∈ (s.epochs threads).retired, x.1 < s.heap.size
  known_freed : ∀ n ∈ s.freed, n < s.heap.size

structure Core (c : Config) (s : Store) (threads : Nat → Thread) : Prop where
  epochs : EpochsOk s threads
  epoch : s.globalEpoch ≠ 0
  thread : ∀ t, ThreadOk s.globalEpoch (s.slots t) s.heap (threads t)
  unused : ∀ t, c.threads ≤ t → (threads t).pc = .idle ∧ (threads t).heads = []

structure Inv (c : Config) (s : State) : Prop extends Core c s.store s.threads where
  wf : Wf c s.view

structure Owned (c : Config) : Prop where
  slotOf : ∀ t, c.slotOf t = t
  threads : c.threads ≤ maxReaders

/-- No `try_reclaim` stands between its first look at a slot and its exchange of the retired list.
-/
def State.NoScan (s : State) : Prop :=
  ∀ t S low, (s.threads t).pc.scanned = some (S, low) → S = ∅

/-- Nodes are unlinked only outside of any scan, with an epoch at most one behind. -/
def Timely (c : Config) (s : State) : Act → Prop
  | .thread t true =>
    match (s.threads t).pc with
    | .cas w head _ _ (some _) =>
      s.buckets (c.bucketOf w.key) = head → s.globalEpoch ≤ w.epoch + 1 ∧ s.NoScan
    | _ => True
  | _ => True

theorem mvccCacheNew_inv (c : Config) : Inv c mvccCacheNew := by
  refine ⟨⟨⟨Epochs.safe_initial ?_ ?_ ?_ ?_ ?_, ?_, ?_⟩, Nat.one_ne_zero, ?_, fun t _ => ⟨rfl, rfl⟩⟩,
    mvccCacheNew_wf c⟩
  · exact fun i => Nat.zero_le _
  · intro i
    ext n
    simp [mvccCacheNew, Store.epochs, Thread.reaches]
  · ext x
    simp [mvccCacheNew, Store.epochs, Pc.retiring]
  · ext n
    simp [mvccCacheNew, Store.epochs]
  · exact fun k => rfl
  · intro x hx
    simp [mvccCacheNew, Store.epochs, Pc.retiring] at hx
  · rintro _ ⟨⟩
  · exact fun t => ⟨rfl, ⟨fun _ => rfl, fun h => absurd h (Nat.lt_irrefl 0)⟩, (by rintro _ ⟨⟩), (by rintro _ ⟨⟩)⟩

section Step
variable {s : Store} {threads : Nat → Thread} {u : Thread}
  {scan : Nat → Option (Set Nat × Option Nat)} {sweep : Nat → Option (Set (Nat × Nat) × Nat)}

theorem sweep_subset_retired (s : Store) (threads : Nat → Thread)
    (hk : (threads k).pc.sweeping = some (L, lim)) : L ⊆ (s.epochs threads).retired :=
  fun x hx => .inr ⟨k, Pc.sweeping_subset hk s.heap x hx⟩

section Move

variable {slots : Nat → Slot} {retired : List (Nat × Nat)} (h : EpochsOk s threads) (hepoch : s.globalEpoch ≤ epoch)
  (hactive : ∀ i, (slots i).active = (s.slots i).active) (hheads : u.heads ⊆ (threads t).heads)
include h hepoch hactive hheads

section

variable (hretired : ∀ x, x ∈ retired ∨ x ∈ u.pc.retiring s.heap →
    x ∈ s.retired ∨ x ∈ (threads t).pc.retiring s.heap)
include hretired

theorem EpochsOk.moveTo (hsafe : Epochs.Safe 1 { s.epochs threads with scan := scan, sweep := sweep })
    (hscan : ∀ S low, u.pc.scanned = some (S, low) → ∃ S', scan t = some (S', low) ∧ S ⊆ S')
    (hscans : ∀ k, k ≠ t → scan k = (threads k).pc.scanned)
    (hsweep : ∀ L lim, u.pc.sweeping = some (L, lim) → ∃ L', sweep t = some (L', lim) ∧ L ⊆ L')
    (hsweeps : ∀ k, k ≠ t → sweep k = (threads k).pc.sweeping) :
    EpochsOk { s with globalEpoch := epoch, slots := slots, retired := retired }
      (update threads t u) := by
  have hold : ∀ x, x ∈ s.retired ∨ x ∈ (threads t).pc.retiring s.heap →
      x ∈ (s.epochs threads).retired :=
    fun x hx => hx.imp_right fun hx => ⟨t, hx⟩
  have hsub : ∀ x ∈ (Store.epochs { s with globalEpoch := epoch, slots := slots, retired := retired }
      (update threads t u)).retired, x ∈ (s.epochs threads).retired := by
    rintro x (hx | ⟨k, hx⟩)
    · exact hold x (hretired x (.inl hx))
    · rcases update_cases (fun u : Thread => x ∈ u.pc.retiring s.heap) hx with ⟨-, hx⟩ | ⟨-, hx⟩
      · exact hold x (hretired x (.inr hx))
      · exact .inr ⟨k, hx⟩
  refine ⟨hsafe.below ⟨hepoch, hactive, ?_, rfl, ?_, Set.Subset.refl _,
    Epochs.below_update (fun u : Thread => u.pc.scanned) _ hscan hscans, ?_⟩,
    fun x hx => h.known x (hsub x hx), h.known_freed⟩
  · rintro i n ⟨j, hj, hn⟩
    rcases update_cases (fun u : Thread => j ∈ u.heads) hj with ⟨hi, hj⟩ | ⟨-, hj⟩
    · exact ⟨j, hi ▸ hheads hj, hn⟩
    · exact ⟨j, hj, hn⟩
  · exact fun n e hx => ⟨e, Nat.le_refl e, hsub _ hx⟩
  · exact fun k L lim hk => ⟨sweep_subset_retired _ _ hk,
      Epochs.below_update (fun u : Thread => u.pc.sweeping) _ hsweep hsweeps k L lim hk⟩

theorem EpochsOk.move (hscan : u.pc.scanned = none)
    (hsweep : ∀ L lim, u.pc.sweeping = some (L, lim) →
      ∃ L', (threads t).pc.sweeping = some (L', lim) ∧ L ⊆ L') :
    EpochsOk { s with globalEpoch := epoch, slots := slots, retired := retired }
      (update threads t u) := by
  refine h.moveTo hepoch hactive hheads hretired h.safe ?_ (fun _ _ => rfl) hsweep fun _ _ => rfl
  rw [hscan]
  rintro _ _ ⟨⟩

end

theorem EpochsOk.moveQuiet
    (hretiring : ∀ x ∈ u.pc.retiring s.heap, x ∈ (threads t).pc.retiring s.heap)
    (hscan : u.pc.scanned = none) (hsweep : u.pc.sweeping = none) :
    EpochsOk { s with globalEpoch := epoch, slots := slots } (update threads t u) := by
  refine h.move hepoch hactive hheads (fun x hx => hx.imp_right (hretiring x)) hscan ?_
  rw [hsweep]
  rintro _ _ ⟨⟩

end Move

theorem Announced.mono (h : Announced epoch slot thread) (he : epoch ≤ epoch') :
    Announced epoch' slot thread := by
  unfold Announced at h ⊢
  cases hpc : thread.pc with
  | enterActive job e =>
    simp only [hpc] at h
    exact ⟨h.1, h.2.1, le_trans h.2.2 he⟩
  | _ => simpa only [hpc] using h

theorem ThreadOk.extend (h : ThreadOk epoch slot heap thread) (he : epoch ≤ epoch')
    (hext : heap.Extends heap') (hheads : ∀ i ∈ thread.heads, i < heap.size) :
    ThreadOk epoch' slot heap' thread := by
  refine ⟨h.depth, h.announced.mono he, h.head, fun n hn => ?_⟩
  obtain ⟨i, hi, hmem⟩ := h.views n hn
  refine ⟨i, hi, ?_⟩
  rwa [hext.addrs fun j hj => by cases hj; exact hheads i hi]

end Step

section Inv
variable {s : State} {s' : Store} {thread : Thread}

theorem Inv.withThread (h : Inv c s) (ht : t < c.threads)
    (hepochs : EpochsOk s' (update s.threads t thread)) (hext : s.heap.Extends s'.heap)
    (hepoch : s.globalEpoch ≤ s'.globalEpoch) (hslots : ∀ i, i ≠ t → s'.slots i = s.slots i)
    (hthread : ThreadOk s'.globalEpoch (s'.slots t) s'.heap thread) :
    Core c s' (update s.threads t thread) := by
  refine ⟨hepochs, ne_of_gt (lt_of_lt_of_le (Nat.pos_of_ne_zero h.epoch) hepoch), ?_, ?_⟩
  · refine (forall_update_iff s.threads fun t' thread =>
      ThreadOk s'.globalEpoch (s'.slots t') s'.heap thread).2 ⟨hthread, fun t' htt => ?_⟩
    rw [hslots t' htt]
    exact (h.thread t').extend hepoch hext (h.wf.heads t')
  · intro t' ht'
    rw [update_of_ne (by rintro rfl; exact absurd ht (not_lt.2 ht'))]
    exact h.unused t' ht'

theorem Inv.lt_threads (h : Inv c s) (hpc : (s.threads t).pc ≠ .idle) : t < c.threads := by
  by_contra hlt
  exact hpc (h.unused t (not_lt.1 hlt)).1

theorem Inv.lt_threads_of_pc (h : Inv c s) (hpc : (s.threads t).pc = pc) (hne : pc ≠ .idle) :
    t < c.threads :=
  h.lt_threads (hpc.trans_ne hne)

theorem Inv.lt_threads_of_view (h : Inv c s) (hn : n ∈ (s.threads t).views) : t < c.threads := by
  by_contra hlt
  obtain ⟨i, hi, -⟩ := (h.thread t).views n hn
  rw [(h.unused t (not_lt.1 hlt)).2] at hi
  cases hi

/-- Locations where the slot of a thread that counts in it is announced. -/
def Pc.plain : Pc → Bool
  | .enterEpoch _ | .enterActive _ _ | .exitActive _ => false
  | _ => true

theorem announced_plain (h : thread.pc.plain = true) : Announced epoch slot thread ↔
    (slot.depth = 0 → thread.heads = []) ∧ (0 < slot.depth → slot.active ≠ 0) := by
  unfold Announced
  cases hpc : thread.pc with
  | enterEpoch | enterActive | exitActive =>
    rw [hpc] at h
    cases h
  | _ => exact Iff.rfl

structure Quiet (heap : Heap Node) (old new : Pc) : Prop where
  plain : old.plain = true ∧ new.plain = true
  inside : new.inside = old.inside
  head : ∀ n, new.head = some n → old.head = some n
  retiring : ∀ x ∈ new.retiring heap, x ∈ old.retiring heap
  scanned : new.scanned = none
  sweeping : new.sweeping = none

theorem Quiet.of_nil (hplain : Pc.plain old = true ∧ Pc.plain new = true)
    (hinside : new.inside = old.inside) (hhead : new.head = none) (hretiring : new.retiring heap = [])
    (hscan : new.scanned = none) (hsweep : new.sweeping = none) : Quiet heap old new := by
  refine ⟨hplain, hinside, ?_, ?_, hscan, hsweep⟩
  · simp [hhead]
  · simp [hretiring]

theorem ThreadOk.quiet {thread' : Thread} (h : ThreadOk epoch slot heap thread)
    (hplain : thread.pc.plain = true ∧ thread'.pc.plain = true)
    (hinside : thread'.pc.inside = thread.pc.inside)
    (hhead : ∀ n, thread'.pc.head = some n → thread.pc.head = some n)
    (hviews : thread'.views = thread.views) (hheads : thread'.heads = thread.heads) :
    ThreadOk epoch slot heap thread' := by
  refine ⟨?_, ?_, ?_, ?_⟩
  · rw [hviews, hinside]
    exact h.depth
  · rw [announced_plain hplain.2, hheads]
    exact (announced_plain hplain.1).1 h.announced
  · intro n hn
    rw [hheads]
    exact h.head n (hhead n hn)
  · rw [hviews, Thread.reaches, hheads]
    exact h.views

theorem Inv.quiet (h : Inv c s) (ht : t < c.threads)
    (hviews : thread.views = (s.threads t).views) (hheads : thread.heads = (s.threads t).heads)
    (hq : Quiet s.heap (s.threads t).pc thread.pc) : Core c s.store (update s.threads t thread) :=
  h.withThread ht
    (h.epochs.moveQuiet le_rfl (fun _ => rfl) (fun _ hn => hheads ▸ hn) hq.retiring hq.scanned
      hq.sweeping)
    (.refl _) le_rfl (fun _ _ => rfl)
    ((h.thread t).quiet hq.plain hq.inside hq.head hviews hheads)

end Inv

end Csilk.Cache
