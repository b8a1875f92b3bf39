import Csilk.Lib.Transition
import Csilk.Messaging.Wal

namespace Csilk.Messaging.Broker
open Csilk.Lib List

/-- `snapshot` is what `on_mq_async` has detached and not yet delivered. -/
structure State where
  queue : List Msg
  publishedTotal : UInt64
  deliveredTotal : UInt64
  queueDepth : UInt32
  snapshot : List Msg
  enqueued : List Msg
  delivered : List Msg

inductive Act where
  | enqueue (msg : Msg)
  | snapshot
  | deliver

def enqueue (s : State) (msg : Msg) : State :=
  { s with
    queue := s.queue ++ [msg]
    publishedTotal := s.publishedTotal + 1
    queueDepth := s.queueDepth + 1
    enqueued := s.enqueued ++ [msg] }

def detach (s : State) : State := { s with queue := [], queueDepth := 0, snapshot := s.queue }

/-- `on_mq_async` detaches the queue again only after a whole snapshot is delivered. -/
def step (s : State) : Act → Option State
  | .enqueue msg => some (enqueue s msg)
  | .snapshot => if s.snapshot.isEmpty then some (detach s) else none
  | .deliver =>
    match s.snapshot with
    | [] => none
    | msg :: rest =>
      some { s with
        snapshot := rest
        deliveredTotal := s.deliveredTotal + 1
        delivered := s.delivered ++ [msg] }

def start : State := ⟨[], 0, 0, 0, [], [], []⟩

def system : System State Act where
  init := (· = start)
  step := step

structure Conserved (s : State) : Prop where
  order : s.enqueued = s.delivered ++ s.snapshot ++ s.queue
  published : s.publishedTotal = UInt64.ofNat s.enqueued.length
  deliveries : s.deliveredTotal = UInt64.ofNat s.delivered.length
  depth : s.queueDepth = UInt32.ofNat s.queue.length

theorem Conserved.start : Conserved start := ⟨rfl, rfl, rfl, rfl⟩

theorem Conserved.enqueue (h : Conserved s) (msg : Msg) : Conserved (enqueue s msg) where
  order := by
    simp only [Broker.enqueue, h.order, append_assoc]
  published := by
    simp only [Broker.enqueue, h.published, length_append, length_singleton,
      UInt64.ofNat_add]
    rfl
  deliveries := h.deliveries
  depth := by
    simp only [Broker.enqueue, h.depth, length_append, UInt32.ofNat_add]
    rfl

theorem Conserved.detach (h : Conserved s) (hs : s.snapshot = []) : Conserved (detach s) where
  order := by
    simp only [Broker.detach, h.order, hs, append_nil]
  published := h.published
  deliveries := h.deliveries
  depth := rfl

theorem Conserved.step (h : Conserved s) (hs : step s a = some s') : Conserved s' := by
  cases a with
  | enqueue msg =>
    cases hs
    exact h.enqueue msg
  | snapshot =>
    simp only [Broker.step] at hs
    split at hs
    case isTrue hempty =>
      cases hs
      exact h.detach (List.isEmpty_iff.1 hempty)
    case isFalse => cases hs
  | deliver =>
    simp only [Broker.step] at hs
    split at hs
    case h_1 => cases hs
    case h_2 msg rest hsnap =>
      cases hs
      constructor
      · simp only [h.order, hsnap, append_assoc, cons_append, nil_append]
      · exact h.published
      · simp only [h.deliveries, length_append, UInt64.ofNat_add]
        rfl
      · exact h.depth

theorem reachable_conserved (h : system.Reachable (fun _ _ => True) s) : Conserved s := by
  apply h.invariant (P := Conserved)
  · rintro s rfl
    exact Conserved.start
  · intro s a s' hs _ hstep
    exact hs.step hstep

theorem Conserved.depth_exact (h : Conserved s) (hlt : s.queue.length < 2 ^ 32) :
    s.queueDepth.toNat = s.queue.length := by
  rw [h.depth, UInt32.toNat_ofNat', Nat.mod_eq_of_lt hlt]

theorem Conserved.published_eq (h : Conserved s) : s.publishedTotal =
    s.deliveredTotal + UInt64.ofNat s.queue.length + UInt64.ofNat s.snapshot.length := by
  rw [h.published, h.deliveries, h.order, length_append, length_append, UInt64.ofNat_add,
    UInt64.ofNat_add, UInt64.add_assoc, UInt64.add_assoc]
  exact congrArg _ (UInt64.add_comm _ _)

/-- Messages are delivered once each in order, and the counters count them. -/
theorem mqQueue_conserved (h : system.Reachable (fun _ _ => True) s) :
    s.enqueued = s.delivered ++ s.snapshot ++ s.queue ∧
    s.publishedTotal =
      s.deliveredTotal + UInt64.ofNat s.queue.length + UInt64.ofNat s.snapshot.length ∧
    s.queueDepth = UInt32.ofNat s.queue.length ∧
    (s.queue.length < 2 ^ 32 → s.queueDepth.toNat = s.queue.length ∧ s.publishedTotal =
        s.deliveredTotal + s.queueDepth.toUInt64 + UInt64.ofNat s.snapshot.length) := by
  have hc := reachable_conserved h
  refine ⟨hc.order, hc.published_eq, hc.depth, fun hlt => ?_⟩
  have hdepth := hc.depth_exact hlt
  constructor
  · exact hdepth
  · rw [hc.published_eq, ← hdepth]
    congr 2
    exact UInt64.toNat_inj.1 (by simp)

theorem mqQueue_conserved_three : ∃ s, system.Reachable (fun _ _ => True) s ∧
      (s.enqueued = s.delivered ++ s.snapshot ++ s.queue ∧
      s.publishedTotal =
        s.deliveredTotal + UInt64.ofNat s.queue.length + UInt64.ofNat s.snapshot.length ∧
      s.queueDepth = UInt32.ofNat s.queue.length ∧
      (s.queue.length < 2 ^ 32 → s.queueDepth.toNat = s.queue.length ∧ s.publishedTotal =
          s.deliveredTotal + s.queueDepth.toUInt64 + UInt64.ofNat s.snapshot.length)) ∧
      s.delivered.length = 1 ∧ s.snapshot.length = 1 ∧ s.queue.length = 1 := by
  have hrun := system.run (p := fun _ _ => True) start [.enqueue ⟨[1], none, 0⟩,
    .enqueue ⟨[2], none, 0⟩, .snapshot, .deliver, .enqueue ⟨[3], none, 0⟩] rfl rfl
  exact ⟨_, hrun, mqQueue_conserved hrun, rfl, rfl, rfl⟩

theorem enqueue_many (n : Nat) : ∃ s, system.Reachable (fun _ _ => True) s ∧
    s.queue.length = n ∧ s.snapshot = [] ∧ s.delivered = [] := by
  induction n with
  | zero => exact ⟨start, .init rfl, rfl, rfl, rfl⟩
  | succ n ih =>
    obtain ⟨s, hs, hqueue, hsnap, hdel⟩ := ih
    have hnext : system.step s (.enqueue ⟨[1], none, 0⟩) = some (enqueue s ⟨[1], none, 0⟩) := rfl
    refine ⟨_, .step hs trivial hnext, ?_, hsnap, hdel⟩
    rw [enqueue, length_append, hqueue, length_singleton]

/-- After 2^32 calls of `_mq_enqueue` that the loop has not seen, `queue_depth` is zero. -/
theorem queueDepth_wraps : ∃ s, system.Reachable (fun _ _ => True) s ∧
    s.queue.length = 2 ^ 32 ∧ s.queueDepth = 0 ∧
    s.publishedTotal ≠
      s.deliveredTotal + s.queueDepth.toUInt64 + UInt64.ofNat s.snapshot.length := by
  obtain ⟨s, hs, hqueue, hsnap, hdel⟩ := enqueue_many (2 ^ 32)
  have hc := reachable_conserved hs
  have hdepth : s.queueDepth = 0 := by
    rw [hc.depth, hqueue]
    decide
  refine ⟨s, hs, hqueue, hdepth, ?_⟩
  rw [hc.published_eq, hc.deliveries, hdepth, hqueue, hsnap, hdel]
  decide

end Csilk.Messaging.Broker
