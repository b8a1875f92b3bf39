import Csilk.Lib.Transition

namespace Csilk.Breaker
open Csilk.Lib

structure Config where
  failureThreshold : Int
  recoveryTimeoutMs : Int

inductive Status where
  | closed
  | opened
  | halfOpen
deriving DecidableEq

/-- `csilk_circuit_breaker_t` without its mutex, which every call holds. -/
structure CircuitBreaker where
  state : Status
  consecutiveFailures : Nat
  failureThreshold : Nat
  recoveryTimeoutMs : Nat
  lastStateChangeUs : Nat

def positive (field : Config → Int) (config : Option Config) (otherwise : Nat) : Nat :=
  config.elim otherwise fun c => if 0 < field c then (field c).toNat else otherwise

def csilkCircuitBreakerNew (config : Option Config) (now : Nat) : CircuitBreaker where
  state := .closed
  consecutiveFailures := 0
  failureThreshold := positive Config.failureThreshold config 5
  recoveryTimeoutMs := positive Config.recoveryTimeoutMs config 5000
  lastStateChangeUs := now

inductive Reply where
  | next
  | abort (status : Nat) (body : String)
deriving DecidableEq

def csilkCircuitBreakerMiddleware (cb : CircuitBreaker) (now : Nat) : CircuitBreaker × Reply :=
  if cb.state = .opened then
    if cb.recoveryTimeoutMs ≤ (now - cb.lastStateChangeUs) / 1000 then
      ({ cb with state := .halfOpen, lastStateChangeUs := now }, .next)
    else
      (cb, .abort 503 "\x7b\"error\": \"Service Unavailable: Circuit Breaker is OPEN\"\x7d")
  else (cb, .next)

def csilkCircuitBreakerRecordSuccess (cb : CircuitBreaker) (now : Nat) : CircuitBreaker :=
  if cb.state = .halfOpen then
    { cb with consecutiveFailures := 0, state := .closed, lastStateChangeUs := now }
  else { cb with consecutiveFailures := 0 }

def csilkCircuitBreakerRecordFailure (cb : CircuitBreaker) (now : Nat) : CircuitBreaker :=
  if cb.failureThreshold ≤ cb.consecutiveFailures + 1 then
    { cb with
      consecutiveFailures := cb.consecutiveFailures + 1
      state := .opened
      lastStateChangeUs := now }
  else { cb with consecutiveFailures := cb.consecutiveFailures + 1 }

inductive Call where
  | request
  | success
  | failure
deriving DecidableEq

def Call.run (cb : CircuitBreaker) (now : Nat) : Call → CircuitBreaker
  | .request => (csilkCircuitBreakerMiddleware cb now).1
  | .success => csilkCircuitBreakerRecordSuccess cb now
  | .failure => csilkCircuitBreakerRecordFailure cb now

/-- `openedAt` records the last transition to OPEN, `failures` the failures since the last success
or entry to CLOSED. -/
structure State where
  cb : CircuitBreaker
  now : Nat
  openedAt : Option Nat
  failures : Nat

def State.step (s : State) (a : Call × Nat) : Option State :=
  if s.now ≤ a.2 then
    some {
      cb := a.1.run s.cb a.2
      now := a.2
      openedAt :=
        if s.cb.state ≠ .opened ∧ (a.1.run s.cb a.2).state = .opened then some a.2 else s.openedAt
      failures :=
        if a.1 = .success ∨ s.cb.state ≠ .closed ∧ (a.1.run s.cb a.2).state = .closed then 0
        else if a.1 = .failure then s.failures + 1
        else s.failures }
  else none

def breaker (config : Option Config) : System State (Call × Nat) where
  init s := ∃ now, s = ⟨csilkCircuitBreakerNew config now, now, none, 0⟩
  step := State.step

/-- No result is recorded while OPEN or with the counter at `INT_MAX`. -/
def Timely (s : State) (a : Call × Nat) : Prop :=
  a.1 = .request ∨ s.cb.state ≠ .opened ∧ s.cb.consecutiveFailures < 2147483647

instance (s : State) (a : Call × Nat) : Decidable (Timely s a) :=
  inferInstanceAs (Decidable (_ ∨ _))

structure Inv (s : State) : Prop where
  threshold : 0 < s.cb.failureThreshold
  changed : s.cb.lastStateChangeUs ≤ s.now
  counted : s.cb.state = .closed →
    s.cb.consecutiveFailures = s.failures ∧ s.failures < s.cb.failureThreshold
  tripped : s.cb.state ≠ .closed → s.cb.failureThreshold ≤ s.cb.consecutiveFailures
  opened : s.cb.state = .opened → s.openedAt = some s.cb.lastStateChangeUs
  cooled : s.cb.state ≠ .opened → ∀ t, s.openedAt = some t →
    t + 1000 * s.cb.recoveryTimeoutMs ≤ s.now

theorem positive_pos (h : 0 < otherwise) : 0 < positive field config otherwise := by
  cases config with
  | none => exact h
  | some c =>
    rw [positive, Option.elim_some]
    split
    · omega
    · exact h

theorem csilkCircuitBreakerNew_inv (config : Option Config) (now : Nat) :
    Inv ⟨csilkCircuitBreakerNew config now, now, none, 0⟩ where
  threshold := positive_pos (by decide)
  changed := Nat.le_refl _
  counted _ := ⟨rfl, positive_pos (by decide)⟩
  tripped h := absurd rfl h
  opened h := by cases h
  cooled _ t ht := by cases ht

section

variable {s : State} (h : Inv s)
include h

theorem Inv.step (hok : Timely s a) (hs : s.step a = some s') : Inv s' := by
  obtain ⟨hnow, rfl⟩ := of_enabled hs
  obtain ⟨call, now⟩ := a
  obtain ⟨hpos, hchange, hcount, htrip, hopen, hcool⟩ := h
  cases call with
  | request => constructor <;> grind [Call.run, csilkCircuitBreakerMiddleware]
  | success =>
    have hstate := (hok.resolve_left (by simp)).1
    -- HALF_OPEN goes to CLOSED, and CLOSED stays with its counter set back.
    cases hcb : s.cb.state with
    | opened => exact absurd hcb hstate
    | closed | halfOpen => constructor <;> grind [Call.run, csilkCircuitBreakerRecordSuccess]
  | failure =>
    have hstate := (hok.resolve_left (by simp)).1
    constructor <;> grind [Call.run, csilkCircuitBreakerRecordFailure]

theorem Inv.elapsed_iff (hnow : s.now ≤ now) :
    s.cb.recoveryTimeoutMs ≤ (now - s.cb.lastStateChangeUs) / 1000 ↔
      s.cb.lastStateChangeUs + 1000 * s.cb.recoveryTimeoutMs ≤ now := by
  have hchange := h.changed
  omega

theorem Inv.refuses (hnow : s.now ≤ now) (ht : s.openedAt = some t)
    (hearly : now < t + 1000 * s.cb.recoveryTimeoutMs) :
    (csilkCircuitBreakerMiddleware s.cb now).2 ≠ .next := by
  by_cases hstate : s.cb.state = .opened
  · cases ht.symm.trans (h.opened hstate)
    rw [csilkCircuitBreakerMiddleware, if_pos hstate,
      if_neg (mt (h.elapsed_iff hnow).1 (Nat.not_le.2 hearly))]
    simp
  · have hcool := h.cooled hstate t ht
    omega

theorem Inv.probes (hstate : s.cb.state = .opened) (hnow : s.now ≤ now) :
    ∃ t, s.openedAt = some t ∧ (t + 1000 * s.cb.recoveryTimeoutMs ≤ now →
      csilkCircuitBreakerMiddleware s.cb now =
        ({ s.cb with state := .halfOpen, lastStateChangeUs := now }, .next)) := by
  refine ⟨_, h.opened hstate, fun hlate => ?_⟩
  rw [csilkCircuitBreakerMiddleware, if_pos hstate, if_pos ((h.elapsed_iff hnow).2 hlate)]

theorem Inv.reopens (hstate : s.cb.state = .halfOpen) :
    (csilkCircuitBreakerRecordFailure s.cb now).state = .opened ∧
      (csilkCircuitBreakerRecordFailure s.cb now).lastStateChangeUs = now := by
  have htrip := h.tripped (by simp [hstate])
  rw [csilkCircuitBreakerRecordFailure, if_pos (Nat.le_succ_of_le htrip)]
  exact ⟨rfl, rfl⟩

theorem Inv.trips (hstate : s.cb.state = .closed) (call : Call) :
    (call.run s.cb now).state = .opened ↔
      call = .failure ∧ s.failures + 1 = s.cb.failureThreshold := by
  obtain ⟨hcount, hlt⟩ := h.counted hstate
  cases call with
  | request => simp [Call.run, csilkCircuitBreakerMiddleware, hstate]
  | success => simp [Call.run, csilkCircuitBreakerRecordSuccess, hstate]
  | failure =>
    rw [Call.run, csilkCircuitBreakerRecordFailure]
    split
    · simp only [true_and, true_iff]
      omega
    · simp only [hstate, reduceCtorEq, true_and, false_iff]
      omega

end

theorem reachable_inv (h : (breaker config).Reachable Timely s) : Inv s := by
  refine h.invariant ?_ ?_
  · rintro s ⟨now, rfl⟩
    exact csilkCircuitBreakerNew_inv config now
  · intro s a s' hinv hok hs
    exact hinv.step hok hs

/-- What the calls at a time `now` do, if no result is recorded while the breaker is OPEN. -/
theorem csilkCircuitBreaker_follows (h : (breaker config).Reachable Timely s) (hnow : s.now ≤ now) :
    (∀ t, s.openedAt = some t → now < t + 1000 * s.cb.recoveryTimeoutMs →
        (csilkCircuitBreakerMiddleware s.cb now).2 ≠ .next) ∧
      (s.cb.state = .opened → ∃ t, s.openedAt = some t ∧ (t + 1000 * s.cb.recoveryTimeoutMs ≤ now →
        csilkCircuitBreakerMiddleware s.cb now =
          ({ s.cb with state := .halfOpen, lastStateChangeUs := now }, .next))) ∧
      (s.cb.state = .halfOpen →
        ((csilkCircuitBreakerRecordFailure s.cb now).state = .opened ∧
          (csilkCircuitBreakerRecordFailure s.cb now).lastStateChangeUs = now) ∧
        (csilkCircuitBreakerRecordSuccess s.cb now).state = .closed ∧
          (csilkCircuitBreakerRecordSuccess s.cb now).consecutiveFailures = 0) ∧
      (s.cb.state = .closed → ∀ call : Call, (call.run s.cb now).state = .opened ↔
        call = .failure ∧ s.failures + 1 = s.cb.failureThreshold) := by
  have hinv := reachable_inv h
  refine ⟨fun t => hinv.refuses hnow, fun hstate => hinv.probes hstate hnow, ?_, ?_⟩
  · intro hstate
    refine ⟨hinv.reopens hstate, ?_⟩
    rw [csilkCircuitBreakerRecordSuccess, if_pos hstate]
    exact ⟨rfl, rfl⟩
  · exact fun hstate => hinv.trips hstate

theorem csilkCircuitBreaker_follows_probe :
    ∃ s, (breaker (some ⟨2, 1⟩)).Reachable Timely s ∧ s.cb.state = .halfOpen ∧
      (csilkCircuitBreakerRecordFailure s.cb 1000).state = .opened := by
  have hprobe := (breaker (some ⟨2, 1⟩)).run (p := Timely) _
    [(.failure, 0), (.failure, 0), (.request, 1000)] ⟨0, rfl⟩ rfl
  exact ⟨_, hprobe, rfl, ((csilkCircuitBreaker_follows hprobe (Nat.le_refl 1000)).2.2.1 rfl).1.1⟩

/-- A late success sets the counter back while the breaker is OPEN: the probe fails and it stays
HALF_OPEN. -/
theorem csilkCircuitBreakerRecordFailure_late :
    ∃ s, (breaker (some ⟨2, 1⟩)).Reachable (fun _ _ => True) s ∧ s.cb.state = .halfOpen ∧
      (csilkCircuitBreakerRecordFailure s.cb 1000).state = .halfOpen := by
  refine ⟨_, (breaker (some ⟨2, 1⟩)).run (p := fun _ _ => True) _
    [(.failure, 0), (.failure, 0), (.success, 500), (.request, 1000)] ⟨0, rfl⟩ rfl, rfl, rfl⟩

end Csilk.Breaker
