import Mathlib.Data.List.Perm.Basic

namespace Csilk.Defer
open List

inductive Log
  | registered (id : Nat)
  | executed (id : Nat)
  deriving DecidableEq

def Log.executed? : Log → Option Nat
  | .registered _ => none
  | .executed id => some id

/-- The last cleanup registered and not yet executed is the next executed. -/
def Log.lifo : List Nat → Log → Option (List Nat)
  | pending, .registered id => some (id :: pending)
  | top :: pending, .executed id => if id = top then some pending else none
  | [], .executed _ => none

structure Ctx where
  deferHead : List (Nat × Nat)
  panicked : Bool
  count : Nat
  log : List Log

inductive Act
  | csilkCtxDefer (fn : Nat) (alloc : Bool)
  | csilkPanic

section Cleanups
variable (run : Nat → Ctx → Option Ctx)

/-- Items are linked at the head, so the walk sees those that were there when it began. -/
def csilkCtxDeferFree (c : Ctx) : Option Ctx := do
  let c ← c.deferHead.foldlM (fun c item => run item.2 { c with log := c.log ++ [.executed item.1] }) c
  return { c with deferHead := [] }

def perform : Act → Ctx → Option Ctx
  | .csilkCtxDefer fn alloc, c =>
    if alloc then some { c with
      deferHead := (c.count, fn) :: c.deferHead
      count := c.count + 1
      log := c.log ++ [.registered c.count] }
    else some c
  | .csilkPanic, c => csilkCtxDeferFree run { c with panicked := true }

def csilkRecoveryHandler (c : Ctx) : Option Ctx :=
  if c.panicked then csilkCtxDeferFree run c else some c

end Cleanups

/-- A cleanup does what `app` gives for it; the calls nest at most `depth` deep. -/
def fire (app : Nat → List Act) : Nat → Nat → Ctx → Option Ctx
  | 0, _, _ => none
  | depth + 1, fn, c => (app fn).foldlM (fun c act => perform (fire app depth) act c) c

inductive Event
  | handler (act : Act)
  | recovered

def step (app : Nat → List Act) (depth : Nat) (c : Ctx) : Event → Option Ctx
  | .handler act => perform (fire app depth) act c
  | .recovered => csilkRecoveryHandler (fire app depth) c

/-- A request up to the deferred callbacks of `csilk_ctx_cleanup`. -/
def request (app : Nat → List Act) (depth : Nat) (events : List Event) : Option Ctx := do
  let c ← events.foldlM (step app depth) ⟨[], false, 0, []⟩
  csilkCtxDeferFree (fire app depth) c

structure Inv (c : Ctx) : Prop where
  lifo : c.log.foldlM Log.lifo [] = some (c.deferHead.map Prod.fst)
  once : c.log.filterMap Log.executed? ++ c.deferHead.map Prod.fst ~ range c.count

theorem Inv.defer (h : Inv c) (run : Nat → Ctx → Option Ctx) (fn : Nat) (alloc : Bool) :
    ∃ c', perform run (.csilkCtxDefer fn alloc) c = some c' ∧ Inv c' := by
  cases alloc with
  | false => exact ⟨c, rfl, h⟩
  | true =>
    refine ⟨_, rfl, ?_, ?_⟩
    · rw [foldlM_append, h.lifo]
      rfl
    · rw [filterMap_append, range_succ]
      simp only [filterMap_cons, Log.executed?, filterMap_nil, append_nil]
      exact (perm_middle.trans (h.once.cons _)).trans (perm_append_singleton _ _).symm

theorem foldlM_executed {run : Nat → Ctx → Option Ctx} (hrun : ∀ fn c, run fn c = some c) (items : List (Nat × Nat)) (c : Ctx) :
    items.foldlM (fun c item => run item.2 { c with log := c.log ++ [.executed item.1] }) c =
      some { c with log := c.log ++ (items.map Prod.fst).map .executed } := by
  induction items generalizing c with
  | nil => simp
  | cons item items ih =>
    rw [foldlM_cons, hrun]
    exact (ih _).trans (by simp)

theorem foldlM_lifo (ids : List Nat) : (ids.map Log.executed).foldlM Log.lifo ids = some [] := by
  induction ids with
  | nil => rfl
  | cons id ids ih => simpa [Log.lifo] using ih

theorem Inv.deferFree (hrun : ∀ fn c, run fn c = some c) (h : Inv c) :
    ∃ c', csilkCtxDeferFree run c = some c' ∧ c'.deferHead = [] ∧ Inv c' := by
  unfold csilkCtxDeferFree
  rw [foldlM_executed hrun]
  refine ⟨_, rfl, rfl, ?_, ?_⟩
  · rw [foldlM_append, h.lifo]
    exact foldlM_lifo _
  · have hexecuted : Log.executed? ∘ Log.executed = some := rfl
    rw [filterMap_append, filterMap_map, hexecuted, filterMap_some, map_nil, append_nil]
    exact h.once

theorem Inv.step (hrun : ∀ fn c, fire app depth fn c = some c) (h : Inv c) (e : Event) :
    ∃ c', step app depth c e = some c' ∧ Inv c' := by
  cases e with
  | handler act =>
    cases act with
    | csilkCtxDefer fn alloc => exact h.defer (fire app depth) fn alloc
    | csilkPanic =>
      obtain ⟨c', hc, _, h'⟩ := Inv.deferFree (c := { c with panicked := true }) hrun ⟨h.lifo, h.once⟩
      exact ⟨c', hc, h'⟩
  | recovered =>
    rw [Defer.step, csilkRecoveryHandler]
    split
    · obtain ⟨c', hc, _, h'⟩ := h.deferFree hrun
      exact ⟨c', hc, h'⟩
    · exact ⟨c, rfl, h⟩

/-- Cleanups that leave the context alone are executed once each, the last registered first. -/
theorem request_cleanups (app : Nat → List Act) (hquiet : ∀ fn, app fn = []) (depth : Nat)
    (events : List Event) :
    ∃ c, request app (depth + 1) events = some c ∧
      c.log.filterMap Log.executed? ~ range c.count ∧ c.log.foldlM Log.lifo [] = some [] := by
  have hrun : ∀ fn c, fire app (depth + 1) fn c = some c := by
    intro fn c
    rw [fire, hquiet fn]
    rfl
  have hevents : ∀ c, Inv c → ∃ c', events.foldlM (step app (depth + 1)) c = some c' ∧ Inv c' := by
    induction events with
    | nil => exact fun c h => ⟨c, rfl, h⟩
    | cons e events ih =>
      intro c h
      obtain ⟨c', hc, h'⟩ := h.step hrun e
      rw [foldlM_cons, hc]
      exact ih c' h'
  obtain ⟨c, hc, h⟩ := hevents ⟨[], false, 0, []⟩ ⟨rfl, by rfl⟩
  obtain ⟨c', hc', hhead, hlifo, honce⟩ := h.deferFree hrun
  rw [hhead] at hlifo honce
  refine ⟨c', ?_, by simpa using honce, hlifo⟩
  rw [request, hc]
  exact hc'

theorem request_cleanups_panic :
    ∃ c, request (fun _ => []) 1
        [.handler (.csilkCtxDefer 4 true), .handler (.csilkCtxDefer 7 true), .handler .csilkPanic] = some c ∧
      c.log.filterMap Log.executed? ~ range c.count ∧ c.log.foldlM Log.lifo [] = some [] :=
  request_cleanups (fun _ => []) (fun _ => rfl) 0 _

/-- A cleanup that the first cleanup registers is dropped with the list. -/
theorem request_cleanup_defers :
    (request (fun fn => if fn = 0 then [.csilkCtxDefer 1 true] else []) 2
      [.handler (.csilkCtxDefer 0 true)]).map (fun c => (c.deferHead, c.count, c.log)) =
      some ([], 2, [.registered 0, .executed 0, .registered 1]) := by
  decide

end Csilk.Defer
