import Csilk.Lib.Transition
import Csilk.Routing.Params
import Mathlib.Algebra.Group.Int.Defs

namespace Csilk.Dispatch
open Csilk.Lib Csilk.Routing List

inductive ChainEvent
  | read (i : Int)
  | start (i : Int)
  | stop

/-- What the order of two events demands; an abort or a panic is a `stop`. -/
def ChainEvent.Before : ChainEvent → ChainEvent → Prop
  | .start i, .start j => i < j
  | .stop, .start _ => False
  | _, _ => True

/-- `running` has the handlers that have not returned, the innermost first. -/
structure Chain where
  req : RequestCtx
  aborted : Bool
  panicked : Bool
  running : List Int
  called : Bool
  log : List ChainEvent

def install (req : RequestCtx) : Chain := ⟨req, false, false, [], false, []⟩

/-- The value of an `int` after an overflow that wraps. -/
def cInt (n : Int) : Int := n.bmod (2 ^ 32)

/-- The compiled array behind `handlers` ends with NULL, which is 0. -/
def handlerAt (handlers : List Handler) (i : Int) : Handler :=
  (i.toNat?.bind fun n => (handlers ++ [0])[n]?).getD 0

def csilkNext (c : Chain) : Chain × Option Int :=
  if c.aborted || c.panicked then (c, none)
  else match c.req.handlers with
  | none => (c, none)
  | some handlers =>
    let nextIdx := cInt (c.req.handlerIndex + 1)
    let c := { c with req.handlerIndex := nextIdx }
    if 0 < c.req.handlerCount ∧ c.req.handlerCount ≤ (nextIdx % 2 ^ 64).toNat then (c, none)
    else
      let c := { c with log := c.log ++ [.read nextIdx] }
      if handlerAt handlers nextIdx = 0 then (c, none)
      else ({ c with log := c.log ++ [.start nextIdx] }, some nextIdx)

def csilkAbort (c : Chain) : Chain := { c with aborted := true, log := c.log ++ [.stop] }

def csilkPanic (c : Chain) : Chain :=
  { c with panicked := true, aborted := true, log := c.log ++ [.stop] }

inductive Act
  | csilkNext
  | csilkAbort
  | csilkPanic
  | ret
deriving DecidableEq

def Chain.next (c : Chain) : Chain :=
  { (csilkNext c).1 with called := true, running := (csilkNext c).2.toList ++ c.running }

/-- The server calls `csilk_next` once; the rest is done by the innermost handler. -/
def Chain.step (c : Chain) : Act → Option Chain
  | .csilkNext => if c.called = false ∨ c.running ≠ [] then some c.next else none
  | .csilkAbort => if c.running ≠ [] then some (csilkAbort c) else none
  | .csilkPanic => if c.running ≠ [] then some (csilkPanic c) else none
  | .ret => if c.running ≠ [] then some { c with running := c.running.tail } else none

def chain : System Chain Act where
  init c := ∃ vector r q, csilkRouterMatchCtx vector r q = (1, c.req) ∧ c = install c.req
  step := Chain.step

/-- The call does not find `handler_index` at `INT_MAX`. -/
def NoOverflow (c : Chain) (a : Act) : Prop :=
  a = .csilkNext → c.req.handlerIndex < 2 ^ 31 - 1

instance (c : Chain) (a : Act) : Decidable (NoOverflow c a) := inferInstanceAs (Decidable (_ → _))

structure Ordered (array : List Handler) (c : Chain) : Prop where
  handlers : c.req.handlers = some array
  count : c.req.handlerCount = array.length
  index : -1 ≤ c.req.handlerIndex
  fresh : c.called = false → c.req.handlerIndex = -1
  idle : array = [] → c.running = []
  order : c.log.Pairwise ChainEvent.Before
  starts : ∀ i, .start i ∈ c.log → i ≤ c.req.handlerIndex
  stopped : .stop ∈ c.log → c.aborted = true
  reads : ∀ i, .read i ∈ c.log → 0 ≤ i ∧ i < (array ++ [0]).length

theorem csilkRouterMatchCtx_installs (h : csilkRouterMatchCtx vector r q = (1, req)) :
    ∃ array, req.handlers = some array ∧ req.handlerCount = array.length ∧
      req.handlerIndex = -1 := by
  rw [csilkRouterMatchCtx] at h
  split at h
  · dsimp only at h
    split at h
    · cases h
      exact ⟨_, rfl, rfl, rfl⟩
    · cases h
  · cases h

theorem ordered_install {req : RequestCtx} (hh : req.handlers = some array)
    (hcount : req.handlerCount = array.length) (hi : req.handlerIndex = -1) :
    Ordered array (install req) :=
  ⟨hh, hcount, hi.ge, fun _ => hi, fun _ => rfl, .nil, by simp [install], by simp [install],
    by simp [install]⟩

theorem pairwise_concat (h : log.Pairwise ChainEvent.Before) (he : ∀ a ∈ log, a.Before e) :
    (log ++ [e]).Pairwise ChainEvent.Before := by
  rw [pairwise_append]
  refine ⟨h, pairwise_singleton _ _, ?_⟩
  intro a ha b hb
  cases mem_singleton.1 hb
  exact he a ha

theorem Ordered.abort (h : Ordered array c) : Ordered array (csilkAbort c) :=
  { h with
    order := pairwise_concat h.order fun a _ => by cases a <;> exact trivial
    starts := fun i hi => h.starts i (by simpa [csilkAbort] using hi)
    stopped := fun _ => rfl
    reads := fun i hi => h.reads i (by simpa [csilkAbort] using hi) }

theorem Ordered.read (h : Ordered array c) (hi : 0 ≤ i ∧ i < (array ++ [0]).length) :
    Ordered array { c with log := c.log ++ [.read i] } :=
  { h with
    order := pairwise_concat h.order fun a _ => by cases a <;> exact trivial
    starts := fun j hj => h.starts j (by simpa using hj)
    stopped := fun hs => h.stopped (by simpa using hs)
    reads := by
      intro j hj
      obtain hj | hj := mem_append.1 hj
      · exact h.reads j hj
      · cases mem_singleton.1 hj
        exact hi }

theorem Ordered.start (h : Ordered array c) (ha : c.aborted = false)
    (hlt : ∀ j, .start j ∈ c.log → j < c.req.handlerIndex) (hne : array ≠ []) :
    Ordered array { c with
      log := c.log ++ [.start c.req.handlerIndex]
      running := c.req.handlerIndex :: c.running } :=
  { h with
    idle := fun hnil => absurd hnil hne
    order := by
      apply pairwise_concat h.order
      intro a hmem
      cases a with
      | read i => exact trivial
      | start j => exact hlt j hmem
      | stop => exact absurd (h.stopped hmem) (by simp [ha])
    starts := by
      intro j hj
      obtain hj | hj := mem_append.1 hj
      · exact h.starts j hj
      · cases mem_singleton.1 hj
        exact le_rfl
    stopped := fun hs => h.stopped (by simpa using hs)
    reads := fun j hj => h.reads j (by simpa using hj) }

theorem handlerAt_nil (i : Int) : handlerAt [] i = 0 := by
  cases i with
  | ofNat n => cases n <;> rfl
  | negSucc n => rfl

theorem Ordered.next (h : Ordered array c) (hlt : c.req.handlerIndex < 2 ^ 31 - 1)
    (hen : c.called = false ∨ c.running ≠ []) : Ordered array c.next := by
  obtain ⟨⟨method, path, captured, handlers, count, index, current⟩, aborted, panicked, running,
    called, log⟩ := c
  obtain rfl : handlers = some array := h.handlers
  obtain rfl : count = array.length := h.count
  have hlow : -1 ≤ index := h.index
  have hlt : index < 2 ^ 31 - 1 := hlt
  have hidx : cInt (index + 1) = index + 1 := by
    apply Int.bmod_eq_of_le <;> omega
  have hmoved : Ordered array ⟨⟨method, path, captured, some array, array.length, index + 1,
      current⟩, aborted, panicked, running, true, log⟩ :=
    { h with
      index := hlow.trans (Int.le_add_one le_rfl)
      fresh := by simp
      starts := fun i hi => (h.starts i hi).trans (Int.le_add_one le_rfl) }
  unfold Chain.next csilkNext
  split
  · exact { h with fresh := by simp }
  · rename_i hrun
    obtain ⟨ha, -⟩ : aborted = false ∧ panicked = false := by simpa using hrun
    simp only [hidx]
    split
    · exact hmoved
    · rename_i hin
      have hread : 0 ≤ index + 1 ∧ index + 1 < (array ++ [0]).length := by
        rw [length_append]
        by_cases hnil : array = []
        · -- nothing runs in an empty chain, so the call is the server's
          subst hnil
          obtain hf | hr := hen
          · have hfresh : index = -1 := h.fresh hf
            subst hfresh
            decide
          · exact absurd (h.idle rfl) hr
        · have hpos := length_pos_iff.2 hnil
          omega
      have hr := hmoved.read hread
      split
      · exact hr
      · rename_i hfn
        apply hr.start ha
        · intro j hj
          exact Int.lt_add_one_of_le (h.starts j (by simpa using hj))
        · rintro rfl
          exact hfn (handlerAt_nil _)

theorem Ordered.step (h : Ordered array c) (hok : NoOverflow c a) (hs : c.step a = some c') :
    Ordered array c' := by
  cases a with
  | csilkNext =>
    obtain ⟨hen, rfl⟩ := of_enabled hs
    exact h.next (hok rfl) hen
  | csilkAbort =>
    obtain ⟨-, rfl⟩ := of_enabled hs
    exact h.abort
  | csilkPanic =>
    obtain ⟨-, rfl⟩ := of_enabled hs
    exact { h.abort with }
  | ret =>
    obtain ⟨-, rfl⟩ := of_enabled hs
    exact { h with idle := fun hnil => by rw [h.idle hnil]; rfl }

/-- The handlers start in order, each once and none after a stop; reads stay in the array. -/
theorem chain_ordered (h : chain.Reachable NoOverflow c) : c.log.Pairwise ChainEvent.Before ∧
    ∃ array, c.req.handlers = some array ∧
      ∀ i, .read i ∈ c.log → 0 ≤ i ∧ i < (array ++ [0]).length := by
  obtain ⟨array, hord⟩ : ∃ array, Ordered array c := by
    apply h.invariant (P := fun c => ∃ array, Ordered array c)
    · rintro c ⟨vector, r, q, hmatch, hc⟩
      obtain ⟨array, hh, hcount, hi⟩ := csilkRouterMatchCtx_installs hmatch
      rw [hc]
      exact ⟨array, ordered_install hh hcount hi⟩
    · rintro c a c' ⟨array, ih⟩ hok hs
      exact ⟨array, ih.step hok hs⟩
  exact ⟨hord.order, array, hord.handlers, hord.reads⟩

deriving instance DecidableEq for RequestCtx

def oneRequest : RequestCtx :=
  ⟨some (ascii "GET"), some (ascii "/"), ⟨[], none⟩, none, 0, 0, none⟩

def oneRoute : RouteArgs := simpleRoute (some (ascii "GET")) (ascii "/") [1]

def oneMatched : RequestCtx :=
  { oneRequest with
    handlers := some [1]
    handlerCount := 1
    handlerIndex := -1
    currentHandler := some oneRoute.entry }

theorem oneMatched_init : chain.init (install oneMatched) := by
  refine ⟨[], compiledRouter [.add oneRoute], oneRequest, ?_, rfl⟩
  decide +kernel

theorem chain_ordered_one : ∃ c, chain.Reachable NoOverflow c ∧
    c.log.Pairwise ChainEvent.Before ∧ c.log.length = 2 := by
  have hrun := chain.run (p := NoOverflow) (install oneMatched) [.csilkNext, .csilkNext, .ret]
    oneMatched_init rfl
  exact ⟨_, hrun, (chain_ordered hrun).1, by decide⟩

def calling (n : Nat) : Chain :=
  ⟨{ oneMatched with handlerIndex := cInt n }, false, false, [0], true,
    [.read 0, .start 0]⟩

theorem csilkNext_past (hrun : (c.aborted || c.panicked) = false) (hh : c.req.handlers.isSome)
    (hidx : cInt (c.req.handlerIndex + 1) = n) (hpos : 0 < c.req.handlerCount)
    (hout : c.req.handlerCount ≤ (n % 2 ^ 64).toNat) :
    csilkNext c = ({ c with req.handlerIndex := n }, none) := by
  subst hidx
  rw [csilkNext, hrun, if_neg Bool.false_ne_true]
  split
  · rename_i hnone
    rw [hnone] at hh
    cases hh
  · exact if_pos ⟨hpos, hout⟩

theorem calling_index (n : Nat) : (calling n).req.handlerIndex = cInt n := by
  unfold calling
  dsimp only

theorem calling_next (hn : n + 1 < 2 ^ 32) : csilkNext (calling n) = (calling (n + 1), none) := by
  have hidx : cInt ((calling n).req.handlerIndex + 1) = cInt (n + 1 : Nat) := by
    rw [calling_index]
    exact Int.bmod_add_bmod
  have hout : 1 ≤ (cInt (n + 1 : Nat) % 2 ^ 64).toNat := by
    rw [cInt, Int.bmod_def]
    split <;> omega
  exact csilkNext_past rfl rfl hidx Nat.one_pos hout

theorem calling_reachable (hn : n < 2 ^ 32) : chain.Reachable (fun _ _ => True) (calling n) := by
  induction n with
  | zero => exact .step (a := .csilkNext) (.init oneMatched_init) trivial rfl
  | succ n ih =>
    apply System.Reachable.step (a := .csilkNext) (ih (by omega)) trivial
    have hnext : (calling n).next = calling (n + 1) := by
      rw [Chain.next, calling_next hn]
      rfl
    rw [← hnext]
    rfl

/-- After 2^32 calls the index is back at the handler that makes them. -/
theorem chain_restarts : ∃ c, chain.Reachable (fun _ _ => True) c ∧
    ¬c.log.Pairwise ChainEvent.Before := by
  have hlast := calling_reachable (n := 2 ^ 32 - 1) (by omega)
  have hlog : (calling (2 ^ 32 - 1)).next.log = [.read 0, .start 0, .read 0, .start 0] := rfl
  refine ⟨_, .step (a := .csilkNext) hlast trivial rfl, ?_⟩
  rw [hlog]
  simp [ChainEvent.Before]

end Csilk.Dispatch
