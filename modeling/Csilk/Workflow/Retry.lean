import Csilk.Workflow.Engine

namespace Csilk.Workflow
open List

/-- How long an attempt takes, in milliseconds, and what the handler returns. -/
structure Attempt where
  duration : Nat
  result : Option Data

def Attempt.inTime (a : Attempt) (node : Node) : Bool :=
  node.timeoutMs ≤ 0 || a.duration ≤ node.timeoutMs

def Attempt.accepted (node : Node) (a : Attempt) : Option Data :=
  if a.inTime node then a.result else none

/-- The timer is armed for the timeout and fires before the attempt ends. -/
def Work.overrun (w : Work) (node : Node) (a : Attempt) : Bool :=
  w.timer = .timeout && !a.inTime node

def Work.during (w : Work) (node : Node) (a : Attempt) : Work :=
  if w.overrun node a then { w with timer := .idle, isTimedOut := true } else w

def Work.woken (w : Work) : Work := { w with timer := .idle }

/-- The events of work `i` if its attempts from now on are these, and timers fire at their
deadlines. -/
def attempts (node : Node) (i : Nat) : Work → List Attempt → List Event
  | _, [] => []
  | w, a :: as =>
    (if w.overrun node a then [.nodeTimeout i] else []) ++ .workDone i a.result ::
      if (w.during node a).retries node a.result then
        (if 0 < node.retryDelayMs then [.retryTimer i] else []) ++
          attempts node i ((w.during node a).again node).woken as
      else []

def Event.isDone : Event → Bool
  | .workDone _ _ => true
  | _ => false

/-- The first result in time of at most `retries + 1` attempts, and how many are made. -/
def independent (node : Node) (retries : Nat) (as : List Attempt) : Option Data × Nat :=
  let tried := as.take (retries + 1)
  (tried.findSome? (Attempt.accepted node),
    min (tried.findIdx (fun a => (a.accepted node).isSome) + 1) tried.length)

variable {wf : Wf} {r : Run} {i : Nat} {w : Work} {node : Node} {a : Attempt} {d : Data}

theorem independent_accepted (ha : a.accepted node = some d) (k : Nat) (as : List Attempt) :
    independent node k (a :: as) = (some d, 1) := by
  simp [independent, ha, findIdx_cons]

theorem independent_zero (ha : a.accepted node = none) (as : List Attempt) :
    independent node 0 (a :: as) = (none, 1) := by
  simp [independent, ha]

theorem independent_succ (ha : a.accepted node = none) (k : Nat) (as : List Attempt) :
    independent node (k + 1) (a :: as) =
      ((independent node k as).1, (independent node k as).2 + 1) := by
  simp only [independent, take_succ_cons, findSome?_cons, findIdx_cons, ha]
  simp [Nat.add_min_add_right]

theorem works_setWork (hw : r.ctx.works[i]? = some w) (w' : Work) :
    (r.setWork i w').ctx.works[i]? = some w' :=
  getElem?_set_self (List.getElem?_eq_some_iff.1 hw).1

theorem dropWork_setWork (r : Run) (i : Nat) (w : Work) :
    (r.setWork i w).dropWork i = r.dropWork i := by
  simp only [Run.setWork, Run.dropWork, eraseIdx_set_eq]

theorem loopStep_workDone (hw : r.ctx.works[i]? = some w) (hnode : wf.nodes[w.node]? = some node)
    (hlive : r.ctx.freed = false) (htimer : w.timer ≠ .retry) (output : Option Data) :
    loopStep wf r (.workDone i output) = some (afterWorkerCb wf r i w node output) := by
  simp [loopStep, hw, hnode, hlive, htimer]

/-- A failed attempt is followed by the next one, after the delay if there is one. -/
theorem foldlM_again (hw : r.ctx.works[i]? = some w) (hlive : r.ctx.freed = false) (es : List Event) :
    ((if 0 < node.retryDelayMs then [Event.retryTimer i] else []) ++ es).foldlM (loopStep wf)
        (r.setWork i (w.again node)) =
      es.foldlM (loopStep wf) (r.setWork i (w.again node).woken) := by
  by_cases hd : 0 < node.retryDelayMs
  · have hstep : loopStep wf (r.setWork i (w.again node)) (.retryTimer i) =
        some (r.setWork i (w.again node).woken) := by
      rw [loopStep, works_setWork hw]
      simp [Work.again, Work.woken, hd, Run.setWork, hlive]
    rw [if_pos hd, singleton_append, foldlM_cons, hstep]
    rfl
  · simp [Work.again, Work.woken, hd]

/-- If every attempt returns in time, the node goes on with the first result there is. -/
theorem attempts_independent {as : List Attempt} (hw : r.ctx.works[i]? = some w)
    (hnode : wf.nodes[w.node]? = some node) (hlive : r.ctx.freed = false)
    (htimer : w.timer ≠ .retry) (hfresh : w.isTimedOut = false)
    (hk : (node.maxRetries - w.retryCount).toNat = k) (hlen : k < as.length)
    (hquick : ∀ a ∈ as, a.inTime node = true) :
    (attempts node i w as).foldlM (loopStep wf) r = some (finishNode wf (r.dropWork i) w.node node
        (checkSchema node (independent node k as).1)) ∧
      (attempts node i w as).countP Event.isDone = (independent node k as).2 := by
  induction as generalizing r w k with
  | nil => exact absurd hlen (Nat.not_lt_zero k)
  | cons a as ih =>
    have ha := hquick a mem_cons_self
    have hacc : a.accepted node = a.result := if_pos ha
    have hout : w.output a.result = a.result := by simp [Work.output, hfresh]
    have hover : w.overrun node a = false := by simp [Work.overrun, ha]
    have hduring : w.during node a = w := by simp [Work.during, hover]
    rw [attempts, hduring, hover, if_neg Bool.false_ne_true, nil_append, foldlM_cons,
      loopStep_workDone hw hnode hlive htimer, Option.bind_eq_bind, Option.bind_some,
      countP_cons_of_pos rfl, afterWorkerCb, hout]
    have hiff : w.retries node a.result = true ↔
        a.result = none ∧ w.retryCount < node.maxRetries := by
      rw [Work.retries, hout, Bool.and_eq_true, Option.isNone_iff_eq_none, decide_eq_true_eq]
    by_cases hretry : a.result = none ∧ w.retryCount < node.maxRetries
    · obtain ⟨k, rfl⟩ : ∃ k', k = k' + 1 := ⟨k - 1, by omega⟩
      rw [if_pos (hiff.2 hretry), if_pos (hiff.2 hretry), foldlM_again hw hlive,
        independent_succ (hacc.trans hretry.1)]
      have hnext := ih (works_setWork hw (w.again node).woken) hnode hlive (by rintro ⟨⟩) hfresh
        (k := k) (by simp only [Work.again, Work.woken]; omega) (Nat.lt_of_succ_lt_succ hlen)
        fun a ha => hquick a (mem_cons_of_mem _ ha)
      rw [dropWork_setWork] at hnext
      have hdelay : (if 0 < node.retryDelayMs then [Event.retryTimer i] else []).countP
          Event.isDone = 0 := by
        split <;> rfl
      rw [countP_append, hdelay, Nat.zero_add]
      exact ⟨hnext.1, congrArg (· + 1) hnext.2⟩
    · rw [if_neg (hretry ∘ hiff.1), if_neg (hretry ∘ hiff.1)]
      cases hres : a.result with
      | some d =>
        rw [independent_accepted (hacc.trans hres)]
        exact ⟨rfl, rfl⟩
      | none =>
        have hdone : ¬w.retryCount < node.maxRetries := fun hlt => hretry ⟨hres, hlt⟩
        have hzero : k = 0 := by omega
        rw [hzero, independent_zero (hacc.trans hres)]
        exact ⟨rfl, rfl⟩

def flaky : Node := ⟨[], [], 0, false, none, none, .and, 10, false, none, 1, 0⟩

def reply : Data := ⟨none, none, 0⟩

def delivered (as : List Attempt) : Option (List (Option Data)) :=
  let wf : Wf := ⟨[flaky], false, 0, 0⟩
  ((attempts flaky 0 (newWork 0 flaky none) as).foldlM (loopStep wf) (csilkWfRun wf none)).map
    Run.callbacks

theorem attempts_independent_second :
    delivered [⟨5, none⟩, ⟨10, some reply⟩] = some [some reply] := by
  rw [delivered, (attempts_independent rfl rfl rfl (by decide) rfl rfl (by decide) (by decide)).1]
  rfl

/-- After an attempt that took too long the next one counts as failed; otherwise it may take as long
as it wants. -/
theorem attempts_dependent :
    delivered [⟨20, none⟩, ⟨5, some reply⟩] = some [none] ∧
      independent flaky 1 [⟨20, none⟩, ⟨5, some reply⟩] = (some reply, 2) ∧
      delivered [⟨5, none⟩, ⟨20, some reply⟩] = some [some reply] ∧
      independent flaky 1 [⟨5, none⟩, ⟨20, some reply⟩] = (none, 2) :=
  ⟨rfl, rfl, rfl, rfl⟩

end Csilk.Workflow
