import Csilk.Lib.Fold
import Csilk.Workflow.Completion
import Mathlib.Data.List.MinMax

namespace Csilk.Workflow
open List Option

def Timer.rank : Timer → Nat
  | .idle => 1
  | .timeout | .retry => 2

def retriesLeft (wf : Wf) (w : Work) : Nat :=
  ((wf.nodes[w.node]?.map Node.maxRetries).getD 0 - w.retryCount).toNat

def workRank (wf : Wf) (w : Work) : Nat := 2 * retriesLeft wf w + w.timer.rank

def startRank (wf : Wf) : Nat :=
  2 * (wf.nodes.map fun node => node.maxRetries.toNat).foldr max 0 + 2

def ctxRank (wf : Wf) (ctx : Ctx) : Nat :=
  (maxWorkflowSteps - ctx.totalExecutions) * startRank wf + (ctx.works.map (workRank wf)).sum +
    if ctx.ttlArmed then 1 else 0

def rank (wf : Wf) (s : Execution) : Nat := (s.ctxs.map (ctxRank wf)).sum

theorem Timer.rank_pos (t : Timer) : 1 ≤ t.rank := by
  cases t with
  | idle | timeout | retry => decide

theorem Timer.rank_le (t : Timer) : t.rank ≤ 2 := by
  cases t with
  | idle | timeout | retry => decide

theorem workRank_newWork (hnode : wf.nodes[n]? = some node) :
    workRank wf (newWork n node input) ≤ startRank wf := by
  have hmem := List.mem_map_of_mem (f := fun node : Node => node.maxRetries.toNat)
    (mem_of_getElem? hnode)
  have hmax := le_max_of_le' 0 hmem le_rfl
  have htimer := Timer.rank_le (newWork n node input).timer
  have hleft : retriesLeft wf (newWork n node input) = node.maxRetries.toNat := by
    rw [retriesLeft, newWork, hnode]
    exact congrArg Int.toNat (Int.sub_zero _)
  rw [workRank, startRank]
  omega

theorem Touch.rank_lt (h : Touch wf w w') : workRank wf w' < workRank wf w := by
  cases h with
  | @again node hnode hleft hqueued =>
    have hafter : retriesLeft wf (w.again node) + 1 = retriesLeft wf w := by
      rw [retriesLeft, retriesLeft, Work.again, hnode]
      dsimp only [map_some, getD_some]
      omega
    have htimer := Timer.rank_le (w.again node).timer
    have hbefore := Timer.rank_pos w.timer
    rw [workRank, workRank]
    omega
  | wake hwait =>
    rw [workRank, workRank, hwait]
    exact Nat.lt_succ_self _
  | expire harmed =>
    rw [workRank, workRank, harmed]
    exact Nat.lt_succ_self _

theorem startNode_rank (hnode : wf.nodes[n]? = some node)
    (hlim : r.ctx.totalExecutions < maxWorkflowSteps) :
    ctxRank wf (startNode wf r n node input).ctx ≤ ctxRank wf r.ctx := by
  have hnew : workRank wf (newWork n node input) ≤ startRank wf := workRank_newWork hnode
  have hsteps : maxWorkflowSteps - r.ctx.totalExecutions =
      (maxWorkflowSteps - (r.ctx.totalExecutions + 1)) + 1 := by omega
  rw [ctxRank, ctxRank, hsteps, Nat.add_mul, startNode]
  dsimp only
  rw [map_append, List.sum_append, map_singleton, sum_singleton]
  omega

theorem executeNode_rank (hlim : r.ctx.totalExecutions < maxWorkflowSteps) :
    ctxRank wf (executeNode wf r n input).ctx ≤ ctxRank wf r.ctx := by
  unfold executeNode
  split
  · exact le_rfl
  case h_2 node hnode =>
    split
    · exact le_rfl
    · split
      · exact le_rfl
      · exact startNode_rank hnode hlim

theorem followEdge_rank :
    ctxRank wf (followEdge wf r src pos e output).1.ctx ≤ ctxRank wf r.ctx := by
  unfold followEdge
  split
  · split
    case isTrue hlim =>
      split
      · exact executeNode_rank (r := (r.setCount e.target 0).mark (.fired src pos e.target true)) hlim
      · exact le_rfl
    case isFalse => exact le_rfl
  · exact le_rfl

theorem followEdges_rank :
    ctxRank wf (followEdges wf src output r pos es).1.ctx ≤ ctxRank wf r.ctx := by
  induction es generalizing r pos with
  | nil => exact le_rfl
  | cons e es ih => exact le_trans ih followEdge_rank

theorem finishNode_rank (hlim : r.ctx.isTerminated = false →
      ∀ t, next wf node output = .enter t → r.ctx.totalExecutions < maxWorkflowSteps) :
    ctxRank wf (finishNode wf r n node output).ctx ≤ ctxRank wf r.ctx := by
  obtain ⟨mid, hgoes, active, registered, freed, wal, callbacks, heq⟩ := finishNode_goes wf r n node output
  rw [heq]
  cases hgoes with
  | stay => exact le_rfl
  | @enter t input hlive hnext =>
    exact executeNode_rank (r := (recordOutput wf r n node output).mark (.entered t))
      (hlim hlive _ hnext)
  | follow => exact followEdges_rank (r := recordOutput wf r n node output)

theorem dropWork_rank {r : Run} {i : Nat} (hw : r.ctx.works[i]? = some w) :
    ctxRank wf (r.dropWork i).ctx < ctxRank wf r.ctx := by
  have hsum := Lib.sum_map_eraseIdx (workRank wf) hw
  have hpos := Timer.rank_pos w.timer
  rw [workRank] at hsum
  rw [ctxRank, ctxRank, Run.dropWork]
  dsimp only
  omega

theorem setWork_rank {r : Run} {i : Nat} (hw : r.ctx.works[i]? = some w) (ht : Touch wf w w') :
    ctxRank wf (r.setWork i w').ctx < ctxRank wf r.ctx := by
  have hsum := Lib.sum_map_set (workRank wf) w' hw
  have hlt := ht.rank_lt
  rw [ctxRank, ctxRank, Run.setWork]
  dsimp only
  omega

theorem calmFinish_limit (h : calmFinish wf ctx node output = true)
    (hlive : ctx.isTerminated = false) (hnext : next wf node output = .enter t) :
    ctx.totalExecutions < maxWorkflowSteps := by
  rw [calmFinish, hlive, Bool.false_or, Bool.and_eq_true, routesBelowLimit, hnext] at h
  exact of_decide_eq_true h.2

/-- An event leaves less to do, unless a route is taken beyond the limit. -/
theorem loopStep_rank (hlim : ∀ n node output, finishing wf r e = some (n, node, output) →
      r.ctx.isTerminated = false → ∀ t, next wf node output = .enter t →
        r.ctx.totalExecutions < maxWorkflowSteps)
    (hs : loopStep wf r e = some r') : ctxRank wf r'.ctx < ctxRank wf r.ctx := by
  cases (loopStep_stepped hs).2 with
  | finish hw hnode hfin =>
    apply Nat.lt_of_le_of_lt (finishNode_rank _) (dropWork_rank hw)
    exact hlim _ _ _ hfin
  | touch hw ht hfin => exact setWork_rank hw ht
  | ttl harmed hfin =>
    rw [ctxRank, ctxRank, if_pos harmed]
    exact Nat.lt_succ_self _

theorem loop_rank (hcalm : calm wf s (.loop c e) = true)
    (hs : executionStep wf s (.loop c e) = some s') : rank wf s' < rank wf s := by
  obtain ⟨ctx, r, hc, hr, rfl⟩ := executionStep_loop hs
  have hsum := Lib.sum_map_set (ctxRank wf) r.ctx hc
  have hlt : ctxRank wf r.ctx < ctxRank wf ctx := by
    apply loopStep_rank _ hr
    intro n node output hfin hlive t hnext
    have hlim := calmFinish_limit (calm_finish hcalm hc hfin) hlive hnext
    exact hlim
  rw [rank, rank, Execution.store]
  dsimp only
  omega

def Action.isLoop : Action → Bool
  | .loop _ _ => true
  | .signalContinue _ => false

/-- Between two approvals the loop has only so many events to process. -/
theorem length_le_rank (hloop : ∀ a ∈ actions, Action.isLoop a = true)
    (hrun : (executions wf input).exec (fun s a => calm wf s a = true) s actions = some s') :
    actions.length ≤ rank wf s := by
  induction actions generalizing s with
  | nil => exact Nat.zero_le _
  | cons a actions ih =>
    obtain ⟨hcalm, t, hstep, hrest⟩ := Lib.System.exec_cons_some hrun
    have hle := ih (fun b hb => hloop b (mem_cons_of_mem _ hb)) hrest
    cases a with
    | loop c e =>
      have hlt := loop_rank hcalm hstep
      rw [length_cons]
      omega
    | signalContinue input => cases hloop _ mem_cons_self

theorem loopStep_progress (hw : r.ctx.works = w :: ws) (hlive : r.ctx.freed = false)
    (hnode : wf.nodes[w.node]? = some node) (output : Option Data) :
    ∃ e r', (e = .retryTimer 0 ∨ e = .workDone 0 output) ∧ loopStep wf r e = some r' := by
  by_cases hwait : w.timer = .retry
  · refine ⟨.retryTimer 0, r.setWork 0 { w with timer := .idle }, .inl rfl, ?_⟩
    rw [loopStep, hw]
    simp [hlive, hwait]
  · refine ⟨.workDone 0 output, afterWorkerCb wf r 0 w node output, .inr rfl, ?_⟩
    rw [loopStep, hw]
    simp [hlive, hwait, hnode]

theorem Once.progress (h : Once wf s) (hbusy : ¬ s.Idle) :
    ∃ c e s', executionStep wf s (.loop c e) = some s' := by
  rw [Execution.Idle] at hbusy
  push Not at hbusy
  obtain ⟨ctx, hctx, hworks⟩ := hbusy
  obtain ⟨c, hc⟩ := mem_iff_getElem?.1 hctx
  have hok := h.ctxs ctx hctx
  have hlive : ctx.freed = false := by
    by_contra hfreed
    rw [Bool.not_eq_false] at hfreed
    exact hworks (hok.freed hfreed)
  obtain ⟨w, ws, hw⟩ := exists_cons_of_ne_nil hworks
  have hnode := getElem?_eq_getElem (hok.known w (hw ▸ mem_cons_self))
  obtain ⟨e, r, _, hr⟩ := loopStep_progress (r := s.view ctx) hw hlive hnode none
  refine ⟨c, e, s.store c r, ?_⟩
  rw [executionStep, hc]
  dsimp only
  rw [hr, map_some]

/-- The callback is invoked at most once, exactly when nothing is outstanding and nothing paused,
and the loop gets there. -/
structure CompletesOnce (wf : Wf) (input : Option Data) (s : Execution) : Prop where
  once : s.callbacks.length ≤ 1
  moment : s.callbacks ≠ [] → s.Idle ∧ s.paused = []
  invoked : s.Idle → s.paused = [] → s.callbacks ≠ []
  progress : ¬ s.Idle → ∃ c e s', executionStep wf s (.loop c e) = some s'
  bounded : ∃ bound, ∀ actions s', (∀ a ∈ actions, Action.isLoop a = true) →
    (executions wf input).exec (fun s a => calm wf s a = true) s actions = some s' →
    actions.length ≤ bound

theorem Once.completesOnce (h : Once wf s) (input : Option Data) : CompletesOnce wf input s := by
  obtain ⟨c, ctx, hcur, hout, hothers⟩ := h.current
  have hparts : s.callbacks.length ≤ 1 ∧ (s.callbacks ≠ [] → s.Idle ∧ s.paused = []) ∧
      (s.Idle → s.paused = [] → s.callbacks ≠ []) := by
    cases hout with
    | running hworks hpaused hcalls =>
      have hcalls : s.callbacks = [] := hcalls
      rw [hcalls]
      refine ⟨Nat.zero_le _, fun hne => absurd rfl hne, fun hidle => ?_⟩
      exact absurd (hidle ctx (mem_of_getElem? hcur)) hworks
    | waiting hworks hnode hpaused hcalls =>
      have hcalls : s.callbacks = [] := hcalls
      have hpaused : s.paused = [_] := hpaused
      rw [hcalls, hpaused]
      exact ⟨Nat.zero_le _, fun hne => absurd rfl hne, fun _ hnil => absurd hnil (cons_ne_nil _ _)⟩
    | ended hworks hpaused hcalls =>
      have hcalls : s.callbacks = [_] := hcalls
      rw [hcalls]
      exact ⟨le_rfl, fun _ => ⟨Execution.idle_of hcur hworks hothers, hpaused⟩,
        fun _ _ => cons_ne_nil _ _⟩
  exact ⟨hparts.1, hparts.2.1, hparts.2.2, h.progress, rank wf s, fun _ _ => length_le_rank⟩

/-- A run whose steps are all calm completes exactly once. -/
theorem completes_once_of_calm (calls : List Call) (input : Option Data) (s : Execution)
    (hids : ((build calls).nodes.map Node.id).Nodup) (hentry : calmEntries (build calls) = true)
    (h : (executions (build calls) input).Reachable (fun s a => calm (build calls) s a = true) s) :
    CompletesOnce (build calls) input s :=
  (once_of_reachable hids hentry h).completesOnce input

def reviewed : List Call :=
  [.add (ascii "draft"), .add (ascii "review"), .bind 0 1, .setInteractive 1 true, .setPersistence]

theorem completes_once_reviewed : ∃ s, (executions (build reviewed) none).Reachable
    (fun s a => calm (build reviewed) s a = true) s ∧ s.callbacks = [none] ∧
      CompletesOnce (build reviewed) none s := by
  have hrun := (executions (build reviewed) none).run
    (p := fun s a => calm (build reviewed) s a = true) (.of (csilkWfRun (build reviewed) none))
    [.loop 0 (.workDone 0 none), .signalContinue none, .loop 1 (.workDone 0 none)] rfl rfl
  exact ⟨_, hrun, rfl, completes_once_of_calm reviewed none _ (by decide) (by decide) hrun⟩

def reviewedBeside : List Call := reviewed ++ [.add (ascii "notify"), .bind 0 2]

/-- The sibling of a paused node ends the run, and the approval of the node ends it again. -/
theorem completes_twice : ∃ s a s' t,
    (executions (build reviewedBeside) none).Reachable (fun _ _ => True) s ∧
    s.callbacks = [] ∧ executionStep (build reviewedBeside) s a = some s' ∧
    s'.callbacks = [none] ∧ s'.paused = [1] ∧
    (executions (build reviewedBeside) none).Reachable (fun _ _ => True) t ∧
    t.callbacks = [none, none] := by
  have hs := (executions (build reviewedBeside) none).run (p := fun _ _ => True)
    (.of (csilkWfRun (build reviewedBeside) none)) [.loop 0 (.workDone 0 none)] rfl rfl
  have ht := (executions (build reviewedBeside) none).run (p := fun _ _ => True)
    (.of (csilkWfRun (build reviewedBeside) none))
    [.loop 0 (.workDone 0 none), .loop 0 (.workDone 0 none), .signalContinue none,
      .loop 1 (.workDone 0 none)] rfl rfl
  exact ⟨_, .loop 0 (.workDone 0 none), _, _, hs, rfl, rfl, rfl, rfl, ht, rfl⟩

def retrying : List Call := [.add (ascii "a"), .onError 0 (some 0)]

end Csilk.Workflow
