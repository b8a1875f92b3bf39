import Csilk.Workflow.Join
import Csilk.Workflow.Termination

namespace Csilk.Workflow
open List

/-- The node executions of all contexts. A retry is not one of its own. -/
def started (s : Execution) : Nat := (s.ctxs.map Ctx.totalExecutions).sum

/-- Error routes, routers and approvals are followed only below the limit, and so are the edges of a
node in a second context. -/
def limited (wf : Wf) (s : Execution) : Action → Bool
  | .loop c e =>
    s.ctxs[c]?.all fun ctx => (finishing wf (s.view ctx) e).all fun (_, node, output) =>
      ctx.isTerminated || match next wf node output with
        | .enter none => true
        | .enter (some _) => started s < maxWorkflowSteps
        | .follow => started s = ctx.totalExecutions ||
            started s + (node.edges.filter fun e => e.fires output).length ≤ maxWorkflowSteps
  | .signalContinue _ => started s < maxWorkflowSteps

theorem started_store {s : Execution} (r : Run) (hc : s.ctxs[c]? = some ctx) :
    started (s.store c r) + ctx.totalExecutions = started s + r.ctx.totalExecutions :=
  Lib.sum_map_set Ctx.totalExecutions r.ctx hc

theorem limited_finish (hlim : limited wf s (.loop c e) = true) (hc : s.ctxs[c]? = some ctx)
    (hfin : finishing wf (s.view ctx) e = some (n, node, output)) (hlive : ctx.isTerminated = false) :
    (∀ t, next wf node output = .enter (some t) → started s < maxWorkflowSteps) ∧
      (next wf node output = .follow → started s = ctx.totalExecutions ∨
        started s + (node.edges.filter fun e => e.fires output).length ≤ maxWorkflowSteps) := by
  rw [limited, hc, Option.all_some, hfin, Option.all_some] at hlim
  dsimp only at hlim
  rw [hlive, Bool.false_or] at hlim
  constructor
  · intro t hnext
    rw [hnext] at hlim
    exact of_decide_eq_true hlim
  · intro hnext
    rw [hnext] at hlim
    apply (Bool.or_eq_true_iff.1 hlim).imp
    · exact of_decide_eq_true
    · exact of_decide_eq_true

theorem started_loop (hlim : limited wf s (.loop c e) = true)
    (hs : executionStep wf s (.loop c e) = some s') :
    started s' ≤ max (started s) maxWorkflowSteps := by
  obtain ⟨ctx, r, hc, hr, rfl⟩ := executionStep_loop hs
  have hstore := started_store r hc
  cases (loopStep_stepped hr).2 with
  | @finish i w node output o hw hnode hfin he hout =>
    obtain ⟨mid, hgoes, active, registered, freed, wal, callbacks, heq⟩ :=
      finishNode_goes wf ((s.view ctx).dropWork i) w.node node output
    rw [heq] at hstore ⊢
    have hstore : _ + ctx.totalExecutions = _ + mid.ctx.totalExecutions := hstore
    have hsame : (recordOutput wf ((s.view ctx).dropWork i) w.node node output).ctx.totalExecutions =
      ctx.totalExecutions := rfl
    cases hgoes with
    | stay => omega
    | @enter t input hlive hnext =>
      have hle : (enterNode wf _ t input).ctx.totalExecutions ≤ ctx.totalExecutions + 1 :=
        (executeNode_total wf ((recordOutput wf ((s.view ctx).dropWork i) w.node node output).mark
          (.entered t)) t input).2
      have hbelow := (limited_finish hlim hc hfin hlive).1 _ hnext
      omega
    | follow hlive hnext =>
      obtain ⟨_, hmax, hadd⟩ := followEdges_total wf w.node output
        (recordOutput wf ((s.view ctx).dropWork i) w.node node output) 0 node.edges
      rcases (limited_finish hlim hc hfin hlive).2 hnext with honly | hroom
      · omega
      · omega
  | @touch i w w' hw ht hfin htime =>
    have hsame : ((s.view ctx).setWork i w').ctx.totalExecutions = ctx.totalExecutions := rfl
    omega
  | ttl harmed hfin he =>
    have hsame : (onWorkflowTtl (s.view ctx)).ctx.totalExecutions = ctx.totalExecutions := rfl
    omega

theorem cleanupStaleCtx_total (ctx : Ctx) :
    (cleanupStaleCtx ctx).totalExecutions = ctx.totalExecutions := by
  unfold cleanupStaleCtx
  split <;> rfl

theorem started_signalContinue (wf : Wf) (s : Execution) (input : Option Data) :
    started (csilkWfSignalContinue wf s input) ≤ started s + 1 := by
  have hold : ((s.ctxs.map cleanupStaleCtx).map Ctx.totalExecutions).sum = started s := by
    rw [List.map_map]
    exact congrArg List.sum (map_congr_left fun ctx _ => cleanupStaleCtx_total ctx)
  have hextend (ctx : Ctx) : ((s.ctxs.map cleanupStaleCtx ++ [ctx]).map Ctx.totalExecutions).sum =
      started s + ctx.totalExecutions := by
    rw [map_append, List.sum_append, hold, map_singleton, sum_singleton]
  have hzero : (continueReplay wf s.wal).1.totalExecutions = 0 := by
    obtain ⟨outputs, counts, heq⟩ := Unused.continueReplay wf s.wal
    rw [heq]
    rfl
  unfold csilkWfSignalContinue
  dsimp only
  split
  · exact le_of_eq hold |>.trans (Nat.le_succ _)
  · split
    · rw [started, hextend]
      omega
    case h_2 n _ =>
      rw [started, Execution.extend, hextend, approveNode]
      have hone := (executeNode_total wf ((Run.mk ((continueReplay wf s.wal).1.approve n) s.wal
        (s.paused.erase n) s.marks s.callbacks).mark (.entered n)) n input).2
      have hone : _ ≤ (continueReplay wf s.wal).1.totalExecutions + 1 := hone
      rw [enterNode]
      omega

theorem started_step (hlim : limited wf s a = true) (hs : executionStep wf s a = some s') :
    started s' ≤ max (started s) maxWorkflowSteps := by
  cases a with
  | loop c e => exact started_loop hlim hs
  | signalContinue input =>
    have hbelow : started s < maxWorkflowSteps := of_decide_eq_true hlim
    have hone := started_signalContinue wf s input
    rw [executionStep] at hs
    split at hs
    · cases hs
      omega
    · cases hs

theorem enterAll_total_le (wf : Wf) (r : Run) (input : Option Data) (ns : List Nat) :
    (enterAll wf r input ns).ctx.totalExecutions ≤ r.ctx.totalExecutions + ns.length := by
  induction ns generalizing r with
  | nil => exact le_rfl
  | cons n ns ih =>
    have hfirst : (enterNode wf r n input).ctx.totalExecutions ≤ r.ctx.totalExecutions + 1 :=
      (executeNode_total ..).2
    have hrest := ih (enterNode wf r n input)
    rw [enterAll, foldl_cons, length_cons]
    rw [enterAll] at hrest
    omega

theorem started_csilkWfRun (wf : Wf) (input : Option Data) :
    started (.of (csilkWfRun wf input)) ≤ (entryNodes wf).length := by
  have hone (r : Run) : started (.of r) = r.ctx.totalExecutions := sum_singleton
  have hentries := enterAll_total_le wf (beginRun wf input).hold input (entryNodes wf)
  have hentries : _ ≤ 0 + (entryNodes wf).length := hentries
  rw [zero_add] at hentries
  unfold csilkWfRun
  dsimp only
  split
  · exact Nat.zero_le _
  · split
    · split
      · exact hentries
      · exact hentries
    · split
      · exact hentries
      · exact hentries

/-- Such a run starts no more nodes than the limit allows, or than it has entries. -/
theorem started_le_of_limited (wf : Wf) (input : Option Data) (s : Execution)
    (h : (executions wf input).Reachable (fun s a => limited wf s a = true) s) :
    started s ≤ max maxWorkflowSteps (entryNodes wf).length := by
  apply h.invariant (P := fun s => started s ≤ max maxWorkflowSteps (entryNodes wf).length)
  · intro s hs
    cases hs
    have hrun := started_csilkWfRun wf input
    omega
  · intro s a s' hle hlim hs
    have hstep := started_step hlim hs
    omega

def looping : List Call := [.add (ascii "a"), .setEntry 0 true, .bind 0 0]

theorem started_le_looping : ∃ s, (executions (build looping) none).Reachable
    (fun s a => limited (build looping) s a = true) s ∧ started s = 2 ∧
      started s ≤ max maxWorkflowSteps (entryNodes (build looping)).length := by
  have hrun := (executions (build looping) none).run
    (p := fun s a => limited (build looping) s a = true) (.of (csilkWfRun (build looping) none))
    [.loop 0 (.workDone 0 none)] rfl rfl
  exact ⟨_, hrun, rfl, started_le_of_limited (build looping) none _ hrun⟩

def rerouting : List Call := [.add (ascii "a"), .route 0 (some fun _ => some (ascii "a"))]

def Retrying (s : Execution) : Prop :=
  ∃ input counts total active outputs tokens paused approved ttl registered wal ids marks, s =
    ⟨[⟨input, counts, total, active, outputs, tokens, false, paused, approved, ttl, registered, false,
      [⟨0, none, false, 0, .idle⟩]⟩], wal, ids, marks, []⟩

structure Restarts (wf : Wf) : Prop where
  first : Retrying (.of (csilkWfRun wf none))
  again : ∀ s, Retrying s → ∃ s', (executions wf none).step s (.loop 0 (.workDone 0 none)) =
    some s' ∧ Retrying s' ∧ started s' = started s + 1

theorem Restarts.unbounded (h : Restarts wf) (k : Nat) :
    ∃ s, (executions wf none).Reachable (fun _ _ => True) s ∧ k ≤ started s := by
  have hrun : ∃ s, (executions wf none).Reachable (fun _ _ => True) s ∧ Retrying s ∧
      k ≤ started s := by
    induction k with
    | zero => exact ⟨_, .init rfl, h.first, Nat.zero_le _⟩
    | succ k ih =>
      obtain ⟨s, hs, hretry, hle⟩ := ih
      obtain ⟨s', hs', hretry', hone⟩ := h.again s hretry
      exact ⟨s', .step hs trivial hs', hretry', hone ▸ Nat.succ_le_succ hle⟩
  obtain ⟨s, hs, _, hle⟩ := hrun
  exact ⟨s, hs, hle⟩

theorem Restarts.retrying : Restarts (build retrying) := by
  constructor
  · exact ⟨_, _, _, _, _, _, _, _, _, _, _, _, _, rfl⟩
  · rintro s ⟨input, counts, total, active, outputs, tokens, paused, approved, ttl, registered, wal, ids, marks, rfl⟩
    exact ⟨_, rfl, ⟨_, _, _, _, _, _, _, _, _, _, _, _, _, rfl⟩, rfl⟩

theorem Restarts.rerouting : Restarts (build rerouting) := by
  constructor
  · exact ⟨_, _, _, _, _, _, _, _, _, _, _, _, _, rfl⟩
  · rintro s ⟨input, counts, total, active, outputs, tokens, paused, approved, ttl, registered, wal, ids, marks, rfl⟩
    exact ⟨_, rfl, ⟨_, _, _, _, _, _, _, _, _, _, _, _, _, rfl⟩, rfl⟩

/-- Neither an error route nor a router is bound by the limit. -/
theorem started_beyond_limit : (∃ s, (executions (build retrying) none).Reachable
      (fun _ _ => True) s ∧ max maxWorkflowSteps (entryNodes (build retrying)).length < started s) ∧
    ∃ s, (executions (build rerouting) none).Reachable (fun _ _ => True) s ∧
      max maxWorkflowSteps (entryNodes (build rerouting)).length < started s :=
  ⟨Restarts.retrying.unbounded _, Restarts.rerouting.unbounded _⟩

end Csilk.Workflow
