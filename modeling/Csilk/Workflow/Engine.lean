import Csilk.Workflow.Graph
import Csilk.Lib.Transition

namespace Csilk.Workflow

inductive Timer
  | idle
  | timeout
  | retry
  deriving DecidableEq, Repr

structure Work where
  node : Nat
  input : Option Data
  isTimedOut : Bool
  retryCount : Nat
  timer : Timer
  deriving DecidableEq, Repr

inductive EventType
  | start
  | nodeStart
  | nodeFinish
  | pause
  | ended
  deriving DecidableEq, Repr

/-- A record of the WAL: its payload is three strings, none of them NULL. -/
structure Record where
  type : EventType
  nodeId : Bytes
  dataType : Bytes
  dataVal : Bytes
  deriving DecidableEq, Repr

/-- `csilk_wf_ctx_t` with the work it has outstanding; `freed` once cleaned up. -/
structure Ctx where
  initialInput : Option Data
  inputCounts : Nat → Nat
  totalExecutions : Nat
  nodesActive : Int
  nodeOutputs : Nat → Option Data
  totalTokens : Int
  isTerminated : Bool
  isPaused : Bool
  nodeApproved : Nat → Bool
  ttlArmed : Bool
  registered : Bool
  freed : Bool
  works : List Work

/-- Every edge that fired, and whether it started its target, and every node started otherwise. -/
inductive Mark
  | fired (src pos target : Nat) (started : Bool)
  | entered (n : Nat)
  deriving DecidableEq, Repr

/-- A context, the WAL, the paused nodes, the marks and the results of the completion callback. -/
structure Run where
  ctx : Ctx
  wal : List Record
  paused : List Nat
  marks : List Mark
  callbacks : List (Option Data)

def maxWorkflowSteps : Nat := 1000

/-- `_wf_wal_log_event`: NULL strings are written as empty ones. -/
def logged (wf : Wf) (type : EventType) (nodeId : Bytes) (data : Option Data) : List Record :=
  if wf.walDir then
    [⟨type, nodeId, (data.bind Data.type).getD [], (data.bind Data.value).getD []⟩]
  else []

def Run.mark (r : Run) (m : Mark) : Run := { r with marks := m :: r.marks }

def Run.setCount (r : Run) (t count : Nat) : Run :=
  { r with ctx := { r.ctx with inputCounts := Function.update r.ctx.inputCounts t count } }

def Run.release (r : Run) : Run :=
  { r with ctx := { r.ctx with nodesActive := r.ctx.nodesActive - 1 } }

def Run.cleanup (r : Run) : Run :=
  { r with ctx := { r.ctx with registered := false, freed := true } }

def Run.callback (r : Run) (result : Option Data) : Run :=
  { r with callbacks := r.callbacks ++ [result] }

def pauseNode (wf : Wf) (r : Run) (n : Nat) (node : Node) (input : Option Data) : Run :=
  { r with
    ctx := { r.ctx with isPaused := true }
    wal := r.wal ++ logged wf .pause node.id input
    paused := r.paused ++ [n] }

def newWork (n : Nat) (node : Node) (input : Option Data) : Work :=
  ⟨n, input, false, 0, if 0 < node.timeoutMs then .timeout else .idle⟩

def startNode (wf : Wf) (r : Run) (n : Nat) (node : Node) (input : Option Data) : Run :=
  { r with
    wal := r.wal ++ logged wf .nodeStart node.id none
    ctx := { r.ctx with
      totalExecutions := r.ctx.totalExecutions + 1
      nodesActive := r.ctx.nodesActive + 1
      works := r.ctx.works ++ [newWork n node input] } }

def executeNode (wf : Wf) (r : Run) (n : Nat) (input : Option Data) : Run :=
  match wf.nodes[n]? with
  | none => r
  | some node =>
    if r.ctx.isTerminated then r
    else if node.isInteractive && !r.ctx.nodeApproved n then pauseNode wf r n node input
    else startNode wf r n node input

def enterNode (wf : Wf) (r : Run) (n : Nat) (input : Option Data) : Run :=
  executeNode wf (r.mark (.entered n)) n input

def threshold (wf : Wf) (t : Nat) : Nat :=
  match wf.nodes[t]? with
  | none => 1
  | some node => if node.incomingCount = 0 then 1 else node.incomingCount

/-- One edge of the loop, with whether it adds to `triggered_count`. -/
def followEdge (wf : Wf) (r : Run) (src pos : Nat) (e : Edge) (output : Option Data) : Run × Nat :=
  if e.fires output then
    if r.ctx.totalExecutions < maxWorkflowSteps then
      if threshold wf e.target ≤ r.ctx.inputCounts e.target + 1 then
        (executeNode wf ((r.setCount e.target 0).mark (.fired src pos e.target true)) e.target
          output, 1)
      else
        ((r.setCount e.target (r.ctx.inputCounts e.target + 1)).mark
          (.fired src pos e.target false), 0)
    else (r.mark (.fired src pos e.target false), 0)
  else (r, 0)

def followEdges (wf : Wf) (src : Nat) (output : Option Data) (r : Run) (pos : Nat) :
    List Edge → Run × Nat
  | [] => (r, 0)
  | e :: es =>
    let first := followEdge wf r src pos e output
    let rest := followEdges wf src output first.1 (pos + 1) es
    (rest.1, first.2 + rest.2)

def dispatch (wf : Wf) (r : Run) (n : Nat) (node : Node) (output : Option Data) : Run × Nat :=
  match node.routerFn with
  | some router =>
    match (router output).bind (csilkWfGetNode wf) with
    | some target => (enterNode wf r target output, 1)
    | none => (r, 0)
  | none => followEdges wf n output r 0 node.edges

def recordOutput (wf : Wf) (r : Run) (n : Nat) (node : Node) (output : Option Data) : Run :=
  let tokens := r.ctx.totalTokens + (output.map Data.tokens).getD 0
  { r with
    ctx := { r.ctx with
      nodeOutputs := Function.update r.ctx.nodeOutputs n output
      totalTokens := tokens
      isTerminated := r.ctx.isTerminated || (0 < wf.maxTokens && wf.maxTokens < tokens) }
    wal := r.wal ++ logged wf .nodeFinish node.id output }

def leaveTerminated (r : Run) : Run :=
  if r.release.ctx.nodesActive = 0 then (r.release.callback none).cleanup else r.release

/-- The run is over when nothing was triggered and nothing is left. -/
def leaveNormal (wf : Wf) (r : Run) (triggered : Nat) (output : Option Data) : Run :=
  if triggered = 0 ∧ r.release.ctx.nodesActive = 0 then
    ({ r.release with wal := r.release.wal ++ logged wf .ended [] none }.callback output).cleanup
  else r.release

def errorRoute (node : Node) (output : Option Data) : Option Nat :=
  if output.isNone then node.errorTarget else none

/-- `after_worker_cb` for a node that is not tried again. -/
def finishNode (wf : Wf) (r : Run) (n : Nat) (node : Node) (output : Option Data) : Run :=
  if (recordOutput wf r n node output).ctx.isTerminated then
    leaveTerminated (recordOutput wf r n node output)
  else
    match errorRoute node output with
    | some target => (enterNode wf (recordOutput wf r n node output) target none).release
    | none =>
      leaveNormal wf (dispatch wf (recordOutput wf r n node output) n node output).1
        (dispatch wf (recordOutput wf r n node output) n node output).2 output

def checkSchema (node : Node) (output : Option Data) : Option Data :=
  match output, node.outputSchema with
  | some data, some rejects => if data.value.any rejects then none else some data
  | output, _ => output

def Work.output (w : Work) (output : Option Data) : Option Data :=
  if w.isTimedOut then none else output

/-- `after_worker_cb` tries a failed node again while it has retries left. -/
def Work.retries (w : Work) (node : Node) (output : Option Data) : Bool :=
  (w.output output).isNone && w.retryCount < node.maxRetries

def Work.again (w : Work) (node : Node) : Work :=
  { w with
    retryCount := w.retryCount + 1
    timer := if 0 < node.retryDelayMs then .retry else .idle }

def Run.setWork (r : Run) (i : Nat) (w : Work) : Run :=
  { r with ctx := { r.ctx with works := r.ctx.works.set i w } }

def Run.dropWork (r : Run) (i : Nat) : Run :=
  { r with ctx := { r.ctx with works := r.ctx.works.eraseIdx i } }

def afterWorkerCb (wf : Wf) (r : Run) (i : Nat) (w : Work) (node : Node) (output : Option Data) :
    Run :=
  if w.retries node output then r.setWork i (w.again node)
  else finishNode wf (r.dropWork i) w.node node (checkSchema node (w.output output))

def onWorkflowTtl (r : Run) : Run :=
  { r with ctx := { r.ctx with isTerminated := true, ttlArmed := false } }

inductive Event
  | workDone (i : Nat) (output : Option Data)
  | retryTimer (i : Nat)
  | nodeTimeout (i : Nat)
  | ttl
  deriving DecidableEq, Repr

def loopStep (wf : Wf) (r : Run) : Event → Option Run
  | .workDone i output =>
    match r.ctx.works[i]? with
    | none => none
    | some w =>
      match wf.nodes[w.node]? with
      | none => none
      | some node =>
        if r.ctx.freed || w.timer = .retry then none
        else some (afterWorkerCb wf r i w node output)
  | .retryTimer i =>
    match r.ctx.works[i]? with
    | none => none
    | some w =>
      if r.ctx.freed || w.timer ≠ .retry then none else some (r.setWork i { w with timer := .idle })
  | .nodeTimeout i =>
    match r.ctx.works[i]? with
    | none => none
    | some w =>
      if r.ctx.freed || w.timer ≠ .timeout then none
      else some (r.setWork i { w with timer := .idle, isTimedOut := true })
  | .ttl =>
    if r.ctx.freed || !r.ctx.ttlArmed then none else some (onWorkflowTtl r)

def Ctx.new (input : Option Data) (ttlArmed registered : Bool) : Ctx :=
  ⟨input, fun _ => 0, 0, 0, fun _ => none, 0, false, false, fun _ => false, ttlArmed, registered,
    false, []⟩

/-- The nodes marked as entries, or else the first that no edge leads to. -/
def entryNodes (wf : Wf) : List Nat :=
  match (List.range wf.nodes.length).filter fun n => wf.nodes[n]?.any Node.isEntry with
  | [] => (wf.nodes.findIdx? fun node => node.incomingCount = 0).toList
  | entries => entries

def beginRun (wf : Wf) (input : Option Data) : Run :=
  ⟨Ctx.new input (0 < wf.ttlSec) true, logged wf .start [] input, [], [], []⟩

def Run.hold (r : Run) : Run :=
  { r with ctx := { r.ctx with nodesActive := r.ctx.nodesActive + 1 } }

def enterAll (wf : Wf) (r : Run) (input : Option Data) (ns : List Nat) : Run :=
  ns.foldl (fun r n => enterNode wf r n input) r

def csilkWfRun (wf : Wf) (input : Option Data) : Run :=
  let r := (enterAll wf (beginRun wf input).hold input (entryNodes wf)).release
  if wf.nodes = [] then (Run.mk (Ctx.new input false false) [] [] [] [none]).cleanup
  else if entryNodes wf = [] then
    if r.ctx.nodesActive = 0 then (r.callback none).cleanup else r.callback none
  else if r.ctx.nodesActive = 0 then r.cleanup
  else r

def system (wf : Wf) (input : Option Data) : Lib.System Run Event where
  init r := r = csilkWfRun wf input
  step := loopStep wf

theorem threshold_pos : 1 ≤ threshold wf t := by
  unfold threshold
  split
  · exact Nat.le_refl 1
  · split
    · exact Nat.le_refl 1
    · exact Nat.one_le_iff_ne_zero.2 ‹_›

theorem threshold_eq (hwf : WellFormed wf) (he : wf.edge? (src, pos) = some e) :
    threshold wf e.target = (incoming wf e.target).length := by
  have hmem : (src, pos) ∈ incoming wf e.target := mem_incoming.2 ⟨e, he, rfl⟩
  have hnode := List.getElem?_eq_getElem (hwf.inside he)
  have hcount := (hwf.counted _ _ hnode).trans length_incoming.symm
  rw [threshold, hnode]
  dsimp only
  rw [hcount, if_neg (List.length_pos_of_mem hmem).ne']

def finishing (wf : Wf) (r : Run) : Event → Option (Nat × Node × Option Data)
  | .workDone i output =>
    r.ctx.works[i]?.bind fun w => wf.nodes[w.node]?.bind fun node =>
      if w.retries node output then none
      else some (w.node, node, checkSchema node (w.output output))
  | _ => none

inductive Touch (wf : Wf) : Work → Work → Prop
  | again {w : Work} {node : Node} (hnode : wf.nodes[w.node]? = some node)
      (hleft : w.retryCount < node.maxRetries) (hqueued : w.timer ≠ .retry) : Touch wf w (w.again node)
  | wake {w : Work} (hwait : w.timer = .retry) : Touch wf w { w with timer := .idle }
  | expire {w : Work} (harmed : w.timer = .timeout) : Touch wf w { w with timer := .idle, isTimedOut := true }

inductive Stepped (wf : Wf) (r : Run) (e : Event) : Run → Prop
  | finish (hw : r.ctx.works[i]? = some w) (hnode : wf.nodes[w.node]? = some node)
      (hfin : finishing wf r e = some (w.node, node, output)) (he : e = .workDone i o)
      (hout : output = checkSchema node (w.output o)) :
      Stepped wf r e (finishNode wf (r.dropWork i) w.node node output)
  | touch (hw : r.ctx.works[i]? = some w) (ht : Touch wf w w') (hfin : finishing wf r e = none)
      (htime : w'.isTimedOut = w.isTimedOut ∨ e = .nodeTimeout i) :
      Stepped wf r e (r.setWork i w')
  | ttl (harmed : r.ctx.ttlArmed = true) (hfin : finishing wf r e = none) (he : e = .ttl) :
      Stepped wf r e (onWorkflowTtl r)

theorem loopStep_stepped (h : loopStep wf r e = some r') :
    r.ctx.freed = false ∧ Stepped wf r e r' := by
  cases e with
  | workDone i output =>
    rw [loopStep] at h
    split at h
    · cases h
    case h_2 w hw =>
      split at h
      · cases h
      case h_2 node hnode =>
        have hfin : finishing wf r (.workDone i output) = if w.retries node output then none
            else some (w.node, node, checkSchema node (w.output output)) := by
          rw [finishing, hw, Option.bind_some, hnode, Option.bind_some]
        split at h
        · cases h
        case isFalse hqueued =>
          rw [Bool.or_eq_true, decide_eq_true_eq, not_or, Bool.not_eq_true] at hqueued
          cases h
          rw [afterWorkerCb]
          split
          case isTrue hretry =>
            rw [if_pos hretry] at hfin
            rw [Work.retries, Bool.and_eq_true, decide_eq_true_eq] at hretry
            exact ⟨hqueued.1, .touch hw (.again hnode hretry.2 hqueued.2) hfin (.inl rfl)⟩
          case isFalse hretry =>
            rw [if_neg hretry] at hfin
            exact ⟨hqueued.1, .finish hw hnode hfin rfl rfl⟩
  | retryTimer i =>
    rw [loopStep] at h
    split at h
    · cases h
    case h_2 w hw =>
      split at h
      · cases h
      case isFalse hwait =>
        rw [Bool.or_eq_true, decide_eq_true_eq, not_or, not_not, Bool.not_eq_true] at hwait
        cases h
        exact ⟨hwait.1, .touch hw (.wake hwait.2) rfl (.inl rfl)⟩
  | nodeTimeout i =>
    rw [loopStep] at h
    split at h
    · cases h
    case h_2 w hw =>
      split at h
      · cases h
      case isFalse harmed =>
        rw [Bool.or_eq_true, decide_eq_true_eq, not_or, not_not, Bool.not_eq_true] at harmed
        cases h
        exact ⟨harmed.1, .touch hw (.expire harmed.2) rfl (.inr rfl)⟩
  | ttl =>
    rw [loopStep] at h
    split at h
    · cases h
    case isFalse harmed =>
      rw [Bool.or_eq_true, not_or, Bool.not_eq_true, Bool.not_eq_true', Bool.not_eq_false] at harmed
      cases h
      exact ⟨harmed.1, .ttl harmed.2 rfl rfl⟩

inductive Next
  | enter (target : Option Nat)
  | follow

def next (wf : Wf) (node : Node) (output : Option Data) : Next :=
  match errorRoute node output with
  | some target => .enter (some target)
  | none =>
    match node.routerFn with
    | some router => .enter ((router output).bind (csilkWfGetNode wf))
    | none => .follow

inductive Finished (wf : Wf) (r : Run) (n : Nat) (node : Node) (output : Option Data) (r' : Run) :
    Prop
  | terminated (hterm : r.ctx.isTerminated = true) (heq : r' = leaveTerminated r)
  | error (hlive : r.ctx.isTerminated = false) (hnext : next wf node output = .enter (some t))
      (heq : r' = (enterNode wf r t none).release)
  | route (hlive : r.ctx.isTerminated = false) (hnext : next wf node output = .enter (some t))
      (heq : r' = leaveNormal wf (enterNode wf r t output) 1 output)
  | nowhere (hlive : r.ctx.isTerminated = false) (hnext : next wf node output = .enter none)
      (heq : r' = leaveNormal wf r 0 output)
  | follow (hlive : r.ctx.isTerminated = false) (hnext : next wf node output = .follow)
      (heq : r' = leaveNormal wf (followEdges wf n output r 0 node.edges).1
        (followEdges wf n output r 0 node.edges).2 output)

theorem finishNode_finished (wf : Wf) (r : Run) (n : Nat) (node : Node) (output : Option Data) :
    Finished wf (recordOutput wf r n node output) n node output (finishNode wf r n node output) := by
  generalize hrec : recordOutput wf r n node output = s
  unfold finishNode
  rw [hrec]
  split
  case isTrue hterm => exact .terminated hterm rfl
  case isFalse hlive =>
    rw [Bool.not_eq_true] at hlive
    cases herror : errorRoute node output with
    | some target =>
      apply Finished.error hlive _ rfl
      rw [next, herror]
    | none =>
      cases hrouter : node.routerFn with
      | none =>
        apply Finished.follow hlive
        · rw [next, herror, hrouter]
        · rw [dispatch, hrouter]
      | some router =>
        cases htarget : (router output).bind (csilkWfGetNode wf) with
        | none =>
          apply Finished.nowhere hlive
          · simp only [next, herror, hrouter, htarget]
          · simp only [dispatch, hrouter, htarget]
        | some t =>
          apply Finished.route (t := t) hlive
          · simp only [next, herror, hrouter, htarget]
          · simp only [dispatch, hrouter, htarget]

/-- Where a finished node leads, before its place is given up. -/
inductive Goes (wf : Wf) (r : Run) (n : Nat) (node : Node) (output : Option Data) : Run → Prop
  | stay : Goes wf r n node output (recordOutput wf r n node output)
  | enter (hlive : r.ctx.isTerminated = false) (hnext : next wf node output = .enter (some t)) :
      Goes wf r n node output (enterNode wf (recordOutput wf r n node output) t input)
  | follow (hlive : r.ctx.isTerminated = false) (hnext : next wf node output = .follow) :
      Goes wf r n node output
        (followEdges wf n output (recordOutput wf r n node output) 0 node.edges).1

theorem finishNode_goes (wf : Wf) (r : Run) (n : Nat) (node : Node) (output : Option Data) :
    ∃ mid, Goes wf r n node output mid ∧ ∃ active registered freed wal callbacks,
      finishNode wf r n node output = { mid with
        ctx := { mid.ctx with nodesActive := active, registered := registered, freed := freed }
        wal := wal
        callbacks := callbacks } := by
  have hbefore (hlive : (recordOutput wf r n node output).ctx.isTerminated = false) :
      r.ctx.isTerminated = false := by
    rw [recordOutput, Bool.or_eq_false_iff] at hlive
    exact hlive.1
  have hnormal (mid : Run) (triggered : Nat) : ∃ active registered freed wal callbacks,
      leaveNormal wf mid triggered output = { mid with
        ctx := { mid.ctx with nodesActive := active, registered := registered, freed := freed }
        wal := wal
        callbacks := callbacks } := by
    unfold leaveNormal
    split
    · exact ⟨_, _, _, _, _, rfl⟩
    · exact ⟨_, _, _, _, _, rfl⟩
  cases finishNode_finished wf r n node output with
  | terminated hterm heq =>
    refine ⟨_, .stay, ?_⟩
    rw [heq]
    unfold leaveTerminated
    split
    · exact ⟨_, _, _, _, _, rfl⟩
    · exact ⟨_, _, _, _, _, rfl⟩
  | error hlive hnext heq => exact ⟨_, .enter (hbefore hlive) hnext, _, _, _, _, _, heq⟩
  | route hlive hnext heq => exact ⟨_, .enter (hbefore hlive) hnext, heq ▸ hnormal _ _⟩
  | nowhere hlive hnext heq => exact ⟨_, .stay, heq ▸ hnormal _ _⟩
  | follow hlive hnext heq => exact ⟨_, .follow (hbefore hlive) hnext, heq ▸ hnormal _ _⟩

end Csilk.Workflow
