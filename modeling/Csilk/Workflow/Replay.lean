import Csilk.Workflow.Engine

namespace Csilk.Workflow
open List Function

theorem csilkWfGetNode_lt {id : Bytes} (h : csilkWfGetNode wf id = some n) : n < wf.nodes.length :=
  (findIdx?_eq_some_iff_getElem.1 h).1

theorem csilkWfGetNode_of_nodup (hids : (wf.nodes.map Node.id).Nodup)
    (hnode : wf.nodes[n]? = some node) : csilkWfGetNode wf node.id = some n := by
  obtain ⟨hlt, heq⟩ := List.getElem?_eq_some_iff.1 hnode
  apply findIdx?_eq_some_iff_getElem.2 ⟨hlt, decide_eq_true (congrArg Node.id heq), _⟩
  intro j hj hsame
  have hinj := (pairwise_iff_getElem.1 hids) j n (by rw [length_map]; omega)
    (by rwa [length_map]) hj
  rw [getElem_map, getElem_map, heq] at hinj
  exact hinj (of_decide_eq_true hsame)

def countEdges (counts : Nat → Nat) (edges : List Edge) : Nat → Nat :=
  edges.foldl (fun counts e => update counts e.target (counts e.target + 1)) counts

def replayFinish (wf : Wf) (ctx : Ctx) (rec : Record) : Ctx :=
  match csilkWfGetNode wf rec.nodeId with
  | none => ctx
  | some n =>
    { ctx with
      nodeOutputs := update ctx.nodeOutputs n
        (some ⟨some rec.dataType, some rec.dataVal, 0⟩)
      inputCounts := countEdges ctx.inputCounts ((wf.nodes[n]?.map Node.edges).getD []) }

structure Replay where
  ctx : Ctx
  started : List Nat
  finished : List Nat
  ended : Bool

def replayRecord (wf : Wf) (p : Replay) (rec : Record) : Replay :=
  match rec.type with
  | .start => p
  | .nodeStart => { p with started := p.started ++ (csilkWfGetNode wf rec.nodeId).toList }
  | .nodeFinish =>
    { p with
      ctx := replayFinish wf p.ctx rec
      finished := p.finished ++ (csilkWfGetNode wf rec.nodeId).toList }
  | .pause =>
    { p with ctx := { p.ctx with
      isPaused := p.ctx.isPaused || (csilkWfGetNode wf rec.nodeId).isSome } }
  | .ended => { p with ended := true }

def replay (wf : Wf) (wal : List Record) : Replay :=
  wal.foldl (replayRecord wf) ⟨Ctx.new none false false, [], [], false⟩

def triggerInput (wf : Wf) (p : Replay) (n : Nat) : Option Data :=
  (List.range wf.nodes.length).foldl (fun input j =>
    if j ∈ p.finished ∧ (wf.nodes[j]?.any fun node => node.edges.any fun e => e.target = n) then
      p.ctx.nodeOutputs j
    else input) p.ctx.initialInput

/-- It was started and not finished, or never started and its counter has reached the threshold. -/
def triggers (wf : Wf) (p : Replay) (n : Nat) : Bool :=
  if n ∈ p.started then n ∉ p.finished else threshold wf n ≤ p.ctx.inputCounts n

def csilkWfResume (wf : Wf) (wal : List Record) : Run :=
  let p := replay wf wal
  let r : Run := ⟨p.ctx, wal, [], [], []⟩
  if p.ended then (r.callback none).cleanup
  else if p.ctx.isPaused then r.cleanup
  else ((List.range wf.nodes.length).filter (triggers wf p)).foldl
    (fun r n => enterNode wf r n (triggerInput wf p n)) r

def continueRecord (wf : Wf) (p : Ctx × Option Bytes) (rec : Record) : Ctx × Option Bytes :=
  match rec.type with
  | .nodeFinish => (replayFinish wf p.1 rec, p.2)
  | .pause => (p.1, some rec.nodeId)
  | _ => p

def continueReplay (wf : Wf) (wal : List Record) : Ctx × Option Bytes :=
  wal.foldl (continueRecord wf) (Ctx.new none false false, none)

/-- The context a run began with and one for every approval. -/
structure Execution where
  ctxs : List Ctx
  wal : List Record
  paused : List Nat
  marks : List Mark
  callbacks : List (Option Data)

def Execution.view (s : Execution) (ctx : Ctx) : Run :=
  ⟨ctx, s.wal, s.paused, s.marks, s.callbacks⟩

def Execution.store (s : Execution) (c : Nat) (r : Run) : Execution :=
  ⟨s.ctxs.set c r.ctx, r.wal, r.paused, r.marks, r.callbacks⟩

/-- Only the context of `csilk_wf_run` is ever registered. -/
def cleanupStaleCtx (ctx : Ctx) : Ctx :=
  if ctx.registered && !ctx.freed then
    { ctx with
      isTerminated := true
      registered := false
      freed := ctx.nodesActive = 0 }
  else ctx

def Ctx.approve (ctx : Ctx) (n : Nat) : Ctx :=
  { ctx with nodeApproved := update ctx.nodeApproved n true }

def approveNode (wf : Wf) (s : Execution) (ctx : Ctx) (n : Nat) (input : Option Data) : Run :=
  enterNode wf ⟨ctx.approve n, s.wal, s.paused.erase n, s.marks, s.callbacks⟩ n input

def Execution.extend (old : List Ctx) (r : Run) : Execution :=
  ⟨old ++ [r.ctx], r.wal, r.paused, r.marks, r.callbacks⟩

/-- The last paused node of the WAL is approved and started in a new context, which is not
registered. -/
def csilkWfSignalContinue (wf : Wf) (s : Execution) (input : Option Data) : Execution :=
  let old := s.ctxs.map cleanupStaleCtx
  let p := continueReplay wf s.wal
  match p.2 with
  | none => { s with ctxs := old }
  | some id =>
    match csilkWfGetNode wf id with
    | none => { s with ctxs := old ++ [p.1] }
    | some n => .extend old (approveNode wf s p.1 n input)

inductive Action
  | loop (c : Nat) (e : Event)
  | signalContinue (input : Option Data)

/-- An approval needs a paused node and a WAL to continue from. -/
def executionStep (wf : Wf) (s : Execution) : Action → Option Execution
  | .loop c e =>
    match s.ctxs[c]? with
    | none => none
    | some ctx => (loopStep wf (s.view ctx) e).map (s.store c)
  | .signalContinue input =>
    if wf.walDir && !s.paused.isEmpty then some (csilkWfSignalContinue wf s input) else none

def Execution.of (r : Run) : Execution := .extend [] r

def executions (wf : Wf) (input : Option Data) : Lib.System Execution Action where
  init s := s = .of (csilkWfRun wf input)
  step := executionStep wf

end Csilk.Workflow
