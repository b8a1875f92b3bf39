import Csilk.Workflow.Replay

namespace Csilk.Workflow
open List Option

def awaits (wf : Wf) (ctx : Ctx) (n : Nat) : Bool :=
  wf.nodes[n]?.any fun node => node.isInteractive && !ctx.nodeApproved n

def successors (wf : Wf) (node : Node) (output : Option Data) : List Nat :=
  match next wf node output with
  | .enter t => t.toList
  | .follow => (node.edges.filter fun e => e.fires output).map Edge.target

def pausesAlone (wf : Wf) (ctx : Ctx) (node : Node) (output : Option Data) : Bool :=
  ((successors wf node output).all fun t => !awaits wf ctx t) ||
    (ctx.works.length = 1 && (successors wf node output).length = 1)

def routesBelowLimit (wf : Wf) (ctx : Ctx) (node : Node) (output : Option Data) : Bool :=
  match next wf node output with
  | .enter _ => ctx.totalExecutions < maxWorkflowSteps
  | .follow => true

def calmFinish (wf : Wf) (ctx : Ctx) (node : Node) (output : Option Data) : Bool :=
  ctx.isTerminated || (pausesAlone wf ctx node output && routesBelowLimit wf ctx node output)

def calm (wf : Wf) (s : Execution) : Action → Bool
  | .loop c e =>
    s.ctxs[c]?.all fun ctx => (finishing wf (s.view ctx) e).all fun (_, node, output) =>
      calmFinish wf ctx node output
  | .signalContinue _ => true

/-- The entries of a run: one of them may be interactive if it is the only one. -/
def calmEntries (wf : Wf) : Bool :=
  ((entryNodes wf).all fun n => !awaits wf (Ctx.new none false false) n) ||
    (entryNodes wf).length = 1

def idOf (wf : Wf) (n : Nat) : Bytes := (wf.nodes[n]?.map Node.id).getD []

def Work.start (w : Work) : Nat × Option Data := (w.node, w.input)

def Started (wf : Wf) (r r' : Run) (starts : List (Nat × Option Data)) : Prop :=
  ∃ new counts marks, r' = { r with
      ctx := { r.ctx with
        inputCounts := counts
        totalExecutions := r.ctx.totalExecutions + starts.length
        nodesActive := r.ctx.nodesActive + starts.length
        works := r.ctx.works ++ new }
      wal := r.wal ++ starts.flatMap fun s => logged wf .nodeStart (idOf wf s.1) none
      marks := marks } ∧
    new.map Work.start = starts ∧ ∀ w ∈ new, w.node < wf.nodes.length ∧ w.isTimedOut = false

theorem Started.none (wf : Wf) (r : Run) (counts : Nat → Nat) (marks : List Mark) :
    Started wf r { r with ctx := { r.ctx with inputCounts := counts }, marks := marks } [] :=
  ⟨[], counts, marks, by simp, rfl, by simp⟩

theorem Started.trans (h : Started wf r r' s) (h' : Started wf r' r'' s') :
    Started wf r r'' (s ++ s') := by
  obtain ⟨new, counts, marks, rfl, hmap, hnew⟩ := h
  obtain ⟨new', counts', marks', rfl, hmap', hnew'⟩ := h'
  refine ⟨new ++ new', counts', marks', ?_, ?_, ?_⟩
  · simp [Nat.add_assoc, Int.add_assoc]
  · rw [map_append, hmap, hmap']
  · intro w hw
    exact (mem_append.1 hw).elim (hnew w) (hnew' w)

theorem Started.length_works (h : Started wf r r' starts) :
    r'.ctx.works.length = r.ctx.works.length + starts.length := by
  obtain ⟨new, counts, marks, rfl, rfl, _⟩ := h
  rw [length_append, length_map]

theorem executeNode_start (hnode : wf.nodes[n]? = some node) (hlive : r.ctx.isTerminated = false)
    (hgo : awaits wf r.ctx n = false) :
    executeNode wf r n input = startNode wf r n node input := by
  rw [awaits, hnode, any_some] at hgo
  rw [executeNode, hnode]
  dsimp only
  rw [hlive, hgo]
  rfl

theorem executeNode_pause (r : Run) (input : Option Data) (hlive : r.ctx.isTerminated = false)
    (hwait : awaits wf r.ctx n = true) :
    ∃ node, wf.nodes[n]? = some node ∧ executeNode wf r n input = pauseNode wf r n node input := by
  cases hnode : wf.nodes[n]? with
  | none =>
    rw [awaits, hnode] at hwait
    cases hwait
  | some node =>
    refine ⟨node, rfl, ?_⟩
    rw [awaits, hnode, any_some] at hwait
    rw [executeNode, hnode]
    dsimp only
    rw [hlive, hwait]
    rfl

theorem Started.execute (hn : n < wf.nodes.length) (hlive : r.ctx.isTerminated = false)
    (hgo : awaits wf r.ctx n = false) : Started wf r (executeNode wf r n input) [(n, input)] := by
  have hnode := getElem?_eq_getElem hn
  rw [executeNode_start hnode hlive hgo]
  refine ⟨[newWork n wf.nodes[n] input], r.ctx.inputCounts, r.marks, ?_, rfl, by simp [newWork, hn]⟩
  simp [startNode, idOf, hnode]

theorem Started.enter (input : Option Data) (hn : n < wf.nodes.length) (hlive : r.ctx.isTerminated = false)
    (hgo : awaits wf r.ctx n = false) : Started wf r (enterNode wf r n input) [(n, input)] :=
  (Started.none wf r r.ctx.inputCounts (.entered n :: r.marks)).trans (.execute hn hlive hgo)

def firing (output : Option Data) (es : List Edge) : List (Nat × Option Data) :=
  (es.filter fun e => e.fires output).map fun e => (e.target, output)

/-- An edge that fires starts its target, unless it waits for others or the limit is reached. -/
theorem Started.followEdge (src pos : Nat) (output : Option Data) (hin : e.target < wf.nodes.length)
    (hlive : r.ctx.isTerminated = false)
    (hgo : e.fires output = true → awaits wf r.ctx e.target = false) :
    ∃ starts, Started wf r (followEdge wf r src pos e output).1 starts ∧
      (followEdge wf r src pos e output).2 = starts.length ∧ (threshold wf e.target ≤ 1 →
        r.ctx.totalExecutions + (firing output [e]).length ≤ maxWorkflowSteps →
        starts = firing output [e]) := by
  rw [Workflow.followEdge, firing, filter_singleton]
  split
  case isFalse hfires =>
    rw [Bool.not_eq_true] at hfires
    rw [hfires]
    exact ⟨[], .none wf r _ _, rfl, fun _ _ => rfl⟩
  case isTrue hfires =>
    rw [hfires]
    split
    case isFalse hlim => exact ⟨[], .none wf r _ _, rfl, fun _ hroom => absurd hroom hlim⟩
    case isTrue =>
      split
      case isFalse hcount => exact ⟨[], .none wf r _ _, rfl, fun hone => absurd (by omega) hcount⟩
      case isTrue =>
        refine ⟨[(e.target, output)], ?_, rfl, fun _ _ => rfl⟩
        exact (Started.none wf r _ _).trans (.execute hin hlive (hgo hfires))

theorem Started.followEdges (src pos : Nat) (output : Option Data) (hin : ∀ e ∈ es, e.target < wf.nodes.length)
    (hlive : r.ctx.isTerminated = false)
    (hgo : ∀ e ∈ es, e.fires output = true → awaits wf r.ctx e.target = false) :
    ∃ starts, Started wf r (followEdges wf src output r pos es).1 starts ∧
      (followEdges wf src output r pos es).2 = starts.length ∧ ((∀ e ∈ es, threshold wf e.target ≤ 1) →
        r.ctx.totalExecutions + (firing output es).length ≤ maxWorkflowSteps →
        starts = firing output es) := by
  induction es generalizing r pos with
  | nil => exact ⟨[], .none wf r _ _, rfl, fun _ _ => rfl⟩
  | cons e es ih =>
    obtain ⟨first, hfirst, hone, hall⟩ := Started.followEdge (r := r) src pos output
      (hin e mem_cons_self) hlive (hgo e mem_cons_self)
    rw [Workflow.followEdges]
    generalize Workflow.followEdge wf r src pos e output = p at hfirst hone ⊢
    obtain ⟨r', count⟩ := p
    have hsame : r'.ctx.isTerminated = r.ctx.isTerminated ∧ r'.ctx.nodeApproved = r.ctx.nodeApproved ∧
        r'.ctx.totalExecutions = r.ctx.totalExecutions + first.length := by
      obtain ⟨new, counts, marks, rfl, _⟩ := hfirst
      exact ⟨rfl, rfl, rfl⟩
    obtain ⟨rest, hrest, hmore, hall'⟩ := ih (r := r') (pos + 1)
      (fun e' he' => hin e' (mem_cons_of_mem _ he')) (hsame.1.trans hlive) (fun e' he' hfires => by
        rw [awaits, hsame.2.1]
        exact hgo e' (mem_cons_of_mem _ he') hfires)
    have hsplit : firing output (e :: es) = firing output [e] ++ firing output es := by
      rw [firing, ← singleton_append, filter_append, map_append]
      rfl
    refine ⟨first ++ rest, hfirst.trans hrest, ?_, fun hready hroom => ?_⟩
    · rw [length_append, ← hmore, ← hone]
    · rw [hsplit, length_append] at hroom
      rw [hsplit, hall (hready e mem_cons_self) (by omega)]
      congr 1
      apply hall' (fun e' he' => hready e' (mem_cons_of_mem _ he'))
      rw [hsame.2.2, hall (hready e mem_cons_self) (by omega)]
      omega

structure Held (wf : Wf) (r : Run) : Prop where
  active : r.ctx.nodesActive = r.ctx.works.length + 1
  known : ∀ w ∈ r.ctx.works, w.node < wf.nodes.length
  freed : r.ctx.freed = false
  paused : r.paused = []
  callbacks : r.callbacks = []

theorem Started.works_ne_nil (h : Started wf r r' starts) (hsome : starts ≠ []) : r'.ctx.works ≠ [] := by
  intro hnil
  have hlen := h.length_works
  rw [hnil, length_nil] at hlen
  exact hsome (eq_nil_of_length_eq_zero (by omega))

structure CtxOk (wf : Wf) (ctx : Ctx) : Prop where
  active : ctx.nodesActive = ctx.works.length
  known : ∀ w ∈ ctx.works, w.node < wf.nodes.length
  freed : ctx.freed = true → ctx.works = []

inductive Outcome (wf : Wf) (r : Run) : Prop
  | running (hworks : r.ctx.works ≠ []) (hpaused : r.paused = []) (hcalls : r.callbacks = [])
  | waiting (hworks : r.ctx.works = []) (hnode : wf.nodes[n]? = some node)
      (hpaused : r.paused = [n]) (hcalls : r.callbacks = [])
      (hlog : wf.walDir = true → (continueReplay wf r.wal).2 = some node.id)
  | ended (hworks : r.ctx.works = []) (hpaused : r.paused = []) (hcalls : r.callbacks = [result])

def Settled (wf : Wf) (r : Run) : Prop := CtxOk wf r.ctx ∧ Outcome wf r

theorem continueReplay_append :
    continueReplay wf (wal ++ recs) = recs.foldl (continueRecord wf) (continueReplay wf wal) :=
  foldl_append ..

theorem next_inside (hwf : WellFormed wf) (hnode : node ∈ wf.nodes)
    (h : next wf node output = .enter (some t)) : t < wf.nodes.length := by
  rw [next] at h
  split at h
  case h_1 target herror =>
    cases h
    rw [errorRoute] at herror
    split at herror
    · exact hwf.errors t (herror ▸ List.mem_map_of_mem hnode)
    · cases herror
  case h_2 =>
    split at h
    · obtain ⟨id, _, hid⟩ := bind_eq_some_iff.1 (Next.enter.inj h)
      exact csilkWfGetNode_lt hid
    · cases h

theorem followEdges_silent (h : es.filter (fun e => e.fires output) = []) :
    followEdges wf src output r pos es = (r, 0) := by
  induction es generalizing pos with
  | nil => rfl
  | cons e es ih =>
    have hfires := filter_eq_nil_iff.1 h e mem_cons_self
    have hfirst : followEdge wf r src pos e output = (r, 0) := if_neg hfires
    rw [filter_cons, if_neg hfires] at h
    rw [followEdges, hfirst]
    rw [ih h]
    rfl

theorem followEdges_single (wf : Wf) (src : Nat) (r : Run) (pos : Nat)
    (h : es.filter (fun e => e.fires output) = [e]) :
    ∃ pos', followEdges wf src output r pos es = followEdge wf r src pos' e output := by
  induction es generalizing pos with
  | nil => cases h
  | cons e' es ih =>
    by_cases hfires : e'.fires output = true
    · rw [filter_cons, if_pos hfires] at h
      obtain ⟨rfl, hrest⟩ := cons_eq_cons.1 h
      refine ⟨pos, ?_⟩
      rw [followEdges, followEdges_silent hrest]
      rfl
    · have hfirst : followEdge wf r src pos e' output = (r, 0) := if_neg hfires
      rw [filter_cons, if_neg hfires] at h
      obtain ⟨pos', heq⟩ := ih (pos + 1) h
      refine ⟨pos', ?_⟩
      rw [followEdges, hfirst, heq]
      exact Prod.ext rfl (Nat.zero_add _)

section

variable (h : Held wf r)
include h

theorem Held.started (hs : Started wf r r' starts) : Held wf r' := by
  have hlen := hs.length_works
  obtain ⟨new, counts, marks, rfl, hmap, hnew⟩ := hs
  refine { h with active := ?_, known := fun w hw => ?_ }
  · rw [hlen]
    dsimp only
    rw [h.active]
    omega
  · exact (mem_append.1 hw).elim (h.known w) fun hw => (hnew w hw).1

theorem Held.ctxOk_release : CtxOk wf r.release.ctx := by
  constructor
  · rw [Run.release, h.active]
    exact Int.add_sub_cancel ..
  · exact h.known
  · intro hfreed
    exact absurd (h.freed.symm.trans hfreed) Bool.false_ne_true

theorem Held.release_running (hworks : r.ctx.works ≠ []) : Settled wf r.release :=
  ⟨h.ctxOk_release, .running hworks h.paused h.callbacks⟩

theorem Held.ended (hzero : r.release.ctx.nodesActive = 0) (wal : List Record) (result : Option Data) :
    Settled wf (({ r.release with wal := wal }.callback result).cleanup) := by
  have hworks : r.ctx.works = [] := by
    have hactive := h.ctxOk_release.active
    rw [hzero] at hactive
    exact eq_nil_of_length_eq_zero (Int.ofNat.inj hactive.symm)
  constructor
  · exact ⟨h.ctxOk_release.active, h.known, fun _ => hworks⟩
  · have hcalls : r.callbacks ++ [result] = [result] := by
      rw [h.callbacks]
      rfl
    exact .ended hworks h.paused hcalls

theorem Held.leave_terminated : Settled wf (leaveTerminated r) := by
  unfold leaveTerminated
  split
  case isTrue hzero => exact h.ended hzero r.wal none
  case isFalse hmore =>
    apply h.release_running
    intro hnil
    apply hmore
    rw [h.ctxOk_release.active, Run.release, hnil]
    rfl

theorem Held.leave_normal (htrig : triggered ≠ 0 → r.ctx.works ≠ []) :
    Settled wf (leaveNormal wf r triggered output) := by
  unfold leaveNormal
  split
  case isTrue hdone => exact h.ended hdone.2 _ output
  case isFalse hmore =>
    apply h.release_running
    intro hnil
    apply hmore
    constructor
    · by_contra hne
      exact htrig hne hnil
    · rw [h.ctxOk_release.active, Run.release, hnil]
      rfl

theorem Held.pause (hworks : r.ctx.works = []) (hnode : wf.nodes[n]? = some node) :
    Settled wf (pauseNode wf r n node input).release := by
  constructor
  · exact ⟨h.ctxOk_release.active, h.known, fun _ => hworks⟩
  · have hpaused : r.paused ++ [n] = [n] := by
      rw [h.paused]
      rfl
    have hlog (hwal : wf.walDir = true) :
        (continueReplay wf (r.wal ++ logged wf .pause node.id input)).2 = some node.id := by
      rw [continueReplay_append, logged, if_pos hwal]
      rfl
    exact .waiting hworks hnode hpaused h.callbacks hlog

theorem Held.mark (m : Mark) : Held wf (r.mark m) :=
  { h with }

theorem Held.followWaiting (hlive : r.ctx.isTerminated = false)
    (hworks : r.ctx.works = []) (hwait : awaits wf r.ctx e.target = true) :
    Settled wf (leaveNormal wf (followEdge wf r src pos e output).1
      (followEdge wf r src pos e output).2 output) := by
  have hzero {r' : Run} (h' : Held wf r') : Settled wf (leaveNormal wf r' 0 output) :=
    h'.leave_normal fun hne => absurd rfl hne
  unfold followEdge
  split
  case isFalse => exact hzero h
  case isTrue =>
    split
    case isFalse => exact hzero (h.mark _)
    case isTrue =>
      split
      case isFalse => exact hzero { h with }
      case isTrue =>
        have h' : Held wf ((r.setCount e.target 0).mark (.fired src pos e.target true)) :=
          { h with }
        obtain ⟨node, hnode, heq⟩ := executeNode_pause
          ((r.setCount e.target 0).mark (.fired src pos e.target true)) output hlive hwait
        rw [heq]
        exact h'.pause hworks hnode

theorem Held.record_output : Held wf (recordOutput wf r n node output) :=
  { h with }

theorem Held.finish (hwf : WellFormed wf) (hnode : node ∈ wf.nodes) (hcalm : r.ctx.isTerminated = false →
      (∀ t ∈ successors wf node output, awaits wf r.ctx t = false) ∨
        r.ctx.works = [] ∧ (successors wf node output).length = 1) :
    Settled wf (finishNode wf r n node output) := by
  have hrec : Held wf (recordOutput wf r n node output) := h.record_output
  generalize hs : recordOutput wf r n node output = s at hrec
  have happroved (t : Nat) : awaits wf s.ctx t = awaits wf r.ctx t := by
    rw [← hs]
    rfl
  have hworks : s.ctx.works = r.ctx.works := by
    rw [← hs]
    rfl
  have hbefore (hlive : s.ctx.isTerminated = false) : r.ctx.isTerminated = false := by
    rw [← hs, recordOutput, Bool.or_eq_false_iff] at hlive
    exact hlive.1
  -- One node is entered: it is started, or paused when nothing else is left.
  have henter (t : Nat) (input : Option Data) (hlive : s.ctx.isTerminated = false)
      (hnext : next wf node output = .enter (some t)) :
      (Held wf (enterNode wf s t input) ∧ (enterNode wf s t input).ctx.works ≠ []) ∨
        Settled wf (enterNode wf s t input).release := by
    have hsucc : successors wf node output = [t] := by rw [successors, hnext]; rfl
    cases hwait : awaits wf s.ctx t with
    | false =>
      have hstarted : Started wf s (enterNode wf s t input) [(t, input)] :=
        .enter input (next_inside hwf hnode hnext) hlive hwait
      exact .inl ⟨hrec.started hstarted, hstarted.works_ne_nil (cons_ne_nil _ _)⟩
    | true =>
      rcases hcalm (hbefore hlive) with hgo | ⟨hnil, _⟩
      · have hgo := hgo t (hsucc ▸ mem_singleton_self t)
        rw [← happroved, hwait] at hgo
        cases hgo
      · obtain ⟨target, htarget, heq⟩ := executeNode_pause (s.mark (.entered t)) input hlive hwait
        rw [enterNode, heq]
        exact .inr ((hrec.mark _).pause (hworks.trans hnil) htarget)
  have hfinish := finishNode_finished wf r n node output
  rw [hs] at hfinish
  cases hfinish with
  | terminated hterm heq =>
    rw [heq]
    exact hrec.leave_terminated
  | error hlive hnext heq =>
    rw [heq]
    rcases henter _ none hlive hnext with ⟨hheld, hmore⟩ | hdone
    · exact hheld.release_running hmore
    · exact hdone
  | route hlive hnext heq =>
    rw [heq]
    rcases henter _ output hlive hnext with ⟨hheld, hmore⟩ | hdone
    · exact hheld.leave_normal fun _ => hmore
    · exact hdone
  | nowhere hlive hnext heq =>
    rw [heq]
    exact hrec.leave_normal fun hne => absurd rfl hne
  | follow hlive hnext heq =>
    rw [heq]
    have hsucc : successors wf node output =
        (node.edges.filter fun e => e.fires output).map Edge.target := by
      rw [successors, hnext]
    by_cases hgo : ∀ t ∈ successors wf node output, awaits wf r.ctx t = false
    · obtain ⟨starts, hstarted, hcount, _⟩ := Started.followEdges n 0 output
        (fun e he => hwf.edges e (mem_flatMap.2 ⟨node, hnode, he⟩)) hlive
        fun e he hfires => (happroved e.target).trans
          (hgo e.target (hsucc ▸ List.mem_map_of_mem (mem_filter.2 ⟨he, hfires⟩)))
      apply (hrec.started hstarted).leave_normal
      intro hne
      apply hstarted.works_ne_nil
      rintro rfl
      exact hne hcount
    · obtain ⟨hnil, hone⟩ := (hcalm (hbefore hlive)).resolve_left hgo
      rw [hsucc, length_map] at hone
      obtain ⟨e, he⟩ := length_eq_one_iff.1 hone
      obtain ⟨pos, hpos⟩ := followEdges_single wf n s 0 he
      rw [hpos]
      apply hrec.followWaiting hlive (hworks.trans hnil)
      rw [happroved]
      by_contra hwait
      apply hgo
      rw [hsucc, he]
      intro t ht
      cases mem_singleton.1 ht
      rwa [Bool.not_eq_true] at hwait

end

structure Once (wf : Wf) (s : Execution) : Prop where
  ctxs : ∀ ctx ∈ s.ctxs, CtxOk wf ctx
  current : ∃ c ctx, s.ctxs[c]? = some ctx ∧ Outcome wf (s.view ctx) ∧
    ∀ (j : Nat) (other : Ctx), j ≠ c → s.ctxs[j]? = some other → other.works = []

theorem Once.store (h : Once wf s) (hc : s.ctxs[c]? = some ctx)
    (hothers : ∀ (j : Nat) (other : Ctx), j ≠ c → s.ctxs[j]? = some other → other.works = [])
    (hr : Settled wf r) : Once wf (s.store c r) := by
  have hlt := (List.getElem?_eq_some_iff.1 hc).1
  constructor
  · intro x hx
    rcases mem_or_eq_of_mem_set hx with hx | rfl
    · exact h.ctxs x hx
    · exact hr.1
  · refine ⟨c, r.ctx, getElem?_set_self hlt, hr.2, ?_⟩
    intro j other hne hj
    exact hothers j other hne ((getElem?_set_ne (Ne.symm hne)).symm.trans hj)

theorem Outcome.of_work {i : Nat} (h : Outcome wf r) (hw : r.ctx.works[i]? = some w) :
    r.paused = [] ∧ r.callbacks = [] := by
  cases h with
  | waiting hworks | ended hworks =>
    rw [hworks] at hw
    cases hw
  | running hworks hpaused hcalls => exact ⟨hpaused, hcalls⟩

theorem CtxOk.held {i : Nat} (hok : CtxOk wf r.ctx) (h : Outcome wf r)
    (hw : r.ctx.works[i]? = some w) (hlive : r.ctx.freed = false) : Held wf (r.dropWork i) := by
  obtain ⟨hpaused, hcalls⟩ := h.of_work hw
  have hlt := (List.getElem?_eq_some_iff.1 hw).1
  constructor
  · rw [Run.dropWork, hok.active]
    rw [length_eraseIdx_of_lt hlt]
    omega
  · intro x hx
    exact hok.known x (mem_of_mem_eraseIdx hx)
  · exact hlive
  · exact hpaused
  · exact hcalls

theorem Outcome.congr (h : Outcome wf r) (hworks : r'.ctx.works = r.ctx.works)
    (hpaused : r'.paused = r.paused) (hcalls : r'.callbacks = r.callbacks) (hwal : r'.wal = r.wal) :
    Outcome wf r' := by
  cases h with
  | running h₁ h₂ h₃ => exact .running (hworks ▸ h₁) (hpaused.trans h₂) (hcalls.trans h₃)
  | waiting h₁ hnode h₂ h₃ hlog =>
    exact .waiting (hworks.trans h₁) hnode (hpaused.trans h₂) (hcalls.trans h₃) (hwal ▸ hlog)
  | ended h₁ h₂ h₃ => exact .ended (hworks.trans h₁) (hpaused.trans h₂) (hcalls.trans h₃)

theorem Touch.node_eq (h : Touch wf w w') : w'.node = w.node := by
  cases h with
  | again | wake | expire => rfl

theorem Touch.input_eq (h : Touch wf w w') : w'.input = w.input := by
  cases h with
  | again | wake | expire => rfl

theorem Settled.setWork {i : Nat} (hok : CtxOk wf r.ctx) (h : Outcome wf r)
    (hw : r.ctx.works[i]? = some w) (hlive : r.ctx.freed = false) (ht : Touch wf w w') :
    Settled wf (r.setWork i w') := by
  obtain ⟨hpaused, hcalls⟩ := h.of_work hw
  have hlt := (List.getElem?_eq_some_iff.1 hw).1
  constructor
  · constructor
    · exact hok.active.trans (congrArg _ (length_set ..).symm)
    · intro x hx
      rcases mem_or_eq_of_mem_set hx with hx | rfl
      · exact hok.known x hx
      · rw [ht.node_eq]
        exact hok.known w (mem_of_getElem? hw)
    · intro hfreed
      exact absurd (hlive.symm.trans hfreed) Bool.false_ne_true
  · have hworks : r.ctx.works.set i w' ≠ [] := by
      intro hnil
      have hlen := congrArg List.length hnil
      rw [length_set, length_nil] at hlen
      omega
    exact .running hworks hpaused hcalls

theorem executionStep_loop (hs : executionStep wf s (.loop c e) = some s') :
    ∃ ctx r, s.ctxs[c]? = some ctx ∧ loopStep wf (s.view ctx) e = some r ∧ s' = s.store c r := by
  rw [executionStep] at hs
  split at hs
  · cases hs
  case h_2 ctx hctx =>
    obtain ⟨r, hr, rfl⟩ := map_eq_some_iff.1 hs
    exact ⟨ctx, r, hctx, hr, rfl⟩

theorem calm_finish (hcalm : calm wf s (.loop c e) = true) (hc : s.ctxs[c]? = some ctx)
    (hfin : finishing wf (s.view ctx) e = some (n, node, output)) :
    calmFinish wf ctx node output = true := by
  rw [calm, hc, all_some, hfin] at hcalm
  exact hcalm

theorem calmFinish_cases (h : calmFinish wf ctx node output = true)
    (hlive : ctx.isTerminated = false) :
    (∀ t ∈ successors wf node output, awaits wf ctx t = false) ∨
      ctx.works.length = 1 ∧ (successors wf node output).length = 1 := by
  rw [calmFinish, hlive, Bool.false_or, Bool.and_eq_true, pausesAlone, Bool.or_eq_true,
    Bool.and_eq_true] at h
  rcases h.1 with hgo | ⟨hone, hsucc⟩
  · left
    intro t ht
    have hgo := List.all_eq_true.1 hgo t ht
    rwa [Bool.not_eq_true'] at hgo
  · exact .inr ⟨of_decide_eq_true hone, of_decide_eq_true hsucc⟩

theorem Once.ttl (h : Once wf s) (hc : s.ctxs[c]? = some ctx) :
    Once wf (s.store c (onWorkflowTtl (s.view ctx))) := by
  obtain ⟨cur, curCtx, hcur, hout, hothers⟩ := h.current
  have hok : CtxOk wf (onWorkflowTtl (s.view ctx)).ctx := { h.ctxs ctx (mem_of_getElem? hc) with }
  by_cases heq : c = cur
  · subst heq
    cases hc.symm.trans hcur
    exact h.store hc hothers ⟨hok, hout.congr rfl rfl rfl rfl⟩
  · constructor
    · intro x hx
      rcases mem_or_eq_of_mem_set hx with hx | rfl
      · exact h.ctxs x hx
      · exact hok
    · refine ⟨cur, curCtx, (getElem?_set_ne heq).trans hcur, hout, ?_⟩
      intro j other hne hj
      by_cases hjc : c = j
      · subst hjc
        cases (getElem?_set_self (List.getElem?_eq_some_iff.1 hc).1).symm.trans hj
        exact hothers c ctx heq hc
      · exact hothers j other hne ((getElem?_set_ne hjc).symm.trans hj)

theorem Once.loop (h : Once wf s) (hwf : WellFormed wf) (hcalm : calm wf s (.loop c e) = true)
    (hs : executionStep wf s (.loop c e) = some s') : Once wf s' := by
  obtain ⟨ctx, r, hc, hr, rfl⟩ := executionStep_loop hs
  obtain ⟨cur, curCtx, hcur, hout, hothers⟩ := h.current
  have hok := h.ctxs ctx (mem_of_getElem? hc)
  obtain ⟨hlive, hstep⟩ := loopStep_stepped hr
  have hactive {i : Nat} {w : Work} (hw : ctx.works[i]? = some w) : c = cur ∧ ctx = curCtx := by
    have heq : c = cur := by
      by_contra hne
      rw [hothers c ctx hne hc] at hw
      cases hw
    subst heq
    exact ⟨rfl, Option.some.inj (hc.symm.trans hcur)⟩
  cases hstep with
  | @finish i w node output _ hw hnode hfin =>
    obtain ⟨rfl, rfl⟩ := hactive hw
    have hheld := CtxOk.held hok hout hw hlive
    apply h.store hc hothers
    apply hheld.finish hwf (mem_of_getElem? hnode)
    intro hterm
    apply (calmFinish_cases (calm_finish hcalm hc hfin) hterm).imp id
    intro hlast
    have hlt := (List.getElem?_eq_some_iff.1 hw).1
    constructor
    · apply eq_nil_of_length_eq_zero
      rw [Run.dropWork, length_eraseIdx_of_lt hlt]
      exact Nat.sub_eq_zero_of_le (le_of_eq hlast.1)
    · exact hlast.2
  | touch hw ht hfin =>
    obtain ⟨rfl, rfl⟩ := hactive hw
    exact h.store hc hothers (.setWork hok hout hw hlive ht)
  | ttl harmed hfin => exact h.ttl hc

def Unused (ctx : Ctx) : Prop :=
  ∃ outputs counts, ctx = { Ctx.new none false false with nodeOutputs := outputs, inputCounts := counts }

theorem Unused.replayFinish {rec : Record} (h : Unused ctx) : Unused (replayFinish wf ctx rec) := by
  unfold Workflow.replayFinish
  split
  · exact h
  · obtain ⟨outputs, counts, rfl⟩ := h
    exact ⟨_, _, rfl⟩

theorem Unused.continueReplay (wf : Wf) (wal : List Record) : Unused (continueReplay wf wal).1 := by
  have hnew : Unused (Ctx.new none false false, (none : Option Bytes)).1 := ⟨_, _, rfl⟩
  unfold Workflow.continueReplay
  generalize (Ctx.new none false false, (none : Option Bytes)) = p at hnew
  induction wal generalizing p with
  | nil => exact hnew
  | cons rec wal ih =>
    apply ih
    unfold continueRecord
    split
    · exact hnew.replayFinish
    · exact hnew
    · exact hnew

theorem cleanupStaleCtx_works (ctx : Ctx) : (cleanupStaleCtx ctx).works = ctx.works := by
  unfold cleanupStaleCtx
  split <;> rfl

theorem CtxOk.cleanup (h : CtxOk wf ctx) (hworks : ctx.works = []) :
    CtxOk wf (cleanupStaleCtx ctx) := by
  unfold cleanupStaleCtx
  split <;> exact { h with freed := fun _ => hworks }

theorem Unused.approve (h : Unused ctx) {s : Execution} (hnode : wf.nodes[n]? = some node)
    (hpaused : s.paused = [n]) (hcalls : s.callbacks = []) :
    Settled wf (approveNode wf s ctx n input) := by
  have hgo : awaits wf (ctx.approve n) n = false := by
    have happroved : (ctx.approve n).nodeApproved n = true := Function.update_self ..
    rw [awaits, hnode, any_some, happroved, Bool.not_true, Bool.and_false]
  obtain ⟨outputs, counts, rfl⟩ := h
  obtain ⟨new, counts', marks, heq, hmap, hnew⟩ := Started.enter
    (r := ⟨Ctx.approve _ n, s.wal, s.paused.erase n, s.marks, s.callbacks⟩) input
    (List.getElem?_eq_some_iff.1 hnode).1 rfl hgo
  have hlen : new.length = 1 := by rw [← length_map (f := Work.start), hmap, length_singleton]
  rw [approveNode, heq]
  constructor
  · exact ⟨congrArg Int.ofNat hlen.symm, fun w hw => (hnew w hw).1, fun hfreed => by cases hfreed⟩
  · refine .running (ne_nil_of_length_eq_add_one hlen) ?_ hcalls
    rw [hpaused]
    exact erase_cons_head ..

theorem Once.extend {ctxs : List Ctx} (hctxs : ∀ ctx ∈ ctxs, CtxOk wf ctx ∧ ctx.works = [])
    (hr : Settled wf r) : Once wf (.extend ctxs r) := by
  constructor
  · intro x hx
    rcases mem_append.1 hx with hx | hx
    · exact (hctxs x hx).1
    · cases mem_singleton.1 hx
      exact hr.1
  · refine ⟨ctxs.length, r.ctx, getElem?_concat_length, hr.2, ?_⟩
    intro j other hne hj
    rw [Execution.extend] at hj
    rcases Nat.lt_or_gt_of_ne hne with hlt | hgt
    · rw [getElem?_append_left hlt] at hj
      exact (hctxs other (mem_of_getElem? hj)).2
    · have hlt := (List.getElem?_eq_some_iff.1 hj).1
      rw [length_append, length_singleton] at hlt
      omega

/-- No node of the run is executing or waiting for a retry timer. -/
def Execution.Idle (s : Execution) : Prop := ∀ ctx ∈ s.ctxs, ctx.works = []

theorem Execution.idle_of {s : Execution} (hcur : s.ctxs[c]? = some ctx) (hworks : ctx.works = [])
    (hothers : ∀ (j : Nat) (other : Ctx), j ≠ c → s.ctxs[j]? = some other → other.works = []) :
    s.Idle := by
  intro x hx
  obtain ⟨j, hj⟩ := mem_iff_getElem?.1 hx
  by_cases heq : j = c
  · subst heq
    cases hj.symm.trans hcur
    exact hworks
  · exact hothers j x heq hj

theorem Once.signalContinue (h : Once wf s) (hids : (wf.nodes.map Node.id).Nodup)
    (hs : executionStep wf s (.signalContinue input) = some s') : Once wf s' := by
  rw [executionStep] at hs
  split at hs
  case isFalse => cases hs
  case isTrue hguard =>
    rw [Bool.and_eq_true, Bool.not_eq_true', isEmpty_eq_false_iff] at hguard
    obtain ⟨hwal, hsome⟩ := hguard
    obtain ⟨cur, curCtx, hcur, hout, hothers⟩ := h.current
    cases hout with
    | running _ hpaused | ended _ hpaused => exact absurd hpaused hsome
    | @waiting n node hworks hnode hpaused hcalls hlog =>
      have hidle := Execution.idle_of hcur hworks hothers
      have hlog : (continueReplay wf s.wal).2 = some node.id := hlog hwal
      cases hs
      rw [csilkWfSignalContinue]
      simp only [hlog, csilkWfGetNode_of_nodup hids hnode]
      apply Once.extend _ ((Unused.continueReplay wf s.wal).approve hnode hpaused hcalls)
      intro x hx
      obtain ⟨old, hold, rfl⟩ := List.mem_map.1 hx
      rw [cleanupStaleCtx_works]
      exact ⟨(h.ctxs old hold).cleanup (hidle old hold), hidle old hold⟩

theorem mem_entryNodes (h : n ∈ entryNodes wf) : n < wf.nodes.length := by
  rw [entryNodes] at h
  split at h
  · exact (findIdx?_eq_some_iff_getElem.1 (mem_toList.1 h)).1
  · exact mem_range.1 (mem_filter.1 h).1

theorem Started.enterEach (hin : ∀ s ∈ starts, s.1 < wf.nodes.length)
    (hlive : r.ctx.isTerminated = false) (hgo : ∀ s ∈ starts, awaits wf r.ctx s.1 = false) :
    Started wf r (starts.foldl (fun r s => enterNode wf r s.1 s.2) r) starts := by
  induction starts generalizing r with
  | nil => exact .none wf r _ _
  | cons s starts ih =>
    have hfirst : Started wf r (enterNode wf r s.1 s.2) [s] :=
      .enter s.2 (hin s mem_cons_self) hlive (hgo s mem_cons_self)
    apply hfirst.trans (ih (fun s' hs' => hin s' (mem_cons_of_mem _ hs')) _ _)
    all_goals obtain ⟨new, counts, marks, heq, _⟩ := hfirst; rw [heq]
    · exact hlive
    · exact fun s' hs' => hgo s' (mem_cons_of_mem _ hs')

theorem Started.enterAll (input : Option Data) (hlive : r.ctx.isTerminated = false)
    (hgo : ∀ n ∈ entryNodes wf, awaits wf r.ctx n = false) :
    Started wf r (enterAll wf r input (entryNodes wf)) ((entryNodes wf).map fun n => (n, input)) := by
  have hfold : Workflow.enterAll wf r input (entryNodes wf) =
      ((entryNodes wf).map fun n => (n, input)).foldl (fun r s => enterNode wf r s.1 s.2) r := by
    rw [Workflow.enterAll, foldl_map]
  rw [hfold]
  apply Started.enterEach _ hlive
  · rw [List.forall_mem_map]
    exact hgo
  · rw [List.forall_mem_map]
    exact fun n hn => mem_entryNodes hn

theorem Settled.cleanup (h : Settled wf r) (hworks : r.ctx.works = []) : Settled wf r.cleanup :=
  ⟨⟨h.1.active, h.1.known, fun _ => hworks⟩, h.2.congr rfl rfl rfl rfl⟩

theorem Held.begin (wf : Wf) (input : Option Data) : Held wf (beginRun wf input).hold := by
  constructor
  · rfl
  · rintro _ ⟨⟩
  all_goals rfl

theorem Held.enterAll (h : Held wf r) (input : Option Data) (hlive : r.ctx.isTerminated = false)
    (hworks : r.ctx.works = []) (hsome : entryNodes wf ≠ [])
    (hcalm : (∀ n ∈ entryNodes wf, awaits wf r.ctx n = false) ∨ (entryNodes wf).length = 1) :
    Settled wf (enterAll wf r input (entryNodes wf)).release := by
  by_cases hgo : ∀ n ∈ entryNodes wf, awaits wf r.ctx n = false
  · have hstarted := Started.enterAll input hlive hgo
    apply (h.started hstarted).release_running (hstarted.works_ne_nil _)
    exact fun hnil => hsome (map_eq_nil_iff.1 hnil)
  · obtain ⟨n, hn⟩ := length_eq_one_iff.1 (hcalm.resolve_left hgo)
    rw [hn] at hgo ⊢
    have hwait : awaits wf r.ctx n = true := by
      by_contra hwait
      apply hgo
      intro m hm
      cases mem_singleton.1 hm
      rwa [Bool.not_eq_true] at hwait
    obtain ⟨node, hnode, heq⟩ := executeNode_pause (r.mark (.entered n)) input hlive hwait
    rw [Workflow.enterAll, foldl_cons, enterNode, heq]
    exact (h.mark _).pause hworks hnode

theorem csilkWfRun_settled (hentry : calmEntries wf = true) (input : Option Data) :
    Settled wf (csilkWfRun wf input) := by
  have hheld := Held.begin wf input
  rw [calmEntries, Bool.or_eq_true, decide_eq_true_eq] at hentry
  unfold csilkWfRun
  dsimp only
  split
  case isTrue =>
    constructor
    · constructor
      · rfl
      · rintro _ ⟨⟩
      · intro _
        rfl
    · exact .ended rfl rfl rfl
  case isFalse =>
    split
    case isTrue hnone =>
      rw [hnone]
      exact hheld.ended rfl _ none
    case isFalse hsome =>
      have hcalm : (∀ n ∈ entryNodes wf, awaits wf (beginRun wf input).hold.ctx n = false) ∨
          (entryNodes wf).length = 1 := by
        apply hentry.imp _ id
        intro hgo n hn
        have hgo := List.all_eq_true.1 hgo n hn
        rwa [Bool.not_eq_true'] at hgo
      have hdone := hheld.enterAll input rfl rfl hsome hcalm
      split
      case isTrue hzero =>
        apply hdone.cleanup
        have hactive := hdone.1.active
        rw [hzero] at hactive
        exact eq_nil_of_length_eq_zero (Int.ofNat.inj hactive.symm)
      case isFalse => exact hdone

theorem once_of_reachable (hids : ((build calls).nodes.map Node.id).Nodup)
    (hentry : calmEntries (build calls) = true)
    (h : (executions (build calls) input).Reachable (fun s a => calm (build calls) s a = true) s) :
    Once (build calls) s := by
  apply h.invariant (P := Once (build calls))
  · intro s hinit
    cases hinit
    apply Once.extend _ (csilkWfRun_settled hentry input)
    simp
  · intro s a s' ih hcalm hs
    cases a with
    | loop c e => exact ih.loop (build_wellFormed calls) hcalm hs
    | signalContinue input => exact ih.signalContinue hids hs

end Csilk.Workflow
