import Csilk.Workflow.Engine
import Mathlib.Data.List.Perm.Subperm

namespace Csilk.Workflow
open List hiding count

/-- The edges into `t` that have fired since `t` was last started. -/
def firedSince (t : Nat) : List Mark → List (Nat × Nat)
  | [] => []
  | .fired src pos target started :: ms =>
    if target = t then if started then [] else (src, pos) :: firedSince t ms
    else firedSince t ms
  | .entered n :: ms => if n = t then [] else firedSince t ms

def Wf.isLoop (wf : Wf) (x : Nat × Nat) : Bool := (wf.edge? x).any Edge.isLoop

def Wf.policy (wf : Wf) (t : Nat) : Option JoinPolicy := wf.nodes[t]?.map Node.joinPolicy

/-- A loop edge and an OR join start the target, an AND join once every other edge that is no loop
has fired since the last start. -/
def MustStart (wf : Wf) (src pos t : Nat) (ms : List Mark) : Prop :=
  wf.isLoop (src, pos) = true ∨ wf.policy t = some .or ∨
    ∀ x ∈ incoming wf t, wf.isLoop x = false → x = (src, pos) ∨ x ∈ firedSince t ms

/-- Every edge that fired started its target exactly when the rule says so. -/
def JoinsKept (wf : Wf) : List Mark → Prop
  | [] => True
  | .fired src pos t started :: ms => (started = true ↔ MustStart wf src pos t ms) ∧ JoinsKept wf ms
  | .entered _ :: ms => JoinsKept wf ms

def PlainJoin (wf : Wf) (t : Nat) : Prop :=
  wf.policy t = some .and ∧ ∀ x ∈ incoming wf t, wf.isLoop x = false

instance : Decidable (PlainJoin wf t) :=
  inferInstanceAs (Decidable (wf.policy t = some .and ∧ ∀ x ∈ incoming wf t, wf.isLoop x = false))

def FreshEdge (wf : Wf) (r : Run) (src pos : Nat) (output : Option Data) (e : Edge) : Prop :=
  e.fires output = true → 2 ≤ (incoming wf e.target).length →
    PlainJoin wf e.target ∧ (src, pos) ∉ firedSince e.target r.marks

instance : Decidable (FreshEdge wf r src pos output e) :=
  inferInstanceAs (Decidable (e.fires output = true → 2 ≤ (incoming wf e.target).length →
    PlainJoin wf e.target ∧ (src, pos) ∉ firedSince e.target r.marks))

/-- Of nodes with several edges into them only plain joins are reached; no edge of one fires twice
before a start, and no route starts one with an edge fired. -/
def steady (wf : Wf) (r : Run) (e : Event) : Bool :=
  match finishing wf r e with
  | none => true
  | some (n, node, output) =>
    match next wf node output with
    | .enter none => true
    | .enter (some t) => (incoming wf t).length < 2 || firedSince t r.marks = []
    | .follow => decide (∀ pos < node.edges.length, ∀ e ∈ node.edges[pos]?,
      FreshEdge wf r n pos output e)

structure Joined (wf : Wf) (r : Run) : Prop where
  counts : ∀ t, 2 ≤ (incoming wf t).length → r.ctx.inputCounts t = (firedSince t r.marks).length
  nodup : ∀ t, 2 ≤ (incoming wf t).length → (firedSince t r.marks).Nodup
  subset : ∀ t, firedSince t r.marks ⊆ incoming wf t
  kept : JoinsKept wf r.marks

theorem Joined.congr (h : Joined wf r) (hmarks : r'.marks = r.marks)
    (hcounts : r'.ctx.inputCounts = r.ctx.inputCounts) : Joined wf r' := by
  constructor
  · rw [hmarks, hcounts]
    exact h.counts
  · rw [hmarks]
    exact h.nodup
  · rw [hmarks]
    exact h.subset
  · rw [hmarks]
    exact h.kept

theorem executeNode_marks : (executeNode wf r n input).marks = r.marks ∧
    (executeNode wf r n input).ctx.inputCounts = r.ctx.inputCounts := by
  unfold executeNode
  split
  · exact ⟨rfl, rfl⟩
  · split
    · exact ⟨rfl, rfl⟩
    · split <;> exact ⟨rfl, rfl⟩

theorem executeNode_total (wf : Wf) (r : Run) (n : Nat) (input : Option Data) :
    r.ctx.totalExecutions ≤ (executeNode wf r n input).ctx.totalExecutions ∧
      (executeNode wf r n input).ctx.totalExecutions ≤ r.ctx.totalExecutions + 1 := by
  unfold executeNode
  split
  · exact ⟨le_rfl, Nat.le_succ _⟩
  · split
    · exact ⟨le_rfl, Nat.le_succ _⟩
    · split
      · exact ⟨le_rfl, Nat.le_succ _⟩
      · exact ⟨Nat.le_succ _, le_rfl⟩

theorem Joined.enter (h : Joined wf r)
    (hclear : 2 ≤ (incoming wf t).length → firedSince t r.marks = []) :
    Joined wf (enterNode wf r t input) := by
  have hsince (u : Nat) (hu : 2 ≤ (incoming wf u).length) :
      firedSince u (.entered t :: r.marks) = firedSince u r.marks := by
    rw [firedSince]
    split
    case isTrue he =>
      subst he
      exact (hclear hu).symm
    case isFalse => rfl
  apply Joined.congr _ executeNode_marks.1 executeNode_marks.2
  constructor
  · intro u hu
    exact (h.counts u hu).trans (congrArg List.length (hsince u hu).symm)
  · intro u hu
    rw [Run.mark, hsince u hu]
    exact h.nodup u hu
  · intro u
    rw [Run.mark, firedSince]
    split
    · exact nil_subset _
    · exact h.subset u
  · exact h.kept

theorem followEdge_total (wf : Wf) (r : Run) (src pos : Nat) (e : Edge) (output : Option Data) :
    r.ctx.totalExecutions ≤ (followEdge wf r src pos e output).1.ctx.totalExecutions ∧
      (followEdge wf r src pos e output).1.ctx.totalExecutions ≤
        max r.ctx.totalExecutions maxWorkflowSteps ∧
      (followEdge wf r src pos e output).1.ctx.totalExecutions ≤
        r.ctx.totalExecutions + (if e.fires output then 1 else 0) := by
  unfold followEdge
  split
  case isFalse => exact ⟨le_rfl, Nat.le_max_left .., le_rfl⟩
  case isTrue hfires =>
    split
    case isFalse => exact ⟨le_rfl, Nat.le_max_left .., Nat.le_succ _⟩
    case isTrue hlim =>
      split
      case isFalse => exact ⟨le_rfl, Nat.le_max_left .., Nat.le_succ _⟩
      case isTrue =>
        obtain ⟨hge, hle⟩ := executeNode_total wf
          ((r.setCount e.target 0).mark (.fired src pos e.target true)) e.target output
        exact ⟨hge, le_trans hle (le_trans hlim (Nat.le_max_right ..)), hle⟩

theorem covers_of_length_le {l l' : List (Nat × Nat)} (hl : l.Nodup) (hsub : l ⊆ l')
    (hlen : l'.length ≤ l.length) : l' ⊆ l :=
  ((hl.subperm hsub).perm_of_length_le hlen).symm.subset

theorem mem_firedSince_fired (h : x ∈ firedSince u (.fired src pos t started :: ms)) :
    x = (src, pos) ∨ x ∈ firedSince u ms := by
  rw [firedSince] at h
  split at h
  · split at h
    · cases h
    · exact mem_cons.1 h
  · exact .inr h

theorem Joined.fire (h : Joined wf r) (he : (src, pos) ∈ incoming wf t)
    (hcount : 2 ≤ (incoming wf t).length →
      count = (firedSince t (.fired src pos t started :: r.marks)).length)
    (hfresh : 2 ≤ (incoming wf t).length → (src, pos) ∉ firedSince t r.marks)
    (hmust : started = true ↔ MustStart wf src pos t r.marks) :
    Joined wf ((r.setCount t count).mark (.fired src pos t started)) := by
  have hother (u : Nat) (hne : t ≠ u) :
      firedSince u (.fired src pos t started :: r.marks) = firedSince u r.marks := if_neg hne
  constructor
  · intro u hu
    by_cases htu : t = u
    · subst htu
      exact (Function.update_self ..).trans (hcount hu)
    · apply (Function.update_of_ne (Ne.symm htu) ..).trans
      exact (h.counts u hu).trans (congrArg List.length (hother u htu).symm)
  · intro u hu
    rw [Run.mark, firedSince]
    split
    case isTrue htu =>
      subst htu
      split
      · exact nodup_nil
      · exact nodup_cons.2 ⟨hfresh hu, h.nodup t hu⟩
    case isFalse => exact h.nodup u hu
  · intro u x hx
    rw [Run.mark, firedSince] at hx
    split at hx
    case isTrue htu =>
      subst htu
      split at hx
      · cases hx
      · exact cons_subset.2 ⟨he, h.subset t⟩ hx
    case isFalse => exact h.subset u hx
  · exact ⟨hmust, h.kept⟩

section

variable (h : Joined wf r) (hwf : WellFormed wf) (he : wf.edge? (src, pos) = some e)
include h hwf he

theorem Joined.mustStart
    (hfresh : 2 ≤ (incoming wf e.target).length → (src, pos) ∉ firedSince e.target r.marks)
    (hready : threshold wf e.target ≤ r.ctx.inputCounts e.target + 1) :
    MustStart wf src pos e.target r.marks := by
  have hmem : (src, pos) ∈ incoming wf e.target := mem_incoming.2 ⟨e, he, rfl⟩
  apply Or.inr (Or.inr _)
  intro x hx _
  rw [threshold_eq hwf he] at hready
  have hcover : incoming wf e.target ⊆ (src, pos) :: firedSince e.target r.marks := by
    by_cases hmany : 2 ≤ (incoming wf e.target).length
    · rw [h.counts _ hmany] at hready
      apply covers_of_length_le _ _ hready
      · exact nodup_cons.2 ⟨hfresh hmany, h.nodup _ hmany⟩
      · exact cons_subset.2 ⟨hmem, h.subset _⟩
    · have hone : incoming wf e.target ⊆ [(src, pos)] := by
        apply covers_of_length_le (nodup_singleton _) (cons_subset.2 ⟨hmem, by simp⟩)
        rw [length_singleton]
        omega
      exact fun y hy => mem_cons.2 (.inl (mem_singleton.1 (hone hy)))
  exact mem_cons.1 (hcover hx)

theorem Joined.not_mustStart (hplain : 2 ≤ (incoming wf e.target).length → PlainJoin wf e.target)
    (hready : ¬ threshold wf e.target ≤ r.ctx.inputCounts e.target + 1) :
    ¬ MustStart wf src pos e.target r.marks := by
  have hmem : (src, pos) ∈ incoming wf e.target := mem_incoming.2 ⟨e, he, rfl⟩
  rw [threshold_eq hwf he] at hready
  have hmany : 2 ≤ (incoming wf e.target).length := by omega
  obtain ⟨hpolicy, hloops⟩ := hplain hmany
  intro hmust
  rcases hmust with hloop | hor | hall
  · rw [hloops _ hmem] at hloop
    cases hloop
  · rw [hpolicy] at hor
    cases hor
  · have hcover : incoming wf e.target ⊆ (src, pos) :: firedSince e.target r.marks :=
      fun x hx => mem_cons.2 (hall x hx (hloops x hx))
    have hlen := (nodup_incoming wf e.target).length_le_of_subset hcover
    rw [length_cons, ← h.counts _ hmany] at hlen
    omega

theorem Joined.followEdge (hfresh : FreshEdge wf r src pos output e)
    (hlim : r.ctx.totalExecutions < maxWorkflowSteps) :
    Joined wf (followEdge wf r src pos e output).1 := by
  have hmem : (src, pos) ∈ incoming wf e.target := mem_incoming.2 ⟨e, he, rfl⟩
  by_cases hfires : e.fires output = true
  · have hnew := fun hmany => (hfresh hfires hmany).2
    rw [Workflow.followEdge, if_pos hfires, if_pos hlim]
    split
    case isTrue hready =>
      have hmust := h.mustStart hwf he hnew hready
      apply (h.fire hmem _ hnew (iff_of_true rfl hmust)).congr executeNode_marks.1
        executeNode_marks.2
      intro _
      rw [firedSince, if_pos rfl]
      rfl
    case isFalse hready =>
      have hmust := h.not_mustStart hwf he (fun hmany => (hfresh hfires hmany).1) hready
      apply h.fire hmem _ hnew (iff_of_false Bool.false_ne_true hmust)
      intro hmany
      rw [h.counts _ hmany, firedSince, if_pos rfl, if_neg Bool.false_ne_true, length_cons]
  · rw [Workflow.followEdge, if_neg hfires]
    exact h

end

theorem FreshEdge.followEdge (h : FreshEdge wf r src pos output e) (hne : pos' ≠ pos) :
    FreshEdge wf (followEdge wf r src pos' e' output).1 src pos output e := by
  intro hfires hmany
  apply (h hfires hmany).imp id
  intro hnew hmem
  apply hnew
  have hdrop {started : Bool} (hmem : (src, pos) ∈
      firedSince e.target (.fired src pos' e'.target started :: r.marks)) :
      (src, pos) ∈ firedSince e.target r.marks := by
    rcases mem_firedSince_fired hmem with heq | hmem
    · exact absurd (congrArg Prod.snd heq).symm hne
    · exact hmem
  rw [Workflow.followEdge] at hmem
  split at hmem
  · split at hmem
    · split at hmem
      · rw [executeNode_marks.1] at hmem
        exact hdrop hmem
      · exact hdrop hmem
    · exact hdrop hmem
  · exact hmem

theorem followEdges_total (wf : Wf) (src : Nat) (output : Option Data) (r : Run) (pos : Nat)
    (es : List Edge) :
    r.ctx.totalExecutions ≤ (followEdges wf src output r pos es).1.ctx.totalExecutions ∧
      (followEdges wf src output r pos es).1.ctx.totalExecutions ≤
        max r.ctx.totalExecutions maxWorkflowSteps ∧
      (followEdges wf src output r pos es).1.ctx.totalExecutions ≤
        r.ctx.totalExecutions + (es.filter fun e => e.fires output).length := by
  induction es generalizing r pos with
  | nil => exact ⟨le_rfl, Nat.le_max_left .., le_rfl⟩
  | cons e es ih =>
    obtain ⟨hge, hmax, hadd⟩ := followEdge_total wf r src pos e output
    obtain ⟨hges, hmaxes, haddes⟩ := ih (followEdge wf r src pos e output).1 (pos + 1)
    refine ⟨le_trans hge hges, hmaxes.trans ?_, haddes.trans ?_⟩
    · omega
    · rw [filter_cons]
      split
      case isTrue hfires =>
        rw [if_pos hfires] at hadd
        rw [length_cons]
        omega
      case isFalse hfires =>
        rw [if_neg hfires] at hadd
        omega

theorem Joined.followEdges (h : Joined wf r) (hwf : WellFormed wf)
    (he : ∀ j e, es[j]? = some e → wf.edge? (src, pos + j) = some e)
    (hfresh : ∀ j e, es[j]? = some e → FreshEdge wf r src (pos + j) output e)
    (hlim : (followEdges wf src output r pos es).1.ctx.totalExecutions < maxWorkflowSteps) :
    Joined wf (followEdges wf src output r pos es).1 := by
  induction es generalizing r pos with
  | nil => exact h
  | cons e es ih =>
    have hrest : (Workflow.followEdge wf r src pos e output).1.ctx.totalExecutions <
        maxWorkflowSteps := Nat.lt_of_le_of_lt (followEdges_total ..).1 hlim
    have hfirst := h.followEdge hwf (he 0 e rfl) (hfresh 0 e rfl)
      (Nat.lt_of_le_of_lt (followEdge_total ..).1 hrest)
    apply ih hfirst _ _ hlim
    · intro j e' he'
      rw [Nat.add_assoc, Nat.add_comm 1]
      exact he (j + 1) e' he'
    · intro j e' he'
      rw [Nat.add_assoc, Nat.add_comm 1]
      apply (hfresh (j + 1) e' he').followEdge
      omega

theorem Joined.finish (h : Joined wf r) (hwf : WellFormed wf) (hnode : wf.nodes[n]? = some node)
    (henter : ∀ t, next wf node output = .enter (some t) → 2 ≤ (incoming wf t).length →
      firedSince t r.marks = [])
    (hfollow : next wf node output = .follow → ∀ pos e, node.edges[pos]? = some e →
      FreshEdge wf r n pos output e)
    (hlim : (finishNode wf r n node output).ctx.totalExecutions < maxWorkflowSteps) :
    Joined wf (finishNode wf r n node output) := by
  have hrecord : Joined wf (recordOutput wf r n node output) := h.congr rfl rfl
  obtain ⟨mid, hgoes, active, registered, freed, wal, callbacks, heq⟩ := finishNode_goes wf r n node output
  rw [heq] at hlim ⊢
  suffices hmid : Joined wf mid from hmid.congr rfl rfl
  cases hgoes with
  | stay => exact hrecord
  | enter hlive hnext => exact hrecord.enter (henter _ hnext)
  | follow hlive hnext =>
    apply hrecord.followEdges hwf _ _ hlim
    · intro pos e he
      rw [Nat.zero_add, Wf.edge?, hnode]
      exact he
    · intro pos e he
      rw [Nat.zero_add]
      exact hfollow hnext pos e he

theorem finishing_steady (hsteady : steady wf r e = true)
    (hfin : finishing wf r e = some (n, node, output)) :
    (∀ t, next wf node output = .enter (some t) → 2 ≤ (incoming wf t).length →
      firedSince t r.marks = []) ∧
    (next wf node output = .follow → ∀ pos e, node.edges[pos]? = some e →
      FreshEdge wf r n pos output e) := by
  rw [steady, hfin] at hsteady
  constructor
  · intro t hnext hmany
    simp only [hnext, Bool.or_eq_true, decide_eq_true_eq] at hsteady
    rcases hsteady with hfew | hclear
    · omega
    · exact hclear
  · intro hnext pos e he
    simp only [hnext, decide_eq_true_eq] at hsteady
    exact hsteady pos (List.getElem?_eq_some_iff.1 he).1 e he

theorem finishNode_total :
    r.ctx.totalExecutions ≤ (finishNode wf r n node output).ctx.totalExecutions := by
  obtain ⟨mid, hgoes, active, registered, freed, wal, callbacks, heq⟩ := finishNode_goes wf r n node output
  rw [heq]
  cases hgoes with
  | stay => exact le_rfl
  | enter => exact (executeNode_total wf ((recordOutput wf r n node output).mark _) ..).1
  | follow => exact (followEdges_total wf n output (recordOutput wf r n node output) 0 node.edges).1

theorem Joined.step (hwf : WellFormed wf)
    (h : r.ctx.totalExecutions < maxWorkflowSteps → Joined wf r) (hsteady : steady wf r e = true)
    (hs : loopStep wf r e = some r') (hlim : r'.ctx.totalExecutions < maxWorkflowSteps) :
    Joined wf r' := by
  cases (loopStep_stepped hs).2 with
  | @finish i w node output _ hw hnode hfin =>
    obtain ⟨henter, hfollow⟩ := finishing_steady hsteady hfin
    have hbefore : Joined wf (r.dropWork i) :=
      (h (lt_of_le_of_lt (finishNode_total (r := r.dropWork i)) hlim)).congr rfl rfl
    exact hbefore.finish hwf hnode henter hfollow hlim
  | touch hw ht hfin | ttl harmed hfin => exact (h hlim).congr rfl rfl

theorem Joined.enterAll (h : Joined wf r) (hclear : ∀ t, firedSince t r.marks = []) :
    Joined wf (enterAll wf r input ns) := by
  induction ns generalizing r with
  | nil => exact h
  | cons n ns ih =>
    apply ih (h.enter fun _ => hclear n)
    intro t
    rw [enterNode, executeNode_marks.1, Run.mark, firedSince, hclear, ite_self]

theorem joined_csilkWfRun (wf : Wf) (input : Option Data) : Joined wf (csilkWfRun wf input) := by
  have hempty {r : Run} (hmarks : r.marks = []) (hcounts : r.ctx.inputCounts = fun _ => 0) :
      Joined wf r := by
    constructor
    · intro t _
      rw [hmarks, hcounts]
      rfl
    · intro t _
      rw [hmarks]
      exact nodup_nil
    · intro t
      rw [hmarks]
      exact nil_subset _
    · rw [hmarks]
      trivial
  have hbegin : Joined wf (beginRun wf input).hold := hempty rfl rfl
  have hentered : Joined wf (Workflow.enterAll wf (beginRun wf input).hold input (entryNodes wf)) :=
    hbegin.enterAll fun _ => rfl
  unfold csilkWfRun
  dsimp only
  split_ifs
  · exact hempty rfl rfl
  all_goals exact hentered.congr rfl rfl

theorem joined_of_reachable
    (h : (system (build calls) input).Reachable (fun r e => steady (build calls) r e = true) r) :
    r.ctx.totalExecutions < maxWorkflowSteps → Joined (build calls) r := by
  apply h.invariant (P := fun r => r.ctx.totalExecutions < maxWorkflowSteps → Joined _ r)
  · intro r hinit _
    cases hinit
    exact joined_csilkWfRun _ _
  · intro r e r' ih hsteady hs hlim
    exact Joined.step (build_wellFormed calls) ih hsteady hs hlim

/-- While all steps are steady and fewer than a thousand nodes have started, edges start their
targets as the join rule says. -/
theorem joins_kept_of_steady (calls : List Call) (input : Option Data) (r : Run)
    (h : (system (build calls) input).Reachable (fun r e => steady (build calls) r e = true) r)
    (hlim : r.ctx.totalExecutions < maxWorkflowSteps) : JoinsKept (build calls) r.marks :=
  (joined_of_reachable h hlim).kept

def andJoin : List Call :=
  [.add (ascii "a"), .add (ascii "b"), .add (ascii "c"), .bind 0 2, .bind 1 2, .setEntry 0 true,
    .setEntry 1 true]

theorem joins_kept_andJoin : ∃ r, (system (build andJoin) none).Reachable
    (fun r e => steady (build andJoin) r e = true) r ∧
      r.marks = [.fired 1 0 2 true, .fired 0 0 2 false, .entered 1, .entered 0] ∧
      JoinsKept (build andJoin) r.marks := by
  have hrun := (system (build andJoin) none).run (p := fun r e => steady (build andJoin) r e = true)
    (csilkWfRun (build andJoin) none) [.workDone 0 none, .workDone 0 none] rfl rfl
  exact ⟨_, hrun, rfl, joins_kept_of_steady andJoin none _ hrun (by decide)⟩

def BreaksJoin (calls : List Call) : Prop :=
  ∃ r, (system (build calls) none).Reachable (fun _ _ => True) r ∧
    r.ctx.totalExecutions < maxWorkflowSteps ∧ ¬ JoinsKept (build calls) r.marks

def orJoin : List Call := andJoin ++ [.setJoin 2 .or]

def loopJoin : List Call :=
  [.add (ascii "a"), .add (ascii "b"), .bind 0 1, .onLoop 1 (some (ascii "again")) 1]

def doubleJoin : List Call := andJoin ++ [.onLoop 0 none 0]

/-- An OR join waits for all its edges, a loop edge adds to what its target waits for, and an edge
that fires twice stands for two. -/
theorem joins_broken : BreaksJoin orJoin ∧ BreaksJoin loopJoin ∧ BreaksJoin doubleJoin := by
  have hinit (calls : List Call) : (system (build calls) none).Reachable (fun _ _ => True)
      (csilkWfRun (build calls) none) := .init rfl
  constructor
  · have hrun := (hinit orJoin).exec (show (system (build orJoin) none).exec _ _
      [.workDone 0 none] = some _ from rfl)
    have hbroken : ¬ JoinsKept (build orJoin) [.fired 0 0 2 false, .entered 1, .entered 0] := by
      intro hkept
      cases hkept.1.2 (.inr (.inl rfl))
    exact ⟨_, hrun, by decide, hbroken⟩
  constructor
  · have hrun := (hinit loopJoin).exec (show (system (build loopJoin) none).exec _ _
      [.workDone 0 none] = some _ from rfl)
    have hbroken : ¬ JoinsKept (build loopJoin) [.fired 0 0 1 false, .entered 0] := by
      intro hkept
      have hmust : MustStart (build loopJoin) 0 0 1 [.entered 0] := .inr (.inr (by decide))
      cases hkept.1.2 hmust
    exact ⟨_, hrun, by decide, hbroken⟩
  · have hrun := (hinit doubleJoin).exec (show (system (build doubleJoin) none).exec _ _
      [.workDone 0 none, .workDone 1 none] = some _ from rfl)
    have hbroken : ¬ JoinsKept (build doubleJoin)
        [.fired 0 1 0 true, .fired 0 0 2 true, .fired 0 1 0 true, .fired 0 0 2 false,
          .entered 1, .entered 0] := by
      intro hkept
      rcases hkept.2.1.1 rfl with hloop | hor | hall
      · exact absurd hloop (by decide)
      · exact absurd hor (by decide)
      · exact absurd hall (by decide)
    exact ⟨_, hrun, by decide, hbroken⟩

end Csilk.Workflow
