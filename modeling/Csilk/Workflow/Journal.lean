import Csilk.Workflow.Forest

namespace Csilk.Workflow

theorem entryNodes_nodup (wf : Wf) : (entryNodes wf).Nodup := by
  unfold entryNodes
  split
  · cases wf.nodes.findIdx? _ with
    | none => exact List.nodup_nil
    | some n => exact List.nodup_singleton n
  · exact List.nodup_range.filter _

theorem Cover.tree (h : Cover wf handler input (finishedIn wf wal) starts out) (hf : Forest wf)
    (hs : Started wf ⟨{ Ctx.new x ttl reg with nodeOutputs := out, inputCounts := counts },
      wal, [], [], []⟩ r starts) (hsome : starts ≠ []) :
    Tree wf handler input r := by
  obtain ⟨new, counts', marks, rfl, rfl, hnew⟩ := hs
  have hfinished : finishedIn wf (wal ++ (new.map Work.start).flatMap fun s =>
      logged wf .nodeStart (idOf wf s.1) none) = finishedIn wf wal := by
    rw [hf.logged_starts, finishedIn_append, finishedIn_starts, List.append_nil]
  refine ⟨hfinished.symm ▸ h, rfl, rfl, ?_, ?_, fun w hw => (hnew w hw).2, fun _ => ⟨rfl, rfl⟩,
    fun hnil => ?_⟩
  · exact (Int.zero_add _).trans (congrArg _ (List.length_map ..))
  · rw [List.length_map]
    exact (zero_add _).trans_le (Nat.le_add_left ..)
  · exact absurd (congrArg (List.map Work.start) hnil) hsome

theorem Forest.nodes_ne_nil (hf : Forest wf) : wf.nodes ≠ [] := by
  intro hnil
  apply hf.rooted
  rw [entryNodes, hnil]
  rfl

theorem Forest.run_started (hf : Forest wf) (input : Option Data) :
    Started wf (beginRun wf input) (csilkWfRun wf input) ((entryNodes wf).map fun n => (n, input)) := by
  obtain ⟨new, counts, marks, heq, hmap, hnew⟩ := Started.enterAll
    (r := (beginRun wf input).hold) input rfl fun n _ => hf.awaits _ n
  refine ⟨new, counts, marks, ?_, hmap, hnew⟩
  have hactive (k : Int) : (beginRun wf input).hold.ctx.nodesActive + k - 1 =
      (beginRun wf input).ctx.nodesActive + k := by
    have hone : (beginRun wf input).hold.ctx.nodesActive = (beginRun wf input).ctx.nodesActive + 1 := rfl
    omega
  rw [csilkWfRun, if_neg hf.nodes_ne_nil, if_neg hf.rooted, heq, Run.release]
  rw [hactive, if_neg]
  · rfl
  · intro hzero
    have hlen := Int.ofNat.inj ((Int.zero_add _).symm.trans hzero)
    exact hf.rooted (List.map_eq_nil_iff.1 (List.eq_nil_of_length_eq_zero hlen))

theorem Forest.run_tree (hf : Forest wf) (handler : Handler) (input : Option Data) :
    Tree wf handler input (csilkWfRun wf input) := by
  have hmap : ((entryNodes wf).map fun n => (n, input)).map Prod.fst = entryNodes wf := by
    rw [List.map_map]
    exact List.map_id _
  have hnone : finishedIn wf (logged wf .start [] input) = [] := by
    rw [logged, if_pos hf.persistent]
    rfl
  refine Cover.tree (show Cover wf handler input _ _ fun _ => none from ?_) hf (hf.run_started input)
    fun hnil => hf.rooted (List.map_eq_nil_iff.1 hnil)
  rw [hnone]
  constructor
  case executes =>
    rw [List.forall_mem_map]
    exact fun n hn => .entry hn
  case outputs => simp
  case others => exact fun _ _ => rfl
  case closed => simp
  all_goals rw [hmap]
  case nodup => exact entryNodes_nodup wf
  case parents => exact fun t ht => .inl ht
  case entries => exact fun t ht => ht

/-- The records that a run of the forest may write after the records `wal`. -/
inductive MayFollow (wf : Wf) (handler : Handler) (input : Option Data) (wal : List Record) :
    Record → Prop
  | start : MayFollow wf handler input wal ⟨.start, nodeId, dataType, dataVal⟩
  | entry (hn : n ∈ entryNodes wf) : MayFollow wf handler input wal (startRecord wf n)
  | child (hn : n ∈ finishedIn wf wal) (hx : Executes wf handler input n x)
      (he : wf.edge? (n, k) = some e) (hfires : e.fires (outputOf wf handler n x) = true) :
      MayFollow wf handler input wal (startRecord wf e.target)
  | finish (hs : n ∈ startedIn wf wal) (hnew : n ∉ finishedIn wf wal)
      (hx : Executes wf handler input n x) :
      MayFollow wf handler input wal (finishRecord wf n (outputOf wf handler n x))
  | ended : MayFollow wf handler input wal ⟨.ended, [], [], []⟩

inductive Journal (wf : Wf) (handler : Handler) (input : Option Data) : List Record → Prop
  | nil : Journal wf handler input []
  | snoc (h : Journal wf handler input wal) (hrec : MayFollow wf handler input wal rec) :
      Journal wf handler input (wal ++ [rec])

section Log
open List
variable {wf : Wf} {handler : Handler} {input : Option Data} {r r' : Run} {wal : List Record}

theorem Journal.mono (h : Journal wf handler input wal) (hp : part <+: wal) :
    Journal wf handler input part := by
  induction h with
  | nil =>
    rw [prefix_nil.1 hp]
    exact .nil
  | snoc h hrec ih =>
    rcases prefix_concat_iff.1 hp with rfl | hp
    · exact .snoc h hrec
    · exact ih hp

theorem Forest.startedIn_start (hf : Forest wf) (hn : n < wf.nodes.length) :
    startedIn wf [startRecord wf n] = [n] := by
  rw [startedIn, filterMap_cons, startRecord, hf.getNode hn]
  rfl

theorem Forest.startedIn_starts {ns : List Nat} (hf : Forest wf) (hin : ∀ n ∈ ns, n < wf.nodes.length) :
    startedIn wf (ns.map (startRecord wf)) = ns := by
  induction ns with
  | nil => rfl
  | cons n ns ih =>
    have hsplit : (n :: ns).map (startRecord wf) = [startRecord wf n] ++ ns.map (startRecord wf) :=
      rfl
    rw [hsplit, startedIn_append, hf.startedIn_start (hin n mem_cons_self),
      ih fun m hm => hin m (mem_cons_of_mem _ hm)]
    rfl

theorem Journal.extend {recs : List Record} (h : Journal wf handler input wal)
    (hrecs : ∀ rec ∈ recs, ∀ more, MayFollow wf handler input (wal ++ more) rec) :
    Journal wf handler input (wal ++ recs) := by
  induction recs using reverseRecOn with
  | nil =>
    rw [append_nil]
    exact h
  | append_singleton recs rec ih =>
    rw [← append_assoc]
    apply Journal.snoc
    · exact ih fun rec' hrec' => hrecs rec' (mem_append_left _ hrec')
    · exact hrecs rec (mem_append_right _ (mem_singleton_self _)) recs

structure Logged (wf : Wf) (handler : Handler) (input : Option Data) (r : Run) : Prop where
  journal : Journal wf handler input r.wal
  started : ∀ w ∈ r.ctx.works, w.node ∈ startedIn wf r.wal

theorem Forest.run_logged (hf : Forest wf) (handler : Handler) (input : Option Data) :
    Logged wf handler input (csilkWfRun wf input) := by
  obtain ⟨new, counts, marks, heq, hmap, _⟩ := hf.run_started input
  have hstart : Journal wf handler input (beginRun wf input).wal := by
    rw [beginRun, logged, if_pos hf.persistent]
    exact .snoc .nil .start
  have hfst : ((entryNodes wf).map fun n => (n, input)).map Prod.fst = entryNodes wf := by
    rw [List.map_map]
    exact List.map_id _
  rw [heq, hf.logged_starts, hfst]
  constructor
  · apply hstart.extend
    rw [forall_mem_map]
    exact fun n hn more => .entry hn
  · intro w hw
    rw [startedIn_append, hf.startedIn_starts fun n hn => mem_entryNodes hn]
    apply mem_append_right
    rw [← hfst, ← hmap, List.map_map]
    exact List.mem_map_of_mem (f := Work.node) hw

theorem Logged.finish {i : Nat} (h : Logged wf handler input r) (ht : Tree wf handler input r)
    (hf : Forest wf) (hwf : WellFormed wf) (hw : r.ctx.works[i]? = some w)
    (hfin : Finishes wf r i w (outputOf wf handler w.node w.input) r') :
    Logged wf handler input r' := by
  have hmem := mem_of_getElem? hw
  have hexec : Executes wf handler input w.node w.input := ht.executes _ (List.mem_map_of_mem hmem)
  obtain ⟨tail, hwal, htail⟩ := hfin.wal
  obtain ⟨new, hworks, hmap, _⟩ := hfin.works
  have hfinished : Journal wf handler input
      (r.wal ++ [finishRecord wf w.node (outputOf wf handler w.node w.input)]) :=
    .snoc h.journal (.finish (h.started w hmem) (ht.not_finished (List.mem_map_of_mem hmem)) hexec)
  have hjournal : Journal wf handler input
      (r.wal ++ [finishRecord wf w.node (outputOf wf handler w.node w.input)] ++
        ((startsAt wf w.node (outputOf wf handler w.node w.input)).map Prod.fst).map (startRecord wf)) := by
    apply hfinished.extend
    rw [List.map_map, forall_mem_map]
    intro s hs more
    obtain ⟨k, e, he, hfires, rfl⟩ := mem_startsAt hs
    refine .child ?_ hexec he hfires
    rw [finishedIn_append, finishedIn_append, hf.finishedIn_finish (hexec.lt hwf)]
    simp
  constructor
  · rw [hwal]
    rcases htail with rfl | rfl
    · rw [append_nil]
      exact hjournal
    · exact .snoc hjournal .ended
  · intro v hv
    rw [hworks] at hv
    rw [hwal, startedIn_append, startedIn_append, startedIn_append]
    apply mem_append_left
    rcases mem_append.1 hv with hv | hv
    · have hbefore := h.started v (mem_of_mem_eraseIdx hv)
      exact mem_append_left _ (mem_append_left _ hbefore)
    · apply mem_append_right
      rw [hf.startedIn_starts fun n hn => (leadsTo_of_startsAt hn).lt hwf, ← hmap, List.map_map]
      exact List.mem_map_of_mem (f := Work.node) hv

theorem Logged.setWork {i : Nat} (h : Logged wf handler input r) (hw : r.ctx.works[i]? = some w)
    (ht : Touch wf w w') : Logged wf handler input (r.setWork i w') := by
  constructor
  · exact h.journal
  · intro v hv
    rcases mem_or_eq_of_mem_set hv with hv | rfl
    · exact h.started v hv
    · rw [ht.node_eq]
      exact h.started w (mem_of_getElem? hw)

theorem Logged.step (h : Logged wf handler input r) (ht : Tree wf handler input r) (hf : Forest wf)
    (hwf : WellFormed wf) (hfree : TokenFree handler) (hby : byHandler handler r e = true)
    (hs : loopStep wf r e = some r') : Logged wf handler input r' := by
  rcases ht.stepped hf hwf hfree hby hs with ⟨i, w, hw, hfin⟩ | ⟨i, w, w', hw, htouch, _, rfl⟩
  · exact h.finish ht hf hwf hw hfin
  · exact h.setWork hw htouch

section

variable (h : Journal wf handler input wal) (hf : Forest wf) (hwf : WellFormed wf)
include h hf hwf

theorem Journal.finished_started (hn : n ∈ finishedIn wf wal) : n ∈ startedIn wf wal := by
  induction h with
  | nil => cases hn
  | snoc h hrec ih =>
    rw [finishedIn_append, mem_append] at hn
    rw [startedIn_append, mem_append]
    apply hn.elim (fun hn => .inl (ih hn))
    intro hn
    cases hrec with
    | finish hs _ hx =>
      rw [hf.finishedIn_finish (hx.lt hwf), mem_singleton] at hn
      exact .inl (hn ▸ hs)
    | start | entry _ | child _ _ _ _ | ended => cases hn

theorem Journal.finished_nodup : (finishedIn wf wal).Nodup := by
  induction h with
  | nil => exact nodup_nil
  | snoc h hrec ih =>
    rw [finishedIn_append]
    cases hrec with
    | finish _ hnew hx =>
      rw [hf.finishedIn_finish (hx.lt hwf)]
      exact nodup_append_comm.1 (nodup_cons.2 ⟨hnew, ih⟩)
    | start | entry _ | child _ _ _ _ | ended => exact (append_nil _).symm ▸ ih

theorem Journal.parents (ht : t ∈ startedIn wf wal) :
    t ∈ entryNodes wf ∨ ∃ n ∈ finishedIn wf wal, LeadsTo wf n t := by
  induction h with
  | nil => cases ht
  | snoc h hrec ih =>
    rw [finishedIn_append]
    rw [startedIn_append, mem_append] at ht
    rcases ht with ht | ht
    · apply (ih ht).imp_right
      intro ⟨n, hn, hlead⟩
      exact ⟨n, mem_append_left _ hn, hlead⟩
    · cases hrec with
      | entry hn =>
        rw [hf.startedIn_start (mem_entryNodes hn), mem_singleton] at ht
        exact .inl (ht ▸ hn)
      | child hn _ he _ =>
        rw [hf.startedIn_start (hwf.inside he), mem_singleton] at ht
        exact .inr ⟨_, mem_append_left _ hn, _, _, he, ht.symm⟩
      | start | finish _ _ _ | ended => cases ht

end

end Log

end Csilk.Workflow
