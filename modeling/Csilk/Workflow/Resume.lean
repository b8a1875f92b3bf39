import Csilk.Workflow.Journal

namespace Csilk.Workflow
open List Option Function

def restored (output : Option Data) : Option Data :=
  some ⟨some ((output.bind Data.type).getD []), some ((output.bind Data.value).getD []), 0⟩

theorem leadsTo_iff : LeadsTo wf n t ↔
    ∃ e ∈ (wf.nodes[n]?.map Node.edges).getD [], e.target = t := by
  simp only [mem_edges_iff]
  constructor
  · intro ⟨k, e, he, ht⟩
    exact ⟨e, ⟨k, he⟩, ht⟩
  · intro ⟨e, ⟨k, he⟩, ht⟩
    exact ⟨k, e, he, ht⟩

theorem countEdges_pos (counts : Nat → Nat) (edges : List Edge) :
    1 ≤ countEdges counts edges t ↔ 1 ≤ counts t ∨ ∃ e ∈ edges, e.target = t := by
  induction edges generalizing counts with
  | nil => simp [countEdges]
  | cons e edges ih =>
    have hcons : countEdges counts (e :: edges) =
        countEdges (update counts e.target (counts e.target + 1)) edges := rfl
    rw [hcons, ih]
    by_cases ht : e.target = t
    · subst ht
      simp
    · simp [update_of_ne (Ne.symm ht), ht]

theorem replay_snoc (wf : Wf) (wal : List Record) (rec : Record) :
    replay wf (wal ++ [rec]) = replayRecord wf (replay wf wal) rec :=
  foldl_append ..

section Replayed
variable {wf : Wf} {handler : Handler} {input : Option Data} {wal : List Record}

/-- The nodes that the records name, their outputs as far as the WAL keeps them, and whether
something before a node is finished. -/
structure Restored (wf : Wf) (handler : Handler) (input : Option Data) (wal : List Record)
    (p : Replay) : Prop where
  started : p.started = startedIn wf wal
  finished : p.finished = finishedIn wf wal
  fresh : Unused p.ctx
  outputs : ∀ n ∈ finishedIn wf wal, ∃ x, Executes wf handler input n x ∧
    p.ctx.nodeOutputs n = restored (outputOf wf handler n x)
  others : ∀ n, n ∉ finishedIn wf wal → p.ctx.nodeOutputs n = none
  counts : ∀ t, 1 ≤ p.ctx.inputCounts t ↔ ∃ n ∈ finishedIn wf wal, LeadsTo wf n t
  ended : p.ended = true → ∃ rec ∈ wal, rec.type = .ended

theorem Restored.frame {rec : Record} (h : Restored wf handler input wal p)
    (hfinished : finishedIn wf [rec] = []) (hstarted : p'.started = p.started ++ startedIn wf [rec])
    (hfin : p'.finished = p.finished) (hctx : p'.ctx = p.ctx)
    (hended : p'.ended = true → p.ended = true ∨ rec.type = .ended) :
    Restored wf handler input (wal ++ [rec]) p' := by
  have hall : finishedIn wf (wal ++ [rec]) = finishedIn wf wal := by
    rw [finishedIn_append, hfinished, append_nil]
  constructor
  case started => rw [hstarted, h.started, startedIn_append]
  case finished => rw [hfin, h.finished, hall]
  case ended =>
    intro hend
    rcases hended hend with hend | htype
    · obtain ⟨rec', hrec', htype⟩ := h.ended hend
      exact ⟨rec', mem_append_left _ hrec', htype⟩
    · exact ⟨rec, mem_append_right _ (mem_singleton_self _), htype⟩
  all_goals rw [hctx]
  case fresh => exact h.fresh
  case outputs => exact hall ▸ h.outputs
  case others => exact hall ▸ h.others
  case counts => exact hall ▸ h.counts

theorem Restored.start (h : Restored wf handler input wal p) :
    Restored wf handler input (wal ++ [startRecord wf n]) (replayRecord wf p (startRecord wf n)) := by
  have hstarted : (replayRecord wf p (startRecord wf n)).started =
      p.started ++ startedIn wf [startRecord wf n] := rfl
  exact h.frame rfl hstarted rfl rfl .inl

theorem Restored.finish (h : Restored wf handler input wal p) (hf : Forest wf)
    (hx : Executes wf handler input n x) (hn : n < wf.nodes.length) :
    Restored wf handler input (wal ++ [finishRecord wf n (outputOf wf handler n x)])
      (replayRecord wf p (finishRecord wf n (outputOf wf handler n x))) := by
  have hall : finishedIn wf (wal ++ [finishRecord wf n (outputOf wf handler n x)]) =
      finishedIn wf wal ++ [n] := by
    rw [finishedIn_append, hf.finishedIn_finish hn]
  have hrecord : replayRecord wf p (finishRecord wf n (outputOf wf handler n x)) = { p with
        ctx := { p.ctx with
          nodeOutputs := update p.ctx.nodeOutputs n (restored (outputOf wf handler n x))
          inputCounts := countEdges p.ctx.inputCounts ((wf.nodes[n]?.map Node.edges).getD []) }
        finished := p.finished ++ [n] } := by
    rw [replayRecord, finishRecord, replayFinish, hf.getNode hn]
    rfl
  rw [hrecord]
  constructor
  case started =>
    rw [startedIn_append, h.started]
    exact (append_nil _).symm
  case finished => rw [hall, h.finished]
  case fresh =>
    obtain ⟨outputs, counts, hctx⟩ := h.fresh
    rw [hctx]
    exact ⟨_, _, rfl⟩
  case ended =>
    intro hend
    obtain ⟨rec, hrec, htype⟩ := h.ended hend
    exact ⟨rec, mem_append_left _ hrec, htype⟩
  all_goals rw [hall]
  case outputs =>
    intro m hm
    by_cases heq : m = n
    · subst heq
      exact ⟨x, hx, update_self ..⟩
    · rw [mem_append, mem_singleton, or_iff_left heq] at hm
      obtain ⟨y, hy, hout⟩ := h.outputs m hm
      exact ⟨y, hy, (update_of_ne heq ..).trans hout⟩
  case others =>
    intro m hm
    rw [mem_append, mem_singleton, not_or] at hm
    exact (update_of_ne hm.2 ..).trans (h.others m hm.1)
  case counts =>
    intro t
    rw [countEdges_pos, h.counts t, ← leadsTo_iff]
    simp

theorem Journal.restored (h : Journal wf handler input wal) (hf : Forest wf) (hwf : WellFormed wf) :
    Restored wf handler input wal (replay wf wal) := by
  induction h with
  | nil =>
    constructor
    case fresh => exact ⟨_, _, rfl⟩
    case outputs => rintro _ ⟨⟩
    case others => exact fun _ _ => rfl
    case counts => simp [replay, Ctx.new, finishedIn]
    case ended => rintro ⟨⟩
    all_goals rfl
  | snoc h hrec ih =>
    rw [replay_snoc]
    cases hrec with
    | start => exact ih.frame rfl (append_nil _).symm rfl rfl .inl
    | entry _ => exact ih.start
    | child _ _ _ _ => exact ih.start
    | finish _ _ hx => exact ih.finish hf hx (hx.lt hwf)
    | ended => exact ih.frame rfl (append_nil _).symm rfl rfl fun _ => .inr rfl

end Replayed

theorem any_leadsTo : ((wf.nodes[n]?.any fun node => node.edges.any fun e => e.target = t) = true) ↔
    LeadsTo wf n t := by
  rw [leadsTo_iff]
  cases wf.nodes[n]? with
  | none | some node => simp

theorem triggerInput_root (hinput : p.ctx.initialInput = none) (hroot : ∀ n, ¬ LeadsTo wf n t) :
    triggerInput wf p t = none := by
  rw [triggerInput, hinput]
  apply Lib.foldl_ite_none
  exact fun n _ hn => hroot n (any_leadsTo.1 hn.2)

theorem triggerInput_child (hn : n ∈ p.finished) (hlt : n < wf.nodes.length)
    (hlead : LeadsTo wf n t) (honly : ∀ m, LeadsTo wf m t → m = n) :
    triggerInput wf p t = p.ctx.nodeOutputs n := by
  apply Lib.foldl_ite_unique (mem_range.2 hlt)
  · exact ⟨hn, any_leadsTo.2 hlead⟩
  · exact fun m _ hm => honly m (any_leadsTo.1 hm.2)

/-- The run was not over; its entries had run, or been started with no input; the outputs are two
strings on which all edges fire; and a single node decides the result. -/
structure Resumable (wf : Wf) (handler : Handler) (input : Option Data) (wal : List Record) :
    Prop where
  running : ∀ rec ∈ wal, rec.type ≠ .ended
  entries : ∀ n ∈ entryNodes wf, n ∈ finishedIn wf wal ∨ n ∈ startedIn wf wal ∧ input = none
  strings : ∀ n ∈ finishedIn wf wal, ∀ x, Executes wf handler input n x →
    ∃ type value, outputOf wf handler n x = some ⟨some type, some value, 0⟩
  fires : ∀ n ∈ finishedIn wf wal, ∀ x, Executes wf handler input n x → ∀ k e,
    wf.edge? (n, k) = some e → e.fires (outputOf wf handler n x) = true
  left : ∃ n x, Executes wf handler input n x ∧ n ∉ finishedIn wf wal
  result : ∀ n x m y, Executes wf handler input n x → Executes wf handler input m y →
    startsAt wf n (outputOf wf handler n x) = [] → startsAt wf m (outputOf wf handler m y) = [] →
    n = m

section Resumed
variable {wf : Wf} {handler : Handler} {input : Option Data} {wal : List Record}

def resumeStarts (wf : Wf) (p : Replay) : List (Nat × Option Data) :=
  ((List.range wf.nodes.length).filter (triggers wf p)).map fun n => (n, triggerInput wf p n)

theorem resumeStarts_nodes (wf : Wf) (p : Replay) : (resumeStarts wf p).map Prod.fst =
    (List.range wf.nodes.length).filter (triggers wf p) := by
  rw [resumeStarts, List.map_map]
  exact List.map_id _

theorem mem_resumeStarts (hlt : t < wf.nodes.length) (ht : triggers wf p t = true) :
    t ∈ (resumeStarts wf p).map Prod.fst := by
  rw [resumeStarts_nodes]
  exact mem_filter.2 ⟨mem_range.2 hlt, ht⟩

theorem Executes.due (hx : Executes wf handler input t x) (hnot : t ∉ finishedIn wf wal) :
    ∃ t', t' ∉ finishedIn wf wal ∧
      (t' ∈ entryNodes wf ∨ ∃ n ∈ finishedIn wf wal, LeadsTo wf n t') := by
  induction hx with
  | entry hn => exact ⟨_, hnot, .inl hn⟩
  | @edge n x k e hx he hfires ih =>
    by_cases hn : n ∈ finishedIn wf wal
    · exact ⟨e.target, hnot, .inr ⟨n, hn, k, e, he, rfl⟩⟩
    · exact ih hn

section

variable (h : Resumable wf handler input wal)
include h

theorem Resumable.triggers_iff
    (hj : Journal wf handler input wal) (hp : Restored wf handler input wal p) (hf : Forest wf)
    (hwf : WellFormed wf) : triggers wf p t = true ↔ t ∉ finishedIn wf wal ∧
      (t ∈ entryNodes wf ∨ ∃ n ∈ finishedIn wf wal, LeadsTo wf n t) := by
  rw [triggers, hp.started, hp.finished]
  by_cases hs : t ∈ startedIn wf wal
  · rw [if_pos hs, decide_eq_true_eq]
    exact ⟨fun hnot => ⟨hnot, hj.parents hf hwf hs⟩, fun hdue => hdue.1⟩
  · rw [if_neg hs, decide_eq_true_eq]
    have hnot : t ∉ finishedIn wf wal := fun ht => hs (hj.finished_started hf hwf ht)
    constructor
    · intro hready
      exact ⟨hnot, .inr ((hp.counts t).1 (le_trans threshold_pos hready))⟩
    · intro ⟨_, hdue⟩
      rcases hdue with hentry | hdue
      · rcases h.entries t hentry with hfin | ⟨hstart, _⟩
        · exact absurd hfin hnot
        · exact absurd hstart hs
      · have hcount := (hp.counts t).2 hdue
        obtain ⟨n, _, k, e, he, rfl⟩ := hdue
        rw [threshold_eq hwf he]
        exact le_trans (hf.single _ (hwf.inside he)) hcount

theorem Resumable.outputs (hp : Restored wf handler input wal p) (hn : n ∈ finishedIn wf wal) :
    ∃ x, Executes wf handler input n x ∧ p.ctx.nodeOutputs n = outputOf wf handler n x := by
  obtain ⟨x, hx, hout⟩ := hp.outputs n hn
  obtain ⟨type, value, hstrings⟩ := h.strings n hn x hx
  refine ⟨x, hx, ?_⟩
  rw [hout, hstrings]
  rfl

theorem Resumable.executes (hp : Restored wf handler input wal p) (hf : Forest wf) (hwf : WellFormed wf)
    (hnot : t ∉ finishedIn wf wal)
    (hdue : t ∈ entryNodes wf ∨ ∃ n ∈ finishedIn wf wal, LeadsTo wf n t) :
    Executes wf handler input t (triggerInput wf p t) := by
  rcases hdue with hentry | ⟨n, hn, hlead⟩
  · have hnone : input = none := by
      rcases h.entries t hentry with hfin | ⟨_, hnone⟩
      · exact absurd hfin hnot
      · exact hnone
    have hinput : p.ctx.initialInput = none := by
      obtain ⟨outputs, counts, hctx⟩ := hp.fresh
      rw [hctx]
      rfl
    rw [triggerInput_root hinput fun n => hf.not_leadsTo_entry hentry]
    subst hnone
    exact .entry hentry
  · obtain ⟨x, hx, hout⟩ := h.outputs hp hn
    have htrigger : triggerInput wf p t = p.ctx.nodeOutputs n :=
      triggerInput_child (hp.finished ▸ hn) (hx.lt hwf) hlead
        fun m hm => hf.leadsTo_unique hwf hlead hm
    obtain ⟨k, e, he, rfl⟩ := hlead
    rw [htrigger, hout]
    exact .edge hx he (h.fires n hn x hx k e he)

theorem Resumable.cover
    (hj : Journal wf handler input wal) (hp : Restored wf handler input wal p) (hf : Forest wf)
    (hwf : WellFormed wf) :
    Cover wf handler input (finishedIn wf wal) (resumeStarts wf p) p.ctx.nodeOutputs := by
  have hiff (t : Nat) := h.triggers_iff (t := t) hj hp hf hwf
  have hstart (t : Nat) (hlt : t < wf.nodes.length)
      (hdue : t ∈ entryNodes wf ∨ ∃ n ∈ finishedIn wf wal, LeadsTo wf n t) :
      t ∈ finishedIn wf wal ++ (resumeStarts wf p).map Prod.fst := by
    by_cases hfin : t ∈ finishedIn wf wal
    · exact mem_append_left _ hfin
    · exact mem_append_right _ (mem_resumeStarts hlt ((hiff t).2 ⟨hfin, hdue⟩))
  have hdue (t : Nat) (ht : t ∈ (resumeStarts wf p).map Prod.fst) := by
    rw [resumeStarts_nodes] at ht
    exact (hiff t).1 (mem_filter.1 ht).2
  constructor
  case nodup =>
    apply (hj.finished_nodup hf hwf).append
    · rw [resumeStarts_nodes]
      exact nodup_range.filter _
    · exact fun t ht ht' => (hdue t ht').1 ht
  case executes =>
    intro s hs
    obtain ⟨hnot, hturn⟩ := hdue s.1 (List.mem_map_of_mem hs)
    obtain ⟨t, _, rfl⟩ := List.mem_map.1 hs
    exact h.executes hp hf hwf hnot hturn
  case outputs => exact fun n hn => h.outputs hp hn
  case others => exact hp.others
  case closed =>
    intro n hn s hs
    have hlead := leadsTo_of_startsAt (List.mem_map_of_mem hs)
    exact hstart s.1 (hlead.lt hwf) (.inr ⟨n, hn, hlead⟩)
  case parents =>
    intro t ht
    rcases mem_append.1 ht with ht | ht
    · exact hj.parents hf hwf (hj.finished_started hf hwf ht)
    · exact (hdue t ht).2
  case entries => exact fun t ht => hstart t (mem_entryNodes ht) (.inl ht)

theorem Resumable.due (hj : Journal wf handler input wal) (hp : Restored wf handler input wal p)
    (hf : Forest wf) (hwf : WellFormed wf) : resumeStarts wf p ≠ [] := by
  obtain ⟨n, x, hx, hnot⟩ := h.left
  obtain ⟨t, hnot, hturn⟩ := hx.due hnot
  have hlt : t < wf.nodes.length := by
    rcases hturn with hentry | ⟨m, _, hlead⟩
    · exact mem_entryNodes hentry
    · exact hlead.lt hwf
  have hmem := mem_resumeStarts hlt ((h.triggers_iff hj hp hf hwf).2 ⟨hnot, hturn⟩)
  exact ne_nil_of_mem hmem ∘ congrArg (List.map Prod.fst)

theorem Resumable.resume_eq (hp : Restored wf handler input wal (replay wf wal)) :
    csilkWfResume wf wal = (resumeStarts wf (replay wf wal)).foldl
      (fun r s => enterNode wf r s.1 s.2) ⟨(replay wf wal).ctx, wal, [], [], []⟩ := by
  have hended : (replay wf wal).ended = false := by
    by_contra hend
    obtain ⟨rec, hrec, htype⟩ := hp.ended (Bool.not_eq_false _ ▸ hend)
    exact h.running rec hrec htype
  have hpaused : (replay wf wal).ctx.isPaused = false := by
    obtain ⟨outputs, counts, hctx⟩ := hp.fresh
    rw [hctx]
    rfl
  rw [csilkWfResume, resumeStarts, foldl_map, hended, hpaused]
  rfl

theorem Resumable.tree (hj : Journal wf handler input wal) (hf : Forest wf) (hwf : WellFormed wf) :
    Tree wf handler input (csilkWfResume wf wal) ∧ wal <+: (csilkWfResume wf wal).wal := by
  have hp := hj.restored hf hwf
  have hcover := h.cover hj hp hf hwf
  have hs : Started wf ⟨(replay wf wal).ctx, wal, [], [], []⟩ (csilkWfResume wf wal)
      (resumeStarts wf (replay wf wal)) := by
    rw [h.resume_eq hp]
    apply Started.enterEach _ _ fun s _ => hf.awaits _ _
    · exact fun s hs => (hcover.executes s hs).lt hwf
    · obtain ⟨outputs, counts, hctx⟩ := hp.fresh
      rw [hctx]
      rfl
  constructor
  · have hsome := h.due hj hp hf hwf
    obtain ⟨outputs, counts, hctx⟩ := hp.fresh
    rw [hctx] at hs hcover
    exact hcover.tree hf hs hsome
  · obtain ⟨new, counts, marks, heq, _⟩ := hs
    rw [heq]
    exact prefix_append ..

end

end Resumed

def resumed (wf : Wf) (wal : List Record) : Lib.System Run Event where
  init r := r = csilkWfResume wf wal
  step := loopStep wf

section End
variable {wf : Wf} {handler : Handler} {input : Option Data} {r r' : Run} {wal : List Record}

theorem Tree.finished_iff (h : Tree wf handler input r) (hf : Forest wf) (hwf : WellFormed wf)
    (hend : r.ctx.works = []) : n ∈ finishedIn wf r.wal ↔ ∃ x, Executes wf handler input n x := by
  have hall {t : Nat} (ht : t ∈ finishedIn wf r.wal ++ (r.ctx.works.map Work.start).map Prod.fst) :
      t ∈ finishedIn wf r.wal := by
    rwa [hend, map_nil, map_nil, append_nil] at ht
  constructor
  · intro hn
    obtain ⟨x, hx, _⟩ := h.outputs n hn
    exact ⟨x, hx⟩
  · rintro ⟨x, hx⟩
    induction hx with
    | entry hn => exact hall (h.entries _ hn)
    | edge hx he hfires ih =>
      obtain ⟨y, hy, hout⟩ := h.outputs _ ih
      rw [hx.unique hf hwf hy, ← hout] at hfires
      exact hall (h.closed _ ih _ (target_mem_startsAt he hfires))

theorem Tree.outputs_eq (h : Tree wf handler input r) (h' : Tree wf handler input r')
    (hf : Forest wf) (hwf : WellFormed wf) (hend : r.ctx.works = []) (hend' : r'.ctx.works = []) :
    r'.ctx.nodeOutputs = r.ctx.nodeOutputs := by
  funext n
  by_cases hn : n ∈ finishedIn wf r.wal
  · have hn' := (h'.finished_iff hf hwf hend').2 ((h.finished_iff hf hwf hend).1 hn)
    obtain ⟨x, hx, hout⟩ := h.outputs n hn
    obtain ⟨x', hx', hout'⟩ := h'.outputs n hn'
    rw [hout, hout', hx.unique hf hwf hx']
  · have hn' : n ∉ finishedIn wf r'.wal := fun hn' =>
      hn ((h.finished_iff hf hwf hend).2 ((h'.finished_iff hf hwf hend').1 hn'))
    rw [h.others n hn, h'.others n hn']

theorem Resumable.result_eq (h : Resumable wf handler input wal) (ht : Tree wf handler input r)
    (ht' : Tree wf handler input r') (hf : Forest wf) (hwf : WellFormed wf)
    (hend : r.ctx.works = []) (hend' : r'.ctx.works = []) : r'.callbacks = r.callbacks := by
  obtain ⟨n, x, hx, hlast, hcalls⟩ := ht.ended hend
  obtain ⟨m, y, hy, hlast', hcalls'⟩ := ht'.ended hend'
  cases h.result n x m y hx hy hlast hlast'
  rw [hcalls, hcalls', hx.unique hf hwf hy]

theorem Tree.progress (h : Tree wf handler input r) (hwf : WellFormed wf)
    (hbusy : r.ctx.works ≠ []) :
    ∃ e r', byHandler handler r e = true ∧ loopStep wf r e = some r' := by
  obtain ⟨w, ws, hw⟩ := exists_cons_of_ne_nil hbusy
  have hexec := h.executes w.start (hw ▸ mem_cons_self)
  have hnode := getElem?_eq_getElem (hexec.lt hwf)
  obtain ⟨e, r', he, hstep⟩ := loopStep_progress hw (h.goesOn hbusy).2 hnode
    (handler w.node w.input)
  refine ⟨e, r', ?_, hstep⟩
  rcases he with rfl | rfl
  · rfl
  · rw [byHandler, hw]
    exact decide_eq_true rfl

/-- No route is taken in a forest, so every event leaves less to do. -/
theorem Forest.loopStep_rank (hf : Forest wf) (hs : loopStep wf r e = some r') :
    ctxRank wf r'.ctx < ctxRank wf r.ctx := by
  apply Workflow.loopStep_rank _ hs
  intro n node output hfin _ t hnext
  cases e with
  | workDone i o =>
    obtain ⟨w, _, hfin⟩ := bind_eq_some_iff.1 hfin
    obtain ⟨node', hnode, hfin⟩ := bind_eq_some_iff.1 hfin
    split at hfin
    · cases hfin
    · cases hfin
      rw [hf.next_follow (mem_of_getElem? hnode)] at hnext
      cases hnext
  | retryTimer i | nodeTimeout i | ttl => cases hfin

theorem Forest.length_le_rank (hf : Forest wf)
    (hrun : (resumed wf wal).exec (fun r e => byHandler handler r e = true) r events = some r') :
    events.length ≤ ctxRank wf r.ctx := by
  induction events generalizing r with
  | nil => exact Nat.zero_le _
  | cons e events ih =>
    obtain ⟨_, s, hstep, hrest⟩ := Lib.System.exec_cons_some hrun
    have hlt : ctxRank wf s.ctx < ctxRank wf r.ctx := hf.loopStep_rank hstep
    have hle := ih hrest
    rw [length_cons]
    omega

theorem Forest.run_invariant (hf : Forest wf) (hwf : WellFormed wf) (hfree : TokenFree handler)
    (h : (system wf input).Reachable (fun r e => byHandler handler r e = true) r) :
    Tree wf handler input r ∧ Logged wf handler input r := by
  apply h.invariant (P := fun r => Tree wf handler input r ∧ Logged wf handler input r)
  · intro r hr
    rw [hr]
    exact ⟨hf.run_tree handler input, hf.run_logged handler input⟩
  · intro r e r' ⟨ht, hl⟩ hby hs
    exact ⟨ht.step hf hwf hfree hby hs, hl.step ht hf hwf hfree hby hs⟩

theorem Tree.keeps_finished (h : Tree wf handler input r) (hf : Forest wf) (hwf : WellFormed wf)
    (hfree : TokenFree handler) (hby : byHandler handler r e = true)
    (hs : loopStep wf r e = some r') (hn : n ∈ finishedIn wf r.wal) :
    n ∈ finishedIn wf r'.wal := by
  rcases h.stepped hf hwf hfree hby hs with ⟨i, w, hw, hfin⟩ | ⟨i, w, w', _, _, _, rfl⟩
  · have hlt := (h.executes _ (List.mem_map_of_mem (mem_of_getElem? hw))).lt hwf
    rw [hfin.finishedIn_eq hf hlt]
    exact mem_append_left _ hn
  · exact hn

theorem Resumable.run_invariant (hres : Resumable wf handler input wal)
    (hj : Journal wf handler input wal) (hf : Forest wf) (hwf : WellFormed wf)
    (hfree : TokenFree handler)
    (h : (resumed wf wal).Reachable (fun r e => byHandler handler r e = true) r) :
    Tree wf handler input r ∧ ∀ n ∈ finishedIn wf wal, n ∈ finishedIn wf r.wal := by
  apply h.invariant
    (P := fun r => Tree wf handler input r ∧ ∀ n ∈ finishedIn wf wal, n ∈ finishedIn wf r.wal)
  · intro r hr
    obtain ⟨ht, tail, hwal⟩ := hres.tree hj hf hwf
    rw [hr]
    refine ⟨ht, fun n hn => ?_⟩
    rw [← hwal, finishedIn_append]
    exact mem_append_left _ hn
  · intro r e r' ⟨ht, hkept⟩ hby hs
    exact ⟨ht.step hf hwf hfree hby hs,
      fun n hn => ht.keeps_finished hf hwf hfree hby hs (hkept n hn)⟩

end End

def SameEnd (wf : Wf) (r r' : Run) : Prop :=
  (∀ n, n ∈ finishedIn wf r'.wal ↔ n ∈ finishedIn wf r.wal) ∧
    r'.ctx.nodeOutputs = r.ctx.nodeOutputs ∧ r'.callbacks = r.callbacks

/-- No finished node runs again, and the resumed run comes to the end of an uninterrupted one. -/
structure ResumesAlike (wf : Wf) (handler : Handler) (wal : List Record) (r r' : Run) : Prop where
  skips : ∀ w ∈ r'.ctx.works, w.node ∉ finishedIn wf wal
  same : r'.ctx.works = [] → SameEnd wf r r'
  progress : r'.ctx.works ≠ [] →
    ∃ e r'', byHandler handler r' e = true ∧ loopStep wf r' e = some r''
  bounded : ∃ bound, ∀ events r'', (resumed wf wal).exec
    (fun r e => byHandler handler r e = true) r' events = some r'' → events.length ≤ bound

/-- A run resumed from the first records of a run of a forest ends as an uninterrupted one, where
these can be resumed. -/
theorem resumes_alike_of_resumable (calls : List Call) (handler : Handler) (input : Option Data)
    (crashed r r' : Run) (wal : List Record) (hf : Forest (build calls))
    (hfree : TokenFree handler)
    (hcrashed : (system (build calls) input).Reachable
      (fun r e => byHandler handler r e = true) crashed)
    (hwal : wal <+: crashed.wal) (hres : Resumable (build calls) handler input wal)
    (h : (system (build calls) input).Reachable (fun r e => byHandler handler r e = true) r)
    (hend : r.ctx.works = [])
    (h' : (resumed (build calls) wal).Reachable (fun r e => byHandler handler r e = true) r') :
    ResumesAlike (build calls) handler wal r r' := by
  have hwf := build_wellFormed calls
  have hj := (hf.run_invariant hwf hfree hcrashed).2.journal.mono hwal
  obtain ⟨ht, _⟩ := hf.run_invariant hwf hfree h
  obtain ⟨ht', hkept⟩ := hres.run_invariant hj hf hwf hfree h'
  constructor
  case skips =>
    intro w hw hn
    exact ht'.not_finished (List.mem_map_of_mem hw) (hkept _ hn)
  case same =>
    intro hend'
    have hexecuted (n : Nat) : n ∈ finishedIn (build calls) r'.wal ↔
        n ∈ finishedIn (build calls) r.wal := by
      rw [ht'.finished_iff hf hwf hend', ht.finished_iff hf hwf hend]
    exact ⟨hexecuted, ht.outputs_eq ht' hf hwf hend hend', hres.result_eq ht ht' hf hwf hend hend'⟩
  case progress => exact ht'.progress hwf
  case bounded => exact ⟨_, fun events r'' hrun => hf.length_le_rank hrun⟩

def chain : List Call := [.add (ascii "a"), .add (ascii "b"), .bind 0 1, .setPersistence]

def text (type : String) : Option Data := some ⟨some (ascii type), some [], 0⟩

theorem chain_forest : Forest (build chain) := by
  constructor
  case persistent => rfl
  case small => decide
  all_goals decide

def chainWal : List Record :=
  [⟨.start, [], [], []⟩, startRecord (build chain) 0, finishRecord (build chain) 0 (text "x")]

theorem chain_resumable : Resumable (build chain) (fun _ _ => text "x") none chainWal := by
  have hnodes (n : Nat) (x : Option Data)
      (hx : Executes (build chain) (fun _ _ => text "x") none n x) : n = 0 ∨ n = 1 := by
    have hlt : n < 2 := hx.lt (build_wellFormed chain)
    omega
  have hlast (n : Nat) (x : Option Data)
      (hx : Executes (build chain) (fun _ _ => text "x") none n x)
      (hnil : startsAt (build chain) n (outputOf (build chain) (fun _ _ => text "x") n x) = []) :
      n = 1 := by
    rcases hnodes n x hx with rfl | rfl
    · exact absurd hnil (cons_ne_nil _ _)
    · rfl
  have hfirst : Executes (build chain) (fun _ _ => text "x") none 0 none := .entry (by decide)
  constructor
  case running => decide
  case entries => exact fun n hn => .inl hn
  case strings =>
    intro n hn x hx
    cases mem_singleton.1 hn
    exact ⟨_, _, rfl⟩
  case fires =>
    intro n hn x hx k e he
    cases mem_singleton.1 hn
    cases k with
    | zero =>
      cases he
      rfl
    | succ k => cases he
  case left =>
    have hnext := Executes.edge (k := 0) hfirst rfl rfl
    exact ⟨_, _, hnext, by decide⟩
  case result =>
    intro n x m y hx hy hn hm
    rw [hlast n x hx hn, hlast m y hy hm]

theorem resumes_alike_chain : ∃ r r',
    (system (build chain) none).Reachable (fun r e => byHandler (fun _ _ => text "x") r e = true) r ∧
      r.callbacks = [text "x"] ∧ r'.ctx.works = [] ∧
      ResumesAlike (build chain) (fun _ _ => text "x") chainWal r r' := by
  have hrun := (system (build chain) none).run
    (p := fun r e => byHandler (fun _ _ => text "x") r e = true) (csilkWfRun (build chain) none)
    [.workDone 0 (text "x"), .workDone 0 (text "x")] rfl rfl
  have hresumed := (resumed (build chain) chainWal).run
    (p := fun r e => byHandler (fun _ _ => text "x") r e = true) (csilkWfResume (build chain) chainWal)
    [.workDone 0 (text "x")] rfl rfl
  have hfree : TokenFree fun _ _ => text "x" := by
    intro n x d hd
    cases hd
    rfl
  exact ⟨_, _, hrun, rfl, rfl, resumes_alike_of_resumable chain _ none _ _ _ chainWal chain_forest
    hfree hrun ⟨_, rfl⟩ chain_resumable hrun rfl hresumed⟩

/-- Some run ends, and the run resumed from its first records `wal` ends otherwise. -/
def EndsApart (calls : List Call) (handler : Handler) (input : Option Data) (wal : List Record) :
    Prop :=
  ∃ r r', (system (build calls) input).Reachable (fun r e => byHandler handler r e = true) r ∧
    r.ctx.works = [] ∧ wal <+: r.wal ∧
    (resumed (build calls) wal).Reachable (fun r e => byHandler handler r e = true) r' ∧
    r'.ctx.works = [] ∧ ¬ SameEnd (build calls) r r'

theorem EndsApart.of_runs (events events' : List Event)
    (hrun : (system (build calls) input).exec (fun r e => byHandler handler r e = true)
      (csilkWfRun (build calls) input) events = some r)
    (hend : r.ctx.works = []) (hwal : wal <+: r.wal)
    (hresumed : (resumed (build calls) wal).exec (fun r e => byHandler handler r e = true)
      (csilkWfResume (build calls) wal) events' = some r')
    (hend' : r'.ctx.works = []) (hapart : ¬ SameEnd (build calls) r r') :
    EndsApart calls handler input wal :=
  ⟨r, r', (Lib.System.Reachable.init rfl).exec hrun, hend, hwal,
    (Lib.System.Reachable.init rfl).exec hresumed, hend', hapart⟩

def branching : List Call :=
  [.add (ascii "a"), .add (ascii "b"), .add (ascii "c"), .on 0 (some (ascii "x")) 1,
    .on 0 (some (ascii "y")) 2, .setPersistence]

/-- Resumed runs also take branches whose condition did not hold, start entries without input, and
have empty strings for NULL. -/
theorem resumes_apart : EndsApart branching (fun _ _ => text "x") none
      [⟨.start, [], [], []⟩, startRecord (build branching) 0,
        finishRecord (build branching) 0 (text "x")] ∧
    EndsApart chain (fun _ x => x) (text "x")
      [⟨.start, [], ascii "x", []⟩, startRecord (build chain) 0] ∧
    EndsApart chain (fun _ _ => none) none
      [⟨.start, [], [], []⟩, startRecord (build chain) 0, finishRecord (build chain) 0 none] := by
  refine ⟨?_, ?_, ?_⟩
  · apply EndsApart.of_runs [.workDone 0 (text "x"), .workDone 0 (text "x")]
      [.workDone 0 (text "x"), .workDone 0 (text "x")] rfl rfl ⟨_, rfl⟩ rfl rfl
    intro ⟨hexecuted, _⟩
    exact absurd ((hexecuted 2).1 (by decide)) (by decide)
  · apply EndsApart.of_runs [.workDone 0 (text "x"), .workDone 0 (text "x")]
      [.workDone 0 none, .workDone 0 none] rfl rfl ⟨_, rfl⟩ rfl rfl
    intro ⟨_, _, hresult⟩
    cases hresult
  · apply EndsApart.of_runs [.workDone 0 none, .workDone 0 none] [.workDone 0 none] rfl rfl
      ⟨_, rfl⟩ rfl rfl
    intro ⟨_, houtputs, _⟩
    cases congrFun houtputs 0

end Csilk.Workflow
