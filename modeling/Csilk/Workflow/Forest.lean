import Csilk.Workflow.Termination

namespace Csilk.Workflow
open List Option Function

abbrev Handler := Nat → Option Data → Option Data

def outputOf (wf : Wf) (handler : Handler) (n : Nat) (x : Option Data) : Option Data :=
  wf.nodes[n]?.bind fun node => checkSchema node (handler n x)

inductive Executes (wf : Wf) (handler : Handler) (input : Option Data) : Nat → Option Data → Prop
  | entry (hn : n ∈ entryNodes wf) : Executes wf handler input n input
  | edge (h : Executes wf handler input n x) (he : wf.edge? (n, k) = some e)
      (hfires : e.fires (outputOf wf handler n x) = true) :
      Executes wf handler input e.target (outputOf wf handler n x)

/-- A persistent workflow without joins, routes and pauses. -/
structure Forest (wf : Wf) : Prop where
  persistent : wf.walDir = true
  ids : (wf.nodes.map Node.id).Nodup
  single : ∀ t < wf.nodes.length, (incoming wf t).length ≤ 1
  rooted : entryNodes wf ≠ []
  entries : ∀ t ∈ entryNodes wf, incoming wf t = []
  plain : ∀ node ∈ wf.nodes, node.errorTarget = none ∧ node.routerFn.isNone = true ∧
    node.isInteractive = false
  small : wf.nodes.length ≤ maxWorkflowSteps

theorem Executes.inversion (h : Executes wf handler input t x) :
    (t ∈ entryNodes wf ∧ x = input) ∨ ∃ n k e y, Executes wf handler input n y ∧
      wf.edge? (n, k) = some e ∧ e.fires (outputOf wf handler n y) = true ∧ e.target = t ∧
      x = outputOf wf handler n y := by
  cases h with
  | entry hn => exact .inl ⟨hn, rfl⟩
  | edge h he hfires => exact .inr ⟨_, _, _, _, h, he, hfires, rfl, rfl⟩

theorem Forest.edge_unique (hf : Forest wf) (hwf : WellFormed wf) (he : wf.edge? x = some e)
    (he' : wf.edge? y = some e') (ht : e.target = e'.target) : x = y := by
  have hx : x ∈ incoming wf e.target := mem_incoming.2 ⟨e, he, rfl⟩
  have hy : y ∈ incoming wf e.target := mem_incoming.2 ⟨e', he', ht.symm⟩
  have hlen := hf.single _ (hwf.inside he)
  cases hin : incoming wf e.target with
  | nil =>
    rw [hin] at hx
    cases hx
  | cons z zs =>
    rw [hin, length_cons] at hlen
    have hnil : zs = [] := eq_nil_of_length_eq_zero (by omega)
    rw [hin, hnil] at hx hy
    rw [mem_singleton.1 hx, mem_singleton.1 hy]

theorem Forest.edge_not_entry (hf : Forest wf) (he : wf.edge? x = some e) :
    e.target ∉ entryNodes wf := by
  intro hn
  have hx : x ∈ incoming wf e.target := mem_incoming.2 ⟨e, he, rfl⟩
  rw [hf.entries _ hn] at hx
  cases hx

theorem Executes.unique (h : Executes wf handler input t x) (hf : Forest wf) (hwf : WellFormed wf)
    (h' : Executes wf handler input t y) : x = y := by
  induction h generalizing y with
  | entry hn =>
    rcases h'.inversion with ⟨_, rfl⟩ | ⟨n, k, e, z, _, he, _, rfl, _⟩
    · rfl
    · exact absurd hn (hf.edge_not_entry he)
  | edge h he hfires ih =>
    rcases h'.inversion with ⟨hn, _⟩ | ⟨n, k, e, z, hz, he', _, ht, rfl⟩
    · exact absurd hn (hf.edge_not_entry he)
    · cases hf.edge_unique hwf he he' ht.symm
      rw [ih hz]

theorem Executes.lt (h : Executes wf handler input t x) (hwf : WellFormed wf) :
    t < wf.nodes.length := by
  cases h with
  | entry hn => exact mem_entryNodes hn
  | edge h he hfires => exact hwf.inside he

def finishedIn (wf : Wf) (wal : List Record) : List Nat :=
  wal.filterMap fun rec => if rec.type = .nodeFinish then csilkWfGetNode wf rec.nodeId else none

def startedIn (wf : Wf) (wal : List Record) : List Nat :=
  wal.filterMap fun rec => if rec.type = .nodeStart then csilkWfGetNode wf rec.nodeId else none

def startRecord (wf : Wf) (n : Nat) : Record := ⟨.nodeStart, idOf wf n, [], []⟩

def finishRecord (wf : Wf) (n : Nat) (output : Option Data) : Record :=
  ⟨.nodeFinish, idOf wf n, (output.bind Data.type).getD [], (output.bind Data.value).getD []⟩

theorem Forest.getNode (hf : Forest wf) (hn : n < wf.nodes.length) :
    csilkWfGetNode wf (idOf wf n) = some n := by
  have hnode := getElem?_eq_getElem hn
  rw [idOf, hnode]
  exact csilkWfGetNode_of_nodup hf.ids hnode

def startsAt (wf : Wf) (n : Nat) (output : Option Data) : List (Nat × Option Data) :=
  (((wf.nodes[n]?.map Node.edges).getD []).filter fun e => e.fires output).map fun e =>
    (e.target, output)

theorem Forest.awaits (hf : Forest wf) (ctx : Ctx) (n : Nat) : awaits wf ctx n = false := by
  cases hnode : wf.nodes[n]? with
  | none => rw [Workflow.awaits, hnode, any_none]
  | some node =>
    rw [Workflow.awaits, hnode, any_some, (hf.plain node (mem_of_getElem? hnode)).2.2, Bool.false_and]

theorem Forest.logged_starts (hf : Forest wf) (starts : List (Nat × Option Data)) :
    (starts.flatMap fun s => logged wf .nodeStart (idOf wf s.1) none) =
      (starts.map Prod.fst).map (startRecord wf) := by
  rw [List.map_map, map_eq_flatMap]
  simp only [logged, if_pos hf.persistent]
  rfl

/-- The output is recorded, the targets start, and the run is over when nothing is left. -/
structure Finishes (wf : Wf) (r : Run) (i : Nat) (w : Work) (output : Option Data) (r' : Run) :
    Prop where
  works : ∃ new : List Work, r'.ctx.works = r.ctx.works.eraseIdx i ++ new ∧
    new.map Work.start = startsAt wf w.node output ∧ ∀ w ∈ new, w.isTimedOut = false
  wal : ∃ tail, r'.wal = r.wal ++ [finishRecord wf w.node output] ++
      ((startsAt wf w.node output).map Prod.fst).map (startRecord wf) ++ tail ∧
    (tail = [] ∨ tail = [⟨.ended, [], [], []⟩])
  outputs : r'.ctx.nodeOutputs = update r.ctx.nodeOutputs w.node output
  total : r'.ctx.totalExecutions = r.ctx.totalExecutions + (startsAt wf w.node output).length
  active : r'.ctx.nodesActive = r'.ctx.works.length
  tokens : r'.ctx.totalTokens = 0
  live : r'.ctx.isTerminated = false
  ended : r'.ctx.works = [] → r'.callbacks = r.callbacks ++ [output]
  goesOn : r'.ctx.works ≠ [] → r'.callbacks = r.callbacks ∧ r'.ctx.freed = r.ctx.freed

theorem Forest.next_follow (hf : Forest wf) (hnode : node ∈ wf.nodes) :
    next wf node output = .follow := by
  obtain ⟨herror, hrouter, _⟩ := hf.plain node hnode
  rw [isNone_iff_eq_none] at hrouter
  rw [next, errorRoute, herror, ite_self, hrouter]

theorem recordOutput_live (wf : Wf) (n : Nat) (node : Node)
    (hlive : r.ctx.isTerminated = false) (htokens : r.ctx.totalTokens = 0)
    (hout : ∀ d, output = some d → d.tokens = 0) :
    (recordOutput wf r n node output).ctx.isTerminated = false ∧
      (recordOutput wf r n node output).ctx.totalTokens = 0 := by
  have hzero : r.ctx.totalTokens + (output.map Data.tokens).getD 0 = 0 := by
    cases output with
    | none => rw [htokens, map_none, getD_none, Int.add_zero]
    | some d => rw [htokens, map_some, getD_some, hout d rfl, Int.add_zero]
  constructor
  · rw [recordOutput]
    rw [hzero, hlive, Bool.false_or, Bool.and_eq_false_iff, decide_eq_false_iff_not,
      decide_eq_false_iff_not]
    omega
  · exact hzero

theorem finishNode_finishes {i : Nat} {r : Run} (hf : Forest wf) (hwf : WellFormed wf)
    (hw : r.ctx.works[i]? = some w) (hnode : wf.nodes[w.node]? = some node)
    (hlive : r.ctx.isTerminated = false) (htokens : r.ctx.totalTokens = 0)
    (hout : ∀ d, output = some d → d.tokens = 0) (hactive : r.ctx.nodesActive = r.ctx.works.length)
    (hlim : r.ctx.totalExecutions + (startsAt wf w.node output).length ≤ maxWorkflowSteps) :
    Finishes wf r i w output (finishNode wf (r.dropWork i) w.node node output) := by
  obtain ⟨hlive', htokens'⟩ := recordOutput_live (r := r.dropWork i) wf w.node node hlive
    htokens hout
  have hedge {e : Edge} (he : e ∈ node.edges) : ∃ k, wf.edge? (w.node, k) = some e := by
    obtain ⟨k, hk⟩ := mem_iff_getElem?.1 he
    exact ⟨k, bind_eq_some_iff.2 ⟨node, hnode, hk⟩⟩
  have hstartsAt : firing output node.edges = startsAt wf w.node output := by
    rw [startsAt, hnode]
    rfl
  obtain ⟨starts, hstarted, hcount, hall⟩ := Started.followEdges
    (r := recordOutput wf (r.dropWork i) w.node node output) w.node 0 output (fun e he => hwf.inside (hedge he).choose_spec) hlive' fun e _ _ => hf.awaits _ _
  have hstarts := (hall (fun e he => threshold_eq hwf (hedge he).choose_spec ▸
    hf.single _ (hwf.inside (hedge he).choose_spec)) (hstartsAt ▸ hlim)).trans hstartsAt
  subst hstarts
  cases finishNode_finished wf (r.dropWork i) w.node node output with
  | terminated hterm =>
    rw [hlive'] at hterm
    cases hterm
  | error _ hnext | route _ hnext | nowhere _ hnext =>
    rw [hf.next_follow (mem_of_getElem? hnode)] at hnext
    cases hnext
  | follow _ hnext heq =>
    rw [heq, hcount]
    generalize (followEdges wf w.node output (recordOutput wf (r.dropWork i) w.node node output) 0
      node.edges).1 = t at hstarted
    have hdrop : (recordOutput wf (r.dropWork i) w.node node output).ctx.works.length + 1 =
        r.ctx.works.length := length_eraseIdx_add_one (List.getElem?_eq_some_iff.1 hw).1
    have hrecord : (recordOutput wf (r.dropWork i) w.node node output).wal =
        r.wal ++ [finishRecord wf w.node output] := by
      rw [recordOutput, logged, if_pos hf.persistent, finishRecord, idOf, hnode]
      rfl
    have hlen := hstarted.length_works
    obtain ⟨new, counts, marks, rfl, hmap, hnew⟩ := hstarted
    rw [hf.logged_starts, hrecord]
    have hidle : r.ctx.nodesActive + ((startsAt wf w.node output).length : Int) - 1 =
        (r.ctx.works.eraseIdx i ++ new).length := by
      have hlen : (r.ctx.works.eraseIdx i ++ new).length = _ := hlen
      omega
    have htimed (w : Work) (hw : w ∈ new) : w.isTimedOut = false := (hnew w hw).2
    rw [leaveNormal]
    split
    case isTrue hdone =>
      have hnil := eq_nil_of_length_eq_zero (Int.ofNat.inj (hidle.symm.trans hdone.2))
      refine ⟨⟨new, rfl, hmap, htimed⟩, ⟨[⟨.ended, [], [], []⟩], ?_, .inr rfl⟩, rfl, rfl, hidle, htokens', hlive',
        fun _ => rfl, fun hne => absurd hnil hne⟩
      rw [logged, if_pos hf.persistent]
      rfl
    case isFalse hmore =>
      refine ⟨⟨new, rfl, hmap, htimed⟩, ⟨[], (append_nil _).symm, .inl rfl⟩, rfl, rfl, hidle, htokens', hlive',
        fun hnil => absurd ⟨?_, ?_⟩ hmore, fun _ => ⟨rfl, rfl⟩⟩
      · have hnone : new = [] := (append_eq_nil_iff.1 hnil).2
        rw [← hmap, hnone]
        rfl
      · exact hidle.trans (congrArg (fun l => Int.ofNat l.length) hnil)

def byHandler (handler : Handler) (r : Run) : Event → Bool
  | .workDone i output => r.ctx.works[i]?.all fun w => output = handler w.node w.input
  | .retryTimer _ => true
  | .nodeTimeout _ | .ttl => false

def LeadsTo (wf : Wf) (n t : Nat) : Prop := ∃ k e, wf.edge? (n, k) = some e ∧ e.target = t

/-- What is finished and what is started is what the handlers ask for so far. -/
structure Cover (wf : Wf) (handler : Handler) (input : Option Data) (finished : List Nat)
    (due : List (Nat × Option Data)) (out : Nat → Option Data) : Prop where
  nodup : (finished ++ due.map Prod.fst).Nodup
  executes : ∀ s ∈ due, Executes wf handler input s.1 s.2
  outputs : ∀ n ∈ finished, ∃ x, Executes wf handler input n x ∧ out n = outputOf wf handler n x
  others : ∀ n, n ∉ finished → out n = none
  closed : ∀ n ∈ finished, ∀ s ∈ startsAt wf n (out n), s.1 ∈ finished ++ due.map Prod.fst
  parents : ∀ t ∈ finished ++ due.map Prod.fst, t ∈ entryNodes wf ∨ ∃ n ∈ finished, LeadsTo wf n t
  entries : ∀ t ∈ entryNodes wf, t ∈ finished ++ due.map Prod.fst

/-- A run of a forest; its result is the output of a node that leads nowhere. -/
structure Tree (wf : Wf) (handler : Handler) (input : Option Data) (r : Run) : Prop extends
    Cover wf handler input (finishedIn wf r.wal) (r.ctx.works.map Work.start) r.ctx.nodeOutputs where
  live : r.ctx.isTerminated = false
  tokens : r.ctx.totalTokens = 0
  active : r.ctx.nodesActive = r.ctx.works.length
  total : r.ctx.totalExecutions ≤ (finishedIn wf r.wal).length + r.ctx.works.length
  timely : ∀ w ∈ r.ctx.works, w.isTimedOut = false
  goesOn : r.ctx.works ≠ [] → r.callbacks = [] ∧ r.ctx.freed = false
  ended : r.ctx.works = [] → ∃ n x, Executes wf handler input n x ∧
    startsAt wf n (outputOf wf handler n x) = [] ∧ r.callbacks = [outputOf wf handler n x]

theorem finishedIn_append : finishedIn wf (wal ++ wal') = finishedIn wf wal ++ finishedIn wf wal' :=
  filterMap_append ..

theorem startedIn_append : startedIn wf (wal ++ wal') = startedIn wf wal ++ startedIn wf wal' :=
  filterMap_append ..

theorem finishedIn_starts (ns : List Nat) : finishedIn wf (ns.map (startRecord wf)) = [] := by
  rw [finishedIn, filterMap_map]
  exact filterMap_eq_nil_iff.2 fun n _ => rfl

theorem Forest.finishedIn_finish (hf : Forest wf) (hn : n < wf.nodes.length) :
    finishedIn wf [finishRecord wf n output] = [n] := by
  rw [finishedIn, filterMap_cons, finishRecord, hf.getNode hn]
  rfl

theorem Finishes.finishedIn_eq (h : Finishes wf r i w output r') (hf : Forest wf)
    (hn : w.node < wf.nodes.length) : finishedIn wf r'.wal = finishedIn wf r.wal ++ [w.node] := by
  obtain ⟨tail, hwal, htail⟩ := h.wal
  have hnone : finishedIn wf tail = [] := by
    rcases htail with rfl | rfl
    · rfl
    · rfl
  rw [hwal, finishedIn_append, finishedIn_append, finishedIn_append, hnone, append_nil,
    finishedIn_starts, append_nil, hf.finishedIn_finish hn]

theorem mem_edges_iff {wf : Wf} : e ∈ (wf.nodes[n]?.map Node.edges).getD [] ↔
    ∃ k, wf.edge? (n, k) = some e := by
  cases hnode : wf.nodes[n]? with
  | none => simp [Wf.edge?, hnode]
  | some node => simp [Wf.edge?, hnode, mem_iff_getElem?]

theorem mem_startsAt (h : s ∈ startsAt wf n output) :
    ∃ k e, wf.edge? (n, k) = some e ∧ e.fires output = true ∧ s = (e.target, output) := by
  obtain ⟨e, he, rfl⟩ := List.mem_map.1 h
  obtain ⟨he, hfires⟩ := mem_filter.1 he
  obtain ⟨k, hk⟩ := mem_edges_iff.1 he
  exact ⟨k, e, hk, hfires, rfl⟩

theorem leadsTo_of_startsAt (h : t ∈ (startsAt wf n output).map Prod.fst) : LeadsTo wf n t := by
  obtain ⟨s, hs, rfl⟩ := List.mem_map.1 h
  obtain ⟨k, e, he, _, rfl⟩ := mem_startsAt hs
  exact ⟨k, e, he, rfl⟩

theorem target_mem_startsAt (he : wf.edge? (n, k) = some e) (hfires : e.fires output = true) :
    (e.target, output) ∈ startsAt wf n output := by
  exact List.mem_map_of_mem (mem_filter.2 ⟨mem_edges_iff.2 ⟨k, he⟩, hfires⟩)

theorem LeadsTo.lt (h : LeadsTo wf n t) (hwf : WellFormed wf) : t < wf.nodes.length := by
  obtain ⟨k, e, he, rfl⟩ := h
  exact hwf.inside he

section
variable (hf : Forest wf)
include hf

theorem Forest.leadsTo_unique (hwf : WellFormed wf) (h : LeadsTo wf n t) (h' : LeadsTo wf m t) :
    m = n := by
  obtain ⟨k, e, he, rfl⟩ := h
  obtain ⟨k', e', he', ht⟩ := h'
  exact congrArg Prod.fst (hf.edge_unique hwf he' he ht)

theorem Forest.not_leadsTo_entry (ht : t ∈ entryNodes wf) : ¬ LeadsTo wf n t := by
  intro ⟨k, e, he, heq⟩
  exact hf.edge_not_entry he (heq ▸ ht)

theorem Forest.startsAt_nodup (hwf : WellFormed wf) :
    ((startsAt wf n output).map Prod.fst).Nodup := by
  rw [startsAt, List.map_map]
  apply List.Nodup.sublist (filter_sublist.map _)
  cases hnode : wf.nodes[n]? with
  | none => exact nodup_nil
  | some node =>
    apply pairwise_iff_getElem.2
    intro j k hj hk hjk heq
    rw [length_map] at hj hk
    rw [getElem_map, getElem_map] at heq
    have hedge (i : Nat) (hi : i < node.edges.length) : wf.edge? (n, i) = some node.edges[i] := by
      rw [Wf.edge?, hnode]
      exact getElem?_eq_getElem hi
    have hsame := hf.edge_unique hwf (hedge j hj) (hedge k hk) heq
    exact absurd (congrArg Prod.snd hsame) (ne_of_lt hjk)

end

section Run
variable {wf : Wf} {handler : Handler} {input : Option Data} {r r' : Run}

section
variable (h : Cover wf handler input finished due out)
include h

theorem Cover.lt (hwf : WellFormed wf) (ht : t ∈ finished ++ due.map Prod.fst) :
    t < wf.nodes.length := by
  rcases mem_append.1 ht with ht | ht
  · obtain ⟨x, hx, _⟩ := h.outputs t ht
    exact hx.lt hwf
  · obtain ⟨s, hs, rfl⟩ := List.mem_map.1 ht
    exact (h.executes s hs).lt hwf

theorem Cover.not_finished (hs : s ∈ due) : s.1 ∉ finished := fun hn =>
  (disjoint_of_nodup_append h.nodup) hn (List.mem_map_of_mem hs)

theorem Cover.fresh (hf : Forest wf) (hwf : WellFormed wf) (hs : s ∈ due) (output : Option Data) :
    (finished ++ due.map Prod.fst ++ (startsAt wf s.1 output).map Prod.fst).Nodup := by
  apply h.nodup.append (hf.startsAt_nodup hwf)
  intro t ht hstart
  have hlead := leadsTo_of_startsAt hstart
  rcases h.parents t ht with hentry | ⟨n, hn, hlead'⟩
  · exact hf.not_leadsTo_entry hentry hlead
  · exact h.not_finished hs (hf.leadsTo_unique hwf hlead hlead' ▸ hn)

theorem Cover.finish (hf : Forest wf) (hwf : WellFormed wf) (hdue : due ~ (n, x) :: rest) :
    Cover wf handler input (finished ++ [n]) (rest ++ startsAt wf n (outputOf wf handler n x))
      (update out n (outputOf wf handler n x)) := by
  have hmem : (n, x) ∈ due := hdue.mem_iff.2 mem_cons_self
  have hexec := h.executes _ hmem
  have hnew : n ∉ finished := h.not_finished hmem
  have hperm : finished ++ [n] ++ (rest ++ startsAt wf n (outputOf wf handler n x)).map Prod.fst ~
      finished ++ due.map Prod.fst ++ (startsAt wf n (outputOf wf handler n x)).map Prod.fst := by
    rw [map_append, ← append_assoc, append_assoc finished]
    exact ((hdue.map Prod.fst).symm.append_left finished).append_right _
  have hkeep (t : Nat) (ht : t ∈ finished ++ due.map Prod.fst) :=
    hperm.mem_iff.2 (mem_append_left ((startsAt wf n (outputOf wf handler n x)).map Prod.fst) ht)
  have hcases (m : Nat) (hm : m ∈ finished ++ [n]) : m ∈ finished ∧
      update out n (outputOf wf handler n x) m = out m ∨
        m = n ∧ update out n (outputOf wf handler n x) m = outputOf wf handler n x := by
    rcases mem_append.1 hm with hm | hm
    · exact .inl ⟨hm, update_of_ne (fun heq : m = n => hnew (heq ▸ hm)) ..⟩
    · cases mem_singleton.1 hm
      exact .inr ⟨rfl, update_self ..⟩
  constructor
  case nodup => exact hperm.nodup_iff.2 (h.fresh hf hwf hmem _)
  case executes =>
    intro s hs
    rcases mem_append.1 hs with hs | hs
    · exact h.executes s (hdue.mem_iff.2 (mem_cons_of_mem _ hs))
    · obtain ⟨k, e, he, hfires, rfl⟩ := mem_startsAt hs
      exact .edge hexec he hfires
  case outputs =>
    intro m hm
    rcases hcases m hm with ⟨hm, hout⟩ | ⟨rfl, hout⟩
    · rw [hout]
      exact h.outputs m hm
    · exact ⟨x, hexec, hout⟩
  case others =>
    intro m hm
    rw [mem_append, mem_singleton, not_or] at hm
    rw [update_of_ne hm.2]
    exact h.others m hm.1
  case closed =>
    intro m hm s hs
    rcases hcases m hm with ⟨hm, hout⟩ | ⟨rfl, hout⟩
    · rw [hout] at hs
      exact hkeep _ (h.closed m hm s hs)
    · rw [hout] at hs
      exact hperm.mem_iff.2 (mem_append_right _ (List.mem_map_of_mem hs))
  case parents =>
    intro t ht
    rcases mem_append.1 (hperm.mem_iff.1 ht) with ht | ht
    · apply (h.parents t ht).imp id
      intro ⟨m, hm, hlead⟩
      exact ⟨m, mem_append_left _ hm, hlead⟩
    · exact .inr ⟨n, mem_append_right _ (mem_singleton_self _), leadsTo_of_startsAt ht⟩
  case entries => exact fun t ht => hkeep t (h.entries t ht)

end

theorem Tree.finish {i : Nat} (h : Tree wf handler input r) (hf : Forest wf)
    (hwf : WellFormed wf) (hw : r.ctx.works[i]? = some w)
    (hfin : Finishes wf r i w (outputOf wf handler w.node w.input) r') :
    Tree wf handler input r' := by
  have hmem := mem_of_getElem? hw
  have hexec := h.executes _ (List.mem_map_of_mem hmem)
  obtain ⟨hcalls, hfreed⟩ := h.goesOn (ne_nil_of_mem hmem)
  obtain ⟨hlt, hget⟩ := List.getElem?_eq_some_iff.1 hw
  have hfinished := hfin.finishedIn_eq hf (hexec.lt hwf)
  obtain ⟨new, hworks, hmap, htimed⟩ := hfin.works
  have hdue : r'.ctx.works.map Work.start = (r.ctx.works.eraseIdx i).map Work.start ++
      startsAt wf w.node (outputOf wf handler w.node w.input) := by
    rw [hworks, map_append, hmap]
  constructor
  case toCover =>
    rw [hfinished, hdue, hfin.outputs]
    exact h.toCover.finish hf hwf (hget ▸ (getElem_cons_eraseIdx_perm hlt).symm.map Work.start)
  case live => exact hfin.live
  case tokens => exact hfin.tokens
  case active => exact hfin.active
  case total =>
    have hlen := length_eraseIdx_add_one hlt
    have htotal := h.total
    rw [hfin.total, hfinished, hworks, length_append, length_append, length_singleton, ← hmap, length_map]
    omega
  case timely =>
    intro v hv
    rw [hworks] at hv
    rcases mem_append.1 hv with hv | hv
    · exact h.timely v (mem_of_mem_eraseIdx hv)
    · exact htimed v hv
  case goesOn =>
    intro hne
    obtain ⟨hcalls', hfreed'⟩ := hfin.goesOn hne
    exact ⟨hcalls'.trans hcalls, hfreed'.trans hfreed⟩
  case ended =>
    intro hnil
    rw [hnil] at hdue
    refine ⟨w.node, w.input, hexec, (append_eq_nil_iff.1 hdue.symm).2, ?_⟩
    rw [hfin.ended hnil, hcalls, nil_append]

theorem Tree.setWork {i : Nat} (h : Tree wf handler input r) (hw : r.ctx.works[i]? = some w)
    (ht : Touch wf w w') (htime : w'.isTimedOut = w.isTimedOut) :
    Tree wf handler input (r.setWork i w') := by
  obtain ⟨hlt, hget⟩ := List.getElem?_eq_some_iff.1 hw
  have hdue : (r.setWork i w').ctx.works.map Work.start = r.ctx.works.map Work.start := by
    have hstart : w'.start = r.ctx.works[i].start := by
      rw [hget, Work.start, ht.node_eq, ht.input_eq]
      rfl
    rw [Run.setWork, map_set, hstart, ← getElem_map Work.start]
    exact set_getElem_self (by rwa [length_map])
  have hlen : (r.setWork i w').ctx.works.length = r.ctx.works.length := length_set ..
  have hnil : (r.setWork i w').ctx.works = [] ↔ r.ctx.works = [] := set_eq_nil_iff ..
  refine { h with
    toCover := hdue ▸ h.toCover, active := h.active.trans (congrArg _ hlen.symm)
    total := hlen ▸ h.total, timely := fun v hv => ?_
    goesOn := fun hne => h.goesOn (hne ∘ hnil.2), ended := fun hnone => h.ended (hnil.1 hnone) }
  rcases mem_or_eq_of_mem_set hv with hv | rfl
  · exact h.timely v hv
  · exact htime.trans (h.timely w (mem_of_getElem? hw))

def TokenFree (handler : Handler) : Prop := ∀ n x d, handler n x = some d → d.tokens = 0

theorem TokenFree.outputOf (h : TokenFree handler) (hout : outputOf wf handler n x = some d) :
    d.tokens = 0 := by
  obtain ⟨node, _, hcheck⟩ := bind_eq_some_iff.1 hout
  apply h n x
  unfold checkSchema at hcheck
  split at hcheck
  case h_1 data rejects heq _ =>
    split at hcheck
    · cases hcheck
    · exact heq.trans hcheck
  case h_2 => exact hcheck

section

variable (h : Tree wf handler input r) (hf : Forest wf) (hwf : WellFormed wf)
include h hf hwf

theorem Tree.limit (hw : w ∈ r.ctx.works) :
    r.ctx.totalExecutions + (startsAt wf w.node output).length ≤ maxWorkflowSteps := by
  have hin : finishedIn wf r.wal ++ (r.ctx.works.map Work.start).map Prod.fst ++
      (startsAt wf w.node output).map Prod.fst ⊆ List.range wf.nodes.length := by
    intro t ht
    apply mem_range.2
    rcases mem_append.1 ht with ht | ht
    · exact h.lt hwf ht
    · exact (leadsTo_of_startsAt ht).lt hwf
  have hfresh : List.Nodup (_ ++ (startsAt wf w.node output).map Prod.fst) :=
    h.fresh hf hwf (List.mem_map_of_mem hw) output
  have hlen := hfresh.length_le_of_subset hin
  rw [length_append, length_append, length_map, length_map, length_map, length_range] at hlen
  have hsmall := hf.small
  have htotal := h.total
  omega

section

variable (hfree : TokenFree handler) (hby : byHandler handler r e = true)
  (hs : loopStep wf r e = some r')
include hfree hby hs

theorem Tree.stepped :
    (∃ (i : Nat) (w : Work), r.ctx.works[i]? = some w ∧
      Finishes wf r i w (outputOf wf handler w.node w.input) r') ∨
    ∃ (i : Nat) (w w' : Work), r.ctx.works[i]? = some w ∧ Touch wf w w' ∧
      w'.isTimedOut = w.isTimedOut ∧ r' = r.setWork i w' := by
  cases (loopStep_stepped hs).2 with
  | @finish i w node output o hw hnode hfin he hout =>
    subst he
    have hmem := mem_of_getElem? hw
    have htimed := h.timely w hmem
    rw [byHandler, hw, all_some, decide_eq_true_eq] at hby
    have hresult : output = outputOf wf handler w.node w.input := by
      rw [hout, Work.output, htimed, if_neg Bool.false_ne_true, hby, outputOf, hnode,
        bind_some]
    subst hresult
    exact .inl ⟨i, w, hw, finishNode_finishes hf hwf hw hnode h.live h.tokens
      (fun d hd => hfree.outputOf hd) h.active (h.limit hf hwf hmem)⟩
  | touch hw ht hfin htime =>
    rcases htime with htime | rfl
    · exact .inr ⟨_, _, _, hw, ht, htime, rfl⟩
    · cases hby
  | ttl harmed hfin he =>
    subst he
    cases hby

theorem Tree.step : Tree wf handler input r' := by
  rcases h.stepped hf hwf hfree hby hs with ⟨i, w, hw, hfin⟩ | ⟨i, w, w', hw, ht, htime, rfl⟩
  · exact h.finish hf hwf hw hfin
  · exact h.setWork hw ht htime

end

end

end Run

end Csilk.Workflow
