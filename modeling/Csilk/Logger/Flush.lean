import Csilk.Logger.Nodes

namespace Csilk.Logger
open Csilk.Lib Csilk.Queue List Function

def State.written (s : State) : List Nat := (s.sink ++ s.buffer).map Msg.ticket

def ConsumerPc.unwritten : ConsumerPc → List Nat
  | .write _ node => [node]
  | _ => []

def ConsumerPc.uncounted : ConsumerPc → Nat
  | .pushLoad _ _ | .pushStore _ _ _ | .pushCas _ _ _ | .count _ => 1
  | _ => 0

def State.pending (s : State) : List Nat := s.consumer.unwritten ++ s.queued

def ProducerPc.Ready (content : Nat → Msg) : ProducerPc → Prop
  | .popLoad m | .popNext m _ | .popCas m _ _ | .full m | .blockWake m | .format m _ => 0 < m.len
  | .enqueue m node .store | .enqueue m node .exchange => 0 < m.len ∧ content node = m
  | _ => True

def FlushPc.Covered (written exchanged : List Nat) : FlushPc → Prop
  | .spin before target => ∀ t ∈ before, t ∈ written ∨ t ∈ exchanged.take target
  | .flush before => ∀ t ∈ before, t ∈ written
  | _ => True

/-- Lines are written in the order of the exchanges; `flushed_seq` counts them. -/
structure Ordered (s : State) : Prop where
  order : s.exchanged = s.written ++ s.pending.map fun n => (s.content n).ticket
  nonempty : ∀ n ∈ s.pending, 0 < (s.content n).len
  ready : ∀ i, (s.producers i).Ready s.content
  opened : s.fp = true
  counted : s.flushedSeq + s.consumer.uncounted = s.written.length
  covered : ∀ f, (s.flushers f).Covered s.written s.exchanged
  barriers : ∀ before ∈ s.barriers, ∀ t ∈ before, t ∈ s.sink.map Msg.ticket

/-- Every call a flush has to wait for is written or among the first `queued_seq` exchanges. -/
def FlushPc.Counted (s : State) : FlushPc → Prop
  | .loadQueued before => ∀ t ∈ before, t ∈ s.written ∨ t ∈ s.exchanged.take s.queuedSeq
  | _ => True

instance (s : State) : DecidablePred (FlushPc.Counted s)
  | .loadQueued before =>
    inferInstanceAs (Decidable (∀ t ∈ before, t ∈ s.written ∨ t ∈ s.exchanged.take s.queuedSeq))
  | .idle | .spin _ _ | .flush _ => .isTrue trivial

def ProducerPc.isFull : ProducerPc → Bool
  | .full _ => true
  | _ => false

/-- Lines are not empty, the queue is never full, files can be reopened, pops are fresh and a flush
loads a `queued_seq` that covers the calls before it. -/
def Counted (s : State) : Act → Prop
  | .log _ len => 0 < len
  | .producer i spurious => Fresh s (.producer i spurious) ∧ (s.producers i).isFull = false
  | .consumer _ reopened => reopened = true
  | .flush _ => True
  | .flusher f => (s.flushers f).Counted s

instance (s : State) : DecidablePred (Counted s)
  | .log _ len => inferInstanceAs (Decidable (0 < len))
  | .producer i spurious =>
    inferInstanceAs (Decidable (Fresh s (.producer i spurious) ∧ (s.producers i).isFull = false))
  | .consumer _ reopened => inferInstanceAs (Decidable (reopened = true))
  | .flush _ => .isTrue trivial
  | .flusher f => inferInstanceAs (Decidable ((s.flushers f).Counted s))

theorem Counted.fresh (h : Counted s a) : Fresh s a := by
  cases a with
  | producer i spurious => exact h.1
  | log | consumer | flush | flusher => trivial

theorem FlushPc.Covered.mono {pc : FlushPc} (h : pc.Covered written exchanged)
    (hwritten : written ⊆ written') (hexchanged : exchanged <+: exchanged') :
    pc.Covered written' exchanged' := by
  cases pc with
  | idle | loadQueued => trivial
  | spin before target =>
    intro t ht
    rcases h t ht with hw | he
    · exact .inl (hwritten hw)
    · obtain ⟨l, rfl⟩ := hexchanged
      rw [take_append]
      exact .inr (mem_append_left _ he)
  | flush before => exact fun t ht => hwritten (h t ht)

theorem writeNode_eq (c : Config) (hfp : s.fp = true) (hlen : 0 < m.len) : ∃ size buffer sink,
      writeNode c s m true = { s with currentSize := size, buffer := buffer, sink := sink } ∧
        sink ++ buffer = s.sink ++ s.buffer ++ [m] ∧ s.sink <+: sink := by
  cases s
  cases hfp
  rw [writeNode, rotateLogFiles]
  repeat' split
  all_goals
    simp only [State.fwrite, hlen]
    exact ⟨_, _, _, rfl, by simp, by simp⟩

theorem csilkLogInit_ordered (c : Config) (size : Nat) : Ordered (csilkLogInit c size) where
  order := rfl
  nonempty n hn := by cases hn
  ready _ := trivial
  opened := rfl
  counted := rfl
  covered _ := trivial
  barriers b hb := by cases hb

section Ordered

variable {c : Config} {s s' : State}

theorem Ordered.fflush_eq (h : Ordered s) :
    s.fflush = { s with sink := s.sink ++ s.buffer, buffer := [] } := by
  rw [State.fflush, if_pos h.opened]

theorem Ordered.ready_update (h : Ordered s) (hpc : pc.Ready s.content) (j : Nat) :
    (update s.producers i pc j).Ready s.content :=
  (forall_update_iff s.producers fun _ pc => pc.Ready s.content).2
    ⟨hpc, fun j _ => h.ready j⟩ j

theorem Ordered.goto (h : Ordered s) (hpc : pc.Ready s.content) : Ordered (s.goto i pc) :=
  { h with ready := h.ready_update hpc }

theorem Ordered.finish (h : Ordered s) : Ordered (s.finish i m) :=
  { h with ready := h.ready_update trivial }

theorem Ordered.popHead (h : Ordered s) (hlen : 0 < m.len) : Ordered (s.popHead i m) := by
  rw [State.popHead]
  split <;> exact h.goto hlen

theorem Ordered.enqueueStep (h : Ordered s) (hpc : s.producers i = .enqueue m n e) :
    Ordered (s.enqueueStep i m n e) := by
  have hready := h.ready i
  rw [hpc] at hready
  cases e with
  | store | link => exact { h with ready := h.ready_update (by exact hready) }
  | exchange =>
    obtain ⟨hlen, hcontent⟩ := hready
    have hpending : (s.enqueueStep i m n .exchange).pending = s.pending ++ [n] :=
      (append_assoc ..).symm
    have horder : s.exchanged ++ [m.ticket] =
        s.written ++ (s.pending ++ [n]).map fun k => (s.content k).ticket := by
      rw [map_append, ← append_assoc, ← h.order, map_singleton, hcontent]
    refine ⟨?_, ?_, h.ready_update trivial, h.opened, h.counted, ?_, h.barriers⟩
    · rw [hpending]
      exact horder
    · rw [hpending]
      exact forall_mem_append.2 ⟨h.nonempty, forall_mem_singleton.2 (hcontent ▸ hlen)⟩
    · intro f
      exact (h.covered f).mono (List.Subset.refl _) (prefix_append ..)

theorem Ordered.write (h : Ordered s) (hpc : s.consumer = .write p n) :
    Ordered { writeNode c s (s.content n) true with consumer := .pushLoad p n } := by
  have hpending : s.pending = n :: s.queued := by rw [State.pending, hpc]; rfl
  have hlen := h.nonempty n (by rw [hpending]; exact mem_cons_self)
  obtain ⟨size, buffer, sink, heq, hout, hsink⟩ := writeNode_eq c h.opened hlen
  have hwritten : (sink ++ buffer).map Msg.ticket = s.written ++ [(s.content n).ticket] := by
    rw [hout, map_append]
    rfl
  have horder : s.exchanged =
      (sink ++ buffer).map Msg.ticket ++ s.queued.map fun k => (s.content k).ticket := by
    rw [h.order, hpending, hwritten, append_assoc]
    rfl
  have hcounted : s.flushedSeq + 1 = ((sink ++ buffer).map Msg.ticket).length := by
    rw [hwritten, length_append, ← h.counted, hpc]
    rfl
  have hcovered : ∀ f, (s.flushers f).Covered ((sink ++ buffer).map Msg.ticket) s.exchanged := by
    intro f
    rw [hwritten]
    exact (h.covered f).mono (subset_append_left ..) (prefix_refl _)
  rw [heq]
  refine ⟨horder, ?_, h.ready, h.opened, hcounted, hcovered, ?_⟩
  · intro k hk
    exact h.nonempty k (by rw [hpending]; exact mem_cons_of_mem _ hk)
  · intro b hb t ht
    exact (hsink.map _).subset (h.barriers b hb t ht)

theorem Ordered.consume (h : Ordered s) (pc : ConsumerPc) (hpending : pc.unwritten = s.consumer.unwritten)
    (huncounted : pc.uncounted = s.consumer.uncounted) : Ordered { s with consumer := pc } where
  order := by
    rw [State.pending, hpending]
    exact h.order
  nonempty := by
    rw [State.pending, hpending]
    exact h.nonempty
  ready := h.ready
  opened := h.opened
  counted := by
    rw [huncounted]
    exact h.counted
  covered := h.covered
  barriers := h.barriers

theorem Ordered.fflush (h : Ordered s) : Ordered s.fflush := by
  have hwritten : ({ s with sink := s.sink ++ s.buffer, buffer := [] } : State).written = s.written := by
    rw [State.written, append_nil]
    rfl
  rw [h.fflush_eq]
  refine ⟨?_, h.nonempty, h.ready, h.opened, ?_, ?_, ?_⟩
  · rw [hwritten]
    exact h.order
  · rw [hwritten]
    exact h.counted
  · rw [hwritten]
    exact h.covered
  · intro b hb t ht
    rw [map_append]
    exact mem_append_left _ (h.barriers b hb t ht)

theorem Ordered.take_subset (h : Ordered s) (hle : target ≤ s.flushedSeq) :
    s.exchanged.take target ⊆ s.written := by
  have hlen : target ≤ s.written.length := by
    rw [← h.counted]
    omega
  rw [h.order, take_append_of_le_length hlen]
  exact List.take_subset ..

theorem Ordered.flusher (h : Ordered s) (f : Nat) (pc : FlushPc) (hpc : pc.Covered s.written s.exchanged) :
    Ordered { s with flushers := update s.flushers f pc } := by
  exact { h with covered := (forall_update_iff s.flushers _).2 ⟨hpc, fun g _ => h.covered g⟩ }

theorem Ordered.csilkLogFlush (h : Ordered s) (hok : (s.flushers f).Counted s)
    (hs : csilkLogFlush s f (s.flushers f) = some s') : Ordered s' := by
  have hcovered := h.covered f
  generalize hpc : s.flushers f = pc at hs hok hcovered
  cases pc with
  | idle => cases hs
  | loadQueued before =>
    cases hs
    exact h.flusher _ _ hok
  | spin before target =>
    rw [Logger.csilkLogFlush] at hs
    split at hs <;> cases hs
    · exact h
    · rename_i hlt
      refine h.flusher _ _ ?_
      intro t ht
      rcases hcovered t ht with hw | he
      · exact hw
      · exact h.take_subset (Nat.le_of_not_lt hlt) he
  | flush before =>
    cases hs
    have h' := h.fflush.flusher f .idle trivial
    have hflush : s.fflush.sink.map Msg.ticket = s.written := by rw [h.fflush_eq]; rfl
    refine { h' with covered := ?_, barriers := ?_ }
    · have hsame : s.fflush.flushers = s.flushers := by rw [h.fflush_eq]
      rw [← hsame]
      exact h'.covered
    · intro b hb t ht
      rcases mem_append.1 hb with hb | hb
      · have hsame : s.fflush.barriers = s.barriers := by rw [h.fflush_eq]
        exact h'.barriers b (hsame ▸ hb) t ht
      · cases mem_singleton.1 hb
        exact hflush ▸ hcovered t ht

section

variable (h : Ordered s) (hplaced : Placed c s.nodes place free chain)
include h hplaced

theorem Ordered.format (hpc : s.producers i = .format m n) :
    Ordered (State.goto { s with content := update s.content n m } i (.enqueue m n .store)) := by
  have hn : s.nodes.Loc free n (.producer i) := congrArg ProducerPc.held hpc
  have hlen : 0 < m.len := by
    have hready := h.ready i
    rw [hpc] at hready
    exact hready
  have hpending : ∀ k ∈ s.pending, update s.content n m k = s.content k := by
    intro k hk
    refine update_of_ne ?_ _ _
    rintro rfl
    rcases mem_append.1 hk with hk | hk
    · refine hplaced.not_at hn (q := .consumer) (by simp) ?_
      cases hc : s.consumer <;> simp only [hc, ConsumerPc.unwritten, not_mem_nil,
        mem_singleton] at hk
      rw [hk]
      exact congrArg ConsumerPc.held hc
    · exact hplaced.not_at hn (q := .queue) (by simp) hk
  have horder : s.exchanged = s.written ++ s.pending.map fun k => (update s.content n m k).ticket :=
    h.order.trans (congrArg (s.written ++ ·) (map_congr_left fun k hk => by rw [hpending k hk]))
  have hnonempty : ∀ k ∈ s.pending, 0 < (update s.content n m k).len := by
    intro k hk
    rw [hpending k hk]
    exact h.nonempty k hk
  have hready : ∀ j, (update s.producers i (.enqueue m n .store) j).Ready (update s.content n m) := by
    intro j
    by_cases hj : j = i
    · rw [hj, update_self]
      exact ⟨hlen, update_self ..⟩
    · have hj' := h.ready j
      rw [update_of_ne hj]
      cases hpj : s.producers j with
      | enqueue m' n' e =>
        rw [hpj] at hj'
        cases e with
        | store | exchange =>
          have hne : n' ≠ n := by
            rintro rfl
            exact hplaced.not_at hn (q := .producer j) (by simpa using hj) (congrArg ProducerPc.held hpj)
          exact ⟨hj'.1, (update_of_ne hne ..).trans hj'.2⟩
        | link prev => trivial
      | _ =>
        rw [hpj] at hj'
        exact hj'
  exact ⟨horder, hnonempty, hready, h.opened, h.counted, h.covered, h.barriers⟩

theorem Ordered.emitLogPayload (hfull : (s.producers i).isFull = false)
    (hs : emitLogPayload c s i spurious (s.producers i) = some s') : Ordered s' := by
  have hready := h.ready i
  generalize hpc : s.producers i = pc at hs hfull hready
  cases pc with
  | idle => cases hs
  | full m => cases hfull
  | popLoad m =>
    cases hs
    exact h.popHead hready
  | popCas m head next =>
    rw [Logger.emitLogPayload] at hs
    split at hs <;> cases hs
    · exact Ordered.goto { h with } hready
    · exact h.popHead hready
  | format m n =>
    cases hs
    exact h.format hplaced hpc
  | enqueue m n e =>
    cases hs
    exact h.enqueueStep hpc
  | loadSleeping m =>
    cases hs
    split
    · exact h.goto trivial
    · exact h.finish
  | wake m =>
    cases hs
    exact Ordered.finish { h with }
  | popNext _ _ | blockWake _ =>
    cases hs
    exact Ordered.goto { h with } hready
  | count m =>
    cases hs
    exact Ordered.goto { h with } trivial

theorem Ordered.dequeueStep
    (hpc : s.consumer = .dequeue p (some pc)) (hs : s.dequeueStep p pc = some s') : Ordered s' := by
  obtain ⟨calls, hserving⟩ := hplaced.serving_at hpc
  have hout := hserving.shared.dequeue
  have hpending : s.pending = s.queued := by rw [State.pending, hpc]; rfl
  have horder := h.order
  have hnonempty := h.nonempty
  have hcounted := h.counted
  rw [hpending] at horder hnonempty
  rw [hpc] at hcounted
  rw [State.dequeueStep] at hs
  generalize csilkLfqDequeue s.queue pc = r at hs hout
  cases hout with
  | running _ _ _ _ | empty _ _ =>
    cases hs
    exact ⟨horder, hnonempty, h.ready, h.opened, hcounted, h.covered, h.barriers⟩
  | @item q chain' n _ hchain =>
    cases hs
    subst hchain
    have hcons : n :: s.queued.erase n = s.queued := hplaced.queued_cons.1
    rw [← hcons] at horder hnonempty
    exact ⟨horder, hnonempty, h.ready, h.opened, hcounted, h.covered, h.barriers⟩

theorem Ordered.loggerConsumerLoop
    (hs : loggerConsumerLoop c s spurious true s.consumer = some s') : Ordered s' := by
  generalize hpc : s.consumer = pc at hs
  cases pc with
  | dequeue p pc =>
    cases pc with
    | none =>
      cases hs
      exact h.consume _ (by rw [hpc]; rfl) (by rw [hpc]; rfl)
    | some pc => exact h.dequeueStep hplaced hpc hs
  | write p n =>
    cases hs
    exact h.write hpc
  | pushStore p n head =>
    cases hs
    have h' := h.consume (.pushCas p n head) (by rw [hpc]; rfl) (by rw [hpc]; rfl)
    exact { h' with }
  | pushCas p n head =>
    rw [Logger.loggerConsumerLoop] at hs
    split at hs <;> cases hs
    · have h' := h.consume (.count p) (by rw [hpc]; rfl) (by rw [hpc]; rfl)
      exact { h' with }
    · exact h.consume _ (by rw [hpc]; rfl) (by rw [hpc]; rfl)
  | count p =>
    cases hs
    have hcounted := h.counted
    have horder := h.order
    have hnonempty := h.nonempty
    rw [hpc] at hcounted
    rw [State.pending, hpc] at horder hnonempty
    exact ⟨horder, hnonempty, h.ready, h.opened, hcounted, h.covered, h.barriers⟩
  | drained p =>
    rw [Logger.loggerConsumerLoop] at hs
    split at hs <;> cases hs
    · exact h.consume _ (by rw [hpc]; rfl) (by rw [hpc]; rfl)
    · have hsame : s.fflush.consumer = s.consumer := by rw [h.fflush_eq]
      exact h.fflush.consume _ (by rw [hsame, hpc]; rfl) (by rw [hsame, hpc]; rfl)
  | sleep | wake =>
    cases hs
    have h' := h.consume .wait (by rw [hpc]; rfl) (by rw [hpc]; rfl)
    exact { h' with }
  | pushLoad _ _ | wait =>
    cases hs
    exact h.consume _ (by rw [hpc]; rfl) (by rw [hpc]; rfl)

theorem Ordered.step (hok : Counted s a) (hs : step c s a = some s') : Ordered s' := by
  cases a with
  | log i len =>
    obtain ⟨-, rfl⟩ := of_enabled hs
    exact Ordered.goto { h with } hok
  | producer i spurious => exact h.emitLogPayload hplaced hok.2 hs
  | consumer spurious reopened =>
    cases hok
    exact h.loggerConsumerLoop hplaced hs
  | flush f =>
    obtain ⟨-, rfl⟩ := of_enabled hs
    exact h.flusher _ _ trivial
  | flusher f => exact h.csilkLogFlush hok hs

end

end Ordered

theorem ordered_reachable (h : (logger c).Reachable Counted s) :
    Ordered s ∧ ∃ place free chain, Placed c s.nodes place free chain := by
  refine h.invariant (P := fun s => Ordered s ∧ ∃ place free chain, Placed c s.nodes place free chain) ?_ ?_
  · rintro s ⟨size, rfl⟩
    exact ⟨csilkLogInit_ordered c size, _, _, _, csilkLogInit_placed c size⟩
  · rintro s a s' ⟨h, place, free, chain, hplaced⟩ hok hs
    exact ⟨h.step hplaced hok hs, hplaced.step hok.fresh hs⟩

/-- When a flush returns, the lines of all calls that had returned are in the sink. -/
theorem csilkLogFlush_barrier (h : (logger c).Reachable Counted s) :
    ∀ before ∈ s.barriers, ∀ t ∈ before, ∃ m ∈ s.sink, m.ticket = t := by
  intro before hb t ht
  exact List.mem_map.1 ((ordered_reachable h).1.barriers before hb t ht)

theorem csilkLogFlush_barrier_one :
    ∃ s, (logger twoNodes).Reachable Counted s ∧ s.barriers = [[0]] ∧ ∃ m ∈ s.sink, m.ticket = 0 := by
  have hrun := (logger twoNodes).run (p := Counted) (csilkLogInit twoNodes 0)
    (.log 0 5 :: List.replicate 9 (.producer 0 false) ++ [.flush 0, .flusher 0] ++
      List.replicate 13 (.consumer false true) ++ List.replicate 2 (.flusher 0)) ⟨0, rfl⟩ rfl
  exact ⟨_, hrun, rfl, csilkLogFlush_barrier hrun [0] (mem_singleton_self _) 0 (mem_singleton_self _)⟩

/-- Lines are written in the order in which they were queued; none is left out. -/
theorem logger_in_order (h : (logger c).Reachable Counted s) :
    s.exchanged = s.written ++ s.pending.map (fun n => (s.content n).ticket) ∧
      s.flushedSeq ≤ s.written.length := by
  have ho := (ordered_reachable h).1
  exact ⟨ho.order, ho.counted ▸ Nat.le_add_right ..⟩

theorem logger_in_order_one : ∃ s, (logger twoNodes).Reachable Counted s ∧ s.written = [] ∧
    s.exchanged = s.pending.map fun n => (s.content n).ticket := by
  have hrun := (logger twoNodes).run (p := Counted) _ (.log 0 5 :: replicate 6 (.producer 0 false))
    ⟨0, rfl⟩ rfl
  exact ⟨_, hrun, rfl, (logger_in_order hrun).1⟩

/-- A node is written before it is counted; then producer `0` logs, and a flush waits for one line.
-/
def earlyActs : List Act :=
  .log 1 5 :: List.replicate 7 (.producer 1 false) ++ List.replicate 13 (.consumer false true) ++
    .log 0 5 :: List.replicate 9 (.producer 0 false) ++ .flush 0 :: List.replicate 3 (.flusher 0)

theorem csilkLogFlush_unwritten :
    ∃ s, (logger twoNodes).Reachable (fun _ _ => True) s ∧ s.barriers = [[1]] ∧
      ∀ m ∈ s.sink, m.ticket ≠ 1 := by
  refine ⟨_, (logger twoNodes).run (p := fun _ _ => True) (csilkLogInit twoNodes 0) earlyActs
    ⟨0, rfl⟩ rfl, rfl, ?_⟩
  intro m hm
  cases mem_singleton.1 hm
  decide

end Csilk.Logger
