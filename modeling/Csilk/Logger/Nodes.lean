import Csilk.Lib.Intrusive
import Csilk.Logger.Model

namespace Csilk.Logger
open Csilk.Lib Csilk.Queue Function
open List hiding head

/-- The node that a producer has popped and not yet exchanged into the queue. -/
def ProducerPc.held : ProducerPc → Option Nat
  | .format _ node | .enqueue _ node .store | .enqueue _ node .exchange => some node
  | _ => none

def ProducerPc.enq : ProducerPc → Option (Nat × EnqPc Nat)
  | .enqueue _ node pc => some (node, pc)
  | _ => none

def ConsumerPc.held : ConsumerPc → Option Nat
  | .write _ node | .pushLoad _ node | .pushStore _ node _ | .pushCas _ node _ => some node
  | _ => none

def ConsumerPc.deq : ConsumerPc → Option (DeqPc Nat)
  | .dequeue _ pc => pc
  | _ => none

inductive Place where
  | freeStack
  | producer (i : Nat)
  | queue
  | consumer
deriving DecidableEq

def State.At (s : State) (n : Nat) : Place → Prop
  | .freeStack => ∃ l, Threaded s.nextFree s.freeStack l ∧ n ∈ l
  | .producer i => (s.producers i).held = some n
  | .queue => n ∈ s.queued
  | .consumer => s.consumer.held = some n

def ProducerPc.Fresh (s : State) : ProducerPc → Prop
  | .popCas _ head next => s.freeStack = some head → s.nextFree head = next
  | _ => True

instance (s : State) : DecidablePred (ProducerPc.Fresh s)
  | .popCas _ head next =>
    inferInstanceAs (Decidable (s.freeStack = some head → s.nextFree head = next))
  | .idle | .popLoad _ | .popNext _ _ | .full _ | .blockWake _ | .format _ _ | .enqueue _ _ _
  | .count _ | .loadSleeping _ | .wake _ => .isTrue trivial

/-- `log_pool_pop` does not succeed with a `next` that is out of date. -/
def Fresh (s : State) : Act → Prop
  | .producer i false => (s.producers i).Fresh s
  | _ => True

instance (s : State) : DecidablePred (Fresh s)
  | .producer i false => inferInstanceAs (Decidable ((s.producers i).Fresh s))
  | .producer _ true | .log _ _ | .consumer _ _ | .flush _ | .flusher _ => .isTrue trivial

structure Nodes where
  queue : Lfqueue Nat
  freeStack : Option Nat
  nextFree : Nat → Option Nat
  queued : List Nat
  producers : Nat → ProducerPc
  consumer : ConsumerPc

abbrev State.nodes (s : State) : Nodes :=
  ⟨s.queue, s.freeStack, s.nextFree, s.queued, s.producers, s.consumer⟩

/-- `State.At`, for the list of nodes on the free stack. -/
def Nodes.Loc (s : Nodes) (free : List Nat) (n : Nat) : Place → Prop
  | .freeStack => n ∈ free
  | .producer i => (s.producers i).held = some n
  | .queue => n ∈ s.queued
  | .consumer => s.consumer.held = some n

structure Placed (c : Config) (s : Nodes) (place : Nat → Place) (free : List Nat)
    (chain : List (Node Nat)) : Prop where
  serving : ∃ calls, Serving s.queue (fun i => (s.producers i).enq) s.consumer.deq calls chain
  queued : chain.filter (· ≠ .stub) = s.queued.map .item
  threaded : Threaded s.nextFree s.freeStack free
  nodup : free.Nodup
  loc : ∀ n p, s.Loc free n p ↔ n < c.capacity ∧ place n = p
  pushing : ∀ p n head, s.consumer = .pushCas p n head → s.nextFree n = head

theorem initPool_threaded (capacity : Nat) :
    Threaded (initPool capacity).2 (initPool capacity).1 (range capacity).reverse := by
  induction capacity with
  | zero => rfl
  | succ n ih =>
    rw [initPool, range_succ, foldl_append, reverse_append]
    exact ih.push (by simp)

theorem csilkLogInit_placed (c : Config) (size : Nat) :
    Placed c (csilkLogInit c size).nodes (fun _ => .freeStack) (range c.capacity).reverse [.stub] where
  serving := ⟨_, csilkLfqInit_serving _⟩
  queued := rfl
  threaded := initPool_threaded c.capacity
  nodup := nodup_reverse.2 nodup_range
  loc n p := by cases p <;> simp [Nodes.Loc, csilkLogInit, ProducerPc.held, ConsumerPc.held]
  pushing p n head hc := by cases hc

section Placed

variable {c : Config} {s s' : Nodes} {place : Nat → Place} {free : List Nat} {chain : List (Node Nat)}

theorem Placed.at_iff {s : State} (h : Placed c s.nodes place free chain) (hn : n < c.capacity) :
    s.At n p ↔ place n = p := by
  have hloc : s.At n p ↔ s.nodes.Loc free n p := by
    cases p with
    | freeStack =>
      refine ⟨?_, fun hn => ⟨free, h.threaded, hn⟩⟩
      rintro ⟨l, hl, hmem⟩
      rw [hl.unique h.threaded] at hmem
      exact hmem
    | producer i | queue | consumer => exact Iff.rfl
  rw [hloc, h.loc n p, and_iff_right hn]

section

variable (h : Placed c s place free chain)
include h

theorem Placed.not_at (hn : s.Loc free n p) (hne : q ≠ p) :
    ¬s.Loc free n q := by
  intro hn'
  rw [← ((h.loc n p).1 hn).2, ← ((h.loc n q).1 hn').2] at hne
  exact hne rfl

theorem Placed.moved (hn : s.Loc free n p)
    (hfrom : ∀ m, s'.Loc free' m p ↔ s.Loc free m p ∧ m ≠ n)
    (hto : ∀ m, s'.Loc free' m q ↔ s.Loc free m q ∨ m = n)
    (hother : ∀ m r, r ≠ p → r ≠ q → (s'.Loc free' m r ↔ s.Loc free m r)) (m : Nat) (r : Place) :
    s'.Loc free' m r ↔ m < c.capacity ∧ update place n q m = r := by
  by_cases hm : m = n
  · subst hm
    rw [update_self, and_iff_right ((h.loc m p).1 hn).1]
    by_cases hq : r = q
    · rw [hq, hto]
      simp
    · refine iff_of_false ?_ (Ne.symm hq)
      by_cases hp : r = p
      · rw [hp, hfrom]
        exact fun hm => hm.2 rfl
      · rw [hother m r hp hq]
        exact h.not_at hn hp
  · rw [update_of_ne hm, ← h.loc m r]
    by_cases hq : r = q
    · rw [hq, hto, or_iff_left hm]
    · by_cases hp : r = p
      · rw [hp, hfrom, and_iff_left hm]
      · exact hother m r hp hq

theorem Placed.queued_nodup : s.queued.Nodup := by
  obtain ⟨calls, hserving⟩ := h.serving
  have hnodup := hserving.shared.linked.nodup.filter (· ≠ .stub)
  rw [h.queued] at hnodup
  exact hnodup.of_map _

theorem Placed.loc_consumer (hheld : pc.held = s.consumer.held)
    (n : Nat) (p : Place) :
    Nodes.Loc { s with queue := q, nextFree := nextFree, consumer := pc } free n p ↔
      n < c.capacity ∧ place n = p := by
  rw [← h.loc n p]
  cases p with
  | freeStack | producer j | queue => exact Iff.rfl
  | consumer => rw [Nodes.Loc, Nodes.Loc, hheld]

end

theorem ProducerPc.enq_elim (o : Option (EnqPc Nat)) :
    (o.elim (ProducerPc.count m) (ProducerPc.enqueue m n)).enq = o.map (n, ·) := by
  cases o <;> rfl

theorem Placed.queued_cons (h : Placed c s place free (.item n :: chain)) :
    n :: s.queued.erase n = s.queued ∧ chain.filter (· ≠ .stub) = (s.queued.erase n).map .item := by
  have hqueued := h.queued
  cases hs : s.queued with
  | nil => simp [hs] at hqueued
  | cons k rest =>
    rw [hs] at hqueued
    simp only [map_cons, ne_eq, reduceCtorEq, not_false_eq_true, decide_true,
      filter_cons_of_pos, cons.injEq, Node.item.injEq] at hqueued
    rw [hqueued.1, erase_cons_head]
    exact ⟨rfl, hqueued.2⟩

theorem Placed.take (h : Placed c s place free (.item n :: chain))
    (hheld : s.consumer.held = none)
    (hserving : Serving q (fun i => (s.producers i).enq) none calls chain) :
    Placed c { s with queue := q, queued := s.queued.erase n, consumer := .write p n }
      (update place n .consumer) free chain := by
  obtain ⟨hcons, hfilter⟩ := h.queued_cons
  have hn : s.Loc free n .queue := by rw [Nodes.Loc, ← hcons]; exact mem_cons_self
  refine ⟨⟨calls, hserving⟩, hfilter, h.threaded, h.nodup,
    h.moved hn (q := .consumer) ?_ ?_ ?_, by simp⟩
  · exact fun k => h.queued_nodup.mem_erase_iff.trans and_comm
  · intro k
    rw [Nodes.Loc, Nodes.Loc, hheld]
    simp [ConsumerPc.held, eq_comm]
  · intro k r hp hq
    cases r with
    | freeStack | producer j => exact Iff.rfl
    | queue => exact absurd rfl hp
    | consumer => exact absurd rfl hq

section

variable (h : Placed c s place free chain)
include h

theorem Placed.serving_at (hpc : s.consumer = pc) :
    ∃ calls, Serving s.queue (fun i => (s.producers i).enq) pc.deq calls chain :=
  hpc ▸ h.serving

theorem Placed.quiet (hpc : s.producers i = old) (hheld : pc.held = old.held)
    (henq : pc.enq = old.enq) :
    Placed c { s with producers := update s.producers i pc } place free chain := by
  subst hpc
  have hsame : (fun j => (update s.producers i pc j).enq) = fun j => (s.producers j).enq :=
    funext (update_same ProducerPc.enq henq)
  refine { h with serving := hsame ▸ h.serving, loc := fun n p => ?_ }
  rw [← h.loc n p]
  cases p with
  | freeStack | queue | consumer => exact Iff.rfl
  | producer j => exact Iff.of_eq (congrArg (· = some n) (update_same ProducerPc.held hheld j))

theorem Placed.pop {next : Option Nat} (hstack : s.freeStack = some n)
    (hnext : s.nextFree n = next) (hheld : (s.producers i).held = none)
    (henq : (s.producers i).enq = none) :
    ∃ free', Placed c { s with freeStack := next, producers := update s.producers i (.format m n) }
      (update place n (.producer i)) free' chain := by
  have hthreaded := h.threaded
  rw [hstack] at hthreaded
  obtain ⟨rest, rfl, hrest⟩ := hthreaded.cases_some
  rw [hnext] at hrest
  obtain ⟨hfresh, hnodup⟩ := nodup_cons.1 h.nodup
  have hn : s.Loc (n :: rest) n .freeStack := mem_cons_self
  refine ⟨rest, ?_, h.queued, hrest, hnodup, h.moved hn (q := .producer i) ?_ ?_ ?_, h.pushing⟩
  · have henq' : (fun j => (update s.producers i (.format m n) j).enq) = fun j => (s.producers j).enq :=
      funext (update_same ProducerPc.enq (by rw [henq]; rfl))
    exact henq' ▸ h.serving
  · intro k
    by_cases hk : k = n
    · subst hk
      simp [Nodes.Loc, hfresh]
    · simp [Nodes.Loc, hk]
  · intro k
    rw [Nodes.Loc, Nodes.Loc, hheld]
    simp [ProducerPc.held, eq_comm]
  · intro k r hp hq
    cases r with
    | freeStack => exact absurd rfl hp
    | producer j =>
      have hj : j ≠ i := fun heq => hq (heq ▸ rfl)
      simp [Nodes.Loc, hj]
    | queue | consumer => exact Iff.rfl

theorem Placed.mem_queued : .item n ∈ chain ↔ n ∈ s.queued := by
  have hmem : .item n ∈ chain.filter (· ≠ .stub) ↔ .item n ∈ s.queued.map Node.item := by rw [h.queued]
  simpa using hmem

theorem Placed.begin (hpc : s.producers i = .format m n) :
    Placed c { s with producers := update s.producers i (.enqueue m n .store) } place free chain := by
  have hn : s.Loc free n (.producer i) := congrArg ProducerPc.held hpc
  have henq : (fun j => (update s.producers i (.enqueue m n .store) j).enq) =
      update (fun j => (s.producers j).enq) i (some (n, .store)) :=
    comp_update ProducerPc.enq s.producers i _
  obtain ⟨calls, hserving⟩ := h.serving
  have hfree : calls (.item n) = none := by
    refine Option.eq_none_iff_forall_ne_some.2 fun e hcall => ?_
    obtain ⟨j, hj⟩ := hserving.caller hcall
    have hok := hserving.shared.linked.ok _ e hcall
    cases e with
    | store | exchange =>
      have hheld : s.Loc free n (.producer j) := by
        cases hpj : s.producers j <;> simp only [hpj] at hj <;> cases hj
        rw [Nodes.Loc, hpj]
        rfl
      by_cases hji : j = i
      · rw [hji, hpc] at hj
        cases hj
      · exact h.not_at hn (q := .producer j) (by simpa using hji) hheld
    | link prev => exact h.not_at hn (q := .queue) (by simp) (h.mem_queued.1 hok.1.right_mem)
  have hout : .item n ∉ chain := by
    rw [h.mem_queued]
    exact h.not_at hn (q := .queue) (by simp)
  have hserving' := hserving.begin (congrArg ProducerPc.enq hpc) hout hfree
  refine { h with serving := ⟨_, henq ▸ hserving'⟩, loc := ?_ }
  intro k p
  rw [← h.loc k p]
  cases p with
  | freeStack | queue | consumer => exact Iff.rfl
  | producer j =>
    exact Iff.of_eq (congrArg (· = some k) (update_same ProducerPc.held (by rw [hpc]; rfl) j))

theorem Placed.consume (hpc : s.consumer = o) (hheld : pc.held = o.held) (hdeq : pc.deq = o.deq)
    (hpush : ∀ p n head, pc ≠ .pushCas p n head) : Placed c { s with consumer := pc } place free chain := by
  subst hpc
  exact { h with
    serving := hdeq ▸ h.serving
    loc := h.loc_consumer hheld
    pushing := fun p n head hc => absurd hc (hpush p n head) }

theorem Placed.pushStore (hpc : s.consumer = .pushStore p n head) :
    Placed c { s with nextFree := update s.nextFree n head, consumer := .pushCas p n head }
      place free chain := by
  have hn : s.Loc free n .consumer := congrArg ConsumerPc.held hpc
  have hserving := h.serving_at hpc
  refine ⟨hserving, h.queued, h.threaded.update (h.not_at hn (q := .freeStack) (by simp)),
    h.nodup, h.loc_consumer (congrArg ConsumerPc.held hpc).symm, ?_⟩
  intro p' k head' hc
  cases hc
  exact update_self ..

theorem Placed.push (hpc : s.consumer = .pushCas p n s.freeStack) :
    Placed c { s with freeStack := some n, consumer := .count p } (update place n .freeStack)
      (n :: free) chain := by
  have hn : s.Loc free n .consumer := congrArg ConsumerPc.held hpc
  have hserving := h.serving_at hpc
  have hfree : n ∉ free := h.not_at hn (q := .freeStack) (by simp)
  refine ⟨hserving, h.queued, ⟨rfl, ?_⟩, nodup_cons.2 ⟨hfree, h.nodup⟩,
    h.moved hn ?_ ?_ ?_, by simp⟩
  · rw [h.pushing p n _ hpc]
    exact h.threaded
  · intro k
    simp [Nodes.Loc, hpc, ConsumerPc.held, eq_comm]
  · intro k
    simp [Nodes.Loc, or_comm]
  · intro k r hp hq
    cases r with
    | freeStack => exact absurd rfl hq
    | producer j | queue => exact Iff.rfl
    | consumer => exact absurd rfl hp

end

theorem writeNode_nodes (c : Config) (s : State) (m : Msg) (reopened : Bool) :
    (writeNode c s m reopened).nodes = s.nodes := by
  rw [writeNode, State.fwrite, State.fwrite, rotateLogFiles]
  repeat' split
  all_goals rfl

theorem fflush_nodes (s : State) : s.fflush.nodes = s.nodes := by
  rw [State.fflush]
  split <;> rfl

section

variable {s s' : State} (h : Placed c s.nodes place free chain)
include h

theorem Placed.popHead (hheld : (s.producers i).held = none) (henq : (s.producers i).enq = none) :
    Placed c (s.popHead i m).nodes place free chain := by
  rw [State.popHead]
  split <;> exact h.quiet rfl hheld.symm henq.symm

theorem Placed.enqueueStep (hpc : s.producers i = .enqueue m n e) :
    ∃ place', Placed c (s.enqueueStep i m n e).nodes place' free (e.grow (.item n) chain) := by
  have hserving : ∃ calls, Serving (s.enqueueStep i m n e).queue
      (fun j => ((s.enqueueStep i m n e).producers j).enq) s.consumer.deq calls
      (e.grow (.item n) chain) := by
    have henq : (fun j => ((s.enqueueStep i m n e).producers j).enq) =
        update (fun j => (s.producers j).enq) i
          ((csilkLfqEnqueue s.queue (.item n) e).2.map (n, ·)) := by
      rw [← ProducerPc.enq_elim (m := m)]
      exact comp_update ProducerPc.enq s.producers i _
    obtain ⟨calls, hserving⟩ := h.serving
    rw [henq]
    exact ⟨_, hserving.enqueue (congrArg ProducerPc.enq hpc)⟩
  have hsame : e ≠ .exchange → (s.producers i).held =
      ((csilkLfqEnqueue s.queue (.item n) e).2.elim (ProducerPc.count m) (ProducerPc.enqueue m n)).held := by
    intro he
    rw [hpc]
    cases e <;> first | rfl | exact absurd rfl he
  by_cases he : e = .exchange
  · subst he
    have hn : s.nodes.Loc free n (.producer i) := congrArg ProducerPc.held hpc
    refine ⟨update place n .queue, hserving, ?_, h.threaded, h.nodup, h.moved hn ?_ ?_ ?_, h.pushing⟩
    · rw [EnqPc.grow, filter_append, h.queued]
      simp [State.enqueueStep]
    · intro k
      simp [Nodes.Loc, State.enqueueStep, csilkLfqEnqueue, ProducerPc.held, hpc, eq_comm]
    · intro k
      simp [Nodes.Loc, State.enqueueStep]
    · intro k r hp hq
      cases r with
      | freeStack | consumer => exact Iff.rfl
      | producer j =>
        have hj : j ≠ i := fun heq => hp (heq ▸ rfl)
        simp [Nodes.Loc, State.enqueueStep, hj]
      | queue => exact absurd rfl hq
  · refine ⟨place, hserving, ?_, h.threaded, h.nodup, ?_, h.pushing⟩
    · have hgrow : e.grow (.item n) chain = chain := by cases e <;> first | rfl | exact absurd rfl he
      rw [hgrow, h.queued]
      simp [State.enqueueStep, he]
    · intro k p
      rw [← h.loc k p]
      cases p with
      | freeStack | consumer => exact Iff.rfl
      | producer j =>
        exact Iff.of_eq (congrArg (· = some k) (update_same ProducerPc.held (hsame he).symm j))
      | queue => simp [Nodes.Loc, State.enqueueStep, he]

theorem Placed.emitLogPayload (hfresh : Fresh s (.producer i spurious))
    (hs : emitLogPayload c s i spurious (s.producers i) = some s') :
    ∃ place' free' chain', Placed c s'.nodes place' free' chain' := by
  generalize hpc : s.producers i = pc at hs
  cases pc with
  | idle => cases hs
  | popLoad m =>
    cases hs
    exact ⟨place, free, chain, h.popHead (congrArg ProducerPc.held hpc) (congrArg ProducerPc.enq hpc)⟩
  | popCas m head next =>
    have hheld : (s.producers i).held = none := congrArg ProducerPc.held hpc
    have henq : (s.producers i).enq = none := congrArg ProducerPc.enq hpc
    rw [Logger.emitLogPayload] at hs
    split at hs <;> cases hs
    · rename_i hcas
      rw [hcas.2, Fresh, hpc] at hfresh
      obtain ⟨free', hpop⟩ := h.pop (m := m) hcas.1 (hfresh hcas.1) hheld henq
      exact ⟨_, free', chain, hpop⟩
    · exact ⟨place, free, chain, h.popHead hheld henq⟩
  | full m =>
    cases hs
    refine ⟨place, free, chain, ?_⟩
    rw [overflow]
    split
    · exact h.quiet hpc (by split <;> rfl) (by split <;> rfl)
    · split <;> exact h.quiet hpc rfl rfl
    · exact h.quiet hpc rfl rfl
  | format m n =>
    cases hs
    exact ⟨place, free, chain, h.begin hpc⟩
  | enqueue m n e =>
    cases hs
    obtain ⟨place', h'⟩ := h.enqueueStep hpc
    exact ⟨place', free, _, h'⟩
  | loadSleeping m =>
    cases hs
    refine ⟨place, free, chain, ?_⟩
    split <;> exact h.quiet hpc rfl rfl
  | popNext _ _ | blockWake _ | count _ | wake _ =>
    cases hs
    exact ⟨place, free, chain, h.quiet hpc rfl rfl⟩

theorem Placed.dequeueStep (hpc : s.consumer = .dequeue p (some pc)) (hs : s.dequeueStep p pc = some s') :
    ∃ place' chain', Placed c s'.nodes place' free chain' := by
  obtain ⟨calls, hserving⟩ := h.serving_at hpc
  have hheld : s.consumer.held = none := congrArg ConsumerPc.held hpc
  have hout := hserving.shared.dequeue
  rw [State.dequeueStep] at hs
  generalize csilkLfqDequeue s.queue pc = r at hs hout
  cases hout with
  | @running q pc' calls' chain' hshared hcalls hchain hnear =>
    cases hs
    exact ⟨place, chain', ⟨calls', hserving.follow hshared hcalls⟩, hchain.trans h.queued, h.threaded,
      h.nodup, h.loc_consumer hheld.symm, by simp⟩
  | empty hshared hnear =>
    cases hs
    exact ⟨place, chain, ⟨calls, hserving.follow hshared fun _ => rfl⟩, h.queued, h.threaded, h.nodup,
      h.loc_consumer hheld.symm, by simp⟩
  | @item q chain' n hshared hchain =>
    cases hs
    subst hchain
    exact ⟨_, chain', h.take hheld (hserving.follow hshared fun _ => rfl)⟩

theorem Placed.loggerConsumerLoop (hs : loggerConsumerLoop c s spurious reopened s.consumer = some s') :
    ∃ place' free' chain', Placed c s'.nodes place' free' chain' := by
  generalize hpc : s.consumer = pc at hs
  cases pc with
  | dequeue p pc =>
    cases pc with
    | none =>
      cases hs
      obtain ⟨calls, hserving⟩ := h.serving_at hpc
      exact ⟨place, free, chain, ⟨calls, hserving.dequeue⟩, h.queued, h.threaded, h.nodup,
        h.loc_consumer (congrArg ConsumerPc.held hpc).symm, by simp⟩
    | some pc =>
      obtain ⟨place', chain', h'⟩ := h.dequeueStep hpc hs
      exact ⟨place', free, chain', h'⟩
  | write p n =>
    cases hs
    have hnodes := writeNode_nodes c s (s.content n) reopened
    refine ⟨place, free, chain, (hnodes ▸ h).consume (o := .write p n) ?_ rfl rfl (by simp)⟩
    exact (congrArg Nodes.consumer hnodes).trans hpc
  | pushStore p n head =>
    cases hs
    exact ⟨place, free, chain, h.pushStore hpc⟩
  | pushCas p n head =>
    rw [Logger.loggerConsumerLoop] at hs
    split at hs <;> cases hs
    · rename_i hcas
      rw [← hcas.1] at hpc
      exact ⟨_, _, chain, h.push hpc⟩
    · exact ⟨place, free, chain, h.consume hpc rfl rfl (by simp)⟩
  | drained p =>
    rw [Logger.loggerConsumerLoop] at hs
    split at hs <;> cases hs
    · exact ⟨place, free, chain, h.consume hpc rfl rfl (by simp)⟩
    · have hnodes := fflush_nodes s
      refine ⟨place, free, chain, (hnodes ▸ h).consume (o := .drained p) ?_ rfl rfl (by simp)⟩
      exact (congrArg Nodes.consumer hnodes).trans hpc
  | pushLoad _ _ | count _ | sleep | wait | wake =>
    cases hs
    exact ⟨place, free, chain, h.consume hpc rfl rfl (by simp)⟩

theorem Placed.csilkLogFlush (hs : csilkLogFlush s f (s.flushers f) = some s') :
    Placed c s'.nodes place free chain := by
  generalize hpc : s.flushers f = pc at hs
  cases pc with
  | idle => cases hs
  | loadQueued before =>
    cases hs
    exact h
  | spin before target =>
    rw [Logger.csilkLogFlush] at hs
    split at hs <;> cases hs <;> exact h
  | flush before =>
    cases hs
    exact fflush_nodes s ▸ h

theorem Placed.step (hfresh : Fresh s a) (hs : step c s a = some s') :
    ∃ place' free' chain', Placed c s'.nodes place' free' chain' := by
  cases a with
  | log i len =>
    obtain ⟨hpc, rfl⟩ := of_enabled hs
    exact ⟨place, free, chain, h.quiet hpc rfl rfl⟩
  | producer i spurious => exact h.emitLogPayload hfresh hs
  | consumer spurious reopened => exact h.loggerConsumerLoop hs
  | flush f =>
    obtain ⟨-, rfl⟩ := of_enabled hs
    exact ⟨place, free, chain, h⟩
  | flusher f => exact ⟨place, free, chain, h.csilkLogFlush hs⟩

end

end Placed

theorem placed_reachable (h : (logger c).Reachable Fresh s) :
    ∃ place free chain, Placed c s.nodes place free chain := by
  refine h.invariant (P := fun s => ∃ place free chain, Placed c s.nodes place free chain) ?_ ?_
  · rintro s ⟨size, rfl⟩
    exact ⟨_, _, _, csilkLogInit_placed c size⟩
  · rintro s a s' ⟨place, free, chain, h⟩ hfresh hs
    exact h.step hfresh hs

/-- Every node has one owner, in every run whose pops do not install a stale `next`. -/
theorem logger_node_owner (h : (logger c).Reachable Fresh s) :
    s.queued.Nodup ∧ ∀ n < c.capacity, ∃! p, s.At n p := by
  obtain ⟨place, free, chain, h⟩ := placed_reachable h
  constructor
  · exact h.queued_nodup
  · intro n hn
    refine ⟨place n, (h.at_iff hn).2 rfl, ?_⟩
    intro p hp
    exact ((h.at_iff hn).1 hp).symm

def twoNodes : Config := ⟨2, .drop, false, 0⟩

theorem logger_node_owner_popped :
    ∃ s, (logger twoNodes).Reachable Fresh s ∧ s.At 1 (.producer 0) ∧ ∃! p, s.At 1 p := by
  have hpopped := (logger twoNodes).run (p := Fresh) (csilkLogInit twoNodes 0)
    (.log 0 5 :: replicate 3 (.producer 0 false)) ⟨0, rfl⟩ rfl
  exact ⟨_, hpopped, rfl, (logger_node_owner hpopped).2 1 (by decide)⟩

/-- Producer `0` reads node `1` and its successor; meanwhile producer `1` takes both, and node `1`
comes back. -/
def reusedActs : List Act :=
  .log 0 5 :: replicate 2 (.producer 0 false) ++ .log 1 5 :: replicate 9 (.producer 1 false) ++
    .log 1 5 :: replicate 3 (.producer 1 false) ++ replicate 12 (.consumer false true) ++
    [.producer 0 false]

/-- Node `0` is back on the stack, while producer `1` is formatting its line into it. -/
theorem logger_node_two_owners :
    ∃ s, (logger twoNodes).Reachable (fun _ _ => True) s ∧ s.At 0 .freeStack ∧ s.At 0 (.producer 1) := by
  refine ⟨_, (logger twoNodes).run (p := fun _ _ => True) (csilkLogInit twoNodes 0) reusedActs
    ⟨0, rfl⟩ rfl, ⟨[0], ⟨rfl, rfl⟩, mem_singleton_self 0⟩, rfl⟩

end Csilk.Logger
