import Csilk.Lib.Transition
import Csilk.Queue.Lfq
import Mathlib.Data.List.Count

namespace Csilk.Queue
open Csilk.Lib Option Function

/-- `exchanged` and `results` record the exchanges and what the dequeues returned. -/
structure State (ν : Type) where
  queue : Lfqueue ν
  producers : Nat → Option (ν × EnqPc ν)
  consumer : Option (DeqPc ν)
  available : ν → Bool
  exchanged : List ν
  results : List (Option (Node ν))

inductive Act (ν : Type) where
  | enqueue (i : Nat) (n : ν)
  | producer (i : Nat)
  | dequeue
  | consumer

variable {ν : Type} [DecidableEq ν] {s s' : State ν}

def State.init (memory : Node ν → Option (Node ν)) : State ν where
  queue := csilkLfqInit memory
  producers := fun _ => none
  consumer := none
  available := fun _ => true
  exchanged := []
  results := []

def State.returned (s : State ν) : List (Node ν) := s.results.filterMap id

def State.release (s : State ν) : Option (Node ν) → ν → Bool
  | some (.item n) => update s.available n true
  | _ => s.available

def State.producerStep (s : State ν) (i : Nat) (n : ν) (pc : EnqPc ν) : State ν :=
  { s with
    queue := (csilkLfqEnqueue s.queue (.item n) pc).1
    producers := update s.producers i ((csilkLfqEnqueue s.queue (.item n) pc).2.map (n, ·))
    exchanged := if pc = .exchange then s.exchanged ++ [n] else s.exchanged }

def State.consumerStep (s : State ν) (pc : DeqPc ν) : State ν :=
  match csilkLfqDequeue s.queue pc with
  | (q, .running pc) => { s with queue := q, consumer := some pc }
  | (q, .returned r) =>
    { s with queue := q, consumer := none, available := s.release r, results := s.results ++ [r] }

/-- A node is enqueued by one producer, and again only after it was returned. -/
def State.step (s : State ν) : Act ν → Option (State ν)
  | .enqueue i n =>
    if s.producers i = none ∧ s.available n = true then
      some { s with
        producers := update s.producers i (some (n, .store))
        available := update s.available n false }
    else none
  | .producer i => (s.producers i).map fun p => s.producerStep i p.1 p.2
  | .dequeue =>
    if s.consumer = none then some { s with consumer := some (.loadNext s.queue.tail) } else none
  | .consumer => s.consumer.map s.consumerStep

def lfq (ν : Type) [DecidableEq ν] : System (State ν) (Act ν) where
  init s := ∃ memory, s = State.init memory
  step := State.step

/-- The nodes `chain` are in the queue, `calls` are the calls for nodes. -/
structure Inv (s : State ν) (calls : Node ν → Option (EnqPc ν)) (chain : List (Node ν)) : Prop where
  serving : Serving s.queue s.producers s.consumer calls chain
  order : s.exchanged.map .item = s.returned ++ chain.filter (· ≠ .stub)
  available : ∀ n, s.available n = true → .item n ∉ chain ∧ calls (.item n) = none

section

variable {calls : Node ν → Option (EnqPc ν)} {chain : List (Node ν)} (h : Inv s calls chain)
include h

theorem Inv.enqueue (hi : s.producers i = none) (hn : s.available n = true) :
    Inv { s with
      producers := update s.producers i (some (n, .store))
      available := update s.available n false } (update calls (.item n) (some .store)) chain := by
  obtain ⟨hout, hfree⟩ := h.available n hn
  refine ⟨h.serving.begin hi hout hfree, h.order, ?_⟩
  intro m (hm : update s.available n false m = true)
  rcases update_cases (· = true) hm with ⟨-, hm⟩ | ⟨hne, hm⟩
  · cases hm
  · rw [update_of_ne (by simpa using hne)]
    exact h.available m hm

theorem Inv.producerStep (hi : s.producers i = some (n, pc)) :
    Inv (s.producerStep i n pc) (update calls (.item n) (csilkLfqEnqueue s.queue (.item n) pc).2)
      (pc.grow (.item n) chain) := by
  refine ⟨h.serving.enqueue hi, ?_, ?_⟩
  · have horder := h.order
    cases pc with
    | store | link prev => exact horder
    | exchange =>
      simp only [State.producerStep, if_true, List.map_append, horder, EnqPc.grow]
      simp [State.returned]
  · intro m hm
    obtain ⟨hout, hfree⟩ := h.available m hm
    have hne : m ≠ n := by
      rintro rfl
      rw [h.serving.call hi] at hfree
      cases hfree
    rw [update_of_ne (by simpa using hne)]
    refine ⟨?_, hfree⟩
    cases pc <;> simp [EnqPc.grow, hout, hne]

theorem Inv.consumerStep (hc : s.consumer = some pc) :
    ∃ calls' chain', Inv (s.consumerStep pc) calls' chain' := by
  obtain ⟨hserving, horder, havail⟩ := h
  rw [hc] at hserving
  have hout := hserving.shared.dequeue
  rw [State.consumerStep]
  generalize csilkLfqDequeue s.queue pc = r at hout
  cases hout with
  | @running q pc' calls' chain' hshared hcalls hchain hnear =>
    refine ⟨calls', chain', hserving.follow hshared hcalls, ?_, ?_⟩
    · rw [hchain]
      exact horder
    · intro n hn
      rw [hcalls, mem_chain_iff hchain]
      exact havail n hn
  | empty hshared hnear =>
    refine ⟨calls, chain, hserving.follow hshared fun _ => rfl, ?_, havail⟩
    rw [horder]
    simp [State.returned]
  | @item q chain' n hshared hchain =>
    subst hchain
    refine ⟨calls, chain', hserving.follow hshared fun _ => rfl, ?_, ?_⟩
    · rw [horder]
      simp [State.returned]
    · intro m (hm : update s.available n true m = true)
      rcases update_cases (· = true) hm with ⟨rfl, -⟩ | ⟨-, hm⟩
      · have hlinked := hserving.shared.linked
        exact ⟨(List.nodup_cons.1 hlinked.nodup).1, hlinked.tail_free rfl⟩
      · exact (havail m hm).imp_left List.not_mem_of_not_mem_cons

theorem Inv.dequeue (hidle : s.consumer = none) :
    Inv { s with consumer := some (.loadNext s.queue.tail) } calls chain := by
  have hserving := h.serving
  rw [hidle] at hserving
  exact ⟨hserving.dequeue, h.order, h.available⟩

theorem State.step_inv (hs : s.step a = some s') : ∃ calls' chain', Inv s' calls' chain' := by
  cases a with
  | enqueue i n =>
    obtain ⟨hfree, rfl⟩ := of_enabled hs
    exact ⟨_, chain, h.enqueue hfree.1 hfree.2⟩
  | producer i =>
    obtain ⟨⟨n, pc⟩, hi, rfl⟩ := map_eq_some_iff.1 hs
    exact ⟨_, _, h.producerStep hi⟩
  | dequeue =>
    obtain ⟨hidle, rfl⟩ := of_enabled hs
    exact ⟨calls, chain, h.dequeue hidle⟩
  | consumer =>
    obtain ⟨pc, hc, rfl⟩ := map_eq_some_iff.1 hs
    exact h.consumerStep hc

end

theorem reachable_inv (h : (lfq ν).Reachable ok s) : ∃ calls chain, Inv s calls chain := by
  refine h.invariant (P := fun s => ∃ calls chain, Inv s calls chain) ?_ ?_
  · rintro s ⟨memory, rfl⟩
    exact ⟨_, _, csilkLfqInit_serving memory, rfl, fun n _ => ⟨by simp, rfl⟩⟩
  · rintro s a s' ⟨calls, chain, hinv⟩ - hs
    exact State.step_inv hinv hs

def State.Settled (s : State ν) : Prop := ∀ i n prev, s.producers i ≠ some (n, .link prev)

/-- The states of a dequeue from `s`, after `k` steps, while no producer comes between its two
steps. -/
inductive Dequeueing (s : State ν) : Nat → State ν → Prop
  | begin (hs : s.step .dequeue = some t) : Dequeueing s 0 t
  | consumer (h : Dequeueing s k t) (hs : t.step .consumer = some t') : Dequeueing s (k + 1) t'
  | enqueue (h : Dequeueing s k t) (hs : t.step (.enqueue i n) = some t') (hset : t'.Settled) :
    Dequeueing s k t'
  | producer (h : Dequeueing s k t) (hs : t.step (.producer i) = some t') (hset : t'.Settled) :
    Dequeueing s k t'

omit [DecidableEq ν] in
theorem DeqPc.rank_pos (pc : DeqPc ν) : 0 < pc.rank := by
  cases pc with
  | reinsert tail e => cases e <;> exact Nat.succ_pos _
  | _ => exact Nat.succ_pos _

def Expecting (s : State ν) (k : Nat) (t : State ν) : Prop :=
  (∃ pc calls chain, t.consumer = some pc ∧ Inv t calls chain ∧ t.Settled ∧ pc.Near t.queue chain ∧
      k + pc.rank ≤ 7 ∧ t.results = s.results) ∨
    (t.consumer = none ∧ k ≤ 7 ∧ ∃ n, t.results = s.results ++ [some (.item n)])

theorem Expecting.consumer (h : Expecting s k t) (hs : t.step .consumer = some t') :
    Expecting s (k + 1) t' := by
  obtain ⟨pc, hpc, rfl⟩ := map_eq_some_iff.1 hs
  rcases h with ⟨pc', calls, chain, hc, hinv, hset, hnear, hk, hres⟩ | ⟨hc, -⟩
  · obtain rfl : pc' = pc := Option.some.inj (hc.symm.trans hpc)
    have hpos := pc'.rank_pos
    have hserving := hinv.serving
    rw [hc] at hserving
    obtain ⟨calls', chain', hinv'⟩ := hinv.consumerStep hc
    have hout := hserving.shared.dequeue
    have hquiet : ∀ n a, calls (.item n) ≠ some (.link a) := fun n a hn => by
      obtain ⟨i, hi⟩ := hserving.caller hn
      exact hset i n a hi
    rw [State.consumerStep] at hinv' ⊢
    generalize csilkLfqDequeue t.queue pc' = r at hout hinv'
    cases hout with
    | running _ _ _ hgoes =>
      obtain ⟨hnear', hrank⟩ := hgoes ⟨hquiet, hnear⟩
      exact .inl ⟨_, calls', chain', rfl, hinv', hset, hnear' chain', by omega, hres⟩
    | empty _ hfar => exact absurd ⟨hquiet, hnear⟩ hfar
    | item _ _ => exact .inr ⟨rfl, by omega, _, congrArg (· ++ _) hres⟩
  · rw [hc] at hpc
    cases hpc

theorem Expecting.enqueue (h : Expecting s k t) (hs : t.step (.enqueue i n) = some t')
    (hset' : t'.Settled) : Expecting s k t' := by
  obtain ⟨hfree, rfl⟩ := of_enabled hs
  rcases h with ⟨pc, calls, chain, hc, hinv, -, hnear, hk, hres⟩ | h
  · exact .inl ⟨pc, _, chain, hc, hinv.enqueue hfree.1 hfree.2, hset', hnear, hk, hres⟩
  · exact .inr h

theorem Expecting.producer (h : Expecting s k t) (hs : t.step (.producer i) = some t')
    (hset' : t'.Settled) : Expecting s k t' := by
  obtain ⟨⟨n, e⟩, hi, rfl⟩ := map_eq_some_iff.1 hs
  rcases h with ⟨pc, calls, chain, hc, hinv, hset, hnear, hk, hres⟩ | h
  · cases e with
    | store =>
      have hn : .item n ∉ chain := hinv.serving.shared.linked.ok _ .store (hinv.serving.call hi)
      refine .inl ⟨pc, _, chain, hc, hinv.producerStep hi, hset', ?_, hk, hres⟩
      cases pc with
      | reload tail =>
        have htail : tail ∈ chain := by
          rw [(hinv.serving.shared.consumer _ hc).1]
          exact List.mem_of_head? hinv.serving.shared.linked.first
        have hsame : update t.queue.next (.item n) none tail = t.queue.next tail :=
          update_of_ne (ne_of_mem_of_not_mem htail hn) _ _
        intro hnone
        exact hnear (hsame.symm.trans hnone)
      | reinsert tail e => cases e <;> exact hnear
      | _ => exact hnear
    | exchange => exact absurd (update_self i _ _) (hset' i n t.queue.head)
    | link prev => exact absurd hi (hset i n prev)
  · exact .inr h

theorem Dequeueing.expecting (h : Dequeueing s k t) (hinv : Inv s calls chain) (hset : s.Settled)
    (hne : s.returned.length < s.exchanged.length) : Expecting s k t := by
  induction h with
  | begin hs =>
    obtain ⟨hidle, rfl⟩ := of_enabled hs
    obtain ⟨n, hn⟩ : ∃ n, Node.item n ∈ chain := by
      have hlen := congrArg List.length hinv.order
      rw [List.length_map, List.length_append] at hlen
      obtain ⟨x, hx⟩ := List.exists_mem_of_length_pos (l := chain.filter (· ≠ .stub)) (by omega)
      obtain ⟨hmem, hstub⟩ := List.mem_filter.1 hx
      cases x with
      | stub => simp at hstub
      | item n => exact ⟨n, hmem⟩
    exact .inl ⟨_, calls, chain, rfl, hinv.dequeue hidle, hset, ⟨n, hn⟩, Nat.le_refl _, rfl⟩
  | consumer _ hs ih => exact ih.consumer hs
  | enqueue _ hs hset' ih => exact ih.enqueue hs hset'
  | producer _ hs hset' ih => exact ih.producer hs hset'

/-- Nodes come out in the order of the exchanges; an undisturbed dequeue from a nonempty queue
returns one within seven steps. -/
theorem csilkLfq_fifo (h : (lfq ν).Reachable (fun _ _ => True) s) :
    s.returned <+: s.exchanged.map .item ∧ (∀ n, s.returned.count (.item n) ≤ s.exchanged.count n) ∧
      (s.Settled → s.returned.length < s.exchanged.length → ∀ k t, Dequeueing s k t →
        (t.consumer = none ∧ ∃ n, t.results = s.results ++ [some (.item n)]) ∨
          k < 7 ∧ (t.step .consumer).isSome) := by
  obtain ⟨calls, chain, hinv⟩ := reachable_inv h
  have hreturned : s.returned <+: s.exchanged.map .item := ⟨_, hinv.order.symm⟩
  refine ⟨hreturned, fun n => ?_, fun hset hne k t hd => ?_⟩
  · have hcount : (s.exchanged.map Node.item).count (.item n) = s.exchanged.count n :=
      List.count_map_of_injective _ _ (fun _ _ he => Node.item.inj he) n
    rw [← hcount]
    exact hreturned.sublist.count_le _
  · rcases hd.expecting hinv hset hne with ⟨pc, _, _, hc, -, -, -, hk, -⟩ | ⟨hc, -, hres⟩
    · refine .inr ⟨?_, by rw [State.step, hc]; rfl⟩
      have hpos := pc.rank_pos
      omega
    · exact .inl ⟨hc, hres⟩

def twoProducers : List (Act Nat) :=
  [.enqueue 0 5, .enqueue 1 7, .producer 0, .producer 0, .producer 1, .producer 1, .producer 1,
    .producer 0]

theorem csilkLfq_fifo_two :
    ∃ s t, (lfq Nat).Reachable (fun _ _ => True) s ∧ s.exchanged = [5, 7] ∧ s.returned = [] ∧
      Dequeueing s 2 t ∧ t.consumer = none ∧ ∃ n, t.results = s.results ++ [some (.item n)] := by
  obtain ⟨s, hexec, hs⟩ : ∃ s, (lfq Nat).exec (fun _ _ => True) (.init fun _ => none) twoProducers =
      some s ∧ s.exchanged = [5, 7] ∧ s.returned = [] ∧ s.consumer = none ∧ s.Settled ∧
        ∃ t₁ t₂ t, s.step .dequeue = some t₁ ∧ t₁.step .consumer = some t₂ ∧
          t₂.step .consumer = some t ∧ t.step .consumer = none := by
    refine ⟨_, rfl, rfl, rfl, rfl, ?_, _, _, _, rfl, rfl, rfl, rfl⟩
    intro i n prev
    simp +contextual [State.producerStep, State.init, csilkLfqEnqueue, update]
  obtain ⟨hex, hret, -, hset, t₁, t₂, t, h₁, h₂, h₃, hend⟩ := hs
  have hinit : (lfq Nat).Reachable (fun _ _ => True) (.init fun _ => none) := .init ⟨_, rfl⟩
  have hreach := hinit.exec hexec
  have hd : Dequeueing s 2 t := .consumer (.consumer (.begin h₁) h₂) h₃
  obtain ⟨hc, n, hn⟩ := ((csilkLfq_fifo hreach).2.2 hset (by rw [hex, hret]; decide) 2 t hd).resolve_right
    (by rw [hend]; simp)
  exact ⟨s, t, hreach, hex, hret, hd, hc, n, hn⟩

end Csilk.Queue
