import Csilk.Bytes
import Mathlib.Data.List.Sigma

namespace Csilk.Workflow
open List Option

/-- Its strings may be NULL. The tokens are those of its `csilk_ai_meta_t`. -/
structure Data where
  type : Option Bytes
  value : Option Bytes
  tokens : Int
  deriving DecidableEq, Repr

inductive JoinPolicy
  | and
  | or
  deriving DecidableEq, Repr

/-- `isLoop` marks the edges of `csilk_wf_on_loop` for statements; no function reads it. -/
structure Edge where
  condition : Option Bytes
  target : Nat
  isLoop : Bool

def Edge.fires (e : Edge) (output : Option Data) : Bool :=
  match e.condition with
  | none => true
  | some c => output.bind Data.type = some c

/-- Nodes are named by their index; of the schema its verdict on an output is kept. -/
structure Node where
  id : Bytes
  edges : List Edge
  incomingCount : Nat
  isEntry : Bool
  errorTarget : Option Nat
  routerFn : Option (Option Data → Option Bytes)
  joinPolicy : JoinPolicy
  timeoutMs : Int
  isInteractive : Bool
  outputSchema : Option (Bytes → Bool)
  maxRetries : Int
  retryDelayMs : Int

structure Wf where
  nodes : List Node
  walDir : Bool
  maxTokens : Int
  ttlSec : Int

def csilkWfNew : Wf := ⟨[], false, 0, 0⟩

def csilkWfAdd (wf : Wf) (id : Bytes) : Wf :=
  { wf with nodes := wf.nodes ++ [⟨id, [], 0, false, none, none, .and, 0, false, none, 0, 0⟩] }

def setNode (wf : Wf) (n : Nat) (set : Node → Node) : Wf :=
  { wf with nodes := wf.nodes.modify n set }

def Node.leave (e : Edge) (node : Node) : Node := { node with edges := node.edges ++ [e] }

def Node.enter (node : Node) : Node := { node with incomingCount := node.incomingCount + 1 }

/-- `add_edge` counts every edge at its target, whoever made it. -/
def addEdge (wf : Wf) (src : Nat) (e : Edge) : Wf :=
  if src < wf.nodes.length ∧ e.target < wf.nodes.length then
    setNode (setNode wf src (Node.leave e)) e.target Node.enter
  else wf

def csilkWfBind (wf : Wf) (src dst : Nat) : Wf := addEdge wf src ⟨none, dst, false⟩

def csilkWfOn (wf : Wf) (src : Nat) (condition : Option Bytes) (dst : Nat) : Wf :=
  addEdge wf src ⟨condition, dst, false⟩

def csilkWfOnLoop (wf : Wf) (src : Nat) (condition : Option Bytes) (dst : Nat) : Wf :=
  addEdge wf src ⟨condition, dst, true⟩

def csilkWfOnError (wf : Wf) (src : Nat) (target : Option Nat) : Wf :=
  if ∀ t ∈ target, t < wf.nodes.length then
    setNode wf src fun node => { node with errorTarget := target }
  else wf

def csilkWfRoute (wf : Wf) (n : Nat) (router : Option (Option Data → Option Bytes)) :
    Wf :=
  setNode wf n fun node => { node with routerFn := router }

def csilkWfNodeSetEntry (wf : Wf) (n : Nat) (isEntry : Bool) : Wf :=
  setNode wf n fun node => { node with isEntry := isEntry }

def csilkWfNodeSetJoin (wf : Wf) (n : Nat) (policy : JoinPolicy) : Wf :=
  setNode wf n fun node => { node with joinPolicy := policy }

def csilkWfNodeSetTimeout (wf : Wf) (n : Nat) (ms : Int) : Wf :=
  setNode wf n fun node => { node with timeoutMs := ms }

def csilkWfNodeSetInteractive (wf : Wf) (n : Nat) (isInteractive : Bool) : Wf :=
  setNode wf n fun node => { node with isInteractive := isInteractive }

def csilkWfNodeSetSchema (wf : Wf) (n : Nat) (schema : Option (Bytes → Bool)) : Wf :=
  setNode wf n fun node => { node with outputSchema := schema }

def csilkWfNodeSetRetry (wf : Wf) (n : Nat) (maxRetries delayMs : Int) : Wf :=
  setNode wf n fun node => { node with maxRetries := maxRetries, retryDelayMs := delayMs }

inductive Call
  | add (id : Bytes)
  | bind (src dst : Nat)
  | on (src : Nat) (condition : Option Bytes) (dst : Nat)
  | onLoop (src : Nat) (condition : Option Bytes) (dst : Nat)
  | onError (src : Nat) (target : Option Nat)
  | route (n : Nat) (router : Option (Option Data → Option Bytes))
  | setEntry (n : Nat) (isEntry : Bool)
  | setJoin (n : Nat) (policy : JoinPolicy)
  | setTimeout (n : Nat) (ms : Int)
  | setInteractive (n : Nat) (isInteractive : Bool)
  | setSchema (n : Nat) (schema : Option (Bytes → Bool))
  | setRetry (n : Nat) (maxRetries delayMs : Int)
  | setPersistence
  | setBudget (maxTokens : Int)
  | setTtl (ttlSec : Int)

def configure (wf : Wf) : Call → Wf
  | .add id => csilkWfAdd wf id
  | .bind src dst => csilkWfBind wf src dst
  | .on src condition dst => csilkWfOn wf src condition dst
  | .onLoop src condition dst => csilkWfOnLoop wf src condition dst
  | .onError src target => csilkWfOnError wf src target
  | .route n router => csilkWfRoute wf n router
  | .setEntry n isEntry => csilkWfNodeSetEntry wf n isEntry
  | .setJoin n policy => csilkWfNodeSetJoin wf n policy
  | .setTimeout n ms => csilkWfNodeSetTimeout wf n ms
  | .setInteractive n isInteractive => csilkWfNodeSetInteractive wf n isInteractive
  | .setSchema n schema => csilkWfNodeSetSchema wf n schema
  | .setRetry n maxRetries delayMs => csilkWfNodeSetRetry wf n maxRetries delayMs
  | .setPersistence => { wf with walDir := true }
  | .setBudget maxTokens => { wf with maxTokens := maxTokens }
  | .setTtl ttlSec => { wf with ttlSec := ttlSec }

def build (calls : List Call) : Wf := calls.foldl configure csilkWfNew

def csilkWfGetNode (wf : Wf) (id : Bytes) : Option Nat :=
  wf.nodes.findIdx? fun node => node.id = id

/-- The edges that lead to `t`, as the places `(n, k)`, `(n, k + 1)`, … -/
def arrivals (t n : Nat) (k : Nat) : List Edge → List (Nat × Nat)
  | [] => []
  | e :: es => if e.target = t then (n, k) :: arrivals t n (k + 1) es else arrivals t n (k + 1) es

def arrivalsFrom (t : Nat) (n : Nat) : List Node → List (Nat × Nat)
  | [] => []
  | node :: nodes => arrivals t n 0 node.edges ++ arrivalsFrom t (n + 1) nodes

def incoming (wf : Wf) (t : Nat) : List (Nat × Nat) := arrivalsFrom t 0 wf.nodes

def Wf.edge? (wf : Wf) (x : Nat × Nat) : Option Edge :=
  wf.nodes[x.1]?.bind fun node => node.edges[x.2]?

theorem arrivals_eq : arrivals t n k es =
    ((es.zipIdx k).filter fun p => p.1.target = t).map fun p => (n, p.2) := by
  induction es generalizing k with
  | nil => rfl
  | cons e es ih =>
    rw [arrivals, ih]
    by_cases ht : e.target = t
    · simp [ht]
    · simp [ht]

theorem arrivalsFrom_eq : arrivalsFrom t n nodes =
    (nodes.zipIdx n).flatMap fun p => arrivals t p.2 0 p.1.edges := by
  induction nodes generalizing n with
  | nil => rfl
  | cons node nodes ih => rw [arrivalsFrom, zipIdx_cons, flatMap_cons, ih]

theorem mem_incoming : x ∈ incoming wf t ↔ ∃ e, wf.edge? x = some e ∧ e.target = t := by
  simp only [incoming, arrivalsFrom_eq, arrivals_eq, mem_flatMap, List.mem_map, mem_filter,
    mem_zipIdx_iff_getElem?, decide_eq_true_eq]
  constructor
  · rintro ⟨p, hnode, q, ⟨he, ht⟩, rfl⟩
    exact ⟨q.1, bind_eq_some_iff.2 ⟨p.1, hnode, he⟩, ht⟩
  · rintro ⟨e, he, ht⟩
    obtain ⟨node, hnode, he⟩ := bind_eq_some_iff.1 he
    exact ⟨(node, x.1), hnode, (e, x.2), ⟨he, ht⟩, rfl⟩

theorem nodup_incoming (wf : Wf) (t : Nat) : (incoming wf t).Nodup := by
  have hplaces {α : Type} (l : List α) : l.zipIdx.Pairwise fun p q => p.2 ≠ q.2 :=
    pairwise_map.1 (nodup_zipIdx_map_snd l)
  rw [incoming, arrivalsFrom_eq]
  apply nodup_flatMap.2
  simp only [arrivals_eq]
  constructor
  · intro p _
    apply pairwise_map.2 (((hplaces _).filter _).imp _)
    exact fun hne heq => hne (Prod.mk.inj heq).2
  · apply (hplaces _).imp
    intro p q hne x hp hq
    obtain ⟨_, _, rfl⟩ := List.mem_map.1 hp
    obtain ⟨_, _, heq⟩ := List.mem_map.1 hq
    exact hne (congrArg Prod.fst heq).symm

theorem length_arrivals : (arrivals t n k es).length = es.countP fun e => e.target = t := by
  induction es generalizing k with
  | nil => rfl
  | cons e es ih =>
    rw [arrivals, countP_cons, ← ih (k := k + 1)]
    by_cases ht : e.target = t
    · simp [ht]
    · simp [ht]

theorem length_incoming : (incoming wf t).length =
    (wf.nodes.flatMap Node.edges).countP fun e => e.target = t := by
  rw [incoming]
  generalize 0 = n
  induction wf.nodes generalizing n with
  | nil => rfl
  | cons node nodes ih =>
    rw [arrivalsFrom, length_append, length_arrivals, ih, flatMap_cons, countP_append]

/-- A node counts the edges into it, links stay inside. -/
structure WellFormed (wf : Wf) : Prop where
  counted : ∀ (t : Nat) (node : Node), wf.nodes[t]? = some node →
    node.incomingCount = (wf.nodes.flatMap Node.edges).countP fun e => e.target = t
  edges : ∀ e ∈ wf.nodes.flatMap Node.edges, e.target < wf.nodes.length
  errors : ∀ t, some t ∈ wf.nodes.map Node.errorTarget → t < wf.nodes.length

theorem map_modify {f : α → α} {g : α → β} (hf : ∀ x, g (f x) = g x) (l : List α) (i : Nat) :
    (l.modify i f).map g = l.map g := by
  induction l generalizing i with
  | nil => rw [modify_nil]
  | cons x l ih =>
    cases i with
    | zero => rw [modify_zero_cons, map_cons, map_cons, hf]
    | succ i => rw [modify_succ_cons, map_cons, map_cons, ih]

theorem flatMap_leave {nodes : List Node} (hi : i < nodes.length) :
    (nodes.modify i (Node.leave e)).flatMap Node.edges ~ e :: nodes.flatMap Node.edges := by
  induction nodes generalizing i with
  | nil => cases hi
  | cons node nodes ih =>
    cases i with
    | zero =>
      rw [modify_zero_cons, flatMap_cons, Node.leave, append_assoc]
      exact perm_middle
    | succ i =>
      exact ((ih (Nat.lt_of_succ_lt_succ hi)).append_left _).trans perm_middle

section

variable (h : WellFormed wf)
include h

theorem WellFormed.setNode {set : Node → Node}
    (hedges : ∀ node, (set node).edges = node.edges)
    (hcount : ∀ node, (set node).incomingCount = node.incomingCount)
    (herror : ∀ node, ∀ t ∈ (set node).errorTarget, t ∈ node.errorTarget ∨ t < wf.nodes.length) :
    WellFormed (setNode wf i set) := by
  have hlen : (Workflow.setNode wf i set).nodes.length = wf.nodes.length := length_modify ..
  have hflat : (Workflow.setNode wf i set).nodes.flatMap Node.edges = wf.nodes.flatMap Node.edges :=
    congrArg flatten (map_modify hedges wf.nodes i)
  constructor
  · intro t node hnode
    rw [hflat]
    rw [Workflow.setNode, getElem?_modify] at hnode
    obtain ⟨old, hold, rfl⟩ := map_eq_some_iff.1 hnode
    split
    · rw [hcount]
      exact h.counted t old hold
    · exact h.counted t old hold
  · rw [hflat, hlen]
    exact h.edges
  · intro t ht
    rw [hlen]
    obtain ⟨node, hnode, heq⟩ := List.mem_map.1 ht
    obtain ⟨j, hj⟩ := mem_iff_getElem?.1 hnode
    rw [Workflow.setNode, getElem?_modify] at hj
    obtain ⟨old, hold, rfl⟩ := map_eq_some_iff.1 hj
    have hkeep (hold' : old.errorTarget = some t) : t < wf.nodes.length :=
      h.errors t (hold' ▸ mem_map_of_mem (mem_of_getElem? hold))
    split at heq
    · exact (herror old t heq).elim hkeep id
    · exact hkeep heq

theorem WellFormed.inside (he : wf.edge? x = some e) :
    e.target < wf.nodes.length := by
  obtain ⟨node, hnode, he⟩ := bind_eq_some_iff.1 he
  exact h.edges e (mem_flatMap.2 ⟨node, mem_of_getElem? hnode, mem_of_getElem? he⟩)

theorem WellFormed.add (id : Bytes) : WellFormed (csilkWfAdd wf id) := by
  have hlen : (csilkWfAdd wf id).nodes.length = wf.nodes.length + 1 := length_append
  have hflat : (csilkWfAdd wf id).nodes.flatMap Node.edges = wf.nodes.flatMap Node.edges :=
    flatMap_append.trans (append_nil _)
  constructor
  · intro t node hnode
    rw [hflat]
    rcases Nat.lt_trichotomy t wf.nodes.length with hlt | rfl | hgt
    · exact h.counted t node ((getElem?_append_left hlt).symm.trans hnode)
    · cases getElem?_concat_length.symm.trans hnode
      symm
      apply countP_eq_zero.2
      intro e he
      simpa using (h.edges e he).ne
    · have hin := (List.getElem?_eq_some_iff.1 hnode).1
      omega
  · rw [hflat, hlen]
    exact fun e he => Nat.lt_succ_of_lt (h.edges e he)
  · intro t ht
    rw [hlen]
    rw [csilkWfAdd, map_append, mem_append] at ht
    rcases ht with ht | ht
    · exact Nat.lt_succ_of_lt (h.errors t ht)
    · cases mem_singleton.1 ht

theorem WellFormed.addEdge (src : Nat) (e : Edge) :
    WellFormed (addEdge wf src e) := by
  rw [Workflow.addEdge]
  split
  case isFalse => exact h
  case isTrue hin =>
    have hlen : (Workflow.setNode (Workflow.setNode wf src (Node.leave e)) e.target
        Node.enter).nodes.length = wf.nodes.length :=
      (length_modify ..).trans (length_modify ..)
    have hflat : (Workflow.setNode (Workflow.setNode wf src (Node.leave e)) e.target
        Node.enter).nodes.flatMap Node.edges ~ e :: wf.nodes.flatMap Node.edges := by
      rw [flatMap_def, Workflow.setNode, map_modify (f := Node.enter) fun _ => rfl]
      exact flatMap_leave hin.1
    constructor
    · intro t node hnode
      rw [hflat.countP_eq, countP_cons]
      rw [Workflow.setNode, Workflow.setNode, getElem?_modify, getElem?_modify] at hnode
      obtain ⟨mid, hmid, rfl⟩ := map_eq_some_iff.1 hnode
      obtain ⟨old, hold, rfl⟩ := map_eq_some_iff.1 hmid
      rw [← h.counted t old hold]
      by_cases ht : e.target = t <;> by_cases hs : src = t <;> simp [ht, hs, Node.enter, Node.leave]
    · intro e' he'
      rw [hlen]
      rcases mem_cons.1 (hflat.mem_iff.1 he') with rfl | he'
      · exact hin.2
      · exact h.edges e' he'
    · rw [hlen, Workflow.setNode, map_modify (f := Node.enter) fun _ => rfl, Workflow.setNode,
        map_modify (f := Node.leave e) fun _ => rfl]
      exact h.errors

theorem WellFormed.configure (call : Call) : WellFormed (configure wf call) := by
  cases call with
  | add id => exact h.add id
  | bind src dst | on src condition dst | onLoop src condition dst => exact h.addEdge src _
  | onError src target =>
    rw [Workflow.configure, csilkWfOnError]
    split
    case isTrue hin => exact h.setNode (fun _ => rfl) (fun _ => rfl) (fun _ t ht => .inr (hin t ht))
    case isFalse => exact h
  | route | setEntry | setJoin | setTimeout | setInteractive | setSchema | setRetry =>
    exact h.setNode (fun _ => rfl) (fun _ => rfl) (fun _ _ ht => .inl ht)
  | setPersistence | setBudget | setTtl => exact { h with }

end

theorem build_wellFormed (calls : List Call) : WellFormed (build calls) := by
  have hnew : WellFormed csilkWfNew := by
    constructor
    · rintro _ _ ⟨⟩
    · rintro _ ⟨⟩
    · rintro _ ⟨⟩
  unfold build
  generalize csilkWfNew = wf at hnew
  induction calls generalizing wf with
  | nil => exact hnew
  | cons call calls ih => exact ih _ (hnew.configure call)

end Csilk.Workflow
