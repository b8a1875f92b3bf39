import Csilk.Bytes
import Mathlib.Algebra.Group.Nat.Defs
import Mathlib.Order.Lattice

namespace Csilk.Vector
open List

structure Node (V : Type) where
  id : Nat
  docId : Bytes
  vector : V
  neighbors : List Nat

structure Index (V D : Type) where
  dist : V → V → D
  M : Nat
  nodes : List (Node V)

variable {V D : Type}

def csilkHnswIndexNew (dist : V → V → D) : Index V D := ⟨dist, 16, []⟩

/-- The new node and the one before it become neighbours when that one has room. -/
def csilkHnswInsert (index : Index V D) (entry : Bytes × V) : Index V D :=
  let id := index.nodes.length % 2 ^ 32
  match index.nodes.getLast? with
  | none => { index with nodes := [⟨id, entry.1, entry.2, []⟩] }
  | some prev =>
    if prev.neighbors.length < index.M then
      { index with nodes := index.nodes.dropLast ++
          [{ prev with neighbors := prev.neighbors ++ [id] }, ⟨id, entry.1, entry.2, [prev.id]⟩] }
    else { index with nodes := index.nodes ++ [⟨id, entry.1, entry.2, []⟩] }

def csilkHnswSearch (index : Index V D) (query : V) (topK : Nat) : Option (List (Bytes × D)) :=
  if topK = 0 then none
  else
    let k := if topK > index.nodes.length then index.nodes.length else topK
    some ((index.nodes.take k).map fun n => (n.docId, index.dist query n.vector))

/-- As many results as there can be, and no entry left out is closer to the query. -/
def Nearest [LT D] (dist : V → V → D) (entries : List (Bytes × V)) (query : V) (topK : Nat)
    (results : List (Bytes × D)) : Prop :=
  ∃ chosen rest : List (Bytes × V), (chosen ++ rest).Perm entries ∧
    chosen.length = min topK entries.length ∧
    results = chosen.map (fun e => (e.1, dist query e.2)) ∧
    ∀ e ∈ chosen, ∀ e' ∈ rest, ¬ dist query e'.2 < dist query e.2

theorem csilkHnswInsert_nodes (index : Index V D) (entry : Bytes × V) :
    (csilkHnswInsert index entry).nodes.map (fun n => (n.docId, n.vector)) =
      index.nodes.map (fun n => (n.docId, n.vector)) ++ [entry] ∧
    (csilkHnswInsert index entry).dist = index.dist := by
  rw [csilkHnswInsert]
  cases hlast : index.nodes.getLast? with
  | none =>
    rw [getLast?_eq_none_iff.1 hlast]
    exact ⟨rfl, rfl⟩
  | some prev =>
    obtain ⟨front, hfront⟩ := getLast?_eq_some_iff.1 hlast
    dsimp only
    rw [hfront]
    split
    · simp
    · simp

theorem foldl_csilkHnswInsert (index : Index V D) (entries : List (Bytes × V)) :
    (entries.foldl csilkHnswInsert index).nodes.map (fun n => (n.docId, n.vector)) =
      index.nodes.map (fun n => (n.docId, n.vector)) ++ entries ∧
    (entries.foldl csilkHnswInsert index).dist = index.dist := by
  induction entries generalizing index with
  | nil => exact ⟨(append_nil _).symm, rfl⟩
  | cons entry entries ih =>
    obtain ⟨hnodes, hdist⟩ := csilkHnswInsert_nodes index entry
    obtain ⟨hall, hsame⟩ := ih (csilkHnswInsert index entry)
    rw [hnodes, append_assoc] at hall
    exact ⟨hall, hsame.trans hdist⟩

theorem csilkHnswSearch_eq (dist : V → V → D) (entries : List (Bytes × V)) (query : V)
    (hk : 1 ≤ topK) :
    csilkHnswSearch (entries.foldl csilkHnswInsert (csilkHnswIndexNew dist)) query topK =
      some ((entries.take topK).map fun e => (e.1, dist query e.2)) := by
  obtain ⟨hnodes, hdist⟩ := foldl_csilkHnswInsert (csilkHnswIndexNew dist) entries
  generalize entries.foldl csilkHnswInsert (csilkHnswIndexNew dist) = index at hnodes hdist
  have hentries : entries = index.nodes.map fun n => (n.docId, n.vector) := hnodes.symm
  rw [csilkHnswSearch, if_neg (by omega), hdist, hentries, ← map_take, map_map]
  dsimp only
  split
  · rw [take_length, take_of_length_le (by omega)]
    rfl
  · rfl

def absDist (x y : Nat) : Nat := (x - y) + (y - x)

end Csilk.Vector
