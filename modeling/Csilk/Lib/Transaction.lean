import Mathlib.Data.List.Basic

namespace Csilk.Lib

/-- The writes of an open transaction and its savepoints, the innermost first, each with the writes
before it. -/
structure Tx (ν ω : Type) where
  pending : List ω
  savepoints : List (ν × List ω)

structure Conn (ν σ ω : Type) where
  store : σ
  tx : Option (Tx ν ω)

inductive TxCommand (ν : Type)
  | begin
  | commit
  | rollback
  | savepoint (name : ν)
  | release (name : ν)
  | rollbackTo (name : ν)
  deriving DecidableEq, Repr

section
variable [BEq ν] (apply : σ → ω → σ)

/-- The savepoints from the innermost one of the name on. -/
def Tx.since (t : Tx ν ω) (name : ν) : List (ν × List ω) :=
  t.savepoints.dropWhile fun p => !(p.1 == name)

/-- A command with its SQL meaning, or nothing when it is an error. -/
def Conn.exec (c : Conn ν σ ω) : TxCommand ν → Option (Conn ν σ ω)
  | .begin =>
    match c.tx with
    | none => some { c with tx := some ⟨[], []⟩ }
    | some _ => none
  | .commit => c.tx.map fun t => ⟨t.pending.foldl apply c.store, none⟩
  | .rollback => c.tx.map fun _ => { c with tx := none }
  | .savepoint name =>
    c.tx.map fun t => { c with tx := some { t with savepoints := (name, t.pending) :: t.savepoints } }
  | .release name =>
    c.tx.bind fun t =>
      match t.since name with
      | [] => none
      | _ :: outer => some { c with tx := some { t with savepoints := outer } }
  | .rollbackTo name =>
    c.tx.bind fun t =>
      match t.since name with
      | [] => none
      | p :: outer => some { c with tx := some ⟨p.2, p :: outer⟩ }

/-- A write goes to the open transaction, or to the store when there is none. -/
def Conn.write (c : Conn ν σ ω) (w : ω) : Conn ν σ ω :=
  match c.tx with
  | none => { c with store := apply c.store w }
  | some t => { c with tx := some { t with pending := t.pending ++ [w] } }

variable [ReflBEq ν]

theorem Tx.since_innermost (t : Tx ν ω) (h : t.savepoints = (name, saved) :: outer) :
    t.since name = (name, saved) :: outer := by
  rw [Tx.since, h, List.dropWhile_cons_of_neg]
  rw [BEq.rfl]
  exact Bool.false_ne_true

theorem Conn.release_innermost (s : σ) (pending saved : List ω) (name : ν)
    (outer : List (ν × List ω)) :
    Conn.exec apply ⟨s, some ⟨pending, (name, saved) :: outer⟩⟩ (.release name) =
      some ⟨s, some ⟨pending, outer⟩⟩ := by
  rw [Conn.exec, Option.bind_some, Tx.since_innermost _ rfl]

theorem Conn.rollbackTo_innermost (s : σ) (pending saved : List ω) (name : ν)
    (outer : List (ν × List ω)) :
    Conn.exec apply ⟨s, some ⟨pending, (name, saved) :: outer⟩⟩ (.rollbackTo name) =
      some ⟨s, some ⟨saved, (name, saved) :: outer⟩⟩ := by
  rw [Conn.exec, Option.bind_some, Tx.since_innermost _ rfl]

end

end Csilk.Lib
