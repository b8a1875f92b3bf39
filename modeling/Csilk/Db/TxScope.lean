import Csilk.Bytes
import Csilk.Lib.Transaction
import Mathlib.Algebra.Group.Nat.Defs

namespace Csilk.Db
open Csilk.Lib
open List hiding after

structure TxScope where
  name : Bytes
  isSavepoint : Bool
  active : Bool

def printed (size : Nat) (text : Bytes) : Bytes := text.take (size - 1)

def savepointName (name : Bytes) (seq : Nat) : Bytes :=
  printed 64 (name ++ ascii "_" ++ ascii (toString (seq % 2 ^ 64)))

def isIdentStart (b : UInt8) : Bool :=
  (65 ≤ b && b ≤ 90) || (97 ≤ b && b ≤ 122) || b = 95

def isIdentByte (b : UInt8) : Bool := isIdentStart b || (48 ≤ b && b ≤ 57)

def isIdent : Bytes → Bool
  | [] => false
  | b :: bs => isIdentStart b && bs.all isIdentByte

def named (keywords : String) (sql : Bytes) : Option Bytes :=
  (sql.dropPrefix? (ascii keywords)).bind fun rest =>
    if isIdent rest.dropLast ∧ rest.getLast? = some 59 then some rest.dropLast else none

def parseTx (sql : Bytes) : Option (TxCommand Bytes) :=
  if sql = ascii "BEGIN TRANSACTION;" then some .begin
  else if sql = ascii "COMMIT;" then some .commit
  else if sql = ascii "ROLLBACK;" then some .rollback
  else ((named "SAVEPOINT " sql).map .savepoint).or
    (((named "RELEASE SAVEPOINT " sql).map .release).or
      ((named "ROLLBACK TO SAVEPOINT " sql).map .rollbackTo))

section
variable (apply : σ → ω → σ)

/-- A statement about transactions; a failed one changes nothing. -/
def csilkDbExec (pool : Conn Bytes σ ω) (sql : Bytes) : Int × Conn Bytes σ ω :=
  match (parseTx sql).bind (pool.exec apply) with
  | none => (-1, pool)
  | some pool => (0, pool)

def csilkDbInTransaction (pool : Conn Bytes σ ω) : Int := if pool.tx.isSome then 1 else 0

/-- `seq` is what the call takes from `g_csilk_sp_seq`. -/
def csilkDbTxScopeBegin (pool : Conn Bytes σ ω) (name : Bytes) (seq : Nat) :
    Int × Conn Bytes σ ω × TxScope :=
  if name = [] then (-1, pool, ⟨[], false, false⟩)
  else if 0 < csilkDbInTransaction pool then
    let scopeName := savepointName name seq
    match csilkDbExec apply pool (printed 128 (ascii "SAVEPOINT " ++ scopeName ++ ascii ";")) with
    | (0, pool) => (0, pool, ⟨scopeName, true, true⟩)
    | (_, pool) => (-1, pool, ⟨scopeName, true, false⟩)
  else
    match csilkDbExec apply pool (ascii "BEGIN TRANSACTION;") with
    | (0, pool) => (0, pool, ⟨printed 64 name, false, true⟩)
    | (_, pool) => (-1, pool, ⟨printed 64 name, false, false⟩)

def csilkDbTxScopeCommit (pool : Conn Bytes σ ω) (scope : TxScope) :
    Int × Conn Bytes σ ω × TxScope :=
  if !scope.active then (-1, pool, scope)
  else
    let (rc, pool) :=
      if scope.isSavepoint then
        csilkDbExec apply pool (printed 128 (ascii "RELEASE SAVEPOINT " ++ scope.name ++ ascii ";"))
      else csilkDbExec apply pool (ascii "COMMIT;")
    (rc, pool, { scope with active := false })

def csilkDbTxScopeRollback (pool : Conn Bytes σ ω) (scope : TxScope) :
    Int × Conn Bytes σ ω × TxScope :=
  if !scope.active then (-1, pool, scope)
  else if scope.isSavepoint then
    let (rc, pool) := csilkDbExec apply pool
      (printed 128 (ascii "ROLLBACK TO SAVEPOINT " ++ scope.name ++ ascii ";"))
    let (_, pool) := csilkDbExec apply pool
      (printed 128 (ascii "RELEASE SAVEPOINT " ++ scope.name ++ ascii ";"))
    (rc, pool, { scope with active := false })
  else
    let (rc, pool) := csilkDbExec apply pool (ascii "ROLLBACK;")
    (rc, pool, { scope with active := false })

def endScope (commits : Bool) (pool : Conn Bytes σ ω) (scope : TxScope) :
    Int × Conn Bytes σ ω × TxScope :=
  if commits then csilkDbTxScopeCommit apply pool scope
  else csilkDbTxScopeRollback apply pool scope

end

/-- Writes and scopes on one connection, each with its number from `g_csilk_sp_seq`. -/
inductive Program (ω : Type)
  | done
  | write (w : ω) (rest : Program ω)
  | scope (name : Bytes) (seq : Nat) (body : Program ω) (commits : Bool) (rest : Program ω)

def Program.kept : Program ω → List ω
  | .done => []
  | .write w rest => w :: rest.kept
  | .scope _ _ body commits rest => (if commits then body.kept else []) ++ rest.kept

def Program.names : Program ω → List Bytes
  | .done => []
  | .write _ rest => rest.names
  | .scope name _ body _ rest => name :: body.names ++ rest.names

def run (apply : σ → ω → σ) (pool : Conn Bytes σ ω) : Program ω → List Int × Conn Bytes σ ω
  | .done => ([], pool)
  | .write w rest => run apply (pool.write apply w) rest
  | .scope name seq body commits rest =>
    let (began, pool, scope) := csilkDbTxScopeBegin apply pool name seq
    let (inner, pool) := run apply pool body
    let (ended, pool, _) := endScope apply commits pool scope
    let (outer, pool) := run apply pool rest
    (began :: inner ++ ended :: outer, pool)

theorem printed_eq_self (h : text.length < size) : printed size text = text :=
  take_of_length_le (Nat.le_sub_one_of_lt h)

theorem isIdent_take (h : isIdent bs = true) : isIdent (bs.take (n + 1)) = true := by
  cases bs with
  | nil => cases h
  | cons b bs =>
    rw [isIdent, Bool.and_eq_true] at h
    rw [take_succ_cons, isIdent, Bool.and_eq_true]
    refine ⟨h.1, all_eq_true.2 fun x hx => ?_⟩
    exact all_eq_true.1 h.2 x (mem_of_mem_take hx)

theorem isIdent_append (h : isIdent bs = true) (hmore : more.all isIdentByte = true) :
    isIdent (bs ++ more) = true := by
  cases bs with
  | nil => cases h
  | cons b bs =>
    rw [isIdent, Bool.and_eq_true] at h
    rw [cons_append, isIdent, all_append, h.1, h.2, hmore]
    rfl

theorem isIdentByte_digit {c : Char} (h : c.isDigit = true) :
    isIdentByte (UInt8.ofNat c.toNat) = true := by
  rw [Char.isDigit, Bool.and_eq_true, decide_eq_true_iff, decide_eq_true_iff] at h
  have hall : ∀ n < 58, 48 ≤ n → isIdentByte (UInt8.ofNat n) = true := by decide
  have hlow : 48 ≤ c.toNat := UInt32.le_iff_toNat_le.1 h.1
  have hhigh : c.toNat ≤ 57 := UInt32.le_iff_toNat_le.1 h.2
  exact hall _ (Nat.lt_succ_of_le hhigh) hlow

theorem decimal_ident (n : Nat) : (ascii (toString n)).all isIdentByte = true := by
  have hdigits : (toString n).toList = Nat.toDigits 10 n := by
    rw [Nat.toString_eq_repr, Nat.repr, String.toList_ofList]
  rw [ascii, hdigits, all_map, all_eq_true]
  intro c hc
  exact isIdentByte_digit (Nat.isDigit_of_mem_toDigits (by decide) (by decide) hc)

theorem named_eq {keywords : String} (h : isIdent name = true) :
    named keywords (ascii keywords ++ name ++ ascii ";") = some name := by
  have hrest : (ascii keywords ++ name ++ ascii ";").dropPrefix? (ascii keywords) =
      some (name ++ [59]) := by
    apply dropPrefix?_eq_some_iff.2
    refine ⟨ascii keywords, ?_, BEq.rfl⟩
    rw [append_assoc]
    rfl
  rw [named, hrest, Option.bind_some, dropLast_concat, if_pos]
  exact ⟨h, getLast?_concat⟩

theorem parseTx_savepoint (h : isIdent name = true) :
    parseTx (ascii "SAVEPOINT " ++ name ++ ascii ";") = some (.savepoint name) := by
  rw [parseTx, if_neg, if_neg, if_neg, named_eq h]
  · rfl
  · rintro ⟨⟩
  · rintro ⟨⟩
  · rintro ⟨⟩

theorem parseTx_release (h : isIdent name = true) :
    parseTx (ascii "RELEASE SAVEPOINT " ++ name ++ ascii ";") = some (.release name) := by
  have hother : named "SAVEPOINT " (ascii "RELEASE SAVEPOINT " ++ name ++ ascii ";") = none := rfl
  rw [parseTx, if_neg, if_neg, if_neg, named_eq h]
  · rfl
  · rintro ⟨⟩
  · rintro ⟨⟩
  · rintro ⟨⟩

theorem parseTx_rollbackTo (h : isIdent name = true) :
    parseTx (ascii "ROLLBACK TO SAVEPOINT " ++ name ++ ascii ";") = some (.rollbackTo name) := by
  have hsave : named "SAVEPOINT " (ascii "ROLLBACK TO SAVEPOINT " ++ name ++ ascii ";") = none :=
    rfl
  have hrelease : named "RELEASE SAVEPOINT "
      (ascii "ROLLBACK TO SAVEPOINT " ++ name ++ ascii ";") = none := rfl
  rw [parseTx, if_neg, if_neg, if_neg, named_eq h]
  · rfl
  · rintro ⟨⟩
  · rintro ⟨⟩
  · rintro ⟨⟩

section
variable (apply : σ → ω → σ)

theorem csilkDbExec_printed {pool pool' : Conn Bytes σ ω} {sql : Bytes} (hlen : sql.length < 128)
    (hparse : parseTx sql = some command) (hexec : pool.exec apply command = some pool') :
    csilkDbExec apply pool (printed 128 sql) = (0, pool') := by
  rw [printed_eq_self hlen, csilkDbExec, hparse, Option.bind_some, hexec]

theorem named_length {keywords : String} {name : Bytes} (hlen : name.length ≤ 63)
    (hkeywords : (ascii keywords).length ≤ 22) :
    (ascii keywords ++ name ++ ascii ";").length < 128 := by
  have hone : (ascii ";").length = 1 := rfl
  rw [length_append, length_append]
  omega

theorem savepointName_ident (h : isIdent name = true) (seq : Nat) :
    isIdent (savepointName name seq) = true := by
  apply isIdent_take (n := 62)
  apply isIdent_append (isIdent_append h rfl)
  exact decimal_ident _

theorem begin_inner {name : Bytes} (h : isIdent name = true) (seq : Nat) (s : σ) (t : Tx Bytes ω) :
    ∃ scope, isIdent scope = true ∧ scope.length ≤ 63 ∧
      csilkDbTxScopeBegin apply ⟨s, some t⟩ name seq =
        (0, ⟨s, some ⟨t.pending, (scope, t.pending) :: t.savepoints⟩⟩, ⟨scope, true, true⟩) := by
  have hident := savepointName_ident h seq
  have hlen : (savepointName name seq).length ≤ 63 := length_take_le _ _
  refine ⟨_, hident, hlen, ?_⟩
  have hne : name ≠ [] := by
    intro hnil
    rw [hnil] at h
    cases h
  have hin : 0 < csilkDbInTransaction (⟨s, some t⟩ : Conn Bytes σ ω) := Int.one_pos
  rw [csilkDbTxScopeBegin, if_neg hne]
  dsimp only
  rw [csilkDbExec_printed apply (named_length hlen (by decide)) (parseTx_savepoint hident) rfl]
  rfl

theorem begin_outer {name : Bytes} (h : isIdent name = true) (seq : Nat) (s : σ) :
    csilkDbTxScopeBegin apply ⟨s, none⟩ name seq =
      (0, (⟨s, some ⟨[], []⟩⟩ : Conn Bytes σ ω), ⟨printed 64 name, false, true⟩) := by
  cases name with
  | nil => cases h
  | cons b bs => rfl

theorem end_inner {scope : Bytes} (h : isIdent scope = true) (hlen : scope.length ≤ 63) (s : σ)
    (pending saved : List ω) (outer : List (Bytes × List ω)) (commits : Bool) :
    endScope apply commits ⟨s, some ⟨pending, (scope, saved) :: outer⟩⟩ ⟨scope, true, true⟩ =
      (0, ⟨s, some ⟨if commits then pending else saved, outer⟩⟩, ⟨scope, true, false⟩) := by
  have hrelease (pending : List ω) := csilkDbExec_printed apply
    (named_length hlen (by decide)) (parseTx_release h)
    (Conn.release_innermost apply s pending saved scope outer)
  cases commits with
  | true =>
    rw [endScope, csilkDbTxScopeCommit]
    rw [hrelease]
    rfl
  | false =>
    have hback := csilkDbExec_printed apply (named_length hlen (by decide)) (parseTx_rollbackTo h)
      (Conn.rollbackTo_innermost apply s pending saved scope outer)
    rw [endScope, if_neg Bool.false_ne_true, csilkDbTxScopeRollback]
    rw [hback]
    dsimp only
    rw [hrelease]
    rfl

theorem end_outer (scope : Bytes) (s : σ) (pending : List ω) (commits : Bool) :
    endScope apply commits (⟨s, some ⟨pending, []⟩⟩ : Conn Bytes σ ω) ⟨scope, false, true⟩ =
      (0, ⟨(if commits then pending else []).foldl apply s, none⟩, ⟨scope, false, false⟩) := by
  cases commits with
  | true | false => rfl

end

def Runs (apply : σ → ω → σ) (pool : Conn Bytes σ ω) (p : Program ω) (after : Conn Bytes σ ω) : Prop :=
  ∃ codes, run apply pool p = (codes, after) ∧ ∀ rc ∈ codes, rc = 0

theorem Runs.done : Runs apply pool .done pool := ⟨[], rfl, (by simp)⟩

theorem Runs.write (h : Runs apply (pool.write apply w) rest after) :
    Runs apply pool (.write w rest) after := h

theorem Runs.scope (hbegin : csilkDbTxScopeBegin apply pool name seq = (0, began, held))
    (hbody : Runs apply began body ended)
    (hend : endScope apply commits ended held = (0, outer, held'))
    (hrest : Runs apply outer rest after) :
    Runs apply pool (.scope name seq body commits rest) after := by
  obtain ⟨inner, hinner, hzero⟩ := hbody
  obtain ⟨codes, hcodes, hzero'⟩ := hrest
  refine ⟨0 :: inner ++ 0 :: codes, ?_, ?_⟩
  · rw [run, hbegin]
    dsimp only
    rw [hinner]
    rw [hend]
    rw [hcodes]
  · intro rc hrc
    rcases mem_append.1 hrc with hrc | hrc
    · exact (mem_cons.1 hrc).elim id (hzero rc)
    · exact (mem_cons.1 hrc).elim id (hzero' rc)

theorem Program.names_body {p : Program ω} (h : ∀ n ∈ (Program.scope name seq body commits p).names,
    isIdent n = true) : isIdent name = true ∧ (∀ n ∈ body.names, isIdent n = true) ∧
      ∀ n ∈ p.names, isIdent n = true := by
  refine ⟨h name mem_cons_self, ?_, ?_⟩
  · intro n hn
    exact h n (mem_cons_of_mem _ (mem_append_left _ hn))
  · intro n hn
    exact h n (mem_cons_of_mem _ (mem_append_right _ hn))

/-- Inside a transaction a program adds its kept writes and leaves the savepoints as they are. -/
theorem run_inner (apply : σ → ω → σ) (p : Program ω) (hnames : ∀ n ∈ p.names, isIdent n = true)
    (s : σ) (t : Tx Bytes ω) :
    Runs apply ⟨s, some t⟩ p ⟨s, some ⟨t.pending ++ p.kept, t.savepoints⟩⟩ := by
  induction p generalizing t with
  | done =>
    rw [Program.kept, append_nil]
    exact .done
  | write w rest ih =>
    apply Runs.write
    have hrest := ih hnames { t with pending := t.pending ++ [w] }
    rw [append_assoc] at hrest
    exact hrest
  | scope name seq body commits rest ihbody ihrest =>
    obtain ⟨hname, hbody, hrest⟩ := Program.names_body hnames
    obtain ⟨scope, hident, hlen, hbegin⟩ := begin_inner apply hname seq s t
    apply Runs.scope hbegin (ihbody hbody _) (end_inner apply hident hlen s _ _ _ commits)
    have hafter := ihrest hrest
      ⟨if commits then t.pending ++ body.kept else t.pending, t.savepoints⟩
    cases commits with
    | true =>
      rw [Program.kept, ← append_assoc]
      exact hafter
    | false => exact hafter

/-- The store gets the writes of the scopes committed with all that they are in. -/
theorem txScope_compose (apply : σ → ω → σ) (p : Program ω)
    (hnames : ∀ n ∈ p.names, isIdent n = true) (s : σ) :
    Runs apply ⟨s, none⟩ p ⟨p.kept.foldl apply s, none⟩ := by
  induction p generalizing s with
  | done => exact .done
  | write w rest ih => exact .write (ih hnames (apply s w))
  | scope name seq body commits rest _ ih =>
    obtain ⟨hname, hbody, hrest⟩ := Program.names_body hnames
    apply Runs.scope (begin_outer apply hname seq s) (run_inner apply body hbody s _)
      (end_outer apply _ s _ commits)
    rw [Program.kept, foldl_append]
    exact ih hrest _

def longName : Bytes := replicate 70 97

def collision : Program Nat :=
  .scope longName 0 (.write 1 (.scope longName 1
    (.write 2 (.scope longName 2 (.write 3 .done) false (.write 4 .done))) true .done)) true .done

theorem txScope_compose_collision : ∃ codes, (∀ n ∈ collision.names, isIdent n = true) ∧
    run (fun s w => s ++ [w]) ⟨[], none⟩ collision = (codes, ⟨[1, 2, 4], none⟩) ∧
    ∀ rc ∈ codes, rc = 0 := by
  have hnames : ∀ n ∈ collision.names, isIdent n = true := all_eq_true.1 (by decide)
  obtain ⟨codes, hrun, hzero⟩ := txScope_compose (fun s w => s ++ [w]) collision hnames []
  exact ⟨codes, hnames, hrun, hzero⟩

end Csilk.Db
