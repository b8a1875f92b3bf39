import Csilk.Context.Query
import Csilk.Db.TxScope
import Csilk.Lib.Search
import Csilk.Lib.Statements
import Mathlib.Data.List.Sort

namespace Csilk.Migration
open Csilk.Lib

structure File where
  name : Bytes
  contents : Option Bytes

structure Item where
  version : Int
  name : Bytes
  checksum : Bytes
  deriving DecidableEq

/-- The directory, or nothing if it cannot be opened, the baseline, and the hash function. -/
structure Engine where
  files : Option (List File)
  baselineVersion : Int
  sentinelTable : Bytes
  sha256 : Bytes → { bs : Bytes // bs.length = 32 }

def isdigit (b : UInt8) : Bool := 48 ≤ b && b ≤ 57

def int32 (n : Int) : Int := n.bmod (2 ^ 32)

/-- `atoi` of decimal digits: `strtol` stops at `LONG_MAX`. -/
def atoi (digits : Bytes) : Int :=
  int32 (min (digits.foldl (fun n b => 10 * n + (b.toNat - 48)) 0 : Nat) (2 ^ 63 - 1 : Nat))

def parseMigrationFilename (filename : Bytes) : Option (Int × Bytes) :=
  if filename.head? ≠ some 86 ∧ filename.head? ≠ some 118 then none
  else if filename.length < 8 ∨ filename.drop (filename.length - 4) ≠ ascii ".sql" then none
  else
    match search (ascii "__") filename with
    | none => none
    | some sep =>
      let digits := (filename.take sep).drop 1
      let version := atoi digits
      let name := (filename.take (filename.length - 4)).drop (sep + 2)
      if sep = 1 ∨ !digits.all isdigit then none
      else if version ≤ 0 then none
      -- a length below zero is a huge `size_t`
      else if name = [] ∨ 128 ≤ name.length then none
      else some (version, name)

def hexDigit (n : Nat) : UInt8 := if n < 10 then UInt8.ofNat (48 + n) else UInt8.ofNat (87 + n)

def csilkMigrationChecksumContent (e : Engine) (content : Bytes) : Bytes :=
  let norm := ((content.filter (· ≠ 13)).reverse.dropWhile Context.isspace).reverse
  (e.sha256 norm).1.flatMap fun b => [hexDigit (b.toNat / 16), hexDigit (b.toNat % 16)]

def readItems (e : Engine) : List File → Option (List Item)
  | [] => some []
  | f :: fs =>
    match parseMigrationFilename f.name with
    | none => readItems e fs
    | some (version, name) =>
      match f.contents with
      | none => none
      | some content =>
        (readItems e fs).map (⟨version, name, csilkMigrationChecksumContent e content⟩ :: ·)

def duplicate : List Item → Bool
  | a :: b :: rest => a.version = b.version || duplicate (b :: rest)
  | _ => false

/-- The migrations in the order of their versions, no version twice. -/
def csilkMigrationDiscover (e : Engine) : Option (List Item) :=
  (e.files.bind (readItems e)).bind fun found =>
    let items := found.insertionSort fun a b => a.version ≤ b.version
    if duplicate items then none else some items

structure LockRow where
  id : Nat
  isLocked : Bool
  lockedBy : Bytes
  deriving DecidableEq

structure Row where
  version : Int
  name : Bytes
  checksum : Bytes
  deriving DecidableEq

def Item.row (item : Item) : Row := ⟨item.version, item.name, item.checksum⟩

/-- The two tables of the engine, where they exist, and the versions of the scripts that have had
their effect. -/
structure Db where
  lock : Option (List LockRow)
  migrations : Option (List Row)
  effects : List Int

def Db.empty : Db := ⟨none, none, []⟩

inductive Table
  | schemaMigrations
  | other (name : Bytes)
  deriving DecidableEq

inductive Write
  | createLock
  | insertLock
  | lock (who : Bytes)
  | unlock (who : Bytes)
  | createMigrations
  | record (row : Row)
  | script (version : Int)

/-- `WHERE id = 1 AND is_locked = 0` -/
def LockRow.free (r : LockRow) : Bool := r.id = 1 && !r.isLocked

/-- `WHERE id = 1 AND (locked_by = ? OR locked_by = '' OR is_locked = 0)` -/
def LockRow.releasable (who : Bytes) (r : LockRow) : Bool :=
  r.id = 1 && (r.lockedBy = who || r.lockedBy = [] || !r.isLocked)

def insertLockRow (rows : List LockRow) : List LockRow :=
  if rows.any fun r => r.id = 1 then rows else rows ++ [⟨1, false, []⟩]

def insertRow (row : Row) (rows : List Row) : List Row :=
  if rows.any fun r => r.version = row.version then rows else rows ++ [row]

def Db.apply (db : Db) : Write → Db
  | .createLock => { db with lock := some (db.lock.getD []) }
  | .insertLock => { db with lock := db.lock.map insertLockRow }
  | .lock who =>
    { db with lock := db.lock.map fun rows =>
      rows.map fun r => if r.free then { r with isLocked := true, lockedBy := who } else r }
  | .unlock who =>
    { db with lock := db.lock.map fun rows =>
      rows.map fun r => if r.releasable who then { r with isLocked := false, lockedBy := [] } else r }
  | .createMigrations => { db with migrations := some (db.migrations.getD []) }
  | .record row => { db with migrations := db.migrations.map (insertRow row) }
  | .script version => { db with effects := db.effects ++ [version] }

inductive Stmt
  | createLock
  | insertLock
  | lock (who : Bytes)
  | unlock (who : Bytes)
  | tableExists (t : Table)
  | createMigrations
  | record (row : Row)
  | selectRows
  | selectVersion (version : Int)
  | inTransaction
  | tx (c : TxCommand Bytes)
  | readFile (version : Int)
  | script (version : Int)

inductive Outcome
  | ok
  | unprepared
  | failed
  deriving DecidableEq

inductive Answer
  | unprepared
  | failed
  | done (count : Nat) (rows : List Row)

def Answer.rc : Answer → Int
  | .done _ _ => 0
  | _ => -1

def Answer.count : Answer → Nat
  | .done count _ => count
  | _ => 0

abbrev Connection := Conn Bytes Db Write

def view (c : Connection) : Db := ((c.tx.map Tx.pending).getD []).foldl Db.apply c.store

/-- The rows affected or found, and the connection. `tables` says which of the other tables exist.
-/
def perform (tables : List Int → Bytes → Bool) (c : Connection) :
    Stmt → Option (Nat × List Row × Connection)
  | .createLock => some (0, [], c.write Db.apply .createLock)
  | .insertLock => (view c).lock.map fun _ => (0, [], c.write Db.apply .insertLock)
  | .lock who => (view c).lock.map fun rows =>
      (rows.countP LockRow.free, [], c.write Db.apply (.lock who))
  | .unlock who => (view c).lock.map fun rows =>
      (rows.countP (LockRow.releasable who), [], c.write Db.apply (.unlock who))
  | .tableExists .schemaMigrations => some (if (view c).migrations.isSome then 1 else 0, [], c)
  | .tableExists (.other name) => some (if tables (view c).effects name then 1 else 0, [], c)
  | .createMigrations => some (0, [], c.write Db.apply .createMigrations)
  | .record row => (view c).migrations.bind fun rows =>
      if rows.any fun r => r.version = row.version then none
      else some (1, [], c.write Db.apply (.record row))
  | .selectRows => (view c).migrations.map fun rows =>
      (rows.length, rows.insertionSort fun a b => a.version ≤ b.version, c)
  | .selectVersion version => (view c).migrations.map fun rows =>
      (rows.countP fun r => r.version = version, [], c)
  | .inTransaction => some (if c.tx.isSome then 1 else 0, [], c)
  | .tx command => (c.exec Db.apply command).map fun c => (0, [], c)
  | .readFile _ => some (0, [], c)
  | .script version => some (0, [], c.write Db.apply (.script version))

def execute (tables : List Int → Bytes → Bool) (c : Connection) (t : Stmt) : Outcome → Answer × Connection
  | .ok =>
    match perform tables c t with
    | none => (.failed, c)
    | some (count, rows, c) => (.done count rows, c)
  | .unprepared => (.unprepared, c)
  | .failed => (.failed, c)

abbrev Program := Stmts Stmt Answer

open Stmts

def csilkMigrationLockInit : Program Int := do
  let table ← issue .createLock
  if table.rc ≠ 0 then return -1
  else
    let row ← issue .insertLock
    return row.rc

def acquireAttempts (who : Bytes) : Nat → Program Int
  | 0 => return -1
  | n + 1 => do
    let a ← issue (.lock who)
    if a.rc = 0 ∧ a.count = 1 then return 0 else acquireAttempts who n

def csilkMigrationLockAcquire (who : Bytes) (timeoutSeconds : Nat) : Program Int := do
  let rc ← csilkMigrationLockInit
  if rc ≠ 0 then return -1
  else acquireAttempts who (if 0 < timeoutSeconds then timeoutSeconds * 10 else 1)

def csilkMigrationLockRelease (who : Bytes) : Program Int := do
  let a ← issue (.unlock who)
  return a.rc

/-- `table_exists`: a statement that fails says no. -/
def tableExists (t : Table) : Program Bool := do
  let a ← issue (.tableExists t)
  return 0 < a.count

def shouldBaseline (e : Engine) : Program Bool :=
  if 0 < e.baselineVersion then
    if e.sentinelTable ≠ [] then tableExists (.other e.sentinelTable) else return true
  else return false

def baselineItems (e : Engine) : List Item → Program Int
  | [] => return 0
  | item :: rest =>
    if item.version ≤ e.baselineVersion then do
      let a ← issue (.record item.row)
      if a.rc ≠ 0 then return -1 else baselineItems e rest
    else baselineItems e rest

def ensureSchemaMigrationsAndBaseline (e : Engine) : Program Int := do
  if ← tableExists .schemaMigrations then return 0
  else
    let baseline ← shouldBaseline e
    let a ← issue .createMigrations
    if a.rc ≠ 0 then return -1
    else if !baseline then return 0
    else
      match csilkMigrationDiscover e with
      | none => return -1
      | some items => baselineItems e items

def checkRows (disk : List Item) : List Row → Int → Bool × Int
  | [], max => (true, max)
  | row :: rows, max =>
    let max := if max < row.version then int32 row.version else max
    match disk.find? fun item => item.version = int32 row.version with
    | none => (false, max)
    | some item =>
      if row.checksum = [] ∨ item.checksum ≠ row.checksum then (false, max)
      else checkRows disk rows max

def checkDisk (max : Int) : List Item → Program Int
  | [] => return 0
  | item :: rest =>
    if item.version < max then do
      let a ← issue (.selectVersion item.version)
      match a with
      | .unprepared => checkDisk max rest
      | a => if 0 < a.count then checkDisk max rest else return -1
    else checkDisk max rest

def csilkMigrationValidate (e : Engine) : Program Int := do
  if ← tableExists .schemaMigrations then
    match csilkMigrationDiscover e with
    | none => return -1
    | some disk =>
      let a ← issue .selectRows
      match a with
      | .done _ rows =>
        let (valid, max) := checkRows disk rows 0
        if valid then checkDisk max disk else return -1
      | _ => return -1
  else return 0

def scopeBegin (seq : Nat) : Program (Int × Option Bytes) := do
  let a ← issue .inTransaction
  if 0 < a.count then
    let name := Db.savepointName (ascii "migration") seq
    let b ← issue (.tx (.savepoint name))
    return (b.rc, some name)
  else
    let b ← issue (.tx .begin)
    return (b.rc, none)

def scopeCommit (scope : Option Bytes) : Program Int := do
  let a ← issue (.tx (match scope with | some name => .release name | none => .commit))
  return a.rc

def scopeRollback (scope : Option Bytes) : Program Int := do
  match scope with
  | some name =>
    let a ← issue (.tx (.rollbackTo name))
    let _ ← issue (.tx (.release name))
    return a.rc
  | none =>
    let a ← issue (.tx .rollback)
    return a.rc

structure Result where
  rc : Int
  applied : Option Nat

def engineName : Bytes := ascii "csilk_engine"

def giveUp : Program Result := do
  let _ ← csilkMigrationLockRelease engineName
  return ⟨-1, none⟩

def applyItem (seq : Nat) (item : Item) : Program Bool := do
  let file ← issue (.readFile item.version)
  if file.rc ≠ 0 then return false
  else
    let (began, scope) ← scopeBegin seq
    if began ≠ 0 then return false
    else
      let script ← issue (.script item.version)
      if script.rc ≠ 0 then
        let _ ← scopeRollback scope
        return false
      else
        let inserted ← issue (.record item.row)
        if inserted.rc ≠ 0 then
          let _ ← scopeRollback scope
          return false
        else
          let rc ← scopeCommit scope
          return rc = 0

def applyItems (seqs : Nat → Nat) : List Item → Nat → Program Result
  | [], applied => do
    let _ ← csilkMigrationLockRelease engineName
    return ⟨0, some applied⟩
  | item :: rest, applied => do
    let a ← issue (.selectVersion item.version)
    if 0 < a.count then applyItems seqs rest applied
    else
      let ok ← applyItem (seqs applied) item
      if ok then applyItems seqs rest (applied + 1) else giveUp

def csilkMigrationApply (e : Engine) (seqs : Nat → Nat) : Program Result := do
  let acquired ← csilkMigrationLockAcquire engineName 10
  if acquired ≠ 0 then return ⟨-1, none⟩
  else
    let ensured ← ensureSchemaMigrationsAndBaseline e
    if ensured ≠ 0 then giveUp
    else
      let validated ← csilkMigrationValidate e
      if validated ≠ 0 then giveUp
      else
        match csilkMigrationDiscover e with
        | none => giveUp
        | some items => applyItems seqs items 0

end Csilk.Migration
