import Csilk.Migration.Protocol

namespace Csilk.Migration
open Csilk.Lib Stmts Option

inductive Shaped : Stage → Option (Tx Bytes Write) → Prop
  | out : Shaped .out none
  | ready : Shaped .ready none
  | held : Shaped .held none
  | absent : Shaped (.absent v) none
  | began : Shaped (.began v) (some ⟨[], []⟩)
  | ran : Shaped (.ran v) (some ⟨[.script v], []⟩)
  | wrote (hv : row.version = v) : Shaped (.wrote v row) (some ⟨[.script v, .record row], []⟩)
  | stuck : Shaped .stuck (some t)
  | ended : Shaped .ended t

def Db.recorded (db : Db) : List Int := (db.migrations.getD []).map Row.version

def Stmt.asks : Stmt → Bool
  | .tableExists _ | .selectRows | .inTransaction | .readFile _ => true
  | _ => false

inductive Moved (e : Engine) : Phase → Connection → Stmt → Answer → Phase → Connection → Prop
  | same (h : a.rc ≠ 0 ∨ t.asks = true) : Moved e g c t a g c
  | createLock : Moved e ⟨.out, known, ran⟩ ⟨db, none⟩ .createLock a
      ⟨.out, known, ran⟩ ⟨db.apply .createLock, none⟩
  | insertLock (hlock : db.lock = some rows) : Moved e ⟨.out, known, ran⟩ ⟨db, none⟩ .insertLock a
      ⟨.ready, known, ran⟩ ⟨db.apply .insertLock, none⟩
  | lock (hlock : db.lock = some rows) (hcount : rows.countP LockRow.free = 1) :
      Moved e ⟨.ready, known, ran⟩ ⟨db, none⟩ (.lock engineName) a
        ⟨.held, known, ran⟩ ⟨db.apply (.lock engineName), none⟩
  | busy (hlock : db.lock = some rows) (hcount : rows.countP LockRow.free ≠ 1) :
      Moved e ⟨.ready, known, ran⟩ ⟨db, none⟩ (.lock engineName) a
        ⟨.ready, known, ran⟩ ⟨db.apply (.lock engineName), none⟩
  | createMigrations : Moved e ⟨.held, known, ran⟩ ⟨db, none⟩ .createMigrations a
      ⟨.held, known, ran⟩ ⟨db.apply .createMigrations, none⟩
  | baseline (horder : InOrder e known row) (hrows : db.migrations = some rows)
      (hnew : row.version ∉ db.recorded) : Moved e ⟨.held, known, ran⟩ ⟨db, none⟩ (.record row) a
        ⟨.held, known ++ [row.version], ran⟩ ⟨db.apply (.record row), none⟩
  | found (hholding : Holding stage) (hfound : v ∈ db.recorded) :
      Moved e ⟨stage, known, ran⟩ ⟨db, none⟩ (.selectVersion v) a
        ⟨.held, known ++ [v], ran⟩ ⟨db, none⟩
  | absent (hholding : Holding stage) (habsent : a.rc ≠ 0 ∨ v ∉ db.recorded) :
      Moved e ⟨stage, known, ran⟩ ⟨db, none⟩ (.selectVersion v) a
        ⟨.absent v, known, ran⟩ ⟨db, none⟩
  | begin : Moved e ⟨.absent v, known, ran⟩ ⟨db, none⟩ (.tx .begin) a
      ⟨.began v, known, ran⟩ ⟨db, some ⟨[], []⟩⟩
  | script (hlater : ∀ u ∈ ran, u < v) (hfile : Discovered e v) :
      Moved e ⟨.began v, known, ran⟩ ⟨db, some ⟨[], []⟩⟩ (.script v) a
        ⟨.ran v, known, ran ++ [v]⟩ ⟨db, some ⟨[.script v], []⟩⟩
  | scriptFailed (hlater : ∀ u ∈ ran, u < v) (hfile : Discovered e v) :
      Moved e ⟨.began v, known, ran⟩ c (.script v) a ⟨.began v, known, ran ++ [v]⟩ c
  | record (horder : InOrder e known row) (hrows : db.migrations = some rows)
      (hnew : row.version ∉ db.recorded) :
      Moved e ⟨.ran row.version, known, ran⟩ ⟨db, some ⟨[.script row.version], []⟩⟩ (.record row) a
        ⟨.wrote row.version row, known, ran⟩
        ⟨db, some ⟨[.script row.version, .record row], []⟩⟩
  | undo (h : Undoable stage) : Moved e ⟨stage, known, ran⟩ ⟨db, tx⟩ (.tx .rollback) a
      ⟨.held, known, ran⟩ ⟨db, none⟩
  | commit (hv : row.version = v) : Moved e ⟨.wrote v row, known, ran⟩
      ⟨db, some ⟨[.script v, .record row], []⟩⟩ (.tx .commit) a
      ⟨.held, known ++ [v], ran⟩ ⟨(db.apply (.script v)).apply (.record row), none⟩
  | stuck (htx : c.tx = some tx) (ht : t = .tx .rollback ∨ t = .tx .commit) (hrc : a.rc ≠ 0) :
      Moved e ⟨stage, known, ran⟩ c t a ⟨.stuck, known, ran⟩ c
  | release (hholding : Holding stage) (hlock : db.lock = some rows) :
      Moved e ⟨stage, known, ran⟩ ⟨db, none⟩ (.unlock engineName) a
        ⟨.ended, known, ran⟩ ⟨db.apply (.unlock engineName), none⟩
  | releaseFailed (hrel : Releasable stage) (hrc : a.rc ≠ 0) :
      Moved e ⟨stage, known, ran⟩ c (.unlock engineName) a ⟨.ended, known, ran⟩ c
  | releaseStuck : Moved e ⟨.stuck, known, ran⟩ ⟨db, some tx⟩ (.unlock engineName) a
      ⟨.ended, known, ran⟩ ⟨db, some tx'⟩

theorem execute_cases (tables : List Int → Bytes → Bool) (c : Connection) (t : Stmt) (o : Outcome) :
    (∃ a, execute tables c t o = (a, c) ∧ a.rc ≠ 0 ∧ a.count = 0) ∨
      ∃ count rows c', execute tables c t o = (.done count rows, c') ∧
        perform tables c t = some (count, rows, c') := by
  cases o with
  | unprepared | failed => exact .inl ⟨_, rfl, by decide, rfl⟩
  | ok =>
    rw [execute]
    cases hperform : perform tables c t with
    | none => exact .inl ⟨_, rfl, by decide, rfl⟩
    | some r => exact .inr ⟨_, _, _, rfl, rfl⟩

theorem Holding.closed (h : Holding stage) (hshape : Shaped stage tx) : tx = none := by
  cases h <;> cases hshape <;> rfl

theorem Undoable.exists_tx (h : Undoable stage) (hshape : Shaped stage tx) : ∃ t, tx = some t := by
  cases h <;> cases hshape <;> exact ⟨_, rfl⟩

theorem moved_failed (hshape : Shaped g.stage c.tx) (ht : Allowed e g t) (hrc : a.rc ≠ 0)
    (hcount : a.count = 0) : Moved e g c t a (g.next t a) c := by
  obtain ⟨db, tx⟩ := c
  have hnone : ¬ 0 < a.count := by rw [hcount]; exact lt_irrefl 0
  cases ht with
  | createLock | tableExists | createMigrations | selectRows | readFile | inTransaction => exact .same (.inl hrc)
  | insertLock | baseline | begin | record =>
    dsimp only [Phase.next]
    rw [if_neg hrc]
    exact .same (.inl hrc)
  | lock =>
    dsimp only [Phase.next]
    rw [if_neg fun h => hrc h.1]
    exact .same (.inl hrc)
  | selectVersion hholding =>
    dsimp only [Phase.next]
    rw [if_neg hnone]
    cases hholding.closed hshape
    exact .absent hholding (.inl hrc)
  | script hlater hfile =>
    dsimp only [Phase.next]
    rw [if_neg hrc]
    exact .scriptFailed hlater hfile
  | undo hundo =>
    dsimp only [Phase.next]
    rw [if_neg hrc]
    obtain ⟨tx, htx⟩ := hundo.exists_tx hshape
    exact .stuck htx (.inl rfl) hrc
  | commit =>
    dsimp only [Phase.next]
    rw [if_neg hrc]
    cases hshape
    exact .stuck rfl (.inr rfl) hrc
  | release hrel => exact .releaseFailed hrel hrc

theorem any_recorded {db : Db} {rows : List Row} (h : db.migrations = some rows) :
    (rows.any fun r => r.version = v) = true ↔ v ∈ db.recorded := by
  rw [Db.recorded, h]
  simp

theorem mem_recorded {db : Db} {rows : List Row} (h : db.migrations = some rows) :
    v ∈ db.recorded ↔ 0 < rows.countP fun r => r.version = v := by
  rw [← any_recorded h, List.any_eq_true, List.countP_pos_iff]

theorem truthful_done (hshape : Shaped g.stage c.tx) (ht : Allowed e g t)
    (h : perform tables c t = some (count, rows, c')) : truthful g t (.done count rows) := by
  intro heq
  subst heq
  obtain ⟨db, tx⟩ := c
  cases ht
  cases hshape
  cases h
  rfl

theorem moved_lock {rows : List LockRow} (hlock : db.lock = some rows) :
    Moved e ⟨.ready, known, ran⟩ ⟨db, none⟩ (.lock engineName) (.done (rows.countP LockRow.free) [])
      (Phase.next ⟨.ready, known, ran⟩ (.lock engineName) (.done (rows.countP LockRow.free) []))
      ⟨db.apply (.lock engineName), none⟩ := by
  dsimp only [Phase.next]
  split
  case isTrue hcount => exact .lock hlock hcount.2
  case isFalse hcount => exact .busy hlock fun h => hcount ⟨rfl, h⟩

theorem moved_selectVersion {rows : List Row} (hholding : Holding stage)
    (hrows : db.migrations = some rows) :
    Moved e ⟨stage, known, ran⟩ ⟨db, none⟩ (.selectVersion v)
      (.done (rows.countP fun r => r.version = v) [])
      (Phase.next ⟨stage, known, ran⟩ (.selectVersion v)
        (.done (rows.countP fun r => r.version = v) [])) ⟨db, none⟩ := by
  dsimp only [Phase.next]
  split
  case isTrue hcount => exact .found hholding ((mem_recorded hrows).2 hcount)
  case isFalse hcount => exact .absent hholding (.inr fun h => hcount ((mem_recorded hrows).1 h))

theorem moved_done (hshape : Shaped g.stage c.tx) (ht : Allowed e g t)
    (h : perform tables c t = some (count, rows, c')) :
    Moved e g c t (.done count rows) (g.next t (.done count rows)) c' := by
  obtain ⟨db, tx⟩ := c
  cases ht with
  | createLock =>
    cases hshape
    cases h
    exact .createLock
  | insertLock =>
    cases hshape
    obtain ⟨rows, hrows, heq⟩ := map_eq_some_iff.1 h
    cases heq
    exact .insertLock hrows
  | lock =>
    cases hshape
    obtain ⟨rows, hrows, heq⟩ := map_eq_some_iff.1 h
    cases heq
    exact moved_lock hrows
  | @tableExists _ _ t =>
    cases t with
    | schemaMigrations | other =>
      cases h
      exact .same (.inr rfl)
  | createMigrations =>
    cases hshape
    cases h
    exact .createMigrations
  | baseline horder =>
    cases hshape
    obtain ⟨rows, hrows, heq⟩ := bind_eq_some_iff.1 h
    split at heq
    · cases heq
    case isFalse hnew =>
      cases heq
      exact .baseline horder hrows (mt (any_recorded hrows).2 hnew)
  | selectRows =>
    obtain ⟨rows, hrows, heq⟩ := map_eq_some_iff.1 h
    cases heq
    exact .same (.inr rfl)
  | selectVersion hholding =>
    cases hholding.closed hshape
    obtain ⟨rows, hrows, heq⟩ := map_eq_some_iff.1 h
    cases heq
    exact moved_selectVersion hholding hrows
  | readFile | inTransaction =>
    cases h
    exact .same (.inr rfl)
  | begin =>
    cases hshape
    cases h
    exact .begin
  | script hlater hfile =>
    cases hshape
    cases h
    exact .script hlater hfile
  | record horder =>
    cases hshape
    obtain ⟨rows, hrows, heq⟩ := bind_eq_some_iff.1 h
    split at heq
    · cases heq
    case isFalse hnew =>
      cases heq
      exact .record horder hrows (mt (any_recorded hrows).2 hnew)
  | undo hundo =>
    obtain ⟨tx, rfl⟩ := hundo.exists_tx hshape
    cases h
    exact .undo hundo
  | commit =>
    cases hshape with
    | wrote hv =>
      cases h
      exact .commit hv
  | release hrel =>
    obtain ⟨rows, hrows, heq⟩ := map_eq_some_iff.1 h
    cases heq
    cases hrel with
    | holding hholding =>
      cases hholding.closed hshape
      exact .release hholding hrows
    | stuck =>
      cases hshape
      exact .releaseStuck

theorem moved_of_execute (tables : List Int → Bytes → Bool) (o : Outcome)
    (hshape : Shaped g.stage c.tx) (ht : Allowed e g t) :
    truthful g t (execute tables c t o).1 ∧
      Moved e g c t (execute tables c t o).1 (g.next t (execute tables c t o).1)
        (execute tables c t o).2 := by
  rcases execute_cases tables c t o with ⟨a, heq, hrc, hcount⟩ | ⟨count, rows, c', heq, hperform⟩
  · rw [heq]
    exact ⟨fun _ => hcount, moved_failed hshape ht hrc hcount⟩
  · rw [heq]
    exact ⟨truthful_done hshape ht hperform, moved_done hshape ht hperform⟩

theorem Moved.shaped (h : Moved e g c t a g' c') (hshape : Shaped g.stage c.tx) :
    Shaped g'.stage c'.tx := by
  cases h with
  | same => exact hshape
  | createLock => exact .out
  | insertLock | busy => exact .ready
  | lock | createMigrations | baseline | found | undo | commit => exact .held
  | absent => exact .absent
  | begin => exact .began
  | script => exact .ran
  | scriptFailed =>
    obtain ⟨db, tx⟩ := c
    cases hshape
    exact .began
  | record => exact .wrote rfl
  | stuck htx =>
    rw [htx]
    exact .stuck
  | release | releaseFailed | releaseStuck => exact .ended

structure TxInv (stage : Stage) (tx : Option (Tx Bytes Write)) : Prop where
  shaped : Shaped stage tx
  notStuck : stage ≠ .stuck
  closed : stage = .ended → tx = none

theorem TxInv.moved (h : TxInv g.stage c.tx) (hm : Moved e g c t a g' c')
    (hends : t = .tx .rollback ∨ t = .tx .commit ∨ t = .unlock engineName → a.rc = 0) :
    TxInv g'.stage c'.tx := by
  refine ⟨hm.shaped h.shaped, ?_, ?_⟩
  · cases hm with
    | same => exact h.notStuck
    | stuck htx ht hrc => exact absurd (hends (ht.imp id .inl)) hrc
    | _ =>
      simp
  · cases hm with
    | same => exact h.closed
    | release => exact fun _ => rfl
    | releaseFailed _ hrc => exact absurd (hends (.inr (.inr rfl))) hrc
    | releaseStuck => exact absurd rfl h.notStuck
    | _ =>
      simp

def Stage.Missing (db : Db) : Stage → Prop
  | .absent v | .began v | .ran v => v ∉ db.recorded
  | .wrote v _ => v ∉ db.recorded ∧ db.migrations.isSome = true
  | _ => True

theorem Moved.missing (hm : Moved e g c t a g' c') (h : g.stage.Missing c.store)
    (hfinds : ∀ v, t = .selectVersion v → a.rc ≠ 0 → v ∉ c.store.recorded) :
    g'.stage.Missing c'.store := by
  cases hm with
  | same | begin | script | scriptFailed => exact h
  | absent _ habsent => exact habsent.elim (hfinds _ rfl) id
  | record _ hrows hnew => exact ⟨hnew, isSome_iff_exists.2 ⟨_, hrows⟩⟩
  | _ => trivial

theorem recorded_record {db : Db} (hsome : db.migrations.isSome = true)
    (hnew : row.version ∉ db.recorded) :
    (db.apply (.record row)).recorded = db.recorded ++ [row.version] := by
  obtain ⟨rows, hrows⟩ := isSome_iff_exists.1 hsome
  rw [Db.recorded, Db.recorded, Db.apply, hrows, map_some, insertRow,
    if_neg (mt (any_recorded hrows).1 hnew)]
  exact List.map_append

end Csilk.Migration
