import Csilk.Migration.Exclusion

namespace Csilk.Migration
open Csilk.Lib Stmts List Option

/-- A connection during one call, with the scripts run and whether it has acquired the lock. -/
structure Session where
  conn : Connection
  ran : List Int
  acquired : Bool

def Session.begin (c : Connection) : Session := ⟨c, [], false⟩

def ranAfter (ran : List Int) : Stmt → List Int
  | .script v => ran ++ [v]
  | _ => ran

def Session.exec (tables : List Int → Bytes → Bool) (s : Session) (t : Stmt) (o : Outcome) :
    Answer × Session :=
  let (a, c) := execute tables s.conn t o
  (a, ⟨c, ranAfter s.ran t, s.acquired || holdsAfter false t a⟩)

/-- Transactions end, the lock is released, recorded versions are found, and no row is written for a
baseline. -/
def calm (s : Session) (t : Stmt) (o : Outcome) : Bool :=
  match t with
  | .tx .commit | .tx .rollback | .unlock _ => o = .ok
  | .selectVersion v => o = .ok || v ∉ s.conn.store.recorded
  | .record _ => s.conn.tx.isSome
  | _ => true

def Db.Keyed (db : Db) : Prop := ((db.lock.getD []).map LockRow.id).Nodup

def Db.Unlocked (db : Db) : Prop := ∀ r ∈ db.lock.getD [], r.id = 1 → r.isLocked = false

/-- It ran only unrecorded migrations, in ascending order; it recorded what it committed, all if it
succeeds; no transaction or lock is left. -/
structure Clean (e : Engine) (db : Db) (r : Result) (s : Session) : Prop where
  ascending : s.ran.Pairwise (· < ·)
  unrecorded : ∀ v ∈ s.ran, v ∉ db.recorded
  files : ∀ v ∈ s.ran, Discovered e v
  committed : ∃ new, s.conn.store.effects = db.effects ++ new ∧
    s.conn.store.recorded = db.recorded ++ new ∧ new ⊆ s.ran
  success : r.rc = 0 → ∃ items, csilkMigrationDiscover e = some items ∧
    ∀ item ∈ items, item.version ∈ s.conn.store.recorded
  closed : s.conn.tx = none
  released : s.acquired = true → s.conn.store.Unlocked

def Db.Held (db : Db) : Prop :=
  ∃ rows, db.lock = some rows ∧ ∀ r ∈ rows, r.id = 1 → r.lockedBy = engineName

def Stage.Started (ran : List Int) : Stage → Prop
  | .ran v | .wrote v _ => v ∈ ran
  | _ => True

structure Calm (c : Connection) (t : Stmt) (a : Answer) : Prop where
  ends : t = .tx .rollback ∨ t = .tx .commit ∨ t = .unlock engineName → a.rc = 0
  finds : ∀ v, t = .selectVersion v → a.rc ≠ 0 → v ∉ c.store.recorded
  inside : ∀ row, t = .record row → c.tx.isSome = true

structure LogInv (e : Engine) (db : Db) (ran : List Int) : Prop where
  ascending : ran.Pairwise (· < ·)
  unrecorded : ∀ v ∈ ran, v ∉ db.recorded
  files : ∀ v ∈ ran, Discovered e v

theorem LogInv.script (h : LogInv e db ran) (hlater : ∀ u ∈ ran, u < v) (hfile : Discovered e v)
    (hnew : v ∉ db.recorded) : LogInv e db (ran ++ [v]) := by
  constructor
  · apply pairwise_append.2 ⟨h.ascending, pairwise_singleton _ _, _⟩
    intro u hu w hw
    rw [mem_singleton.1 hw]
    exact hlater u hu
  · exact forall_mem_append.2 ⟨h.unrecorded, forall_mem_singleton.2 hnew⟩
  · exact forall_mem_append.2 ⟨h.files, forall_mem_singleton.2 hfile⟩

structure RowInv (db : Db) (g : Phase) (store : Db) : Prop where
  committed : ∃ new, store.effects = db.effects ++ new ∧ store.recorded = db.recorded ++ new ∧
    new ⊆ g.ran
  missing : g.stage.Missing store
  started : g.stage.Started g.ran

theorem RowInv.commit {row : Row} (h : RowInv db ⟨.wrote row.version row, known, ran⟩ store) :
    ∃ new, ((store.apply (.script row.version)).apply (.record row)).effects = db.effects ++ new ∧
      ((store.apply (.script row.version)).apply (.record row)).recorded = db.recorded ++ new ∧
      new ⊆ ran := by
  obtain ⟨hnew, hsome⟩ := h.missing
  have hsome' : (store.apply (.script row.version)).migrations.isSome = true := hsome
  obtain ⟨new, heffects, hrecorded, hsub⟩ := h.committed
  refine ⟨new ++ [row.version], ?_, ?_, ?_⟩
  · show store.effects ++ [row.version] = _
    rw [heffects, append_assoc]
  · rw [recorded_record hsome' hnew]
    show store.recorded ++ [row.version] = _
    rw [hrecorded, append_assoc]
  · exact append_subset.2 ⟨hsub, forall_mem_singleton.2 h.started⟩

theorem RowInv.moved (h : RowInv db g c.store) (hm : Moved e g c t a g' c') (hcalm : Calm c t a) :
    RowInv db g' c'.store := by
  refine ⟨?_, hm.missing h.missing hcalm.finds, ?_⟩
  · cases hm with
    | baseline => cases hcalm.inside _ rfl
    | script | scriptFailed =>
      obtain ⟨new, heffects, hrecorded, hsub⟩ := h.committed
      exact ⟨new, heffects, hrecorded, List.Subset.trans hsub (subset_append_left _ _)⟩
    | commit hv =>
      subst hv
      exact h.commit
    | _ => exact h.committed
  · cases hm with
    | same | record => exact h.started
    | script => exact mem_append_right _ (mem_singleton_self _)
    | _ => trivial

structure LockInv (g : Phase) (got : Bool) (store : Db) : Prop where
  acquired : got = true → g.stage.inSection = true ∨ g.stage = .ended
  held : g.stage.inSection = true → store.Held
  released : g.stage = .ended → store.Unlocked

theorem Db.Keyed.map (h : Db.Keyed db) (f : LockRow → LockRow) (hf : ∀ r, (f r).id = r.id)
    (hdb : db'.lock = db.lock.map (List.map f)) : Db.Keyed db' := by
  rw [Db.Keyed] at h ⊢
  cases hlock : db.lock with
  | none =>
    rw [hlock] at hdb
    rw [hdb]
    exact nodup_nil
  | some rows =>
    rw [hlock] at hdb h
    rw [hdb, map_some, getD_some, List.map_map]
    have hids : LockRow.id ∘ f = LockRow.id := funext hf
    rw [hids]
    exact h

theorem Db.Keyed.insertLock (h : Db.Keyed db) : Db.Keyed (db.apply .insertLock) := by
  rw [Db.Keyed] at h ⊢
  cases hlock : db.lock with
  | none =>
    rw [Db.apply, hlock]
    exact nodup_nil
  | some rows =>
    rw [hlock] at h
    rw [Db.apply, hlock, map_some, getD_some, insertLockRow]
    split
    · exact h
    case isFalse hnone =>
      rw [map_append]
      apply nodup_append.2 ⟨h, nodup_singleton _, _⟩
      intro x hx y hy heq
      obtain ⟨r, hr, rfl⟩ := List.mem_map.1 hx
      rw [mem_singleton.1 hy] at heq
      exact hnone (List.any_eq_true.2 ⟨r, hr, decide_eq_true heq⟩)

theorem Db.Keyed.lock (h : Db.Keyed db) (hlock : db.lock = some rows)
    (hcount : rows.countP LockRow.free = 1) : Db.Held (db.apply (.lock engineName)) := by
  rw [Db.Keyed, hlock] at h
  refine ⟨_, by rw [Db.apply, hlock, map_some], ?_⟩
  intro r' hr' hid
  obtain ⟨r, hr, rfl⟩ := List.mem_map.1 hr'
  obtain ⟨f, hf, hfree⟩ := countP_pos_iff.1 (hcount ▸ one_pos)
  have hfid : f.id = 1 := of_decide_eq_true (Bool.and_eq_true_iff.1 hfree).1
  have hrid : r.id = 1 := by
    split at hid
    · exact hid
    · exact hid
  have hrf : r = f := inj_on_of_nodup_map h hr hf (hrid.trans hfid.symm)
  rw [hrf, if_pos hfree]

theorem Db.Held.unlock (h : Db.Held db) : Db.Unlocked (db.apply (.unlock engineName)) := by
  obtain ⟨rows, hlock, hheld⟩ := h
  intro r' hr' hid
  rw [Db.apply, hlock] at hr'
  obtain ⟨r, hr, rfl⟩ := List.mem_map.1 hr'
  split
  · rfl
  case isFalse hnot =>
    rw [if_neg hnot] at hid
    apply absurd _ hnot
    rw [LockRow.releasable, hid, hheld r hr hid]
    rfl

theorem acquired_next (ht : Allowed e g t)
    (h : got = true → g.stage.inSection = true ∨ g.stage = .ended) (a : Answer)
    (hgot : (got || holdsAfter false t a) = true) :
    (g.next t a).stage.inSection = true ∨ (g.next t a).stage = .ended := by
  rw [← holdsAfter_eq ht a]
  rcases Bool.or_eq_true_iff.1 hgot with hgot | hnow
  · rcases h hgot with hin | hended
    · rw [hin]
      cases t with
      | unlock who => exact .inr rfl
      | lock who => exact .inl rfl
      | _ => exact .inl rfl
    · obtain ⟨stage, known, ran⟩ := g
      cases hended
      cases ht with
      | selectVersion h | undo h => cases h
      | release h => rcases h with ⟨⟨⟩⟩
  · left
    cases t with
    | lock who =>
      rw [holdsAfter, Bool.false_or] at hnow
      rw [holdsAfter, hnow, Bool.or_true]
    | _ => cases hnow

theorem LockInv.moved (h : LockInv g got c.store) (ht : Allowed e g t)
    (hm : Moved e g c t a (g.next t a) c') (hcalm : Calm c t a) (hstuck : g.stage ≠ .stuck)
    (hkeyed : c.store.Keyed) : LockInv (g.next t a) (got || holdsAfter false t a) c'.store := by
  refine ⟨acquired_next ht h.acquired a, ?_, ?_⟩
  · generalize g.next t a = g' at hm
    cases hm with
    | same => exact h.held
    | lock hlock hcount => exact fun _ => hkeyed.lock hlock hcount
    | found hholding | absent hholding => exact fun _ => h.held hholding.inSection
    | undo hundo => exact fun _ => h.held hundo.inSection
    | createMigrations | baseline | begin | script | scriptFailed | record | commit =>
      exact fun _ => h.held rfl
    | stuck _ ht hrc => exact absurd (hcalm.ends (ht.imp id .inl)) hrc
    | createLock | insertLock | busy | release | releaseFailed | releaseStuck => rintro ⟨⟩
  · generalize g.next t a = g' at hm
    cases hm with
    | same => exact h.released
    | release hholding => exact fun _ => (h.held hholding.inSection).unlock
    | releaseFailed _ hrc => exact absurd (hcalm.ends (.inr (.inr rfl))) hrc
    | releaseStuck => exact absurd rfl hstuck
    | _ =>
      simp

theorem Moved.keyed (hm : Moved e g c t a g' c') (h : c.store.Keyed) : c'.store.Keyed := by
  cases hm with
  | insertLock => exact h.insertLock
  | lock | busy | release =>
    refine h.map _ (fun r => ?_) rfl
    split <;> rfl
  | _ => exact h

/-- What holds of a call whatever the outcomes of its statements are. -/
structure Kept (e : Engine) (g : Phase) (c : Connection) : Prop where
  shaped : Shaped g.stage c.tx
  keyed : c.store.Keyed
  known : ∀ v ∈ g.known, v ∈ c.store.recorded
  writes : ∀ v row, g.stage = .wrote v row →
    InOrder e g.known row ∧ v ∉ c.store.recorded ∧ c.store.migrations.isSome = true

theorem known_record {db : Db} {row : Row} (h : ∀ v ∈ known, v ∈ db.recorded)
    (hsome : db.migrations.isSome = true) (hnew : row.version ∉ db.recorded) :
    ∀ v ∈ known ++ [row.version], v ∈ (db.apply (.record row)).recorded := by
  rw [recorded_record hsome hnew]
  exact fun v hv => mem_append.2 ((mem_append.1 hv).imp (h v) id)

theorem Kept.moved (h : Kept e g c) (hm : Moved e g c t a g' c') : Kept e g' c' := by
  refine ⟨hm.shaped h.shaped, hm.keyed h.keyed, ?_, ?_⟩
  · cases hm with
    | baseline _ hrows hnew => exact known_record h.known (isSome_iff_exists.2 ⟨_, hrows⟩) hnew
    | found _ hfound => exact forall_mem_append.2 ⟨h.known, forall_mem_singleton.2 hfound⟩
    | commit hv =>
      subst hv
      obtain ⟨-, hnew, hsome⟩ := h.writes _ _ rfl
      exact known_record h.known hsome hnew
    | _ => exact h.known
  · cases hm with
    | same => exact h.writes
    | record horder hrows hnew =>
      rintro _ _ ⟨⟩
      exact ⟨horder, hnew, isSome_iff_exists.2 ⟨_, hrows⟩⟩
    | _ => rintro _ _ ⟨⟩

theorem Kept.start (htx : c.tx = none) (hkeyed : c.store.Keyed) : Kept e .first c := by
  refine ⟨?_, hkeyed, (by rintro _ ⟨⟩), (by rintro _ _ ⟨⟩)⟩
  rw [htx]
  exact .out

theorem Kept.final (h : Kept e g c) (hfinal : Final e r g) (hrc : r.rc = 0) :
    ∃ items, csilkMigrationDiscover e = some items ∧
      ∀ item ∈ items, item.version ∈ c.store.recorded := by
  rcases hfinal with ⟨hne, _⟩ | ⟨_, hsuccess⟩
  · exact absurd hrc hne
  · obtain ⟨items, hitems, hknown⟩ := hsuccess hrc
    exact ⟨items, hitems, fun item hi => h.known _ (hknown item hi)⟩

structure CallInv (e : Engine) (db : Db) (g : Phase) (s : Session) : Prop where
  kept : Kept e g s.conn
  tx : TxInv g.stage s.conn.tx
  ran : s.ran = g.ran
  log : LogInv e db s.ran
  rows : RowInv db g s.conn.store
  lock : LockInv g s.acquired s.conn.store

theorem execute_tx (hexec : c.exec Db.apply command = some c') :
    execute tables c (.tx command) .ok = (.done 0 [], c') := by
  rw [execute, perform, hexec]
  rfl

theorem exists_tx (hshape : Shaped g.stage tx) (ht : Allowed e g (.tx command))
    (hcommand : command = .rollback ∨ command = .commit) : ∃ t, tx = some t := by
  cases ht with
  | begin => rcases hcommand with hc | hc <;> cases hc
  | undo hundo => exact hundo.exists_tx hshape
  | commit =>
    cases hshape
    exact ⟨_, rfl⟩

theorem releasable_of_unlock (h : TxInv g.stage tx) (ht : Allowed e g (.unlock who)) :
    Holding g.stage ∧ tx = none := by
  cases ht with
  | release hrel =>
    cases hrel with
    | holding hholding => exact ⟨hholding, hholding.closed h.shaped⟩
    | stuck => exact absurd rfl h.notStuck

theorem CallInv.calm (tables : List Int → Bytes → Bool) (h : CallInv e db g s) (ht : Allowed e g t) (hok : calm s t o = true) :
    Calm s.conn t (execute tables s.conn t o).1 := by
  constructor
  · intro hc
    rcases hc with rfl | rfl | rfl
    · cases of_decide_eq_true hok
      obtain ⟨tx, htx⟩ := exists_tx h.tx.shaped ht (.inl rfl)
      rw [execute_tx (by rw [Conn.exec, htx, map_some])]
      rfl
    · cases of_decide_eq_true hok
      obtain ⟨tx, htx⟩ := exists_tx h.tx.shaped ht (.inr rfl)
      rw [execute_tx (by rw [Conn.exec, htx, map_some])]
      rfl
    · cases of_decide_eq_true hok
      obtain ⟨hholding, htx⟩ := releasable_of_unlock h.tx ht
      obtain ⟨rows, hlock, -⟩ := h.lock.held hholding.inSection
      have hview : (view s.conn).lock = some rows := by
        rw [view, htx]
        exact hlock
      rw [execute, perform, hview]
      rfl
  · intro v heq hrc hv
    subst heq
    rcases Bool.or_eq_true_iff.1 hok with ho | hnot
    · cases of_decide_eq_true ho
      have htx : s.conn.tx = none := by
        cases ht with
        | selectVersion hholding => exact hholding.closed h.tx.shaped
      cases hrows : s.conn.store.migrations with
      | none =>
        rw [Db.recorded, hrows] at hv
        cases hv
      | some rows =>
        have hview : (view s.conn).migrations = some rows := by
          rw [view, htx]
          exact hrows
        apply hrc
        rw [execute, perform, hview]
        rfl
    · exact of_decide_eq_true hnot hv
  · intro row heq
    subst heq
    exact hok

theorem LogInv.next (h : LogInv e db g.ran) (ht : Allowed e g t) (hrows : RowInv db g store)
    (a : Answer) : LogInv e db (g.next t a).ran ∧ (g.next t a).ran = ranAfter g.ran t := by
  cases ht with
  | script hlater hfile =>
    have hnew : ∀ v, v ∉ store.recorded → v ∉ db.recorded := by
      intro v hv hmem
      obtain ⟨new, _, heq, _⟩ := hrows.committed
      rw [heq] at hv
      exact hv (mem_append_left _ hmem)
    have hlog := h.script hlater hfile (hnew _ hrows.missing)
    dsimp only [Phase.next]
    split
    · exact ⟨hlog, rfl⟩
    · exact ⟨hlog, rfl⟩
  | insertLock | lock | baseline | selectVersion | begin | record | undo | commit =>
    dsimp only [Phase.next]
    split <;> exact ⟨h, rfl⟩
  | createLock | tableExists | createMigrations | selectRows | readFile | inTransaction | release =>
    exact ⟨h, rfl⟩

theorem CallInv.step (tables : List Int → Bytes → Bool) (h : CallInv e db g s) (ht : Allowed e g t)
    (hok : Migration.calm s t o = true) : truthful g t (s.exec tables t o).1 ∧
      CallInv e db (g.next t (s.exec tables t o).1) (s.exec tables t o).2 := by
  obtain ⟨ha, hm⟩ := moved_of_execute tables o h.tx.shaped ht
  have hcalm := h.calm tables ht hok
  obtain ⟨hlog, hran⟩ := LogInv.next (h.ran ▸ h.log) ht h.rows (execute tables s.conn t o).1
  have heq : (s.exec tables t o).2.ran = (g.next t (execute tables s.conn t o).1).ran := by
    rw [hran, ← h.ran]
    rfl
  exact ⟨ha, h.kept.moved hm, h.tx.moved hm hcalm.ends, heq, heq ▸ hlog, h.rows.moved hm hcalm,
    h.lock.moved ht hm hcalm h.tx.notStuck h.kept.keyed⟩

theorem CallInv.start (htx : c.tx = none) (hkeyed : c.store.Keyed) :
    CallInv e c.store .first (.begin c) := by
  have hkept : Kept e .first c := .start htx hkeyed
  constructor
  · exact hkept
  · exact ⟨hkept.shaped, (by rintro ⟨⟩), fun _ => htx⟩
  · rfl
  · exact ⟨.nil, (by rintro _ ⟨⟩), (by rintro _ ⟨⟩)⟩
  · refine ⟨⟨[], ?_, ?_, List.Subset.refl _⟩, trivial, trivial⟩
    · exact (append_nil _).symm
    · exact (append_nil _).symm
  · exact ⟨(by rintro ⟨⟩), (by rintro ⟨⟩), (by rintro ⟨⟩)⟩

/-- A call as it may go: the outcomes of its statements all meet the condition. -/
abbrev Runs (tables : List Int → Bytes → Bool) (e : Engine) (seqs : Nat → Nat) (c : Connection)
    (p : Program Result) (s : Session) : Prop :=
  Reaches (Session.exec tables) (fun s t o => calm s t o = true) (csilkMigrationApply e seqs)
    (.begin c) p s

theorem clean_of_runs (hrun : Runs tables e seqs c (.ret r) s) (htx : c.tx = none)
    (hkeyed : c.store.Keyed) : Clean e c.store r s ∧ s.conn.store.Keyed := by
  obtain ⟨g, hfinal, hinv⟩ := hrun.follows (csilkMigrationApply_keeps e seqs)
    (CallInv.start htx hkeyed) (fun g s t o hinv ht hok => hinv.step tables ht hok)
  refine ⟨⟨hinv.log.ascending, hinv.log.unrecorded, hinv.log.files, ?_, ?_, hinv.tx.final hfinal,
    ?_⟩, hinv.kept.keyed⟩
  · rw [hinv.ran]
    exact hinv.rows.committed
  · exact hinv.kept.final hfinal
  · intro hgot
    rcases hinv.lock.acquired hgot with hin | hended
    · rw [hfinal.outside] at hin
      cases hin
    · exact hinv.lock.released hended

theorem Clean.nothing (h : Clean e db r s) (hitems : csilkMigrationDiscover e = some items)
    (hall : ∀ item ∈ items, item.version ∈ db.recorded) :
    s.ran = [] ∧ s.conn.store.recorded = db.recorded ∧ s.conn.store.effects = db.effects := by
  have hran : s.ran = [] := by
    apply eq_nil_iff_forall_not_mem.2
    intro v hv
    obtain ⟨items', hitems', item, hitem, rfl⟩ := h.files v hv
    rw [hitems] at hitems'
    cases hitems'
    exact h.unrecorded _ hv (hall item hitem)
  obtain ⟨new, heffects, hrecorded, hsub⟩ := h.committed
  rw [hran, subset_nil] at hsub
  rw [hsub, append_nil] at heffects hrecorded
  exact ⟨hran, hrecorded, heffects⟩

/-- Such a call is clean, and a second one after a success applies nothing. -/
theorem migrationApply_clean (tables : List Int → Bytes → Bool) (e : Engine) (seqs : Nat → Nat)
    (c : Connection) (r : Result) (s : Session) (htx : c.tx = none) (hkeyed : c.store.Keyed)
    (hrun : Runs tables e seqs c (.ret r) s) :
    Clean e c.store r s ∧ (r.rc = 0 → ∀ seqs' r' s',
      Runs tables e seqs' s.conn (.ret r') s' → r'.rc = 0 →
        s'.ran = [] ∧ s'.conn.store.recorded = s.conn.store.recorded ∧
          s'.conn.store.effects = s.conn.store.effects) := by
  obtain ⟨hclean, hkeyed'⟩ := clean_of_runs hrun htx hkeyed
  refine ⟨hclean, ?_⟩
  intro hrc seqs' r' s' hagain _
  obtain ⟨items, hitems, hall⟩ := hclean.success hrc
  exact (clean_of_runs hagain hclean.closed hkeyed').1.nothing hitems hall

def callWith (outcome : Stmt → Outcome) (e : Engine) (c : Connection) : Result × Session :=
  eval (fun s t => s.exec (fun _ _ => false) t (outcome t)) (csilkMigrationApply e id) (.begin c)

theorem reaches_callWith (outcome : Stmt → Outcome) (e : Engine) (c : Connection) :
    Reaches (Session.exec fun _ _ => false) (fun _ _ _ => True) (csilkMigrationApply e id) (.begin c)
      (.ret (callWith outcome e c).1) (callWith outcome e c).2 :=
  reaches_eval (fun _ t => outcome t) (fun _ _ _ => trivial) _ _ (meets_true _ _ _)

theorem migrationApply_clean_one : (callWith (fun _ => .ok) oneMigration ⟨.empty, none⟩).1.rc = 0 ∧
      (callWith (fun _ => .ok) oneMigration ⟨.empty, none⟩).2.ran = [1] ∧
      Clean oneMigration .empty (callWith (fun _ => .ok) oneMigration ⟨.empty, none⟩).1
        (callWith (fun _ => .ok) oneMigration ⟨.empty, none⟩).2 := by
  have hmeets : meets (fun s t => s.exec (fun _ _ => false) t .ok) (fun s t => calm s t .ok)
      (csilkMigrationApply oneMigration id) (.begin ⟨.empty, none⟩) = true := by decide +kernel
  have hrun : Runs (fun _ _ => false) oneMigration id ⟨.empty, none⟩ (.ret _) _ :=
    reaches_eval (fun _ _ => .ok) (fun _ _ h => h) _ _ hmeets
  exact ⟨by decide +kernel, by decide +kernel,
    (migrationApply_clean (fun _ _ => false) oneMigration id ⟨.empty, none⟩ _ _ rfl nodup_nil
      hrun).1⟩

def failingSelect : Stmt → Outcome
  | .selectVersion _ => .failed
  | _ => .ok

def failingCommit : Stmt → Outcome
  | .tx .commit => .failed
  | _ => .ok

def migrated : Db := ⟨none, some [⟨1, ascii "init", List.replicate 64 48⟩], [1]⟩

/-- A failed COMMIT leaves the transaction open and the lock taken; a failed lookup has a recorded
script run again. -/
theorem migrationApply_unclean : (∃ r s, Reaches (Session.exec fun _ _ => false) (fun _ _ _ => True)
        (csilkMigrationApply oneMigration id) (.begin ⟨.empty, none⟩) (.ret r) s ∧
      r.rc = -1 ∧ s.conn.tx.isSome = true ∧ s.acquired = true ∧
      s.conn.store.lock = some [⟨1, true, engineName⟩]) ∧
    ∃ r s, Reaches (Session.exec fun _ _ => false) (fun _ _ _ => True)
        (csilkMigrationApply oneMigration id) (.begin ⟨migrated, none⟩) (.ret r) s ∧
      migrated.recorded = [1] ∧ s.ran = [1] := by
  constructor
  · exact ⟨_, _, reaches_callWith failingCommit oneMigration ⟨.empty, none⟩, by decide +kernel,
      by decide +kernel, by decide +kernel, by decide +kernel⟩
  · exact ⟨_, _, reaches_callWith failingSelect oneMigration ⟨migrated, none⟩, by decide +kernel,
      by decide +kernel⟩

end Csilk.Migration
