import Csilk.Migration.Steps

namespace Csilk.Migration
open Csilk.Lib Stmts Function List Option

/-- `initialised` records that some call has made the lock row. -/
structure World where
  store : Db
  tx : Nat → Option (Tx Bytes Write)
  prog : Nat → Option (Program Result)
  holds : Nat → Bool
  initialised : Bool

inductive Act
  | call (i : Nat) (e : Engine) (seqs : Nat → Nat)
  | stmt (i : Nat) (o : Outcome)
  | ret (i : Nat)

def holdsAfter (holds : Bool) (t : Stmt) (a : Answer) : Bool :=
  match t with
  | .lock _ => holds || (a.rc = 0 && a.count = 1)
  | .unlock _ => false
  | _ => holds

def initialises (t : Stmt) (a : Answer) : Bool :=
  match t with
  | .insertLock => a.rc = 0
  | _ => false

def World.after (w : World) (i : Nat) (t : Stmt) (k : Answer → Program Result) (a : Answer)
    (c : Connection) : World where
  store := c.store
  tx := update w.tx i c.tx
  prog := update w.prog i (some (k a))
  holds := update w.holds i (holdsAfter (w.holds i) t a)
  initialised := w.initialised || initialises t a

def World.connection (w : World) (i : Nat) : Connection := ⟨w.store, w.tx i⟩

def worldStep (tables : List Int → Bytes → Bool) (w : World) : Act → Option World
  | .call i e seqs =>
    match w.prog i with
    | none => some { w with prog := update w.prog i (some (csilkMigrationApply e seqs)) }
    | some _ => none
  | .stmt i o =>
    match w.prog i with
    | some (.stmt t k) =>
      let (a, c) := execute tables (w.connection i) t o
      some (w.after i t k a c)
    | _ => none
  | .ret i =>
    match w.prog i with
    | some (.ret _) => some { w with prog := update w.prog i none }
    | _ => none

def World.start : World := ⟨.empty, fun _ => none, fun _ => none, fun _ => false, false⟩

def world (tables : List Int → Bytes → Bool) : System World Act where
  init := (· = .start)
  step := worldStep tables

def Stmt.mayFail : Stmt → Bool
  | .script _ | .readFile _ => true
  | _ => false

def succeeds (tables : List Int → Bytes → Bool) (w : World) : Act → Bool
  | .stmt i o =>
    match w.prog i with
    | some (.stmt t _) => t.mayFail || (execute tables (w.connection i) t o).1.rc = 0
    | _ => true
  | _ => true

def Stage.inSection : Stage → Bool
  | .out | .ready | .ended => false
  | _ => true

def LockState (db : Db) (initialised locked : Bool) : Prop :=
  if initialised then
    db.lock = some [if locked then ⟨1, true, engineName⟩ else ⟨1, false, []⟩]
  else db.lock.getD [] = [] ∧ locked = false

/-- No script is committed twice, and each committed one is recorded. -/
structure Logged (db : Db) : Prop where
  nodup : db.effects.Nodup
  recorded : ∀ v ∈ db.effects, v ∈ db.recorded

structure Running (store : Db) (tx : Option (Tx Bytes Write)) (holds initialised : Bool)
    (e : Engine) (p : Program Result) (g : Phase) : Prop where
  keeps : Keeps e (Final e) p g
  tx : TxInv g.stage tx
  holds : holds = g.stage.inSection
  initialised : g.stage ≠ .out → initialised = true
  missing : g.stage.Missing store

structure Inv (w : World) : Prop where
  running : ∀ i p, w.prog i = some p →
    ∃ e g, Running w.store (w.tx i) (w.holds i) w.initialised e p g
  idle : ∀ i, w.prog i = none → w.tx i = none ∧ w.holds i = false
  lock : ∃ holder : Option Nat, LockState w.store w.initialised holder.isSome ∧
    ∀ i, w.holds i = true ↔ holder = some i
  logged : Logged w.store

theorem Holding.inSection (h : Holding stage) : stage.inSection = true := by
  cases h with
  | held | absent => rfl

theorem Undoable.inSection (h : Undoable stage) : stage.inSection = true := by
  cases h with
  | began | ran => rfl

theorem holdsAfter_eq (h : Allowed e g t) (a : Answer) :
    holdsAfter g.stage.inSection t a = (g.next t a).stage.inSection := by
  cases h with
  | lock =>
    dsimp only [Phase.next]
    by_cases hgot : a.rc = 0 ∧ a.count = 1
    · simp [holdsAfter, hgot, Stage.inSection]
    · rw [if_neg hgot]
      simpa [holdsAfter, Stage.inSection] using hgot
  | selectVersion hholding =>
    rw [hholding.inSection]
    dsimp only [Phase.next]
    split <;> rfl
  | undo hundo =>
    rw [hundo.inSection]
    dsimp only [Phase.next]
    split <;> rfl
  | insertLock | baseline | begin | script | record | commit =>
    dsimp only [Phase.next]
    split <;> rfl
  | createLock | tableExists | createMigrations | selectRows | readFile | inTransaction | release => rfl

theorem initialises_of_next (h : Allowed e g t) (hout : g.stage = .out)
    (hnext : (g.next t a).stage ≠ .out) : initialises t a = true := by
  obtain ⟨stage, known, ran⟩ := g
  cases hout
  cases h with
  | createLock => exact absurd rfl hnext
  | insertLock =>
    dsimp only [Phase.next] at hnext
    split at hnext
    case isTrue hrc => exact decide_eq_true hrc
    case isFalse => exact absurd rfl hnext
  | selectVersion h | undo h => cases h
  | release h => rcases h with ⟨⟨⟩⟩

theorem LockState.createLock (h : LockState db initialised locked) :
    LockState (db.apply .createLock) initialised locked := by
  cases initialised with
  | false => exact h
  | true =>
    show some (db.lock.getD []) = _
    rw [h]
    rfl

theorem LockState.insertLock (h : LockState db initialised locked) (hlock : db.lock = some rows) :
    LockState (db.apply .insertLock) true locked := by
  show db.lock.map insertLockRow = _
  cases initialised with
  | false =>
    obtain ⟨hnil, rfl⟩ := h
    rw [hlock, getD_some] at hnil
    rw [hlock, hnil]
    rfl
  | true =>
    rw [h]
    cases locked with
    | false | true => rfl

theorem LockState.free (h : LockState db true locked) (hlock : db.lock = some rows) :
    rows.countP LockRow.free = 1 ↔ locked = false := by
  have h : db.lock = _ := h
  rw [hlock] at h
  cases h
  cases locked with
  | false | true => simp [LockRow.free]

theorem LockState.lock (h : LockState db true locked) :
    LockState (db.apply (.lock engineName)) true true := by
  show db.lock.map _ = _
  rw [h]
  cases locked with
  | false | true => rfl

theorem LockState.unlock (h : LockState db true true) :
    LockState (db.apply (.unlock engineName)) true false := by
  show db.lock.map _ = _
  rw [h]
  rfl

theorem initialises_of_same (hsame : a.rc ≠ 0 ∨ t.asks = true) : initialises t a = false := by
  cases t with
  | insertLock =>
    rcases hsame with hfail | hasks
    · exact decide_eq_false hfail
    · cases hasks
  | _ => rfl

/-- What a statement does to the lock, whose holder is `holder` before. -/
theorem Moved.holder {holder : Option Nat} (hm : Moved e g c t a g' c') (hrc : t.mayFail = true ∨ a.rc = 0)
    (hstuck : g.stage ≠ .stuck) (hinit : g.stage ≠ .out → initialised = true)
    (hstate : LockState c.store initialised holder.isSome)
    (hself : g.stage.inSection = true ↔ holder = some i) :
    ∃ holder', LockState c'.store (initialised || initialises t a) holder'.isSome ∧
      (g'.stage.inSection = true ↔ holder' = some i) ∧
      ∀ j, j ≠ i → (holder = some j ↔ holder' = some j) := by
  have hkeep (hstate : LockState c'.store initialised holder.isSome)
      (hnot : initialises t a = false) (hsame : g'.stage.inSection = g.stage.inSection) :
      ∃ holder', LockState c'.store (initialised || initialises t a) holder'.isSome ∧
        (g'.stage.inSection = true ↔ holder' = some i) ∧
        ∀ j, j ≠ i → (holder = some j ↔ holder' = some j) := by
    refine ⟨holder, ?_, ?_, fun _ _ => .rfl⟩
    · rw [hnot, Bool.or_false]
      exact hstate
    · rw [hsame]
      exact hself
  cases hm with
  | same hsame => exact hkeep hstate (initialises_of_same hsame) rfl
  | createLock => exact hkeep hstate.createLock rfl rfl
  | insertLock hlock =>
    have hmade : initialises .insertLock a = true :=
      decide_eq_true (hrc.resolve_left (by rintro ⟨⟩))
    refine ⟨holder, ?_, hself, fun _ _ => .rfl⟩
    rw [hmade, Bool.or_true]
    exact hstate.insertLock hlock
  | lock hlock hcount =>
    cases hinit (by simp)
    cases isNone_iff_eq_none.1 (isSome_eq_false_iff.1 ((hstate.free hlock).1 hcount))
    refine ⟨some i, hstate.lock, ⟨fun _ => rfl, fun _ => rfl⟩, fun j hj => ?_⟩
    simp [hj.symm]
  | busy hlock hcount =>
    cases hinit (by simp)
    have hlocked : holder.isSome = true := by
      by_contra hfree
      exact hcount ((hstate.free hlock).2 (Bool.not_eq_true _ ▸ hfree))
    refine ⟨holder, ?_, hself, fun _ _ => .rfl⟩
    rw [hlocked]
    exact hstate.lock
  | release hholding =>
    cases hinit (by cases hholding <;> simp)
    cases hself.1 hholding.inSection
    refine ⟨none, hstate.unlock, (by simp [Stage.inSection]), fun j hj => ?_⟩
    simp [hj.symm]
  | found hholding | absent hholding => exact hkeep hstate rfl hholding.inSection.symm
  | undo hundo => exact hkeep hstate rfl hundo.inSection.symm
  | createMigrations | baseline | begin | script | scriptFailed | record | commit =>
    exact hkeep hstate rfl rfl
  | stuck _ ht hfail =>
    rcases ht with rfl | rfl
    · exact absurd (hrc.resolve_left (by rintro ⟨⟩)) hfail
    · exact absurd (hrc.resolve_left (by rintro ⟨⟩)) hfail
  | releaseFailed _ hfail => exact absurd (hrc.resolve_left (by rintro ⟨⟩)) hfail
  | releaseStuck => exact absurd rfl hstuck

theorem Logged.record {db : Db} {row : Row} (h : Logged db) (hsome : db.migrations.isSome = true)
    (hnew : row.version ∉ db.recorded) :
    Logged (db.apply (.record row)) ∧ Logged ((db.apply (.script row.version)).apply (.record row)) := by
  have hsome' : (db.apply (.script row.version)).migrations.isSome = true := hsome
  have hmem : ∀ v ∈ db.effects, v ∈ db.recorded ++ [row.version] :=
    fun v hv => mem_append_left _ (h.recorded v hv)
  refine ⟨⟨h.nodup, ?_⟩, ?_, ?_⟩
  · rw [recorded_record hsome hnew]
    exact hmem
  · apply nodup_append.2 ⟨h.nodup, nodup_singleton _, _⟩
    intro v hv u hu heq
    rw [heq, mem_singleton.1 hu] at hv
    exact hnew (h.recorded _ hv)
  · rw [recorded_record hsome' hnew]
    exact forall_mem_append.2 ⟨hmem, fun v hv => mem_append_right _ hv⟩

theorem Moved.logged (hm : Moved e g c t a g' c') (hmissing : g.stage.Missing c.store)
    (h : Logged c.store) : Logged c'.store := by
  cases hm with
  | baseline _ hrows hnew => exact (h.record (isSome_iff_exists.2 ⟨_, hrows⟩) hnew).1
  | commit hv =>
    subst hv
    exact (h.record hmissing.2 hmissing.1).2
  | _ => exact { h with }

/-- Outside of the section a call does not touch the table of the migrations. -/
theorem Moved.outside (hm : Moved e g c t a g' c') :
    g.stage.inSection = true ∨ c'.store.migrations = c.store.migrations := by
  cases hm with
  | createMigrations | baseline | commit => exact .inl rfl
  | _ => exact .inr rfl

theorem missing_of_outside (h : Stage.inSection stage = false) : stage.Missing db := by
  cases stage with
  | out | ready | ended => trivial
  | held | absent | began | ran | wrote | stuck => cases h

theorem Stage.Missing.frame (h : Stage.Missing db stage) (heq : db'.migrations = db.migrations) :
    stage.Missing db' := by
  unfold Stage.Missing Db.recorded at *
  rw [heq]
  exact h

theorem Inv.after (h : Inv w) (hi : w.prog i = some (.stmt t k))
    (hr : Running w.store (w.tx i) (w.holds i) w.initialised e (.stmt t k) g) (ha : truthful g t a)
    (hm : Moved e g (w.connection i) t a (g.next t a) c) (hrc : t.mayFail = true ∨ a.rc = 0) :
    Inv (w.after i t k a c) := by
  have hallowed := hr.keeps.1
  have hholds : holdsAfter (w.holds i) t a = (g.next t a).stage.inSection := by
    rw [hr.holds, holdsAfter_eq hallowed]
  obtain ⟨holder, hstate, hiff⟩ := h.lock
  have hself := hr.holds ▸ hiff i
  constructor
  · intro j p hp
    rcases update_cases (· = some p) hp with ⟨rfl, heq⟩ | ⟨hj, hp⟩
    · cases heq
      refine ⟨e, g.next t a, ?_⟩
      show Running c.store (update w.tx j c.tx j) (update w.holds j _ j)
        (w.initialised || initialises t a) _ _ _
      rw [update_self, update_self]
      refine ⟨hr.keeps.2 a ha, hr.tx.moved hm ?_, hholds, ?_, hm.missing hr.missing ?_⟩
      · rintro (rfl | rfl | rfl) <;> exact hrc.resolve_left (by rintro ⟨⟩)
      · intro hne
        by_cases hout : g.stage = .out
        · rw [initialises_of_next hallowed hout hne, Bool.or_true]
        · rw [hr.initialised hout, Bool.true_or]
      · rintro v rfl hfail
        exact absurd (hrc.resolve_left (by rintro ⟨⟩)) hfail
    · obtain ⟨e', g', hr'⟩ := h.running j p hp
      refine ⟨e', g', ?_⟩
      show Running c.store (update w.tx i c.tx j) (update w.holds i _ j)
        (w.initialised || initialises t a) _ _ _
      rw [update_of_ne hj, update_of_ne hj]
      refine { hr' with initialised := fun hne => ?_, missing := ?_ }
      · rw [hr'.initialised hne, Bool.true_or]
      · rcases hm.outside with hin | hsame
        · apply missing_of_outside
          rw [← hr'.holds]
          apply Bool.eq_false_of_not_eq_true
          intro hheld
          exact hj (some.inj (((hiff j).1 hheld).symm.trans (hself.1 hin)))
        · exact hr'.missing.frame hsame
  · intro j hp
    rcases update_cases (· = none) hp with ⟨-, hp⟩ | ⟨hj, hp⟩
    · cases hp
    · show update w.tx i c.tx j = none ∧ update w.holds i _ j = false
      rw [update_of_ne hj, update_of_ne hj]
      exact h.idle j hp
  · obtain ⟨holder', hstate', hself', hothers⟩ :=
      hm.holder hrc hr.tx.notStuck hr.initialised hstate hself
    refine ⟨holder', hstate', ?_⟩
    apply (forall_update_iff w.holds fun j b => b = true ↔ holder' = some j).2
    rw [hholds]
    exact ⟨hself', fun j hj => (hiff j).trans (hothers j hj)⟩
  · exact hm.logged hr.missing h.logged

theorem Inv.start : Inv .start := by
  constructor
  · rintro _ _ ⟨⟩
  · exact fun i _ => ⟨rfl, rfl⟩
  · exact ⟨none, ⟨rfl, rfl⟩, fun i => ⟨(by rintro ⟨⟩), (by rintro ⟨⟩)⟩⟩
  · exact ⟨nodup_nil, (by rintro _ ⟨⟩)⟩

theorem Inv.call (h : Inv w) (hi : w.prog i = none) (e : Engine) (seqs : Nat → Nat) :
    Inv { w with prog := update w.prog i (some (csilkMigrationApply e seqs)) } := by
  refine { h with running := ?_, idle := ?_ }
  · intro j p hp
    rcases update_cases (· = some p) hp with ⟨rfl, heq⟩ | ⟨-, hp⟩
    · cases heq
      obtain ⟨htx, hholds⟩ := h.idle j hi
      refine ⟨e, .first, csilkMigrationApply_keeps e seqs, ?_, hholds, fun hc => absurd rfl hc,
        trivial⟩
      rw [htx]
      exact ⟨.out, (by rintro ⟨⟩), fun _ => rfl⟩
    · exact h.running j p hp
  · intro j hj
    rcases update_cases (· = none) hj with ⟨-, hj⟩ | ⟨-, hj⟩
    · cases hj
    · exact h.idle j hj

theorem Final.stage (h : Final e r g) : g.stage = .out ∨ g.stage = .ready ∨ g.stage = .ended := by
  rcases h with ⟨_, hout | hready⟩ | ⟨hended, _⟩
  · exact .inl hout
  · exact .inr (.inl hready)
  · exact .inr (.inr hended)

theorem TxInv.final (h : TxInv g.stage tx) (hfinal : Final e r g) : tx = none := by
  have hshaped := h.shaped
  rcases hfinal.stage with hstage | hstage | hstage
  · rw [hstage] at hshaped
    cases hshaped
    rfl
  · rw [hstage] at hshaped
    cases hshaped
    rfl
  · exact h.closed hstage

theorem Final.outside (h : Final e r g) : g.stage.inSection = false := by
  rcases h.stage with hstage | hstage | hstage <;> rw [hstage] <;> rfl

theorem Inv.ret (h : Inv w) (hi : w.prog i = some (.ret r)) :
    Inv { w with prog := update w.prog i none } := by
  refine { h with running := ?_, idle := ?_ }
  · intro j p hp
    rcases update_cases (· = some p) hp with ⟨-, hp⟩ | ⟨-, hp⟩
    · cases hp
    · exact h.running j p hp
  · intro j hj
    rcases update_cases (· = none) hj with ⟨rfl, -⟩ | ⟨-, hj⟩
    · obtain ⟨e, g, hr⟩ := h.running j _ hi
      exact ⟨hr.tx.final hr.keeps, hr.holds.trans (Final.outside hr.keeps)⟩
    · exact h.idle j hj

theorem Inv.step (h : Inv w) (hok : succeeds tables w a = true)
    (hs : worldStep tables w a = some w') : Inv w' := by
  cases a with
  | call i e seqs =>
    rw [worldStep] at hs
    split at hs
    case h_1 hi =>
      cases hs
      exact h.call hi e seqs
    case h_2 => cases hs
  | stmt i o =>
    rw [worldStep] at hs
    split at hs
    case h_1 t k hi =>
      rw [succeeds, hi] at hok
      cases hs
      obtain ⟨e, g, hr⟩ := h.running i _ hi
      obtain ⟨ha, hm⟩ := moved_of_execute tables (c := w.connection i) o hr.tx.shaped hr.keeps.1
      exact h.after hi hr ha hm ((Bool.or_eq_true_iff.1 hok).imp id of_decide_eq_true)
    case h_2 => cases hs
  | ret i =>
    rw [worldStep] at hs
    split at hs
    case h_1 hi =>
      cases hs
      exact h.ret hi
    case h_2 => cases hs

/-- At most one process is in the section, the lock is free outside of it, and no script is
committed twice. -/
theorem migration_exclusive (tables : List Int → Bytes → Bool) (w : World)
    (h : (world tables).Reachable (fun w a => succeeds tables w a = true) w) :
    (∀ i j, w.holds i = true → w.holds j = true → i = j) ∧
      (if w.initialised then ∃ row, w.store.lock = some [row] ∧ row.id = 1 ∧
          ((∀ i, w.holds i = false) → row.isLocked = false)
        else w.store.lock.getD [] = [] ∧ ∀ i, w.holds i = false) ∧
      w.store.effects.Nodup := by
  have hinv : Inv w := by
    apply h.invariant (P := Inv)
    · intro w hw
      cases hw
      exact .start
    · intro w a w' hw hok hs
      exact hw.step hok hs
  obtain ⟨holder, hlock, hiff⟩ := hinv.lock
  refine ⟨fun i j hi hj => some.inj (((hiff i).1 hi).symm.trans ((hiff j).1 hj)), ?_,
    hinv.logged.nodup⟩
  cases hinit : w.initialised with
  | false =>
    rw [hinit] at hlock
    obtain ⟨hnil, hfree⟩ := hlock
    refine ⟨hnil, fun i => ?_⟩
    apply Bool.eq_false_of_not_eq_true
    intro hheld
    cases (hiff i).1 hheld
    cases hfree
  | true =>
    rw [hinit] at hlock
    cases holder with
    | none => exact ⟨_, hlock, rfl, fun _ => rfl⟩
    | some i =>
      refine ⟨_, hlock, rfl, fun hfree => ?_⟩
      cases ((hiff i).2 rfl).symm.trans (hfree i)

theorem zeros_length : (List.replicate 32 (0 : UInt8)).length = 32 := length_replicate

def oneMigration : Engine where
  files := some [⟨ascii "V1__init.sql", some (ascii "CREATE TABLE t (id INTEGER);")⟩]
  baselineVersion := 0
  sentinelTable := []
  sha256 _ := ⟨List.replicate 32 0, zeros_length⟩

theorem migration_exclusive_two : ∃ w, (world fun _ _ => false).Reachable
    (fun w a => succeeds (fun _ _ => false) w a = true) w ∧ w.initialised = true ∧
    w.holds 0 = true ∧ (∀ i j, w.holds i = true → w.holds j = true → i = j) ∧
      (if w.initialised then ∃ row, w.store.lock = some [row] ∧ row.id = 1 ∧
          ((∀ i, w.holds i = false) → row.isLocked = false)
        else w.store.lock.getD [] = [] ∧ ∀ i, w.holds i = false) ∧
      w.store.effects.Nodup := by
  have hrun := (world fun _ _ => false).run
    (p := fun w a => succeeds (fun _ _ => false) w a = true) .start
    [.call 0 oneMigration id, .call 1 oneMigration id, .stmt 0 .ok, .stmt 1 .ok, .stmt 0 .ok,
      .stmt 1 .ok, .stmt 0 .ok, .stmt 1 .ok] rfl rfl
  exact ⟨_, hrun, rfl, rfl, migration_exclusive (fun _ _ => false) _ hrun⟩

end Csilk.Migration
