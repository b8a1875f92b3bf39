import Csilk.Migration.Clean

namespace Csilk.Migration
open Csilk.Lib Stmts Option
open List hiding count

/-- Every row is that of a file, and no file below a row is missing. -/
structure Valid (items : List Item) (db : Db) : Prop where
  rows : ∀ row ∈ db.migrations.getD [], ∃ item ∈ items,
    item.version = row.version ∧ item.checksum = row.checksum
  closed : ∀ item ∈ items, ∀ v ∈ db.recorded, item.version < v → item.version ∈ db.recorded

abbrev Goes (tables : List Int → Bytes → Bool) (e : Engine) (seqs : Nat → Nat) (c : Connection)
    (p : Program Result) (c' : Connection) : Prop :=
  Reaches (execute tables) (fun _ _ _ => True) (csilkMigrationApply e seqs) c p c'

inductive Later (tables : List Int → Bytes → Bool) (db : Db) : Db → Prop
  | refl : Later tables db db
  | call (h : Later tables db db') (hgo : Goes tables e seqs ⟨db', none⟩ p c) :
      Later tables db c.store

/-- Some later call succeeds and leaves every migration recorded. -/
def Recovers (tables : List Int → Bytes → Bool) (e : Engine) (items : List Item) (db : Db) : Prop :=
  ∃ db' seqs r c, Later tables db db' ∧ Goes tables e seqs ⟨db', none⟩ (.ret r) c ∧ r.rc = 0 ∧
    ∀ item ∈ items, item.version ∈ c.store.recorded

def Db.Locked (db : Db) : Prop :=
  ∃ rows, db.lock = some rows ∧ (∃ r ∈ rows, r.id = 1) ∧ ∀ r ∈ rows, r.id = 1 → r.isLocked = true

structure Shut (g : Phase) (c : Connection) : Prop where
  stage : g.stage = .out ∨ g.stage = .ready
  tx : c.tx = none
  locked : c.store.Locked

theorem locked_none_free {rows : List LockRow} (h : ∀ r ∈ rows, r.id = 1 → r.isLocked = true) :
    ∀ r ∈ rows, LockRow.free r = false := by
  intro r hr
  by_contra hfree
  rw [Bool.not_eq_false, LockRow.free, Bool.and_eq_true, decide_eq_true_iff] at hfree
  rw [h r hr hfree.1] at hfree
  cases hfree.2

theorem Shut.step (tables : List Int → Bytes → Bool) (h : Shut g c) (ht : Allowed e g t)
    (o : Outcome) : truthful g t (execute tables c t o).1 ∧
      Shut (g.next t (execute tables c t o).1) (execute tables c t o).2 := by
  obtain ⟨rows, hlock, hrow, hlocked⟩ := h.locked
  have hshaped : Shaped g.stage c.tx := by
    rw [h.tx]
    rcases h.stage with hs | hs
    · rw [hs]
      exact .out
    · rw [hs]
      exact .ready
  obtain ⟨ha, hm⟩ := moved_of_execute tables o hshaped ht
  refine ⟨ha, ?_⟩
  have hnone := locked_none_free hlocked
  have hstage := h.stage
  generalize g.next t (execute tables c t o).1 = g' at hm ⊢
  generalize execute tables c t o = r at hm ⊢
  obtain ⟨a, c'⟩ := r
  cases hm with
  | same => exact h
  | createLock =>
    refine ⟨.inl rfl, rfl, rows, ?_, hrow, hlocked⟩
    show some (Option.getD _ []) = _
    rw [hlock]
    rfl
  | insertLock =>
    refine ⟨.inr rfl, rfl, rows, ?_, hrow, hlocked⟩
    obtain ⟨r, hr, hid⟩ := hrow
    show Option.map insertLockRow _ = _
    rw [hlock, map_some, insertLockRow, if_pos]
    exact any_eq_true.2 ⟨r, hr, decide_eq_true hid⟩
  | lock hlock' hcount =>
    rw [hlock] at hlock'
    cases hlock'
    obtain ⟨r, hr, hfree⟩ := countP_pos_iff.1 (hcount ▸ one_pos)
    rw [hnone r hr] at hfree
    cases hfree
  | busy =>
    refine ⟨.inr rfl, rfl, rows, ?_, hrow, hlocked⟩
    show Option.map _ _ = _
    rw [hlock, map_some]
    congr 1
    apply (map_congr_left _).trans (map_id rows)
    intro r hr
    rw [hnone r hr]
    rfl
  | createMigrations | baseline | begin | script | scriptFailed | record | commit | releaseStuck =>
    rcases hstage with hc | hc <;> cases hc
  | undo hundo => cases hundo <;> rcases hstage with hc | hc <;> cases hc
  | found hholding | absent hholding | release hholding =>
    cases hholding <;> rcases hstage with hc | hc <;> cases hc
  | stuck htx =>
    rw [h.tx] at htx
    cases htx
  | releaseFailed hrel =>
    rcases hstage with rfl | rfl
    · cases hrel with
      | holding h => cases h
    · cases hrel with
      | holding h => cases h

theorem Db.Keyed.locked (h : Db.Keyed db) (hnot : ¬ db.Unlocked) : db.Locked := by
  rw [Db.Unlocked] at hnot
  push Not at hnot
  obtain ⟨r, hr, hid, hlocked⟩ := hnot
  rw [Bool.ne_false_iff] at hlocked
  cases hlock : db.lock with
  | none =>
    rw [hlock] at hr
    cases hr
  | some rows =>
    rw [hlock] at hr
    rw [Db.Keyed, hlock] at h
    refine ⟨rows, hlock, ⟨r, hr, hid⟩, ?_⟩
    intro x hx hxid
    rw [inj_on_of_nodup_map h hx hr (hxid.trans hid.symm)]
    exact hlocked

theorem Goes.locked (hgo : Goes tables e seqs ⟨db, none⟩ p c) (h : db.Locked) :
    ∃ g, Keeps e (Final e) p g ∧ Shut g c :=
  hgo.follows (csilkMigrationApply_keeps e seqs) (⟨.inl rfl, rfl, h⟩ : Shut .first ⟨db, none⟩)
    (fun _ _ _ o hinv ht _ => hinv.step tables ht o)

theorem Later.locked (h : Later tables db db') (hlocked : db.Locked) : db'.Locked := by
  induction h with
  | refl => exact hlocked
  | call _ hgo ih =>
    obtain ⟨g, _, hshut⟩ := hgo.locked ih
    exact hshut.locked

theorem not_recovers_of_locked (h : Db.Locked db) : ¬ Recovers tables e items db := by
  intro hrec
  obtain ⟨db', seqs, r, c, hlater, hgo, hrc, _⟩ := hrec
  obtain ⟨g, hfinal, hshut⟩ := hgo.locked (hlater.locked h)
  rcases hfinal with ⟨hne, _⟩ | ⟨hended, _⟩
  · exact hne hrc
  · rcases hshut.stage with hs | hs
    · cases hs.symm.trans hended
    · cases hs.symm.trans hended

theorem Valid.frame (h : Valid items db) (hdb : db'.migrations.getD [] = db.migrations.getD []) :
    Valid items db' := by
  have hrecorded : db'.recorded = db.recorded := by rw [Db.recorded, hdb, Db.recorded]
  constructor
  · rw [hdb]
    exact h.rows
  · rw [hrecorded]
    exact h.closed

theorem Valid.record {db : Db} {row : Row} (h : Valid items db) (hitems : csilkMigrationDiscover e = some items)
    (horder : InOrder e known row) (hknown : ∀ v ∈ known, v ∈ db.recorded)
    (hsome : db.migrations.isSome = true) (hnew : row.version ∉ db.recorded) :
    Valid items (db.apply (.record row)) := by
  obtain ⟨items', item, hitems', hitem, rfl, hbefore⟩ := horder
  rw [hitems] at hitems'
  cases hitems'
  have hrecorded := recorded_record hsome hnew
  constructor
  · intro r hr
    obtain ⟨rows, hrows⟩ := isSome_iff_exists.1 hsome
    rw [Db.apply, hrows, map_some, insertRow] at hr
    have hr : r ∈ rows ∨ r = item.row := by
      split at hr
      · exact .inl hr
      · exact (mem_append.1 hr).imp id mem_singleton.1
    rcases hr with hr | rfl
    · apply h.rows
      rw [hrows]
      exact hr
    · exact ⟨item, hitem, rfl, rfl⟩
  · rw [hrecorded]
    intro i hi v hv hlt
    apply mem_append_left
    rcases mem_append.1 hv with hv | hv
    · exact h.closed i hi v hv hlt
    · rw [mem_singleton.1 hv] at hlt
      exact hknown _ (hbefore i hi hlt)

theorem Valid.moved (h : Valid items c.store) (hitems : csilkMigrationDiscover e = some items)
    (hkept : Kept e g c) (hm : Moved e g c t a g' c') : Valid items c'.store := by
  cases hm with
  | baseline horder hrows hnew =>
    exact h.record hitems horder hkept.known (isSome_iff_exists.2 ⟨_, hrows⟩) hnew
  | commit hv =>
    subst hv
    obtain ⟨horder, hnew, hsome⟩ := hkept.writes _ _ rfl
    exact Valid.record (h.frame rfl) hitems horder hkept.known hsome hnew
  | _ => exact h.frame rfl

theorem kept_of_goes (hitems : csilkMigrationDiscover e = some items)
    (hgo : Goes tables e seqs c p c') (htx : c.tx = none) (hkeyed : c.store.Keyed)
    (hvalid : Valid items c.store) :
    ∃ g, Keeps e (Final e) p g ∧ Kept e g c' ∧ Valid items c'.store :=
  hgo.follows (I := fun g c => Kept e g c ∧ Valid items c.store) (csilkMigrationApply_keeps e seqs)
    ⟨.start htx hkeyed, hvalid⟩ (fun g c t o hinv ht _ => by
      obtain ⟨ha, hm⟩ := moved_of_execute tables o hinv.1.shaped ht
      exact ⟨ha, hinv.1.moved hm, hinv.2.moved hitems hinv.1 hm⟩)

abbrev Ends (tables : List Int → Bytes → Bool) (p : Program ρ) (c : Connection) (r : ρ)
    (c' : Connection) : Prop :=
  Reaches (execute tables) (fun _ _ _ => True) p c (.ret r) c'

theorem Ends.bind (hp : Ends tables p c r c') (hf : Ends tables (f r) c' r' c'') :
    Ends tables (p.bind f) c r' c'' :=
  (Reaches.bind hp f).trans hf

theorem Ends.issue {f : Answer → Program ρ} (h : perform tables c t = some (count, rows, c'))
    (hf : Ends tables (f (.done count rows)) c' r c'') :
    Ends tables ((Stmts.issue t).bind f) c r c'' := by
  have hexec : execute tables c t .ok = (.done count rows, c') := by rw [execute, h]
  have hstep : Reaches (execute tables) (fun _ _ _ => True) ((Stmts.issue t).bind f) c
      (f (execute tables c t .ok).1) (execute tables c t .ok).2 := .step .refl trivial
  rw [hexec] at hstep
  exact hstep.trans hf

theorem countP_free {rows : List LockRow} (hkeyed : (rows.map LockRow.id).Nodup) (hrow : ∃ r ∈ rows, r.id = 1)
    (hunlocked : ∀ r ∈ rows, r.id = 1 → r.isLocked = false) : rows.countP LockRow.free = 1 := by
  have hsame : rows.countP LockRow.free = rows.countP (fun r => r.id = 1) := by
    apply countP_congr
    intro r hr
    rw [LockRow.free, Bool.and_eq_true, Bool.not_eq_true', and_iff_left_iff_imp]
    intro hid
    exact hunlocked r hr (of_decide_eq_true hid)
  have hcount : rows.countP (fun r => r.id = 1) = (rows.map LockRow.id).count 1 := by
    rw [List.count, List.countP_map]
    apply countP_congr
    intro r _
    simp
  obtain ⟨r, hr, hid⟩ := hrow
  rw [hsame, hcount]
  exact count_eq_one_of_mem hkeyed (hid ▸ mem_map_of_mem hr)

theorem insertLockRow_mem (rows : List LockRow) : ∃ r ∈ insertLockRow rows, r.id = 1 := by
  rw [insertLockRow]
  split
  case isTrue hany =>
    obtain ⟨r, hr, hid⟩ := any_eq_true.1 hany
    exact ⟨r, hr, of_decide_eq_true hid⟩
  case isFalse => exact ⟨_, mem_append_right _ (mem_singleton_self _), rfl⟩

theorem insertLockRow_unlocked {rows : List LockRow} (h : ∀ r ∈ rows, r.id = 1 → r.isLocked = false) :
    ∀ r ∈ insertLockRow rows, r.id = 1 → r.isLocked = false := by
  intro r hr hid
  rw [insertLockRow] at hr
  split at hr
  · exact h r hr hid
  · rcases mem_append.1 hr with hr | hr
    · exact h r hr hid
    · rw [mem_singleton.1 hr]

section

variable (tables : List Int → Bytes → Bool)

theorem lockAcquire_ends (hkeyed : Db.Keyed db)
    (hunlocked : Db.Unlocked db) :
    ∃ db', Ends tables (csilkMigrationLockAcquire engineName 10) ⟨db, none⟩ 0 ⟨db', none⟩ := by
  have hkeyed : (db.apply .createLock).Keyed := hkeyed
  have hids := hkeyed.insertLock
  have hcount : (insertLockRow (db.lock.getD [])).countP LockRow.free = 1 :=
    countP_free hids (insertLockRow_mem _) (insertLockRow_unlocked hunlocked)
  refine ⟨((db.apply .createLock).apply .insertLock).apply (.lock engineName), ?_⟩
  have hinit : Ends tables csilkMigrationLockInit ⟨db, none⟩ 0
      ⟨(db.apply .createLock).apply .insertLock, none⟩ := by
    apply Ends.issue rfl
    apply Ends.issue rfl
    exact .refl
  apply hinit.bind
  apply Ends.issue (t := .lock engineName) rfl
  rw [if_pos]
  · exact .refl
  · exact ⟨rfl, hcount⟩

theorem shouldBaseline_ends (e : Engine) (c : Connection) :
    ∃ b, Ends tables (shouldBaseline e) c b c := by
  unfold shouldBaseline
  split
  · split
    · exact ⟨_, Ends.issue rfl .refl⟩
    · exact ⟨true, .refl⟩
  · exact ⟨false, .refl⟩

theorem perform_record {c : Connection} {row : Row} (hsome : (view c).migrations.isSome = true)
    (hnew : row.version ∉ (view c).recorded) :
    perform tables c (.record row) = some (1, [], c.write Db.apply (.record row)) := by
  obtain ⟨rows, hrows⟩ := isSome_iff_exists.1 hsome
  rw [perform, hrows, bind_some, if_neg (mt (any_recorded hrows).1 hnew)]

theorem isSome_record {db : Db} (hsome : db.migrations.isSome = true) (row : Row) :
    (db.apply (.record row)).migrations.isSome = true := by
  rw [Db.apply, isSome_map]
  exact hsome

theorem baselineItems_ends {rest : List Item} (hsome : db.migrations.isSome = true)
    (hsorted : rest.Pairwise fun a b => a.version < b.version)
    (hlater : ∀ v ∈ db.recorded, ∀ i ∈ rest, v < i.version) :
    ∃ db', Ends tables (baselineItems e rest) ⟨db, none⟩ 0 ⟨db', none⟩ ∧
      db'.migrations.isSome = true := by
  induction rest generalizing db with
  | nil => exact ⟨db, .refl, hsome⟩
  | cons item rest ih =>
    obtain ⟨hfirst, hrest⟩ := pairwise_cons.1 hsorted
    have hnext : ∀ v ∈ db.recorded, ∀ i ∈ rest, v < i.version :=
      fun v hv i hi => hlater v hv i (mem_cons_of_mem _ hi)
    unfold baselineItems
    split
    · have hnew : item.row.version ∉ db.recorded :=
        fun hin => lt_irrefl _ (hlater _ hin item mem_cons_self)
      obtain ⟨db', hends, hsome'⟩ := ih (isSome_record hsome item.row) hrest (by
        rw [recorded_record hsome hnew]
        exact forall_mem_append.2 ⟨hnext, forall_mem_singleton.2 hfirst⟩)
      exact ⟨db', Ends.issue (perform_record tables hsome hnew) hends, hsome'⟩
    · exact ih hsome hrest hnext

theorem tableExists_ends (db : Db) :
    Ends tables (tableExists .schemaMigrations) ⟨db, none⟩ db.migrations.isSome ⟨db, none⟩ := by
  have hcount : decide (0 < if db.migrations.isSome then 1 else 0) = db.migrations.isSome := by
    cases db.migrations <;> rfl
  have hends : Ends tables (tableExists .schemaMigrations) ⟨db, none⟩
      (decide (0 < if db.migrations.isSome then 1 else 0)) ⟨db, none⟩ := Ends.issue rfl .refl
  rwa [hcount] at hends

theorem ensure_ends (hitems : csilkMigrationDiscover e = some items) (db : Db) :
    ∃ db', Ends tables (ensureSchemaMigrationsAndBaseline e) ⟨db, none⟩ 0 ⟨db', none⟩ ∧
      db'.migrations.isSome = true := by
  have hexists := tableExists_ends tables db
  cases hmigrations : db.migrations with
  | some rows =>
    rw [hmigrations] at hexists
    exact ⟨db, hexists.bind .refl, by rw [hmigrations]; rfl⟩
  | none =>
    rw [hmigrations] at hexists
    obtain ⟨b, hb⟩ := shouldBaseline_ends tables e ⟨db, none⟩
    cases b with
    | false => exact ⟨_, hexists.bind (hb.bind (Ends.issue rfl .refl)), rfl⟩
    | true =>
      have hsome : (db.apply .createMigrations).migrations.isSome = true := rfl
      obtain ⟨db', hends, hrest⟩ := baselineItems_ends tables hsome (discover_sorted hitems) (by
        rw [Db.apply, hmigrations]
        rintro _ ⟨⟩)
      refine ⟨db', hexists.bind (hb.bind (Ends.issue rfl ?_)), hrest⟩
      rw [hitems]
      exact hends

structure Item.Proper (item : Item) : Prop where
  positive : 0 < item.version
  int : int32 item.version = item.version
  checksum : item.checksum ≠ []

theorem parse_proper (h : parseMigrationFilename filename = some (version, name)) :
    0 < version ∧ int32 version = version := by
  unfold parseMigrationFilename at h
  split at h
  · cases h
  · split at h
    · cases h
    · split at h
      · cases h
      · dsimp only at h
        split at h
        · cases h
        · split at h
          · cases h
          case isFalse hpos =>
            split at h
            · cases h
            · cases h
              exact ⟨lt_of_not_ge hpos, Int.bmod_bmod⟩

theorem checksum_ne_nil (e : Engine) (content : Bytes) : csilkMigrationChecksumContent e content ≠ [] := by
  intro hnil
  rw [csilkMigrationChecksumContent] at hnil
  generalize e.sha256 _ = md at hnil
  obtain ⟨md, hlen⟩ := md
  cases md with
  | nil => cases hlen
  | cons b bs => cases hnil

theorem readItems_proper (h : readItems e files = some items) : ∀ item ∈ items, item.Proper := by
  induction files generalizing items with
  | nil =>
    cases h
    simp
  | cons f files ih =>
    rw [readItems] at h
    split at h
    · exact ih h
    case h_2 version name hparse =>
      split at h
      · cases h
      case h_2 content _ =>
        obtain ⟨rest, hrest, rfl⟩ := map_eq_some_iff.1 h
        exact forall_mem_cons.2 ⟨⟨(parse_proper hparse).1, (parse_proper hparse).2,
          checksum_ne_nil e content⟩, ih hrest⟩

theorem discover_proper (h : csilkMigrationDiscover e = some items) : ∀ item ∈ items, item.Proper := by
  obtain ⟨found, hfound, hsome⟩ := bind_eq_some_iff.1 h
  obtain ⟨files, _, hread⟩ := bind_eq_some_iff.1 hfound
  dsimp only at hsome
  split at hsome
  · cases hsome
  · cases hsome
    intro item hi
    exact readItems_proper hread item ((mem_insertionSort _).1 hi)

theorem checkRows_valid (hitems : csilkMigrationDiscover e = some items) (max : Int)
    (hrows : ∀ row ∈ rows, ∃ item ∈ items, item.version = row.version ∧ item.checksum = row.checksum) :
    ∃ m, checkRows items rows max = (true, m) ∧ (m = max ∨ ∃ row ∈ rows, m = row.version) := by
  induction rows generalizing max with
  | nil => exact ⟨max, rfl, .inl rfl⟩
  | cons row rows ih =>
    obtain ⟨item, hitem, hversion, hchecksum⟩ := hrows row mem_cons_self
    have hproper := discover_proper hitems item hitem
    have hint : int32 row.version = item.version := by rw [← hversion, hproper.int]
    have hfind : items.find? (fun i => i.version = int32 row.version) = some item := by
      obtain ⟨before, after, heq⟩ := append_of_mem hitem
      refine find?_eq_some_iff_append.2 ⟨decide_eq_true hint.symm, before, after, heq, ?_⟩
      intro i hi
      rw [heq] at hitems
      have hlt := (pairwise_append.1 (discover_sorted hitems)).2.2 i hi item mem_cons_self
      rw [hint, Bool.not_eq_true', decide_eq_false_iff_not]
      exact ne_of_lt hlt
    obtain ⟨m, hm, hmax⟩ := ih (if max < row.version then int32 row.version else max)
      (fun r hr => hrows r (mem_cons_of_mem _ hr))
    refine ⟨m, ?_, ?_⟩
    · rw [checkRows, hfind]
      dsimp only
      rw [if_neg, hm]
      intro hc
      rcases hc with hc | hc
      · exact hproper.checksum (hchecksum.trans hc)
      · exact hc hchecksum
    · rcases hmax with rfl | ⟨r, hr, rfl⟩
      · split
        · exact .inr ⟨row, mem_cons_self, hint.trans hversion⟩
        · exact .inl rfl
      · exact .inr ⟨r, mem_cons_of_mem _ hr, rfl⟩

@[simp] theorem Answer.count_done : (Answer.done n rows).count = n := rfl

theorem perform_selectVersion {db : Db} {rows : List Row}
    (hrows : db.migrations = some rows) (v : Int) : perform tables ⟨db, none⟩ (.selectVersion v) =
      some (rows.countP fun r => r.version = v, [], ⟨db, none⟩) := by
  have hview : (view ⟨db, none⟩).migrations = some rows := hrows
  rw [perform, hview]
  rfl

theorem checkDisk_ends {disk : List Item} {max : Int} (hsome : db.migrations.isSome = true)
    (hclosed : ∀ item ∈ disk, item.version < max → item.version ∈ db.recorded) :
    Ends tables (checkDisk max disk) ⟨db, none⟩ 0 ⟨db, none⟩ := by
  obtain ⟨rows, hrows⟩ := isSome_iff_exists.1 hsome
  induction disk with
  | nil => exact .refl
  | cons item disk ih =>
    have hrest := ih fun i hi => hclosed i (mem_cons_of_mem _ hi)
    unfold checkDisk
    split
    case isTrue hlt =>
      have hfound := (mem_recorded hrows).1 (hclosed item mem_cons_self hlt)
      apply Ends.issue (perform_selectVersion tables hrows _)
      dsimp only
      rw [Answer.count_done, if_pos hfound]
      exact hrest
    case isFalse => exact hrest

theorem validate_ends (hitems : csilkMigrationDiscover e = some items) (hvalid : Valid items db)
    (hsome : db.migrations.isSome = true) :
    Ends tables (csilkMigrationValidate e) ⟨db, none⟩ 0 ⟨db, none⟩ := by
  have hexists := tableExists_ends tables db
  rw [hsome] at hexists
  obtain ⟨rows, hrows⟩ := isSome_iff_exists.1 hsome
  have hget : db.migrations.getD [] = rows := by rw [hrows, getD_some]
  have hview : (view ⟨db, none⟩).migrations = some rows := hrows
  have hmem {row : Row} : row ∈ rows.insertionSort (fun a b => a.version ≤ b.version) ↔ row ∈ rows :=
    mem_insertionSort _
  have hknown : ∀ row ∈ rows.insertionSort (fun a b => a.version ≤ b.version), ∃ item ∈ items,
      item.version = row.version ∧ item.checksum = row.checksum := by
    intro row hr
    apply hvalid.rows row
    rw [hget]
    exact hmem.1 hr
  obtain ⟨m, hm, hmax⟩ := checkRows_valid hitems 0 hknown
  apply hexists.bind
  rw [hitems]
  apply Ends.issue (by rw [perform, hview, map_some])
  dsimp only
  rw [hm]
  apply checkDisk_ends tables hsome
  intro item hi hlt
  rcases hmax with rfl | ⟨row, hr, rfl⟩
  · exact absurd hlt (not_lt_of_gt (discover_proper hitems item hi).positive)
  · apply hvalid.closed item hi row.version _ hlt
    rw [Db.recorded, hget]
    exact mem_map_of_mem (hmem.1 hr)

theorem applyItem_ends (hsome : db.migrations.isSome = true)
    (hnew : item.version ∉ db.recorded) (seq : Nat) :
    Ends tables (applyItem seq item) ⟨db, none⟩ true
      ⟨(db.apply (.script item.version)).apply (.record item.row), none⟩ := by
  have hrecord : perform tables ⟨db, some ⟨[.script item.version], []⟩⟩ (.record item.row) =
      some (1, [], ⟨db, some ⟨[.script item.version, .record item.row], []⟩⟩) :=
    perform_record tables hsome hnew
  apply Ends.issue rfl
  have hbegin : Ends tables (scopeBegin seq) ⟨db, none⟩ (0, none) ⟨db, some ⟨[], []⟩⟩ := by
    apply Ends.issue rfl
    apply Ends.issue rfl
    exact .refl
  apply hbegin.bind
  · apply Ends.issue rfl
    apply Ends.issue hrecord
    apply Ends.bind (r := 0)
    · apply Ends.issue rfl
      exact .refl
    · exact .refl

theorem release_ends (who : Bytes) (c : Connection) :
    ∃ rc c', Ends tables (csilkMigrationLockRelease who) c rc c' :=
  ⟨_, _, .step (o := .ok) .refl trivial⟩

theorem applyItems_ends (seqs : Nat → Nat)
    (hsome : db.migrations.isSome = true) (rest : List Item) (applied : Nat) :
    ∃ n c', Ends tables (applyItems seqs rest applied) ⟨db, none⟩ ⟨0, some n⟩ c' := by
  induction rest generalizing db applied with
  | nil =>
    obtain ⟨rc, c', hends⟩ := release_ends tables engineName ⟨db, none⟩
    exact ⟨applied, c', hends.bind .refl⟩
  | cons item rest ih =>
    obtain ⟨rows, hrows⟩ := isSome_iff_exists.1 hsome
    have hselect := perform_selectVersion tables hrows item.version
    by_cases hfound : item.version ∈ db.recorded
    · obtain ⟨n, c', hends⟩ := ih hsome applied
      refine ⟨n, c', Ends.issue hselect ?_⟩
      rw [Answer.count_done, if_pos ((mem_recorded hrows).1 hfound)]
      exact hends
    · have hsome' : (db.apply (.script item.version)).migrations.isSome = true := hsome
      obtain ⟨n, c', hends⟩ := ih (isSome_record hsome' item.row) (applied + 1)
      refine ⟨n, c', Ends.issue hselect ?_⟩
      rw [Answer.count_done, if_neg (fun hpos => hfound ((mem_recorded hrows).2 hpos))]
      exact (applyItem_ends tables hsome hfound _).bind hends

theorem recovers_of_unlocked (hitems : csilkMigrationDiscover e = some items)
    (hkeyed : Db.Keyed db) (hvalid : Valid items db) (hunlocked : db.Unlocked) :
    Recovers tables e items db := by
  obtain ⟨db₁, hacquire⟩ := lockAcquire_ends tables hkeyed hunlocked
  obtain ⟨db₂, hensure, hsome⟩ := ensure_ends tables hitems db₁
  have hgo : Goes tables e id ⟨db, none⟩ _ ⟨db₂, none⟩ :=
    (Reaches.bind hacquire _).trans (Reaches.bind hensure _)
  obtain ⟨-, -, -, hvalid₂⟩ := kept_of_goes hitems hgo rfl hkeyed hvalid
  have hvalidate := validate_ends tables hitems hvalid₂ hsome
  obtain ⟨n, c', happly⟩ := applyItems_ends tables id hsome items 0
  have hend : Goes tables e id ⟨db, none⟩ (.ret ⟨0, some n⟩) c' := by
    apply hgo.trans
    apply hvalidate.bind
    rw [hitems]
    exact happly
  obtain ⟨g, hfinal, hkept, -⟩ := kept_of_goes hitems hend rfl hkeyed hvalid
  obtain ⟨items', hitems', hall⟩ := hkept.final hfinal rfl
  cases hitems.symm.trans hitems'
  exact ⟨db, id, _, c', .refl, hend, rfl, hall⟩

end

/-- A later call makes up for one that dies exactly when it does not die with the lock. -/
theorem crash_recovers_iff (tables : List Int → Bytes → Bool)
    (hitems : csilkMigrationDiscover e = some items) (htx : c.tx = none) (hkeyed : c.store.Keyed)
    (hvalid : Valid items c.store) (hcrash : Goes tables e seqs c p c') :
    Recovers tables e items c'.store ↔ c'.store.Unlocked := by
  obtain ⟨g, -, hkept, hvalid'⟩ := kept_of_goes hitems hcrash htx hkeyed hvalid
  constructor
  · intro hrec
    by_contra hlocked
    exact not_recovers_of_locked (hkept.keyed.locked hlocked) hrec
  · intro hunlocked
    exact recovers_of_unlocked tables hitems hkept.keyed hvalid' hunlocked

def lockReady : Db := { Db.empty with lock := some [⟨1, false, []⟩] }

def lockTaken : Db := { Db.empty with lock := some [⟨1, true, engineName⟩] }

theorem goes_lockReady (e : Engine) : ∃ p, Goes (fun _ _ => false) e id ⟨.empty, none⟩
    (.stmt (.lock engineName) p) ⟨lockReady, none⟩ := by
  have hstart : Goes (fun _ _ => false) e id ⟨.empty, none⟩ (.stmt .createLock _) ⟨.empty, none⟩ :=
    .refl
  have htable : Goes (fun _ _ => false) e id ⟨.empty, none⟩ (.stmt .insertLock _) _ :=
    hstart.step (o := Outcome.ok) trivial
  exact ⟨_, htable.step (o := Outcome.ok) trivial⟩

theorem valid_empty (items : List Item) : Valid items .empty :=
  ⟨(by rintro _ ⟨⟩), (by rintro _ _ _ ⟨⟩)⟩

theorem crash_recovers_before_lock : ∃ items p, csilkMigrationDiscover oneMigration = some items ∧
    Goes (fun _ _ => false) oneMigration id ⟨.empty, none⟩ p ⟨lockReady, none⟩ ∧
    lockReady.Unlocked ∧ Recovers (fun _ _ => false) oneMigration items lockReady := by
  obtain ⟨items, hitems⟩ := isSome_iff_exists.1
    (show (csilkMigrationDiscover oneMigration).isSome = true by decide +kernel)
  obtain ⟨p, hgo⟩ := goes_lockReady oneMigration
  have hkeyed : Db.empty.Keyed := nodup_nil
  have hunlocked : lockReady.Unlocked := by
    intro r hr _
    rw [mem_singleton.1 hr]
  exact ⟨items, _, hitems, hgo, hunlocked,
    (crash_recovers_iff _ hitems rfl hkeyed (valid_empty items) hgo).2 hunlocked⟩

/-- The process dies right after taking the lock: no later call succeeds. -/
theorem crash_never_recovers : ∃ items p, csilkMigrationDiscover oneMigration = some items ∧
    Goes (fun _ _ => false) oneMigration id ⟨.empty, none⟩ p ⟨lockTaken, none⟩ ∧
    ¬ Recovers (fun _ _ => false) oneMigration items lockTaken := by
  obtain ⟨items, hitems⟩ := isSome_iff_exists.1
    (show (csilkMigrationDiscover oneMigration).isSome = true by decide +kernel)
  obtain ⟨p, hgo⟩ := goes_lockReady oneMigration
  have htaken : lockTaken.Locked := by
    refine ⟨_, rfl, ⟨_, mem_singleton_self _, rfl⟩, ?_⟩
    intro r hr _
    rw [mem_singleton.1 hr]
  exact ⟨items, _, hitems, hgo.step (o := Outcome.ok) trivial, not_recovers_of_locked htaken⟩

end Csilk.Migration
