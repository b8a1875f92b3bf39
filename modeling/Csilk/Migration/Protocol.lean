import Csilk.Migration.Model

namespace Csilk.Migration
open Csilk.Lib Stmts List

inductive Stage
  | out
  | ready
  | held
  | absent (v : Int)
  | began (v : Int)
  | ran (v : Int)
  | wrote (v : Int) (row : Row)
  | stuck
  | ended

structure Phase where
  stage : Stage
  known : List Int
  ran : List Int

def Phase.first : Phase := ⟨.out, [], []⟩

def Phase.next (g : Phase) (t : Stmt) (a : Answer) : Phase :=
  match t, g.stage with
  | .insertLock, .out => if a.rc = 0 then { g with stage := .ready } else g
  | .lock _, .ready => if a.rc = 0 ∧ a.count = 1 then { g with stage := .held } else g
  | .unlock _, _ => { g with stage := .ended }
  | .selectVersion v, _ =>
    if 0 < a.count then { g with stage := .held, known := g.known ++ [v] }
    else { g with stage := .absent v }
  | .tx .begin, .absent v => if a.rc = 0 then { g with stage := .began v } else g
  | .script v, .began _ =>
    if a.rc = 0 then { g with stage := .ran v, ran := g.ran ++ [v] }
    else { g with ran := g.ran ++ [v] }
  | .record row, .held => if a.rc = 0 then { g with known := g.known ++ [row.version] } else g
  | .record row, .ran v => if a.rc = 0 then { g with stage := .wrote v row } else g
  | .tx .rollback, _ => if a.rc = 0 then { g with stage := .held } else { g with stage := .stuck }
  | .tx .commit, .wrote v _ =>
    if a.rc = 0 then { g with stage := .held, known := g.known ++ [v] }
    else { g with stage := .stuck }
  | _, _ => g

def truthful (_ : Phase) (t : Stmt) (a : Answer) : Prop := t = .inTransaction → a.count = 0

def InOrder (e : Engine) (known : List Int) (row : Row) : Prop :=
  ∃ items item, csilkMigrationDiscover e = some items ∧ item ∈ items ∧ row = item.row ∧
    ∀ i ∈ items, i.version < item.version → i.version ∈ known

def Discovered (e : Engine) (v : Int) : Prop :=
  ∃ items, csilkMigrationDiscover e = some items ∧ ∃ item ∈ items, item.version = v

inductive Holding : Stage → Prop
  | held : Holding .held
  | absent : Holding (.absent v)

inductive Releasable : Stage → Prop
  | holding (h : Holding stage) : Releasable stage
  | stuck : Releasable .stuck

inductive Undoable : Stage → Prop
  | began : Undoable (.began v)
  | ran : Undoable (.ran v)

inductive Allowed (e : Engine) : Phase → Stmt → Prop
  | createLock : Allowed e ⟨.out, known, ran⟩ .createLock
  | insertLock : Allowed e ⟨.out, known, ran⟩ .insertLock
  | lock : Allowed e ⟨.ready, known, ran⟩ (.lock engineName)
  | tableExists : Allowed e ⟨.held, known, ran⟩ (.tableExists t)
  | createMigrations : Allowed e ⟨.held, known, ran⟩ .createMigrations
  | baseline (h : InOrder e known row) : Allowed e ⟨.held, known, ran⟩ (.record row)
  | selectRows : Allowed e ⟨.held, known, ran⟩ .selectRows
  | selectVersion (h : Holding stage) : Allowed e ⟨stage, known, ran⟩ (.selectVersion v)
  | readFile : Allowed e ⟨.absent v, known, ran⟩ (.readFile v)
  | inTransaction : Allowed e ⟨.absent v, known, ran⟩ .inTransaction
  | begin : Allowed e ⟨.absent v, known, ran⟩ (.tx .begin)
  | script (hlater : ∀ u ∈ ran, u < v) (hfile : Discovered e v) :
      Allowed e ⟨.began v, known, ran⟩ (.script v)
  | record (h : InOrder e known row) : Allowed e ⟨.ran row.version, known, ran⟩ (.record row)
  | undo (h : Undoable stage) : Allowed e ⟨stage, known, ran⟩ (.tx .rollback)
  | commit : Allowed e ⟨.wrote v row, known, ran⟩ (.tx .commit)
  | release (h : Releasable stage) : Allowed e ⟨stage, known, ran⟩ (.unlock engineName)

/-- Without the lock and with an error, or past the release and, on success, with all migrations
known to be recorded. -/
def Final (e : Engine) (r : Result) (g : Phase) : Prop :=
  (r.rc ≠ 0 ∧ (g.stage = .out ∨ g.stage = .ready)) ∨
    (g.stage = .ended ∧ (r.rc = 0 → ∃ items, csilkMigrationDiscover e = some items ∧
      ∀ item ∈ items, item.version ∈ g.known))

abbrev Keeps (e : Engine) (Q : ρ → Phase → Prop) (p : Program ρ) (g : Phase) : Prop :=
  Follows Phase.next truthful (Allowed e) Q p g

theorem lockInit_keeps : Keeps e (fun rc g => g = ⟨if rc = 0 then .ready else .out, [], []⟩)
    csilkMigrationLockInit .first := by
  apply Follows.issue .createLock
  intro a _
  split
  · rfl
  · apply Follows.issue .insertLock
    intro b _
    cases b with
    | unprepared | failed | done => rfl

theorem acquireAttempts_keeps (n : Nat) :
    Keeps e (fun rc g => g = ⟨if rc = 0 then .held else .ready, [], []⟩)
      (acquireAttempts engineName n) ⟨.ready, [], []⟩ := by
  induction n with
  | zero => rfl
  | succ n ih =>
    apply Follows.issue .lock
    intro a _
    dsimp only [Phase.next]
    split
    · rfl
    · exact ih

theorem lockAcquire_keeps (timeout : Nat) : Keeps e
    (fun rc g => (rc = 0 ∧ g = ⟨.held, [], []⟩) ∨ (rc ≠ 0 ∧ (g.stage = .out ∨ g.stage = .ready)))
    (csilkMigrationLockAcquire engineName timeout) .first := by
  apply lockInit_keeps.bind
  intro rc g hg
  subst hg
  by_cases hrc : rc = 0
  · rw [if_neg (not_not_intro hrc), if_pos hrc]
    apply (acquireAttempts_keeps _).mono
    intro rc g hg
    subst hg
    by_cases hzero : rc = 0
    · rw [if_pos hzero]
      exact .inl ⟨hzero, rfl⟩
    · rw [if_neg hzero]
      exact .inr ⟨hzero, .inr rfl⟩
  · rw [if_pos hrc, if_neg hrc]
    exact .inr ⟨by decide, .inl rfl⟩

theorem tableExists_keeps (t : Table) (known : List Int) :
    Keeps e (fun _ g => g = ⟨.held, known, []⟩) (tableExists t) ⟨.held, known, []⟩ := by
  apply Follows.issue .tableExists
  intro a _
  rfl

theorem shouldBaseline_keeps (known : List Int) :
    Keeps e (fun _ g => g = ⟨.held, known, []⟩) (shouldBaseline e) ⟨.held, known, []⟩ := by
  unfold shouldBaseline
  split
  · split
    · exact tableExists_keeps _ known
    · rfl
  · rfl

theorem isChain_of_duplicate (hle : items.IsChain fun a b : Item => a.version ≤ b.version)
    (hdup : duplicate items = false) : items.IsChain fun a b => a.version < b.version := by
  induction hle with
  | nil => exact .nil
  | singleton => exact .singleton _
  | cons_cons hab _ ih =>
    rw [duplicate, Bool.or_eq_false_iff, decide_eq_false_iff_not] at hdup
    exact .cons_cons (lt_of_le_of_ne hab hdup.1) (ih hdup.2)

theorem discover_sorted (h : csilkMigrationDiscover e = some items) :
    items.Pairwise fun a b => a.version < b.version := by
  obtain ⟨found, -, hsome⟩ := Option.bind_eq_some_iff.1 h
  dsimp only at hsome
  split at hsome
  · cases hsome
  case isFalse hdup =>
    cases hsome
    apply isChain_iff_pairwise.1
    exact isChain_of_duplicate (pairwise_insertionSort _ found).isChain (Bool.not_eq_true _ ▸ hdup)

theorem mem_done_of_lt (h : csilkMigrationDiscover e = some (done ++ item :: rest))
    (hi : i ∈ done ++ item :: rest) (hlt : i.version < item.version) : i ∈ done := by
  obtain ⟨_, hrest, _⟩ := pairwise_append.1 (discover_sorted h)
  rcases mem_append.1 hi with hi | hi
  · exact hi
  · exfalso
    rcases mem_cons.1 hi with rfl | hi
    · exact lt_irrefl _ hlt
    · exact lt_asymm hlt ((pairwise_cons.1 hrest).1 i hi)

theorem lt_of_mem_done (h : csilkMigrationDiscover e = some (done ++ item :: rest)) :
    ∀ i ∈ rest, item.version < i.version := by
  obtain ⟨_, hrest, _⟩ := pairwise_append.1 (discover_sorted h)
  exact (pairwise_cons.1 hrest).1

theorem mem_append_known {known : List Int} {P : Item → Prop}
    (hdone : ∀ i ∈ done, P i → i.version ∈ known) :
    ∀ i ∈ done ++ [item], P i → i.version ∈ known ++ [item.version] := by
  intro i hi hP
  rcases mem_append.1 hi with hi | hi
  · exact mem_append_left _ (hdone i hi hP)
  · rw [mem_singleton.1 hi]
    exact mem_append_right _ (mem_singleton_self _)

theorem baselineItems_keeps (hitems : csilkMigrationDiscover e = some (done ++ rest))
    (hdone : ∀ i ∈ done, i.version ≤ e.baselineVersion → i.version ∈ known) :
    Keeps e (fun _ g => ∃ known, g = ⟨.held, known, []⟩) (baselineItems e rest) ⟨.held, known, []⟩ := by
  induction rest generalizing done known with
  | nil => exact ⟨_, rfl⟩
  | cons item rest ih =>
    have hnext : csilkMigrationDiscover e = some ((done ++ [item]) ++ rest) :=
      hitems.trans (congrArg some (append_cons ..))
    unfold baselineItems
    split
    case isTrue hle =>
      apply Follows.issue
      · apply Allowed.baseline
        refine ⟨_, item, hitems, mem_append_right _ mem_cons_self, rfl, ?_⟩
        intro i hi hlt
        exact hdone i (mem_done_of_lt hitems hi hlt) (le_of_lt (lt_of_lt_of_le hlt hle))
      · intro a _
        dsimp only [Phase.next]
        by_cases hrc : a.rc = 0
        · rw [if_pos hrc, if_neg (not_not_intro hrc)]
          exact ih hnext (mem_append_known hdone)
        · rw [if_neg hrc, if_pos hrc]
          exact ⟨_, rfl⟩
    case isFalse hgt =>
      apply ih hnext
      intro i hi hle
      rcases mem_append.1 hi with hi | hi
      · exact hdone i hi hle
      · rw [mem_singleton.1 hi] at hle
        exact absurd hle hgt

theorem ensure_keeps : Keeps e (fun _ g => ∃ known, g = ⟨.held, known, []⟩)
    (ensureSchemaMigrationsAndBaseline e) ⟨.held, [], []⟩ := by
  apply (tableExists_keeps _ _).bind
  intro found g hg
  subst hg
  split
  · exact ⟨_, rfl⟩
  · apply (shouldBaseline_keeps _).bind
    intro baseline g hg
    subst hg
    apply Follows.issue .createMigrations
    intro a _
    split
    · exact ⟨_, rfl⟩
    · split
      · exact ⟨_, rfl⟩
      · split
        · exact ⟨_, rfl⟩
        case h_2 items hitems =>
          have hnothing : csilkMigrationDiscover e = some ([] ++ items) := hitems
          apply baselineItems_keeps hnothing
          simp

theorem checkDisk_keeps (max : Int) (disk : List Item) (hg : Holding g.stage) (hran : g.ran = []) :
    Keeps e (fun _ g => Holding g.stage ∧ g.ran = []) (checkDisk max disk) g := by
  induction disk generalizing g with
  | nil => exact ⟨hg, hran⟩
  | cons item disk ih =>
    unfold checkDisk
    split
    · apply Follows.issue (.selectVersion hg)
      intro a _
      have hnext : Holding (g.next (.selectVersion item.version) a).stage ∧
          (g.next (.selectVersion item.version) a).ran = [] := by
        dsimp only [Phase.next]
        split
        · exact ⟨.held, hran⟩
        · exact ⟨.absent, hran⟩
      split
      · exact ih hnext.1 hnext.2
      · split
        · exact ih hnext.1 hnext.2
        · exact hnext
    · exact ih hg hran

theorem validate_keeps (known : List Int) : Keeps e (fun _ g => Holding g.stage ∧ g.ran = [])
    (csilkMigrationValidate e) ⟨.held, known, []⟩ := by
  apply (tableExists_keeps _ _).bind
  intro found g hg
  subst hg
  split
  · split
    · exact ⟨.held, rfl⟩
    · apply Follows.issue .selectRows
      intro a _
      split
      · dsimp only
        split
        · exact checkDisk_keeps _ _ .held rfl
        · exact ⟨.held, rfl⟩
      · exact ⟨.held, rfl⟩
  · exact ⟨.held, rfl⟩

theorem giveUp_keeps (hg : Releasable g.stage) : Keeps e (Final e) giveUp g := by
  apply Follows.issue (.release hg)
  intro a _
  exact .inr ⟨rfl, (by simp)⟩

theorem scopeBegin_keeps (seq : Nat) : Keeps e
    (fun r g => r = (0, none) ∧ g = ⟨.began v, known, ran⟩ ∨ r.1 ≠ 0 ∧ Releasable g.stage)
    (scopeBegin seq) ⟨.absent v, known, ran⟩ := by
  apply Follows.issue .inTransaction
  intro a ha
  rw [if_neg (not_lt.2 (le_of_eq (ha rfl)))]
  apply Follows.issue .begin
  intro b _
  dsimp only [Phase.next]
  by_cases hrc : b.rc = 0
  · rw [hrc]
    exact .inl ⟨rfl, rfl⟩
  · rw [if_neg hrc]
    exact .inr ⟨hrc, .holding .absent⟩

theorem scopeRollback_keeps (hg : Allowed e g (.tx .rollback)) :
    Keeps e (fun _ g => Releasable g.stage) (scopeRollback none) g := by
  apply Follows.issue hg
  intro a _
  dsimp only [Phase.next]
  split
  · exact .holding .held
  · exact .stuck

theorem scopeCommit_keeps : Keeps e
    (fun rc g => if rc = 0 then g = ⟨.held, known ++ [v], ran⟩ else Releasable g.stage)
    (scopeCommit none) ⟨.wrote v row, known, ran⟩ := by
  apply Follows.issue .commit
  intro a _
  dsimp only [Phase.next]
  by_cases hrc : a.rc = 0
  · rw [hrc]
    rfl
  · rw [if_neg hrc]
    exact (if_neg hrc).mpr .stuck

theorem applyItem_keeps (hitems : csilkMigrationDiscover e = some (done ++ item :: rest))
    (hdone : ∀ i ∈ done, i.version ∈ known) (hran : ∀ u ∈ ran, u < item.version) (seq : Nat) :
    Keeps e (fun ok g => if ok then g = ⟨.held, known ++ [item.version], ran ++ [item.version]⟩
        else Releasable g.stage)
      (applyItem seq item) ⟨.absent item.version, known, ran⟩ := by
  have hmem : item ∈ done ++ item :: rest := mem_append_right _ mem_cons_self
  have horder : InOrder e known item.row :=
    ⟨_, item, hitems, hmem, rfl, fun i hi hlt => hdone i (mem_done_of_lt hitems hi hlt)⟩
  have hfail {g : Phase} (hg : Allowed e g (.tx .rollback)) : Keeps e
      (fun ok g => if ok then g = ⟨.held, known ++ [item.version], ran ++ [item.version]⟩
        else Releasable g.stage) ((scopeRollback none).bind fun _ => pure false) g :=
    (scopeRollback_keeps hg).bind fun _ _ hg => hg
  apply Follows.issue .readFile
  intro file _
  split
  · exact .holding .absent
  · apply (scopeBegin_keeps seq).bind
    intro r g hg
    dsimp only
    rcases hg with ⟨hr, rfl⟩ | ⟨hrc, hg⟩
    · cases hr
      apply Follows.issue (.script hran ⟨_, hitems, item, hmem, rfl⟩)
      intro script _
      dsimp only [Phase.next]
      by_cases hscript : script.rc = 0
      · rw [if_pos hscript, if_neg (not_not_intro hscript)]
        apply Follows.issue (.record horder)
        intro inserted _
        dsimp only [Phase.next]
        by_cases hinserted : inserted.rc = 0
        · rw [if_pos hinserted, if_neg (not_not_intro hinserted)]
          apply scopeCommit_keeps.bind
          intro rc g hg
          by_cases hrc : rc = 0
          · rw [if_pos hrc] at hg
            rw [hrc]
            exact hg
          · rw [if_neg hrc] at hg
            rw [decide_eq_false hrc]
            exact hg
        · rw [if_neg hinserted, if_pos hinserted]
          exact hfail (.undo .ran)
      · rw [if_neg hscript, if_pos hscript]
        exact hfail (.undo .began)
    · rw [if_pos hrc]
      exact hg

theorem applyItems_keeps (hitems : csilkMigrationDiscover e = some (done ++ rest))
    (hdone : ∀ i ∈ done, i.version ∈ g.known) (hran : ∀ u ∈ g.ran, ∀ i ∈ rest, u < i.version)
    (hg : Holding g.stage) (seqs : Nat → Nat) (applied : Nat) :
    Keeps e (Final e) (applyItems seqs rest applied) g := by
  induction rest generalizing done g applied with
  | nil =>
    apply Follows.issue (.release (.holding hg))
    intro a _
    refine .inr ⟨rfl, fun _ => ⟨_, hitems, ?_⟩⟩
    rw [append_nil]
    exact hdone
  | cons item rest ih =>
    have hnext : csilkMigrationDiscover e = some ((done ++ [item]) ++ rest) :=
      hitems.trans (congrArg some (append_cons ..))
    have hknown : ∀ i ∈ done ++ [item], i.version ∈ g.known ++ [item.version] :=
      fun i hi => mem_append_known (P := fun _ => True) (fun i hi _ => hdone i hi) i hi trivial
    apply Follows.issue (.selectVersion hg)
    intro a _
    dsimp only [Phase.next]
    by_cases hfound : 0 < a.count
    · rw [if_pos hfound, if_pos hfound]
      apply ih hnext hknown _ .held
      exact fun u hu i hi => hran u hu i (mem_cons_of_mem _ hi)
    · rw [if_neg hfound, if_neg hfound]
      apply (applyItem_keeps hitems hdone (fun u hu => hran u hu item mem_cons_self) _).bind
      intro ok g hg
      cases ok with
      | false => exact giveUp_keeps hg
      | true =>
        cases hg
        apply ih hnext hknown _ .held
        intro u hu i hi
        rcases mem_append.1 hu with hu | hu
        · exact hran u hu i (mem_cons_of_mem _ hi)
        · rw [mem_singleton.1 hu]
          exact lt_of_mem_done hitems i hi

theorem csilkMigrationApply_keeps (e : Engine) (seqs : Nat → Nat) :
    Keeps e (Final e) (csilkMigrationApply e seqs) .first := by
  apply (lockAcquire_keeps 10).bind
  intro rc g hg
  rcases hg with ⟨rfl, rfl⟩ | ⟨hrc, hg⟩
  · apply ensure_keeps.bind
    intro ensured g hg
    obtain ⟨known, rfl⟩ := hg
    split
    · exact giveUp_keeps (.holding .held)
    · apply (validate_keeps known).bind
      intro validated g hg
      obtain ⟨hheld, hran⟩ := hg
      split
      · exact giveUp_keeps (.holding hheld)
      · split
        · exact giveUp_keeps (.holding hheld)
        case h_2 items hitems =>
          have hnothing : csilkMigrationDiscover e = some ([] ++ items) := hitems
          apply applyItems_keeps hnothing _ _ hheld
          · simp
          · rw [hran]
            simp
  · rw [if_pos hrc]
    exact .inl ⟨by decide, hg⟩

end Csilk.Migration
