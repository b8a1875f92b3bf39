import Csilk.Bytes
import Csilk.Lib.SqlLexer
import Mathlib.Algebra.BigOperators.Group.List.Basic
import Mathlib.Algebra.GroupWithZero.Nat

namespace Csilk.Db
open Csilk.Lib Sql List

def paramLoop : Bytes → List Bytes → Bytes
  | [], _ => []
  | c :: sql, [] => c :: paramLoop sql []
  | c :: sql, v :: params =>
    if c = 63 then 39 :: escape v ++ 39 :: paramLoop sql params
    else c :: paramLoop sql (v :: params)

def csilkDbQueryParamJson (sql : Bytes) (params : List Bytes) : Bytes := paramLoop sql params

def csilkDbBuildParamSql (sql : Bytes) (params : List Bytes) : Bytes := paramLoop sql params

def paramSize (sql : Bytes) (params : List Bytes) : Nat :=
  sql.length + (params.map fun v => 2 + (v.map fun b => if b = 39 then 2 else 1).sum).sum + 1

/-- No `?` stands next to another one or to a quote. -/
def separate (prev : Option UInt8) : Bytes → Bool
  | [] => true
  | b :: sql => !(b = 63 && (prev = some 39 || prev = some 63)) && !(b = 39 && prev = some 63) &&
      separate (some b) sql

theorem separate_cons {prev : Option UInt8} : separate prev (c :: sql) = true ↔
    ¬ (c = 63 ∧ (prev = some 39 ∨ prev = some 63)) ∧ ¬ (c = 39 ∧ prev = some 63) ∧
      separate (some c) sql = true := by
  simp [separate, and_assoc, imp_iff_not_or]

theorem separate_cons_of {prev : Option UInt8}
    (hparam : ¬ (c = 63 ∧ (prev = some 39 ∨ prev = some 63))) (hquote : ¬ (c = 39 ∧ prev = some 63)) :
    separate prev (c :: sql) = true ↔ separate (some c) sql = true := by
  rw [separate_cons]
  exact ⟨fun h => h.2.2, fun h => ⟨hparam, hquote, h⟩⟩

theorem length_escape (v : Bytes) :
    (escape v).length = (v.map fun b => if b = 39 then 2 else 1).sum := by
  induction v with
  | nil => rfl
  | cons b v ih =>
    rw [escape_cons, length_append, ih, map_cons]
    split <;> rfl

theorem length_paramLoop (sql : Bytes) (params : List Bytes) :
    (paramLoop sql params).length + 1 ≤ paramSize sql params := by
  induction sql generalizing params with
  | nil => exact Nat.succ_le_succ (Nat.zero_le _)
  | cons c sql ih =>
    cases params with
    | nil => exact Nat.succ_le_succ (ih [])
    | cons v params =>
      rw [paramLoop]
      split
      · have hrest := ih params
        simp only [paramSize, length_cons, length_append, map_cons, sum_cons,
          length_escape, cons_append] at hrest ⊢
        omega
      · have hrest := ih (v :: params)
        simp only [paramSize, length_cons] at hrest ⊢
        omega

theorem substitute_append (h : .param ∉ ts) (ts' : List Token) (vs : List Bytes) :
    substitute (ts ++ ts') vs = ts ++ substitute ts' vs := by
  induction ts with
  | nil => rfl
  | cons t ts ih =>
    rw [mem_cons, not_or] at h
    rw [cons_append, cons_append, ← ih h.2]
    cases t with
    | param => exact absurd rfl h.1
    | _ => rfl

theorem pending_no_param (m : Mode) : .param ∉ m.pending := by
  cases m <;> simp [Mode.pending]

theorem finish_no_param (m : Mode) : .param ∉ m.finish := by
  rw [Mode.finish]
  split
  · exact pending_no_param m
  · split <;> simp

theorem next_no_param (hb : b ≠ 63) (m : Mode) : .param ∉ (next escapes m b).1 := by
  have hstart : .param ∉ (start b).1 := by
    unfold start
    split_ifs <;> simp
  unfold Sql.next
  split
  · split
    · exact not_mem_nil
    · rw [mem_append, not_or]
      exact ⟨pending_no_param m, hstart⟩
  · exact not_mem_nil

structure Tracks (prev : Option UInt8) (m : Mode) : Prop where
  quote : ∀ v, m = .strQuote v → prev = some 39
  ended : prev = some 39 → m.between = true → ∃ v, m = .strQuote v

theorem tracks_next (escapes : Bool) (m : Mode) (b : UInt8) : Tracks (some b) (next escapes m b).2 := by
  constructor
  · intro v h
    rw [eq_quote_of_next h]
  · intro h hbetween
    cases h
    exact strQuote_of_between hbetween

section

variable {escapes : Bool}

/-- The statement has the tokens that the template has, with its parameters. -/
def Agrees (escapes : Bool) (m : Mode) (sql : Bytes) (params : List Bytes) : Prop :=
  tokens escapes m (paramLoop sql params) = substitute (tokens escapes m sql) params

def AgreesAfter (escapes : Bool) (v : Bytes) (sql : Bytes) (params : List Bytes) : Prop :=
  tokens escapes (.strQuote v) (paramLoop sql params) =
    .literal v :: substitute (tokens escapes .code sql) params

theorem paramLoop_cons (hc : c ≠ 63) (sql : Bytes) (params : List Bytes) :
    paramLoop (c :: sql) params = c :: paramLoop sql params := by
  cases params with
  | nil => rfl
  | cons v params => rw [paramLoop, if_neg hc]

theorem agrees_cons (hc : c ≠ 63) (m : Mode) (sql : Bytes) (params : List Bytes) :
    Agrees escapes m (c :: sql) params ↔ Agrees escapes (next escapes m c).2 sql params := by
  rw [Agrees, paramLoop_cons hc, tokens, tokens, substitute_append (next_no_param hc m),
    append_cancel_left_eq, Agrees]

theorem agreesAfter_cons (hc : c ≠ 63) (hq : c ≠ 39) (v : Bytes) (sql : Bytes) (params : List Bytes) :
    AgreesAfter escapes v (c :: sql) params ↔ Agrees escapes (start c).2 sql params := by
  have hcode : next escapes .code c = start c := next_of_none rfl rfl
  have hno : .param ∉ (next escapes .code c).1 := next_no_param hc .code
  rw [hcode] at hno
  rw [AgreesAfter, paramLoop_cons hc, tokens, next_strQuote_of_ne hq, tokens, hcode,
    substitute_append hno, cons_append, cons_eq_cons, append_cancel_left_eq, Agrees]
  exact and_iff_right rfl

theorem not_agreesAfter (hc : c = 39 ∨ c = 63 ∧ params ≠ []) (v : Bytes) (sql : Bytes) :
    ¬ AgreesAfter escapes v (c :: sql) params := by
  intro h
  rcases hc with rfl | ⟨rfl, hparams⟩
  · rw [AgreesAfter, paramLoop_cons (by decide)] at h
    exact tokens_quote_ne _ _ _ _ h
  · obtain ⟨w, rest, rfl⟩ := exists_cons_of_ne_nil hparams
    exact tokens_quote_ne _ _ _ _ h

theorem not_agrees_quote (w v : Bytes) (sql : Bytes) (params : List Bytes) :
    ¬ Agrees escapes (.strQuote w) (63 :: sql) (v :: params) := by
  intro h
  exact tokens_quote_ne _ _ _ _ h

/-- A literal ends where its value does unless a backslash escapes. -/
theorem agrees_param {m : Mode} (hbetween : m.between = true) (hne : ∀ w, m ≠ .strQuote w)
    (v : Bytes) (sql : Bytes) (params : List Bytes) :
    Agrees escapes m (63 :: sql) (v :: params) ↔
      (escapes = true → plain v = true) ∧ AgreesAfter escapes v sql params := by
  rw [Agrees, paramLoop, if_pos rfl, cons_append, tokens, next_quote hbetween hne, tokens,
    next_param hbetween, append_assoc, substitute_append (pending_no_param m),
    append_cancel_left_eq]
  show tokens escapes (.str []) (escape v ++ 39 :: paramLoop sql params) =
    .literal v :: substitute (tokens escapes .code sql) params ↔ _
  by_cases hplain : escapes = true → plain v = true
  · rw [tokens_escape hplain, and_iff_right hplain]
    exact Iff.rfl
  · rw [iff_false_right fun h => hplain h.1]
    push Not at hplain
    obtain ⟨rfl, hplain⟩ := hplain
    exact tokens_escape_ne (k := 0) (.inr (Bool.eq_false_iff.2 hplain)) [] _ _

def Harmless (escapes : Bool) (params : List Bytes) : Prop := escapes = true → ∀ v ∈ params, plain v = true

theorem harmless_cons : Harmless escapes (v :: params) ↔
    (escapes = true → plain v = true) ∧ Harmless escapes params := by
  rw [Harmless, forall_mem_cons, imp_and, Harmless]

theorem agrees_iff (escapes : Bool) (sql : Bytes) :
    (∀ m prev params, outside escapes m sql = true → sql.count 63 = params.length → prev ≠ some 63 →
      Tracks prev m → (Agrees escapes m sql params ↔
        separate prev sql = true ∧ Harmless escapes params)) ∧
    ∀ v params, outside escapes .code sql = true → sql.count 63 = params.length →
      (AgreesAfter escapes v sql params ↔
        separate (some 63) sql = true ∧ Harmless escapes params) := by
  induction sql with
  | nil =>
    have hnil : ∀ params : List Bytes, 0 = params.length → Harmless escapes params := by
      intro params h _ v hv
      rw [eq_nil_of_length_eq_zero h.symm] at hv
      cases hv
    constructor
    · intro m prev params _ hcount _ _
      refine iff_of_true ?_ ⟨rfl, hnil params hcount⟩
      have hfinish := substitute_append (finish_no_param m) [] params
      rw [append_nil] at hfinish
      exact ((append_nil _).symm.trans hfinish.symm)
    · intro v params _ hcount
      exact iff_of_true rfl ⟨rfl, hnil params hcount⟩
  | cons c sql ih =>
    obtain ⟨hsame, hafter⟩ := ih
    constructor
    · intro m prev params hout hcount hprev htracks
      rw [outside, Bool.and_eq_true_iff] at hout
      by_cases hc : c = 63
      · subst hc
        rw [count_cons_self] at hcount
        cases params with
        | nil => cases hcount
        | cons v params =>
          have hbetween : m.between = true := hout.1
          by_cases hquote : ∃ w, m = .strQuote w
          · obtain ⟨w, rfl⟩ := hquote
            refine iff_of_false (not_agrees_quote w v sql params) ?_
            intro h
            exact (separate_cons.1 h.1).1 ⟨rfl, .inl (htracks.quote w rfl)⟩
          · push Not at hquote
            have hnot : ¬ (prev = some 39 ∨ prev = some 63) := by
              intro h
              obtain ⟨w, hw⟩ := htracks.ended (h.resolve_right hprev) hbetween
              exact hquote w hw
            rw [next_param hbetween] at hout
            rw [agrees_param hbetween hquote, hafter v params hout.2 (Nat.succ.inj hcount),
              harmless_cons, separate_cons_of (fun h => hnot h.2) fun h => hprev h.2]
            exact and_left_comm
      · rw [count_cons_of_ne hc] at hcount
        rw [agrees_cons hc, hsame _ (some c) params hout.2 hcount (fun h => hc (Option.some.inj h))
          (tracks_next escapes m c), separate_cons_of (fun h => hc h.1) fun h => hprev h.2]
    · intro v params hout hcount
      rw [outside, Bool.and_eq_true_iff] at hout
      by_cases hc : c = 63
      · have hparams : params ≠ [] := by
          rintro rfl
          rw [hc, count_cons_self] at hcount
          cases hcount
        refine iff_of_false (not_agreesAfter (.inr ⟨hc, hparams⟩) v sql) ?_
        intro h
        exact (separate_cons.1 h.1).1 ⟨hc, .inr rfl⟩
      · by_cases hq : c = 39
        · refine iff_of_false (not_agreesAfter (.inl hq) v sql) ?_
          intro h
          exact (separate_cons.1 h.1).2.1 ⟨hq, rfl⟩
        · rw [count_cons_of_ne hc] at hcount
          have hcode : next escapes .code c = start c := next_of_none rfl rfl
          have htracks := tracks_next escapes .code c
          rw [hcode] at hout htracks
          rw [agreesAfter_cons hc hq, hsame _ (some c) params hout.2 hcount
            (fun h => hc (Option.some.inj h)) htracks,
            separate_cons_of (fun h => hc h.1) fun h => hq h.1]

end

/-- The statement has the template's tokens just when parameters stand apart and no backslash of a
value escapes. It always fits its buffer. -/
theorem paramSql_iff (escapes : Bool) (sql : Bytes) (params : List Bytes)
    (hout : outside escapes .code sql = true) (hcount : sql.count 63 = params.length) :
    csilkDbQueryParamJson sql params = csilkDbBuildParamSql sql params ∧
      (csilkDbBuildParamSql sql params).length + 1 ≤ paramSize sql params ∧
      (tokens escapes .code (csilkDbBuildParamSql sql params) =
          substitute (tokens escapes .code sql) params ↔
        separate none sql = true ∧ (escapes = true → ∀ v ∈ params, plain v = true)) := by
  refine ⟨rfl, length_paramLoop sql params, ?_⟩
  apply (agrees_iff escapes sql).1 .code none params hout hcount
  · simp
  · exact ⟨(by simp), (by simp)⟩

def byName : Bytes := ascii "SELECT id FROM users WHERE name = ? AND org = ?"

theorem paramSql_quotes :
    tokens true .code (csilkDbBuildParamSql byName [ascii "O'Hara", ascii "50\\% off"]) =
      substitute (tokens true .code byName) [ascii "O'Hara", ascii "50\\% off"] :=
  (paramSql_iff true byName _ (by decide +kernel) (by decide +kernel)).2.2.2 (by decide +kernel)

/-- A backslash that ends a value escapes the quote; two parameters side by side are one literal. -/
theorem paramSql_injection : (outside true .code byName = true ∧
      tokens true .code (csilkDbBuildParamSql byName [ascii "\\", ascii " OR 1=1 -- "]) =
        tokens true .code (ascii "SELECT id FROM users WHERE name =") ++
          .literal (ascii "' AND org = ") :: tokens true .code (ascii "OR 1=1") ∧
      tokens true .code (csilkDbBuildParamSql byName [ascii "\\", ascii " OR 1=1 -- "]) ≠
        substitute (tokens true .code byName) [ascii "\\", ascii " OR 1=1 -- "]) ∧
    outside false .code (ascii "??") = true ∧
      tokens false .code (csilkDbBuildParamSql (ascii "??") [ascii "a", ascii "b"]) ≠
        substitute (tokens false .code (ascii "??")) [ascii "a", ascii "b"] := by
  decide +kernel

end Csilk.Db
