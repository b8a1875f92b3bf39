import Csilk.Bytes
import Mathlib.Data.List.Infix

namespace Csilk.Waf
open List

def sqlRules : List Bytes :=
  ["UNION SELECT", "SELECT FROM", "INSERT INTO", "UPDATE SET", "DELETE FROM", "DROP TABLE",
    "OR '1'='1", "OR \"1\"=\"1", "WAITFOR DELAY", "SLEEP(", "PG_SLEEP("].map ascii

def xssRules : List Bytes := ["<SCRIPT", "ONERROR=", "ONLOAD=", "JAVASCRIPT:", "ALERT("].map ascii

def traversalRules : List Bytes := ["../", "..\\"].map ascii

def toupper (b : UInt8) : UInt8 := if 97 ≤ b ∧ b ≤ 122 then b - 32 else b

/-- Its `strlen` ends the haystack at the first NUL. -/
def csilkStrcasestrPattern (haystack needle : Bytes) : Bool :=
  let text := cString haystack
  if text.length < needle.length then false
  else (range (text.length - needle.length + 1)).any fun i =>
    ((text.drop i).take needle.length).map toupper = needle

def checkPatternCb (value : Bytes) : Bool :=
  sqlRules.any (csilkStrcasestrPattern value) || xssRules.any (csilkStrcasestrPattern value) ||
    traversalRules.any (csilkStrcasestrPattern value)

/-- The path and the parsed values are C strings; the body is `body_len` bytes of a buffer, followed
by `behind`. -/
structure Request where
  path : Option {s : Bytes // 0 ∉ s}
  query : List {s : Bytes // 0 ∉ s}
  form : List {s : Bytes // 0 ∉ s}
  body : Option Bytes
  behind : Bytes

def Request.inspected (r : Request) : Option Bytes :=
  r.body.filter fun body => 0 < body.length && body.length ≤ 1024 * 1024

inductive Verdict
  | next
  | answered (status : Nat)
deriving DecidableEq

def csilkWafMiddleware (r : Request) : Verdict :=
  if r.path.any (fun path => traversalRules.any (csilkStrcasestrPattern path.1)) ||
      r.query.any (fun value => checkPatternCb value.1) || r.form.any (fun value => checkPatternCb value.1) ||
      r.inspected.any (fun body => checkPatternCb (body ++ r.behind)) then .answered 403
  else .next

def Request.bodyReads (r : Request) : Nat :=
  r.inspected.elim 0 fun body => (cString (body ++ r.behind)).length + 1

def Contains (text pattern : Bytes) : Prop := pattern.map toupper <:+: text.map toupper

instance : Decidable (Contains text pattern) := inferInstanceAs (Decidable (_ <:+: _))

def Suspicious (text : Bytes) : Prop := ∃ p ∈ sqlRules ++ xssRules ++ traversalRules, Contains text p

instance : Decidable (Suspicious text) := inferInstanceAs (Decidable (∃ _ ∈ _, _))

def Request.Malicious (r : Request) : Prop :=
  (∃ path ∈ r.path.toList, ∃ p ∈ traversalRules, Contains path.1 p) ∨
    (∃ value ∈ r.query ++ r.form, Suspicious value.1) ∨
    ∃ body ∈ r.body.toList, body.length ≤ 1024 * 1024 ∧ Suspicious body

instance : Decidable (Request.Malicious r) := inferInstanceAs (Decidable (_ ∨ _))

theorem csilkStrcasestrPattern_iff (haystack needle : Bytes) :
    csilkStrcasestrPattern haystack needle = true ↔ needle <:+: (cString haystack).map toupper := by
  generalize htext : cString haystack = text
  simp only [csilkStrcasestrPattern, htext]
  constructor
  · intro h
    split at h
    · cases h
    · obtain ⟨i, -, hi⟩ := any_eq_true.1 h
      rw [decide_eq_true_eq, map_take, map_drop] at hi
      rw [← hi]
      exact ( take_prefix _ _).isInfix.trans (drop_suffix _ _).isInfix
  · rintro ⟨front, back, heq⟩
    have hlen := congrArg length heq
    simp only [length_append, length_map] at hlen
    rw [if_neg (by omega)]
    refine any_eq_true.2 ⟨front.length, mem_range.2 (by omega), decide_eq_true ?_⟩
    rw [map_take, map_drop, ← heq, append_assoc, drop_left, take_left]

theorem rules_upper : ∀ p ∈ sqlRules ++ xssRules ++ traversalRules, p.map toupper = p := by
  decide

theorem any_rules {rules : List Bytes} (h : ∀ p ∈ rules, p.map toupper = p) (haystack : Bytes) :
    rules.any (csilkStrcasestrPattern haystack) = true ↔ ∃ p ∈ rules, Contains (cString haystack) p := by
  rw [any_eq_true]
  refine exists_congr fun p => and_congr_right fun hp => ?_
  rw [csilkStrcasestrPattern_iff, Contains, h p hp]

theorem checkPatternCb_iff (value : Bytes) :
    checkPatternCb value = true ↔ Suspicious (cString value) := by
  rw [checkPatternCb, ← any_append, ← any_append, any_rules rules_upper]
  rfl

theorem Suspicious.mono (h : Suspicious text) (hp : text <+: text') : Suspicious text' := by
  obtain ⟨p, hp', hc⟩ := h
  exact ⟨p, hp', hc.trans (hp.map toupper).isInfix⟩

theorem cString_append_of_mem (h : 0 ∈ body) (behind : Bytes) :
    cString (body ++ behind) = cString body ∧ (cString body).length < body.length := by
  obtain ⟨i, hi⟩ := mem_iff_getElem?.1 h
  obtain ⟨hlt, -⟩ := List.getElem?_eq_some_iff.1 hi
  have hlt := lt_of_le_of_lt (cString_length_le_of_nul hi) hlt
  refine ⟨?_, hlt⟩
  exact takeWhile_append.trans (if_neg (ne_of_lt hlt))

section

variable (r : Request)
  (hbody : ∀ body, r.inspected = some body → 0 ∈ body ∧ (Suspicious body → Suspicious (cString body)))

theorem any_path (path : Option {s : Bytes // 0 ∉ s}) :
    path.any (fun s => traversalRules.any (csilkStrcasestrPattern s.1)) = true ↔
      ∃ s ∈ path.toList, ∃ p ∈ traversalRules, Contains s.1 p := by
  cases path with
  | none => simp
  | some path =>
    have hrules := any_rules (fun p hp => rules_upper p (mem_append_right _ hp)) path.1
    rw [cString_eq_self path.2] at hrules
    simpa using hrules

theorem any_values (l : List {s : Bytes // 0 ∉ s}) :
    l.any (fun value => checkPatternCb value.1) = true ↔ ∃ value ∈ l, Suspicious value.1 := by
  rw [any_eq_true]
  refine exists_congr fun value => and_congr_right fun _ => ?_
  rw [checkPatternCb_iff, cString_eq_self value.2]

include hbody

theorem any_body : r.inspected.any (fun body => checkPatternCb (body ++ r.behind)) = true ↔
    ∃ body ∈ r.body.toList, body.length ≤ 1024 * 1024 ∧ Suspicious body := by
  rw [Request.inspected] at hbody ⊢
  generalize r.body = o at hbody ⊢
  cases o with
  | none => simp
  | some body =>
    rw [Option.filter_some] at hbody ⊢
    split at hbody
    case isTrue hlen =>
      obtain ⟨hnul, hseen⟩ := hbody body rfl
      have hread : checkPatternCb (body ++ r.behind) = true ↔ Suspicious body := by
        rw [checkPatternCb_iff, (cString_append_of_mem hnul r.behind).1]
        exact ⟨fun h => h.mono ( takeWhile_prefix _), hseen⟩
      simp only [Bool.and_eq_true, decide_eq_true_eq] at hlen
      simpa [hlen] using hread
    case isFalse hlen =>
      simp only [Bool.and_eq_true, decide_eq_true_eq, not_and] at hlen
      rw [if_neg (by simpa using hlen)]
      refine iff_of_false Bool.false_ne_true ?_
      rintro ⟨_, hmem, hle, hsus⟩
      cases mem_singleton.1 hmem
      cases body with
      | nil => exact absurd hsus (by decide)
      | cons b body => exact hlen (Nat.succ_pos _) hle

end

def hidden : Request := ⟨none, [], [], some (0 :: ascii "<script>"), []⟩

def innocent : Request := ⟨none, [], [], some (ascii "ok"), ascii "<script>"⟩

end Csilk.Waf
