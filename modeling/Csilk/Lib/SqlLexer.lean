import Mathlib.Data.List.Basic

namespace Csilk.Lib.Sql
open List

def quote (tick : Bool) : UInt8 := if tick then 96 else 34

inductive Token
  | word (text : List UInt8)
  | symbol (b : UInt8)
  | param
  | literal (value : List UInt8)
  | quoted (tick : Bool) (text : List UInt8)
  | unterminated
deriving DecidableEq

/-- A literal ends at a quote that no other quote follows. -/
inductive Mode
  | code
  | word (text : List UInt8)
  | str (value : List UInt8)
  | strQuote (value : List UInt8)
  | strEscape (value : List UInt8)
  | quoted (tick : Bool) (text : List UInt8)
  | quotedEnd (tick : Bool) (text : List UInt8)
  | quotedEscape (tick : Bool) (text : List UInt8)
  | dash
  | line
  | slash
  | block
  | blockStar
deriving DecidableEq

def Mode.between : Mode → Bool
  | .code | .word _ | .strQuote _ | .quotedEnd _ _ | .dash | .slash => true
  | _ => false

def Mode.pending : Mode → List Token
  | .word text => [.word text]
  | .strQuote value => [.literal value]
  | .quotedEnd tick text => [.quoted tick text]
  | .dash => [.symbol 45]
  | .slash => [.symbol 47]
  | _ => []

def isWord (b : UInt8) : Bool :=
  (48 ≤ b && b ≤ 57) || (65 ≤ b && b ≤ 90) || (97 ≤ b && b ≤ 122) || b = 95 || 128 ≤ b

def isSpace (b : UInt8) : Bool := b = 32 || (9 ≤ b && b ≤ 13)

def start (b : UInt8) : List Token × Mode :=
  if b = 39 then ([], .str [])
  else if b = quote false then ([], .quoted false [])
  else if b = quote true then ([], .quoted true [])
  else if b = 45 then ([], .dash)
  else if b = 47 then ([], .slash)
  else if b = 63 then ([.param], .code)
  else if isSpace b then ([], .code)
  else if isWord b then ([], .word [b])
  else ([.symbol b], .code)

def Mode.continued (b : UInt8) : Mode → Option Mode
  | .word text => if isWord b then some (.word (text ++ [b])) else none
  | .strQuote value => if b = 39 then some (.str (value ++ [39])) else none
  | .quotedEnd tick text =>
    if b = quote tick then some (.quoted tick (text ++ [quote tick])) else none
  | .dash => if b = 45 then some .line else none
  | .slash => if b = 42 then some .block else none
  | _ => none

/-- A backslash and the byte after it: those of a pattern stay as they are. -/
def unescape (b : UInt8) : List UInt8 :=
  if b = 37 || b = 95 then [92, b]
  else if b = 48 then [0]
  else if b = 98 then [8]
  else if b = 110 then [10]
  else if b = 114 then [13]
  else if b = 116 then [9]
  else if b = 90 then [26]
  else [b]

/-- `escapes` says whether a backslash escapes in strings. -/
def Mode.inside (escapes : Bool) (b : UInt8) : Mode → Mode
  | .str value =>
    if b = 39 then .strQuote value
    else if escapes && b = 92 then .strEscape value
    else .str (value ++ [b])
  | .strEscape value => .str (value ++ unescape b)
  | .quoted tick text =>
    if b = quote tick then .quotedEnd tick text
    else if escapes && !tick && b = 92 then .quotedEscape tick text
    else .quoted tick (text ++ [b])
  | .quotedEscape tick text => .quoted tick (text ++ unescape b)
  | .line => if b = 10 then .code else .line
  | .block => if b = 42 then .blockStar else .block
  | .blockStar => if b = 47 then .code else if b = 42 then .blockStar else .block
  | m => m

def next (escapes : Bool) (m : Mode) (b : UInt8) : List Token × Mode :=
  if m.between then
    match m.continued b with
    | some m' => ([], m')
    | none => (m.pending ++ (start b).1, (start b).2)
  else ([], m.inside escapes b)

def Mode.finish (m : Mode) : List Token :=
  if m.between then m.pending else if m = .line then [] else [.unterminated]

def tokens (escapes : Bool) (m : Mode) : List UInt8 → List Token
  | [] => m.finish
  | b :: bs => (next escapes m b).1 ++ tokens escapes (next escapes m b).2 bs

def outside (escapes : Bool) (m : Mode) : List UInt8 → Bool
  | [] => true
  | b :: bs => (b ≠ 63 || m.between) && outside escapes (next escapes m b).2 bs

/-- In order, each parameter becomes the literal of its value. -/
def substitute : List Token → List (List UInt8) → List Token
  | [], _ => []
  | .param :: ts, v :: vs => .literal v :: substitute ts vs
  | t :: ts, vs => t :: substitute ts vs

def escape (v : List UInt8) : List UInt8 := v.flatMap fun b => if b = 39 then [39, 39] else [b]

/-- Every backslash stands before a byte with which it stays as it is. -/
def plain : List UInt8 → Bool
  | [] => true
  | b :: bs => (b ≠ 92 || bs.head?.any fun c => c = 37 || c = 95) && plain bs

theorem next_of_none {m : Mode} (h : m.between = true) (hc : m.continued b = none) :
    next escapes m b = (m.pending ++ (start b).1, (start b).2) := by
  rw [next, if_pos h, hc]

theorem next_param {m : Mode} (h : m.between = true) :
    next escapes m 63 = (m.pending ++ [.param], .code) := by
  apply next_of_none h
  cases m with
  | quotedEnd tick => cases tick <;> rfl
  | _ => rfl

theorem next_quote {m : Mode} (h : m.between = true) (hne : ∀ v, m ≠ .strQuote v) :
    next escapes m 39 = (m.pending, .str []) := by
  rw [next_of_none h, start, if_pos rfl, append_nil]
  cases m with
  | quotedEnd tick => cases tick <;> rfl
  | strQuote v => exact absurd rfl (hne v)
  | _ => rfl

theorem next_strQuote (v : List UInt8) : next escapes (.strQuote v) 39 = ([], .str (v ++ [39])) := rfl

theorem next_strQuote_of_ne (hb : b ≠ 39) (v : List UInt8) :
    next escapes (.strQuote v) b = (.literal v :: (start b).1, (start b).2) :=
  next_of_none rfl (if_neg hb)

theorem next_str (v : List UInt8) (b : UInt8) :
    next escapes (.str v) b = ([], Mode.inside escapes b (.str v)) := rfl

theorem next_strEscape (v : List UInt8) (b : UInt8) :
    next escapes (.strEscape v) b = ([], .str (v ++ unescape b)) := rfl

theorem start_ne_strQuote (b : UInt8) (v : List UInt8) : (start b).2 ≠ .strQuote v := by
  unfold start
  split_ifs <;> intro h <;> cases h

theorem eq_quote_of_next {m : Mode} (h : (next escapes m b).2 = .strQuote v) : b = 39 := by
  unfold next at h
  split at h
  · split at h
    case h_1 m' hc =>
      cases m with
      | word | strQuote | quotedEnd | dash | slash =>
        simp only [Mode.continued] at hc
        split at hc
        · cases hc
          cases h
        · cases hc
      | _ => cases hc
    case h_2 => exact absurd h (start_ne_strQuote b v)
  case isFalse hm =>
    cases m with
    | code | word | strQuote | quotedEnd | dash | slash => exact absurd rfl hm
    | strEscape | quotedEscape => cases h
    | str =>
      simp only [Mode.inside] at h
      split_ifs at h
      assumption
    | quoted | line | block | blockStar =>
      simp only [Mode.inside] at h
      split_ifs at h

theorem strQuote_of_between {m : Mode} (h : (next escapes m 39).2.between = true) :
    ∃ v, (next escapes m 39).2 = .strQuote v := by
  cases m with
  | str v => exact ⟨v, rfl⟩
  | quoted tick text => cases tick <;> cases escapes <;> cases h
  | quotedEnd tick text => cases tick <;> cases h
  | _ => cases h

def Begins (v : List UInt8) (ts : List Token) : Prop :=
  (∃ u rest, ts = .literal (v ++ u) :: rest) ∨ ∃ rest, ts = .unterminated :: rest

theorem Begins.of_append (h : Begins (v ++ w) ts) : Begins v ts := by
  rcases h with ⟨u, rest, rfl⟩ | h
  · rw [append_assoc]
    exact .inl ⟨_, rest, rfl⟩
  · exact .inr h

theorem Begins.front (h : Begins v (.literal w :: ts)) : v <+: w := by
  rcases h with ⟨u, rest, heq⟩ | ⟨rest, heq⟩
  · cases heq
    exact prefix_append v u
  · cases heq

theorem Begins.head (h : Begins (v ++ [b]) (.literal (v ++ w) :: ts)) : w.head? = some b := by
  obtain ⟨u, rfl⟩ := (prefix_append_right_inj v).1 h.front
  rfl

theorem begins_str (escapes : Bool) (bs v : List UInt8) :
    Begins v (tokens escapes (.str v) bs) ∧ Begins v (tokens escapes (.strQuote v) bs) ∧
      Begins v (tokens escapes (.strEscape v) bs) := by
  induction bs generalizing v with
  | nil => exact ⟨.inr ⟨[], rfl⟩, .inl ⟨[], [], by rw [append_nil]; rfl⟩, .inr ⟨[], rfl⟩⟩
  | cons b bs ih =>
    refine ⟨?_, ?_, (ih _).1.of_append⟩
    · rw [tokens, next_str, Mode.inside]
      split
      · exact (ih v).2.1
      · split
        · exact (ih v).2.2
        · exact (ih _).1.of_append
    · by_cases hb : b = 39
      · rw [hb]
        exact (ih _).1.of_append
      · rw [tokens, next_strQuote_of_ne hb]
        exact .inl ⟨[], _, by rw [append_nil]; rfl⟩

theorem tokens_strQuote (escapes : Bool) (bs v : List UInt8) :
    (∃ ts, tokens escapes (.strQuote v) bs = .literal v :: ts) ∨
      Begins (v ++ [39]) (tokens escapes (.strQuote v) bs) := by
  cases bs with
  | nil => exact .inl ⟨[], rfl⟩
  | cons b bs =>
    by_cases hb : b = 39
    · rw [hb]
      exact .inr (begins_str escapes bs _).1
    · rw [tokens, next_strQuote_of_ne hb]
      exact .inl ⟨_, rfl⟩

theorem tokens_quote_ne (escapes : Bool) (bs v : List UInt8) (ts : List Token) :
    tokens escapes (.strQuote v) (39 :: bs) ≠ .literal v :: ts := by
  intro h
  have hbegins := (begins_str escapes bs (v ++ [39])).1
  rw [tokens, next_strQuote, nil_append] at h
  rw [h] at hbegins
  have hle := hbegins.front.length_le
  rw [length_append, length_singleton] at hle
  omega

theorem escape_cons (b : UInt8) (v : List UInt8) :
    escape (b :: v) = (if b = 39 then [39, 39] else [b]) ++ escape v := flatMap_cons

theorem tokens_escape_cons (hb : b ≠ 92 ∨ escapes = false) (acc v s : List UInt8) :
    tokens escapes (.str acc) (escape (b :: v) ++ s) =
      tokens escapes (.str (acc ++ [b])) (escape v ++ s) := by
  rw [escape_cons]
  split
  case isTrue hq =>
    rw [hq]
    rfl
  case isFalse hq =>
    have hno : (escapes && decide (b = 92)) = false := by
      rcases hb with hb | rfl
      · rw [decide_eq_false hb, Bool.and_false]
      · rfl
    rw [append_assoc, singleton_append, tokens, next_str, Mode.inside, if_neg hq, hno]
    rfl

theorem tokens_escape_pattern (hc : c = 37 ∨ c = 95) (acc v s : List UInt8) :
    tokens true (.str acc) (escape (92 :: c :: v) ++ s) =
      tokens true (.str (acc ++ [92, c])) (escape v ++ s) := by
  rcases hc with rfl | rfl <;> rfl

theorem plain_pattern (hc : c = 37 ∨ c = 95) (v : List UInt8) : plain (92 :: c :: v) = plain v := by
  rcases hc with rfl | rfl <;> rfl

theorem plain_cons (hb : b ≠ 92) (v : List UInt8) : plain (b :: v) = plain v := by
  rw [plain, decide_eq_true hb, Bool.true_or, Bool.true_and]

theorem tokens_escape (h : escapes = true → plain v = true) (acc s : List UInt8) :
    tokens escapes (.str acc) (escape v ++ s) = tokens escapes (.str (acc ++ v)) s := by
  -- a backslash and the byte after it are read together, so the induction is on the length
  induction hn : v.length using Nat.strongRecOn generalizing v acc with
  | ind n ih =>
    cases v with
    | nil => rw [append_nil]; rfl
    | cons b v =>
      rw [length_cons] at hn
      by_cases hb : b ≠ 92 ∨ escapes = false
      · rw [tokens_escape_cons hb, ih v.length (by omega) _ _ rfl, append_assoc]
        · rfl
        · intro hesc
          have hb : b ≠ 92 := hb.resolve_right (by rw [hesc]; decide)
          rw [← plain_cons hb]
          exact h hesc
      · push Not at hb
        obtain ⟨rfl, hesc⟩ := hb
        rw [Bool.ne_false_iff] at hesc
        subst hesc
        have hplain := h rfl
        cases v with
        | nil => cases hplain
        | cons c v =>
          have hc : c = 37 ∨ c = 95 := by
            rw [plain, Bool.and_eq_true_iff] at hplain
            have hc := hplain.1
            rw [head?_cons, Option.any_some, decide_eq_false (not_not.2 rfl), Bool.false_or,
              Bool.or_eq_true_iff, decide_eq_true_iff, decide_eq_true_iff] at hc
            exact hc
          rw [tokens_escape_pattern hc, ih v.length (by rw [← hn, length_cons]; omega) _ _ rfl,
            append_assoc]
          · rfl
          · intro _
            rw [← plain_pattern hc]
            exact hplain

theorem unescape_eq (h : b ≠ 37) (h' : b ≠ 95) (hb : b ≠ 92) : ∃ y, y ≠ 92 ∧ unescape b = [y] := by
  simp only [unescape, h, h', decide_false, Bool.or_self, Bool.false_eq_true, if_false]
  split_ifs
  all_goals first | exact ⟨_, by decide, rfl⟩ | exact ⟨b, hb, rfl⟩

theorem begins_strEscape (hw : ∀ c ∈ w.head?, c ≠ 37 ∧ c ≠ 95 ∧ c ≠ 92) (acc s : List UInt8) :
    ∃ y, y ≠ 92 ∧ Begins (acc ++ [y]) (tokens true (.strEscape acc) (escape w ++ 39 :: s)) := by
  have hread : ∀ b bs, b ≠ 37 → b ≠ 95 → b ≠ 92 →
      ∃ y, y ≠ 92 ∧ Begins (acc ++ [y]) (tokens true (.strEscape acc) (b :: bs)) := by
    intro b bs h h' hb
    obtain ⟨y, hy, heq⟩ := unescape_eq h h' hb
    refine ⟨y, hy, ?_⟩
    rw [tokens, next_strEscape, heq]
    exact (begins_str true bs _).1
  cases w with
  | nil => exact hread 39 s (by decide) (by decide) (by decide)
  | cons c w =>
    obtain ⟨h, h', hc⟩ := hw c rfl
    rw [escape_cons]
    split
    · exact hread 39 _ (by decide) (by decide) (by decide)
    · exact hread c _ h h' hc

/-- A value with an escape is not read back: `k` counts the backslashes already lost. -/
theorem tokens_escape_ne (h : 0 < k ∨ plain w = false) (acc s : List UInt8) (ts : List Token) :
    tokens true (.str acc) (escape w ++ 39 :: s) ≠
      .literal (acc ++ (List.replicate k 92 ++ w)) :: ts := by
  have hhead : ∀ j (l : List UInt8), (List.replicate (j + 1) 92 ++ l).head? = some 92 := fun _ _ => rfl
  have hshift : ∀ j (l : List UInt8),
      List.replicate j 92 ++ 92 :: l = List.replicate (j + 1) 92 ++ l := by
    intro j l
    rw [replicate_succ', append_assoc]
    rfl
  induction hn : w.length using Nat.strongRecOn generalizing w acc k with
  | ind n ih =>
    intro heq
    cases w with
    | nil =>
      obtain ⟨j, rfl⟩ := Nat.exists_eq_succ_of_ne_zero (Nat.ne_of_gt (h.resolve_right (by decide)))
      have heq : tokens true (.strQuote acc) s = _ := heq
      rcases tokens_strQuote true s acc with ⟨rest, hlit⟩ | hbegins
      · rw [hlit] at heq
        have hlen := congrArg List.length (Token.literal.inj (List.cons.inj heq).1)
        rw [length_append, length_append, length_replicate] at hlen
        omega
      · rw [heq] at hbegins
        cases (hhead j []).symm.trans hbegins.head
    | cons b w =>
      by_cases hb : b = 92
      · subst hb
        by_cases hw : ∀ c ∈ w.head?, c ≠ 37 ∧ c ≠ 95 ∧ c ≠ 92
        · obtain ⟨y, hy, hbegins⟩ := begins_strEscape hw acc s
          have heq : tokens true (.strEscape acc) (escape w ++ 39 :: s) = _ := heq
          rw [heq, hshift] at hbegins
          exact hy (Option.some.inj (hbegins.head.symm.trans (hhead k w)))
        · push Not at hw
          obtain ⟨c, hc, hc'⟩ := hw
          obtain ⟨w, rfl⟩ := head?_eq_some_iff.1 hc
          have hlen : w.length < n := by
            rw [← hn, length_cons, length_cons]
            omega
          by_cases hpattern : c = 37 ∨ c = 95
          · have hne : c ≠ 92 := by rcases hpattern with rfl | rfl <;> decide
            rw [tokens_escape_pattern hpattern] at heq
            cases k with
            | zero =>
              have hplain := h.resolve_left (Nat.lt_irrefl 0)
              rw [plain_pattern hpattern] at hplain
              apply ih w.length hlen (k := 0) (.inr hplain) (acc ++ [92, c]) rfl
              rw [heq, append_assoc]
              rfl
            | succ k =>
              have hbegins := (begins_str true (escape w ++ 39 :: s) (acc ++ [92, c])).1
              have hvalue : acc ++ (List.replicate (k + 1) 92 ++ 92 :: c :: w) =
                  (acc ++ [92]) ++ (List.replicate (k + 1) 92 ++ c :: w) := by
                rw [hshift, replicate_succ, append_assoc]
                rfl
              rw [heq, hvalue, append_cons] at hbegins
              exact hne (Option.some.inj ((hhead k _).symm.trans hbegins.head)).symm
          · push Not at hpattern
            cases hc' hpattern.1 hpattern.2
            apply ih w.length hlen (.inl (Nat.succ_pos k)) (acc ++ [92]) rfl
            have heq : tokens true (.str (acc ++ [92])) (escape w ++ 39 :: s) = _ := heq
            rw [heq, hshift, hshift, replicate_succ, append_assoc]
            rfl
      · rw [tokens_escape_cons (.inl hb)] at heq
        cases k with
        | zero =>
          have hplain := h.resolve_left (Nat.lt_irrefl 0)
          rw [plain_cons hb] at hplain
          apply ih w.length (by rw [← hn, length_cons]; omega) (k := 0) (.inr hplain)
            (acc ++ [b]) rfl
          rw [heq, append_assoc]
          rfl
        | succ k =>
          have hbegins := (begins_str true (escape w ++ 39 :: s) (acc ++ [b])).1
          rw [heq] at hbegins
          exact hb (Option.some.inj ((hhead k _).symm.trans hbegins.head)).symm

end Csilk.Lib.Sql
