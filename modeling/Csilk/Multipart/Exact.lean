import Csilk.Multipart.Headers
import Mathlib.Data.Nat.Find

namespace Csilk.Multipart
open Csilk.Lib List Option

theorem bodyEnd_first (hne : n ≠ []) (h10 : 10 ∉ n) (hocc : 10 :: n <+: body.drop q)
    (hfirst : ∀ j < q, ¬ 10 :: n <+: body.drop j) (hstart : start ≤ q + 1)
    (hfuel : q + 1 < fuel + start) :
    bodyEnd n body fuel start = some (dropLineEnd body (q + 1)) := by
  obtain ⟨hlf, hnext⟩ := cons_prefix_drop_iff.1 hocc
  have hpos : 0 < n.length := length_pos_of_ne_nil hne
  have hlen : q + 1 + n.length ≤ body.length := by
    have := hnext.length_le
    rw [length_drop] at this
    omega
  induction fuel generalizing start with
  | zero => omega
  | succ fuel ih =>
    rw [bodyEnd, if_pos (by omega)]
    have hthere : n <+: (body.drop start).drop (q + 1 - start) := by
      rwa [drop_drop, Nat.add_sub_cancel' hstart]
    cases hsearch : search n (body.drop start) with
    | none =>
      apply absurd hthere (search_none hsearch _)
      rw [length_drop]
      omega
    | some i =>
      obtain ⟨-, hi, hbefore⟩ := search_some hsearch
      rw [drop_drop] at hi
      have hle : start + i ≤ q + 1 := by
        by_contra hgt
        exact hbefore (q + 1 - start) (by omega) hthere
      by_cases hlast : 0 < start + i ∧ body[start + i - 1]? = some 10
      · have hq : start + i = q + 1 := by
          by_contra hne
          apply hfirst (start + i - 1) (by omega)
          rw [cons_prefix_drop_iff, Nat.sub_add_cancel hlast.1]
          exact ⟨hlast.2, hi⟩
        simp only [if_pos hlast]
        rw [hq]
      · have hlt : start + i ≠ q + 1 := by
          intro heq
          apply hlast
          rw [heq]
          exact ⟨Nat.zero_lt_succ q, hlf⟩
        have hapart := prefix_drop_apart hi h10 hlf
        simp only [if_neg hlast]
        exact ih (by omega) (by omega)

theorem dropLineEnd_le (body : Bytes) (q : Nat) : dropLineEnd body (q + 1) ≤ q := by
  rw [dropLineEnd]
  split <;> omega

section Data
variable {n : Bytes} (hne : n ≠ []) (h13 : 13 ∉ n) (h10 : 10 ∉ n)
include hne h13 h10

theorem bodyEnd_plain (hdata : ¬ 10 :: n <:+: data) (rest : Bytes) :
    bodyEnd n (data ++ (crlf ++ (n ++ rest)))
      ((data ++ (crlf ++ (n ++ rest))).length + 1) 0 = some data.length := by
  have hget : (data ++ (crlf ++ (n ++ rest)))[data.length]? = some 13 := by
    rw [getElem?_append_right le_rfl, Nat.sub_self]
    rfl
  have hocc : 10 :: n <+: (data ++ (crlf ++ (n ++ rest))).drop (data.length + 1) := by
    rw [← drop_drop, drop_left]
    exact prefix_append (10 :: n) rest
  have hfirst : ∀ j < data.length + 1, ¬ 10 :: n <+: (data ++ (crlf ++ (n ++ rest))).drop j := by
    intro j hj hp
    have hno : 13 ∉ 10 :: n := by
      rw [mem_cons, not_or]
      exact ⟨by decide, h13⟩
    rcases prefix_drop_apart hp hno hget with hlt | hle
    · omega
    · exact hdata (infix_iff_drop.2 ⟨j, prefix_drop_of_append hp hle⟩)
  rw [bodyEnd_first hne h10 hocc hfirst (by omega) (by simp [crlf]), dropLineEnd,
    if_pos ⟨by omega, hget⟩]
  rfl

omit h13 in
theorem bodyEnd_cut (hdata : 10 :: n <:+: data) (rest : Bytes) :
    ∃ stop < data.length, bodyEnd n (data ++ rest) ((data ++ rest).length + 1) 0 = some stop := by
  classical
  have hex : ∃ j, 10 :: n <+: (data ++ rest).drop j ∧ j < data.length := by
    obtain ⟨j, hj⟩ := infix_iff_drop.1 hdata
    have hlt : j < data.length := by
      have := hj.length_le
      rw [length_drop, length_cons] at this
      omega
    refine ⟨j, ?_, hlt⟩
    rw [drop_append_of_le_length (le_of_lt hlt)]
    exact hj.trans (prefix_append _ _)
  obtain ⟨hocc, hlt⟩ := Nat.find_spec hex
  have hfirst : ∀ j < Nat.find hex, ¬ 10 :: n <+: (data ++ rest).drop j := by
    intro j hj hp
    exact Nat.find_min hex hj ⟨hp, lt_trans hj hlt⟩
  refine ⟨_, lt_of_le_of_lt (dropLineEnd_le (data ++ rest) _) hlt,
    bodyEnd_first hne h10 hocc hfirst (by omega) ?_⟩
  rw [length_append]
  omega

end Data

theorem closeValue_some (h : closeValue limit text = some v) :
    ∃ back, text = v ++ 34 :: back ∧ 0 ∉ v ∧ 34 ∉ v ∧ v.length < limit := by
  obtain ⟨len, hlen, hv⟩ := bind_eq_some_iff.1 h
  obtain ⟨front, back, rfl, rfl, h0, h34⟩ := strchr_eq_some_iff.1 hlen
  rw [take_left] at hv
  obtain ⟨hlimit, hv⟩ := Option.ite_none_right_eq_some.1 hv
  cases hv
  exact ⟨back, rfl, h0, h34, hlimit⟩

theorem paramValue_stray (text : Bytes) :
    (paramValue filenameKey csilkMaxPartFilename text).getD [] ≠ [] ↔ StrayFilename text := by
  have hkey : filenameKey ≠ [] ∧ 0 ∉ filenameKey := by decide
  constructor
  · intro hne
    cases hv : paramValue filenameKey csilkMaxPartFilename text with
    | none => rw [hv] at hne; exact absurd rfl hne
    | some v =>
      rw [hv] at hne
      obtain ⟨i, hi, hclose⟩ := bind_eq_some_iff.1 hv
      obtain ⟨front, rest, rfl, rfl, h0, hfirst⟩ := (strstr_eq_some_iff hkey.1 hkey.2).1 hi
      rw [← drop_drop, drop_left] at hclose
      obtain ⟨back, rfl, hv0, h34, hlen⟩ := closeValue_some hclose
      refine ⟨front, v, back, rfl, ?_, h34, hne, hlen, hfirst⟩
      rw [mem_append, not_or]
      exact ⟨h0, hv0⟩
  · intro hstray
    obtain ⟨front, value, back, rfl, h0, h34, hne, hlen, hfirst⟩ := hstray
    rw [mem_append, not_or] at h0
    rw [paramValue_found hkey.1 hkey.2 h0.1 hfirst, closeValue_quoted h34 h0.2, if_pos hlen]
    exact hne

def FormPart.content (p : FormPart) (following : Bytes) : Bytes :=
  p.headers ++ (crlf ++ (p.data ++ (crlf ++ following)))

def Outcome.cons (part : Part) (rest : Outcome) : Outcome :=
  { rest with parts := part :: rest.parts }

theorem parseParts_part {p : FormPart} (h : p.WellFormed boundary) (behind : Bytes)
    (hstop : bodyEnd n (p.data ++ (crlf ++ following))
      ((p.data ++ (crlf ++ following)).length + 1) 0 = some stop)
    (hmax : stop ≤ csilkMaxPartSize) (fuel : Nat) :
    parseParts n (fuel + 1) (piece (p.content following) behind) =
      (match nextPart n ((piece (p.data ++ (crlf ++ following)) behind).advance stop) with
        | none => some Outcome.done
        | some c => parseParts n fuel c).map (Outcome.cons ⟨p.seenName,
          p.seenFilename (following ++ behind), p.contentType.getD [],
          (p.data ++ (crlf ++ following)).take stop⟩) := by
  have hleft : 3 ≤ (piece (p.content following) behind).left := by
    simp [piece, FormPart.content, crlf]
    omega
  have hheaders := parseHeaders_headers h ((piece (p.content following) behind).left - 2) following
    behind
  rw [← FormPart.content, show (piece (p.content following) behind).left - 2 + 3 =
    (piece (p.content following) behind).left + 1 by omega] at hheaders
  have hskip : skipEmptyLine (piece (crlf ++ (p.data ++ (crlf ++ following))) behind) =
      piece (p.data ++ (crlf ++ following)) behind :=
    (if_pos ⟨Nat.zero_lt_succ _, prefix_over ..⟩).trans (piece_advance crlf _ _)
  rw [parseParts, if_neg (by omega), hheaders]
  simp only [hskip, piece_body, hstop, bind_eq_bind, bind_some, if_neg (Nat.not_lt_of_le hmax)]
  cases nextPart n ((piece (p.data ++ (crlf ++ following)) behind).advance stop) with
  | none => rfl
  | some c => exact (map_eq_bind ..).symm

theorem IsBoundary.notMem (h : IsBoundary boundary) (hx : x = 13 ∨ x = 10 ∨ x = 0 ∨ x = 34) :
    x ∉ delimiter boundary := by
  rw [delimiter, mem_append, not_or]
  constructor
  · rcases hx with rfl | rfl | rfl | rfl <;> decide
  · intro hmem
    have hchar := h.chars x hmem
    revert hchar
    rcases hx with rfl | rfl | rfl | rfl <;> decide

theorem delimiter_ne_nil (boundary : Bytes) : delimiter boundary ≠ [] := cons_ne_nil _ _

theorem nextPart_delimiter (hne : n ≠ []) (rest behind : Bytes) :
    nextPart n (piece (crlf ++ (n ++ rest)) behind) =
      if 2 ≤ rest.length ∧ (ascii "--").isPrefixOf (rest ++ behind) then none
      else some (skipLineEnd (piece rest behind)) := by
  have hpos : 0 < n.length := length_pos_of_ne_nil hne
  have hlen : (piece (n ++ rest) behind).left = n.length + rest.length := length_append
  have hskip : (if 2 < (piece (crlf ++ (n ++ rest)) behind).left ∧
      crlf.isPrefixOf (piece (crlf ++ (n ++ rest)) behind).text then
      (piece (crlf ++ (n ++ rest)) behind).advance 2
      else piece (crlf ++ (n ++ rest)) behind) = piece (n ++ rest) behind := by
    rw [if_pos ⟨by simp [piece, crlf]; omega, prefix_over ..⟩]
    exact piece_advance crlf _ _
  have hdrop : (piece (n ++ rest) behind).text.drop n.length = rest ++ behind := by
    rw [piece, append_assoc, drop_left]
  simp only [nextPart, hskip]
  rw [if_neg (by omega), if_neg (not_not_intro (prefix_over ..)), hdrop, piece_advance]
  apply if_congr _ rfl rfl
  exact and_congr_left' (by omega)

theorem skipLineEnd_crlf (text behind : Bytes) :
    skipLineEnd (piece (crlf ++ text) behind) = piece text behind := by
  have hcr : (piece (crlf ++ text) behind).advance 1 = piece (10 :: text) behind :=
    piece_advance [13] (10 :: text) behind
  have hfirst : (piece (crlf ++ text) behind).text.head? = some 13 := rfl
  have hsecond : (piece (10 :: text) behind).text.head? = some 10 := rfl
  exact piece_advance [10] text behind

theorem nextPart_serialise (boundary epilogue behind : Bytes) (ps : List FormPart) :
    nextPart (delimiter boundary) (piece (crlf ++ serialise boundary epilogue ps) behind) =
      match ps with
      | [] => none
      | p :: ps => some (piece (p.content (serialise boundary epilogue ps)) behind) := by
  cases ps with
  | nil =>
    rw [serialise, nextPart_delimiter (delimiter_ne_nil boundary), if_pos]
    rw [length_append]
    exact ⟨Nat.le_add_right 2 _, prefix_over ..⟩
  | cons p ps =>
    rw [serialise, nextPart_delimiter (delimiter_ne_nil boundary), if_neg]
    · exact congrArg some (skipLineEnd_crlf ..)
    · intro hclose
      exact absurd hclose.2 (by decide : ¬ false = true)

theorem cons_eq_iff (x : Option Outcome) (part e : Part) (es : List Part) :
    x.map (Outcome.cons part) = some ⟨e :: es, none⟩ ↔ part = e ∧ x = some ⟨es, none⟩ := by
  cases x with
  | none => simp
  | some o =>
    obtain ⟨parts, status⟩ := o
    simp [Outcome.cons, and_assoc]

theorem seen_iff (p : FormPart) (following contentType data : Bytes) :
    (⟨p.seenName, p.seenFilename following, contentType, data⟩ : Part) =
        ⟨p.name, p.filename.getD [], contentType, data⟩ ↔
      match p.filename with
      | none => ¬ StrayFilename (p.name ++ 34 :: p.behindName following)
      | some f =>
        if p.filenameFirst then p.name = if f.length < csilkMaxPartName then f else []
        else ascii "filename=" <:+ p.name → f = ascii "; filename=" := by
  simp only [Part.mk.injEq, and_true]
  rw [FormPart.seenName, FormPart.seenFilename]
  cases p.filename with
  | none =>
    rw [← paramValue_stray, not_not]
    exact and_iff_right rfl
  | some f =>
    cases p.filenameFirst with
    | true =>
      simp only [if_true, getD_some, and_true]
      exact eq_comm
    | false =>
      simp only [Bool.false_eq_true, if_false, getD_some, true_and]
      split
      case isTrue hs => exact ⟨fun h _ => h.symm, fun h => (h hs).symm⟩
      case isFalse hs => exact iff_of_true rfl fun h => absurd h hs

theorem serialise_delimiter (boundary epilogue : Bytes) (ps : List FormPart) :
    ∃ rest, serialise boundary epilogue ps = delimiter boundary ++ rest := by
  cases ps with
  | nil | cons p ps => exact ⟨_, rfl⟩

theorem length_le_serialise (boundary epilogue : Bytes) (ps : List FormPart) :
    ps.length ≤ (serialise boundary epilogue ps).length := by
  induction ps with
  | nil => exact Nat.zero_le _
  | cons p ps ih =>
    have hpos : 0 < (delimiter boundary).length := length_pos_of_ne_nil (delimiter_ne_nil _)
    simp only [serialise, length_append, length_cons]
    omega

theorem requestType_nul (hb : IsBoundary boundary) (quoted : Bool) :
    cString (requestType quoted boundary) = requestType quoted boundary := by
  have h0 : 0 ∉ boundary := fun hm =>
    hb.notMem (.inr (.inr (.inl rfl))) (mem_append_right _ hm)
  apply cString_eq_self
  rw [requestType, mem_append, not_or]
  apply And.intro (by decide)
  cases quoted with
  | false => exact h0
  | true => simpa using h0

section

variable (hb : IsBoundary boundary) (epilogue behind : Bytes)
include hb epilogue behind

theorem parseParts_step {p : FormPart}
    (hp : p.WellFormed boundary) (ps : List FormPart) (fuel : Nat) (es : List Part) :
    parseParts (delimiter boundary) (fuel + 1)
        (piece (p.content (serialise boundary epilogue ps)) behind) = some ⟨p.expected :: es, none⟩ ↔
      p.Plain boundary (serialise boundary epilogue ps ++ behind) ∧ (match ps with
          | [] => some Outcome.done
          | q :: ps => parseParts (delimiter boundary) fuel
              (piece (q.content (serialise boundary epilogue ps)) behind)) = some ⟨es, none⟩ := by
  have hne := delimiter_ne_nil boundary
  have h13 : 13 ∉ delimiter boundary := hb.notMem (.inl rfl)
  have h10 : 10 ∉ delimiter boundary := hb.notMem (.inr (.inl rfl))
  have hsize := hp.data.1
  rw [FormPart.Plain]
  by_cases hdata : 10 :: delimiter boundary <:+: p.data
  · obtain ⟨stop, hlt, hstop⟩ := bodyEnd_cut hne h10 hdata (crlf ++ serialise boundary epilogue ps)
    rw [parseParts_part hp behind hstop (by omega), cons_eq_iff]
    apply iff_of_false
    · intro h
      have hlen := congrArg (fun part => part.data.length) h.1
      simp only [FormPart.expected, length_take, length_append] at hlen
      omega
    · exact fun h => h.1.1 hdata
  · obtain ⟨rest, hrest⟩ := serialise_delimiter boundary epilogue ps
    have hstop := bodyEnd_plain hne h13 h10 hdata rest
    rw [← hrest] at hstop
    rw [parseParts_part hp behind hstop (le_of_lt hsize), piece_advance, nextPart_serialise,
      cons_eq_iff, take_left, FormPart.expected, seen_iff, and_iff_right hdata]
    cases ps with
    | nil | cons q ps => exact Iff.rfl

theorem parseParts_iff (p : FormPart)
    (ps : List FormPart) (hwf : ∀ q ∈ p :: ps, q.WellFormed boundary) (hfuel : ps.length < fuel) :
    parseParts (delimiter boundary) fuel (piece (p.content (serialise boundary epilogue ps)) behind) =
        some ⟨(p :: ps).map FormPart.expected, none⟩ ↔
      AllPlain boundary epilogue behind (p :: ps) := by
  induction ps generalizing p fuel with
  | nil =>
    obtain ⟨fuel, rfl⟩ := Nat.exists_eq_add_one_of_ne_zero (ne_of_gt hfuel)
    rw [map_cons, parseParts_step hb epilogue behind (hwf p mem_cons_self)]
    exact and_congr_right' (iff_of_true rfl trivial)
  | cons q ps ih =>
    obtain ⟨fuel, rfl⟩ := Nat.exists_eq_add_one_of_ne_zero (ne_of_gt (Nat.zero_lt_of_lt hfuel))
    rw [map_cons, parseParts_step hb epilogue behind (hwf p mem_cons_self)]
    apply and_congr_right'
    exact ih q (fun r hr => hwf r (mem_cons_of_mem _ hr)) (Nat.lt_of_succ_lt_succ hfuel)

theorem csilkMultipartParse_quoted (parts : List FormPart) :
    csilkMultipartParse (some (requestType true boundary))
      (some (serialise boundary epilogue parts)) behind = some .done := by
  obtain ⟨rest, hrest⟩ := serialise_delimiter boundary epilogue parts
  have hlen : ¬ (34 :: (boundary ++ [34])).length = 0 := Nat.succ_ne_zero _
  have hstart : ¬ ((ascii "--" ++ 34 :: (boundary ++ [34])).take (delimiterSize - 1)).isPrefixOf
      (delimiter boundary ++ rest ++ behind) := by
    cases boundary with
    | nil => exact absurd rfl hb.nonempty
    | cons b boundary =>
      have hb34 : b ≠ 34 := fun h =>
        hb.notMem (.inr (.inr (.inr rfl))) (mem_append_right _ (h ▸ mem_cons_self))
      intro h
      obtain ⟨-, hsecond⟩ := Bool.and_eq_true_iff.1 h
      obtain ⟨-, hthird⟩ := Bool.and_eq_true_iff.1 hsecond
      have hthird : (34 == b) = true := (Bool.and_eq_true_iff.1 hthird).1
      exact hb34 (eq_of_beq hthird).symm
  simp only [csilkMultipartParse, requestType_nul hb]
  rw [requestType, if_pos rfl, drop_left,
    if_neg (not_not_intro (prefix_self ..)), if_neg hlen, hrest, if_pos hstart]

theorem csilkMultipartParse_unquoted (p : FormPart) (ps : List FormPart) :
    csilkMultipartParse (some (requestType false boundary))
        (some (serialise boundary epilogue (p :: ps))) behind =
      parseParts (delimiter boundary) ((serialise boundary epilogue (p :: ps)).length + 1)
        (piece (p.content (serialise boundary epilogue ps)) behind) := by
  have hlen : ¬ boundary.length = 0 := fun h => hb.nonempty (eq_nil_of_length_eq_zero h)
  have htake : (ascii "--" ++ boundary).take (delimiterSize - 1) = delimiter boundary := by
    apply take_of_length_le
    have h70 := hb.length
    rw [length_append]
    exact le_trans (Nat.add_le_add_left h70 _) (by decide)
  have hrequest : requestType false boundary = boundaryKey ++ boundary := rfl
  have hstart : (delimiter boundary).isPrefixOf
      (serialise boundary epilogue (p :: ps) ++ behind) = true := prefix_over ..
  simp only [csilkMultipartParse, requestType_nul hb]
  rw [hrequest, drop_left, if_neg (not_not_intro (prefix_self ..)), if_neg hlen, htake,
    if_neg (not_not_intro hstart)]
  congr 1
  exact (congrArg skipLineEnd (piece_advance ..)).trans (skipLineEnd_crlf ..)

end

/-- The handler gets each part once, in order and as written, just when the boundary is not quoted
and every part is plain. -/
theorem csilkMultipartParse_exact_iff (boundary epilogue behind : Bytes) (quoted : Bool)
    (parts : List FormPart) (hb : IsBoundary boundary) (hne : parts ≠ [])
    (hwf : ∀ p ∈ parts, p.WellFormed boundary) :
    csilkMultipartParse (some (requestType quoted boundary))
        (some (serialise boundary epilogue parts)) behind =
        some ⟨parts.map FormPart.expected, none⟩ ↔
      quoted = false ∧ AllPlain boundary epilogue behind parts := by
  cases parts with
  | nil => exact absurd rfl hne
  | cons p ps =>
    cases quoted with
    | true =>
      rw [csilkMultipartParse_quoted hb]
      apply iff_of_false
      · rintro ⟨⟩
      · intro h
        cases h.1
    | false =>
      have hfuel := length_le_serialise boundary epilogue (p :: ps)
      rw [csilkMultipartParse_unquoted hb, parseParts_iff hb epilogue behind p ps hwf
        (Nat.lt_succ_of_le (Nat.le_of_succ_le hfuel))]
      exact (and_iff_right rfl).symm

instance (text : Bytes) : Decidable (StrayFilename text) :=
  decidable_of_iff _ (paramValue_stray text)

instance (boundary following : Bytes) (p : FormPart) :
    Decidable (p.Plain boundary following) :=
  match h : p.filename with
  | none => decidable_of_iff (¬ 10 :: delimiter boundary <:+: p.data ∧
      ¬ StrayFilename (p.name ++ 34 :: p.behindName following)) (by rw [FormPart.Plain, h])
  | some f => decidable_of_iff (¬ 10 :: delimiter boundary <:+: p.data ∧
      if p.filenameFirst then p.name = if f.length < csilkMaxPartName then f else []
      else ascii "filename=" <:+ p.name → f = ascii "; filename=") (by rw [FormPart.Plain, h])

def plainForm : List FormPart :=
  [⟨ascii "f", some (ascii "x.txt"), some (ascii "text/plain"), ascii "hello", false, true⟩,
    ⟨ascii "a", none, none, ascii "1", false, false⟩]

theorem csilkMultipartParse_plainForm : csilkMultipartParse (some (requestType false (ascii "b0")))
        (some (serialise (ascii "b0") crlf plainForm)) [] =
      some ⟨plainForm.map FormPart.expected, none⟩ := by
  have hboundary : IsBoundary (ascii "b0") :=
    ⟨by decide, by decide,
      forall_mem_cons.2 ⟨by decide, forall_mem_singleton.2 (by decide)⟩, by decide⟩
  have hwf : ∀ p ∈ plainForm, p.WellFormed (ascii "b0") := by
    intro p hp
    rcases mem_cons.1 hp with rfl | hp
    · exact ⟨by decide, by decide, by decide, by decide⟩
    · rcases mem_singleton.1 hp with rfl
      exact ⟨by decide, by decide, by decide, by decide⟩
  have hplain : AllPlain (ascii "b0") crlf [] plainForm :=
    ⟨by decide +kernel, by decide +kernel, trivial⟩
  exact (csilkMultipartParse_exact_iff _ _ _ false plainForm hboundary (by decide) hwf).2
    ⟨rfl, hplain⟩

/-- A field before a file, and a file whose filename comes first. -/
def mixedForm : List FormPart :=
  [⟨ascii "a", none, none, ascii "1", false, false⟩,
    ⟨ascii "f", some (ascii "x.txt"), none, ascii "hello", true, false⟩]

-- The field has the filename of the file behind it, and the file its filename for its name.
theorem csilkMultipartParse_mixedForm : csilkMultipartParse (some (requestType false (ascii "b0")))
        (some (serialise (ascii "b0") crlf mixedForm)) [] =
      some ⟨[⟨ascii "a", ascii "x.txt", [], ascii "1"⟩,
        ⟨ascii "x.txt", ascii "x.txt", [], ascii "hello"⟩], none⟩ ∧
    mixedForm.map FormPart.expected = [⟨ascii "a", [], [], ascii "1"⟩,
      ⟨ascii "f", ascii "x.txt", [], ascii "hello"⟩] := by
  decide +kernel

end Csilk.Multipart
