import Csilk.Multipart.Form

namespace Csilk.Multipart
open Csilk.Lib List Option

theorem cString_append (h : 0 ∉ l) (rest : Bytes) : cString (l ++ rest) = l ++ cString rest := by
  apply takeWhile_append_of_pos
  intro b hb
  exact decide_eq_true fun h0 => h (h0 ▸ hb)

theorem cString_nul (bs : Bytes) : 0 ∉ cString bs := by
  intro h
  have hne := mem_takeWhile_imp h
  exact absurd hne (by decide)

theorem strstr_eq_some_iff (hne : n ≠ []) (hn : 0 ∉ n) : strstr text n = some i ↔ ∃ front back,
    text = front ++ (n ++ back) ∧ front.length = i ∧ 0 ∉ front ∧ ¬ n <:+: front ++ n.dropLast := by
  rw [strstr, search_eq_some_iff hne]
  constructor
  · intro h
    obtain ⟨front, back, hstring, hlen, hfirst⟩ := h
    have h0 := cString_nul text
    rw [hstring, mem_append, not_or] at h0
    refine ⟨front, back ++ text.dropWhile (· ≠ 0), ?_, hlen, h0.1, hfirst⟩
    rw [← append_assoc n, ← append_assoc, ← hstring]
    exact takeWhile_append_dropWhile.symm
  · intro h
    obtain ⟨front, back, rfl, hlen, h0, hfirst⟩ := h
    refine ⟨front, cString back, ?_, hlen, hfirst⟩
    rw [cString_append h0, cString_append hn]

theorem strstr_crlf (h13 : 13 ∉ l) (h0 : 0 ∉ l) (rest : Bytes) :
    strstr (l ++ (crlf ++ rest)) crlf = some l.length := by
  refine (strstr_eq_some_iff (by decide) (by decide)).2 ⟨l, rest, rfl, rfl, h0, ?_⟩
  intro h
  obtain ⟨front, back, hsplit⟩ := h
  have hline : l ++ 13 :: [] = front ++ 13 :: (10 :: back) := hsplit.symm.trans (append_assoc ..)
  cases ((append_cons_inj_of_notMem h13 not_mem_nil).1 hline).2.2

def closeValue (limit : Nat) (text : Bytes) : Option Bytes := do
  let len ← strchr text 34
  if len < limit then some (text.take len) else none

theorem paramValue_eq (key : Bytes) (limit : Nat) (text : Bytes) : paramValue key limit text =
      (strstr text key).bind fun start => closeValue limit (text.drop (start + key.length)) :=
  rfl

theorem strchr_eq_some_iff : strchr text 34 = some i ↔
    ∃ front back, text = front ++ 34 :: back ∧ front.length = i ∧ 0 ∉ front ∧ 34 ∉ front := by
  refine (strstr_eq_some_iff (n := [34]) (by decide) (by decide)).trans ?_
  simp only [dropLast_singleton, append_nil, singleton_infix_iff, singleton_append]

theorem closeValue_quoted (h34 : 34 ∉ v) (h0 : 0 ∉ v) (limit : Nat) (rest : Bytes) :
    closeValue limit (v ++ 34 :: rest) = if v.length < limit then some v else none := by
  have hlen : strchr (v ++ 34 :: rest) 34 = some v.length :=
    strchr_eq_some_iff.2 ⟨v, rest, rfl, rfl, h0, h34⟩
  rw [closeValue, hlen, bind_eq_bind, bind_some, take_left]

theorem paramValue_found (hne : key ≠ []) (hkey : 0 ∉ key) (h0 : 0 ∉ front)
    (hfirst : ¬ key <:+: front ++ key.dropLast) (limit : Nat) (rest : Bytes) :
    paramValue key limit (front ++ (key ++ rest)) = closeValue limit rest := by
  have hfind := (strstr_eq_some_iff hne hkey).2 ⟨front, rest, rfl, rfl, h0, hfirst⟩
  rw [paramValue_eq, hfind, bind_some, ← drop_drop, drop_left, drop_left]

theorem paramValue_quote (hm : 34 ∉ m ∧ 0 ∉ m) (h34 : 34 ∉ l) (h0 : 0 ∉ l) (limit : Nat)
    (rest : Bytes) :
    paramValue (m ++ [34]) limit (l ++ 34 :: rest) =
      if m <:+ l then closeValue limit rest else paramValue (m ++ [34]) limit rest := by
  split
  case isTrue hsuffix =>
    obtain ⟨front, rfl⟩ := hsuffix
    have htext : front ++ m ++ 34 :: rest = front ++ (m ++ [34] ++ rest) := by
      simp only [append_assoc, singleton_append]
    rw [mem_append, not_or] at h0
    rw [htext, paramValue_found (by simp) (by simp [hm.2]) h0.1]
    rw [dropLast_concat]
    exact fun h => h34 (h.subset (by simp))
  case isFalse hnot =>
    rw [paramValue_eq, paramValue_eq, strstr, cString_append h0, cString,
      takeWhile_cons_of_pos (by decide), search_skip hm.1 h34 hnot, bind_map, strstr]
    congr
    funext i
    have hlen : (l ++ [34]).length = l.length + 1 := length_append
    rw [Function.comp, append_cons l, Nat.add_right_comm, Nat.add_comm, ← drop_drop, ← hlen,
      drop_left]

theorem nameKey_eq : nameKey = ascii "name=" ++ [34] := by decide

theorem filenameKey_eq : filenameKey = ascii "filename=" ++ [34] := by decide

def piece (body behind : Bytes) : Cursor := ⟨body ++ behind, body.length⟩

theorem piece_advance (l r behind : Bytes) : (piece (l ++ r) behind).advance l.length = piece r behind := by
  rw [piece, piece, Cursor.advance, append_assoc, drop_left, length_append, Nat.add_sub_cancel_left]

theorem piece_body (body behind : Bytes) : (piece body behind).body = body := take_left

theorem prefix_self (l rest : Bytes) : l.isPrefixOf (l ++ rest) = true :=
  List.isPrefixOf_iff_prefix.2 (prefix_append l rest)

theorem prefix_over (l r behind : Bytes) : l.isPrefixOf (piece (l ++ r) behind).text = true := by
  rw [piece, append_assoc, prefix_self]

theorem skipSpaces_one (h : r.head? ≠ some 32) (behind : Bytes) :
    (piece (32 :: r) behind).skipSpaces = piece r behind := by
  have hnone : r.takeWhile (· = 32) = [] := by
    cases r with
    | nil => rfl
    | cons b r =>
      apply takeWhile_cons_of_neg
      exact fun hb => h (congrArg some (of_decide_eq_true hb))
  rw [Cursor.skipSpaces, piece_body, takeWhile_cons, hnone]
  exact piece_advance [32] r behind

def FormPart.seenName (p : FormPart) : Bytes :=
  match p.filename with
  | none => p.name
  | some f =>
    if p.filenameFirst then if f.length < csilkMaxPartName then f else []
    else p.name

def FormPart.seenFilename (p : FormPart) (following : Bytes) : Bytes :=
  match p.filename with
  | none =>
    (paramValue filenameKey csilkMaxPartFilename (p.name ++ 34 :: p.behindName following)).getD []
  | some f =>
    if p.filenameFirst then f
    else if ascii "filename=" <:+ p.name then ascii "; filename=" else f

theorem quoted_eq {lead key text : Bytes} (hkey : lead ++ key = text ++ [34]) (v rest : Bytes) :
    lead ++ (key ++ (v ++ [34]) ++ rest) = text ++ 34 :: (v ++ 34 :: rest) := by
  simp only [← append_assoc, hkey]
  simp only [append_assoc, cons_append, nil_append]

theorem formData_name (v rest : Bytes) : ascii "form-data; " ++ (nameKey ++ (v ++ [34]) ++ rest) =
    ascii "form-data; name=" ++ 34 :: (v ++ 34 :: rest) := quoted_eq (by decide) v rest

theorem formData_filename (v rest : Bytes) : ascii "form-data; " ++ (filenameParam v ++ rest) =
    ascii "form-data; filename=" ++ 34 :: (v ++ 34 :: rest) := quoted_eq (by decide) v rest

theorem semicolon_filename (v rest : Bytes) : ascii "; " ++ (filenameParam v ++ rest) =
    ascii "; filename=" ++ 34 :: (v ++ 34 :: rest) := quoted_eq (by decide) v rest

theorem paramValue_name (hv : IsQuotable v) (hlen : v.length < csilkMaxPartName) (rest : Bytes) :
    paramValue nameKey csilkMaxPartName (ascii "form-data; " ++ (nameKey ++ (v ++ [34]) ++ rest)) =
      some v := by
  rw [formData_name, nameKey_eq,
    paramValue_quote (by decide) (by decide) (by decide), if_pos (by decide),
    closeValue_quoted hv.1 hv.2.2.2, if_pos hlen]

theorem readDisposition_name (p : FormPart) (h : p.WellFormed boundary) (rest : Bytes) :
    (paramValue nameKey csilkMaxPartName (ascii "form-data; " ++ (p.params ++ rest))).getD [] =
      p.seenName := by
  rw [FormPart.params, FormPart.seenName]
  cases hf : p.filename with
  | none => exact congrArg (·.getD []) (paramValue_name h.name.2 h.name.1 rest)
  | some f =>
    obtain ⟨-, h34, -, -, h0⟩ := h.filename f hf
    cases p.filenameFirst with
    | false =>
      simp only [Bool.false_eq_true, if_false, append_assoc _ _ rest]
      exact congrArg (·.getD []) (paramValue_name h.name.2 h.name.1 _)
    | true =>
      -- The key of the filename ends with the key of the name.
      simp only [if_true, append_assoc _ _ rest]
      rw [formData_filename, nameKey_eq,
        paramValue_quote (by decide) (by decide) (by decide), if_pos (by decide),
        closeValue_quoted h34 h0]
      split <;> rfl

theorem readDisposition_filename (p : FormPart) (h : p.WellFormed boundary) (following : Bytes) :
    (paramValue filenameKey csilkMaxPartFilename
      (ascii "form-data; " ++ (p.params ++ p.behindName following))).getD [] =
      p.seenFilename following := by
  have hafter : ∀ rest, paramValue filenameKey csilkMaxPartFilename
      (ascii "form-data; " ++ (p.nameParam ++ rest)) =
        paramValue filenameKey csilkMaxPartFilename (p.name ++ 34 :: rest) := by
    intro rest
    rw [FormPart.nameParam, formData_name, filenameKey_eq,
      paramValue_quote (by decide) (by decide) (by decide), if_neg (by decide)]
  rw [FormPart.params, FormPart.seenFilename]
  cases hf : p.filename with
  | none => exact congrArg (·.getD []) (hafter _)
  | some f =>
    obtain ⟨hlen, h34, -, -, h0⟩ := h.filename f hf
    cases p.filenameFirst with
    | true =>
      simp only [if_true, append_assoc _ _ (p.behindName following)]
      rw [formData_filename, filenameKey_eq,
        paramValue_quote (by decide) (by decide) (by decide), if_pos (by decide),
        closeValue_quoted h34 h0, if_pos hlen]
      rfl
    | false =>
      simp only [Bool.false_eq_true, if_false, append_assoc _ _ (p.behindName following)]
      rw [hafter, semicolon_filename, filenameKey_eq,
        paramValue_quote (by decide) h.name.2.1 h.name.2.2.2.2]
      split
      case isTrue =>
        rfl
      case isFalse =>
        rw [paramValue_quote (by decide) (by decide) (by decide), if_pos (by decide),
          closeValue_quoted h34 h0, if_pos hlen]
        rfl

theorem params_line {p : FormPart} {x : UInt8} (h : p.WellFormed boundary) (hx : x = 13 ∨ x = 0) :
    x ∉ p.params := by
  have hname : x ∉ p.nameParam := by
    rw [FormPart.nameParam, mem_append, mem_append, not_or, not_or]
    rcases hx with rfl | rfl
    · exact ⟨by decide, h.name.2.2.1, by decide⟩
    · exact ⟨by decide, h.name.2.2.2.2, by decide⟩
  rw [FormPart.params]
  cases hf : p.filename with
  | none => exact hname
  | some f =>
    obtain ⟨-, -, h13, -, h0⟩ := h.filename f hf
    have hfile : x ∉ filenameParam f := by
      rw [filenameParam, mem_append, mem_append, not_or, not_or]
      rcases hx with rfl | rfl
      · exact ⟨by decide, h13, by decide⟩
      · exact ⟨by decide, h0, by decide⟩
    have hsep : x ∉ ascii "; " := by rcases hx with rfl | rfl <;> decide
    cases p.filenameFirst with
    | true | false => simp [hname, hfile, hsep]

theorem skipLine_append (h13 : 13 ∉ l) (h0 : 0 ∉ l) (rest behind : Bytes) :
    skipLine (piece (l ++ (crlf ++ rest)) behind) = some (piece rest behind) := by
  have hadvance := piece_advance (l ++ crlf) rest behind
  rw [append_assoc, length_append] at hadvance
  rw [skipLine, piece, append_assoc, append_assoc, strstr_crlf h13 h0, ← append_assoc crlf,
    ← append_assoc]
  exact congrArg some hadvance

theorem parseHeaders_done (fuel : Nat) (rest behind : Bytes) (part : Part) :
    parseHeaders (fuel + 1) (piece (crlf ++ rest) behind) part =
      some (piece (crlf ++ rest) behind, part) :=
  if_pos (.inr rfl)

theorem not_done {key : Bytes} (hkey : key.head? ≠ none ∧ key.head? ≠ some 13) (rest behind : Bytes) :
    ¬ ((piece (key ++ rest) behind).left = 0 ∨ (piece (key ++ rest) behind).text.head? = some 13) := by
  cases key with
  | nil => exact absurd rfl hkey.1
  | cons b key => exact not_or.2 ⟨Nat.succ_ne_zero _, hkey.2⟩

theorem parseHeaders_disposition {p : FormPart} (h : p.WellFormed boundary) (fuel : Nat)
    (rest behind : Bytes) (part : Part) :
    parseHeaders (fuel + 1) (piece (p.dispositionLine ++ rest) behind) part =
      parseHeaders fuel (piece rest behind)
        (readDisposition (ascii "form-data; " ++ (p.params ++ (crlf ++ (rest ++ behind)))) part) := by
  have hkey : ascii "Content-Disposition: form-data; " =
      dispositionKey ++ (32 :: ascii "form-data; ") := by decide
  have htext : p.dispositionLine ++ rest = dispositionKey ++
      (32 :: ((ascii "form-data; " ++ p.params) ++ (crlf ++ rest))) := by
    rw [FormPart.dispositionLine, hkey]
    simp only [append_assoc, cons_append]
  have hline {x : UInt8} (hx : x = 13 ∨ x = 0) : x ∉ ascii "form-data; " ++ p.params := by
    rw [mem_append, not_or]
    exact ⟨by rcases hx with rfl | rfl <;> decide, params_line h hx⟩
  have hspace : ((ascii "form-data; " ++ p.params) ++ (crlf ++ rest)).head? ≠ some 32 := by
    exact fun heq => absurd (Option.some.inj heq) (by decide)
  rw [htext]
  apply (if_neg (not_done (by decide) _ _)).trans
  apply (if_pos (prefix_over ..)).trans
  simp only [piece_advance, skipSpaces_one hspace,
    skipLine_append (hline (.inl rfl)) (hline (.inr rfl))]
  simp only [piece, append_assoc]

theorem parseHeaders_type (ht : t.length ≤ 60) (hvalue : IsValue t) (fuel : Nat)
    (rest behind : Bytes) (part : Part) :
    parseHeaders (fuel + 1) (piece (ascii "Content-Type: " ++ (t ++ crlf) ++ rest) behind) part =
      parseHeaders fuel (piece rest behind) { part with contentType := t } := by
  have hkey : ascii "Content-Type: " = contentTypeKey ++ [32] := by decide
  have htext : ascii "Content-Type: " ++ (t ++ crlf) ++ rest =
      contentTypeKey ++ (32 :: (t ++ (crlf ++ rest))) := by
    rw [hkey]
    simp only [append_assoc, cons_append, nil_append]
  obtain ⟨h13, -, h0, hspace⟩ := hvalue
  have hhead : (t ++ (crlf ++ rest)).head? ≠ some 32 := by
    cases t with
    | nil => exact fun heq => absurd (Option.some.inj heq) (by decide)
    | cons b t => exact hspace
  have hother : ¬ dispositionKey.isPrefixOf
      (piece (contentTypeKey ++ (32 :: (t ++ (crlf ++ rest)))) behind).text :=
    (by decide : ¬ false = true)
  have hline : strstr (piece (t ++ (crlf ++ rest)) behind).text crlf = some t.length := by
    rw [piece, append_assoc, append_assoc, strstr_crlf h13 h0]
  have hadvance := piece_advance (t ++ crlf) rest behind
  rw [append_assoc, length_append] at hadvance
  have hfits : t.length < contentTypeSize - 1 := lt_of_le_of_lt ht (by decide)
  have htake : (piece (t ++ (crlf ++ rest)) behind).text.take t.length = t := by
    rw [piece, append_assoc, take_left]
  rw [htext]
  apply (if_neg (not_done (by decide) _ _)).trans
  apply (if_neg hother).trans
  apply (if_pos (prefix_over ..)).trans
  simp only [piece_advance, skipSpaces_one hhead, hline, readContentType, if_pos hfits, htake]
  exact congrArg (parseHeaders fuel · _) hadvance

theorem readDisposition_eq {p : FormPart} (h : p.WellFormed boundary) (following : Bytes)
    (contentType : Bytes) :
    readDisposition (ascii "form-data; " ++ (p.params ++ p.behindName following))
        ⟨[], [], contentType, []⟩ =
      ⟨p.seenName, p.seenFilename following, contentType, []⟩ := by
  rw [readDisposition, readDisposition_name p h, readDisposition_filename p h]

theorem parseHeaders_headers {p : FormPart} (h : p.WellFormed boundary) (fuel : Nat)
    (following behind : Bytes) :
    parseHeaders (fuel + 3) (piece (p.headers ++ (crlf ++ (p.data ++ (crlf ++ following)))) behind)
        .zero =
      some (piece (crlf ++ (p.data ++ (crlf ++ following))) behind,
        ⟨p.seenName, p.seenFilename (following ++ behind), p.contentType.getD [], []⟩) := by
  have hread := readDisposition_eq h (following ++ behind)
  rw [FormPart.behindName] at hread
  rw [FormPart.headers]
  cases hfirst : p.typeFirst with
  | true =>
    simp only [hfirst, if_true, nil_append] at hread
    simp only [if_true]
    cases ht : p.contentType with
    | none =>
      rw [FormPart.typeLine, ht, nil_append, parseHeaders_disposition h, Part.zero]
      simp only [append_assoc, hread, parseHeaders_done]
      rfl
    | some t =>
      obtain ⟨hlen, hvalue⟩ := h.contentType t ht
      rw [FormPart.typeLine, ht, append_assoc _ p.dispositionLine, parseHeaders_type hlen hvalue,
        parseHeaders_disposition h, Part.zero]
      simp only [append_assoc, hread, parseHeaders_done]
      rfl
  | false =>
    simp only [hfirst, Bool.false_eq_true, if_false] at hread
    simp only [Bool.false_eq_true, if_false]
    rw [append_assoc p.dispositionLine, parseHeaders_disposition h, Part.zero]
    simp only [append_assoc, hread]
    cases ht : p.contentType with
    | none =>
      rw [FormPart.typeLine, ht, nil_append, parseHeaders_done]
      rfl
    | some t =>
      obtain ⟨hlen, hvalue⟩ := h.contentType t ht
      rw [FormPart.typeLine, ht, parseHeaders_type hlen hvalue, parseHeaders_done]
      rfl

end Csilk.Multipart
