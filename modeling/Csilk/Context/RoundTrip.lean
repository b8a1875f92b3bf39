import Csilk.Context.Query

namespace Csilk.Context
open Csilk.Headers Csilk.Http1 List Option

def isalnum (b : UInt8) : Bool := (48 ≤ b && b ≤ 57) || (65 ≤ b && b ≤ 90) || (97 ≤ b && b ≤ 122)

def hexDigit (lower : Bool) (n : UInt8) : UInt8 :=
  if n < 10 then n + 48 else if lower then n + 87 else n + 55

def encodeByte (lower : Bool) (b : UInt8) : Bytes :=
  if isalnum b then [b] else [37, hexDigit lower (b >>> 4), hexDigit lower (b &&& 15)]

def percentEncode (lower : Bool) (bs : Bytes) : Bytes := bs.flatMap (encodeByte lower)

def encodePair (lower : Bool) (p : Bytes × Bytes) : Bytes :=
  percentEncode lower p.1 ++ 61 :: percentEncode lower p.2

def encodePairs (lower : Bool) (pairs : List (Bytes × Bytes)) : Bytes :=
  [38].intercalate (pairs.map (encodePair lower))

theorem isalnum_fin : ∀ b : Fin 256, isalnum (UInt8.ofFin b) = true →
    UInt8.ofFin b ≠ 37 ∧ UInt8.ofFin b ≠ 43 ∧ UInt8.ofFin b ≠ 38 ∧ UInt8.ofFin b ≠ 61 ∧
      UInt8.ofFin b ≠ 0 := by
  decide +kernel

theorem hexDigit_fin : ∀ lower : Bool, ∀ b : Fin 256,
    isxdigit (hexDigit lower (UInt8.ofFin b >>> 4)) = true ∧
    isxdigit (hexDigit lower (UInt8.ofFin b &&& 15)) = true ∧
    hexToInt (hexDigit lower (UInt8.ofFin b >>> 4)) <<< 4 |||
      hexToInt (hexDigit lower (UInt8.ofFin b &&& 15)) = UInt8.ofFin b := by
  decide +kernel

theorem isxdigit_fin : ∀ b : Fin 256, isxdigit (UInt8.ofFin b) = true →
    UInt8.ofFin b ≠ 38 ∧ UInt8.ofFin b ≠ 61 ∧ UInt8.ofFin b ≠ 0 := by
  decide +kernel

theorem isalnum_spec (h : isalnum b = true) : b ≠ 37 ∧ b ≠ 43 ∧ b ≠ 38 ∧ b ≠ 61 ∧ b ≠ 0 :=
  isalnum_fin b.toFin h

theorem hexDigit_spec (lower : Bool) (b : UInt8) :
    isxdigit (hexDigit lower (b >>> 4)) = true ∧ isxdigit (hexDigit lower (b &&& 15)) = true ∧
    hexToInt (hexDigit lower (b >>> 4)) <<< 4 ||| hexToInt (hexDigit lower (b &&& 15)) = b :=
  hexDigit_fin lower b.toFin

theorem isxdigit_spec (h : isxdigit b = true) : b ≠ 38 ∧ b ≠ 61 ∧ b ≠ 0 := isxdigit_fin b.toFin h

theorem csilkUrlDecode_cons (hb : b ≠ 37) (rest : Bytes) :
    csilkUrlDecode (b :: rest) = (if b = 43 then 32 else b) :: csilkUrlDecode rest := by
  cases rest with
  | nil => rfl
  | cons h rest =>
    cases rest with
    | nil => rfl
    | cons l rest => rw [csilkUrlDecode, if_neg (fun hc => hb hc.1)]

theorem csilkUrlDecode_encodeByte (lower : Bool) (b : UInt8) (rest : Bytes) :
    csilkUrlDecode (encodeByte lower b ++ rest) = b :: csilkUrlDecode rest := by
  rw [encodeByte]
  split
  case isTrue halnum =>
    obtain ⟨hpercent, hplus, -⟩ := isalnum_spec halnum
    rw [singleton_append, csilkUrlDecode_cons hpercent, if_neg hplus]
  case isFalse =>
    obtain ⟨hhigh, hlow, hvalue⟩ := hexDigit_spec lower b
    rw [cons_append, cons_append, singleton_append, csilkUrlDecode,
      if_pos ⟨rfl, hhigh, hlow⟩, hvalue]

theorem csilkUrlDecode_percentEncode (lower : Bool) (bs : Bytes) :
    csilkUrlDecode (percentEncode lower bs) = bs := by
  induction bs with
  | nil => rfl
  | cons b bs ih =>
    rw [percentEncode, flatMap_cons, csilkUrlDecode_encodeByte, ← percentEncode, ih]

theorem percentEncode_mem (h : x ∈ percentEncode lower bs) : x ≠ 38 ∧ x ≠ 61 ∧ x ≠ 0 := by
  obtain ⟨b, -, hx⟩ := mem_flatMap.1 h
  rw [encodeByte] at hx
  split at hx
  case isTrue halnum =>
    rw [mem_singleton.1 hx]
    exact (isalnum_spec halnum).2.2
  case isFalse =>
    obtain ⟨hhigh, hlow, -⟩ := hexDigit_spec lower b
    rcases mem_cons.1 hx with rfl | hx
    · decide
    · rcases mem_cons.1 hx with rfl | hx
      · exact isxdigit_spec hhigh
      · rw [mem_singleton.1 hx]
        exact isxdigit_spec hlow

theorem percentEncode_ne_nil (h : bs ≠ []) : percentEncode lower bs ≠ [] := by
  intro hnil
  apply h
  rw [← csilkUrlDecode_percentEncode lower bs, hnil]
  rfl

theorem takeWhile_encodePair (lower : Bool) (p : Bytes × Bytes) :
    (encodePair lower p).takeWhile (· ≠ 61) = percentEncode lower p.1 ∧
      ((encodePair lower p).dropWhile (· ≠ 61)).drop 1 = percentEncode lower p.2 := by
  have hkey : ∀ x ∈ percentEncode lower p.1, decide (x ≠ 61) = true := fun x hx =>
    decide_eq_true (percentEncode_mem hx).2.1
  rw [encodePair]
  constructor
  · rw [takeWhile_append_of_pos hkey]
    simp
  · rw [dropWhile_append_of_pos hkey]
    simp

theorem mem_intercalate {sep : List α} {ls : List (List α)} (h : x ∈ sep.intercalate ls) :
    x ∈ sep ∨ ∃ l ∈ ls, x ∈ l := by
  induction ls with
  | nil => cases h
  | cons l ls ih =>
    cases ls with
    | nil =>
      rw [intercalate_singleton] at h
      exact .inr ⟨l, mem_cons_self, h⟩
    | cons l' ls =>
      rw [intercalate_cons_cons, mem_append, mem_append] at h
      rcases h with (h | h) | h
      · exact .inr ⟨l, mem_cons_self, h⟩
      · exact .inl h
      · rcases ih h with h | ⟨l'', hl'', hx⟩
        · exact .inl h
        · exact .inr ⟨l'', mem_cons_of_mem _ hl'', hx⟩

theorem encodePairs_nul (lower : Bool) (pairs : List (Bytes × Bytes)) :
    0 ∉ encodePairs lower pairs := by
  intro hmem
  rcases mem_intercalate hmem with h0 | ⟨text, htext, h0⟩
  · cases mem_singleton.1 h0
  · obtain ⟨p, -, rfl⟩ := List.mem_map.1 htext
    rw [encodePair, mem_append, mem_cons] at h0
    rcases h0 with h0 | h0 | h0
    · exact (percentEncode_mem h0).2.2 rfl
    · cases h0
    · exact (percentEncode_mem h0).2.2 rfl

/-- No CR and no LF, the bytes that `map_kv_add` strips. -/
def SingleLine (bs : Bytes) : Prop := 13 ∉ bs ∧ 10 ∉ bs

instance (bs : Bytes) : Decidable (SingleLine bs) := inferInstanceAs (Decidable (_ ∧ _))

theorem sanitize_singleLine (bs : Bytes) : SingleLine (csilkSanitizeHeaderStr bs) := by
  constructor
  · intro h
    have := (mem_filter.1 h).2
    simp at this
  · intro h
    have := (mem_filter.1 h).2
    simp at this

theorem SingleLine.sanitize (h : SingleLine bs) : csilkSanitizeHeaderStr bs = bs := by
  apply filter_eq_self.2
  intro b hb
  have h13 : b ≠ 13 := fun hc => h.1 (hc ▸ hb)
  have h10 : b ≠ 10 := fun hc => h.2 (hc ▸ hb)
  simp [h13, h10]

def GivesBack (m : KvMap) (pairs : List (Bytes × Bytes)) : Prop :=
  (∀ p ∈ pairs, mapKvGet m p.1 = some p.2) ∧
    ∀ k, 0 ∉ k → (∀ p ∈ pairs, foldCase p.1 ≠ foldCase k) → mapKvGet m k = none

section

variable (lower : Bool) (pairs : List (Bytes × Bytes)) (hkeys : ∀ p ∈ pairs, p.1 ≠ [])
include lower pairs hkeys

section

variable (hnul : ∀ p ∈ pairs, 0 ∉ p.1 ∧ 0 ∉ p.2)
include hnul

theorem parseKeyValuePairs_encodePairs :
    parseKeyValuePairs (encodePairs lower pairs) = pairs := by
  cases hpairs : pairs with
  | nil => rfl
  | cons p₀ ps =>
    rw [← hpairs]
    have hsplit : (encodePairs lower pairs).splitOnP (· = 38) = pairs.map (encodePair lower) := by
      apply splitOn_intercalate
      · intro text htext hamp
        obtain ⟨p, -, rfl⟩ := List.mem_map.1 htext
        rw [encodePair, mem_append, mem_cons] at hamp
        rcases hamp with hamp | hamp | hamp
        · exact (percentEncode_mem hamp).1 rfl
        · cases hamp
        · exact (percentEncode_mem hamp).1 rfl
      · rw [hpairs]
        exact cons_ne_nil _ _
    rw [parseKeyValuePairs, hsplit, filterMap_map]
    apply (filterMap_congr _).trans filterMap_some
    intro p hp
    obtain ⟨hkey, hvalue⟩ := takeWhile_encodePair lower p
    simp only [Function.comp_apply]
    rw [hkey, hvalue, if_neg (percentEncode_ne_nil (hkeys p hp)), csilkUrlDecode_percentEncode,
      csilkUrlDecode_percentEncode, cString_eq_self (hnul p hp).1, cString_eq_self (hnul p hp).2]

theorem csilkParseQuery_encodePairs :
    csilkParseQuery .empty (encodePairs lower pairs) = addPairs .empty pairs := by
  have hparse := parseKeyValuePairs_encodePairs lower pairs hkeys hnul
  rw [csilkParseQuery, cString_eq_self (encodePairs_nul lower pairs)]
  split
  case isTrue hnil =>
    rw [hnil] at hparse
    rw [← hparse]
    rfl
  case isFalse => rw [hparse]

theorem csilkParseFormUrlencoded_encodePairs (hct : isFormContentType (cString ct) = true) :
    csilkParseFormUrlencoded .empty (some ct) (some (encodePairs lower pairs)) =
      addPairs .empty pairs := by
  have hparse := parseKeyValuePairs_encodePairs lower pairs hkeys hnul
  rw [csilkParseFormUrlencoded]
  split
  case isTrue hlen =>
    rw [eq_nil_of_length_eq_zero hlen] at hparse
    rw [← hparse]
    rfl
  case isFalse => rw [cString_eq_self (encodePairs_nul lower pairs), hparse]

end

end

theorem foldByte_fin : ∀ b : Fin 256, (foldByte (UInt8.ofFin b) = 13 → UInt8.ofFin b = 13) ∧
      (foldByte (UInt8.ofFin b) = 10 → UInt8.ofFin b = 10) := by
  decide +kernel

theorem singleLine_foldCase (h : foldCase x = foldCase y) (hx : SingleLine x) : SingleLine y := by
  have hmem : ∀ b, foldByte b = b → (∀ c, foldByte c = b → c = b) → b ∈ y → b ∈ x := by
    intro b hb hinj hy
    have hfold : b ∈ foldCase x := by
      rw [h, ← hb]
      exact List.mem_map_of_mem hy
    obtain ⟨c, hc, hcb⟩ := List.mem_map.1 hfold
    exact hinj c hcb ▸ hc
  exact ⟨fun hy => hx.1 (hmem 13 rfl (fun c hc => (foldByte_fin c.toFin).1 hc) hy),
    fun hy => hx.2 (hmem 10 rfl (fun c hc => (foldByte_fin c.toFin).2 hc) hy)⟩

theorem cString_singleLine (h : SingleLine bs) : SingleLine (cString bs) :=
  ⟨fun hm => h.1 ((takeWhile_sublist _).mem hm),
    fun hm => h.2 ((takeWhile_sublist _).mem hm)⟩

theorem mapKvGet_singleLine (hk : 0 ∉ k) (h : mapKvGet (addPairs .empty pairs) k = some v) :
    SingleLine k ∧ SingleLine v := by
  rw [mapKvGet_addPairs pairs hk, map_eq_some_iff] at h
  obtain ⟨e, he, rfl⟩ := h
  have hfold : foldCase e.1 = foldCase k := by simpa using find?_some he
  have hmem := mem_of_find?_eq_some he
  obtain ⟨p, -, rfl⟩ := List.mem_map.1 (mem_reverse.1 (mem_filter.1 hmem).1)
  exact ⟨singleLine_foldCase hfold (sanitize_singleLine p.1),
    cString_singleLine (sanitize_singleLine p.2)⟩

theorem kvEntries_eq_reverse (hkeys : ∀ p ∈ pairs, p.1 ≠ [])
    (hline : ∀ p ∈ pairs, SingleLine p.1 ∧ SingleLine p.2) : kvEntries pairs = pairs.reverse := by
  have hmap : (pairs.map fun p => (csilkSanitizeHeaderStr p.1, csilkSanitizeHeaderStr p.2)) =
      pairs := by
    apply (map_congr_left _).trans (List.map_id pairs)
    intro p hp
    rw [(hline p hp).1.sanitize, (hline p hp).2.sanitize]
    rfl
  rw [kvEntries, hmap]
  apply filter_eq_self.2
  intro p hp
  exact decide_eq_true (hkeys p (mem_reverse.1 hp))

theorem find?_of_pairwise {l : List (Bytes × Bytes)}
    (h : l.Pairwise fun p q => foldCase p.1 ≠ foldCase q.1) (hp : p ∈ l) :
    (l.find? fun e => foldCase e.1 = foldCase p.1) = some p := by
  induction l with
  | nil => cases hp
  | cons q l ih =>
    obtain ⟨hq, hl⟩ := pairwise_cons.1 h
    rcases mem_cons.1 hp with rfl | hmem
    · exact find?_cons_of_pos (decide_eq_true rfl)
    · apply (find?_cons_of_neg _).trans (ih hl hmem)
      exact fun heq => hq p hmem (of_decide_eq_true heq)

theorem addPairs_givesBack_iff (hkeys : ∀ p ∈ pairs, p.1 ≠ [])
    (hnul : ∀ p ∈ pairs, 0 ∉ p.1 ∧ 0 ∉ p.2)
    (hdistinct : pairs.Pairwise fun p q => foldCase p.1 ≠ foldCase q.1) :
    GivesBack (addPairs .empty pairs) pairs ↔ ∀ p ∈ pairs, SingleLine p.1 ∧ SingleLine p.2 := by
  constructor
  · intro h p hp
    exact mapKvGet_singleLine (hnul p hp).1 (h.1 p hp)
  · intro hline
    have hget : ∀ k, 0 ∉ k → mapKvGet (addPairs .empty pairs) k =
        (pairs.reverse.find? fun e => foldCase e.1 = foldCase k).map fun e => cString e.2 := by
      intro k hk
      rw [mapKvGet_addPairs pairs hk, kvEntries_eq_reverse hkeys hline]
    constructor
    · intro p hp
      have hfind := find?_of_pairwise
        (pairwise_reverse.2 (hdistinct.imp Ne.symm)) (mem_reverse.2 hp)
      rw [hget p.1 (hnul p hp).1, hfind, map_some, cString_eq_self (hnul p hp).2]
    · intro k hk hne
      rw [hget k hk, find?_eq_none.2, map_none]
      intro p hp hfold
      exact hne p (mem_reverse.1 hp) (of_decide_eq_true hfold)

/-- Both parsers give the pairs back exactly when there is no CR or LF in them. -/
theorem encodePairs_givesBack_iff (pairs : List (Bytes × Bytes)) (lower : Bool) (ct : Bytes)
    (hkeys : ∀ p ∈ pairs, p.1 ≠ []) (hnul : ∀ p ∈ pairs, 0 ∉ p.1 ∧ 0 ∉ p.2)
    (hdistinct : pairs.Pairwise fun p q => foldCase p.1 ≠ foldCase q.1)
    (hct : isFormContentType (cString ct) = true) :
    (GivesBack (csilkParseQuery .empty (encodePairs lower pairs)) pairs ↔
        ∀ p ∈ pairs, SingleLine p.1 ∧ SingleLine p.2) ∧
      (GivesBack (csilkParseFormUrlencoded .empty (some ct) (some (encodePairs lower pairs)))
          pairs ↔
        ∀ p ∈ pairs, SingleLine p.1 ∧ SingleLine p.2) := by
  rw [csilkParseQuery_encodePairs lower pairs hkeys hnul,
    csilkParseFormUrlencoded_encodePairs lower pairs hkeys hnul hct]
  have hiff := addPairs_givesBack_iff hkeys hnul hdistinct
  exact ⟨hiff, hiff⟩

-- Key "a" with value "x y", and key "%" with an empty value.
theorem encodePairs_givesBack_two :
    GivesBack (csilkParseQuery .empty (encodePairs true [([97], [120, 32, 121]), ([37], [])]))
      [([97], [120, 32, 121]), ([37], [])] :=
  (encodePairs_givesBack_iff [([97], [120, 32, 121]), ([37], [])] true formContentType
    (by decide) (by decide) (by decide) (by decide)).1.2 (by decide)

-- "a=x%0D%0Ay", the value a browser sends for a text area with two lines.
theorem encodePairs_loses_newline : encodePairs false [([97], [120, 13, 10, 121])] =
        [97, 61, 120, 37, 48, 68, 37, 48, 65, 121] ∧
      mapKvGet (csilkParseQuery .empty (encodePairs false [([97], [120, 13, 10, 121])])) [97] =
        some [120, 121] ∧
      mapKvGet (csilkParseFormUrlencoded .empty (some formContentType)
        (some (encodePairs false [([97], [120, 13, 10, 121])]))) [97] = some [120, 121] := by
  decide

end Csilk.Context
