import Csilk.Bytes
import Mathlib.Algebra.Group.Nat.Defs

namespace Csilk.Jwt
open List

def b64Table : Bytes :=
  ascii "ABCDEFGHIJKLMNOPQRSTUVWXYZabcdefghijklmnopqrstuvwxyz0123456789+/"

def b64Char (i : Nat) : UInt8 := b64Table.getD (i % 64) 0

def csilkBase64Encode : Bytes → Bytes
  | [] => []
  | [a] =>
    let v := a.toNat * 65536
    [b64Char (v / 2 ^ 18), b64Char (v / 2 ^ 12), 61, 61]
  | [a, b] =>
    let v := a.toNat * 65536 + b.toNat * 256
    [b64Char (v / 2 ^ 18), b64Char (v / 2 ^ 12), b64Char (v / 2 ^ 6), 61]
  | a :: b :: c :: rest =>
    let v := a.toNat * 65536 + b.toNat * 256 + c.toNat
    b64Char (v / 2 ^ 18) :: b64Char (v / 2 ^ 12) :: b64Char (v / 2 ^ 6) :: b64Char v ::
      csilkBase64Encode rest

/-- The two characters that URLs use otherwise are replaced, and the padding is left out. -/
def csilkBase64urlEncode (src : Bytes) : Bytes :=
  ((csilkBase64Encode src).takeWhile (· ≠ 61)).map fun b =>
    if b = 43 then 45 else if b = 47 then 95 else b

def b64RevTable (b : UInt8) : Option Nat :=
  if b = 43 then some 62
  else if b = 47 then some 63
  else if 48 ≤ b ∧ b ≤ 57 then some (b.toNat - 48 + 52)
  else if 65 ≤ b ∧ b ≤ 90 then some (b.toNat - 65)
  else if 97 ≤ b ∧ b ≤ 122 then some (b.toNat - 97 + 26)
  else none

/-- `v` is the 32-bit accumulator, with `bits` of it not yet written. -/
def decodeLoop (outCap : Nat) : Bytes → Nat → Nat → Bytes → Option Bytes
  | [], _, _, out => some out
  | b :: rest, v, bits, out =>
    if b = 61 then some out
    else match b64RevTable b with
      | none => none
      | some val =>
        let v := (v * 64 + val) % 2 ^ 32
        let bits := bits + 6
        if bits ≥ 8 then
          if out.length ≥ outCap then none
          else decodeLoop outCap rest v (bits - 8) (out ++ [UInt8.ofNat (v / 2 ^ (bits - 8))])
        else decodeLoop outCap rest v bits out

/-- None for -1. `decoded_len` is an `int`: with 2^31 bytes it is negative, an error. -/
def csilkBase64urlDecode (src : Bytes) (outCap : Nat) : Option Bytes := do
  let src := (cString src).map fun b => if b = 45 then 43 else if b = 95 then 47 else b
  let out ← decodeLoop outCap src 0 0 []
  if out.length < 2 ^ 31 then some out else none

def decodeStored (outCap : Nat) : Bytes → Nat → Nat → Bytes → Bytes
  | [], _, _, out => out
  | b :: rest, v, bits, out =>
    if b = 61 then out
    else match b64RevTable b with
      | none => out
      | some val =>
        let v := (v * 64 + val) % 2 ^ 32
        let bits := bits + 6
        if bits ≥ 8 then
          if out.length ≥ outCap then out
          else decodeStored outCap rest v (bits - 8) (out ++ [UInt8.ofNat (v / 2 ^ (bits - 8))])
        else decodeStored outCap rest v bits out

def csilkBase64urlDecodeStored (src : Bytes) (outCap : Nat) : Bytes :=
  decodeStored outCap ((cString src).map fun b => if b = 45 then 43 else if b = 95 then 47 else b) 0 0 []

def urlTable : Bytes :=
  ascii "ABCDEFGHIJKLMNOPQRSTUVWXYZabcdefghijklmnopqrstuvwxyz0123456789-_"

def urlChar (i : Nat) : UInt8 :=
  let b := b64Char i
  if b = 43 then 45 else if b = 47 then 95 else b

theorem b64Char_fin : ∀ i : Fin 64,
    b64Char i ≠ 61 ∧ b64Char i ≠ 0 ∧ b64Char i ≠ 46 ∧ b64RevTable (b64Char i) = some i.val ∧
      urlChar i ≠ 0 ∧ urlChar i ≠ 46 ∧
      (if urlChar i = 45 then 43 else if urlChar i = 95 then 47 else urlChar i) = b64Char i := by
  decide +kernel

theorem b64Char_mod (i : Nat) : b64Char i = b64Char (i % 64) := by
  rw [b64Char, b64Char, Nat.mod_mod]

theorem b64Char_ne_pad (i : Nat) : b64Char i ≠ 61 := by
  rw [b64Char_mod]
  exact (b64Char_fin ⟨i % 64, Nat.mod_lt i (by decide)⟩).1

def sextets : Bytes → List Nat
  | [] => []
  | [a] => [a.toNat / 4, a.toNat % 4 * 16]
  | [a, b] => [a.toNat / 4, a.toNat % 4 * 16 + b.toNat / 16, b.toNat % 16 * 4]
  | a :: b :: c :: rest =>
    a.toNat / 4 :: (a.toNat % 4 * 16 + b.toNat / 16) :: (b.toNat % 16 * 4 + c.toNat / 64) ::
      c.toNat % 64 :: sextets rest

theorem sextets_lt (src : Bytes) : ∀ i ∈ sextets src, i < 64 := by
  fun_induction sextets src with
  | case1 => simp
  | case2 a =>
    have ha := a.toNat_lt
    simp only [mem_cons, not_mem_nil, or_false]
    omega
  | case3 a b =>
    have ha := a.toNat_lt
    have hb := b.toNat_lt
    simp only [mem_cons, not_mem_nil, or_false, forall_eq_or_imp, forall_eq]
    omega
  | case4 a b c rest ih =>
    have ha := a.toNat_lt
    have hb := b.toNat_lt
    have hc := c.toNat_lt
    simp only [mem_cons, forall_eq_or_imp]
    exact ⟨by omega, by omega, by omega, by omega, ih⟩

theorem b64Char_congr (h : i % 64 = j) : b64Char i = b64Char j := by
  rw [b64Char_mod, h]

theorem csilkBase64Encode_eq (src : Bytes) : csilkBase64Encode src =
      (sextets src).map b64Char ++ List.replicate ((3 - src.length % 3) % 3) 61 := by
  fun_induction sextets src with
  | case1 => rfl
  | case2 a =>
    have ha := a.toNat_lt
    exact congrArg₂ cons (b64Char_congr (by omega)) (congrArg₂ cons (b64Char_congr (by omega)) rfl)
  | case3 a b =>
    have ha := a.toNat_lt
    have hb := b.toNat_lt
    exact congrArg₂ cons (b64Char_congr (by omega)) (congrArg₂ cons (b64Char_congr (by omega))
      (congrArg₂ cons (b64Char_congr (by omega)) rfl))
  | case4 a b c rest ih =>
    have ha := a.toNat_lt
    have hb := b.toNat_lt
    have hc := c.toNat_lt
    have hlen : (3 - (a :: b :: c :: rest).length % 3) % 3 = (3 - rest.length % 3) % 3 := by
      simp only [length_cons]
      omega
    rw [csilkBase64Encode, ih, hlen]
    exact congrArg₂ cons (b64Char_congr (by omega)) (congrArg₂ cons (b64Char_congr (by omega))
      (congrArg₂ cons (b64Char_congr (by omega)) (congrArg₂ cons (b64Char_congr (by omega)) rfl)))

theorem csilkBase64urlEncode_eq (src : Bytes) :
    csilkBase64urlEncode src = (sextets src).map urlChar := by
  have htake : (csilkBase64Encode src).takeWhile (· ≠ 61) = (sextets src).map b64Char := by
    rw [csilkBase64Encode_eq, takeWhile_append_of_pos]
    · cases (3 - src.length % 3) % 3 with
      | zero => exact append_nil _
      | succ n =>
        rw [replicate_succ, takeWhile_cons_of_neg (by simp), append_nil]
    · intro b hb
      obtain ⟨i, -, rfl⟩ := List.mem_map.1 hb
      exact decide_eq_true (b64Char_ne_pad i)
  rw [csilkBase64urlEncode, htake, List.map_map]
  rfl

theorem urlChar_ne (i : Nat) : urlChar i ≠ 0 ∧ urlChar i ≠ 46 := by
  have h := b64Char_fin ⟨i % 64, Nat.mod_lt i (by decide)⟩
  rw [urlChar, b64Char_mod]
  exact ⟨h.2.2.2.2.1, h.2.2.2.2.2.1⟩

theorem base64url_notMem (src : Bytes) (hx : x = 0 ∨ x = 46) : x ∉ csilkBase64urlEncode src := by
  rw [csilkBase64urlEncode_eq]
  intro hmem
  obtain ⟨i, -, heq⟩ := List.mem_map.1 hmem
  rcases hx with rfl | rfl
  · exact (urlChar_ne i).1 heq
  · exact (urlChar_ne i).2 heq

section
variable (hi : i < 64) {outCap v : Nat} {rest out : Bytes}
include hi

theorem decodeLoop_first : decodeLoop outCap (b64Char i :: rest) v 0 out =
    decodeLoop outCap rest ((v * 64 + i) % 2 ^ 32) 6 out := by
  rw [decodeLoop, if_neg (b64Char_ne_pad i), (b64Char_fin ⟨i, hi⟩).2.2.2.1]
  rfl

theorem decodeLoop_byte (b : UInt8) (hb : (v * 64 + i) % 2 ^ 32 / 2 ^ bits % 256 = b.toNat)
    (hcap : out.length < outCap) : decodeLoop outCap (b64Char i :: rest) v (bits + 2) out =
      decodeLoop outCap rest ((v * 64 + i) % 2 ^ 32) bits (out ++ [b]) := by
  have hbyte : UInt8.ofNat ((v * 64 + i) % 2 ^ 32 / 2 ^ bits) = b :=
    (UInt8.ofNat_eq_iff_mod_eq_toNat _ _).2 hb
  rw [decodeLoop, if_neg (b64Char_ne_pad i), (b64Char_fin ⟨i, hi⟩).2.2.2.1]
  dsimp only
  rw [if_pos (by omega), if_neg (by omega), show bits + 2 + 6 - 8 = bits from rfl, hbyte]

end

theorem decodeLoop_sextets (outCap v : Nat) (src out : Bytes)
    (hcap : out.length + src.length ≤ outCap) :
    decodeLoop outCap ((sextets src).map b64Char) v 0 out = some (out ++ src) := by
  have hpush : ∀ (out : Bytes) (b : UInt8), (out ++ [b]).length = out.length + 1 := by
    intro out b
    rw [length_append, length_singleton]
  fun_induction sextets src generalizing v out with
  | case1 => rw [append_nil]; rfl
  | case2 a =>
    have ha := a.toNat_lt
    rw [length_singleton] at hcap
    rw [map_cons, map_cons, decodeLoop_first (by omega), decodeLoop_byte (by omega) a (by omega) (by omega)]
    rfl
  | case3 a b =>
    have ha := a.toNat_lt
    have hb := b.toNat_lt
    simp only [length_cons, length_nil] at hcap
    rw [map_cons, map_cons, map_cons, decodeLoop_first (by omega),
      decodeLoop_byte (by omega) a (by omega) (by omega),
      decodeLoop_byte (by omega) b (by omega) (by rw [hpush]; omega), append_assoc]
    rfl
  | case4 a b c rest ih =>
    have ha := a.toNat_lt
    have hb := b.toNat_lt
    have hc := c.toNat_lt
    simp only [length_cons] at hcap
    simp only [map_cons]
    rw [decodeLoop_first (by omega), decodeLoop_byte (by omega) a (by omega) (by omega),
      decodeLoop_byte (by omega) b (by omega) (by rw [hpush]; omega),
      decodeLoop_byte (by omega) c (by omega) (by rw [hpush, hpush]; omega), ih]
    · simp only [append_assoc, cons_append, nil_append]
    · rw [hpush, hpush, hpush]
      omega

theorem decode_encode (src : Bytes) (hcap : src.length ≤ outCap) :
    csilkBase64urlDecode (csilkBase64urlEncode src) outCap =
      if src.length < 2 ^ 31 then some src else none := by
  have hback : (csilkBase64urlEncode src).map
      (fun b => if b = 45 then 43 else if b = 95 then 47 else b) = (sextets src).map b64Char := by
    rw [csilkBase64urlEncode_eq, List.map_map]
    apply map_congr_left
    intro i hi
    exact (b64Char_fin ⟨i, sextets_lt src i hi⟩).2.2.2.2.2.2
  have hloop := decodeLoop_sextets outCap 0 src [] (by rwa [length_nil, zero_add])
  rw [csilkBase64urlDecode, cString_eq_self (base64url_notMem src (.inl rfl)), hback, hloop]
  rfl

theorem encode_length (src : Bytes) : (csilkBase64urlEncode src).length = (4 * src.length + 2) / 3 := by
  rw [csilkBase64urlEncode_eq, length_map]
  fun_induction sextets src with
  | case1 | case2 a | case3 a b => simp
  | case4 a b c rest ih =>
    simp only [length_cons]
    omega

theorem base64Encode_length (src : Bytes) : (csilkBase64Encode src).length = (src.length + 2) / 3 * 4 := by
  fun_induction csilkBase64Encode src with
  | case1 | case2 a | case3 a b => simp
  | case4 a b c rest v ih =>
    simp only [length_cons]
    omega

theorem urlChar_fin : ∀ i : Fin 64, urlChar i ∈ urlTable := by
  decide +kernel

theorem decodeStored_length (src : Bytes) (v bits : Nat) (h : out.length ≤ outCap) :
    (decodeStored outCap src v bits out).length ≤ outCap := by
  fun_induction decodeStored outCap src v bits out with
  | case1 | case2 | case3 | case4 => exact h
  | case5 b rest v bits out hb val hval v' bits' hbits hroom ih =>
    apply ih
    rw [length_append, length_singleton]
    omega
  | case6 b rest v bits out hb val hval v' bits' hbits ih => exact ih h

/-- A loop that succeeds has stored what it returns, whatever more room there is. -/
theorem decodeLoop_stored (h : decodeLoop outCap src v bits out = some res) (hle : outCap ≤ cap) :
    decodeStored outCap src v bits out = res ∧ decodeLoop cap src v bits out = some res := by
  fun_induction decodeLoop outCap src v bits out with
  | case1 => exact ⟨Option.some.inj h, h⟩
  | case2 rest v bits out =>
    exact ⟨Option.some.inj h, h⟩
  | case3 | case4 => cases h
  | case5 b rest v bits out hb val hval v' bits' hbits hroom ih =>
    rw [decodeStored, decodeLoop, if_neg hb, if_neg hb, hval]
    dsimp only
    rw [if_pos hbits, if_pos hbits, if_neg hroom, if_neg (by omega)]
    exact ih h
  | case6 b rest v bits out hb val hval v' bits' hbits ih =>
    rw [decodeStored, decodeLoop, if_neg hb, if_neg hb, hval]
    dsimp only
    rw [if_neg hbits, if_neg hbits]
    exact ih h

theorem decode_stored (h : csilkBase64urlDecode src outCap = some res) (hle : outCap ≤ cap) :
    csilkBase64urlDecodeStored src outCap = res ∧ csilkBase64urlDecode src cap = some res := by
  obtain ⟨out, hloop, hout⟩ := Option.bind_eq_some_iff.1 h
  obtain ⟨hstored, hcap⟩ := decodeLoop_stored hloop hle
  rw [csilkBase64urlDecode, hcap]
  split at hout
  · exact ⟨hstored.trans (Option.some.inj hout), (if_pos ‹_›).trans hout⟩
  · cases hout

theorem base64url_inverts (src : Bytes) (hlen : src.length < 2 ^ 31) :
    (∀ outCap ≥ src.length, csilkBase64urlDecode (csilkBase64urlEncode src) outCap = some src ∧
        csilkBase64urlDecodeStored (csilkBase64urlEncode src) outCap = src) ∧
      (csilkBase64Encode src).length + 1 ≤ (src.length + 2) / 3 * 4 + 1 ∧
      (csilkBase64urlEncode src).length = (4 * src.length + 2) / 3 ∧
      (∀ b ∈ csilkBase64urlEncode src, b ∈ urlTable) ∧
      ∀ outCap < src.length, csilkBase64urlDecode (csilkBase64urlEncode src) outCap = none ∧
        (csilkBase64urlDecodeStored (csilkBase64urlEncode src) outCap).length ≤ outCap := by
  have hdecode : ∀ outCap ≥ src.length, csilkBase64urlDecode (csilkBase64urlEncode src) outCap = some src :=
    fun outCap hcap => (decode_encode src hcap).trans (if_pos hlen)
  refine ⟨fun outCap hcap => ⟨hdecode outCap hcap, ?_⟩, ?_, encode_length src, ?_, ?_⟩
  · exact (decode_stored (hdecode outCap hcap) le_rfl).1
  · rw [base64Encode_length]
  · rw [csilkBase64urlEncode_eq, forall_mem_map]
    intro i hi
    exact urlChar_fin ⟨i, sextets_lt src i hi⟩
  · intro outCap hcap
    have hstored : (csilkBase64urlDecodeStored (csilkBase64urlEncode src) outCap).length ≤ outCap :=
      decodeStored_length _ 0 0 (Nat.zero_le outCap)
    refine ⟨Option.eq_none_iff_forall_ne_some.2 fun res h => ?_, hstored⟩
    -- with room for `src` the result would be the same
    obtain ⟨hres, hmore⟩ := decode_stored h hcap.le
    cases hmore.symm.trans (hdecode _ le_rfl)
    rw [hres] at hstored
    omega

theorem base64url_inverts_one :
    ([0xFB] : Bytes).length < 2 ^ 31 ∧ csilkBase64urlDecode (csilkBase64urlEncode [0xFB]) 1 = some [0xFB] := by
  have hlen : ([0xFB] : Bytes).length < 2 ^ 31 := by decide
  exact ⟨hlen, ((base64url_inverts [0xFB] hlen).1 1 le_rfl).1⟩

theorem base64url_two_pow :
    csilkBase64urlDecode (csilkBase64urlEncode (replicate (2 ^ 31) 0)) (2 ^ 31) = none := by
  have hlen : (replicate (2 ^ 31) (0 : UInt8)).length = 2 ^ 31 := length_replicate
  rw [decode_encode _ hlen.le, hlen]
  exact if_neg (lt_irrefl _)

end Csilk.Jwt
