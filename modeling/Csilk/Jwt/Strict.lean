import Csilk.Jwt.Base64

namespace Csilk.Jwt
open List

/-- Whole groups of four characters, then none, or two or three whose unused bits are zero. -/
def Canonical : Bytes → Prop
  | [] => True
  | [_] => False
  | [a, b] => ∃ i j, i < 64 ∧ j < 4 ∧ a = urlChar i ∧ b = urlChar (j * 16)
  | [a, b, c] => ∃ i j k, i < 64 ∧ j < 64 ∧ k < 16 ∧ a = urlChar i ∧ b = urlChar j ∧ c = urlChar (k * 4)
  | a :: b :: c :: d :: rest =>
    (∃ i j k l, i < 64 ∧ j < 64 ∧ k < 64 ∧ l < 64 ∧
      a = urlChar i ∧ b = urlChar j ∧ c = urlChar k ∧ d = urlChar l) ∧ Canonical rest

theorem canonical_encode (src : Bytes) : Canonical (csilkBase64urlEncode src) := by
  rw [csilkBase64urlEncode_eq]
  fun_induction sextets src with
  | case1 => trivial
  | case2 a =>
    have ha := a.toNat_lt
    exact ⟨_, _, by omega, by omega, rfl, rfl⟩
  | case3 a b =>
    have ha := a.toNat_lt
    have hb := b.toNat_lt
    exact ⟨_, _, _, by omega, by omega, by omega, rfl, rfl, rfl⟩
  | case4 a b c rest ih =>
    have ha := a.toNat_lt
    have hb := b.toNat_lt
    have hc := c.toNat_lt
    exact ⟨⟨_, _, _, _, by omega, by omega, by omega, by omega, rfl, rfl, rfl, rfl⟩, ih⟩

theorem toNat_ofNat_lt (h : n < 256) : (UInt8.ofNat n).toNat = n := by
  exact Nat.mod_eq_of_lt h

theorem Canonical.encode (h : Canonical text) : ∃ src, csilkBase64urlEncode src = text := by
  simp only [csilkBase64urlEncode_eq]
  fun_induction Canonical text with
  | case1 => exact ⟨[], rfl⟩
  | case2 => exact h.elim
  | case3 a b =>
    obtain ⟨i, j, hi, hj, rfl, rfl⟩ := h
    refine ⟨[UInt8.ofNat (i * 4 + j)], ?_⟩
    rw [sextets, toNat_ofNat_lt (by omega), show (i * 4 + j) / 4 = i by omega,
      show (i * 4 + j) % 4 = j by omega]
    rfl
  | case4 a b c =>
    obtain ⟨i, j, k, hi, hj, hk, rfl, rfl, rfl⟩ := h
    refine ⟨[UInt8.ofNat (i * 4 + j / 16), UInt8.ofNat (j % 16 * 16 + k)], ?_⟩
    rw [sextets, toNat_ofNat_lt (by omega), toNat_ofNat_lt (by omega),
      show (i * 4 + j / 16) / 4 = i by omega,
      show (i * 4 + j / 16) % 4 * 16 + (j % 16 * 16 + k) / 16 = j by omega,
      show (j % 16 * 16 + k) % 16 = k by omega]
    rfl
  | case5 a b c d rest ih =>
    obtain ⟨⟨i, j, k, l, hi, hj, hk, hl, rfl, rfl, rfl, rfl⟩, hrest⟩ := h
    obtain ⟨src, hsrc⟩ := ih hrest
    refine ⟨UInt8.ofNat (i * 4 + j / 16) :: UInt8.ofNat (j % 16 * 16 + k / 4) ::
      UInt8.ofNat (k % 4 * 64 + l) :: src, ?_⟩
    rw [sextets, toNat_ofNat_lt (by omega), toNat_ofNat_lt (by omega), toNat_ofNat_lt (by omega),
      show (i * 4 + j / 16) / 4 = i by omega,
      show (i * 4 + j / 16) % 4 * 16 + (j % 16 * 16 + k / 4) / 16 = j by omega,
      show (j % 16 * 16 + k / 4) % 16 * 4 + (k % 4 * 64 + l) / 64 = k by omega,
      show (k % 4 * 64 + l) % 64 = l by omega, map_cons, map_cons, map_cons, map_cons, hsrc]

theorem Canonical.decode (hc : Canonical text) (h : csilkBase64urlDecode text outCap = some res) :
    csilkBase64urlEncode res = text := by
  obtain ⟨src, rfl⟩ := hc.encode
  obtain ⟨-, hmore⟩ := decode_stored h (Nat.le_add_right outCap src.length)
  rw [decode_encode src (Nat.le_add_left _ _)] at hmore
  split at hmore
  · rw [Option.some.inj hmore]
  · cases hmore

/-- Without the at most two `=` that complete the length. -/
def unpadded (text : Bytes) : Bytes :=
  if text.length % 4 = 0 then
    if [61, 61].isSuffixOf text then text.dropLast.dropLast
    else if [61].isSuffixOf text then text.dropLast
    else text
  else text

theorem unpadded_append (text : Bytes) : ∃ n, text = unpadded text ++ replicate n 61 := by
  rw [unpadded]
  split
  · split
    · rename_i hpad
      obtain ⟨t, rfl⟩ := isSuffixOf_iff_suffix.1 hpad
      exact ⟨2, by simp⟩
    · split
      · rename_i hpad
        obtain ⟨t, rfl⟩ := isSuffixOf_iff_suffix.1 hpad
        exact ⟨1, by rw [dropLast_concat]; rfl⟩
      · exact ⟨0, (append_nil _).symm⟩
  · exact ⟨0, (append_nil _).symm⟩

theorem decodeLoop_pad (text : Bytes) (n outCap v bits : Nat) (out : Bytes) :
    decodeLoop outCap (text ++ replicate n 61) v bits out = decodeLoop outCap text v bits out := by
  induction text generalizing v bits out with
  | nil => cases n <;> rfl
  | cons b text ih => simp only [cons_append, decodeLoop, ih]

theorem decode_unpadded (src : Bytes) (outCap : Nat) :
    csilkBase64urlDecode (unpadded (cString src)) outCap = csilkBase64urlDecode src outCap := by
  obtain ⟨n, hn⟩ := unpadded_append (cString src)
  have hnul : 0 ∉ cString src := fun h => absurd (mem_takeWhile_imp h) (by decide)
  generalize unpadded (cString src) = text at hn
  rw [hn, mem_append, not_or] at hnul
  rw [csilkBase64urlDecode, csilkBase64urlDecode, cString_eq_self hnul.1, hn, map_append, map_replicate]
  exact congrArg (· >>= _) (decodeLoop_pad _ n outCap 0 0 []).symm

theorem csilkBase64urlDecode_strict (src : Bytes) (outCap : Nat) (res : Bytes)
    (h : csilkBase64urlDecode src outCap = some res) :
    (csilkBase64urlEncode res = unpadded (cString src) ↔ Canonical (unpadded (cString src))) ∧
      ∀ src' outCap', Canonical src → Canonical src' →
        csilkBase64urlDecode src' outCap' = some res → src = src' := by
  refine ⟨⟨fun heq => ?_, fun hc => ?_⟩, fun src' outCap' hc hc' h' => ?_⟩
  · rw [← heq]
    exact canonical_encode res
  · rw [← decode_unpadded] at h
    exact hc.decode h
  · rw [← hc.decode h, hc'.decode h']

theorem csilkBase64urlDecode_strict_zero : csilkBase64urlDecode (ascii "AA==") 1 = some [0] ∧
    (csilkBase64urlEncode [0] = unpadded (cString (ascii "AA==")) ↔
      Canonical (unpadded (cString (ascii "AA==")))) :=
  ⟨by decide, (csilkBase64urlDecode_strict (ascii "AA==") 1 [0] (by decide)).1⟩

/-- The unused bits of the last character are not looked at. -/
theorem csilkBase64urlDecode_lenient : csilkBase64urlDecode (ascii "AA") 1 = some [0] ∧
    csilkBase64urlDecode (ascii "AB") 1 = some [0] ∧ csilkBase64urlEncode [0] = ascii "AA" := by
  decide

end Csilk.Jwt
