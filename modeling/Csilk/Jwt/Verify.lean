import Csilk.Jwt.Model

namespace Csilk.Jwt
open Csilk.Lib List Option

section Spec
variable {J : Type} (lib : Json J) (cipher : Cipher)

/-- A text has no NUL byte, a written value reads back, and the generator's header has its
algorithm. -/
structure Json.Correct : Prop where
  parse_nul : ∀ {text j}, lib.parse text = some j → 0 ∉ text
  parse_serialize : ∀ {text j}, lib.serialize j = some text → lib.parse text = some j
  header : ∃ h v, lib.parse (jwtBuildHeader .hs256) = some h ∧
    lib.get h (ascii "alg") = some v ∧ lib.stringValue v = some (ascii "HS256")

def Signed (key token first second : Bytes) : Prop :=
  16 ≤ key.length ∧ 46 ∉ first ∧ 46 ∉ second ∧ token = first ++ 46 :: (second ++ 46 ::
      csilkBase64urlEncode (cipher.hmacSha256 key (first ++ 46 :: second)).1)

/-- The time rules for integers with an exact double, and the flags. -/
structure ClaimsHold (flags : UInt32) (leeway now : Int) (payload : J) : Prop where
  exp : ∀ claim (e : Int), lib.get payload (ascii "exp") = some claim →
    lib.numberValue claim = some (e : ℚ) → e.natAbs < 2 ^ 53 → now - leeway ≤ e
  nbf : ∀ claim (e : Int), lib.get payload (ascii "nbf") = some claim →
    lib.numberValue claim = some (e : ℚ) → e.natAbs < 2 ^ 53 → e ≤ now + leeway
  required : (flags &&& csilkJwtRequireExp ≠ 0 → lib.get payload (ascii "exp") ≠ none) ∧
    (flags &&& csilkJwtRequireNbf ≠ 0 → lib.get payload (ascii "nbf") ≠ none) ∧
    (flags &&& csilkJwtRequireIat ≠ 0 → lib.get payload (ascii "iat") ≠ none)

def Acceptable (flags : UInt32) (leeway now : Int) (key token : Bytes) (payload : J) : Prop :=
  ∃ first second header text h v, Signed cipher key token first second ∧
    decodePart first = some header ∧ lib.parse header = some h ∧
    lib.get h (ascii "alg") = some v ∧ lib.stringValue v = some (ascii "HS256") ∧
    decodePart second = some text ∧ lib.parse text = some payload ∧
    ClaimsHold lib flags leeway now payload

structure RoundedClaims (flags : UInt32) (leeway now : Int) (payload : J) : Prop where
  exp : ∀ claim, lib.get payload (ascii "exp") = some claim →
    ∃ x, lib.numberValue claim = some x ∧ (toDouble (toDouble now - toDouble leeway) : ℚ) ≤ x
  nbf : ∀ claim, lib.get payload (ascii "nbf") = some claim →
    ∃ x, lib.numberValue claim = some x ∧ x ≤ (toDouble (toDouble now + toDouble leeway) : ℚ)
  iat : ∀ claim, lib.get payload (ascii "iat") = some claim → ∃ x, lib.numberValue claim = some x
  required : (flags &&& csilkJwtRequireExp ≠ 0 → lib.get payload (ascii "exp") ≠ none) ∧
    (flags &&& csilkJwtRequireNbf ≠ 0 → lib.get payload (ascii "nbf") ≠ none) ∧
    (flags &&& csilkJwtRequireIat ≠ 0 → lib.get payload (ascii "iat") ≠ none)

/-- A signed token that passes by a NUL byte or a rounding of the time or the leeway. -/
def PassesRewritten (flags : UInt32) (leeway now : Int) (key token : Bytes) : Prop :=
  ∃ first second header text h v s payload, Signed cipher key token first second ∧
    decodePart first = some header ∧ lib.parse (cString header) = some h ∧
    lib.get h (ascii "alg") = some v ∧ lib.stringValue v = some s ∧ cString s = ascii "HS256" ∧
    decodePart second = some text ∧ lib.parse (cString text) = some payload ∧
    RoundedClaims lib flags leeway now payload ∧
    (0 ∈ header ∨ 0 ∈ s ∨ 0 ∈ text ∨ ¬ ClaimsHold lib flags leeway now payload)

def IntegerClaims (payload : J) : Prop :=
  ∀ name ∈ [ascii "exp", ascii "nbf", ascii "iat"], ∀ claim, lib.get payload name = some claim →
    ∃ e : Int, lib.numberValue claim = some (e : ℚ) ∧ e.natAbs < 2 ^ 53

end Spec

theorem require_eq_some : require b = some u ↔ b = true := by
  cases b with
  | false | true => simp [require]

theorem takeWhile_dot (h : 46 ∉ a) (rest : Bytes) :
    (a ++ 46 :: rest).takeWhile (· ≠ 46) = a ∧ (a ++ 46 :: rest).dropWhile (· ≠ 46) = 46 :: rest := by
  have hpos : ∀ b ∈ a, decide (b ≠ 46) = true := fun b hb => decide_eq_true fun h46 => h (h46 ▸ hb)
  constructor
  · rw [takeWhile_append_of_pos hpos, takeWhile_cons_of_neg (by simp), append_nil]
  · rw [dropWhile_append_of_pos hpos, dropWhile_cons_of_neg (by simp)]

theorem cutDot_eq_some : cutDot t = some (a, r) ↔ 46 ∉ a ∧ t = a ++ 46 :: r := by
  constructor
  · intro h
    rw [cutDot] at h
    split at h
    case isFalse => cases h
    case isTrue hmem =>
      obtain ⟨front, back, rfl, hfront⟩ := eq_append_cons_of_mem hmem
      obtain ⟨htake, hdrop⟩ := takeWhile_dot hfront back
      rw [htake, hdrop] at h
      cases h
      exact ⟨hfront, rfl⟩
  · intro h
    obtain ⟨hdot, rfl⟩ := h
    obtain ⟨htake, hdrop⟩ := takeWhile_dot hdot r
    rw [cutDot, if_pos (mem_append_right _ mem_cons_self), htake, hdrop]
    rfl

section Verify
variable {J : Type} {lib : Json J} {cipher : Cipher}

theorem checkClaim_iff {payload : J} {required : Bool} {fails : ℚ → Bool} :
    checkClaim lib payload name required fails = true ↔
      (∀ claim, lib.get payload name = some claim →
        ∃ x, lib.numberValue claim = some x ∧ fails x = false) ∧
      (required = true → lib.get payload name ≠ none) := by
  rw [checkClaim]
  cases lib.get payload name with
  | none => simp
  | some claim =>
    cases hx : lib.numberValue claim with
    | none | some x => simp [hx]

theorem checks_iff {payload : J} :
    checkExp lib payload flags leeway now = true ∧ checkNbf lib payload flags leeway now = true ∧
        checkIat lib payload flags = true ↔
      RoundedClaims lib flags leeway now payload := by
  rw [checkExp, checkNbf, checkIat, checkClaim_iff, checkClaim_iff, checkClaim_iff]
  simp only [decide_eq_true_eq, decide_eq_false_iff_not, not_lt, and_true]
  constructor
  · intro h
    exact ⟨h.1.1, h.2.1.1, h.2.2.1, h.1.2, h.2.1.2, h.2.2.2⟩
  · intro h
    exact ⟨⟨h.exp, h.required.1⟩, ⟨h.nbf, h.required.2.1⟩, h.iat, h.required.2.2⟩

theorem algMatches_iff {h : J} :
    algMatches lib h .hs256 = true ↔ ∃ v s, lib.get h (ascii "alg") = some v ∧
      lib.stringValue v = some s ∧ cString s = ascii "HS256" := by
  rw [algMatches]
  cases hv : lib.get h (ascii "alg") with
  | none => simp
  | some v =>
    cases hs : lib.stringValue v with
    | none => simp [hs]
    | some s =>
      simp only [bind_some, hs]
      constructor
      · intro heq
        exact ⟨v, s, rfl, hs, of_decide_eq_true heq⟩
      · intro hex
        obtain ⟨v', s', hv', hs', heq⟩ := hex
        cases hv'
        rw [hs] at hs'
        cases hs'
        exact decide_eq_true heq

theorem jwtVerifyInternal_iff {p : J} :
    jwtVerifyInternal lib cipher token key (some ⟨.hs256, flags, leeway⟩) now = some p ↔
      ∃ first second header text h v s, Signed cipher key (cString token) first second ∧
        decodePart first = some header ∧ lib.parse (cString header) = some h ∧
        lib.get h (ascii "alg") = some v ∧ lib.stringValue v = some s ∧
        cString s = ascii "HS256" ∧
        decodePart second = some text ∧ lib.parse (cString text) = some p ∧
        RoundedClaims lib flags leeway now p := by
  simp only [jwtVerifyInternal, bind_eq_bind, bind_eq_some_iff, require_eq_some,
    exists_const, getD_some, Option.pure_def, Option.some.injEq, decide_eq_true_eq,
    Prod.exists, cutDot_eq_some, algMatches_iff, sigOk]
  constructor
  · intro hv
    obtain ⟨hkey, first, rest, ⟨hfirst, htoken⟩, second, sig, ⟨hsecond, rfl⟩, header, hheader, h,
      hh, ⟨v, s, hv, hs, halg⟩, rfl, text, htext, payload, hpayload, hexp, hnbf, hiat, rfl⟩ := hv
    exact ⟨first, second, header, text, h, v, s, ⟨hkey, hfirst, hsecond, htoken⟩, hheader, hh, hv,
      hs, halg, htext, hpayload, checks_iff.1 ⟨hexp, hnbf, hiat⟩⟩
  · intro hs
    obtain ⟨first, second, header, text, h, v, s, ⟨hkey, hfirst, hsecond, htoken⟩, hheader, hh, hv,
      hs, halg, htext, hpayload, hclaims⟩ := hs
    obtain ⟨hexp, hnbf, hiat⟩ := checks_iff.2 hclaims
    exact ⟨hkey, first, _, ⟨hfirst, htoken⟩, second, _, ⟨hsecond, rfl⟩, header, hheader, h,
      hh, ⟨v, s, hv, hs, halg⟩, rfl, text, htext, p, hpayload, hexp, hnbf, hiat, rfl⟩

theorem Signed.unique (h : Signed cipher key token a b) (h' : Signed cipher key token a' b') :
    a = a' ∧ b = b' := by
  obtain ⟨-, ha, hb, htoken⟩ := h
  obtain ⟨-, ha', hb', htoken'⟩ := h'
  have hfirst := (cutDot_eq_some.2 ⟨ha, htoken⟩).symm.trans (cutDot_eq_some.2 ⟨ha', htoken'⟩)
  obtain ⟨hfirst, hrest⟩ := Prod.mk.inj (Option.some.inj hfirst)
  have hsecond := (cutDot_eq_some.2 ⟨hb, rfl⟩).symm.trans (cutDot_eq_some.2 ⟨hb', hrest⟩)
  exact ⟨hfirst, (Prod.mk.inj (Option.some.inj hsecond)).1⟩

theorem sound_iff (hlib : lib.Correct) :
    (∀ p, jwtVerifyInternal lib cipher token key (some ⟨.hs256, flags, leeway⟩) now = some p →
        Acceptable lib cipher flags leeway now key (cString token) p) ↔
      ¬ PassesRewritten lib cipher flags leeway now key (cString token) := by
  constructor
  · intro hsound hpasses
    obtain ⟨first, second, header, text, h, v, s, payload, hsigned, hheader, hh, hv, hs, halg, htext,
      hpayload, hclaims, hbad⟩ := hpasses
    obtain ⟨first', second', header', text', h', v', hsigned', hheader', hh', hv', hs', htext',
      hpayload', hclaims'⟩ := hsound payload (jwtVerifyInternal_iff.2 ⟨first, second, header, text,
        h, v, s, hsigned, hheader, hh, hv, hs, halg, htext, hpayload, hclaims⟩)
    obtain ⟨rfl, rfl⟩ := hsigned.unique hsigned'
    cases hheader.symm.trans hheader'
    cases htext.symm.trans htext'
    have hheaderNul := hlib.parse_nul hh'
    rw [cString_eq_self hheaderNul] at hh
    cases hh.symm.trans hh'
    cases hv.symm.trans hv'
    cases hs.symm.trans hs'
    rcases hbad with h0 | h0 | h0 | h0
    · exact hheaderNul h0
    · exact absurd h0 (by decide)
    · exact hlib.parse_nul hpayload' h0
    · exact h0 hclaims'
  · intro hnot p hp
    obtain ⟨first, second, header, text, h, v, s, hsigned, hheader, hh, hv, hs, halg, htext,
      hpayload, hclaims⟩ := jwtVerifyInternal_iff.1 hp
    have hgood : ¬ (0 ∈ header ∨ 0 ∈ s ∨ 0 ∈ text ∨ ¬ ClaimsHold lib flags leeway now p) :=
      fun hbad => hnot ⟨first, second, header, text, h, v, s, p, hsigned, hheader, hh, hv, hs, halg,
        htext, hpayload, hclaims, hbad⟩
    simp only [not_or, not_not] at hgood
    obtain ⟨hheaderNul, hsNul, htextNul, hhold⟩ := hgood
    rw [cString_eq_self hheaderNul] at hh
    rw [cString_eq_self hsNul] at halg
    rw [cString_eq_self htextNul] at hpayload
    exact ⟨first, second, header, text, h, v, hsigned, hheader, hh, hv, halg ▸ hs, htext, hpayload,
      hhold⟩

theorem jwtGenerateInternal_some
    (h : jwtGenerateInternal lib cipher payload key .hs256 = some token) :
    ∃ text, lib.serialize payload = some text ∧
      token = csilkBase64urlEncode (jwtBuildHeader .hs256) ++ 46 ::
        csilkBase64urlEncode (cString text) ++ 46 :: csilkBase64urlEncode (cipher.hmacSha256 key
          (csilkBase64urlEncode (jwtBuildHeader .hs256) ++ 46 ::
            csilkBase64urlEncode (cString text))).1 := by
  simp only [jwtGenerateInternal, bind_eq_bind, bind_eq_some_iff, require_eq_some,
    exists_const, Option.pure_def, Option.some.injEq] at h
  obtain ⟨-, text, htext, -, -, sig, rfl, -, rfl⟩ := h
  exact ⟨text, htext, rfl⟩

theorem decodePart_encode (src : Bytes) :
    decodePart (csilkBase64urlEncode src) = if src.length < 2 ^ 31 then some src else none :=
  decode_encode src (by rw [encode_length]; omega)

theorem jwtGenerateInternal_signed (hkey : 16 ≤ key.length)
    (hgen : jwtGenerateInternal lib cipher payload key .hs256 = some token)
    (htext : lib.serialize payload = some text) (hnul : 0 ∉ text) :
    Signed cipher key (cString token) (csilkBase64urlEncode (jwtBuildHeader .hs256))
      (csilkBase64urlEncode text) := by
  obtain ⟨text', htext', rfl⟩ := jwtGenerateInternal_some hgen
  cases htext.symm.trans htext'
  rw [cString_eq_self hnul]
  have hfree : ∀ src, 0 ∉ csilkBase64urlEncode src := fun src => base64url_notMem src (.inl rfl)
  have hnone : 0 ∉ csilkBase64urlEncode (jwtBuildHeader .hs256) ++ 46 ::
      csilkBase64urlEncode text ++ 46 :: csilkBase64urlEncode (cipher.hmacSha256 key
        (csilkBase64urlEncode (jwtBuildHeader .hs256) ++ 46 :: csilkBase64urlEncode text)).1 := by
    simp [hfree]
  rw [cString_eq_self hnone]
  exact ⟨hkey, base64url_notMem _ (.inr rfl), base64url_notMem _ (.inr rfl),
    append_assoc _ _ _⟩

theorem complete_iff (hlib : lib.Correct) (hkey : 16 ≤ key.length)
    (hgen : jwtGenerateInternal lib cipher payload key .hs256 = some token)
    (htext : lib.serialize payload = some text) :
    jwtVerifyInternal lib cipher token key (some ⟨.hs256, flags, leeway⟩) now = some payload ↔
      text.length < 2 ^ 31 ∧ RoundedClaims lib flags leeway now payload := by
  have hparse := hlib.parse_serialize htext
  have hnul := hlib.parse_nul hparse
  have hsigned := jwtGenerateInternal_signed hkey hgen htext hnul
  rw [jwtVerifyInternal_iff]
  constructor
  · intro hv
    obtain ⟨first, second, header, text', h, v, s, hsigned', -, -, -, -, -, htext', -, hclaims⟩ := hv
    obtain ⟨-, rfl⟩ := hsigned.unique hsigned'
    rw [decodePart_encode] at htext'
    split at htext'
    case isTrue hlt => exact ⟨hlt, hclaims⟩
    case isFalse => cases htext'
  · intro hv
    obtain ⟨h, v, hh, hv', hs⟩ := hlib.header
    have hheader := decodePart_encode (jwtBuildHeader .hs256)
    refine ⟨_, _, _, text, h, v, _, hsigned, hheader, ?_, hv', hs, by decide, ?_, ?_, hv.2⟩
    · rwa [cString_eq_self (hlib.parse_nul hh)]
    · rw [decodePart_encode, if_pos hv.1]
    · rwa [cString_eq_self hnul]

/-- The time rules hold for the doubles of the time and of the leeway too. -/
structure RoundingKeeps (lib : Json J) (leeway now : Int) (payload : J) : Prop where
  exp : ∀ claim (e : Int), lib.get payload (ascii "exp") = some claim →
    lib.numberValue claim = some (e : ℚ) → toDouble now - toDouble leeway ≤ e
  nbf : ∀ claim (e : Int), lib.get payload (ascii "nbf") = some claim →
    lib.numberValue claim = some (e : ℚ) → e ≤ toDouble now + toDouble leeway

theorem IntegerClaims.exact (hint : IntegerClaims lib payload)
    (hname : name ∈ [ascii "exp", ascii "nbf", ascii "iat"])
    (hclaim : lib.get payload name = some claim) {e : Int}
    (he : lib.numberValue claim = some (e : ℚ)) : e.natAbs < 2 ^ 53 := by
  obtain ⟨e', he', hexact⟩ := hint name hname claim hclaim
  have heq := Int.cast_injective (Option.some.inj (he.symm.trans he'))
  rwa [heq]

theorem roundedClaims_iff (hint : IntegerClaims lib payload)
    (hhold : ClaimsHold lib flags leeway now payload) :
    RoundedClaims lib flags leeway now payload ↔ RoundingKeeps lib leeway now payload := by
  constructor
  · intro h
    constructor
    · intro claim e hclaim he
      obtain ⟨x, hx, hle⟩ := h.exp claim hclaim
      cases hx.symm.trans he
      rwa [Int.cast_le, toDouble_le_iff (hint.exact (by simp) hclaim he)] at hle
    · intro claim e hclaim he
      obtain ⟨x, hx, hle⟩ := h.nbf claim hclaim
      cases hx.symm.trans he
      rwa [Int.cast_le, le_toDouble_iff (hint.exact (by simp) hclaim he)] at hle
  · intro h
    constructor
    · intro claim hclaim
      obtain ⟨e, he, hexact⟩ := hint (ascii "exp") (by simp) claim hclaim
      refine ⟨e, he, ?_⟩
      rw [Int.cast_le, toDouble_le_iff hexact]
      exact h.exp claim e hclaim he
    · intro claim hclaim
      obtain ⟨e, he, hexact⟩ := hint (ascii "nbf") (by simp) claim hclaim
      refine ⟨e, he, ?_⟩
      rw [Int.cast_le, le_toDouble_iff hexact]
      exact h.nbf claim e hclaim he
    · intro claim hclaim
      obtain ⟨e, he, -⟩ := hint (ascii "iat") (by simp) claim hclaim
      exact ⟨e, he⟩
    · exact hhold.required

end Verify

inductive TinyValue
  | header | payload | alg | exp
  deriving DecidableEq

def tinyPayload : Bytes := ascii "\x7b\"exp\":9\x7d"

def tinyJson : Json TinyValue where
  parse text :=
    if text = jwtBuildHeader .hs256 then some .header
    else if text = tinyPayload then some .payload
    else none
  serialize
    | .header => some (jwtBuildHeader .hs256)
    | .payload => some tinyPayload
    | _ => none
  get
    | .header, name => if name = ascii "alg" then some .alg else none
    | .payload, name => if name = ascii "exp" then some .exp else none
    | _, _ => none
  stringValue
    | .alg => some (ascii "HS256")
    | _ => none
  numberValue
    | .exp => some 9
    | _ => none

def zeroCipher : Cipher where
  hmacSha256 _ _ := ⟨List.replicate 32 0, length_replicate⟩
  sign _ _ _ := none
  verify _ _ _ _ := false

theorem tinyJson_correct : tinyJson.Correct where
  parse_nul := by
    intro text j h
    simp only [tinyJson] at h
    split at h
    case isTrue heq => rw [heq]; decide
    case isFalse =>
      split at h
      case isTrue heq => rw [heq]; decide
      case isFalse => cases h
  parse_serialize := by
    intro text j h
    cases j with
    | header | payload => cases h; decide
    | alg | exp => cases h
  header := ⟨.header, .alg, by decide, by decide, by decide⟩

def tinyKey : Bytes := ascii "sixteen-byte-key"

def tinyToken (header : Bytes) : Bytes :=
  csilkBase64urlEncode header ++ 46 :: csilkBase64urlEncode tinyPayload ++
    46 :: csilkBase64urlEncode (List.replicate 32 0)

def nulHeader : Bytes := jwtBuildHeader .hs256 ++ [0, 120]

end Csilk.Jwt
