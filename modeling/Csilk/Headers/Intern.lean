import Csilk.Bytes
import Csilk.Lib.Word

namespace Csilk.Headers
open Csilk.Lib List

inductive HeaderId where
  | unknown | host | contentType | contentLength | authorization | cookie | setCookie | accept
  | acceptEncoding | acceptLanguage | userAgent | connection | upgrade | cacheControl | origin
  | referer | secWebsocketKey | secWebsocketVersion | secWebsocketExtensions
  | secWebsocketProtocol | transferEncoding | location | ifModifiedSince | ifNoneMatch | etag
  | server | date | vary | xRequestId | xForwardedFor | xRealIp | contentEncoding
deriving DecidableEq

def csilkHeaderIdName : HeaderId → Bytes
  | .unknown => ascii "Unknown"
  | .host => ascii "Host"
  | .contentType => ascii "Content-Type"
  | .contentLength => ascii "Content-Length"
  | .authorization => ascii "Authorization"
  | .cookie => ascii "Cookie"
  | .setCookie => ascii "Set-Cookie"
  | .accept => ascii "Accept"
  | .acceptEncoding => ascii "Accept-Encoding"
  | .acceptLanguage => ascii "Accept-Language"
  | .userAgent => ascii "User-Agent"
  | .connection => ascii "Connection"
  | .upgrade => ascii "Upgrade"
  | .cacheControl => ascii "Cache-Control"
  | .origin => ascii "Origin"
  | .referer => ascii "Referer"
  | .secWebsocketKey => ascii "Sec-WebSocket-Key"
  | .secWebsocketVersion => ascii "Sec-WebSocket-Version"
  | .secWebsocketExtensions => ascii "Sec-WebSocket-Extensions"
  | .secWebsocketProtocol => ascii "Sec-WebSocket-Protocol"
  | .transferEncoding => ascii "Transfer-Encoding"
  | .location => ascii "Location"
  | .ifModifiedSince => ascii "If-Modified-Since"
  | .ifNoneMatch => ascii "If-None-Match"
  | .etag => ascii "ETag"
  | .server => ascii "Server"
  | .date => ascii "Date"
  | .vary => ascii "Vary"
  | .xRequestId => ascii "X-Request-ID"
  | .xForwardedFor => ascii "X-Forwarded-For"
  | .xRealIp => ascii "X-Real-IP"
  | .contentEncoding => ascii "Content-Encoding"

/-- ASCII case folding, as the hash and `strncasecmp` do it. -/
def foldByte (b : UInt8) : UInt8 := if 65 ≤ b ∧ b ≤ 90 then b ||| 0x20 else b

def foldCase (bs : Bytes) : Bytes := bs.map foldByte

/-- `strncasecmp(a, b, n) == 0`; past its end a string reads as NUL. -/
def strncasecmp : Bytes → Bytes → Nat → Bool
  | _, _, 0 => true
  | a, b, n + 1 =>
    let x := a.headD 0
    let y := b.headD 0
    foldByte x = foldByte y && (x = 0 || strncasecmp a.tail b.tail n)

def word (name : Bytes) (off n : Nat) : Nat := leWord ((name.drop off).take n)

def foldedAt (name : Bytes) (i : Nat) (c : Char) : Bool :=
  name.getD i 0 ||| 0x20 = UInt8.ofNat c.toNat

def csilkHeaderIdFromName (name : Bytes) : HeaderId :=
  match name.length with
  | 4 =>
    let v := word name 0 4 ||| 0x20202020
    if v = 0x74736f68 then .host
    else if v = 0x67617465 then .etag
    else if v = 0x65746164 then .date
    else if v = 0x79726176 then .vary
    else .unknown
  | 6 =>
    let v4 := word name 0 4 ||| 0x20202020
    let v2 := word name 4 2 ||| 0x2020
    if v4 = 0x65636361 ∧ v2 = 0x7470 then .accept
    else if v4 = 0x6b6f6f63 ∧ v2 = 0x6569 then .cookie
    else if v4 = 0x6769726f ∧ v2 = 0x6e69 then .origin
    else if v4 = 0x76726573 ∧ v2 = 0x7265 then .server
    else .unknown
  | 7 =>
    if foldedAt name 0 'u' && strncasecmp (name.drop 1) (ascii "pgrade") 6 then .upgrade
    else if foldedAt name 0 'r' && strncasecmp (name.drop 1) (ascii "eferer") 6 then .referer
    else .unknown
  | 8 =>
    let v8 := word name 0 8 ||| 0x2020202020202020
    if v8 = 0x6e6f697461636f6c then .location else .unknown
  | 9 => if strncasecmp name (ascii "x-real-ip") 9 then .xRealIp else .unknown
  | 10 =>
    let v8 := word name 0 8 ||| 0x2020202020202020
    let v2 := word name 8 2 ||| 0x2020
    if v8 = 0x697463656e6e6f63 ∧ v2 = 0x6e6f then .connection
    else if v8 = 0x6567612d72657375 ∧ v2 = 0x746e then .userAgent
    else if v8 = 0x6b6f6f632d746573 ∧ v2 = 0x6569 then .setCookie
    else .unknown
  | 12 =>
    let v8 := word name 0 8 ||| 0x2020202020202020
    let v4 := word name 8 4 ||| 0x20202020
    if v8 = 0x2d746e65746e6f63 ∧ v4 = 0x65707974 then .contentType
    else if v8 = 0x7365757165722d78 ∧ v4 = 0x64692d74 then .xRequestId
    else .unknown
  | 13 =>
    if foldedAt name 0 'a' && strncasecmp (name.drop 1) (ascii "uthorization") 12 then
      .authorization
    else if foldedAt name 0 'c' && strncasecmp (name.drop 1) (ascii "ache-control") 12 then
      .cacheControl
    else if foldedAt name 0 'i' && strncasecmp (name.drop 1) (ascii "f-none-match") 12 then
      .ifNoneMatch
    else .unknown
  | 14 =>
    let v8 := word name 0 8 ||| 0x2020202020202020
    let v4 := word name 8 4 ||| 0x20202020
    let v2 := word name 12 2 ||| 0x2020
    if v8 = 0x2d746e65746e6f63 ∧ v4 = 0x676e656c ∧ v2 = 0x6874 then .contentLength else .unknown
  | 15 =>
    if foldedAt name 1 'c' then
      if foldedAt name 7 'e' && strncasecmp name (ascii "accept-encoding") 15 then .acceptEncoding
      else if foldedAt name 7 'l' && strncasecmp name (ascii "accept-language") 15 then
        .acceptLanguage
      else .unknown
    else if foldedAt name 1 '-' && strncasecmp name (ascii "x-forwarded-for") 15 then
      .xForwardedFor
    else .unknown
  | 16 => if strncasecmp name (ascii "content-encoding") 16 then .contentEncoding else .unknown
  | 17 =>
    if foldedAt name 0 'i' && strncasecmp (name.drop 1) (ascii "f-modified-since") 16 then
      .ifModifiedSince
    else if foldedAt name 0 's' && strncasecmp (name.drop 1) (ascii "ec-websocket-key") 16 then
      .secWebsocketKey
    else if foldedAt name 0 't' && strncasecmp (name.drop 1) (ascii "ransfer-encoding") 16 then
      .transferEncoding
    else .unknown
  | 21 =>
    if strncasecmp name (ascii "sec-websocket-version") 21 then .secWebsocketVersion else .unknown
  | 22 =>
    if strncasecmp name (ascii "sec-websocket-protocol") 22 then .secWebsocketProtocol
    else .unknown
  | 24 =>
    if strncasecmp name (ascii "sec-websocket-extensions") 24 then .secWebsocketExtensions
    else .unknown
  | _ => .unknown

theorem foldCase_length (bs : Bytes) : (foldCase bs).length = bs.length := length_map _

theorem foldCase_cons (x : UInt8) (xs : Bytes) :
    foldCase (x :: xs) = foldByte x :: foldCase xs := rfl

theorem foldCase_append (xs ys : Bytes) : foldCase (xs ++ ys) = foldCase xs ++ foldCase ys :=
  map_append

theorem foldByte_zero_iff (b : UInt8) : foldByte b = 0 ↔ b = 0 := by
  unfold foldByte
  split
  · rename_i hb
    have hor : (b ||| 0x20) ≠ 0 := by
      intro h
      have h1 := congrArg UInt8.toNat h
      rw [UInt8.toNat_or] at h1
      have h2 : b.toNat ||| 32 = 0 := h1
      rw [Nat.or_eq_zero_iff] at h2
      omega
    constructor
    · intro h
      exact absurd h hor
    · rintro rfl
      exact absurd hb (by decide)
  · rfl

theorem strncasecmp_iff (hl : xs.length = ys.length) (hy : 0 ∉ ys) :
    strncasecmp xs ys ys.length = true ↔ foldCase xs = foldCase ys := by
  induction ys generalizing xs with
  | nil =>
    cases xs with
    | nil => simp [strncasecmp, foldCase]
    | cons x xs => cases hl
  | cons y ys ih =>
    cases xs with
    | nil => cases hl
    | cons x xs =>
      have hy0 : y ≠ 0 := fun h => hy (h ▸ mem_cons_self)
      have hlen : xs.length = ys.length := Nat.succ.inj hl
      have ih := ih hlen (fun h => hy (mem_cons_of_mem _ h))
      have hs : strncasecmp (x :: xs) (y :: ys) (y :: ys).length = true ↔
          foldByte x = foldByte y ∧ (x = 0 ∨ foldCase xs = foldCase ys) := by
        rw [← ih]
        simp [strncasecmp]
      rw [hs, foldCase_cons, foldCase_cons, List.cons.injEq]
      constructor
      · intro ⟨hxy, h⟩
        refine ⟨hxy, h.resolve_left ?_⟩
        intro hx
        rw [(foldByte_zero_iff x).2 hx, eq_comm, foldByte_zero_iff] at hxy
        exact hy0 hxy
      · intro ⟨hxy, h⟩
        exact ⟨hxy, Or.inr h⟩

def NameByte (c : UInt8) : Prop := c = 45 ∨ 97 ≤ c ∧ c ≤ 122

instance (c : UInt8) : Decidable (NameByte c) := inferInstanceAs (Decidable (_ ∨ _))

theorem or_case_bit : ∀ b : Fin 256, b ≠ 13 → ¬ (65 ≤ b ∧ b ≤ 90) →
    NameByte (UInt8.ofFin b) ∨ NameByte (UInt8.ofFin b ||| 0x20) →
    UInt8.ofFin b ||| 0x20 = UInt8.ofFin b := by
  decide +kernel

theorem or_eq_iff (hb : b ≠ 13) (hc : NameByte c) : b ||| 0x20 = c ↔ foldByte b = c := by
  unfold foldByte
  split
  · rfl
  · rename_i hcase
    have h := or_case_bit b.toFin (fun h => hb (UInt8.toFin_inj.1 h)) hcase
    constructor
    · rintro rfl
      exact (h (.inr hc)).symm
    · rintro rfl
      exact h (.inl hc)

def slice (name : Bytes) (off n : Nat) : Bytes := foldCase ((name.drop off).take n)

theorem slice_all (h : name.length = n) : slice name 0 n = foldCase name := by
  rw [slice, drop_zero, ← h, take_length]

theorem slice_append (m : Nat) (ds : Bytes) (hn : cs.length = n) (h : off + n ≤ name.length) :
    slice name off (n + m) = cs ++ ds ↔ slice name off n = cs ∧ slice name (off + n) m = ds := by
  have hl : (slice name off n).length = cs.length := by
    rw [slice, foldCase_length, length_take, length_drop, hn]
    omega
  have hs : slice name off (n + m) = slice name off n ++ slice name (off + n) m := by
    rw [slice, take_add, foldCase_append, drop_drop]
    rfl
  rw [hs]
  constructor
  · intro h
    exact append_inj h hl
  · intro ⟨h1, h2⟩
    rw [h1, h2]

/-- A word constant: `v` is `n` bytes of a name, and `mask` sets the case bit of each. -/
def Spells (n mask v : Nat) : Prop :=
  leWord (List.replicate n 0x20) = mask ∧ leWord (leBytes n v) = v ∧ ∀ c ∈ leBytes n v, NameByte c

instance decidableNameBytes (cs : Bytes) : Decidable (∀ c ∈ cs, NameByte c) :=
  List.decidableBAll NameByte cs

instance (n mask v : Nat) : Decidable (Spells n mask v) :=
  inferInstanceAs (Decidable (_ ∧ _ ∧ _))

theorem map_or_iff (hb : 13 ∉ bs) (hc : ∀ c ∈ cs, NameByte c) :
    bs.map (· ||| 0x20) = cs ↔ foldCase bs = cs := by
  induction bs generalizing cs with
  | nil => rfl
  | cons b bs ih =>
    cases cs with
    | nil => simp [foldCase]
    | cons c cs =>
      have h1 := or_eq_iff (fun h => hb (h ▸ mem_cons_self)) (hc c mem_cons_self)
      have h2 := ih (fun h => hb (mem_cons_of_mem _ h))
        (fun c h => hc c (mem_cons_of_mem _ h))
      simp only [foldCase, map_cons, List.cons.injEq] at h2 ⊢
      rw [h1, h2]

theorem word_iff (hcr : 13 ∉ name) (hl : off + n ≤ name.length) (hs : Spells n mask v) :
    word name off n ||| mask = v ↔ slice name off n = leBytes n v := by
  obtain ⟨hmask, hv, hc⟩ := hs
  have hlen : ((name.drop off).take n).length = (leBytes n v).length := by
    rw [length_take, length_drop, length_leBytes]
    omega
  have hcr' : 13 ∉ (name.drop off).take n := fun h => hcr (mem_of_mem_drop (mem_of_mem_take h))
  have h := leWord_or_mask_eq 0x20 hlen
  rw [length_leBytes, hmask, hv, map_or_iff hcr' hc] at h
  exact h

theorem word_one (hcr : 13 ∉ name) (hl : name.length = n) (hs : Spells n mask v) :
    word name 0 n ||| mask = v ↔ foldCase name = leBytes n v := by
  rw [word_iff hcr (by omega) hs, slice_all hl]

theorem word_two (hcr : 13 ∉ name) (hl : name.length = l) (hn : n + m = l) (hs : Spells n mask v)
    (ht : Spells m mask' v') :
    word name 0 n ||| mask = v ∧ word name n m ||| mask' = v' ↔
      foldCase name = leBytes n v ++ leBytes m v' := by
  have ha := slice_append m (leBytes m v') (length_leBytes (v := v))
    (show 0 + n ≤ name.length by omega)
  rw [word_iff hcr (by omega) hs, word_iff hcr (by omega) ht, ← slice_all (hl.trans hn.symm), ha,
    zero_add]

theorem word_three (hcr : 13 ∉ name) (hl : name.length = l) (hn : n + (m + k) = l)
    (hs : Spells n mask v) (ht : Spells m mask' v') (hu : Spells k mask'' v'') :
    word name 0 n ||| mask = v ∧ word name n m ||| mask' = v' ∧
      word name (n + m) k ||| mask'' = v'' ↔
      foldCase name = leBytes n v ++ (leBytes m v' ++ leBytes k v'') := by
  have ha := slice_append (m + k) (leBytes m v' ++ leBytes k v'') (length_leBytes (v := v))
    (show 0 + n ≤ name.length by omega)
  have hb := slice_append k (leBytes k v'') (length_leBytes (v := v'))
    (show n + m ≤ name.length by omega)
  rw [word_iff hcr (by omega) hs, word_iff hcr (by omega) ht, word_iff hcr (by omega) hu,
    ← slice_all (hl.trans hn.symm), ha, zero_add, hb]

def Folded (cs : Bytes) : Prop := foldCase cs = cs ∧ ∀ c ∈ cs, NameByte c

instance (cs : Bytes) : Decidable (Folded cs) := inferInstanceAs (Decidable (_ ∧ _))

theorem Folded.nul (h : Folded cs) : 0 ∉ cs := fun h0 => absurd (h.2 0 h0) (by decide)

theorem compare_all (hl : name.length = n) (hn : cs.length = n) (hc : Folded cs) :
    strncasecmp name cs n = true ↔ foldCase name = cs := by
  rw [← hn, strncasecmp_iff (hl.trans hn.symm) hc.nul, hc.1]

theorem foldedAt_iff (hcr : 13 ∉ name) (hi : i < name.length) (hc : NameByte (UInt8.ofNat c.toNat)) :
    foldedAt name i c = true ↔ (foldCase name)[i]? = some (UInt8.ofNat c.toNat) := by
  have hm : name[i] ≠ 13 := fun h => hcr (h ▸ getElem_mem hi)
  rw [foldedAt, decide_eq_true_iff, getD_eq_getElem _ _ hi, or_eq_iff hm hc, foldCase,
    getElem?_map, getElem?_eq_getElem hi, Option.map_some, Option.some.injEq]

theorem compare_head (hcr : 13 ∉ name) (hl : name.length = l) (hm : n + 1 = l) (hn : cs.length = n)
    (hc : Folded (UInt8.ofNat c.toNat :: cs)) :
    (foldedAt name 0 c && strncasecmp (name.drop 1) cs n) = true ↔
      foldCase name = UInt8.ofNat c.toNat :: cs := by
  subst hm
  have hcs : Folded cs := by
    refine ⟨?_, fun b hb => hc.2 b (mem_cons_of_mem _ hb)⟩
    have h := hc.1
    rw [foldCase_cons] at h
    exact (List.cons.inj h).2
  rw [Bool.and_eq_true, foldedAt_iff hcr (by omega) (hc.2 _ mem_cons_self)]
  cases name with
  | nil => cases hl
  | cons b name =>
    rw [drop_one, tail_cons, compare_all (by simpa using hl) hn hcs, foldCase_cons,
      getElem?_cons_zero, Option.some.injEq, List.cons.injEq]

theorem csilkHeaderIdFromName_iff {id : HeaderId} (hcr : 13 ∉ name) (hid : id ≠ .unknown) :
    csilkHeaderIdFromName name = id ↔ foldCase name = foldCase (csilkHeaderIdName id) := by
  have hlen : foldCase name = foldCase (csilkHeaderIdName id) →
      name.length = (csilkHeaderIdName id).length := by
    intro h
    rw [← foldCase_length, h, foldCase_length]
  unfold csilkHeaderIdFromName
  -- Each length has its own tests, which all compare the folded name with a text.
  split
  on_goal 10 =>
    simp +decide only [Bool.and_eq_true, foldedAt_iff hcr, compare_all ‹_›, ‹name.length = 15›]
  all_goals
    rename_i hl
    try simp +decide only [word_one hcr hl, word_two hcr hl, word_three hcr hl, compare_head hcr hl,
      compare_all hl]
    try rw [hl] at hlen
    constructor
    · repeat' split
      all_goals
        rintro rfl
        first | assumption | exact absurd rfl hid | exact ‹_ ∧ _›.2
    · intro h
      have hlength := hlen h
      revert h
      generalize foldCase name = f
      rintro rfl
      cases id with
      | unknown => exact absurd rfl hid
      | _ =>
        first | exact absurd hlength (by decide) | exact absurd hlength (by assumption) | rfl

theorem csilkHeaderIdFromName_congr (hx : 13 ∉ x) (hy : 13 ∉ y) (h : foldCase x = foldCase y) :
    csilkHeaderIdFromName x = csilkHeaderIdFromName y := by
  by_cases hid : csilkHeaderIdFromName y = .unknown
  · by_contra hne
    rw [hid] at hne
    have hsame := (csilkHeaderIdFromName_iff hx hne).1 rfl
    exact hne (((csilkHeaderIdFromName_iff hy hne).2 (h.symm.trans hsame)).symm.trans hid)
  · exact (csilkHeaderIdFromName_iff hx hid).2 (h.trans ((csilkHeaderIdFromName_iff hy hid).1 rfl))

theorem foldCase_eq_of_id (hx : 13 ∉ x) (hy : 13 ∉ y) (hid : csilkHeaderIdFromName x ≠ .unknown)
    (h : csilkHeaderIdFromName x = csilkHeaderIdFromName y) : foldCase x = foldCase y :=
  ((csilkHeaderIdFromName_iff hx hid).1 rfl).trans ((csilkHeaderIdFromName_iff hy hid).1 h.symm).symm

/-- Names have one known id exactly if they differ in case only. -/
theorem csilkHeaderIdFromName_eq_iff (hx : 13 ∉ x) (hy : 13 ∉ y)
    (hid : csilkHeaderIdFromName x ≠ .unknown) :
    csilkHeaderIdFromName x = csilkHeaderIdFromName y ↔ foldCase x = foldCase y :=
  ⟨foldCase_eq_of_id hx hy hid, csilkHeaderIdFromName_congr hx hy⟩

theorem csilkHeaderIdFromName_eq_host :
    csilkHeaderIdFromName (ascii "Host") = csilkHeaderIdFromName (ascii "hOST") := by
  rw [csilkHeaderIdFromName_eq_iff] <;> decide

end Csilk.Headers
