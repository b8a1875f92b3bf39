import Csilk.Bytes
import Mathlib.Algebra.Group.Nat.Defs

namespace Csilk.WebSocket
open List

def csilkWsMaxFramePayload : Nat := 64 * 1024 * 1024

def bigEndian (bs : Bytes) : Nat := bs.foldl (fun n b => n * 256 + b.toNat) 0

def payloadLength (buf : Bytes) : Option (Nat × Nat) :=
  if buf.length < 2 then none
  else
    let len := (buf.getD 1 0 &&& 0x7F).toNat
    if len = 126 then
      if buf.length < 4 then none else some (bigEndian ((buf.drop 2).take 2), 4)
    else if len = 127 then
      if buf.length < 10 then none else some (bigEndian ((buf.drop 2).take 8), 10)
    else some (len, 2)

def applyMask (mask payload : Bytes) : Bytes := payload.mapIdx fun i b => b ^^^ mask.getD (i % 4) 0

inductive Outcome where
  | ignored
  | closed (code : Nat)
  | message (payload : Bytes) (opcode : UInt8)
deriving DecidableEq

def csilkWsParseFrame (buf : Bytes) : Outcome :=
  let opcode := buf.getD 0 0 &&& 0x0F
  let masked := buf.getD 1 0 >>> 7 &&& 0x01
  match payloadLength buf with
  | none => .ignored
  | some (payloadLen, offset) =>
    if masked = 1 ∧ buf.length < offset + 4 then .ignored
    else
      let mask := if masked = 1 then (buf.drop offset).take 4 else [0, 0, 0, 0]
      let offset := if masked = 1 then offset + 4 else offset
      if csilkWsMaxFramePayload < payloadLen then .ignored
      else if buf.length < offset + payloadLen then .ignored
      else
        let raw := (buf.drop offset).take payloadLen
        let payload := if masked = 1 then applyMask mask raw else raw
        if opcode = 8 then
          .closed (if 2 ≤ payloadLen then bigEndian (payload.take 2) else 1005)
        else .message payload opcode

inductive LengthForm where
  | short
  | medium
  | long
deriving DecidableEq

structure Frame where
  opcode : UInt8
  form : LengthForm
  mask : Bytes
  payload : Bytes
  data : opcode = 1 ∨ opcode = 2
  mask_length : mask.length = 4
  limit : payload.length ≤ csilkWsMaxFramePayload
  fits : match form with
    | .short => payload.length ≤ 125
    | .medium => payload.length < 2 ^ 16
    | .long => True

def toBigEndian : (width n : Nat) → Bytes
  | 0, _ => []
  | width + 1, n => toBigEndian width (n / 256) ++ [UInt8.ofNat n]

def Frame.lengthBytes (f : Frame) : Bytes :=
  match f.form with
  | .short => [0x80 ||| UInt8.ofNat f.payload.length]
  | .medium => (0x80 ||| 126) :: toBigEndian 2 f.payload.length
  | .long => (0x80 ||| 127) :: toBigEndian 8 f.payload.length

def Frame.encode (f : Frame) : Bytes :=
  (0x80 ||| f.opcode) :: (f.lengthBytes ++ (f.mask ++ applyMask f.mask f.payload))

def Frame.message (f : Frame) : Bytes × UInt8 := (f.payload, f.opcode)

theorem toBigEndian_length (width n : Nat) : (toBigEndian width n).length = width := by
  induction width generalizing n with
  | zero => rfl
  | succ width ih => rw [toBigEndian, length_append, ih]; rfl

theorem bigEndian_append (bs : Bytes) (b : UInt8) :
    bigEndian (bs ++ [b]) = bigEndian bs * 256 + b.toNat := by
  rw [bigEndian, foldl_append]
  rfl

theorem bigEndian_toBigEndian (width n : Nat) (h : n < 256 ^ width) :
    bigEndian (toBigEndian width n) = n := by
  induction width generalizing n with
  | zero =>
    have hn : n = 0 := by omega
    subst hn
    rfl
  | succ width ih =>
    have hdiv : n / 256 < 256 ^ width := by
      rw [Nat.div_lt_iff_lt_mul (by decide)]
      rwa [Nat.pow_succ] at h
    have hmod : (UInt8.ofNat n).toNat = n % 256 := UInt8.toNat_ofNat
    rw [toBigEndian, bigEndian_append, ih _ hdiv]
    omega

theorem applyMask_applyMask (mask payload : Bytes) : applyMask mask (applyMask mask payload) = payload := by
  rw [applyMask, applyMask, mapIdx_mapIdx]
  apply ext_getElem
  · rw [length_mapIdx]
  · intro i h₁ h₂
    rw [getElem_mapIdx]
    dsimp only [Function.comp_apply]
    rw [UInt8.xor_assoc, UInt8.xor_self, UInt8.xor_zero]

theorem applyMask_length (mask payload : Bytes) : (applyMask mask payload).length = payload.length := by
  rw [applyMask, length_mapIdx]

theorem Frame.encode_append (f : Frame) (rest : Bytes) : f.encode ++ rest =
      (0x80 ||| f.opcode) :: (f.lengthBytes ++ (f.mask ++ (applyMask f.mask f.payload ++ rest))) := by
  rw [Frame.encode, cons_append, append_assoc, append_assoc]

theorem mask_bit : ∀ n : Fin 128, (0x80 ||| UInt8.ofNat n.val) &&& 0x7F = UInt8.ofNat n.val ∧
    (0x80 ||| UInt8.ofNat n.val) >>> 7 &&& 0x01 = 1 := by
  decide +kernel

theorem toNat_ofNat_of_lt (h : n < 128) : (UInt8.ofNat n).toNat = n := by
  rw [UInt8.toNat_ofNat', Nat.mod_eq_of_lt (by omega)]

theorem Frame.lengthBytes_cons (f : Frame) :
    ∃ n, n < 128 ∧ ∃ tail, f.lengthBytes = (0x80 ||| UInt8.ofNat n) :: tail ∧ match f.form with
      | .short => n = f.payload.length ∧ tail = []
      | .medium => n = 126 ∧ tail = toBigEndian 2 f.payload.length
      | .long => n = 127 ∧ tail = toBigEndian 8 f.payload.length := by
  have hfits := f.fits
  unfold Frame.lengthBytes
  cases hform : f.form with
  | short =>
    rw [hform] at hfits
    exact ⟨_, lt_of_le_of_lt hfits (by decide), [], rfl, rfl, rfl⟩
  | medium => exact ⟨126, by decide, _, rfl, rfl, rfl⟩
  | long => exact ⟨127, by decide, _, rfl, rfl, rfl⟩

theorem payloadLength_encode (f : Frame) (rest : Bytes) :
    payloadLength (f.encode ++ rest) = some (f.payload.length, 1 + f.lengthBytes.length) := by
  obtain ⟨n, hn, tail, hbytes, hform⟩ := f.lengthBytes_cons
  have hfits := f.fits
  have hlimit := f.limit
  have hbit := (mask_bit ⟨n, hn⟩).1
  rw [Frame.encode_append, hbytes]
  unfold payloadLength
  rw [if_neg (by simp only [cons_append, length_cons]; omega)]
  simp only [cons_append, getD_cons_succ, getD_cons_zero, hbit,
    toNat_ofNat_of_lt hn, drop_succ_cons, drop_zero]
  cases hf : f.form with
  | short =>
    rw [hf] at hform hfits
    obtain ⟨rfl, rfl⟩ := hform
    rw [if_neg (by omega), if_neg (by omega)]
    rfl
  | medium =>
    rw [hf] at hform hfits
    obtain ⟨rfl, rfl⟩ := hform
    have hroom : ¬((0x80 ||| f.opcode) :: (0x80 ||| UInt8.ofNat 126) ::
        (toBigEndian 2 f.payload.length ++
          (f.mask ++ (applyMask f.mask f.payload ++ rest)))).length < 4 := by
      simp only [length_cons, length_append, toBigEndian_length]
      omega
    rw [if_pos rfl, if_neg hroom, take_append_of_le_length (by rw [toBigEndian_length]),
      take_of_length_le (by rw [toBigEndian_length]), bigEndian_toBigEndian 2 _ hfits,
      length_cons, toBigEndian_length]
  | long =>
    rw [hf] at hform
    obtain ⟨rfl, rfl⟩ := hform
    have hlt : f.payload.length < 256 ^ 8 := lt_of_le_of_lt hlimit (by decide)
    have hroom : ¬((0x80 ||| f.opcode) :: (0x80 ||| UInt8.ofNat 127) ::
        (toBigEndian 8 f.payload.length ++
          (f.mask ++ (applyMask f.mask f.payload ++ rest)))).length < 10 := by
      simp only [length_cons, length_append, toBigEndian_length]
      omega
    rw [if_neg (by decide), if_pos rfl, if_neg hroom, take_append_of_le_length (by rw [toBigEndian_length]),
      take_of_length_le (by rw [toBigEndian_length]), bigEndian_toBigEndian 8 _ hlt,
      length_cons, toBigEndian_length]

theorem Frame.opcode_bits (f : Frame) : (0x80 ||| f.opcode) &&& 0x0F = f.opcode ∧ f.opcode ≠ 8 := by
  rcases f.data with h | h <;> rw [h] <;> decide

theorem csilkWsParseFrame_encode (f : Frame) (rest : Bytes) :
    csilkWsParseFrame (f.encode ++ rest) = .message f.payload f.opcode := by
  obtain ⟨n, hn, tail, hbytes, _⟩ := f.lengthBytes_cons
  obtain ⟨hop, hne⟩ := f.opcode_bits
  have hlen := payloadLength_encode f rest
  have hcons := f.encode_append rest
  have h0 : (f.encode ++ rest).getD 0 0 = 0x80 ||| f.opcode := by rw [hcons]; rfl
  have h1 : (f.encode ++ rest).getD 1 0 >>> 7 &&& 0x01 = 1 := by
    rw [hcons, hbytes]
    exact (mask_bit ⟨n, hn⟩).2
  have hsplit : (f.encode ++ rest).drop (1 + f.lengthBytes.length) =
      f.mask ++ (applyMask f.mask f.payload ++ rest) := by
    rw [hcons, add_comm, drop_succ_cons, drop_left]
  have hmask : ((f.encode ++ rest).drop (1 + f.lengthBytes.length)).take 4 = f.mask := by
    rw [hsplit, ← f.mask_length, take_left]
  have hraw : (f.encode ++ rest).drop (1 + f.lengthBytes.length + 4) =
      applyMask f.mask f.payload ++ rest := by
    rw [← drop_drop, hsplit, ← f.mask_length, drop_left]
  have htotal : (f.encode ++ rest).length =
      1 + f.lengthBytes.length + 4 + f.payload.length + rest.length := by
    rw [hcons]
    simp only [length_cons, length_append, applyMask_length, f.mask_length]
    omega
  unfold csilkWsParseFrame
  simp only [hlen, h0, h1, hop, true_and, if_true, hmask, hraw]
  rw [if_neg (by omega), if_neg (not_lt.2 f.limit), if_neg (by omega), if_neg hne,
    take_append_of_le_length (by rw [applyMask_length]),
    take_of_length_le (by rw [applyMask_length]), applyMask_applyMask]

def csilkWsSendHeader (len : Nat) (opcode : UInt8) : Bytes :=
  (0x80 ||| (opcode &&& 0x0F)) ::
    if len ≤ 125 then [UInt8.ofNat len]
    else if len ≤ 65535 then 126 :: toBigEndian 2 len
    else 127 :: toBigEndian 8 len

def maskedFrame (opcode : UInt8) (mask payload : Bytes) : Bytes :=
  (csilkWsSendHeader payload.length opcode).modify 1 (0x80 ||| ·) ++ (mask ++ applyMask mask payload)

theorem Frame.lengthBytes_length (f : Frame) :
    1 + f.lengthBytes.length = match f.form with
      | .short => 2
      | .medium => 4
      | .long => 10 := by
  unfold Frame.lengthBytes
  cases f.form with
  | short => rfl
  | medium | long => rw [length_cons, toBigEndian_length]

theorem maskedFrame_encode (hdata : opcode = 1 ∨ opcode = 2) (hmask : mask.length = 4)
    (hlimit : payload.length ≤ csilkWsMaxFramePayload) :
    ∃ f : Frame, f.message = (payload, opcode) ∧ f.encode = maskedFrame opcode mask payload ∧
      (csilkWsSendHeader payload.length opcode).length = 1 + f.lengthBytes.length ∧
      f.form = if payload.length ≤ 125 then .short else if payload.length ≤ 65535 then .medium else .long := by
  have hop : opcode &&& 0x0F = opcode := by rcases hdata with rfl | rfl <;> rfl
  unfold maskedFrame csilkWsSendHeader
  rw [hop]
  split
  · exact ⟨⟨opcode, .short, mask, payload, hdata, hmask, hlimit, ‹_›⟩, rfl, rfl, rfl, rfl⟩
  · split
    · exact ⟨⟨opcode, .medium, mask, payload, hdata, hmask, hlimit, Nat.lt_succ_of_le ‹_›⟩, rfl, rfl,
        add_comm .., rfl⟩
    · exact ⟨⟨opcode, .long, mask, payload, hdata, hmask, hlimit, trivial⟩, rfl, rfl, add_comm .., rfl⟩

theorem csilkWsParseFrame_csilkWsSend (hdata : opcode = 1 ∨ opcode = 2) (hmask : mask.length = 4)
    (hlimit : payload.length ≤ csilkWsMaxFramePayload) :
    csilkWsParseFrame (maskedFrame opcode mask payload) = .message payload opcode ∧
      (csilkWsSendHeader payload.length opcode).length ∈ [2, 4, 10] ∧
      ∀ f : Frame, f.payload.length = payload.length →
        (csilkWsSendHeader payload.length opcode).length ≤ 1 + f.lengthBytes.length := by
  obtain ⟨f, hmessage, hencode, hheader, hform⟩ := maskedFrame_encode hdata hmask hlimit
  obtain ⟨rfl, rfl⟩ := Prod.mk.inj hmessage
  have hparse := csilkWsParseFrame_encode f []
  rw [append_nil, hencode] at hparse
  rw [hheader, f.lengthBytes_length, hform]
  refine ⟨hparse, ?_, fun g hg => ?_⟩
  · split <;> simp
  · have hfits := g.fits
    rw [g.lengthBytes_length, ← hg]
    cases hgf : g.form with
    | short =>
      rw [hgf] at hfits
      rw [if_pos hfits]
    | medium =>
      rw [hgf] at hfits
      rw [if_pos (Nat.le_of_lt_succ hfits)]
      by_cases hshort : g.payload.length ≤ 125 <;> simp [hshort]
    | long => split <;> simp

theorem csilkWsParseFrame_csilkWsSend_text :
    csilkWsParseFrame (maskedFrame 1 [1, 2, 3, 4] [72, 105]) = .message [72, 105] 1 :=
  (csilkWsParseFrame_csilkWsSend (.inl rfl) rfl (by decide)).1

end Csilk.WebSocket
