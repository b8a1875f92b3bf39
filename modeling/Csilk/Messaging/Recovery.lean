import Csilk.Messaging.Wal

namespace Csilk.Messaging
open Csilk.Lib List

@[simp] theorem le32_length (n : Nat) : (le32 n).length = 4 := rfl

theorem ofLe32_le32 (n : Nat) : ofLe32 (le32 n) = n % 2 ^ 32 := by
  simp only [ofLe32, le32, UInt8.toNat_ofNat']
  omega

def rawFrame (topic payload : Bytes) : Bytes :=
  le32 topic.length ++ topic ++ le32 payload.length ++ payload ++
    le32 (xorChecksum (xorChecksum 0 topic) payload).toNat

theorem fsRead_append (pre buf rest : Bytes) :
    fsRead (pre ++ (buf ++ rest)) pre.length buf.length = some buf := by
  rw [fsRead_eq_some]
  refine ⟨by simp, ?_⟩
  simp only [length_append]
  omega

theorem readFrame_rawFrame (h : 0 < topic.length) (ht : topic.length ≤ walMaxTopicLen)
    (hp : payload.length ≤ walMaxPayloadLen) (pre rest : Bytes) :
    readFrame (pre ++ (rawFrame topic payload ++ rest)) pre.length =
      some ((topic, if 0 < payload.length then some payload else none),
        pre.length + (rawFrame topic payload).length) := by
  have hsum : (xorChecksum (xorChecksum 0 topic) payload).toNat < 2 ^ 32 := UInt32.toNat_lt _
  have ht' : topic.length % 2 ^ 32 = topic.length := by
    unfold walMaxTopicLen at ht
    omega
  have hp' : payload.length % 2 ^ 32 = payload.length := by
    unfold walMaxPayloadLen at hp
    omega
  have h₁ := fsRead_append pre (le32 topic.length) (topic ++ (le32 payload.length ++ (payload ++
    (le32 (xorChecksum (xorChecksum 0 topic) payload).toNat ++ rest))))
  have h₂ := fsRead_append (pre ++ le32 topic.length) topic (le32 payload.length ++ (payload ++
    (le32 (xorChecksum (xorChecksum 0 topic) payload).toNat ++ rest)))
  have h₃ := fsRead_append (pre ++ le32 topic.length ++ topic) (le32 payload.length) (payload ++
    (le32 (xorChecksum (xorChecksum 0 topic) payload).toNat ++ rest))
  have h₄ := fsRead_append (pre ++ le32 topic.length ++ topic ++ le32 payload.length) payload
    (le32 (xorChecksum (xorChecksum 0 topic) payload).toNat ++ rest)
  have h₅ := fsRead_append (pre ++ le32 topic.length ++ topic ++ le32 payload.length ++ payload)
    (le32 (xorChecksum (xorChecksum 0 topic) payload).toNat) rest
  simp only [length_append, le32_length, append_assoc, ← add_assoc] at h₁ h₂ h₃ h₄ h₅
  have hg : (guard (topic.length ≠ 0 ∧ topic.length ≤ walMaxTopicLen) : Option Unit) = some () :=
    guard_eq_some.2 ⟨by omega, ht⟩
  have hg' : (guard (payload.length ≤ walMaxPayloadLen) : Option Unit) = some () :=
    guard_eq_some.2 hp
  simp only [readFrame, rawFrame, append_assoc, h₁, h₂, h₃, h₄, h₅, ofLe32_le32, ht', hp',
    Nat.mod_eq_of_lt hsum, Option.bind_eq_bind, Option.bind_some, hg, hg', guard_true,
    length_append, le32_length, ← add_assoc]
  rfl

theorem fsRead_drop (file : Bytes) (o k n : Nat) :
    fsRead (file.drop o) k n = fsRead file (o + k) n := by
  simp only [fsRead, drop_drop]

theorem readFrame_drop (file : Bytes) (o : Nat) :
    readFrame file o = (readFrame (file.drop o) 0).map fun r => (r.1, o + r.2) := by
  simp only [readFrame, fsRead_drop, Option.bind_eq_bind, Option.map_bind, Function.comp_def,
    Option.pure_def, Option.map_some, zero_add, Nat.add_zero, add_assoc]

def walReader : FrameReader UInt8 (Bytes × Option Bytes) where
  read bs := (readFrame bs 0).map fun r => (r.1, bs.drop r.2)
  shrinks h := by
    simp only [Option.map_eq_some_iff, Prod.mk.injEq] at h
    obtain ⟨⟨⟨t, p⟩, o⟩, hr, _, rfl⟩ := h
    obtain ⟨_, _, _, _, _, _, _, _, _, _, _, ho, hle⟩ := readFrame_eq_some hr
    simp only [length_drop]
    omega

def msgOf (topic : Bytes) (payload : Option Bytes) (len : Nat) : Msg :=
  if 0 < len && payload.isSome then ⟨cString topic, payload, len⟩ else ⟨cString topic, none, 0⟩

theorem mqEnqueue_eq (h : (mqEnqueue alloc mq topic payload len).1 = 0) :
    mqEnqueue alloc mq topic payload len = (0, mq.push (msgOf topic payload len)) := by
  unfold mqEnqueue at h ⊢
  unfold msgOf
  split at h
  · contradiction
  · rename_i ha
    rw [if_neg ha]
    split at h
    · rename_i hl
      rw [if_pos hl]
      split at h
      · contradiction
      · rename_i hp
        rw [if_neg hp, if_pos hl]
    · rename_i hl
      rw [if_neg hl, if_neg hl]

theorem mqEnqueue_alloc_ok (mq : Mq) (topic : Bytes) (payload : Option Bytes) (len : Nat) :
    (mqEnqueue (fun _ => true) mq topic payload len).1 = 0 := by
  simp only [mqEnqueue, Bool.not_true, Bool.or_self, Bool.false_eq_true, ↓reduceIte]
  split <;> rfl

def recoveredMsg (r : Bytes × Option Bytes) : Msg := msgOf r.1 r.2 (r.2.getD []).length

theorem recoveryLoop_queue (file : Bytes) (o : Nat) (mq : Mq) : (recoveryLoop file o mq).queue =
      mq.queue ++ (walReader.readAll (file.drop o)).map recoveredMsg := by
  induction o, mq using recoveryLoop.induct file with
  | case1 o mq h =>
    have hr : walReader.read (file.drop o) = none := by
      rw [readFrame_drop, Option.map_eq_none_iff] at h
      simp only [walReader, h, Option.map_none]
    rw [recoveryLoop, FrameReader.readAll_none hr]
    split
    · simp
    · simp_all
  | case2 o mq topic payload o' h hlt ih =>
    have hr : walReader.read (file.drop o) = some ((topic, payload), file.drop o') := by
      rw [readFrame_drop, Option.map_eq_some_iff] at h
      obtain ⟨r, hr, he⟩ := h
      simp only [Prod.mk.injEq] at he
      simp only [walReader, hr, Option.map_some, drop_drop, he]
    rw [recoveryLoop, FrameReader.readAll_some hr]
    split
    · simp_all
    · rename_i he
      rw [h] at he
      cases he
      rw [ih, mqEnqueue_eq (mqEnqueue_alloc_ok ..)]
      simp only [Mq.push, append_assoc, map_cons]
      rfl

end Csilk.Messaging
