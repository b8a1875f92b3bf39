import Csilk.Bytes
import Csilk.Lib.Framing
import Mathlib.Algebra.Group.Nat.Defs
import Mathlib.Data.Option.Basic

namespace Csilk.Messaging
open Csilk.Lib

def walMaxTopicLen : Nat := 64 * 1024

def walMaxPayloadLen : Nat := 64 * 1024 * 1024

structure Msg where
  topic : Bytes
  payload : Option Bytes
  len : Nat
deriving DecidableEq

structure WalTask where
  fd : Nat
  topic : Bytes
  payload : Option Bytes
  len : Nat

structure Mq where
  queue : List Msg
  publishedTotal : Nat
  queueDepth : Nat
  walFd : Option Nat

def Mq.new : Mq := ⟨[], 0, 0, none⟩

structure WalShared where
  pending : List WalTask
  files : Nat → Bytes

inductive AllocSite where
  | task | taskTopic | taskPayload | msg | msgTopic | msgPayload
deriving DecidableEq

/-- `_mq_append_wal`: returns the C result and the shared state. -/
def mqAppendWal (alloc : AllocSite → Bool) (g : WalShared) (mq : Mq) (topic : Bytes)
    (payload : Option Bytes) (len : Nat) : Int × WalShared :=
  match mq.walFd with
  | none => (0, g)
  | some fd =>
    if !alloc .task || !alloc .taskTopic then (-1, g)
    else if 0 < len && payload.isSome then
      if !alloc .taskPayload then (-1, g)
      else (0, { g with pending := g.pending ++ [⟨fd, topic, payload, len⟩] })
    else (0, { g with pending := g.pending ++ [⟨fd, topic, none, len⟩] })

def Mq.push (mq : Mq) (m : Msg) : Mq :=
  { mq with queue := mq.queue ++ [m], publishedTotal := mq.publishedTotal + 1,
            queueDepth := mq.queueDepth + 1 }

/-- `_mq_enqueue`; `strdup` keeps the topic up to its first NUL. -/
def mqEnqueue (alloc : AllocSite → Bool) (mq : Mq) (topic : Bytes) (payload : Option Bytes)
    (len : Nat) : Int × Mq :=
  if !alloc .msg || !alloc .msgTopic then (-1, mq)
  else if 0 < len && payload.isSome then
    if !alloc .msgPayload then (-1, mq)
    else (0, mq.push ⟨cString topic, payload, len⟩)
  else (0, mq.push ⟨cString topic, none, 0⟩)

def csilkMqPublish (alloc : AllocSite → Bool) (g : WalShared) (mq : Mq) (topic : Bytes)
    (payload : Option Bytes) (len : Nat) : Int × WalShared × Mq :=
  if mq.walFd.isSome then
    match mqAppendWal alloc g mq topic payload len with
    | (0, g') =>
      let (r, mq') := mqEnqueue alloc mq topic payload len
      (r, g', mq')
    | (_, g') => (-1, g', mq)
  else
    let (r, mq') := mqEnqueue alloc mq topic payload len
    (r, g, mq')

def le32 (n : Nat) : Bytes :=
  [UInt8.ofNat n, UInt8.ofNat (n / 256), UInt8.ofNat (n / 65536), UInt8.ofNat (n / 16777216)]

def ofLe32 : Bytes → Nat
  | [a, b, c, d] => a.toNat + 256 * b.toNat + 65536 * c.toNat + 16777216 * d.toNat
  | _ => 0

def xorChecksum (c : UInt32) (bs : Bytes) : UInt32 :=
  bs.foldl (fun c b => c ^^^ b.toUInt32) c

def frame (t : WalTask) : Bytes :=
  let topicLen := t.topic.length % 2 ^ 32
  let payloadLen := t.len % 2 ^ 32
  let topic := t.topic.take topicLen
  let payload := (t.payload.getD []).take payloadLen
  le32 topicLen ++ topic ++ le32 payloadLen ++ payload ++
    le32 (xorChecksum (xorChecksum 0 topic) payload).toNat

def writeTask (files : Nat → Bytes) (t : WalTask) : Nat → Bytes :=
  Function.update files t.fd (files t.fd ++ frame t)

def writerBatch (g : WalShared) : WalShared :=
  { pending := [], files := g.pending.foldl writeTask g.files }

/-- `csilk_io_fs_read` at an offset; recovery gives up on a short read. -/
def fsRead (file : Bytes) (offset n : Nat) : Option Bytes :=
  let buf := (file.drop offset).take n
  if buf.length < n then none else some buf

/-- The frame at `offset` and the offset behind it, or `none` where the loop breaks. -/
def readFrame (file : Bytes) (offset : Nat) : Option ((Bytes × Option Bytes) × Nat) := do
  let topicLen := ofLe32 (← fsRead file offset 4)
  let offset := offset + 4
  guard (topicLen ≠ 0 ∧ topicLen ≤ walMaxTopicLen)
  let topic ← fsRead file offset topicLen
  let offset := offset + topicLen
  let payloadLen := ofLe32 (← fsRead file offset 4)
  let offset := offset + 4
  guard (payloadLen ≤ walMaxPayloadLen)
  let payload ← fsRead file offset payloadLen
  let offset := offset + payloadLen
  let checksum := ofLe32 (← fsRead file offset 4)
  let offset := offset + 4
  guard ((xorChecksum (xorChecksum 0 topic) payload).toNat = checksum)
  return ((topic, if 0 < payloadLen then some payload else none), offset)

theorem guard_eq_some [Decidable p] : (guard p : Option Unit) = some u ↔ p := by
  unfold guard
  split <;> simp [*]

theorem fsRead_eq_some : fsRead file offset n = some buf ↔
    buf = (file.drop offset).take n ∧ offset + n ≤ max offset file.length := by
  simp only [fsRead, List.length_take, List.length_drop]
  split
  · simp only [reduceCtorEq, false_iff]
    omega
  · simp only [Option.some.injEq]
    constructor
    · intro h
      exact ⟨h.symm, by omega⟩
    · exact fun h => h.1.symm

theorem readFrame_eq_some (h : readFrame file offset = some ((topic, payload), offset')) :
    ∃ topicLen payloadLen, ∃ data : Bytes, topicLen = ofLe32 ((file.drop offset).take 4) ∧
      0 < topicLen ∧ topicLen ≤ walMaxTopicLen ∧
      topic = (file.drop (offset + 4)).take topicLen ∧
      payloadLen = ofLe32 ((file.drop (offset + 4 + topicLen)).take 4) ∧
      payloadLen ≤ walMaxPayloadLen ∧
      data = (file.drop (offset + 4 + topicLen + 4)).take payloadLen ∧
      payload = (if 0 < payloadLen then some data else none) ∧
      offset' = offset + 4 + topicLen + 4 + payloadLen + 4 ∧ offset' ≤ file.length := by
  simp only [readFrame, Option.bind_eq_bind, Option.bind_eq_some_iff, fsRead_eq_some,
    guard_eq_some, Option.pure_def, Option.some.injEq, Prod.mk.injEq] at h
  obtain ⟨b₁, ⟨rfl, h₁⟩, _, ⟨hpos, hmax⟩, b₂, ⟨rfl, h₂⟩, b₃, ⟨rfl, h₃⟩, _, hpmax, b₄, ⟨rfl, h₄⟩,
    b₅, ⟨rfl, h₅⟩, _, _, ⟨rfl, rfl⟩, rfl⟩ := h
  exact ⟨_, _, _, rfl, by omega, hmax, rfl, rfl, hpmax, rfl, rfl, rfl, by omega⟩

/-- The `_mq_recovery` loop from `offset` on, with every allocation succeeding. -/
def recoveryLoop (file : Bytes) (offset : Nat) (mq : Mq) : Mq :=
  match h : readFrame file offset with
  | none => mq
  | some ((topic, payload), offset') =>
    have := readFrame_eq_some h
    recoveryLoop file offset' (mqEnqueue (fun _ => true) mq topic payload
      (payload.getD []).length).2
termination_by file.length - offset

/-- `_mq_wal_flush` waits for the writer, then the file is replayed. -/
def mqRecovery (g : WalShared) (mq : Mq) : WalShared × Mq :=
  match mq.walFd with
  | none => (g, mq)
  | some fd =>
    let g := writerBatch g
    (g, recoveryLoop (g.files fd) 0 mq)

def csilkMqSetPersistence (g : WalShared) (mq : Mq) (fd : Nat) : WalShared × Mq :=
  mqRecovery (writerBatch g) { mq with walFd := some fd }

end Csilk.Messaging
