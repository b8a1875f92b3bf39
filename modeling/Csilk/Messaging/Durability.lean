import Csilk.Messaging.Recovery

namespace Csilk.Messaging
open Csilk.Lib List Option

/-- A C string, and a payload pointer that is NULL or has `len` readable bytes. -/
structure PublishArgs where
  topic : Bytes
  payload : Option Bytes
  len : Nat
  topic_nul : 0 ∉ topic
  payload_length : ∀ bs, payload = some bs → bs.length = len

def PublishArgs.msg (a : PublishArgs) : Msg := msgOf a.topic a.payload a.len

def PublishArgs.task (fd : Nat) (a : PublishArgs) : WalTask :=
  ⟨fd, a.topic, if 0 < a.len && a.payload.isSome then a.payload else none, a.len⟩

def walFrames (as : List PublishArgs) : Bytes := as.flatMap fun a => frame (a.task 0)

/-- Both lengths are within the reader's limits, and no NULL payload has a length the file cannot
hold. -/
def Recoverable (a : PublishArgs) : Prop :=
  0 < a.topic.length ∧ a.topic.length ≤ walMaxTopicLen ∧ match a.payload with
    | none => a.len % 2 ^ 32 = 0
    | some _ => a.len ≤ walMaxPayloadLen

instance (a : PublishArgs) : Decidable (Recoverable a) := by
  unfold Recoverable
  cases a.payload <;> infer_instance

inductive WalAct where
  | publish (alloc : AllocSite → Bool) (a : PublishArgs)
  | writer

def walStep (s : WalShared × Mq) : WalAct → Int × WalShared × Mq
  | .publish alloc a => csilkMqPublish alloc s.1 s.2 a.topic a.payload a.len
  | .writer => (0, writerBatch s.1, s.2)

def walRun (s : WalShared × Mq) (acts : List WalAct) : WalShared × Mq :=
  acts.foldl (fun s a => (walStep s a).2) s

def Accepted (s : WalShared × Mq) : List WalAct → Prop
  | [] => True
  | a :: acts => (walStep s a).1 = 0 ∧ Accepted (walStep s a).2 acts

def published : List WalAct → List PublishArgs
  | [] => []
  | .publish _ a :: acts => a :: published acts
  | .writer :: acts => published acts

theorem foldl_writeTask (ts : List WalTask) (files : Nat → Bytes) (fd : Nat) :
    ts.foldl writeTask files fd = files fd ++ (ts.filter (·.fd = fd)).flatMap frame := by
  induction ts generalizing files with
  | nil => simp
  | cons t ts ih =>
    rw [foldl_cons, ih]
    by_cases h : t.fd = fd
    · subst h
      simp [writeTask]
    · simp [writeTask, Function.update_of_ne (Ne.symm h), h]

section

variable (fd : Nat) (a : PublishArgs)
include fd a

@[simp] theorem task_fd : (a.task fd).fd = fd := rfl

@[simp] theorem task_topic : (a.task fd).topic = a.topic := rfl

@[simp] theorem task_len : (a.task fd).len = a.len := rfl

theorem frame_task : frame (a.task fd) = frame (a.task 0) := rfl

end

theorem mqAppendWal_ok (hfd : mq.walFd = some fd)
    (h : (mqAppendWal alloc g mq a.topic a.payload a.len).1 = 0) :
    mqAppendWal alloc g mq a.topic a.payload a.len =
      (0, { g with pending := g.pending ++ [PublishArgs.task fd a] }) := by
  simp only [mqAppendWal, hfd] at h ⊢
  split at h
  · contradiction
  · rename_i ha
    rw [if_neg ha]
    split at h
    · rename_i hl
      split at h
      · contradiction
      · rename_i hp
        rw [if_pos hl, if_neg hp, PublishArgs.task, if_pos hl]
    · rename_i hl
      rw [if_neg hl, PublishArgs.task, if_neg hl]

theorem csilkMqPublish_ok (hfd : mq.walFd = some fd)
    (h : (csilkMqPublish alloc g mq a.topic a.payload a.len).1 = 0) :
    csilkMqPublish alloc g mq a.topic a.payload a.len =
      (0, { g with pending := g.pending ++ [PublishArgs.task fd a] }, mq.push a.msg) := by
  simp only [csilkMqPublish, hfd, isSome_some, ↓reduceIte] at h ⊢
  split at h
  · rename_i g' hg
    have hw := mqAppendWal_ok hfd (congrArg Prod.fst hg)
    rw [hw] at hg
    cases hg
    simp only [mqEnqueue_eq h]
    rfl
  · contradiction

theorem walRun_cons (s : WalShared × Mq) (act : WalAct) (acts : List WalAct) :
    walRun s (act :: acts) = walRun (walStep s act).2 acts := rfl

theorem walRun_file (acts : List WalAct) (hfd : s.2.walFd = some fd) (h : Accepted s acts) :
    (writerBatch (walRun s acts).1).files fd =
      (writerBatch s.1).files fd ++ walFrames (published acts) := by
  induction acts generalizing s with
  | nil => simp [walRun, published, walFrames]
  | cons act acts ih =>
    obtain ⟨h₁, h₂⟩ := h
    cases act with
    | writer =>
      rw [walRun_cons, ih (by exact hfd) h₂]
      simp [walStep, published, writerBatch]
    | publish alloc a =>
      have hs : walStep s (.publish alloc a) = _ := csilkMqPublish_ok hfd h₁
      rw [hs] at h₂
      rw [walRun_cons, hs, ih (by exact hfd) h₂]
      simp only [writerBatch, foldl_writeTask, filter_append, flatMap_append, published,
        walFrames, flatMap_cons, filter_singleton, task_fd, decide_true, cond_true,
        flatMap_nil, append_nil, append_assoc]
      rw [frame_task fd a]

def openWal (fd : Nat) (file : Bytes) : WalShared × Mq :=
  csilkMqSetPersistence ⟨[], fun n => if n = fd then file else []⟩ Mq.new fd

def replayed (s : WalShared × Mq) (fd : Nat) : List Msg :=
  (csilkMqSetPersistence s.1 Mq.new fd).2.queue

theorem writerBatch_idem (g : WalShared) : writerBatch (writerBatch g) = writerBatch g := rfl

theorem replayed_eq (s : WalShared × Mq) (fd : Nat) :
    replayed s fd = (walReader.readAll ((writerBatch s.1).files fd)).map recoveredMsg := by
  simp only [replayed, csilkMqSetPersistence, mqRecovery, writerBatch_idem, recoveryLoop_queue,
    drop_zero]
  rfl

theorem mqEnqueue_walFd (alloc : AllocSite → Bool) (mq : Mq) (topic : Bytes)
    (payload : Option Bytes) (len : Nat) :
    (mqEnqueue alloc mq topic payload len).2.walFd = mq.walFd := by
  unfold mqEnqueue
  repeat' split
  all_goals rfl

theorem recoveryLoop_walFd (file : Bytes) (o : Nat) (mq : Mq) :
    (recoveryLoop file o mq).walFd = mq.walFd := by
  induction o, mq using recoveryLoop.induct file with
  | case1 o mq h =>
    rw [recoveryLoop]
    split
    · rfl
    · simp_all
  | case2 o mq topic payload o' h hlt ih =>
    rw [recoveryLoop]
    split
    · simp_all
    · rename_i he
      rw [h] at he
      cases he
      rw [ih, mqEnqueue_walFd]

theorem openWal_walFd (fd : Nat) (file : Bytes) : (openWal fd file).2.walFd = some fd := by
  simp only [openWal, csilkMqSetPersistence, mqRecovery, recoveryLoop_walFd]

theorem openWal_file (fd : Nat) (file : Bytes) :
    (writerBatch (openWal fd file).1).files fd = file := by
  simp [openWal, csilkMqSetPersistence, mqRecovery, writerBatch]

theorem replayed_run (h : Accepted (openWal fd file) acts) :
    replayed (walRun (openWal fd file) acts) fd =
      (walReader.readAll (file ++ walFrames (published acts))).map recoveredMsg := by
  rw [replayed_eq, walRun_file acts (openWal_walFd fd file) h, openWal_file]

theorem Recoverable.data_length (h : Recoverable a) :
    (a.payload.getD []).length ≤ walMaxPayloadLen ∧
      a.len % 2 ^ 32 = (a.payload.getD []).length := by
  obtain ⟨_, _, hp⟩ := h
  cases he : a.payload with
  | none =>
    rw [he] at hp
    exact ⟨Nat.zero_le _, hp⟩
  | some bs =>
    rw [he] at hp
    have hl := a.payload_length bs he
    simp only [walMaxPayloadLen, getD_some] at hp ⊢
    omega

theorem task_payload (a : PublishArgs) : ((a.task 0).payload.getD []).take (a.len % 2 ^ 32) =
      (a.payload.getD []).take (a.len % 2 ^ 32) := by
  simp only [PublishArgs.task]
  split
  · rfl
  · rename_i h
    cases he : a.payload with
    | none => rfl
    | some bs =>
      have hl : a.len = 0 := by simpa [he] using h
      simp [hl]

theorem Recoverable.frame_eq (h : Recoverable a) :
    frame (a.task 0) = rawFrame a.topic (a.payload.getD []) := by
  obtain ⟨_, hlen⟩ := h.data_length
  have ht : a.topic.length % 2 ^ 32 = a.topic.length := by
    have := h.2.1
    unfold walMaxTopicLen at this
    omega
  have hp := task_payload a
  rw [hlen] at hp
  simp only [frame, rawFrame, task_topic, task_len, ht, hlen, hp, take_length]

theorem recoveredMsg_eq (a : PublishArgs) :
    recoveredMsg (a.topic, if 0 < (a.payload.getD []).length then some (a.payload.getD []) else none) =
      a.msg := by
  cases he : a.payload with
  | none => simp [recoveredMsg, PublishArgs.msg, msgOf, he]
  | some bs =>
    have hl := a.payload_length bs he
    by_cases hb : 0 < bs.length
    · simp [recoveredMsg, PublishArgs.msg, he, hl ▸ hb, hl]
    · have hz : a.len = 0 := by omega
      simp [recoveredMsg, PublishArgs.msg, msgOf, he, hb, hz]

theorem Recoverable.read (h : Recoverable a) (rest : Bytes) :
    ∃ r, walReader.read (frame (a.task 0) ++ rest) = some (r, rest) ∧ recoveredMsg r = a.msg := by
  refine ⟨_, ?_, recoveredMsg_eq a⟩
  have hr := readFrame_rawFrame h.1 h.2.1 h.data_length.1 [] rest
  simp only [nil_append, length_nil, zero_add] at hr
  simp only [walReader, h.frame_eq, hr, map_some, drop_left]

theorem frame_fields (a : PublishArgs) (rest : Bytes) :
    ofLe32 ((frame (a.task 0) ++ rest).take 4) = a.topic.length % 2 ^ 32 ∧
      ofLe32 (((frame (a.task 0) ++ rest).drop (4 + a.topic.length % 2 ^ 32)).take 4) =
        a.len % 2 ^ 32 := by
  have hle : a.topic.length % 2 ^ 32 ≤ a.topic.length := Nat.mod_le _ _
  have ht (n : Nat) (z : Bytes) : ofLe32 ((le32 n ++ z).take 4) = n % 2 ^ 32 := by
    rw [← le32_length n, take_left, ofLe32_le32]
  simp only [frame, task_topic, task_len, append_assoc]
  constructor
  · rw [ht, Nat.mod_mod]
  · have hlen : (le32 (a.topic.length % 2 ^ 32) ++ a.topic.take (a.topic.length % 2 ^ 32)).length =
        4 + a.topic.length % 2 ^ 32 := by
      rw [length_append, le32_length, length_take, Nat.min_eq_left hle]
    rw [← append_assoc, drop_left' hlen, ht, Nat.mod_mod]

theorem msgOf_topic (topic : Bytes) (payload : Option Bytes) (len : Nat) :
    (msgOf topic payload len).topic = cString topic := by
  unfold msgOf
  split <;> rfl

theorem msg_topic (a : PublishArgs) : a.msg.topic = a.topic :=
  (msgOf_topic _ _ _).trans (cString_eq_self a.topic_nul)

theorem msgOf_len_le (topic : Bytes) (payload : Option Bytes) (len : Nat) :
    (msgOf topic payload len).len ≤ len := by
  unfold msgOf
  split <;> simp

theorem recoverable_of_read (h : walReader.read (frame (a.task 0) ++ rest) = some (r, rest'))
    (he : recoveredMsg r = a.msg) : Recoverable a := by
  simp only [walReader, map_eq_some_iff, Prod.mk.injEq] at h
  obtain ⟨⟨⟨topic, payload⟩, o⟩, hr, rfl, rfl⟩ := h
  obtain ⟨T, P, data, hT, hpos, hmax, htopic, hP, hpmax, hdata, hpay, ho, hle⟩ :=
    readFrame_eq_some hr
  obtain ⟨hf₁, hf₂⟩ := frame_fields a rest
  simp only [drop_zero, zero_add] at hT htopic hP hdata ho
  rw [hf₁] at hT
  rw [hT, hf₂] at hP
  have htl : a.topic.length ≤ T := by
    have hc := congrArg (List.length ∘ Msg.topic) he
    simp only [Function.comp, recoveredMsg, msgOf_topic, msg_topic] at hc
    have hct := cString_length_le topic
    have hlt := congrArg List.length htopic
    simp only [length_take] at hlt
    omega
  have hdl : data.length = P := by
    rw [hdata, length_take, length_drop]
    omega
  refine ⟨by omega, by omega, ?_⟩
  cases hap : a.payload with
  | none =>
    by_contra hne
    have hPpos : 0 < P := by omega
    subst hpay
    simp [recoveredMsg, PublishArgs.msg, msgOf, hap, hdl, hPpos] at he
  | some bs =>
    have hml : a.msg.len = a.len := by
      unfold PublishArgs.msg msgOf
      split
      · rfl
      · simp_all
    have hrl : a.len ≤ (payload.getD []).length := by
      rw [← hml, ← he]
      exact msgOf_len_le _ _ _
    have hpl : (payload.getD []).length ≤ P := by
      rw [hpay]
      split <;> simp [hdl]
    exact (hrl.trans hpl).trans hpmax

theorem replay_frames_iff (as : List PublishArgs) :
    (walReader.readAll (walFrames as)).map recoveredMsg = as.map PublishArgs.msg ↔
      ∀ a ∈ as, Recoverable a := by
  induction as with
  | nil =>
    have hr : walReader.read [] = none := rfl
    simp [walFrames, FrameReader.readAll_none hr]
  | cons a as ih =>
    have hw : walFrames (a :: as) = frame (a.task 0) ++ walFrames as := rfl
    rw [hw, forall_mem_cons, ← ih]
    constructor
    · intro h
      cases hr : walReader.read (frame (a.task 0) ++ walFrames as) with
      | none =>
        rw [FrameReader.readAll_none hr] at h
        cases h
      | some p =>
        rw [FrameReader.readAll_some hr, map_cons, map_cons, List.cons.injEq] at h
        have ha := recoverable_of_read hr h.1
        obtain ⟨r', hr', _⟩ := ha.read (walFrames as)
        rw [hr] at hr'
        cases hr'
        exact ⟨ha, h.2⟩
    · rintro ⟨ha, h⟩
      obtain ⟨r, hr, he⟩ := ha.read (walFrames as)
      rw [FrameReader.readAll_some hr, map_cons, map_cons, he, h]

theorem csilkMqPublish_alloc_ok (g : WalShared) (mq : Mq) (a : PublishArgs)
    (hfd : mq.walFd = some fd) :
    (csilkMqPublish (fun _ => true) g mq a.topic a.payload a.len).1 = 0 := by
  have hw : (mqAppendWal (fun _ => true) g mq a.topic a.payload a.len).1 = 0 := by
    simp only [mqAppendWal, hfd, Bool.not_true, Bool.or_self, Bool.false_eq_true, ↓reduceIte]
    split <;> rfl
  simp only [csilkMqPublish, hfd, mqAppendWal_ok hfd hw]
  exact mqEnqueue_alloc_ok _ _ _ _

theorem accepted_of_alloc_ok (acts : List WalAct) (hfd : s.2.walFd = some fd)
    (h : ∀ alloc a, .publish alloc a ∈ acts → alloc = fun _ => true) : Accepted s acts := by
  induction acts generalizing s with
  | nil => trivial
  | cons act acts ih =>
    have hrest : ∀ alloc a, .publish alloc a ∈ acts → alloc = fun _ => true :=
      fun alloc a ha => h alloc a (mem_cons_of_mem _ ha)
    cases act with
    | writer => exact ⟨rfl, ih hfd hrest⟩
    | publish alloc a =>
      have ha := h alloc a mem_cons_self
      subst ha
      have hok := csilkMqPublish_alloc_ok s.1 s.2 a hfd
      refine ⟨hok, ih ?_ hrest⟩
      simp only [walStep, csilkMqPublish_ok hfd hok]
      exact hfd

/-- Replaying the WAL restores the messages, in order, if and only if every one is recoverable. -/
theorem mqRecovery_restores_iff (fd : Nat) (acts : List WalAct)
    (h : Accepted (openWal fd []) acts) :
    replayed (walRun (openWal fd []) acts) fd = (published acts).map PublishArgs.msg ↔
      ∀ a ∈ published acts, Recoverable a := by
  rw [replayed_run h]
  exact replay_frames_iff _

def helloRun : List WalAct :=
  [.publish (fun _ => true) ⟨[104], some [1, 2], 2, by decide, by simp⟩, .writer,
    .publish (fun _ => true) ⟨[105], none, 0, by decide, by simp⟩]

theorem mqRecovery_restores_hello : Accepted (openWal 3 []) helloRun ∧
      replayed (walRun (openWal 3 []) helloRun) 3 = [⟨[104], some [1, 2], 2⟩, ⟨[105], none, 0⟩] := by
  have ha : Accepted (openWal 3 []) helloRun :=
    accepted_of_alloc_ok helloRun (openWal_walFd 3 []) (by grind [helloRun])
  exact ⟨ha, (mqRecovery_restores_iff 3 helloRun ha).2 (by decide)⟩

def emptyTopicRun : List WalAct :=
  [.publish (fun _ => true) ⟨[], some [1], 1, by decide, by simp⟩,
    .publish (fun _ => true) ⟨[97], some [2], 1, by decide, by simp⟩]

/-- Both messages are accepted, and the replay finds neither. -/
theorem mqRecovery_loses_empty_topic : Accepted (openWal 3 []) emptyTopicRun ∧
      (published emptyTopicRun).map PublishArgs.msg = [⟨[], some [1], 1⟩, ⟨[97], some [2], 1⟩] ∧
      replayed (walRun (openWal 3 []) emptyTopicRun) 3 = [] := by
  have ha : Accepted (openWal 3 []) emptyTopicRun :=
    accepted_of_alloc_ok emptyTopicRun (openWal_walFd 3 []) (by grind [emptyTopicRun])
  refine ⟨ha, by decide, ?_⟩
  rw [replayed_run ha, FrameReader.readAll_none (by decide)]
  rfl

end Csilk.Messaging
