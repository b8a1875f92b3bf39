import Csilk.Messaging.Durability

namespace Csilk.Messaging
open Csilk.Lib List

def Durable (a : PublishArgs) : Prop :=
  0 < a.topic.length ∧ a.topic.length ≤ walMaxTopicLen ∧ a.len ≤ walMaxPayloadLen ∧
    (a.payload = none → a.len = 0)

instance (a : PublishArgs) : Decidable (Durable a) := inferInstanceAs (Decidable (_ ∧ _ ∧ _ ∧ _))

theorem Durable.recoverable (h : Durable a) : Recoverable a := by
  obtain ⟨hpos, hmax, hlen, hnone⟩ := h
  refine ⟨hpos, hmax, ?_⟩
  cases hp : a.payload with
  | none => simp [hnone hp]
  | some bs => exact hlen

def completeBefore (ms : List PublishArgs) (k : Nat) : List PublishArgs :=
  completeFrames (fun a => frame (a.task 0)) ms k

def FrameBoundary (ms : List PublishArgs) (k : Nat) : Prop :=
  (walFrames ms).take k = walFrames (completeBefore ms k)

instance (ms : List PublishArgs) (k : Nat) : Decidable (FrameBoundary ms k) :=
  inferInstanceAs (Decidable (_ = _))

theorem readAll_walFrames (as : List PublishArgs) (h : ∀ a ∈ as, Recoverable a) (rest : Bytes) :
    (walReader.readAll (walFrames as ++ rest)).map recoveredMsg =
      as.map PublishArgs.msg ++ (walReader.readAll rest).map recoveredMsg :=
  FrameReader.readAll_flatMap as (fun a ha rest => (h a ha).read rest) rest

theorem noPayload_length : ∀ bs : Bytes, none = some bs → bs.length = 0 := (by simp)

def longTopic (c : UInt8) (hc : c ≠ 0) : PublishArgs where
  topic := List.replicate 257 c
  payload := none
  len := 0
  topic_nul h := hc (eq_of_mem_replicate h).symm
  payload_length := noPayload_length

theorem longTopic_durable (c : UInt8) (hc : c ≠ 0) : Durable (longTopic c hc) := by
  refine ⟨?_, ?_, Nat.zero_le _, fun _ => rfl⟩
  all_goals simp only [longTopic, length_replicate, walMaxTopicLen]
  all_goals omega

theorem frame_longTopic (c : UInt8) (hc : c ≠ 0) : frame ((longTopic c hc).task 0) =
      1 :: 1 :: 0 :: 0 :: (frame ((longTopic c hc).task 0)).drop 4 := by
  have hl : (longTopic c hc).topic.length = 257 := length_replicate
  simp only [frame, task_topic, hl]
  rfl

theorem read_topic (h : walReader.read bs = some (r, rest)) :
    0 < ofLe32 (bs.take 4) ∧ ofLe32 (bs.take 4) ≤ walMaxTopicLen ∧
      (recoveredMsg r).topic = cString ((bs.drop 4).take (ofLe32 (bs.take 4))) := by
  simp only [walReader, Option.map_eq_some_iff] at h
  obtain ⟨⟨⟨topic, payload⟩, o⟩, hr, rfl, rfl⟩ := h
  obtain ⟨T, P, data, hT, hpos, hmax, htopic, -⟩ := readFrame_eq_some hr
  simp only [drop_zero] at hT htopic
  subst hT
  refine ⟨hpos, hmax, ?_⟩
  rw [recoveredMsg, msgOf_topic, htopic]

theorem torn_short_unread (hl : t.length < 4) (h0 : t ≠ []) (z : Bytes) :
    walMaxTopicLen < ofLe32 ((t ++ 1 :: 1 :: 0 :: 0 :: z).take 4) := by
  match t, h0, hl with
  | [a], _, _ | [a, b], _, _ | [a, b, c], _, _ =>
    simp only [cons_append, nil_append, take_succ_cons, take_zero, ofLe32,
      walMaxTopicLen, UInt8.toNat_one, UInt8.toNat_zero]
    omega

theorem cString_cons_head (h : cString (b :: bs) = c :: cs) : b = c := by
  rw [cString, takeWhile_cons] at h
  split at h
  · exact (List.cons.inj h).1
  · cases h

theorem torn_hides (hm : Recoverable m) (ht : frame (m.task 0) = t ++ lost) (h0 : t ≠ [])
    (hc : c ≠ 0) (hhead : m.topic.head? ≠ some c)
    (hr : walReader.read (t ++ frame ((longTopic c hc).task 0)) = some (r, rest)) :
    recoveredMsg r ≠ (longTopic c hc).msg := by
  intro he
  obtain ⟨hpos, hmax, htopic⟩ := read_topic hr
  have hlong : (recoveredMsg r).topic = List.replicate 257 c := by
    rw [he, msg_topic]
    rfl
  rw [hlong] at htopic
  rw [frame_longTopic] at hmax htopic
  by_cases hl : t.length < 4
  · exact absurd hmax (Nat.not_le_of_lt (torn_short_unread hl h0 _))
  · rw [hm.frame_eq, rawFrame, append_assoc, append_assoc, append_assoc] at ht
    have hle : (le32 m.topic.length).length ≤ t.length := Nat.le_of_not_lt hl
    obtain ⟨t', rfl⟩ := prefix_of_prefix_length_le ⟨_, rfl⟩ ⟨lost, ht.symm⟩ hle
    rw [append_assoc, append_cancel_left_eq] at ht
    rw [append_assoc, take_left' (le32_length _), drop_left' (le32_length _)]
      at htopic
    have hlen : ofLe32 (le32 m.topic.length) = m.topic.length := by
      have hmax := hm.2.1
      rw [ofLe32_le32]
      unfold walMaxTopicLen at hmax
      omega
    rw [hlen] at htopic
    cases t' with
    | nil =>
      generalize (frame ((longTopic c hc).task 0)).drop 4 = z at htopic
      have hcs := congrArg List.length htopic
      simp only [nil_append, length_replicate] at hcs
      have htk := cString_length_le ((1 :: 1 :: 0 :: 0 :: z).take m.topic.length)
      rw [← hcs, length_take] at htk
      have h2 : ((1 :: 1 :: 0 :: 0 :: z).take m.topic.length)[2]? = some 0 := by
        rw [getElem?_take_of_lt (by omega)]
        rfl
      have hnul := cString_length_le_of_nul h2
      omega
    | cons b t' =>
      cases hmt : m.topic with
      | nil => exact absurd hm.1 (by simp [hmt])
      | cons d ds =>
        rw [hmt, cons_append, cons_append, List.cons.injEq] at ht
        rw [hmt, cons_append, length_cons, take_succ_cons] at htopic
        have hbc : b = c := cString_cons_head htopic.symm
        rw [hmt, head?_cons, ht.1, hbc] at hhead
        exact hhead rfl

theorem exists_other_head (m : PublishArgs) : ∃ c : UInt8, c ≠ 0 ∧ m.topic.head? ≠ some c := by
  by_cases h : m.topic.head? = some 1
  · exact ⟨2, by decide, by rw [h]; decide⟩
  · exact ⟨1, by decide, h⟩

/-- Everything published after a crash is recovered if and only if no frame is torn. -/
theorem mqRecovery_torn_iff (fd : Nat) (ms : List PublishArgs) (k : Nat)
    (hms : ∀ a ∈ ms, Durable a) :
    (∀ acts, Accepted (openWal fd ((walFrames ms).take k)) acts →
        (∀ a ∈ published acts, Durable a) →
        replayed (walRun (openWal fd ((walFrames ms).take k)) acts) fd =
          (completeBefore ms k ++ published acts).map PublishArgs.msg) ↔
      FrameBoundary ms k := by
  have hcomplete : ∀ a ∈ completeBefore ms k, Recoverable a :=
    fun a ha => (hms a (mem_of_mem_completeFrames ha)).recoverable
  constructor
  · intro h
    obtain ⟨torn, htake, hm⟩ := take_flatMap (fun a => frame (PublishArgs.task 0 a)) ms k
    have hcut : (walFrames ms).take k = walFrames (completeBefore ms k) ++ torn := htake
    by_cases h0 : torn = []
    · rw [FrameBoundary, hcut, h0, append_nil]
    · obtain ⟨m, hmem, lost, -, hframe⟩ := hm h0
      obtain ⟨c, hc, hhead⟩ := exists_other_head m
      have ha : Accepted (openWal fd ((walFrames ms).take k))
          [.publish (fun _ => true) (longTopic c hc)] :=
        accepted_of_alloc_ok _ (openWal_walFd fd _) (by grind)
      have hrun := h _ ha (by simpa [published] using longTopic_durable c hc)
      rw [replayed_run ha, hcut, append_assoc, readAll_walFrames _ hcomplete,
        map_append, append_cancel_left_eq] at hrun
      simp only [published, walFrames, flatMap_cons, flatMap_nil, append_nil,
        map_cons, map_nil] at hrun
      cases hr : walReader.read (torn ++ frame ((longTopic c hc).task 0)) with
      | none =>
        rw [FrameReader.readAll_none hr] at hrun
        cases hrun
      | some p =>
        rw [FrameReader.readAll_some hr, map_cons, List.cons.injEq] at hrun
        exact absurd hrun.1 (torn_hides (hms m hmem).recoverable hframe h0 hc hhead hr)
  · intro hb acts ha hd
    have hrest := (replay_frames_iff (published acts)).2 (fun a h => (hd a h).recoverable)
    rw [replayed_run ha, hb, readAll_walFrames _ hcomplete, hrest, map_append]

theorem oneTopic_nul : (0 : UInt8) ∉ [97] := by decide

theorem onePayload_length : ∀ bs : Bytes, some [1] = some bs → bs.length = 1 :=
  fun _ h => by cases h; rfl

def oneMessage : List PublishArgs := [⟨[97], some [1], 1, oneTopic_nul, onePayload_length⟩]

theorem mqRecovery_torn_iff_oneMessage : FrameBoundary oneMessage 14 ∧
      ∀ acts, Accepted (openWal 3 ((walFrames oneMessage).take 14)) acts →
        (∀ a ∈ published acts, Durable a) →
        replayed (walRun (openWal 3 ((walFrames oneMessage).take 14)) acts) 3 =
          (completeBefore oneMessage 14 ++ published acts).map PublishArgs.msg :=
  ⟨by decide, (mqRecovery_torn_iff 3 oneMessage 14 (by decide)).2 (by decide)⟩

def laterRun : List WalAct := [.publish (fun _ => true) ⟨[98], none, 0, by decide, noPayload_length⟩]

/-- Nine of the 14 bytes of a frame are lost, and the next message with them. -/
theorem mqRecovery_loses_behind_torn :
    Accepted (openWal 3 ((walFrames oneMessage).take 5)) laterRun ∧
      (∀ a ∈ published laterRun, Durable a) ∧
      (completeBefore oneMessage 5 ++ published laterRun).map PublishArgs.msg = [⟨[98], none, 0⟩] ∧
      replayed (walRun (openWal 3 ((walFrames oneMessage).take 5)) laterRun) 3 = [] := by
  have ha : Accepted (openWal 3 ((walFrames oneMessage).take 5)) laterRun :=
    accepted_of_alloc_ok laterRun (openWal_walFd 3 _) (by grind [laterRun])
  refine ⟨ha, by decide, by decide, ?_⟩
  rw [replayed_run ha, FrameReader.readAll_none (by decide)]
  rfl

end Csilk.Messaging
