import Csilk.Async.Op

namespace Csilk.Async
open Csilk.Lib

@[simp, grind] def UserPc.won : UserPc → Bool
  | .chooseThread | .inlineDisarm | .inlineCallback | .disarm | .addRef | .dispatch | .unref => true
  | _ => false

@[simp, grind] def LoopPc.won : LoopPc → Bool
  | .timerCallback | .timerDisarm | .timerUnref => true
  | _ => false

@[simp, grind] def LoopPc.inTask : LoopPc → Bool
  | .taskDisarm | .taskCallback | .taskUnref => true
  | _ => false

@[simp, grind] def UserPc.mayRun : UserPc → Bool
  | .chooseThread | .inlineDisarm | .inlineCallback | .addRef | .dispatch => true
  | _ => false

@[simp, grind] def LoopPc.mayRun : LoopPc → Bool
  | .timerCallback | .taskDisarm | .taskCallback => true
  | _ => false

@[simp, grind] def UserPc.mayDisarm : UserPc → Bool
  | .chooseThread | .inlineDisarm | .disarm | .addRef | .dispatch => true
  | _ => false

@[simp, grind] def LoopPc.mayDisarm : LoopPc → Bool
  | .timerCallback | .timerDisarm | .taskDisarm => true
  | _ => false

@[simp, grind] def UserPc.early : UserPc → Bool
  | .idle | .completeCas | .cancelCas => true
  | _ => false

@[grind →] theorem LoopPc.of_mayRun {l : LoopPc} (h : l.mayRun = true) :
    l.won = true ∨ l.inTask = true := by
  cases l <;> simp_all

@[grind →] theorem LoopPc.of_mayDisarm {l : LoopPc} (h : l.mayDisarm = true) :
    l.won = true ∨ l.inTask = true := by
  cases l <;> simp_all

@[grind →] theorem UserPc.of_mayRun {u : UserPc} (h : u.mayRun = true) : u.won = true := by
  cases u <;> simp_all

@[grind →] theorem UserPc.of_mayDisarm {u : UserPc} (h : u.mayDisarm = true) : u.won = true := by
  cases u <;> simp_all

@[grind →] theorem UserPc.of_won {u : UserPc} (h : u.won = true) : u.early = false := by
  cases u <;> simp_all

@[grind] def callerRef (s : State) : Bool := !s.op.completed || s.user.won || s.loop.won

@[grind] def timerRef (s : State) : Bool := s.op.timerArmed || s.closePending

@[grind] def taskRef (s : State) : Bool := decide (s.user = .dispatch) || s.taskQueued || s.loop.inTask

@[grind] def mayRun (s : State) : Bool :=
  !s.op.completed || s.user.mayRun || s.taskQueued || s.loop.mayRun

structure Inv (s : State) : Prop where
  refCount : s.op.refCount = (callerRef s).toNat + (timerRef s).toNat + (taskRef s).toNat
  freed : s.freed = if s.op.refCount = 0 then 1 else 0
  stream : s.streamReleased = if s.freed = 0 then 0 else s.args.stream.toNat
  client : s.clientReleased = if s.freed = 0 then 0 else s.args.client.toNat
  one : s.user.won = true → s.loop.won = false
  early : s.op.completed = false → s.user.early = true ∧ s.loop.won = false ∧ s.loop.inTask = false ∧
    s.taskQueued = false ∧ s.closePending = false
  late : s.user.early = false → s.op.completed = true
  task : s.taskQueued = true ∨ s.loop.inTask = true → s.user = .unref ∨ s.user = .done
  queued : s.taskQueued = true → s.loop.inTask = false ∧ s.loop.won = false
  timerWon : s.loop.won = true → s.user.early = true ∨ s.user = .done
  firing : s.loop = .timerCas → timerRef s = true
  armed : s.op.timerArmed = true → s.op.timerClosed = false ∧ s.closePending = false
  active : s.timerActive = true → s.op.timerArmed = true
  disarm : s.op.completed = true → s.op.timerArmed = true →
    s.user.mayDisarm = true ∨ s.taskQueued = true ∨ s.loop.mayDisarm = true
  noUndo : s.user ≠ .undoRef
  ran : s.ran.length + (mayRun s).toNat ≤ 1
  untouched : s.touchedFreed = false

/-- The call comes before the operation is freed, and its hand-over succeeds. -/
def Orderly (s : State) : Act → Prop
  | .callComplete => s.freed = 0
  | .user => s.user.early = true → s.freed = 0
  | .userDispatch ok => ok = true
  | .setRequestSeq _ => s.args.client = true
  | _ => True

instance (s : State) : (a : Act) → Decidable (Orderly s a)
  | .callComplete => inferInstanceAs (Decidable (s.freed = 0))
  | .user => inferInstanceAs (Decidable (s.user.early = true → s.freed = 0))
  | .userDispatch ok => inferInstanceAs (Decidable (ok = true))
  | .setRequestSeq _ => inferInstanceAs (Decidable (s.args.client = true))
  | .callCancel | .userInline | .userAlloc _ | .fire | .close | .task | .loop
  | .setGeneration _ | .nextStreamGen | .closeStream => .isTrue trivial

theorem csilkAsyncOpBegin_inv (args : BeginArgs) (c : Ctx) : Inv (csilkAsyncOpBegin args c) := by
  cases ht : args.timer <;> constructor <;>
    simp [csilkAsyncOpBegin, callerRef, timerRef, taskRef, mayRun, UserPc.won, LoopPc.won,
      LoopPc.inTask, UserPc.early, ht]

theorem touch_live (h : s.freed = 0) (ht : s.touchedFreed = false) : touch s = s := by
  cases s
  simp_all [touch]

theorem unref_live (hf : s.freed = 0) (ht : s.touchedFreed = false) (hr : 0 < s.op.refCount) :
    1 < s.op.refCount ∧
        csilkAsyncOpUnref s = { s with op := { s.op with refCount := s.op.refCount - 1 } } ∨
      s.op.refCount = 1 ∧ csilkAsyncOpUnref s = { s with
        op := { s.op with refCount := 0 }
        streamReleased := s.streamReleased + s.args.stream.toNat
        clientReleased := s.clientReleased + s.args.client.toNat
        freed := 1 } := by
  simp only [csilkAsyncOpUnref, touch_live hf ht]
  by_cases h1 : 1 < s.op.refCount
  · exact .inl ⟨h1, if_pos h1⟩
  · have he : s.op.refCount = 1 := by omega
    refine .inr ⟨he, ?_⟩
    rw [if_neg h1, he, hf]
    rfl

theorem disarm_live (hf : s.freed = 0) (ht : s.touchedFreed = false)
    (hc : s.op.timerArmed = true → s.op.timerClosed = false ∧ s.closePending = false) :
    csilkAsyncOpDisarmTimer s = { s with
      op := { s.op with timerArmed := false, timerClosed := s.op.timerClosed || s.op.timerArmed }
      timerActive := s.timerActive && !s.op.timerArmed
      closePending := s.closePending || s.op.timerArmed } := by
  simp only [csilkAsyncOpDisarmTimer, touch_live hf ht]
  cases ha : s.op.timerArmed with
  | false =>
    obtain ⟨args, begun, ctx, ⟨g, q, sg, completed, rc, armed, closed⟩⟩ := s
    simp_all
  | true =>
    obtain ⟨hcl, hcp⟩ := hc ha
    simp [hcl, hcp]

theorem runCallback_live (cb : Callback) (present : Bool) (hf : s.freed = 0)
    (ht : s.touchedFreed = false) :
    runCallback cb present s = s ∨
      stillValid s = true ∧ runCallback cb present s = { s with ran := s.ran ++ [(cb, s.ctx)] } := by
  rw [runCallback, touch_live hf ht]
  split
  · rename_i hv
    exact .inr ⟨by simpa using (Bool.and_eq_true_iff.1 hv).1, rfl⟩
  · exact .inl rfl

section

variable (h : Inv s)
include h

theorem Inv.live (hr : 0 < s.op.refCount) : s.freed = 0 := by
  rw [h.freed, if_neg (by omega)]

theorem Inv.pos (hf : s.freed = 0) : 0 < s.op.refCount := by
  have hr := h.refCount
  have hz := h.freed
  split at hz
  · omega
  · omega

theorem Inv.live_caller (hc : callerRef s = true) : s.freed = 0 :=
  h.live (by rw [h.refCount, hc]; simp only [Bool.toNat_true]; omega)

theorem Inv.live_timer (ht : timerRef s = true) : s.freed = 0 :=
  h.live (by rw [h.refCount, ht]; simp only [Bool.toNat_true]; omega)

theorem Inv.live_task (ht : taskRef s = true) : s.freed = 0 :=
  h.live (by rw [h.refCount, ht]; simp only [Bool.toNat_true]; omega)

theorem userCas_inv (hf : s.freed = 0) (hu : s.user = .completeCas ∨ s.user = .cancelCas)
    (hw : won = .chooseThread ∨ won = .disarm) : Inv (userCas s won) := by
  rw [userCas, touch_live hf h.untouched]
  obtain ⟨⟩ := h
  split
  · constructor <;> first | assumption | grind
  · rcases hw with rfl | rfl <;> constructor <;> first | assumption | grind

theorem Inv.userDisarm (hu : s.user = .inlineDisarm ∧ u = .inlineCallback ∨ s.user = .disarm ∧ u = .unref) :
    Inv { csilkAsyncOpDisarmTimer s with user := u } := by
  have hlive := h.live_caller (by rcases hu with ⟨hu, -⟩ | ⟨hu, -⟩ <;> simp [callerRef, hu])
  rw [disarm_live hlive h.untouched h.armed]
  obtain ⟨⟩ := h
  rcases hu with ⟨hu, rfl⟩ | ⟨hu, rfl⟩ <;> constructor <;> first | assumption | grind

theorem Inv.userCallback (hu : s.user = .inlineCallback) :
    Inv { runCallback .complete s.args.onComplete s with user := .unref } := by
  have hlive := h.live_caller (by simp [callerRef, hu])
  rcases runCallback_live .complete s.args.onComplete hlive h.untouched with hr | ⟨-, hr⟩ <;>
    rw [hr] <;> obtain ⟨⟩ := h <;> constructor <;> first | assumption | grind

theorem Inv.userAddRef (hu : s.user = .addRef) :
    Inv { s with op := { s.op with refCount := s.op.refCount + 1 }, user := .dispatch } := by
  obtain ⟨⟩ := h
  constructor <;> first | assumption | grind

theorem Inv.userUnref (hu : s.user = .unref) : Inv { csilkAsyncOpUnref s with user := .done } := by
  have hlive := h.live_caller (by simp [callerRef, hu])
  rcases unref_live hlive h.untouched (h.pos hlive) with ⟨hr, he⟩ | ⟨hr, he⟩ <;>
    rw [he] <;> obtain ⟨⟩ := h <;> constructor <;> first | assumption | grind

theorem userStep_inv (hok : Orderly s .user) (hs : userStep s = some s') : Inv s' := by
  unfold userStep at hs
  split at hs <;> cases hs <;> rename_i hu
  · exact userCas_inv h (hok (by rw [hu]; rfl)) (.inl hu) (.inl rfl)
  · exact userCas_inv h (hok (by rw [hu]; rfl)) (.inr hu) (.inr rfl)
  · exact h.userDisarm (.inl ⟨hu, rfl⟩)
  · exact h.userCallback hu
  · exact h.userDisarm (.inr ⟨hu, rfl⟩)
  · rw [touch_live (h.live_caller (by simp [callerRef, hu])) h.untouched]
    exact h.userAddRef hu
  · exact absurd hu h.noUndo
  · exact h.userUnref hu

theorem Inv.timerCas (hl : s.loop = .timerCas) : Inv (if s.op.completed then { s with loop := .idle }
      else { s with op := { s.op with completed := true }, loop := .timerCallback }) := by
  obtain ⟨⟩ := h
  split <;> constructor <;> first | assumption | grind

theorem Inv.timerCallback (hl : s.loop = .timerCallback) :
    Inv { runCallback .timeout true s with loop := .timerDisarm } := by
  have hlive := h.live_caller (by simp [callerRef, hl])
  rcases runCallback_live .timeout true hlive h.untouched with hr | ⟨-, hr⟩ <;>
    rw [hr] <;> obtain ⟨⟩ := h <;> constructor <;> first | assumption | grind

theorem Inv.live_loop (hl : s.loop.won = true ∨ s.loop.inTask = true) : s.freed = 0 :=
  hl.elim (fun hl => h.live_caller (by grind)) fun hl => h.live_task (by grind)

theorem Inv.loopDisarm
    (hl : s.loop = .timerDisarm ∧ l = .timerUnref ∨ s.loop = .taskDisarm ∧ l = .taskCallback) :
    Inv { csilkAsyncOpDisarmTimer s with loop := l } := by
  have hlive := h.live_loop (by rcases hl with ⟨hl, -⟩ | ⟨hl, -⟩ <;> simp [hl])
  rw [disarm_live hlive h.untouched h.armed]
  obtain ⟨⟩ := h
  rcases hl with ⟨hl, rfl⟩ | ⟨hl, rfl⟩ <;> constructor <;> first | assumption | grind

theorem Inv.taskCallback (hl : s.loop = .taskCallback) :
    Inv { runCallback .complete s.args.onComplete s with loop := .taskUnref } := by
  have hlive := h.live_task (by simp [taskRef, hl])
  rcases runCallback_live .complete s.args.onComplete hlive h.untouched with hr | ⟨-, hr⟩ <;>
    rw [hr] <;> obtain ⟨⟩ := h <;> constructor <;> first | assumption | grind

theorem Inv.loopUnref (hl : s.loop = .timerUnref ∨ s.loop = .taskUnref) :
    Inv { csilkAsyncOpUnref s with loop := .idle } := by
  have hlive := h.live_loop (by rcases hl with hl | hl <;> simp [hl])
  rcases unref_live hlive h.untouched (h.pos hlive) with ⟨hr, he⟩ | ⟨hr, he⟩ <;>
    rw [he] <;> obtain ⟨⟩ := h <;> rcases hl with hl | hl <;> constructor <;> first | assumption | grind

theorem loopStep_inv (hs : loopStep s = some s') : Inv s' := by
  unfold loopStep at hs
  split at hs <;> cases hs <;> rename_i hl
  · rw [touch_live (h.live_timer (h.firing hl)) h.untouched]
    exact h.timerCas hl
  · exact h.timerCallback hl
  · exact h.loopDisarm (.inl ⟨hl, rfl⟩)
  · exact h.loopUnref (.inl hl)
  · exact h.loopDisarm (.inr ⟨hl, rfl⟩)
  · exact h.taskCallback hl
  · exact h.loopUnref (.inr hl)

theorem Inv.close (hl : s.loop = .idle) (hc : s.closePending = true) :
    Inv (csilkAsyncOpUnref { s with closePending := false }) := by
  have hlive := h.live_timer (by simp [timerRef, hc])
  rcases unref_live (s := { s with closePending := false }) hlive h.untouched (h.pos hlive) with
    ⟨hr, he⟩ | ⟨hr, he⟩ <;> rw [he] <;> obtain ⟨⟩ := h <;> constructor <;>
    first | assumption | grind

theorem Inv.userCall (hu : s.user = .idle) (hc : u = .completeCas ∨ u = .cancelCas) :
    Inv { s with user := u } := by
  obtain ⟨⟩ := h
  rcases hc with rfl | rfl <;> constructor <;> first | assumption | grind

theorem Inv.userChoose (hu : s.user = .chooseThread)
    (hc : u = .inlineDisarm ∨ u = .addRef ∨ u = .disarm) : Inv { s with user := u } := by
  obtain ⟨⟩ := h
  rcases hc with rfl | rfl | rfl <;> constructor <;> first | assumption | grind

theorem Inv.userDispatch (hu : s.user = .dispatch) : Inv { s with taskQueued := true, user := .unref } := by
  obtain ⟨⟩ := h
  constructor <;> first | assumption | grind

theorem Inv.fire (hl : s.loop = .idle) (ha : s.timerActive = true) :
    Inv { s with timerActive := false, loop := .timerCas } := by
  obtain ⟨⟩ := h
  constructor <;> first | assumption | grind

theorem Inv.startTask (hq : s.taskQueued = true) :
    Inv { s with taskQueued := false, loop := .taskDisarm } := by
  obtain ⟨⟩ := h
  constructor <;> first | assumption | grind

theorem step_inv (hok : Orderly s a) (hs : step s a = some s') : Inv s' := by
  have htouch := h.untouched
  cases a with
  | user => exact userStep_inv h hok hs
  | loop => exact loopStep_inv h hs
  | setGeneration n | setRequestSeq n | nextStreamGen | closeStream =>
    cases hs
    obtain ⟨⟩ := h
    constructor <;> assumption
  | callComplete =>
    obtain ⟨hu, rfl⟩ := of_enabled hs
    rw [touch_live hok htouch]
    exact h.userCall hu (.inl rfl)
  | callCancel =>
    obtain ⟨hu, rfl⟩ := of_enabled hs
    exact h.userCall hu (.inr rfl)
  | userInline =>
    obtain ⟨hu, rfl⟩ := of_enabled hs
    rw [touch_live (h.live_caller (by simp [callerRef, hu])) htouch]
    exact h.userChoose hu (.inl rfl)
  | userAlloc ok =>
    obtain ⟨⟨hu, -⟩, rfl⟩ := of_enabled hs
    rw [touch_live (h.live_caller (by simp [callerRef, hu])) htouch]
    exact h.userChoose hu (.inr (by cases ok <;> simp))
  | userDispatch ok =>
    obtain ⟨hu, rfl⟩ := of_enabled hs
    rw [touch_live (h.live_caller (by simp [callerRef, hu])) htouch,
      if_pos (show ok = true from hok)]
    exact h.userDispatch hu
  | fire =>
    obtain ⟨⟨hl, ha⟩, rfl⟩ := of_enabled hs
    rw [touch_live (h.live_timer (by simp [timerRef, h.active ha])) htouch]
    exact h.fire hl ha
  | task =>
    obtain ⟨⟨-, hq⟩, rfl⟩ := of_enabled hs
    rw [touch_live (h.live_task (by simp [taskRef, hq])) htouch]
    exact h.startTask hq
  | close =>
    obtain ⟨⟨hl, hc⟩, rfl⟩ := of_enabled hs
    exact h.close hl hc

end

end Csilk.Async
