import Csilk.Async.Resolve

namespace Csilk.Async
open Csilk.Lib

def SameRequest (s : State) (c : Ctx) : Prop :=
  (s.args.client = true → c.generation = s.begun.generation) ∧ c.requestSeq = s.begun.requestSeq ∧
    (s.args.stream = true → c.streamGen = s.begun.streamGen)

structure Tagged (s : State) : Prop where
  generation : s.args.client = true → s.op.generation = s.begun.generation
  requestSeq : s.op.requestSeq = s.begun.requestSeq
  streamGen : s.op.streamGen = s.begun.streamGen % 2 ^ 32
  stream_le : s.begun.streamGen ≤ s.ctx.streamGen
  noClient : s.args.client = false → s.ctx.requestSeq = s.begun.requestSeq
  ran : ∀ r ∈ s.ran, SameRequest s r.2

/-- The stream's generation never decreases, so the truncated tag cannot equal a later one. -/
theorem Tagged.sameRequest (h : Tagged s) (hv : stillValid s = true) : SameRequest s s.ctx := by
  obtain ⟨hgen, hseq, hsg, hle, hno, -⟩ := h
  cases hc : s.args.client with
  | false =>
    have hs : s.args.stream = false := by
      cases hs : s.args.stream with
      | false => rfl
      | true => rw [s.args.stream_client hs] at hc; cases hc
    refine ⟨fun h => ?_, hno hc, fun h => ?_⟩
    · rw [hc] at h
      cases h
    · rw [hs] at h
      cases h
  | true =>
    simp only [stillValid, hc, Bool.not_true, Bool.false_or, Bool.and_eq_true, decide_eq_true_eq,
      Bool.or_eq_true] at hv
    obtain ⟨⟨⟨hg, hq⟩, hst⟩, -⟩ := hv
    refine ⟨fun _ => hg.trans (hgen hc), hq.trans hseq, ?_⟩
    intro hs
    rcases hst with hst | hst
    · rw [hs] at hst
      cases hst
    · omega

def Act.fromOutside : Act → Bool
  | .setGeneration _ | .setRequestSeq _ | .nextStreamGen | .closeStream => true
  | _ => false

@[simp] def UserPc.work : UserPc → Nat
  | .idle => 11
  | .completeCas | .cancelCas => 10
  | .chooseThread => 9
  | .addRef => 8
  | .dispatch => 7
  | .inlineDisarm => 3
  | .inlineCallback | .disarm => 2
  | .undoRef | .unref => 1
  | .done => 0

@[simp] def LoopPc.work : LoopPc → Nat
  | .timerCas => 4
  | .timerCallback | .taskDisarm => 3
  | .timerDisarm | .taskCallback => 2
  | .timerUnref | .taskUnref => 1
  | .idle => 0

def work (s : State) : Nat :=
  s.user.work + s.loop.work + 5 * s.timerActive.toNat + s.op.timerArmed.toNat +
    s.closePending.toNat + 4 * s.taskQueued.toNat

def State.tags (s : State) : BeginArgs × Ctx × Ctx × Nat × Nat × Nat :=
  (s.args, s.begun, s.ctx, s.op.generation, s.op.requestSeq, s.op.streamGen)

/-- What a step of either thread does besides moving the thread. -/
structure Effect (s s' : State) : Prop where
  tags : s'.tags = s.tags
  ran : s'.ran = s.ran ∨ stillValid s = true ∧ ∃ cb, s'.ran = s.ran ++ [(cb, s.ctx)]
  threads : (s'.user, s'.loop) = (s.user, s.loop)
  work : work s' ≤ work s

theorem Effect.refl (s : State) : Effect s s := ⟨rfl, .inl rfl, rfl, Nat.le_refl _⟩

theorem Tagged.effect (h : Tagged s) (heffect : Effect s s') : Tagged s' := by
  obtain ⟨htags, hran, -, -⟩ := heffect
  obtain ⟨args, begun, ctx, op⟩ := s'
  simp only [State.tags, Prod.mk.injEq] at htags
  obtain ⟨rfl, rfl, rfl, hg, hr, hs⟩ := htags
  refine ⟨fun hc => hg.trans (h.generation hc), hr.trans h.requestSeq, hs.trans h.streamGen,
    h.stream_le, h.noClient, ?_⟩
  intro r hr
  rcases hran with hran | ⟨hv, cb, hran⟩
  · rw [hran] at hr
    exact h.ran r hr
  · rw [hran, List.mem_append, List.mem_singleton] at hr
    rcases hr with hr | rfl
    · exact h.ran r hr
    · exact h.sameRequest hv

theorem unref_effect (s : State) : Effect s (csilkAsyncOpUnref s) := by
  unfold csilkAsyncOpUnref
  simp only
  split <;> exact { Effect.refl s with }

theorem disarm_effect (s : State) : Effect s (csilkAsyncOpDisarmTimer s) := by
  unfold csilkAsyncOpDisarmTimer
  simp only
  split
  · rename_i ha
    refine { Effect.refl s with work := ?_ }
    have hle := Bool.toNat_le (s.closePending || !s.op.timerClosed)
    have hta : s.op.timerArmed.toNat = 1 := by rw [show s.op.timerArmed = true from ha]; rfl
    simp only [work, touch, Bool.toNat_false]
    omega
  · exact { Effect.refl s with }

theorem runCallback_effect (cb : Callback) (present : Bool) (s : State) :
    Effect s (runCallback cb present s) := by
  unfold runCallback
  simp only
  split
  · rename_i hv
    exact { Effect.refl s with ran := .inr ⟨(Bool.and_eq_true_iff.1 hv).1, cb, rfl⟩ }
  · exact { Effect.refl s with }

theorem userCas_effect (s : State) (won : UserPc) : ∃ s₁ pc, Effect s s₁ ∧
    userCas s won = { s₁ with user := pc } ∧ (pc = .done ∨ pc = won) := by
  unfold userCas
  simp only
  split
  · exact ⟨touch s, _, { Effect.refl s with }, rfl, .inl rfl⟩
  · exact ⟨{ touch s with op := { s.op with completed := true } }, _, { Effect.refl s with }, rfl,
      .inr rfl⟩

theorem userStep_effect (hs : userStep s = some s') :
    ∃ s₁ pc, Effect s s₁ ∧ s' = { s₁ with user := pc } ∧ pc.work < s.user.work := by
  have hcas (won : UserPc) (hdone : 0 < s.user.work) (hwon : won.work < s.user.work) :
      ∃ s₁ pc, Effect s s₁ ∧ userCas s won = { s₁ with user := pc } ∧ pc.work < s.user.work := by
    obtain ⟨s₁, pc, heffect, heq, rfl | rfl⟩ := userCas_effect s won
    · exact ⟨s₁, _, heffect, heq, hdone⟩
    · exact ⟨s₁, _, heffect, heq, hwon⟩
  unfold userStep at hs
  split at hs <;> cases hs <;> rename_i hpc
  · exact hcas _ (by rw [hpc]; decide) (by rw [hpc]; decide)
  · exact hcas _ (by rw [hpc]; decide) (by rw [hpc]; decide)
  · exact ⟨_, _, disarm_effect s, rfl, by rw [hpc]; decide⟩
  · exact ⟨_, _, runCallback_effect _ _ s, rfl, by rw [hpc]; decide⟩
  · exact ⟨_, _, disarm_effect s, rfl, by rw [hpc]; decide⟩
  · exact ⟨{ touch s with op := { s.op with refCount := s.op.refCount + 1 } }, _,
      { Effect.refl s with }, rfl, by rw [hpc]; decide⟩
  · exact ⟨_, _, unref_effect s, rfl, by rw [hpc]; decide⟩
  · exact ⟨_, _, unref_effect s, rfl, by rw [hpc]; decide⟩

theorem loopStep_effect (hs : loopStep s = some s') :
    ∃ s₁ pc, Effect s s₁ ∧ s' = { s₁ with loop := pc } ∧ pc.work < s.loop.work := by
  unfold loopStep at hs
  split at hs <;> cases hs <;> rename_i hpc
  · split
    · exact ⟨touch s, _, { Effect.refl s with }, rfl, by rw [hpc]; decide⟩
    · exact ⟨{ touch s with op := { s.op with completed := true } }, _, { Effect.refl s with }, rfl,
        by rw [hpc]; decide⟩
  · exact ⟨_, _, runCallback_effect _ _ s, rfl, by rw [hpc]; decide⟩
  · exact ⟨_, _, disarm_effect s, rfl, by rw [hpc]; decide⟩
  · exact ⟨_, _, unref_effect s, rfl, by rw [hpc]; decide⟩
  · exact ⟨_, _, disarm_effect s, rfl, by rw [hpc]; decide⟩
  · exact ⟨_, _, runCallback_effect _ _ s, rfl, by rw [hpc]; decide⟩
  · exact ⟨_, _, unref_effect s, rfl, by rw [hpc]; decide⟩

theorem step_tagged (h : Tagged s) (hok : Orderly s a) (hs : step s a = some s') : Tagged s' := by
  cases a with
  | user =>
    obtain ⟨s₁, pc, heffect, rfl, -⟩ := userStep_effect hs
    exact { h.effect heffect with }
  | loop =>
    obtain ⟨s₁, pc, heffect, rfl, -⟩ := loopStep_effect hs
    exact { h.effect heffect with }
  | setGeneration n | closeStream =>
    cases hs
    exact { h with }
  | setRequestSeq n =>
    cases hs
    refine { h with noClient := ?_ }
    intro hc
    rw [show s.args.client = true from hok] at hc
    cases hc
  | nextStreamGen =>
    cases hs
    exact { h with stream_le := Nat.le_succ_of_le h.stream_le }
  | close =>
    obtain ⟨-, rfl⟩ := of_enabled hs
    have hc : Tagged { s with closePending := false } := { h with }
    exact hc.effect (unref_effect _)
  | userDispatch ok =>
    obtain ⟨-, rfl⟩ := of_enabled hs
    split <;> exact { h with }
  | callComplete | callCancel | userInline | userAlloc ok | fire | task =>
    obtain ⟨-, rfl⟩ := of_enabled hs
    exact { h with }

theorem csilkAsyncOpBegin_tagged (args : BeginArgs) (c : Ctx) : Tagged (csilkAsyncOpBegin args c) :=
  ⟨fun h => if_pos h, rfl, rfl, Nat.le_refl _, fun _ => rfl, fun _ h => absurd h List.not_mem_nil⟩

theorem userStep_work (hs : userStep s = some s') : work s' < work s := by
  obtain ⟨s₁, pc, heffect, rfl, hlt⟩ := userStep_effect hs
  have hle := heffect.work
  rw [← (Prod.mk.inj heffect.threads).1] at hlt
  simp only [work] at hle ⊢
  omega

theorem loopStep_work (hs : loopStep s = some s') : work s' < work s := by
  obtain ⟨s₁, pc, heffect, rfl, hlt⟩ := loopStep_effect hs
  have hle := heffect.work
  rw [← (Prod.mk.inj heffect.threads).2] at hlt
  simp only [work] at hle ⊢
  omega

theorem step_work (hs : step s a = some s') :
    work s' ≤ work s ∧ (a.fromOutside = false → work s' < work s) := by
  cases a with
  | user => exact ⟨Nat.le_of_lt (userStep_work hs), fun _ => userStep_work hs⟩
  | loop => exact ⟨Nat.le_of_lt (loopStep_work hs), fun _ => loopStep_work hs⟩
  | setGeneration n | setRequestSeq n | nextStreamGen | closeStream =>
    cases hs
    exact ⟨Nat.le_refl _, (nomatch ·)⟩
  | close =>
    obtain ⟨⟨-, hc⟩, rfl⟩ := of_enabled hs
    have hle := (unref_effect { s with closePending := false }).work
    have hw : work { s with closePending := false } < work s := by
      simp only [work, hc, Bool.toNat_false, Bool.toNat_true]
      omega
    exact ⟨Nat.le_of_lt (Nat.lt_of_le_of_lt hle hw), fun _ => Nat.lt_of_le_of_lt hle hw⟩
  | fire | task =>
    obtain ⟨⟨hl, hf⟩, rfl⟩ := of_enabled hs
    simp only [work, touch, hl, hf, LoopPc.work, Bool.toNat_false, Bool.toNat_true]
    omega
  | callComplete | callCancel | userInline =>
    obtain ⟨hu, rfl⟩ := of_enabled hs
    simp only [work, touch, hu, UserPc.work]
    omega
  | userAlloc ok =>
    obtain ⟨⟨hu, -⟩, rfl⟩ := of_enabled hs
    cases ok <;> simp only [work, touch, hu, Bool.false_eq_true, ↓reduceIte, UserPc.work] <;> omega
  | userDispatch ok =>
    obtain ⟨hu, rfl⟩ := of_enabled hs
    cases ok <;> simp only [work, touch, hu, Bool.false_eq_true, ↓reduceIte, UserPc.work,
      Bool.toNat_true] <;> omega

theorem Inv.progress (h : Inv s) (hf : s.freed = 0) :
    ∃ a s', a.fromOutside = false ∧ Orderly s a ∧ step s a = some s' := by
  cases hl : s.loop with
  | idle =>
    cases hu : s.user with
    | idle => exact ⟨.callComplete, _, rfl, hf, if_pos hu⟩
    | completeCas | cancelCas | unref | inlineDisarm | inlineCallback | disarm | addRef =>
      exact ⟨.user, _, rfl, fun _ => hf, by rw [step, userStep, hu]⟩
    | chooseThread => exact ⟨.userInline, _, rfl, trivial, if_pos hu⟩
    | dispatch => exact ⟨.userDispatch true, _, rfl, rfl, if_pos hu⟩
    | undoRef => exact absurd hu h.noUndo
    | done =>
      cases hc : s.closePending with
      | true => exact ⟨.close, _, rfl, trivial, if_pos ⟨hl, hc⟩⟩
      | false =>
        cases hq : s.taskQueued with
        | true => exact ⟨.task, _, rfl, trivial, if_pos ⟨hl, hq⟩⟩
        | false =>
          have hpos := h.pos hf
          have href := h.refCount
          have hcomp := h.late (by rw [hu]; rfl)
          have harm : s.op.timerArmed = false := by
            cases ha : s.op.timerArmed with
            | false => rfl
            | true => simpa [hu, hq, hl] using h.disarm hcomp ha
          simp only [callerRef, timerRef, taskRef, hu, hl, hc, hq, hcomp, harm] at href
          exact absurd href (by simp; omega)
  | timerCas | timerCallback | timerDisarm | timerUnref | taskDisarm | taskCallback | taskUnref =>
    exact ⟨.loop, _, rfl, trivial, by rw [step, loopStep, hl]⟩

/-- An orderly run calls at most one callback, for its own request, touches no freed memory and
releases everything once; until then some step leaves less to do. -/
theorem csilkAsyncOp_resolves (h : asyncOp.Reachable Orderly s) :
    s.ran.length ≤ 1 ∧ (∀ r ∈ s.ran, SameRequest s r.2) ∧ s.touchedFreed = false ∧ s.freed ≤ 1 ∧
      s.clientReleased = (if s.freed = 0 then 0 else s.args.client.toNat) ∧
      s.streamReleased = (if s.freed = 0 then 0 else s.args.stream.toNat) ∧
      (s.freed = 0 → ∃ a s', a.fromOutside = false ∧ Orderly s a ∧ asyncOp.step s a = some s') ∧
      ∀ a s', asyncOp.step s a = some s' →
        work s' ≤ work s ∧ (a.fromOutside = false → work s' < work s) := by
  have hinv : Inv s := h.invariant
    (fun s hs => by obtain ⟨args, c, rfl⟩ := hs; exact csilkAsyncOpBegin_inv args c)
    (fun s a s' hi hok hs => step_inv hi hok hs)
  have htag : Tagged s := h.invariant
    (fun s hs => by obtain ⟨args, c, rfl⟩ := hs; exact csilkAsyncOpBegin_tagged args c)
    (fun s a s' hi hok hs => step_tagged hi hok hs)
  refine ⟨Nat.le_of_add_right_le hinv.ran, htag.ran, hinv.untouched, ?_, hinv.client, hinv.stream,
    hinv.progress, fun a s' hs => step_work hs⟩
  rw [hinv.freed]
  split <;> omega

def onConnection (timer : Bool) : State :=
  csilkAsyncOpBegin ⟨true, false, timer, true, (nomatch ·)⟩ ⟨7, 1, 0, false⟩

theorem csilkAsyncOp_resolves_inline : ∃ s, asyncOp.exec Orderly (onConnection true)
        [.callComplete, .user, .userInline, .user, .user, .user, .close] = some s ∧
      s.freed = 1 ∧ s.ran.length ≤ 1 ∧ s.touchedFreed = false ∧
      s.clientReleased = (if s.freed = 0 then 0 else s.args.client.toNat) := by
  refine ⟨_, rfl, rfl, ?_⟩
  obtain ⟨hran, -, htouch, -, hclient, -⟩ := csilkAsyncOp_resolves
    (asyncOp.run (p := Orderly) (onConnection true)
      [.callComplete, .user, .userInline, .user, .user, .user, .close] ⟨_, _, rfl⟩ rfl)
  exact ⟨hran, htouch, hclient⟩

/-- A call after the timer freed the operation reads freed memory; a failed hand-over leaks it. -/
theorem csilkAsyncOp_late_call_and_leak : (∃ s, asyncOp.exec (fun _ _ => True) (onConnection true)
        [.fire, .loop, .loop, .loop, .loop, .close, .callComplete] = some s ∧
      s.touchedFreed = true) ∧
    ∃ s, asyncOp.exec (fun _ _ => True) (onConnection false)
        [.callComplete, .user, .userAlloc true, .user, .userDispatch false, .user] = some s ∧
      s.user = .done ∧ s.freed = 0 ∧ s.clientReleased = 0 ∧
      ∀ a, a.fromOutside = false → asyncOp.step s a = none := by
  refine ⟨⟨_, rfl, rfl⟩, _, rfl, rfl, rfl, rfl, ?_⟩
  intro a ha
  cases a <;> first | rfl | cases ha

end Csilk.Async
