import Csilk.Http2.Session

namespace Csilk.Http2.Session
open Csilk.Lib List Option Function

/-- `mapped` while its id leads to it, `gone` once it was removed. -/
inductive Place where
  | unborn
  | mapped
  | gone

def Place.owner : Place → Option Nat
  | .unborn => none
  | .mapped => some 1
  | .gone => some 0

/-- A removed stream is `alive` while operations refer to it; who drops the last reference destroys
it. -/
inductive Stream.At : Stream → Place → Prop
  | unborn : At ⟨i, ref, p, b, c, d, e, f, g, 0, .idle, 0, 0, false⟩ .unborn
  | alive (held : Nat) {owner : Nat} {at' : Place} (hat : at'.owner = some owner)
    (href : ref = (held + owner : Int)) (hpos : 0 < held + owner) :
    At ⟨i, ref, false, b, c, d, e, f, g, held, .idle, 0, 0, false⟩ at'
  | reserve : At ⟨i, ref, false, b, c, d, e, f, g, 0, .reserve 0, 0, 0, false⟩ .gone
  | addRef : At ⟨i, ref, p, b, c, d, e, f, g, 0, .addRef 0, 0, 0, false⟩ .gone
  | dispatch : At ⟨i, ref, p, b, c, d, e, f, g, 0, .dispatch 0, 0, 0, false⟩ .gone
  | queued : At ⟨i, ref, p, b, c, d, e, f, g, 0, .idle, 1, 0, false⟩ .gone
  | destroyed : At ⟨i, ref, p, b, c, d, e, f, g, 0, .idle, 0, 1, false⟩ .gone

def UnrefPc.left : UnrefPc → Nat
  | .reserve _ => 3
  | .addRef _ => 2
  | .dispatch _ => 1
  | _ => 0

namespace Stream

variable {x y : Stream}

def life (x : Stream) : Nat × Nat × Int × Bool × UnrefPc × Nat × Nat × Bool :=
  (x.streamId, x.held, x.streamRef, x.streamDestroyPending, x.unref, x.queued, x.destroyed, x.misused)

theorem At.of_life (h : x.At p) (hl : y.life = x.life) : y.At p := by
  cases y
  cases h <;> cases hl <;> constructor <;> assumption

theorem At.unborn_held (h : x.At .unborn) : x.held = 0 := by
  cases h with
  | unborn => rfl
  | alive held hat => cases hat

section

variable (h : x.At p) (hx : p = .mapped ∨ 0 < x.held)
include h hx

theorem At.touch : x.touch = x := by
  cases h with
  | alive => rfl
  | unborn | reserve | addRef | dispatch | queued | destroyed => simp at hx

theorem At.opBegin : ({ x.touch with
      streamRef := x.streamRef + 1, held := x.held + 1, isAsync := true } : Stream).At p := by
  cases h with
  | alive held hat href hpos => exact .alive (held + 1) hat (by simp only; omega) (by omega)
  | unborn | reserve | addRef | dispatch | queued | destroyed => simp at hx

theorem At.drop (hq : ∀ n, p.owner = some n → ∃ o, q.owner = some o ∧ k + o + 1 = x.held + n) :
    ({ x with held := k } : Stream).unrefOwner.At q ∧ (({ x with held := k } : Stream).unrefRemote 0).At q := by
  rw [unrefOwner, unrefRemote]
  cases h with
  | alive held hat href =>
    obtain ⟨o, hq, hk⟩ := hq _ hat
    simp only at hk
    by_cases hlast : k + o = 0
    · obtain ⟨rfl, rfl⟩ : k = 0 ∧ o = 0 := by omega
      cases q with
      | gone =>
        rw [if_neg (by simp only; omega), if_neg (by simp only; omega)]
        exact ⟨.destroyed, .reserve⟩
      | unborn | mapped => cases hq
    · rw [if_pos (by simp only; omega), if_pos (by simp only; omega)]
      have hpos : 0 < k + o := Nat.pos_of_ne_zero hlast
      refine ⟨.alive k hq ?_ hpos, .alive k hq ?_ hpos⟩ <;> simp only <;> omega
  | unborn | reserve | addRef | dispatch | queued | destroyed => simp at hx

end

theorem unrefOwner_fields (x : Stream) :
    x.unrefOwner.streamId = x.streamId ∧ x.unrefOwner.held = x.held := by
  rw [unrefOwner]
  split <;> exact ⟨rfl, rfl⟩

theorem unrefRemote_fields (x : Stream) (depth : Nat) :
    (x.unrefRemote depth).streamId = x.streamId ∧ (x.unrefRemote depth).held = x.held := by
  rw [unrefRemote]
  split <;> exact ⟨rfl, rfl⟩

theorem At.remote (h : x.At p) (hs : x.remote true = some y) :
    y.At p ∧ y.held = x.held ∧ y.streamId = x.streamId ∧ y.unref.left < x.unref.left := by
  cases h with
  | unborn | alive | queued | destroyed => cases hs
  | reserve =>
    cases hs
    exact ⟨.addRef, rfl, rfl, Nat.lt_succ_self _⟩
  | addRef =>
    cases hs
    exact ⟨.dispatch, rfl, rfl, Nat.lt_succ_self _⟩
  | dispatch =>
    cases hs
    exact ⟨.queued, rfl, rfl, Nat.lt_succ_self _⟩

theorem At.destroyTask (h : x.At p) (hx : 0 < x.queued) :
    ({ x with queued := x.queued - 1, streamDestroyPending := false } :
      Stream).destroyPhysically.At p ∧ x.destroyed = 0 := by
  cases h with
  | queued => exact ⟨.destroyed, rfl⟩
  | unborn | alive | reserve | addRef | dispatch | destroyed => exact absurd hx (Nat.lt_irrefl 0)

theorem At.intact (h : x.At p) :
    x.misused = false ∧ x.destroyed ≤ 1 ∧ (x.destroyed = 1 → p = .gone ∧ x.held = 0) := by
  cases h <;> simp

theorem At.due (h : x.At .gone) (hheld : x.held = 0) :
    x.destroyed = 1 ∨ 0 < x.queued ∨ x.unref ≠ .idle ∧ ∃ y, x.remote true = some y := by
  cases h with
  | alive held hat href hpos =>
    cases hat
    exact absurd hheld (Nat.ne_of_gt hpos)
  | reserve | addRef | dispatch => exact .inr (.inr ⟨by simp, _, rfl⟩)
  | queued => exact .inr (.inl Nat.one_pos)
  | destroyed => exact .inl rfl

end Stream

def State.Mapped (s : State) (k : Nat) : Prop := s.live (s.stream k).streamId = some k

instance : Decidable (State.Mapped s k) := inferInstanceAs (Decidable (_ = _))

def Kept (hooked : Bool) (place : Nat → Place) : List Frame → Prop
  | [] => True
  | .handler k :: stack => place k = .mapped ∧ Kept hooked place stack
  | .send k :: stack =>
    (hooked = true → place k = .mapped ∨ .callback k ∈ stack) ∧ Kept hooked place stack
  | .callback _ :: stack | .flush :: stack => Kept hooked place stack

theorem Kept.mono {place place' : Nat → Place} (h : Kept hooked place stack)
    (hm : ∀ j, spared hooked j stack = false → place j = .mapped → place' j = .mapped) :
    Kept hooked place' stack := by
  induction stack with
  | nil => trivial
  | cons f stack ih =>
    have htail : Kept hooked place stack → Kept hooked place' stack :=
      fun h => ih h fun j hj => hm j (by cases f <;> simp [spared, hj])
    cases f with
    | handler k => exact ⟨hm k (by simp [spared]) h.1, htail h.2⟩
    | send k =>
      refine ⟨fun hh => ?_, htail h.2⟩
      by_cases hcb : .callback k ∈ stack
      · exact .inr hcb
      · exact .inl (hm k (by simp [spared, hh, hcb]) ((h.1 hh).resolve_right hcb))
    | callback k | flush => exact htail h

structure Inv (hooked : Bool) (s : State) (place : Nat → Place) : Prop where
  live : ∀ i k, s.live i = some k ↔ place k = .mapped ∧ (s.stream k).streamId = i
  unborn : ∀ k, place k = .unborn ↔ s.created ≤ k
  stage : ∀ k, (s.stream k).At (place k)
  kept : Kept hooked place s.stack
  callbacks : ∀ k, s.stack.count (.callback k) ≤ (s.stream k).held

theorem init_inv : Inv hooked init fun _ => .unborn :=
  ⟨fun i k => by simp [init], fun k => by simp [init], fun _ => .unborn, trivial, fun _ => Nat.zero_le _⟩

section Inv

variable {s : State} {place : Nat → Place}

theorem modify_touch (htouch : (s.stream k).touch = s.stream k) : s.modify k Stream.touch = s := by
  rw [State.modify, htouch, update_eq_self]

variable (h : Inv hooked s place)
include h

theorem Inv.mapped_iff (k : Nat) : s.Mapped k ↔ place k = .mapped := by
  rw [State.Mapped, h.live]
  exact and_iff_left rfl

theorem Inv.callback_held (hk : .callback k ∈ s.stack) : 0 < (s.stream k).held :=
  Nat.lt_of_lt_of_le (count_pos_iff.2 hk) (h.callbacks k)

theorem Inv.touch_mapped (hk : place k = .mapped) : (s.stream k).touch = s.stream k :=
  (h.stage k).touch (.inl hk)

theorem Inv.touch_user (hk : place k = .mapped ∨ .callback k ∈ s.stack) :
    (s.stream k).touch = s.stream k :=
  (h.stage k).touch (hk.imp_right h.callback_held)

theorem Inv.put {x : Stream} (hat : x.At p) (hborn : ∀ j, update place k p j = .unborn ↔ created ≤ j)
    (hlive : ∀ i, ids i = some k ↔ p = .mapped ∧ x.streamId = i)
    (hother : ∀ i j, j ≠ k → (ids i = some j ↔ s.live i = some j))
    (hkept : Kept hooked (update place k p) stack) (hself : stack.count (.callback k) ≤ x.held)
    (hcount : ∀ j, j ≠ k → stack.count (.callback j) ≤ (s.stream j).held) :
    Inv hooked ⟨created, update s.stream k x, ids, stack⟩ (update place k p) := by
  refine ⟨fun i j => ?_, hborn, fun j => ?_, hkept, ?_⟩
  · by_cases hj : j = k
    · subst hj
      simpa using hlive i
    · simpa [hj, hother i j hj] using h.live i j
  · by_cases hj : j = k
    · subst hj
      simpa using hat
    · simpa [hj] using h.stage j
  · exact (forall_update_iff s.stream fun j x => stack.count (.callback j) ≤ x.held).2 ⟨hself, hcount⟩

theorem Inv.modify (f : Stream → Stream) (stack : List Frame)
    (hid : (f (s.stream k)).streamId = (s.stream k).streamId)
    (hat : (f (s.stream k)).At (place k)) (hkept : Kept hooked place stack)
    (hself : stack.count (.callback k) ≤ (f (s.stream k)).held)
    (hother : ∀ j, j ≠ k → stack.count (.callback j) ≤ (s.stream j).held) :
    Inv hooked { s.modify k f with stack := stack } place := by
  rw [← update_eq_self k place] at hkept ⊢
  refine h.put hat (fun j => ?_) (fun i => hid ▸ h.live i k) (fun _ _ _ => Iff.rfl) hkept hself hother
  rw [update_eq_self]
  exact h.unborn j

theorem Inv.write (htouch : (s.stream k).touch = s.stream k) (g : Stream → Stream)
    (stack : List Frame) (hlife : (g (s.stream k)).life = (s.stream k).life)
    (hkept : Kept hooked place stack) (hcount : ∀ j, stack.count (.callback j) ≤ (s.stream j).held) :
    Inv hooked { s.modify k (fun x => g x.touch) with stack := stack } place := by
  have hid : (g (s.stream k)).streamId = (s.stream k).streamId := congrArg (·.1) hlife
  have hheld : (g (s.stream k)).held = (s.stream k).held := congrArg (·.2.1) hlife
  refine h.modify _ stack ?_ ?_ hkept ?_ fun j _ => hcount j
  · rw [htouch]
    exact hid
  · rw [htouch]
    exact (h.stage k).of_life hlife
  · rw [htouch, hheld]
    exact hcount k

theorem Inv.pop (hs : s.stack = f :: stack) : Inv hooked { s with stack := stack } place := by
  have hkept := h.kept
  have hcount := h.callbacks
  rw [hs] at hkept hcount
  refine ⟨h.live, h.unborn, h.stage, ?_, fun k => Nat.le_trans ?_ (hcount k)⟩
  · cases f with
    | handler k | send k => exact hkept.2
    | callback k | flush => exact hkept
  · exact count_le_count_cons

theorem Inv.getOrCreate (i : Nat) : ∃ place', Inv hooked (csilkH2GetOrCreateStream s i).1 place' ∧
      place' (csilkH2GetOrCreateStream s i).2 = .mapped ∧
      (csilkH2GetOrCreateStream s i).1.stack = s.stack := by
  rw [csilkH2GetOrCreateStream]
  cases hi : s.live i with
  | some k => exact ⟨place, h, ((h.live i k).1 hi).1, rfl⟩
  | none =>
    have hnew : place s.created = .unborn := (h.unborn _).2 (Nat.le_refl _)
    have hzero : (s.stream s.created).held = 0 := (hnew ▸ h.stage s.created).unborn_held
    refine ⟨_, h.put (p := .mapped) (.alive 0 rfl rfl Nat.one_pos) (fun j => ?_) (fun j => ?_)
      (fun i' j hj => ?_) (h.kept.mono fun j _ hj => ?_) ?_ (fun j _ => h.callbacks j),
      update_self .., rfl⟩
    · have hborn := h.unborn j
      by_cases hj : j = s.created
      · simp [hj]
      · simp only [update_of_ne hj, hborn]
        omega
    · by_cases hj : j = i
      · simp [hj, streamCtxInit]
      · simp [hj, h.live, hnew, streamCtxInit, Ne.symm hj]
    · by_cases hi' : i' = i
      · simp [hi', hi, Ne.symm hj]
      · simp [hi']
    · rw [update_of_ne, hj]
      rintro rfl
      rw [hnew] at hj
      cases hj
    · exact Nat.le_trans (h.callbacks _) (Nat.le_of_eq hzero)

theorem Inv.remove (hk : s.live i = some k) (hs : spared hooked k s.stack = true) :
    ∃ place', Inv hooked (csilkH2RemoveStream s i) place' := by
  obtain ⟨hmap, hid⟩ := (h.live i k).1 hk
  have hat : ({ s.stream k with streamClosed := true } : Stream).At .mapped :=
    (hmap ▸ h.stage k).of_life rfl
  have hgone := (hat.drop (.inl rfl) (q := .gone) (k := (s.stream k).held)
    (by rintro _ ⟨⟩; exact ⟨0, rfl, rfl⟩)).1
  obtain ⟨hid', hheld⟩ := Stream.unrefOwner_fields { s.stream k with streamClosed := true }
  rw [csilkH2RemoveStream, hk, elim_some, State.modify, h.touch_mapped hmap]
  refine ⟨_, h.put hgone (fun j => ?_) (fun j => ?_) (fun i' j hj => ?_)
    (h.kept.mono fun j hspared hj => ?_) (hheld ▸ h.callbacks k) fun j _ => h.callbacks j⟩
  · have hborn := h.unborn j
    by_cases hj : j = k
    · subst hj
      simpa [hmap] using hborn
    · rw [update_of_ne hj, hborn]
  · by_cases hj : j = i
    · simp [hj]
    · simp [hj, h.live, hid, Ne.symm hj]
  · by_cases hi : i' = i
    · simp [hi, hk, Ne.symm hj]
    · simp [hi]
  · rw [update_of_ne, hj]
    rintro rfl
    rw [hs] at hspared
    cases hspared

theorem Inv.close (hk : s.live i = some k) (hs : spared hooked k s.stack = true) :
    ∃ place', Inv hooked (onStreamCloseCallback s i) place' := by
  rw [onStreamCloseCallback, hk]
  have htouch := h.touch_mapped ((h.live i k).1 hk).1
  have hwrite : Inv hooked (s.modify k fun x =>
      { x.touch with requestCancelled := true, streamClosed := true }) place :=
    h.write htouch (fun x => { x with requestCancelled := true, streamClosed := true }) s.stack rfl
      h.kept h.callbacks
  exact hwrite.remove hk hs

theorem Inv.send (htouch : (s.stream k).touch = s.stream k)
    (hkept : hooked = true → place k = .mapped ∨ .callback k ∈ s.stack) :
    Inv hooked (csilkH2SendResponse s k) place := by
  refine h.write htouch (fun x => { x with responded := true }) (.send k :: s.stack) rfl
    ⟨hkept, h.kept⟩ fun j => ?_
  exact h.callbacks j

theorem Inv.user (hk : s.user = some k) : place k = .mapped ∨ .callback k ∈ s.stack := by
  have hkept := h.kept
  rw [State.user] at hk
  split at hk <;> cases hk
  · rename_i hs
    rw [hs] at hkept
    exact .inl hkept.1
  · rename_i hs
    rw [hs]
    exact .inr mem_cons_self

theorem Inv.frameRecv (i : Nat) : Inv hooked (onFrameRecvCallback s i) place := by
  rw [onFrameRecvCallback]
  cases hi : s.live i with
  | none => exact h
  | some k =>
    have hmap := ((h.live i k).1 hi).1
    have htouch := h.touch_mapped hmap
    rw [elim_some]
    simp only
    split
    · exact h.write htouch (fun x => { x with endReceived := true }) s.stack rfl h.kept h.callbacks
    · refine h.write htouch (fun x => { x with endReceived := true, requestDispatched := true })
        (.handler k :: s.stack) rfl ⟨hmap, h.kept⟩ fun j => ?_
      exact h.callbacks j

theorem Inv.push (i : Nat) : ∃ place',
    Inv hooked { (csilkH2GetOrCreateStream s i).1.modify (csilkH2GetOrCreateStream s i).2
      fun x => { x.touch with endReceived := true } with
      stack := .handler (csilkH2GetOrCreateStream s i).2 :: .flush :: s.stack } place' := by
  obtain ⟨place', hinv, hmap, hstack⟩ := h.getOrCreate i
  refine ⟨place', hinv.write (hinv.touch_mapped hmap) (fun x => { x with endReceived := true }) _ rfl
    ⟨hmap, ?_⟩ fun j => ?_⟩
  · have hkept := hinv.kept
    rw [hstack] at hkept
    exact hkept
  · rw [← hstack]
    exact hinv.callbacks j

theorem Inv.dropOp (hidle : s.idleOp k) :
    Inv hooked (s.modify k fun x => { x with held := x.held - 1 }.unrefOwner) place ∧
      Inv hooked (s.modify k fun x => { x with held := x.held - 1 }.unrefRemote 0) place := by
  have hpos : 0 < (s.stream k).held := Nat.zero_lt_of_lt hidle
  have hcount : s.stack.count (.callback k) ≤ (s.stream k).held - 1 := Nat.le_sub_one_of_lt hidle
  obtain ⟨howner, hremote⟩ := (h.stage k).drop (.inr hpos) (q := place k) (k := (s.stream k).held - 1)
    fun n hn => ⟨n, hn, by omega⟩
  constructor
  · have hfields := Stream.unrefOwner_fields { s.stream k with held := (s.stream k).held - 1 }
    exact h.modify (fun x => { x with held := x.held - 1 }.unrefOwner) s.stack hfields.1 howner h.kept
      (Nat.le_trans hcount (Nat.le_of_eq hfields.2.symm)) fun j _ => h.callbacks j
  · have hfields := Stream.unrefRemote_fields { s.stream k with held := (s.stream k).held - 1 } 0
    exact h.modify (fun x => { x with held := x.held - 1 }.unrefRemote 0) s.stack hfields.1 hremote h.kept
      (Nat.le_trans hcount (Nat.le_of_eq hfields.2.symm)) fun j _ => h.callbacks j

theorem Inv.step (hok : guarded hooked s a = true) (hs : step hooked s a = some s') :
    ∃ place', Inv hooked s' place' := by
  cases a with
  | header i =>
    obtain ⟨-, rfl⟩ := of_enabled hs
    obtain ⟨place', hinv, hmap, -⟩ := h.getOrCreate i
    rw [onHeaderCallback, modify_touch (hinv.touch_mapped hmap)]
    exact ⟨place', hinv⟩
  | data i =>
    obtain ⟨-, rfl⟩ := of_enabled hs
    rw [onDataChunkRecvCallback]
    cases hi : s.live i with
    | none => exact ⟨place, h⟩
    | some k =>
      rw [elim_some, modify_touch (h.touch_mapped ((h.live i k).1 hi).1)]
      exact ⟨place, h⟩
  | frameRecv i =>
    obtain ⟨-, rfl⟩ := of_enabled hs
    exact ⟨place, h.frameRecv i⟩
  | streamClose i =>
    obtain ⟨hstack, rfl⟩ := of_enabled hs
    cases hi : s.live i with
    | none =>
      rw [onStreamCloseCallback, hi]
      exact ⟨place, h⟩
    | some k => exact h.close hi (by rw [hstack]; rfl)
  | use =>
    obtain ⟨k, hk, rfl⟩ := map_eq_some_iff.1 hs
    rw [modify_touch (h.touch_user (h.user hk))]
    exact ⟨place, h⟩
  | opBegin =>
    obtain ⟨k, hk, rfl⟩ := map_eq_some_iff.1 hs
    have halive := (h.user hk).imp_right h.callback_held
    exact ⟨place, h.modify
      (fun x => { x.touch with streamRef := x.streamRef + 1, held := x.held + 1, isAsync := true })
      s.stack rfl ((h.stage k).opBegin halive) h.kept (Nat.le_succ_of_le (h.callbacks k))
      fun j _ => h.callbacks j⟩
  | push i =>
    obtain ⟨k, hk, rfl⟩ := map_eq_some_iff.1 hs
    rw [modify_touch (h.touch_user (h.user hk))]
    exact h.push i
  | handlerReturn sends =>
    rw [Session.step] at hs
    split at hs <;> cases hs
    rename_i k stack hstack
    have hkept := h.kept
    rw [hstack] at hkept
    have htouch := h.touch_mapped hkept.1
    rw [modify_touch htouch]
    split
    · exact ⟨place, h.pop hstack⟩
    · exact ⟨place, (h.pop hstack).send htouch fun _ => .inl hkept.1⟩
  | callback k =>
    obtain ⟨hidle, rfl⟩ := of_enabled hs
    rw [modify_touch ((h.stage k).touch (.inr (Nat.zero_lt_of_lt hidle.2)))]
    split
    · exact ⟨place, h⟩
    · refine ⟨place, h.live, h.unborn, h.stage, h.kept, fun j => ?_⟩
      by_cases hj : j = k
      · subst hj
        rw [count_cons_self]
        exact hidle.2
      · rw [count_cons_of_ne (by simp [Ne.symm hj])]
        exact h.callbacks j
  | respond =>
    rw [Session.step] at hs
    split at hs <;> cases hs
    rename_i k stack hstack
    have hmem : .callback k ∈ s.stack := by
      rw [hstack]
      exact mem_cons_self
    exact ⟨place, h.send (h.touch_user (.inr hmem)) fun _ => .inr hmem⟩
  | callbackReturn =>
    rw [Session.step] at hs
    split at hs <;> cases hs
    rename_i hstack
    exact ⟨place, h.pop hstack⟩
  | bodyRead i =>
    obtain ⟨k, hk, hs⟩ := bind_eq_some_iff.1 hs
    split at hs <;> cases hs
    rw [modify_touch (h.touch_mapped ((h.live i k).1 hk).1)]
    exact ⟨place, h⟩
  | closeInSend i =>
    obtain ⟨k, hk, hs⟩ := bind_eq_some_iff.1 hs
    split at hs <;> cases hs
    rw [guarded, hk] at hok
    exact h.close hk hok
  | sendReturn =>
    rw [Session.step] at hs
    split at hs <;> cases hs
    · rename_i k stack hstack
      refine ⟨place, ?_⟩
      have hpop := h.pop hstack
      cases hooked with
      | false => exact hpop
      | true =>
        have hkept := h.kept
        rw [hstack] at hkept
        have huse : place k = .mapped ∨ .callback k ∈ s.stack := by
          rw [hstack]
          exact (hkept.1 rfl).imp_right (mem_cons_of_mem _)
        rw [modify_touch (h.touch_user huse)]
        exact hpop
    · rename_i hstack
      exact ⟨place, h.pop hstack⟩
  | release k =>
    obtain ⟨hidle, rfl⟩ := of_enabled hs
    exact ⟨place, (h.dropOp hidle).1⟩
  | drop k =>
    obtain ⟨hidle, rfl⟩ := of_enabled hs
    exact ⟨place, (h.dropOp hidle).2⟩
  | remote k dispatched =>
    obtain ⟨y, hy, rfl⟩ := map_eq_some_iff.1 hs
    cases (show dispatched = true from hok)
    obtain ⟨hat, hheld, hid, -⟩ := (h.stage k).remote hy
    exact ⟨place, h.modify (fun _ => y) s.stack hid hat h.kept (hheld ▸ h.callbacks k)
      fun j _ => h.callbacks j⟩
  | destroyTask k =>
    obtain ⟨hq, rfl⟩ := of_enabled hs
    exact ⟨place, h.modify (fun x =>
      { x with queued := x.queued - 1, streamDestroyPending := false }.destroyPhysically) s.stack rfl
      ((h.stage k).destroyTask hq.2).1 h.kept (h.callbacks k) fun j _ => h.callbacks j⟩

end Inv

def Finishes (hooked : Bool) (k : Nat) (s : State) : Prop :=
  ∃ acts s', (session hooked).exec (fun s a => guarded hooked s a = true) s acts = some s' ∧
    (s'.stream k).destroyed = 1

section Finishes

variable {s : State}

theorem Finishes.step (hok : guarded hooked s a = true) (hs : step hooked s a = some t)
    (h : Finishes hooked k t) : Finishes hooked k s := by
  obtain ⟨acts, s', hexec, hd⟩ := h
  have hcons : (session hooked).exec (fun s a => guarded hooked s a = true) s (a :: acts) = _ :=
    System.exec_cons hok hs
  exact ⟨a :: acts, s', hcons.trans hexec, hd⟩

/-- By induction on the steps that the thread with the last reference has left. -/
theorem finishes_gone (h : (s.stream k).At .gone) (hheld : (s.stream k).held = 0) (hs : s.stack = []) :
    Finishes hooked k s := by
  induction hn : (s.stream k).unref.left using Nat.strongRecOn generalizing s with
  | ind n ih =>
    rcases h.due hheld with hd | hq | ⟨-, y, hy⟩
    · exact ⟨[], s, rfl, hd⟩
    · refine Finishes.step (a := .destroyTask k) rfl (if_pos ⟨hs, hq⟩) ⟨[], _, rfl, ?_⟩
      simp only [State.modify, update_self, Stream.destroyPhysically, (h.destroyTask hq).2]
    · obtain ⟨hat, hheld', -, hlt⟩ := h.remote hy
      have hstep : Session.step hooked s (.remote k true) =
          some { s with stream := update s.stream k y } := by
        simp only [Session.step, hy, map_some]
      refine Finishes.step rfl hstep (ih y.unref.left (hn ▸ hlt) ?_ ?_ hs ?_)
      · simpa only [update_self] using hat
      · simpa only [update_self] using hheld'.trans hheld
      · simp only [update_self]

end Finishes

/-- No stream is used after its destruction; a removed one without references is destroyed once. -/
theorem csilkH2Stream_lifetime (hooked : Bool)
    (h : (session hooked).Reachable (fun s a => guarded hooked s a = true) s) (k : Nat) :
    (s.stream k).misused = false ∧ (s.stream k).destroyed ≤ 1 ∧
      ((s.stream k).destroyed = 1 → ¬s.Mapped k ∧ (s.stream k).held = 0) ∧
      (k < s.created → ¬s.Mapped k → (s.stream k).held = 0 →
        ((s.stream k).unref = .idle → (s.stream k).queued = 0 → (s.stream k).destroyed = 1) ∧
        (s.stack = [] → Finishes hooked k s)) := by
  obtain ⟨place, hinv⟩ : ∃ place, Inv hooked s place := by
    apply h.invariant (P := fun s => ∃ place, Inv hooked s place)
    · rintro s rfl
      exact ⟨_, init_inv⟩
    · rintro s a s' ⟨place, hinv⟩ hok hs
      exact hinv.step hok hs
  have hat := hinv.stage k
  have hunborn := hinv.unborn k
  obtain ⟨hm, hd, hgone⟩ := hat.intact
  rw [hinv.mapped_iff]
  refine ⟨hm, hd, fun hd => ?_, fun hk hk' hheld => ?_⟩
  · obtain ⟨hplace, hheld⟩ := hgone hd
    exact ⟨by simp [hplace], hheld⟩
  · have hplace : place k = .gone := by
      cases hp : place k with
      | unborn => exact absurd hk (Nat.not_lt_of_le (hunborn.1 hp))
      | mapped => exact absurd hp hk'
      | gone => rfl
    rw [hplace] at hat
    refine ⟨fun hpc hq => ?_, finishes_gone hat hheld⟩
    rcases hat.due hheld with hd | hq' | ⟨hpc', -⟩
    · exact hd
    · exact absurd hq (Nat.ne_of_gt hq')
    · exact absurd hpc hpc'

theorem csilkH2Stream_lifetime_closed :
    ∃ s, (session true).Reachable (fun s a => guarded true s a = true) s ∧ s.created = 2 ∧
      (s.stream 0).misused = false ∧ (s.stream 0).destroyed = 1 ∧
      (s.stream 1).unref = .reserve 0 ∧ Finishes true 1 s := by
  have hrun := (session true).run (p := fun s a => guarded true s a = true) init
    [.header 1, .frameRecv 1, .handlerReturn true, .sendReturn, .streamClose 1,
      .header 3, .frameRecv 3, .opBegin, .handlerReturn true, .streamClose 3, .drop 1] rfl rfl
  obtain ⟨hm, -⟩ := csilkH2Stream_lifetime true hrun 0
  obtain ⟨-, -, -, hlast⟩ := csilkH2Stream_lifetime true hrun 1
  refine ⟨_, hrun, rfl, hm, rfl, rfl, (hlast (by decide) ?_ rfl).2 rfl⟩
  decide

/-- A stream closed while its response is sent is used afterwards; without a task it is never
destroyed. -/
theorem csilkH2Stream_misused :
    (∃ s, (session true).Reachable (fun _ _ => True) s ∧ (s.stream 0).misused = true) ∧
      (∃ s, (session false).Reachable (fun _ _ => True) s ∧ (s.stream 0).misused = true) ∧
      ∃ s, (session false).Reachable (fun _ _ => True) s ∧ s.stack = [] ∧ 0 < s.created ∧ ¬s.Mapped 0 ∧
        (s.stream 0).held = 0 ∧ (s.stream 0).unref = .idle ∧ (s.stream 0).queued = 0 ∧
        (s.stream 0).destroyed = 0 := by
  have hhook := (session true).run (p := fun _ _ => True) init
    [.header 1, .frameRecv 1, .handlerReturn true, .closeInSend 1, .sendReturn] rfl rfl
  have hinline := (session false).run (p := fun _ _ => True) init
    [.header 1, .frameRecv 1, .opBegin, .callback 0, .respond, .closeInSend 1, .sendReturn,
      .callbackReturn, .release 0, .handlerReturn true] rfl rfl
  have hleak := (session false).run (p := fun _ _ => True) init
    [.header 1, .frameRecv 1, .opBegin, .handlerReturn true, .streamClose 1, .drop 0, .remote 0 false,
      .remote 0 false, .remote 0 false, .remote 0 false, .remote 0 false, .remote 0 false] rfl rfl
  refine ⟨⟨_, hhook, rfl⟩, ⟨_, hinline, rfl⟩, _, hleak, rfl, Nat.succ_pos 0, ?_, rfl, rfl, rfl, rfl⟩
  decide

end Csilk.Http2.Session
