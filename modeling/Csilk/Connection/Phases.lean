import Csilk.Connection.Lifetime
import Mathlib.Data.List.Count

namespace Csilk.Connection
open Csilk.Lib List

def Handle.isClosing : Handle → Bool
  | .closing _ => true
  | _ => false

def Conn.holders (s : Conn) : Nat := s.writes.length + s.sendfiles + s.asyncOps + s.dispatched

def Conn.pending (s : Conn) : Nat :=
  s.writes.length + s.sendfiles + s.timers.countP Handle.isClosing

/-- Before `client_destroy`, and before `on_close` too if `o`. The running callback has `r`
references and `p` pending counts in hand. -/
structure Counted (n : Int) (o : Bool) (r p : Nat) (s : Conn) : Prop where
  ending : s.ending = !o
  state : s.state ≠ .closed
  handle : s.handle = .closed ↔ o = false
  callback : s.handle ≠ .closing false
  connClosed : o = false → s.ctx.connClosed = true
  timers : ∀ t ∈ s.timers, t = .active ↔ o = true
  pooled : s.pooled = false
  refs : s.refCount = o.toNat + s.holders + r
  pio : s.pendingIo = s.pending + p
  active : s.activeConnections = n + 1
  base : s.baseReleases + o.toNat = 1
  destroys : s.destroys = 0

/-- After `on_close` something is left that will end in `client_destroy`. -/
structure Live (n : Int) (o : Bool) (r p : Nat) (s : Conn) : Prop extends Counted n o r p s where
  left : o = false → 0 < s.refCount ∨ 0 < s.pendingIo ∨ 0 < s.remoteChecks + s.recycleTasks

/-- After `client_destroy`: nothing refers to the client any more. -/
structure Gone (n : Int) (s : Conn) : Prop where
  state : s.state = .init
  handle : s.handle = .closed
  timers : ∀ t ∈ s.timers, t ≠ .active
  pooled : s.pooled = true
  holders : s.holders = 0
  pending : s.pending = 0
  active : s.activeConnections = n
  base : s.baseReleases = 1
  destroys : s.destroys = 1

def Phase (n : Int) (s : Conn) : Prop := (∃ o, Live n o 0 0 s) ∨ Gone n s

/-- What I/O can do: only the last release after `on_close` destroys the connection. -/
def After (n : Int) (o : Bool) (r p : Nat) (s s' : Conn) : Prop :=
  Live n o r p s' ∧ (s'.ctx, s'.handle) = (s.ctx, s.handle) ∨ (o = false ∧ r = 0 ∧ p = 0) ∧ Gone n s'

variable {s : Conn} {n : Int} {o : Bool} {r p : Nat}

theorem Live.phase (h : Live n o 0 0 s) : Phase n s := .inl ⟨o, h⟩

theorem After.phase (h : After n o 0 0 s s') : Phase n s' := by
  rcases h with h | h
  · exact h.1.phase
  · exact .inr h.2

theorem After.live (h : After n o r p s s') (hleft : o = true ∨ 0 < r) :
    Live n o r p s' ∧ (s'.ctx, s'.handle) = (s.ctx, s.handle) := by
  apply h.resolve_right
  rintro ⟨⟨rfl, rfl, -⟩, -⟩
  simp at hleft

theorem After.trans (h : After n o r p s s') (heq : (s.ctx, s.handle) = (s₀.ctx, s₀.handle)) :
    After n o r p s₀ s' := by
  rcases h with h | h
  · exact .inl ⟨h.1, h.2.trans heq⟩
  · exact .inr h

theorem Counted.closing (h : Counted n false r p s) : s.state = .closing := by
  have hend := h.ending
  simpa [Conn.ending, h.state] using hend

theorem Counted.ref (h : Counted n o r p s) : Live n o (r + 1) p s.csilkClientRef :=
  { h with refs := congrArg (· + 1) h.refs, left := fun _ => .inl (Nat.succ_pos _) }

theorem Counted.inc (h : Counted n o r p s) : Live n o r (p + 1) s.csilkClientPendingIoInc :=
  { h with pio := congrArg (· + 1) h.pio, left := fun _ => .inr (.inl (Nat.succ_pos _)) }

theorem Counted.check (h : Counted n o r p s) : After n o r p s s.csilkClientCheckRecycle := by
  have hrefs := h.refs
  have hpio := h.pio
  rw [Conn.csilkClientCheckRecycle]
  split
  case isTrue hc =>
    obtain ⟨hend, hr, hp⟩ := hc
    cases o with
    | true => cases h.ending.symm.trans hend
    | false =>
      have hactive := h.active
      rw [Conn.clientDestroy, if_pos h.closing]
      refine .inr ⟨⟨rfl, by omega, by omega⟩, rfl, h.handle.2 rfl, ?_, rfl, ?_, ?_, ?_, h.base,
        congrArg (· + 1) h.destroys⟩
      · intro t ht hact
        cases (h.timers t ht).1 hact
      · show s.holders = 0
        omega
      · show s.pending = 0
        omega
      · show s.activeConnections - 1 = n
        omega
  case isFalse hc =>
    refine .inl ⟨{ h with left := ?_ }, rfl⟩
    rintro rfl
    by_contra hleft
    rw [h.ending] at hc
    exact hc ⟨rfl, by omega, by omega⟩

theorem Counted.unref (h : Counted n o (r + 1) p s) : After n o r p s s.csilkClientUnref := by
  have hrefs := h.refs
  rw [Conn.csilkClientUnref]
  split
  · have hlast : Counted n o r p { s with refCount := 0 } := by
      refine { h with refs := ?_ }
      show 0 = o.toNat + s.holders + r
      omega
    exact hlast.check
  · refine .inl ⟨{ h with refs := ?_, left := fun _ => .inl ?_ }, rfl⟩
    · show s.refCount - 1 = o.toNat + s.holders + r
      omega
    · show 0 < s.refCount - 1
      omega

theorem Counted.dec (h : Counted n o r (p + 1) s) : After n o r p s s.csilkClientPendingIoDec := by
  have hpio := h.pio
  rw [Conn.csilkClientPendingIoDec]
  split
  · have hlast : Counted n o r p { s with pendingIo := 0 } := by
      refine { h with pio := ?_ }
      show 0 = s.pending + p
      omega
    exact hlast.check
  · refine .inl ⟨{ h with pio := ?_, left := fun _ => .inr (.inl ?_) }, rfl⟩
    · show s.pendingIo - 1 = s.pending + p
      omega
    · show 0 < s.pendingIo - 1
      omega

theorem Counted.release (h : Counted n o (r + 1) (p + 1) s) : After n o r p s s.releaseWrite := by
  obtain ⟨hdec, heq⟩ := h.dec.live (.inr (Nat.succ_pos r))
  exact hdec.unref.trans heq

theorem Live.released (h : Live n o 1 1 s) : Phase n s.releaseWrite := h.release.phase

theorem Live.transfer {w : List WriteCb} {f a d r' p' : Nat} (h : Live n o r p s)
    (hr : w.length + f + a + d + r' = s.holders + r)
    (hp : w.length + f + s.timers.countP Handle.isClosing + p' = s.pending + p) :
    Live n o r' p' { s with writes := w, sendfiles := f, asyncOps := a, dispatched := d } := by
  have hrefs := h.refs
  refine { h with refs := ?_, pio := h.pio.trans hp.symm }
  show s.refCount = o.toNat + (w.length + f + a + d) + r'
  omega

theorem Live.start (h : Live n o r p s) (hw : w.length + f = s.writes.length + s.sendfiles + 1) :
    Live n o r p { s.csilkClientRef.csilkClientPendingIoInc with writes := w, sendfiles := f } := by
  apply h.ref.inc.transfer
  · dsimp only [Conn.holders, Conn.csilkClientRef, Conn.csilkClientPendingIoInc]
    omega
  · dsimp only [Conn.pending, Conn.csilkClientRef, Conn.csilkClientPendingIoInc]
    omega

theorem Live.write_ok (h : Live n o r p s) (cb : WriteCb) : Live n o r p (s.write cb true) := by
  apply h.start
  rw [length_append, Nat.add_right_comm]
  rfl

theorem Live.write (h : Live n o 0 0 s) (cb : WriteCb) (ok : Bool) :
    After n o 0 0 s (s.write cb ok) := by
  cases ok with
  | true => exact .inl ⟨h.write_ok cb, rfl⟩
  | false => exact h.ref.inc.release

theorem Live.flush (h : Live n o 0 0 s) (rs : List Bool) : After n o 0 0 s (s.flushTlsWrite rs) := by
  induction rs generalizing s with
  | nil => exact .inl ⟨h, rfl⟩
  | cons ok rs ih =>
    cases ok with
    | true => exact (ih (h.write_ok .onWrite)).trans rfl
    | false => exact h.write .onWrite false

theorem Live.sendData (h : Live n o 0 0 s) (rs : List Bool) :
    After n o 0 0 s (s.csilkSendDataOwned rs) := by
  unfold Conn.csilkSendDataOwned
  split
  · exact .inl ⟨h, rfl⟩
  · split
    · exact h.flush rs
    · cases rs with
      | nil => exact .inl ⟨h, rfl⟩
      | cons ok rs => exact h.write .onWrite ok

theorem Live.setState (h : Live n o r p s) (hnew : new ≠ .closed ∧ (new = .closing → o = false)) :
    Live n o r p (s.setState new) := by
  suffices hstate : (s.setState new).ending = !o ∧ (s.setState new).state ≠ .closed from
    { h with ending := hstate.1, state := hstate.2 }
  unfold Conn.setState csilkConnSetState
  split
  case isFalse => exact ⟨h.ending, h.state⟩
  case isTrue hvalid =>
    refine ⟨?_, hnew.1⟩
    cases o with
    | true => simp_all [Conn.ending]
    | false =>
      rw [h.closing] at hvalid
      simpa [Conn.ending, csilkConnIsValidTransition] using hvalid

theorem Live.withCtx (h : Live n o r p s) (hctx : ctx.connClosed = s.ctx.connClosed) :
    Live n o r p { s with ctx := ctx } :=
  { h with connClosed := fun ho => hctx.trans (h.connClosed ho) }

theorem Live.close (h : Live n o r p s) : Live n o r p (s.close true) := by
  rw [Conn.close]
  split
  case isFalse => exact h
  case isTrue hactive =>
    refine { h with handle := iff_of_false (by simp) ?_, callback := by simp }
    intro ho
    cases hactive.symm.trans (h.handle.2 ho)

theorem Live.postResponse (h : Live n o 0 0 s)
    (hkeep : keepAlive = true ∨ s.ctx.isWebsocket = true ∨ s.ctx.isSse = true) :
    Live n o 0 0 (s.csilkHandlePostResponse keepAlive) := by
  have hctx : Live n o 0 0 { s with ctx := { csilkCtxCleanup s.ctx with
    isWebsocket := s.ctx.isWebsocket, isSse := s.ctx.isSse } } := h.withCtx rfl
  unfold Conn.csilkHandlePostResponse
  dsimp only
  split
  · exact hctx
  · rename_i hws
    split
    · split
      · exact hctx.setState ⟨by simp, by simp⟩
      · exact hctx
    · rename_i hka
      simp [hka] at hkeep hws
      simp [hws] at hkeep

theorem Live.chunkedHeaders (h : Live n true 0 0 s) (r : Option Bool) :
    Live n true 0 0 (s.sendChunkedHeaders r) ∧
      (s.sendChunkedHeaders r).ctx.isWebsocket = s.ctx.isWebsocket ∧
      (s.sendChunkedHeaders r).ctx.isSse = s.ctx.isSse := by
  cases r with
  | none => exact ⟨h, rfl, rfl⟩
  | some ok =>
    obtain ⟨hw, heq⟩ := (h.write .release ok).live (.inl rfl)
    cases ok with
    | true => exact ⟨hw.withCtx rfl, rfl, rfl⟩
    | false => exact ⟨hw, congrArg (·.1.isWebsocket) heq, congrArg (·.1.isSse) heq⟩

theorem Live.wsClose (h : Live n true 0 0 s) (hh : s.handle ≠ .active) (r : Option Bool) :
    Live n true 0 0 (s.csilkWsParseClose r) := by
  cases r with
  | none =>
    rw [Conn.csilkWsParseClose, Conn.close, if_neg hh]
    exact h
  | some ok =>
    obtain ⟨hw, heq⟩ := (h.write .release ok).live (.inl rfl)
    have hwrite : (s.write .release ok).handle = s.handle := congrArg Prod.snd heq
    rw [Conn.csilkWsParseClose, Conn.close, if_neg (hwrite ▸ hh)]
    exact hw

theorem countP_stop (timers : List Handle) :
    (timers.map fun t => if t = .active then .closing true else t).countP Handle.isClosing =
      timers.countP Handle.isClosing + timers.count .active := by
  induction timers with
  | nil => rfl
  | cons t timers ih =>
    rw [map_cons, countP_cons, countP_cons, ih]
    cases t with
    | active | closing cb =>
      simp [Handle.isClosing]
      omega
    | closed => simp [Handle.isClosing]

theorem Live.onClose (h : Live n true 0 0 s) : Phase n (Conn.onClose { s with handle := .closed }) := by
  have hend : Conn.ending { s with handle := .closed } = false := h.ending
  have hrefs : s.refCount = 1 + s.holders := h.refs
  rw [Conn.onClose, if_neg (by simp [hend])]
  have hstate : csilkConnSetState s.state .closing = .closing := by
    have hclosed := h.state
    cases hs : s.state with
    | closed => exact absurd hs hclosed
    | _ => rfl
  refine After.phase (s := _) (Counted.unref (o := false) ⟨?_, ?_, iff_of_true rfl rfl,
    Handle.noConfusion, fun _ => rfl, ?_, h.pooled, ?_, ?_, h.active, h.base, h.destroys⟩)
  · show (csilkConnSetState s.state .closing = .closing || _) = true
    rw [hstate]
    rfl
  · show csilkConnSetState s.state .closing ≠ .closed
    rw [hstate]
    simp
  · intro t ht
    obtain ⟨t₀, -, rfl⟩ := List.mem_map.1 ht
    split
    · simp
    case isFalse hactive => simp [hactive]
  · show s.refCount = 0 + s.holders + 1
    omega
  · have hpio : s.pendingIo = s.writes.length + s.sendfiles + s.timers.countP Handle.isClosing :=
      h.pio
    show s.pendingIo + s.timers.count .active = s.writes.length + s.sendfiles +
      (s.timers.map fun t => if t = .active then .closing true else t).countP Handle.isClosing
    rw [countP_stop]
    omega

theorem timerClosed_phase (h : Phase n s) (ht : s.timers[i]? = some (.closing cb)) :
    Phase n (Conn.csilkClientPendingIoDec { s with timers := s.timers.set i .closed }) := by
  have hmem : Handle.closing cb ∈ s.timers := mem_of_getElem? ht
  have hpos : 0 < s.timers.countP Handle.isClosing := countP_pos_iff.2 ⟨_, hmem, rfl⟩
  rcases h with ⟨o, h⟩ | h
  · have hstopped := h.timers _ hmem
    apply After.phase (s := _)
    apply Counted.dec (o := o)
    refine { h with timers := ?_, pio := ?_ }
    · intro t htm
      rcases mem_or_eq_of_mem_set htm with htm | rfl
      · exact h.timers t htm
      · simpa using hstopped
    · obtain ⟨hi, hget⟩ := List.getElem?_eq_some_iff.1 ht
      have hcount : (s.timers.set i .closed).countP Handle.isClosing + 1 =
          s.timers.countP Handle.isClosing := by
        rw [countP_set hi, hget]
        exact Nat.sub_add_cancel hpos
      have hpio : s.pendingIo = s.writes.length + s.sendfiles +
        s.timers.countP Handle.isClosing := h.pio
      show s.pendingIo = s.writes.length + s.sendfiles +
        (s.timers.set i .closed).countP Handle.isClosing + 1
      omega
  · have hpending : s.writes.length + s.sendfiles + s.timers.countP Handle.isClosing = 0 :=
      h.pending
    omega

theorem Live.takeWrite (h : Live n o 0 0 s) (hi : i < s.writes.length) :
    Live n o 1 1 { s with writes := s.writes.eraseIdx i } := by
  have hlen : (s.writes.eraseIdx i).length + 1 = s.writes.length := by
    rw [length_eraseIdx_of_lt hi]
    exact Nat.sub_add_cancel (Nat.zero_lt_of_lt hi)
  apply h.transfer
  · rw [Conn.holders]
    omega
  · rw [Conn.pending]
    omega

theorem Live.onWrite (h : Live n o 1 1 s) (file : FileStart) : Phase n (s.onWrite file) := by
  unfold Conn.onWrite
  split
  · cases file with
    | unavailable => exact h.released
    | refused =>
      obtain ⟨hkeep, -⟩ := h.ref.inc.release.live (.inr Nat.one_pos)
      exact Live.released (hkeep.withCtx rfl)
    | started => exact Live.released (h.start rfl)
  · exact h.released

theorem Live.sendfileComplete (h : Live n o 0 0 s) (hpos : 0 < s.sendfiles) (keepAlive : Bool) :
    Phase n (Conn.onSendfileComplete { s with sendfiles := s.sendfiles - 1 } keepAlive) := by
  have htake : Live n o 1 1 { s with sendfiles := s.sendfiles - 1 } := by
    apply h.transfer
    · rw [Conn.holders]
      omega
    · rw [Conn.pending]
      omega
  cases keepAlive with
  | true => exact Live.released (htake.withCtx rfl)
  | false => exact Live.released (htake.close.withCtx rfl)

theorem Live.remoteUnref (h : Live n o 1 0 s) : Live n o 0 0 s.remoteUnref := by
  have hrefs := h.refs
  rw [Conn.remoteUnref]
  split
  · refine { h with refs := ?_, left := fun _ => .inr (.inr ?_) }
    · show 0 = o.toNat + s.holders + 0
      omega
    · show 0 < s.remoteChecks + 1 + s.recycleTasks
      omega
  · refine { h with refs := ?_, left := fun _ => .inl ?_ }
    · show s.refCount - 1 = o.toNat + s.holders + 0
      omega
    · show 0 < s.refCount - 1
      omega

theorem Phase.enqueue (h : Phase n s) (hearly : ok = true ∨ s.pooled = true) :
    Phase n (if ok = true ∧ s.pooled = false then
      { s with remoteChecks := s.remoteChecks - 1, recycleTasks := s.recycleTasks + 1 }
      else { s with remoteChecks := s.remoteChecks - 1 }) := by
  rcases h with ⟨o, h⟩ | h
  · rw [if_pos ⟨hearly.resolve_right (by simp [h.pooled]), h.pooled⟩]
    refine .inl ⟨o, { h with left := fun ho => (h.left ho).imp_right (.imp_right fun _ => ?_) }⟩
    show 0 < s.remoteChecks - 1 + (s.recycleTasks + 1)
    omega
  · split <;> exact .inr { h with }

theorem Phase.recycle (h : Phase n s) :
    Phase n (Conn.recycle { s with recycleTasks := s.recycleTasks - 1 }) := by
  rcases h with ⟨o, h⟩ | h
  · have hcheck : Counted n o 0 0 { s with recycleTasks := s.recycleTasks - 1 } := { h with }
    have heq : Conn.recycle { s with recycleTasks := s.recycleTasks - 1 } =
        Conn.csilkClientCheckRecycle { s with recycleTasks := s.recycleTasks - 1 } := by
      simp [Conn.recycle, Conn.csilkClientCheckRecycle, Conn.ending, h.state]
    rw [heq]
    exact hcheck.check.phase
  · rw [Conn.recycle, if_neg fun hc => by cases h.state.symm.trans hc.1]
    exact .inr { h with }

end Csilk.Connection
