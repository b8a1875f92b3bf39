import Csilk.Connection.Phases

namespace Csilk.Connection
open Csilk.Lib

variable {s : Conn} {n : Int} {o : Bool}

/-- `CSILK_CONN_CLOSING` or a close of the transport comes before `on_close`, or a recycle task has
no memory. -/
def Early (s : Conn) : Event → Prop
  | .sendResponse keepAlive _ => keepAlive = false ∧ s.ending = false ∧
    s.ctx.isWebsocket = false ∧ s.ctx.isSse = false ∧ (s.ctx.hasFile && !s.ssl) = false
  | .responseEnd keepAlive _ _ => keepAlive = false ∧ s.ctx.connClosed = false ∧
    s.ending = false ∧ s.ctx.isWebsocket = false ∧ s.ctx.isSse = false
  | .wsCloseFrame _ => s.ending = false ∧ s.handle = .active
  | .sseClose => s.ending = false
  | .remoteEnqueue ok => ok = false ∧ s.pooled = false
  | _ => False

theorem Live.sendResponse (h : Live n true 0 0 s)
    (hearly : ¬ Early s (.sendResponse keepAlive rs)) :
    Live n true 0 0 (s.csilkSendResponse keepAlive rs) := by
  rw [Conn.csilkSendResponse, if_neg (by simp [h.ending])]
  have hstate : ∀ new, new ≠ .closed ∧ (new = .closing → true = false) →
      Live n true 0 0 ((s.setState new).csilkSendDataOwned rs) :=
    fun new hnew => (((h.setState hnew).sendData rs).live (.inl rfl)).1
  split
  · exact hstate _ ⟨by simp, by simp⟩
  · rename_i hws
    split
    · exact h
    · rename_i hsse
      have hsend := hstate .writing ⟨by simp, by simp⟩
      dsimp only
      split
      · exact hsend
      · rename_i hfile
        refine hsend.postResponse (.inl ?_)
        by_contra hkeep
        exact hearly ⟨eq_false_of_ne_true hkeep, h.ending, eq_false_of_ne_true hws,
          eq_false_of_ne_true hsse, eq_false_of_ne_true hfile⟩

theorem Live.headers (h : Live n true 0 0 s) (r : Option Bool)
    (heq : s' = if s.ctx.responseStarted then s else s.sendChunkedHeaders r) :
    Live n true 0 0 s' ∧ s'.ctx.isWebsocket = s.ctx.isWebsocket ∧ s'.ctx.isSse = s.ctx.isSse := by
  rw [heq]
  split
  · exact ⟨h, rfl, rfl⟩
  · exact h.chunkedHeaders r

theorem Live.streaming (h : Live n o 0 0 s) : Live n o 0 0 (s.setState .streaming) :=
  h.setState ⟨by simp, by simp⟩

theorem Live.responseWrite (h : Live n true 0 0 s) (r : Option Bool) (rs : List Bool) :
    Live n true 0 0 (s.csilkResponseWrite r rs) := by
  unfold Conn.csilkResponseWrite
  split
  · exact h
  · obtain ⟨hheaders, -⟩ := h.streaming.headers r rfl
    have hsend := (hheaders.sendData rs).live (.inl rfl)
    exact iteInduction (motive := Live n true 0 0) (fun _ => hsend.1) (fun _ => hheaders)

theorem Live.responseEnd {r : Option Bool} (h : Live n true 0 0 s)
    (hearly : ¬ Early s (.responseEnd keepAlive r rs)) :
    Live n true 0 0 (s.csilkResponseEnd keepAlive r rs) := by
  unfold Conn.csilkResponseEnd
  split
  · exact h
  · rename_i hclosed
    obtain ⟨hopen, hws, hsse⟩ := h.headers r rfl
    obtain ⟨hsend, heq⟩ := (hopen.sendData rs).live (.inl rfl)
    rw [if_neg (by simp [hopen.ending])]
    apply hsend.postResponse
    rw [(Prod.mk.inj heq).1, hws, hsse]
    by_contra hkeep
    rw [not_or, not_or] at hkeep
    exact hearly ⟨eq_false_of_ne_true hkeep.1, eq_false_of_ne_true hclosed, h.ending,
      eq_false_of_ne_true hkeep.2.1, eq_false_of_ne_true hkeep.2.2⟩

theorem Phase.unpooled (h : Phase n s) (hpool : s.pooled = false) : ∃ o, Live n o 0 0 s := by
  apply h.resolve_right
  intro hg
  cases hg.pooled.symm.trans hpool

theorem Phase.held (h : Phase n s) (hpos : 0 < s.holders) : ∃ o, Live n o 0 0 s := by
  apply h.resolve_right
  intro hg
  rw [hg.holders] at hpos
  cases hpos

theorem Phase.use (h : Phase n s) (hs : s.use s₁ = some s') : (∃ o, Live n o 0 0 s) ∧ s' = s₁ := by
  rw [Conn.use] at hs
  split at hs
  · cases hs
  case isFalse hpool =>
    cases hs
    exact ⟨h.unpooled (eq_false_of_ne_true hpool), rfl⟩

theorem Phase.handleClosed (h : Phase n s) (hh : s.handle = .closing cb) :
    Phase n (if cb then ({ s with handle := .closed } : Conn).onClose
      else { s with handle := .closed }) := by
  rcases h with ⟨o, h⟩ | h
  · cases cb with
    | false => exact absurd hh h.callback
    | true =>
      cases o with
      | false => cases hh.symm.trans (h.handle.2 rfl)
      | true => exact h.onClose
  · cases hh.symm.trans h.handle

theorem step_phase (h : Phase n s) (hearly : ¬ Early s a) (hs : step s a = some s') : Phase n s' := by
  cases a with
  | readData =>
    obtain ⟨⟨-, hpool⟩, rfl⟩ := of_enabled hs
    obtain ⟨o, hl⟩ := h.unpooled hpool
    split
    · exact hl.phase
    · split
      · exact hl.streaming.phase
      · exact Live.phase (hl.setState ⟨by simp, by simp⟩)
  | readFail =>
    obtain ⟨⟨-, hpool⟩, rfl⟩ := of_enabled hs
    obtain ⟨o, hl⟩ := h.unpooled hpool
    split
    · exact hl.phase
    · exact hl.close.phase
  | request | stream =>
    obtain ⟨⟨o, hl⟩, rfl⟩ := h.use hs
    exact Live.phase (hl.setState ⟨by simp, by simp⟩)
  | upgrade =>
    obtain ⟨⟨o, hl⟩, rfl⟩ := h.use hs
    exact Live.phase (hl.streaming.withCtx rfl)
  | sseInit r =>
    obtain ⟨⟨o, hl⟩, rfl⟩ := h.use hs
    have hsse : Live n o 0 0 { s.setState .streaming with ctx := { s.ctx with isSse := true } } :=
      hl.streaming.withCtx rfl
    cases r with
    | none => exact hsse.phase
    | some ok => exact (hsse.write .release ok).phase
  | openFile =>
    obtain ⟨⟨o, hl⟩, rfl⟩ := h.use hs
    exact Live.phase (hl.withCtx rfl)
  | sendResponse keepAlive rs =>
    obtain ⟨⟨o, hl⟩, rfl⟩ := h.use hs
    cases o with
    | true => exact (hl.sendResponse hearly).phase
    | false =>
      rw [Conn.csilkSendResponse, hl.ending]
      exact hl.phase
  | responseWrite r rs =>
    obtain ⟨⟨o, hl⟩, rfl⟩ := h.use hs
    cases o with
    | true => exact (hl.responseWrite r rs).phase
    | false =>
      rw [Conn.csilkResponseWrite, if_pos (by rw [hl.connClosed rfl]; rfl)]
      exact hl.phase
  | responseEnd keepAlive r rs =>
    obtain ⟨⟨o, hl⟩, rfl⟩ := h.use hs
    cases o with
    | true => exact (hl.responseEnd hearly).phase
    | false =>
      rw [Conn.csilkResponseEnd, if_pos (hl.connClosed rfl)]
      exact hl.phase
  | send ok =>
    obtain ⟨⟨o, hl⟩, rfl⟩ := h.use hs
    exact (hl.write .release ok).phase
  | flush rs =>
    obtain ⟨⟨o, hl⟩, rfl⟩ := h.use hs
    exact (hl.flush rs).phase
  | wsCloseFrame r =>
    obtain ⟨⟨o, hl⟩, rfl⟩ := h.use hs
    split
    · exact hl.phase
    · rename_i hend
      cases o with
      | true => exact (hl.wsClose (fun hc => hearly ⟨hl.ending, hc⟩) r).phase
      | false => exact absurd hl.ending hend
  | sseClose =>
    obtain ⟨⟨o, hl⟩, rfl⟩ := h.use hs
    cases o with
    | true => exact absurd hl.ending hearly
    | false =>
      have hclosing : Live n false 0 0 (s.setState .closing) := hl.setState ⟨by simp, fun _ => rfl⟩
      exact hclosing.close.phase
  | timeout i =>
    obtain ⟨ht, rfl⟩ := of_enabled hs
    rcases h with ⟨o, hl⟩ | hg
    · exact hl.close.phase
    · exact absurd rfl (hg.timers _ (List.mem_of_getElem? ht))
  | shutdown =>
    obtain ⟨⟨o, hl⟩, rfl⟩ := h.use hs
    exact hl.close.phase
  | handleClosed =>
    rw [step] at hs
    split at hs
    · cases hs
      exact h.handleClosed ‹_›
    · cases hs
  | timerClosed i =>
    rw [step] at hs
    split at hs
    · cases hs
      exact timerClosed_phase h ‹_›
    · cases hs
  | writeDone i file =>
    rw [step] at hs
    split at hs
    · cases hs
    · rename_i cb hw
      cases hs
      obtain ⟨hi, -⟩ := List.getElem?_eq_some_iff.1 hw
      obtain ⟨o, hl⟩ := h.held (by rw [Conn.holders]; omega)
      have htake := hl.takeWrite hi
      cases cb with
      | onWrite => exact htake.onWrite file
      | release => exact htake.released
  | sendfileDone keepAlive =>
    obtain ⟨hpos, rfl⟩ := of_enabled hs
    obtain ⟨o, hl⟩ := h.held (by rw [Conn.holders]; omega)
    exact hl.sendfileComplete hpos keepAlive
  | asyncBegin | dispatch =>
    obtain ⟨⟨o, hl⟩, rfl⟩ := h.use hs
    apply Live.phase
    refine hl.ref.transfer ?_ rfl
    dsimp only [Conn.holders, Conn.csilkClientRef]
    omega
  | asyncEnd owner =>
    obtain ⟨hpos, rfl⟩ := of_enabled hs
    obtain ⟨o, hl⟩ := h.held (by rw [Conn.holders]; omega)
    have htake : Live n o 1 0 { s with asyncOps := s.asyncOps - 1 } := by
      refine hl.transfer ?_ rfl
      rw [Conn.holders]
      omega
    cases owner with
    | true => exact htake.unref.phase
    | false => exact htake.remoteUnref.phase
  | dispatchDone =>
    obtain ⟨hpos, rfl⟩ := of_enabled hs
    obtain ⟨o, hl⟩ := h.held (by rw [Conn.holders]; omega)
    have htake : Live n o 1 0 { s with dispatched := s.dispatched - 1 } := by
      refine hl.transfer ?_ rfl
      rw [Conn.holders]
      omega
    exact htake.unref.phase
  | remoteEnqueue ok =>
    obtain ⟨-, rfl⟩ := of_enabled hs
    apply h.enqueue
    by_contra hc
    rw [not_or] at hc
    exact hearly ⟨eq_false_of_ne_true hc.1, eq_false_of_ne_true hc.2⟩
  | recycleTask =>
    obtain ⟨-, rfl⟩ := of_enabled hs
    exact h.recycle

theorem onNewConnection_live (ssl : Bool) (n : Int) : Live n true 0 0 (onNewConnection ssl n) := by
  refine ⟨⟨?_, ?_, by simp [onNewConnection], Handle.noConfusion, Bool.noConfusion, ?_, rfl, rfl, rfl,
    rfl, rfl, rfl⟩, Bool.noConfusion⟩
  · cases ssl <;> rfl
  · cases ssl <;> exact ConnState.noConfusion
  · intro t ht
    exact iff_of_true (List.eq_of_mem_replicate ht) rfl

/-- The transport is closed, and no I/O, reference or task is outstanding. -/
structure Settled (s : Conn) : Prop where
  handle : s.handle = .closed
  holders : s.holders = 0
  pending : s.pending = 0
  tasks : s.remoteChecks + s.recycleTasks = 0

/-- Otherwise the base reference is released once, and the connection destroyed once all is settled.
-/
theorem clientDestroy_once (h : (lifetime n).Reachable (fun s a => ¬ Early s a) s) :
    s.baseReleases ≤ 1 ∧ s.destroys ≤ 1 ∧ (s.handle = .closed → s.baseReleases = 1) ∧
      (Settled s → s.destroys = 1 ∧ s.activeConnections = n) := by
  have hphase : Phase n s := h.invariant
    (fun s hs => by obtain ⟨ssl, rfl⟩ := hs; exact (onNewConnection_live ssl n).phase)
    (fun s a s' hp hok hs => step_phase hp hok hs)
  rcases hphase with ⟨o, hl⟩ | hg
  · have hclosed : s.handle = .closed → s.baseReleases = 1 := by
      intro hc
      obtain rfl := hl.handle.1 hc
      exact hl.base
    refine ⟨Nat.le.intro hl.base, ?_, hclosed, ?_⟩
    · rw [hl.destroys]
      exact Nat.zero_le 1
    · intro hc
      obtain rfl := hl.handle.1 hc.handle
      have hrefs : s.refCount = s.holders := by simpa using hl.refs
      have hpio : s.pendingIo = 0 := hl.pio.trans hc.pending
      have hleft := hl.left rfl
      rw [hrefs, hc.holders, hpio, hc.tasks] at hleft
      exact absurd hleft (by decide)
  · exact ⟨Nat.le_of_eq hg.base, Nat.le_of_eq hg.destroys, fun _ => hg.base,
      fun _ => ⟨hg.destroys, hg.active⟩⟩

theorem clientDestroy_once_eof :
    ∃ s, (lifetime 0).Reachable (fun s a => ¬ Early s a) s ∧ Settled s ∧ s.destroys = 1 := by
  have hinit : (lifetime 0).Reachable (fun s a => ¬ Early s a) (onNewConnection false 0) :=
    .init ⟨false, rfl⟩
  have hread := (hinit.step (a := Event.readData) id rfl).step (a := Event.request) id rfl
  have hsend := hread.step (a := Event.sendResponse true [true]) (fun hc => by cases hc.1) rfl
  have hwritten := hsend.step (a := Event.writeDone 0 .unavailable) id rfl
  have hclosed := (hwritten.step (a := Event.readFail) id rfl).step (a := Event.handleClosed) id rfl
  have htimers := (((hclosed.step (a := Event.timerClosed 0) id rfl).step
    (a := Event.timerClosed 1) id rfl).step (a := Event.timerClosed 2) id rfl).step
    (a := Event.timerClosed 3) id rfl
  exact ⟨_, htimers, ⟨rfl, rfl, rfl, rfl⟩,
    ((clientDestroy_once htimers).2.2.2 ⟨rfl, rfl, rfl, rfl⟩).1⟩

/-- Without keep-alive `on_close` finds `CSILK_CONN_CLOSING`, and nothing destroys the connection.
-/
theorem csilkHandlePostResponse_leaks :
    ∃ s, (lifetime 0).Reachable (fun _ _ => True) s ∧ Settled s ∧ s.baseReleases = 0 ∧
      s.destroys = 0 ∧ s.activeConnections = 1 := by
  have hrun := (lifetime 0).run (p := fun _ _ => True) (onNewConnection false 0)
    [.readData, .request, .sendResponse false [true], .writeDone 0 .unavailable, .handleClosed]
    ⟨false, rfl⟩ rfl
  exact ⟨_, hrun, ⟨rfl, rfl, rfl, rfl⟩, rfl, rfl, rfl⟩

end Csilk.Connection
