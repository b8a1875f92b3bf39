import Csilk.Http1.Dispatching

namespace Csilk.Http1
open Csilk.Headers Csilk.Lib List Option

theorem readMem_congr (h : ∀ i < n, mem (a + i) = mem' (a + i)) : readMem mem a n = readMem mem' a n := by
  apply map_congr_left
  intro i hi
  exact h i (mem_range.1 hi)

theorem Conn.StrAlive.load {s : Conn} (h : s.StrAlive v)
    (hmem : ∀ x, Within s.live x → mem x = s.client.mem x) :
    v.map (Client.load { s.client with mem := mem }) = v.map s.client.load := by
  cases v with
  | none => rfl
  | some v =>
    cases v with
    | view a n => exact congrArg some (readMem_congr fun i hi => hmem _ (h i hi))
    | copy r bytes => rfl

theorem Kept.assembly {s : Conn} (h : Kept s)
    (hmem : ∀ x, Within s.live x → mem x = s.client.mem x) :
    Client.assembly { s.client with mem := mem } = s.client.assembly := by
  have hbody : Client.bodyBytes { s.client with mem := mem } = s.client.bodyBytes := by
    unfold Client.bodyBytes
    cases hb : s.client.request.body with
    | none | pool bytes capacity => rfl
    | borrowed a n =>
      have hsafe := h.body
      rw [hb] at hsafe
      rcases hsafe with hsafe | hsafe
      · exact readMem_congr fun i hi => hmem _ (hsafe i hi)
      · cases hsafe
  unfold Client.assembly
  rw [hbody, h.url.load hmem, h.field.load hmem, h.value.load hmem]

theorem Ready.write {s : Conn} (h : Ready s p) (mem : Nat → UInt8)
    (hmem : ∀ x, Within s.calm.live x → mem x = s.client.mem x) :
    Matches { s.client with mem := mem } p.open? := by
  have hm := h.matched
  have hk := h.kept
  cases ho : p.open? with
  | none =>
    rw [ho] at hm
    exact { hm with }
  | some a =>
    rw [ho] at hm hk
    exact ((hk (some_ne_none a)).assembly hmem).trans hm

theorem Kept.receive {s : Conn} (h : Kept s)
    (hlive : ∀ x, Within s.live x → Within (bs ++ cs) x) :
    Kept { s with
      client := { s.client with mem := mem }
      registered := bs, chunks := cs, freed := junk, received := rs } :=
  ⟨⟨h.url.mono hlive rfl, h.body.mono hlive⟩, h.field.mono hlive rfl, h.value.mono hlive rfl⟩

theorem Kept.callback {s : Conn} {cb : Callback} (h : Kept s) (hp : s.HoldsPiece cb.piece)
    (hr : cb.run lim s.client = .ok c) : Kept { s with client := c } := by
  have hk := Callback.run_keeps hr rfl fun _ => hp
  have hres : c.resets = s.client.resets := congrArg (·.2.1) (Callback.run_frame hr)
  exact ⟨h.toAlive.callback hr fun _ => hp, (hk.field hp h.field).mono (fun _ hx => hx) hres,
    (hk.value hp h.value).mono (fun _ hx => hx) hres⟩

theorem writeMem_loaded (mem : Nat → UInt8) (base : Nat) (bytes : Bytes) :
    Loaded (writeMem mem base bytes) base bytes := by
  intro i hi
  rw [writeMem, if_pos ⟨Nat.le_add_right _ _, Nat.add_lt_add_left hi _⟩, Nat.add_sub_cancel_left]

theorem writeMem_apart (h : Apart (base, bytes.length) bs) (hx : Within bs x) :
    writeMem mem base bytes x = mem x := by
  obtain ⟨b, hb, hlo, hhi⟩ := hx
  have hap := h b hb
  rw [writeMem, if_neg]
  rintro ⟨h₁, h₂⟩
  omega

theorem Ready.receive {s : Conn} (h : Ready s p) (r : Read)
    (hap : Apart (r.base, r.bytes.length) s.registered) :
    Ready { s.receive r with registered := s.registered ++ [(r.base, r.bytes.length)] } p := by
  have hmem : ∀ x, Within s.calm.live x →
      writeMem s.client.mem r.base r.bytes x = s.client.mem x := by
    intro x hx
    exact writeMem_apart hap (append_nil s.registered ▸ hx)
  refine { h with matched := h.write _ hmem, kept := fun ho => ?_ }
  refine (h.kept ho).receive fun x hx => ?_
  exact Within.append_left (Within.append_left (append_nil s.registered ▸ hx))

theorem Ready.callback {s : Conn} {cb : Callback} (h : Ready s p)
    (hitem : (cb.shift base).item s.client.mem = cb.item (bufferMem bytes))
    (hp : s.calm.HoldsPiece (cb.shift base).piece)
    (hstep : p.step lim (Signal.mark bytes (.callback cb)) = some q) :
    ∃ c, (cb.shift base).run lim s.client = .ok c ∧ Ready { s with client := c } q ∧
      c.mem = s.client.mem := by
  obtain ⟨c, hr, hc, hmem⟩ := h.toRunning.callback hitem hstep
  refine ⟨c, hr, { hc with paused := h.paused, kept := fun _ => ?_ }, hmem⟩
  obtain ⟨o, ds⟩ := p
  cases o with
  | some a => exact (h.kept (some_ne_none a)).callback hp hr
  | none =>
    -- Between two messages there may be a view of the last one, which the next one clears.
    cases cb with
    | messageBegin =>
      cases hr
      exact Kept.start (Client.Idle.onMessageBegin h.matched)
    | _ => cases hstep

theorem Ready.part (sigs : List Signal) {s : Conn} (h : Ready s p)
    (hsigs : ∀ sig ∈ sigs, sig.isCallback = true) (hload : Loaded s.client.mem base bytes)
    (hb : s.calm.Holds base bytes.length) (hfit : ∀ sig ∈ sigs, sig.Fits bytes.length)
    (hrun : p.run lim (sigs.map (Signal.mark bytes)) = some p') :
    ∃ t, s.calm.signals lim handler base sigs = .ok t.calm ∧ Ready t p' := by
  induction sigs generalizing s p with
  | nil =>
    cases hrun
    exact ⟨s, rfl, h⟩
  | cons sig rest ih =>
    obtain ⟨hsig, hcbs⟩ := forall_mem_cons.1 hsigs
    obtain ⟨hf, hfits⟩ := forall_mem_cons.1 hfit
    obtain ⟨q, hq, hrest⟩ := bind_eq_some_iff.1 hrun
    cases sig with
    | messageComplete method => cases hsig
    | callback cb =>
      obtain ⟨c, hr, hc, hmem⟩ := h.callback (hload.item hf) (Callback.shift_holds hb hf) hq
      rw [Conn.signals, show (cb.shift base).run lim s.calm.client = .ok c from hr]
      exact ih hc hcbs (by rw [hmem]; exact hload) hb hfits hrest

theorem Conn.llhttpExecute_ok {s : Conn} {r : Read}
    (hok : s.signals lim handler r.base r.signals = .ok t) (hp : s.paused = false) :
    s.llhttpExecute lim handler r = t := by
  rw [Conn.llhttpExecute, if_neg (by rw [hp]; exact Bool.false_ne_true), hok]

theorem Ready.onRead {s : Conn} (h : Ready s p) {r : Read}
    (hap : Apart (r.base, r.bytes.length) s.registered)
    (hord : r.Orderly handler s.dispatched.length) (hrun : p.run lim r.marks = some p') :
    Steady handler p' (s.calm.onRead lim handler r) := by
  have hr := h.receive r hap
  have hload : Loaded (writeMem s.client.mem r.base r.bytes) r.base r.bytes := writeMem_loaded _ _ _
  rcases hord with hpart | htidy
  · have hholds : Conn.Holds (Conn.calm { s.receive r with
        registered := s.registered ++ [(r.base, r.bytes.length)] }) r.base r.bytes.length := by
      intro i hi
      exact Within.append_left (Within.append_right
        ⟨_, mem_singleton_self _, Nat.le_add_right _ _, Nat.add_lt_add_left hi _⟩)
    obtain ⟨t, hok, hready⟩ := hr.part r.signals hpart hload hholds r.fits hrun
    have heq : s.calm.onRead lim handler r = t.calm := Conn.llhttpExecute_ok hok h.paused
    rw [heq]
    exact .ready hready
  · obtain ⟨t, hok, hsteady⟩ := hr.toRunning.tidy r.signals htidy hload r.fits hrun
    have heq : s.calm.onRead lim handler r = t := Conn.llhttpExecute_ok hok h.paused
    rw [heq]
    exact hsteady

theorem Conn.step_opDone (s : Conn) (lim : Limits) (handler : Nat → Handler) (file : Bool) :
    Conn.step lim handler
        { s.calm with isAsync := true, reading := false, ops := [⟨s.requestSeq, file⟩] } (.opDone 0) =
      some (if file then
        { s.calm with isAsync := true, reading := false, hasFile := true, sendfiles := 1 }
      else Conn.calm { s.calm.csilkCtxCleanup with paused := false }) := by
  cases file <;> exact congrArg some (if_pos rfl)

theorem Steady.opDone (h : Steady handler p s) (hs : s.step lim handler (.opDone i) = some s') :
    Steady handler p s' := by
  cases h with
  | ready h => cases hs
  | @waiting file s hpending hdone hfile =>
    cases i with
    | zero =>
      rw [Conn.step_opDone] at hs
      cases hs
      cases file with
      | false => exact .ready (hpending.ready hdone)
      | true => exact .sending (hfile rfl) hdone rfl rfl (.inr Nat.one_pos)
    | succ i => cases hs
  | sending hfiled hdone hclosing hops hreading =>
    rw [Conn.step, hops] at hs
    cases hs

theorem Steady.sendfileDone (h : Steady handler p s)
    (hs : s.step lim handler .sendfileDone = some s') : Steady handler p s' := by
  obtain ⟨hpos, rfl⟩ := of_enabled hs
  cases h with
  | ready h | waiting => exact absurd hpos (lt_irrefl 0)
  | sending hfiled hdone hclosing hops hreading =>
    exact .sending hfiled hdone hclosing hops (.inl rfl)

theorem Steady.reuse (h : Steady handler p s) (mem : Nat → UInt8) :
    Steady handler p { s with client := { s.client with
      mem := fun a => if Within s.live a then s.client.mem a else mem a } } := by
  cases h with
  | @ready s h =>
    have hmatch := h.write (fun a => if Within s.calm.live a then s.client.mem a else mem a)
      fun x hx => if_pos hx
    exact .ready (s := { s with client := { s.client with
      mem := fun a => if Within s.calm.live a then s.client.mem a else mem a } })
      { h with matched := hmatch, kept := fun ho => (h.kept ho).receive fun _ hx => hx }
  | @waiting file s hpending hdone hfile =>
    refine .waiting (s := { s with client := { s.client with
      mem := fun a => if Within s.calm.live a then s.client.mem a else mem a } }) ?_ hdone hfile
    revert hpending
    cases p.open? with
    | none | some a => exact id
  | sending hfiled hdone hclosing hops hreading => exact .sending hfiled hdone hclosing hops hreading

structure SameReads (s t : Conn) : Prop where
  received : t.received = s.received
  ssl : t.ssl = s.ssl

theorem SameReads.trans (h : SameReads s t) (h' : SameReads t u) : SameReads s u :=
  ⟨h'.received.trans h.received, h'.ssl.trans h.ssl⟩

theorem Conn.csilkSendResponse_sameReads (s : Conn) : SameReads s s.csilkSendResponse := by
  unfold Conn.csilkSendResponse
  split
  · exact ⟨rfl, rfl⟩
  split
  · exact ⟨rfl, rfl⟩
  · unfold Conn.csilkHandlePostResponse
    dsimp only
    split <;> exact ⟨rfl, rfl⟩

theorem Conn.onMessageComplete_sameReads (s : Conn) (handler : Nat → Handler) (method : Bytes) :
    SameReads s (s.onMessageComplete handler method) := by
  unfold Conn.onMessageComplete Conn.csilkDispatchRequest
  dsimp only
  split <;> split
  · exact ⟨rfl, rfl⟩
  · exact { Conn.csilkSendResponse_sameReads _ with }
  · exact ⟨rfl, rfl⟩
  · exact { Conn.csilkSendResponse_sameReads _ with }

theorem Conn.signals_sameReads {s t : Conn} (h : s.signals lim handler base sigs = .ok t ∨
    s.signals lim handler base sigs = .error t) : SameReads s t := by
  induction sigs generalizing s with
  | nil =>
    rcases h with h | h <;> cases h
    exact ⟨rfl, rfl⟩
  | cons sig rest ih =>
    cases sig with
    | messageComplete method => exact (s.onMessageComplete_sameReads handler method).trans (ih h)
    | callback cb =>
      rw [Conn.signals] at h
      split at h
      · rcases h with h | h <;> cases h
        exact ⟨rfl, rfl⟩
      · exact { ih h with }

theorem Conn.onRead_received (s : Conn) (lim : Limits) (handler : Nat → Handler) (r : Read) :
    (s.onRead lim handler r).received = s.received ++ [r] ∧ (s.onRead lim handler r).ssl = s.ssl := by
  unfold Conn.onRead Conn.llhttpExecute
  dsimp only
  split
  · exact ⟨rfl, rfl⟩
  · split <;> rename_i heq
    · have h := Conn.signals_sameReads (.inl heq)
      exact ⟨h.received, h.ssl⟩
    · have h := Conn.signals_sameReads (.inr heq)
      exact ⟨h.received, h.ssl⟩

structure Tracks (lim : Limits) (handler : Nat → Handler) (s : Conn) : Prop where
  plain : s.ssl = false
  steady : ∀ p, Parsed.run lim ⟨none, []⟩ (s.received.flatMap Read.marks) = some p →
    Steady handler p s

theorem Tracks.onRead {s : Conn} (h : Tracks lim handler s) {r : Read}
    (hord : Event.Orderly handler s (.read r)) (hreading : s.reading = true)
    (hap : Apart (r.base, r.bytes.length) s.registered) :
    Tracks lim handler (s.onRead lim handler r) := by
  obtain ⟨hrec, hssl⟩ := s.onRead_received lim handler r
  refine ⟨hssl.trans h.plain, fun p' hp' => ?_⟩
  rw [hrec, flatMap_append, flatMap_singleton, Parsed.run_append] at hp'
  obtain ⟨p, hp, hrun⟩ := bind_eq_some_iff.1 hp'
  cases h.steady p hp with
  | ready hr => exact hr.onRead hap hord.2 hrun
  | waiting => cases hreading
  | sending hfiled =>
    obtain ⟨i, hi, hfile⟩ := hfiled
    rw [hord.1 i hi] at hfile
    cases hfile

theorem Tracks.step {s : Conn} (h : Tracks lim handler s) {e : Event} (hord : e.Orderly handler s)
    (hs : s.step lim handler e = some s') : Tracks lim handler s' := by
  cases e with
  | read r =>
    obtain ⟨hg, rfl⟩ := of_enabled hs
    exact h.onRead hord hg.1 hg.2.2.2
  | tlsRead rs =>
    rw [Conn.step, if_neg (by rw [h.plain]; exact fun hg => Bool.false_ne_true hg.2.2.1)] at hs
    cases hs
  | opDone i =>
    have hsame : SameReads s s' := by
      rw [Conn.step] at hs
      split at hs
      · cases hs
      · cases hs
        unfold Conn.asyncComplete
        split
        · exact { Conn.csilkSendResponse_sameReads _ with }
        · exact ⟨rfl, rfl⟩
    refine ⟨hsame.ssl.trans h.plain, fun p hp => ?_⟩
    rw [hsame.received] at hp
    exact (h.steady p hp).opDone hs
  | sendfileDone =>
    have hsame : SameReads s s' := by
      obtain ⟨-, rfl⟩ := of_enabled hs
      exact ⟨rfl, rfl⟩
    refine ⟨hsame.ssl.trans h.plain, fun p hp => ?_⟩
    rw [hsame.received] at hp
    exact (h.steady p hp).sendfileDone hs
  | reuse mem =>
    cases hs
    exact ⟨h.plain, fun p hp => (h.steady p hp).reuse mem⟩

theorem Tracks.new (lim : Limits) (handler : Nat → Handler) (mem : Nat → UInt8) :
    Tracks lim handler (Conn.new false mem) := by
  refine ⟨rfl, fun p hp => ?_⟩
  cases hp
  exact .ready (s := Conn.new false mem) ⟨⟨⟨rfl, rfl, rfl⟩, rfl, rfl⟩, rfl, fun ho => absurd rfl ho⟩

def Event.completes : Event → Bool
  | .opDone _ | .sendfileDone => true
  | _ => false

theorem Steady.resumes (h : Steady handler p s) (lim : Limits) :
    ∃ es s', (keepAlive false lim handler).exec (fun _ e => e.completes = true) s es = some s' ∧
      s'.reading = true := by
  have hfile : ∀ t : Conn, 0 < t.sendfiles →
      (keepAlive false lim handler).exec (fun _ e => e.completes = true) t [.sendfileDone] =
        some t.onSendfileComplete := by
    intro t ht
    have hstep : (keepAlive false lim handler).step t .sendfileDone = some t.onSendfileComplete :=
      if_pos ht
    exact System.exec_cons rfl hstep
  cases h with
  | ready h => exact ⟨[], _, rfl, rfl⟩
  | @waiting file s hpending hdone hfiled =>
    have hstep := s.step_opDone lim handler file
    cases file with
    | false => exact ⟨[.opDone 0], _, System.exec_cons rfl hstep, rfl⟩
    | true =>
      let t : Conn := { s.calm with isAsync := true, reading := false, hasFile := true, sendfiles := 1 }
      refine ⟨[.opDone 0, .sendfileDone], t.onSendfileComplete, ?_, rfl⟩
      apply Eq.trans _ (hfile t Nat.one_pos)
      exact System.exec_cons rfl hstep
  | sending hfiled hdone hclosing hops hreading =>
    rcases hreading with hr | hpos
    · exact ⟨[], s, rfl, hr⟩
    · exact ⟨[.sendfileDone], s.onSendfileComplete, hfile s hpos, rfl⟩

theorem Steady.open (h : Steady handler p s) :
    s.dispatched.map Dispatch.data = p.done ∧ s.closing = false := by
  cases h with
  | ready h => exact ⟨h.done, rfl⟩
  | waiting _ hdone => exact ⟨hdone, rfl⟩
  | sending _ hdone hclosing => exact ⟨hdone, hclosing⟩

/-- A connection whose buffers end with a request or hold a part of one dispatches every request
once, in order. -/
theorem keepAlive_dispatches_in_order (lim : Limits) (handler : Nat → Handler) (s : Conn)
    (hr : (keepAlive false lim handler).Reachable (fun s e => e.Orderly handler s) s)
    (qs : List Sent) (hfit : ∀ q ∈ qs, q.texts.message.Fits lim)
    (hrec : s.received.flatMap Read.marks <+: qs.flatMap Sent.marks) :
    s.dispatched.map Dispatch.data = (qs.take (completed s.received)).map Sent.data ∧
      s.closing = false ∧ ∃ es s', (keepAlive false lim handler).exec
        (fun _ e => e.completes = true) s es = some s' ∧ s'.reading = true := by
  have htracks : Tracks lim handler s := hr.invariant (fun _ hi => by
      obtain ⟨mem, rfl⟩ := hi
      exact .new lim handler mem)
    fun _ _ _ h hord hs => h.step hord hs
  obtain ⟨p, hp, hdone⟩ := Parsed.run_prefix lim qs hfit hrec
  have hst := htracks.steady p hp
  exact ⟨hst.open.1.trans hdone, hst.open.2, hst.resumes lim⟩

def samplePost (body : List Bytes) : Sent where
  method := ascii "POST"
  texts :=
    { url := [ascii "/a"]
      headers := [⟨[ascii "Content-Length"], [ascii "2"], by decide⟩]
      body := body }
  target := cons_ne_nil _ _

def firstPart : Read :=
  ⟨1000, postText.take 40, (postSignals 0).take 7 ++ [.callback (.body 39 1)], none, by decide⟩

def lastPart : Read := ⟨2000, ascii "i", [.callback (.body 0 1), .messageComplete (ascii "POST")], none,
  by decide⟩

theorem keepAlive_dispatches_async_split :
    ∃ s, (keepAlive false sampleLimits fun i => ⟨i == 0, false⟩).Reachable
        (fun s e => e.Orderly (fun i => ⟨i == 0, false⟩) s) s ∧
      s.dispatched.map Dispatch.data =
        [(samplePost [ascii "hi"]).data, (samplePost [ascii "h", ascii "i"]).data] := by
  let handler : Nat → Handler := fun i => ⟨i == 0, false⟩
  obtain ⟨s, hreach, hmarks⟩ := (keepAlive false sampleLimits handler).run_map
    (p := fun s e => e.Orderly handler s) (Conn.new false fun _ => 0)
    [.read onePost, .opDone 0, .read firstPart, .read lastPart] (fun s => s.received.flatMap Read.marks)
    ([samplePost [ascii "hi"], samplePost [ascii "h", ascii "i"]].flatMap Sent.marks) ⟨_, rfl⟩
    (by decide +kernel)
  have hdone := (keepAlive_dispatches_in_order sampleLimits handler s hreach
    [samplePost [ascii "hi"], samplePost [ascii "h", ascii "i"]]
    (by
      intro q hq
      simp only [mem_cons, not_mem_nil, or_false] at hq
      rcases hq with rfl | rfl <;> exact ⟨by decide, by decide, by decide, by decide, by decide⟩)
    (hmarks ▸ prefix_rfl)).1
  rw [completed, hmarks] at hdone
  exact ⟨s, hreach, hdone⟩

/-- A request behind an asynchronous one gets the body of the first in front of its own. -/
theorem keepAlive_merges_behind_async :
    ∃ s, (keepAlive false sampleLimits fun i => ⟨i == 0, false⟩).Reachable (fun _ _ => True) s ∧
      s.received.flatMap Read.marks =
        [samplePost [ascii "hi"], samplePost [ascii "hi"]].flatMap Sent.marks ∧
      s.dispatched.map Dispatch.data ≠
        [samplePost [ascii "hi"], samplePost [ascii "hi"]].map Sent.data := by
  obtain ⟨s, hs, hpair⟩ := (keepAlive false sampleLimits fun i => ⟨i == 0, false⟩).run_map
    (p := fun _ _ => True) (Conn.new false fun _ => 0) [.read twoPosts]
    (fun s => (s.received.flatMap Read.marks, s.dispatched.map fun d => d.data.body))
    ([samplePost [ascii "hi"], samplePost [ascii "hi"]].flatMap Sent.marks,
      [ascii "hi", ascii "hihi"]) ⟨_, rfl⟩ (by decide +kernel)
  obtain ⟨hmarks, hbodies⟩ := Prod.mk.inj hpair
  refine ⟨s, hs, hmarks, fun heq => ?_⟩
  have hbody := congrArg (List.map Data.body) heq
  rw [List.map_map] at hbody
  exact absurd (hbodies.symm.trans hbody) (by decide)

end Csilk.Http1
