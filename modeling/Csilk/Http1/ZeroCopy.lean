import Csilk.Http1.Views

namespace Csilk.Http1
open Csilk.Headers Csilk.Lib List

/-- Behind the end of a request no URL or body follows in the same buffer. -/
def Separate : List Signal → Prop
  | [] => True
  | .callback _ :: rest => Separate rest
  | .messageComplete _ :: rest => ∀ sig ∈ rest, sig.brings = false

instance Separate.decidable : (sigs : List Signal) → Decidable (Separate sigs)
  | [] => inferInstanceAs (Decidable True)
  | .callback _ :: rest => Separate.decidable rest
  | .messageComplete _ :: rest => inferInstanceAs (Decidable (∀ sig ∈ rest, _))

def Event.Separate : Event → Prop
  | .read r => Http1.Separate r.signals
  | .tlsRead rs => ∀ r ∈ rs, Http1.Separate r.signals
  | _ => True

instance : (e : Event) → Decidable e.Separate
  | .read r => Separate.decidable r.signals
  | .tlsRead rs => inferInstanceAs (Decidable (∀ r ∈ rs, _))
  | .opDone _ | .sendfileDone | .reuse _ => inferInstanceAs (Decidable True)

def Dispatch.Safe (d : Dispatch) : Prop :=
  d.urlAlive = true ∧ (d.bodyAlive = true ∨ d.bodyPooled = true)

/-- The connection during an `llhttp_execute`, with handlers that reply at once. -/
structure Conn.Executing (s : Conn) : Prop where
  alive : s.Alive
  safe : ∀ d ∈ s.dispatched, d.Safe
  sync : s.isAsync = false
  ops : s.ops = []
  files : 0 < s.sendfiles → s.paused = true ∧ s.hasFile = true ∧ s.ssl = false

structure Conn.Settled (s : Conn) : Prop where
  alive : s.paused = true ∨ s.closing = true ∨ s.Alive
  safe : ∀ d ∈ s.dispatched, d.Safe
  sync : s.isAsync = false
  ops : s.ops = []
  files : 0 < s.sendfiles → s.paused = true

theorem Conn.Executing.settled (h : Conn.Executing s) : s.Settled :=
  ⟨.inr (.inr h.alive), h.safe, h.sync, h.ops, fun hf => (h.files hf).1⟩

theorem Callback.shift_brings (base : Nat) (cb : Callback) :
    (Signal.callback (cb.shift base)).brings = (Signal.callback cb).brings := by
  cases cb <;> rfl

section

variable {s : Conn}

theorem Conn.csilkCtxCleanup_alive (h : Blank s.client.currentUrl) :
    s.csilkCtxCleanup.Alive := ⟨.blank h _, .inl trivial⟩

theorem Conn.Executing.sendResponse (h : s.Executing) (hu : Blank s.client.currentUrl)
    (hp : s.paused = true) : s.csilkSendResponse.Executing := by
  unfold Conn.csilkSendResponse
  split
  · exact h
  split
  · rename_i hfile
    simp only [Bool.and_eq_true, Bool.not_eq_true'] at hfile
    exact ⟨⟨h.alive.url, h.alive.body⟩, h.safe, h.sync, h.ops, fun _ => ⟨hp, hfile⟩⟩
  · rename_i hfile
    have hnone : ¬0 < s.sendfiles := by
      intro hf
      obtain ⟨_, hs, hssl⟩ := h.files hf
      simp [hs, hssl] at hfile
    have hclean := Conn.csilkCtxCleanup_alive hu
    unfold Conn.csilkHandlePostResponse
    dsimp only
    split
    · exact ⟨hclean, h.safe, rfl, h.ops, fun hf => absurd hf hnone⟩
    · exact ⟨⟨hclean.url, hclean.body⟩, h.safe, rfl, h.ops, fun hf => absurd hf hnone⟩

theorem Conn.Executing.dispatch (h : s.Executing) (hsync : ∀ i, (handler i).async = false)
    (hu : Blank s.client.currentUrl) (hp : s.paused = true) (hurl : urlAlive = true) :
    (s.csilkDispatchRequest handler urlAlive).Executing := by
  unfold Conn.csilkDispatchRequest
  simp only [hsync, h.sync]
  refine Conn.Executing.sendResponse ⟨⟨h.alive.url, h.alive.body⟩, ?_, rfl, h.ops, ?_⟩ hu hp
  · exact forall_mem_append.2 ⟨h.safe, forall_mem_singleton.2 ⟨hurl, h.alive.body.imp
      decide_eq_true id⟩⟩
  · intro hf
    obtain ⟨hpa, hfile, hssl⟩ := h.files hf
    exact ⟨hpa, by simp [hfile], hssl⟩

theorem Conn.Executing.messageComplete (h : s.Executing)
    (hsync : ∀ i, (handler i).async = false) :
    (s.onMessageComplete handler method).Executing := by
  obtain ⟨hb, _, hres⟩ := finalizeRequest_body s.client method
  have hbody := h.alive.body.mono
    (t := { s with client := finalizeRequest s.client method, paused := true }) fun _ hx => hx
  rw [← hb] at hbody
  have hu := finalizeRequest_url s.client method
  have hex : Conn.Executing { s with client := finalizeRequest s.client method, paused := true } :=
    ⟨⟨.blank hu _, hbody⟩, h.safe, h.sync, h.ops, fun hf => ⟨rfl, (h.files hf).2⟩⟩
  exact hex.dispatch hsync hu rfl (decide_eq_true h.alive.url)

end

def Leaves (r : Except Conn Conn) : Prop :=
  match r with
  | .ok s => s.Executing
  | .error s => Conn.Settled { s with closing := true }

theorem Conn.Executing.error {s : Conn} (h : s.Executing) : Leaves (.error { s with client := c }) :=
  ⟨.inr (.inl rfl), h.safe, h.sync, h.ops, fun hf => (h.files hf).1⟩

theorem Conn.signals_tail (lim : Limits) (hsync : ∀ i, (handler i).async = false) (base : Nat)
    (sigs : List Signal) (hn : ∀ sig ∈ sigs, sig.brings = false) {s : Conn} (h : s.Executing) :
    Leaves (s.signals lim handler base sigs) := by
  induction sigs generalizing s with
  | nil => exact h
  | cons sig rest ih =>
    obtain ⟨hsig, hrest⟩ := forall_mem_cons.1 hn
    cases sig with
    | messageComplete method => exact ih hrest (h.messageComplete hsync)
    | callback cb =>
      rw [Conn.signals]
      split
      · exact h.error
      · rename_i c hr
        rw [← Callback.shift_brings base] at hsig
        have halive := h.alive.callback hr fun hb => absurd (hsig.symm.trans hb) Bool.false_ne_true
        exact ih hrest { h with alive := halive }

theorem Conn.signals_separate (lim : Limits) (hsync : ∀ i, (handler i).async = false)
    (sigs : List Signal) (hsep : Separate sigs) (hfit : ∀ sig ∈ sigs, sig.Fits len) {s : Conn}
    (h : s.Executing) (hb : s.Holds base len) : Leaves (s.signals lim handler base sigs) := by
  induction sigs generalizing s with
  | nil => exact h
  | cons sig rest ih =>
    obtain ⟨hsig, hrest⟩ := forall_mem_cons.1 hfit
    cases sig with
    | messageComplete method =>
      exact Conn.signals_tail lim hsync base rest hsep (h.messageComplete hsync)
    | callback cb =>
      rw [Conn.signals]
      split
      · exact h.error
      · rename_i c hr
        have halive := h.alive.callback hr fun _ => Callback.shift_holds hb hsig
        exact ih hsep hrest { h with alive := halive } hb

theorem Conn.Settled.execute {s : Conn} (h : s.Settled) (hc : s.closing = false)
    (hsync : ∀ i, (handler i).async = false) {r : Read} (hsep : Separate r.signals)
    (hb : s.Holds r.base r.bytes.length) : (s.llhttpExecute lim handler r).Settled := by
  unfold Conn.llhttpExecute
  split
  · exact h
  · rename_i hp
    have halive : s.Alive := by
      rcases h.alive with h | h | h
      · exact absurd h hp
      · rw [hc] at h
        cases h
      · exact h
    have hl := Conn.signals_separate lim hsync r.signals hsep r.fits
      ⟨halive, h.safe, h.sync, h.ops, fun hf => absurd (h.files hf) hp⟩ hb
    split
    · rename_i heq
      rw [heq] at hl
      exact Conn.Executing.settled hl
    · rename_i heq
      rw [heq] at hl
      exact hl

theorem Conn.Settled.receive {s : Conn} (h : s.Settled)
    (hlive : ∀ x, Within s.live x → Within (bs ++ cs) x) :
    Conn.Settled { s with
      client := { s.client with mem := mem }
      registered := bs, chunks := cs, freed := junk, received := rs } :=
  { h with alive := h.alive.imp_right (Or.imp_right fun ha =>
      ⟨ha.url.mono hlive rfl, ha.body.mono hlive⟩) }

theorem Within.live_registered {s : Conn} (h : Within s.live a) (b : Buffer) :
    Within (s.registered ++ [b] ++ s.chunks) a := by
  obtain ⟨x, hx, hin⟩ := h
  rcases mem_append.1 hx with hx | hx
  · exact Within.append_left (Within.append_left ⟨x, hx, hin⟩)
  · exact Within.append_right ⟨x, hx, hin⟩

section

variable {s : Conn} {handler : Nat → Handler} (h : s.Settled) (hc : s.closing = false)
  (hsync : ∀ i, (handler i).async = false)
include h hc hsync

theorem Conn.Settled.onRead {r : Read} (hsep : Http1.Separate r.signals) :
    (s.onRead lim handler r).Settled := by
  refine Conn.Settled.execute ?_ ?_ hsync hsep ?_
  · exact h.receive fun _ hx => hx.live_registered _
  · exact hc
  · intro i hi
    exact Within.append_left (Within.append_right
      ⟨_, mem_singleton_self _, Nat.le_add_right _ _, Nat.add_lt_add_left hi _⟩)

theorem Conn.Settled.processTlsRead (rs : List Read)
    (hsep : ∀ r ∈ rs, Http1.Separate r.signals) (hlen : ∀ r ∈ rs, r.bytes.length ≤ 4096) :
    (s.processTlsRead lim handler rs).Settled := by
  induction rs generalizing s with
  | nil => exact h
  | cons r rs ih =>
    obtain ⟨hr, hsep⟩ := forall_mem_cons.1 hsep
    obtain ⟨hrlen, hlen⟩ := forall_mem_cons.1 hlen
    have hnext : Conn.Settled (Conn.llhttpExecute { s.receive r with
        chunks := (s.receive r).chunks ++ [(r.base, 4096)] } lim handler r) := by
      refine Conn.Settled.execute ?_ ?_ hsync hr ?_
      · refine h.receive fun x hx => ?_
        rw [← append_assoc]
        exact Within.append_left hx
      · exact hc
      · intro i hi
        exact Within.append_right (Within.append_right
          ⟨_, mem_singleton_self _, Nat.le_add_right _ _,
            Nat.add_lt_add_left (lt_of_lt_of_le hi hrlen) _⟩)
    rw [Conn.processTlsRead]
    split
    · exact hnext
    · rename_i hopen
      exact ih hnext (Bool.eq_false_of_not_eq_true hopen) hsep hlen

end

theorem Conn.Settled.step {s : Conn} (h : s.Settled) (hsync : ∀ i, (handler i).async = false)
    {e : Event} (hsep : e.Separate) (hs : s.step lim handler e = some s') : s'.Settled := by
  cases e with
  | read r =>
    obtain ⟨hg, rfl⟩ := of_enabled hs
    exact h.onRead hg.2.1 hsync hsep
  | tlsRead rs =>
    obtain ⟨hg, rfl⟩ := of_enabled hs
    exact h.processTlsRead hg.2.1 hsync rs hsep hg.2.2.2
  | opDone i =>
    rw [Conn.step, h.ops] at hs
    cases hs
  | sendfileDone =>
    obtain ⟨hf, rfl⟩ := of_enabled hs
    exact ⟨.inl (h.files hf), h.safe, rfl, h.ops, fun _ => h.files hf⟩
  | reuse mem =>
    cases hs
    exact h.receive fun _ hx => hx

theorem Conn.Settled.new (ssl : Bool) (mem : Nat → UInt8) : (Conn.new ssl mem).Settled where
  alive := .inr (.inr ⟨trivial, .inl trivial⟩)
  safe := (by rintro _ ⟨⟩)
  sync := rfl
  ops := rfl
  files := fun hf => absurd hf (lt_irrefl 0)

/-- With handlers that reply at once, and no URL or body behind the end of a request, every
dispatched request holds its memory. -/
theorem keepAlive_zeroCopy_alive (ssl : Bool) (lim : Limits) (handler : Nat → Handler)
    (hsync : ∀ i, (handler i).async = false) (s : Conn)
    (hr : (keepAlive ssl lim handler).Reachable (fun _ e => e.Separate) s) :
    ∀ d ∈ s.dispatched, d.urlAlive = true ∧ (d.bodyAlive = true ∨ d.bodyPooled = true) := by
  have hinv : s.Settled := hr.invariant (fun _ hi => by
      obtain ⟨mem, rfl⟩ := hi
      exact .new ssl mem)
    fun _ _ _ h hsep hs => h.step hsync hsep hs
  exact hinv.safe

theorem keepAlive_zeroCopy_alive_two :
    ∃ s, (keepAlive false sampleLimits fun _ => ⟨false, false⟩).Reachable
        (fun _ e => e.Separate) s ∧ s.dispatched.length = 2 ∧
      ∀ d ∈ s.dispatched, d.urlAlive = true ∧ (d.bodyAlive = true ∨ d.bodyPooled = true) := by
  obtain ⟨s, hreach, hlen⟩ := (keepAlive false sampleLimits fun _ => ⟨false, false⟩).run_map
    (p := fun _ e => e.Separate) (Conn.new false fun _ => 0) [.read onePost, .read onePost]
    (fun s => s.dispatched.length) 2 ⟨_, rfl⟩ (by decide +kernel)
  exact ⟨s, hreach, hlen, keepAlive_zeroCopy_alive false sampleLimits (fun _ => ⟨false, false⟩)
    (fun _ => rfl) s hreach⟩

/-- The cleanup after the first request gives the buffer back under the second. -/
theorem keepAlive_zeroCopy_released :
    ∃ s, (keepAlive false sampleLimits fun _ => ⟨false, false⟩).Reachable (fun _ _ => True) s ∧
      ∃ d ∈ s.dispatched, d.urlAlive = false ∧ d.bodyAlive = false ∧ d.bodyPooled = false := by
  obtain ⟨s, hs, hany⟩ := (keepAlive false sampleLimits fun _ => ⟨false, false⟩).run_map
    (p := fun _ _ => True) (Conn.new false fun _ => 0) [.read twoPosts]
    (fun s => s.dispatched.any fun d => !d.urlAlive && !d.bodyAlive && !d.bodyPooled) true ⟨_, rfl⟩
    (by decide +kernel)
  obtain ⟨d, hd, hbad⟩ := List.any_eq_true.1 hany
  simp only [Bool.and_eq_true, Bool.not_eq_true', and_assoc] at hbad
  exact ⟨s, hs, d, hd, hbad⟩

end Csilk.Http1
