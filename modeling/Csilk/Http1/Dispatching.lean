import Csilk.Http1.Ordering

namespace Csilk.Http1
open Csilk.Headers Csilk.Lib List Option

def Begins (sigs : List Signal) : Prop := ∀ sig ∈ sigs, sig = .callback .messageBegin

instance (sigs : List Signal) : Decidable (Begins sigs) := inferInstanceAs (Decidable (∀ _ ∈ _, _))

/-- A buffer that ends with a request, where those in front of another one are answered at once and
not with a file. -/
def Tidy (handler : Nat → Handler) (freed : Option (Nat → UInt8)) : Nat → List Signal → Prop
  | _, [] => False
  | n, .callback _ :: rest => Tidy handler freed n rest
  | n, .messageComplete _ :: rest =>
    Begins rest ∨
      (handler n = ⟨false, false⟩ ∧ freed.isNone = true ∧ Tidy handler freed (n + 1) rest)

instance Tidy.decidable (handler : Nat → Handler) (freed : Option (Nat → UInt8)) :
    (n : Nat) → (sigs : List Signal) → Decidable (Tidy handler freed n sigs)
  | _, [] => inferInstanceAs (Decidable False)
  | n, .callback _ :: rest => Tidy.decidable handler freed n rest
  | n, .messageComplete _ :: rest =>
    have := Tidy.decidable handler freed (n + 1) rest
    inferInstanceAs (Decidable (_ ∨ (_ ∧ _ ∧ _)))

def Signal.isCallback : Signal → Bool
  | .callback _ => true
  | .messageComplete _ => false

/-- A buffer with a part of one request, or one that ends with a request. -/
def Read.Orderly (handler : Nat → Handler) (n : Nat) (r : Read) : Prop :=
  (∀ sig ∈ r.signals, sig.isCallback = true) ∨ Tidy handler r.freed n r.signals

/-- Buffers are of this form, and none follows a request answered with a file. -/
def Event.Orderly (handler : Nat → Handler) (s : Conn) : Event → Prop
  | .read r =>
    (∀ i < s.dispatched.length, (handler i).file = false) ∧ r.Orderly handler s.dispatched.length
  | _ => True

instance (handler : Nat → Handler) (s : Conn) (e : Event) : Decidable (e.Orderly handler s) := by
  unfold Event.Orderly Read.Orderly
  split <;> infer_instance

def Matches (c : Client) : Option Assembly → Prop
  | none => c.Idle
  | some a => c.assembly = a

theorem Client.Idle.onMessageBegin (h : Client.Idle c) : (onMessageBegin c).assembly = .start := by
  have hurl : c.currentUrl = none := h.url
  have hheaders : c.request.headers = .empty := h.headers
  have hbody : c.request.body = .none := h.body
  simp only [Http1.onMessageBegin, Client.assembly, Assembly.start, Client.bodyBytes, hurl, hheaders,
    hbody, map_none]

theorem Matches.callback {c : Client} {cb : Callback} (h : Matches c o)
    (hs : Parsed.step lim ⟨o, done⟩ (.item (cb.item c.mem)) = some p) :
    ∃ c', cb.run lim c = .ok c' ∧ Matches c' p.open? ∧ p.done = done := by
  cases o with
  | none =>
    cases cb with
    | messageBegin =>
      cases hs
      exact ⟨_, rfl, Client.Idle.onMessageBegin h, rfl⟩
    | _ => cases hs
  | some a =>
    have ha : c.assembly = a := h
    rw [← ha] at hs
    obtain ⟨b, hb, rfl⟩ := map_eq_some_iff.1 hs
    have hg := cb.run_gives lim c
    rw [hb] at hg
    cases hr : cb.run lim c with
    | error d =>
      rw [hr] at hg
      cases hg
    | ok d =>
      rw [hr] at hg
      exact ⟨d, rfl, (Option.some.inj hg.1).symm, rfl⟩

/-- A connection without TLS that has no response under way. -/
def Conn.calm (s : Conn) : Conn :=
  { s with ssl := false, chunks := [], reading := true, closing := false, isAsync := false
           hasFile := false, ops := [], sendfiles := 0 }

structure Running (s : Conn) (p : Parsed) : Prop where
  matched : Matches s.client p.open?
  query : s.client.request.queryParams = []
  done : s.dispatched.map Dispatch.data = p.done

theorem Running.callback {s : Conn} {cb : Callback} (h : Running s p)
    (hitem : (cb.shift base).item s.client.mem = cb.item (bufferMem bytes))
    (hstep : p.step lim (Signal.mark bytes (.callback cb)) = some q) :
    ∃ c, (cb.shift base).run lim s.client = .ok c ∧ Running { s with client := c } q ∧
      c.mem = s.client.mem := by
  rw [Signal.mark, ← hitem] at hstep
  obtain ⟨c, hr, hmatch, hdone⟩ := Matches.callback h.matched hstep
  have hframe := Callback.run_frame hr
  exact ⟨c, hr, ⟨hmatch, (congrArg (·.2.2) hframe).trans h.query, h.done.trans hdone.symm⟩,
    congrArg Prod.fst hframe⟩

theorem Str.len_pos_of_load {c : Client} {u : Str} (h : c.load u ≠ []) : 0 < u.len := by
  cases u with
  | view a n =>
    rw [Nat.pos_iff_ne_zero]
    rintro rfl
    exact h rfl
  | copy r bytes =>
    rw [Nat.pos_iff_ne_zero]
    intro hlen
    have hb : bytes = [] := length_eq_zero_iff.1 hlen
    subst hb
    exact h (ite_self _)

theorem finalizeRequest_data {c : Client} (hq : c.request.queryParams = [])
    (hurl : c.assembly.url.getD [] ≠ []) (method : Bytes) :
    let c' := finalizeRequest c method
    c'.currentUrl = none ∧
      (⟨c'.request.method, c'.request.path, c'.request.queryParams, c'.request.headers,
        c'.bodyBytes⟩ : Data) = c.assembly.data method := by
  intro c'
  cases hu : c.currentUrl with
  | none =>
    rw [Client.assembly, hu] at hurl
    exact absurd rfl hurl
  | some u =>
    have htext : c.assembly.url.getD [] = c.load u := by rw [Client.assembly, hu]; rfl
    rw [htext] at hurl
    obtain ⟨hbody, hmem, _⟩ := finalizeRequest_body c method
    have hp : c.persistHeader.currentUrl = some u := by
      rw [← hu]
      unfold Client.persistHeader
      cases c.currentHeaderField <;> rfl
    have hframe := c.persistHeader_frame
    have hpq : c.persistHeader.request.queryParams = [] := (congrArg (·.2.2) hframe).trans hq
    have hpm : c.persistHeader.mem = c.mem := congrArg Prod.fst hframe
    have hpr : c.persistHeader.resets = c.resets := congrArg (·.2.1) hframe
    have hheaders : c.persistHeader.request.headers = c.assembly.persist.headers := by
      rw [← c.persistHeader_assembly]
      rfl
    have hb : c'.bodyBytes = c.assembly.body := by
      show c'.bodyBytes = c.bodyBytes
      rw [Client.bodyBytes, hbody, hmem]
      rfl
    rw [hb]
    have hc' : c' = finalizeRequest c method := rfl
    unfold finalizeRequest at hc'
    simp only [hp, Str.len_pos_of_load hurl, if_true, Client.load, hpm, hpr, hpq, nil_append,
      hheaders] at hc'
    rw [hc', Assembly.data, requestData, htext]
    exact ⟨rfl, rfl⟩

/-- The connection `s` with one more request dispatched, before its response. -/
structure Dispatched (s t : Conn) (p : Parsed) : Prop where
  url : t.client.currentUrl = none
  mem : t.client.mem = s.client.mem
  done : t.dispatched.map Dispatch.data = p.done
  length : t.dispatched.length = s.dispatched.length + 1
  freed : t.freed = s.freed
  idle : p.open? = none

theorem Running.complete {s : Conn} (h : Running s p) (handler : Nat → Handler)
    (hstep : p.step lim (.complete method) = some p') :
    ∃ t, Dispatched s t p' ∧ s.calm.onMessageComplete handler method =
      if (handler s.dispatched.length).async = true then
        { t.calm with isAsync := true, reading := false
                      ops := [⟨t.requestSeq, (handler s.dispatched.length).file⟩] }
      else Conn.csilkSendResponse { t.calm with hasFile := (handler s.dispatched.length).file } := by
  obtain ⟨o, done⟩ := p
  cases o with
  | none => cases hstep
  | some a =>
    have ha : s.client.assembly = a := h.matched
    have hurl : s.client.assembly.url.getD [] ≠ [] := by
      intro he
      rw [ha] at he
      unfold Parsed.step at hstep
      dsimp only at hstep
      rw [if_pos he] at hstep
      cases hstep
    obtain ⟨hu, hdata⟩ := finalizeRequest_data h.query hurl method
    obtain ⟨_, hmem, _⟩ := finalizeRequest_body s.client method
    rw [ha] at hurl hdata
    rw [Parsed.step_complete lim a done method hurl] at hstep
    cases hstep
    let t : Conn := { s.calm with client := finalizeRequest s.client method, paused := true }
    let d : Dispatch := ⟨t.data, decide (s.calm.StrAlive s.client.currentUrl),
      decide (t.BodyAlive t.client.request.body), t.client.request.body.pooled⟩
    have hd : (s.dispatched ++ [d]).map Dispatch.data = done ++ [a.data method] := by
      rw [map_append, h.done]
      exact congrArg (fun x => done ++ [x]) hdata
    refine ⟨{ t with dispatched := s.dispatched ++ [d] }, ⟨hu, hmem, hd, length_append, rfl, rfl⟩, ?_⟩
    unfold Conn.onMessageComplete Conn.csilkDispatchRequest
    dsimp only [Conn.calm]
    cases (handler s.dispatched.length).async <;> rfl

def Pending (c : Client) : Option Assembly → Prop
  | none => c.currentUrl = none
  | some a =>
    a = .start ∧ c.currentUrl = none ∧ c.currentHeaderField = none ∧ c.currentHeaderValue = none ∧
      c.headerFieldCompleted = false ∧ c.totalHeaderSize = 0 ∧ c.headerCount = 0

theorem Pending.onMessageBegin (h : Pending c none) :
    Pending (Http1.onMessageBegin c) (some .start) := ⟨rfl, h, rfl, rfl, rfl, rfl, rfl⟩

structure Kept (s : Conn) : Prop extends s.Alive where
  field : s.StrAlive s.client.currentHeaderField
  value : s.StrAlive s.client.currentHeaderValue

structure Ready (s : Conn) (p : Parsed) : Prop extends Running s p where
  paused : s.paused = false
  kept : p.open? ≠ none → Kept s.calm

def Filed (handler : Nat → Handler) (s : Conn) : Prop :=
  ∃ i < s.dispatched.length, (handler i).file = true

/-- Between events, when the calls lead to `p`: the connection reads, waits for an asynchronous
handler, or a file is or was sent. -/
inductive Steady (handler : Nat → Handler) (p : Parsed) : Conn → Prop
  | ready (h : Ready s p) : Steady handler p s.calm
  | waiting (hpending : Pending s.client p.open?) (hdone : s.dispatched.map Dispatch.data = p.done)
      (hfile : file = true → Filed handler s) :
    Steady handler p
      { s.calm with isAsync := true, reading := false, ops := [⟨s.requestSeq, file⟩] }
  | sending (hfiled : Filed handler s) (hdone : s.dispatched.map Dispatch.data = p.done)
      (hclosing : s.closing = false) (hops : s.ops = [])
      (hreading : s.reading = true ∨ 0 < s.sendfiles) : Steady handler p s

theorem Kept.start {s : Conn} (h : s.client.assembly = .start) : Kept s := by
  have hurl : s.client.currentUrl = none := map_eq_none_iff.1 (congrArg Assembly.url h)
  have hfield : s.client.currentHeaderField = none :=
    map_eq_none_iff.1 (congrArg Assembly.field h)
  have hvalue : s.client.currentHeaderValue = none :=
    map_eq_none_iff.1 (congrArg Assembly.value h)
  have hbody : s.client.bodyBytes = [] := congrArg Assembly.body h
  have hlen : s.client.request.body.len = 0 := by rw [← bodyBytes_length, hbody]; rfl
  refine ⟨⟨hurl ▸ trivial, ?_⟩, hfield ▸ trivial, hvalue ▸ trivial⟩
  cases hb : s.client.request.body with
  | none => exact .inl trivial
  | borrowed a n =>
    rw [hb] at hlen
    exact .inl fun i hi => absurd hi (by rw [show n = 0 from hlen]; exact Nat.not_lt_zero i)
  | pool bytes capacity => exact .inr rfl

theorem Pending.cleanup {s : Conn} (h : Pending s.client o) :
    Matches s.csilkCtxCleanup.client o ∧ s.csilkCtxCleanup.client.request.queryParams = [] := by
  refine ⟨?_, rfl⟩
  cases o with
  | none => exact ⟨h, rfl, rfl⟩
  | some a =>
    obtain ⟨rfl, hurl, hfield, hvalue, hcompleted, hsize, hcount⟩ := h
    simp only [Matches, Conn.csilkCtxCleanup, Client.assembly, Assembly.start, Client.bodyBytes, hurl,
      hfield, hvalue, hcompleted, hsize, hcount, map_none]

theorem Pending.ready {s : Conn} (h : Pending s.client p.open?)
    (hdone : s.dispatched.map Dispatch.data = p.done) :
    Ready { s.calm.csilkCtxCleanup with paused := false } p := by
  obtain ⟨hmatch, hquery⟩ := Pending.cleanup (s := s.calm) h
  refine ⟨⟨hmatch, hquery, hdone⟩, rfl, fun ho => ?_⟩
  cases hopen : p.open? with
  | none => exact absurd hopen ho
  | some a =>
    rw [hopen] at h hmatch
    obtain ⟨rfl, _⟩ := h
    exact Kept.start hmatch

theorem Dispatched.pending (h : Dispatched s t p) : Pending t.client p.open? := by
  rw [h.idle]
  exact h.url

theorem Begins.run_start (hb : Begins sigs) (bytes : Bytes) (done : List Data) :
    Parsed.run lim ⟨some .start, done⟩ (sigs.map (Signal.mark bytes)) = some ⟨some .start, done⟩ := by
  induction sigs with
  | nil => rfl
  | cons sig sigs ih =>
    obtain ⟨rfl, hbs⟩ := forall_mem_cons.1 hb
    exact ih hbs

theorem Begins.signals_begun (hb : Begins sigs) (s : Conn) :
    Conn.signals lim handler base { s with client := onMessageBegin s.client } sigs =
      .ok { s with client := onMessageBegin s.client } := by
  induction sigs with
  | nil => rfl
  | cons sig sigs ih =>
    obtain ⟨rfl, hbs⟩ := forall_mem_cons.1 hb
    exact ih hbs

theorem Steady.begin (h : Steady handler ⟨none, ds⟩ s) :
    Steady handler ⟨some .start, ds⟩ { s with client := onMessageBegin s.client } := by
  cases h with
  | @ready s h =>
    have hstart := Client.Idle.onMessageBegin h.matched
    exact .ready (s := { s with client := onMessageBegin s.client }) ⟨⟨hstart, h.query, h.done⟩, h.paused, fun _ => Kept.start hstart⟩
  | @waiting _ s hpending hdone hfile =>
    exact .waiting (s := { s with client := onMessageBegin s.client }) hpending.onMessageBegin hdone
      hfile
  | sending hfiled hdone hclosing hops hreading => exact .sending hfiled hdone hclosing hops hreading

theorem Steady.begins (h : Steady handler ⟨none, ds⟩ s) (hb : Begins sigs)
    (hrun : Parsed.run lim ⟨none, ds⟩ (sigs.map (Signal.mark bytes)) = some p) :
    ∃ t, s.signals lim handler base sigs = .ok t ∧ Steady handler p t := by
  cases sigs with
  | nil =>
    cases hrun
    exact ⟨s, rfl, h⟩
  | cons sig sigs =>
    obtain ⟨rfl, hbs⟩ := forall_mem_cons.1 hb
    have hp : Parsed.run lim ⟨some .start, ds⟩ (sigs.map (Signal.mark bytes)) = some p := hrun
    rw [Begins.run_start hbs] at hp
    cases hp
    exact ⟨_, Begins.signals_begun hbs s, h.begin⟩

theorem Running.complete_sync {s : Conn} (h : Running s p)
    (hn : handler s.dispatched.length = ⟨false, false⟩)
    (hstep : p.step lim (.complete method) = some p') :
    ∃ t, s.calm.onMessageComplete handler method = t.calm ∧ Ready t p' ∧
      t.dispatched.length = s.dispatched.length + 1 ∧ t.freed = s.freed ∧
      (s.freed = none → t.client.mem = s.client.mem) := by
  obtain ⟨t, ht, heq⟩ := h.complete handler hstep
  rw [hn] at heq
  refine ⟨{ t.calm.csilkCtxCleanup with paused := false }, heq, ht.pending.ready ht.done, ht.length, ht.freed, fun hfreed => ?_⟩
  have htf : t.freed = none := ht.freed.trans hfreed
  simp only [Conn.calm, htf]
  exact ht.mem

theorem Running.complete_steady {s : Conn} (h : Running s p)
    (hstep : p.step lim (.complete method) = some p') :
    Steady handler p' (s.calm.onMessageComplete handler method) := by
  obtain ⟨t, ht, heq⟩ := h.complete handler hstep
  have hfiled : (handler s.dispatched.length).file = true → Filed handler t := fun hf =>
    ⟨s.dispatched.length, by rw [ht.length]; exact Nat.lt_succ_self _, hf⟩
  rw [heq]
  split
  · exact .waiting ht.pending ht.done hfiled
  · cases hf : (handler s.dispatched.length).file with
    | false => exact .ready (ht.pending.ready ht.done)
    | true => exact .sending (hfiled hf) ht.done rfl rfl (.inl rfl)

def Loaded (mem : Nat → UInt8) (base : Nat) (bytes : Bytes) : Prop :=
  ∀ i < bytes.length, mem (base + i) = bytes.getD i 0

theorem Loaded.readMem (h : Loaded mem base bytes) (hle : a + n ≤ bytes.length) :
    readMem mem (base + a) n = Http1.readMem (bufferMem bytes) a n := by
  apply map_congr_left
  intro i hi
  rw [add_assoc]
  exact h (a + i) (by have := mem_range.1 hi; omega)

theorem Loaded.item {cb : Callback} (h : Loaded mem base bytes) (hf : cb.Fits bytes.length) :
    (cb.shift base).item mem = cb.item (bufferMem bytes) := by
  cases cb with
  | url a n => exact congrArg Item.url (h.readMem hf)
  | headerField a n => exact congrArg Item.headerField (h.readMem hf)
  | headerValue a n => exact congrArg Item.headerValue (h.readMem hf)
  | body a n => exact congrArg Item.body (h.readMem hf)
  | messageBegin | headerFieldComplete | headerValueComplete | headersComplete => rfl

theorem Running.tidy (sigs : List Signal) {s : Conn} (h : Running s p)
    (ht : Tidy handler s.freed s.dispatched.length sigs) (hload : Loaded s.client.mem base bytes)
    (hfit : ∀ sig ∈ sigs, sig.Fits bytes.length)
    (hrun : p.run lim (sigs.map (Signal.mark bytes)) = some p') :
    ∃ t, s.calm.signals lim handler base sigs = .ok t ∧ Steady handler p' t := by
  induction sigs generalizing s p with
  | nil => exact absurd ht id
  | cons sig rest ih =>
    obtain ⟨hsig, hfits⟩ := forall_mem_cons.1 hfit
    obtain ⟨q, hq, hrest⟩ := bind_eq_some_iff.1 hrun
    cases sig with
    | callback cb =>
      obtain ⟨c, hr, hc, hmem⟩ := h.callback (hload.item hsig) hq
      rw [Conn.signals, show (cb.shift base).run lim s.calm.client = .ok c from hr]
      exact ih hc ht (by rw [hmem]; exact hload) hfits hrest
    | messageComplete method =>
      rw [Conn.signals]
      rcases ht with hb | ⟨hsync, hkeep, ht⟩
      · have hidle : q = ⟨none, q.done⟩ := by
          obtain ⟨t, ht, _⟩ := h.complete handler hq
          rw [← ht.idle]
        rw [hidle] at hq hrest
        exact (h.complete_steady hq).begins hb hrest
      · obtain ⟨t, heq, hready, hlen, hfreed, hmem⟩ := h.complete_sync hsync hq
        rw [heq]
        refine ih hready.toRunning ?_ ?_ hfits hrest
        · rw [hlen, hfreed]
          exact ht
        · rw [hmem (isNone_iff_eq_none.1 hkeep)]
          exact hload

end Csilk.Http1
