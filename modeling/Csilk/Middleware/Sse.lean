import Csilk.Bytes

namespace Csilk.Sse
open List

/-- `wire` has the bytes written to the client, and `sent` the calls that wrote them. -/
structure Stream where
  hasClient : Bool
  isSse : Bool
  ending : Bool
  writeHighWaterMark : Nat
  writePaused : Bool
  wire : Bytes
  sent : List (Option Bytes × Option Bytes)

/-- The size of the write queue before and after, and whether the allocations and the write succeed.
-/
structure Surrounding where
  queued : Nat
  queuedAfter : Nat
  ok : Bool

def snprintf (size : Nat) (text : Bytes) : Bytes := text.take (size - 1)

def sseFrame (event data : Option Bytes) : Bytes :=
  let bufSize := (event.getD []).length + (data.getD []).length + 32
  let buf := event.elim [] fun event => snprintf bufSize (ascii "event: " ++ (event ++ [10]))
  let buf := buf ++ data.elim [] fun data =>
    snprintf (bufSize - buf.length) (ascii "data: " ++ (data ++ [10]))
  buf ++ snprintf (bufSize - buf.length) [10]

def Stream.full (s : Stream) (queued : Nat) : Bool :=
  0 < s.writeHighWaterMark && s.writeHighWaterMark ≤ queued

def csilkSseSend (s : Stream) (env : Surrounding) (event data : Option Bytes) : Stream × Int :=
  if !s.hasClient || !s.isSse then (s, -1)
  else if s.ending then (s, -1)
  else if s.full env.queued then ({ s with writePaused := true }, 0)
  else if !env.ok then (s, -1)
  else
    let s := { s with
      wire := s.wire ++ sseFrame event data
      sent := s.sent ++ [(event, data)] }
    if s.full env.queuedAfter then ({ s with writePaused := true }, 0) else (s, 1)

/-- An `EventSource`: its line, whether the byte before was a CR, its buffers, and the events
dispatched. -/
structure Parser where
  line : Bytes
  cr : Bool
  event : Bytes
  data : Bytes
  dispatched : List (Bytes × Bytes)

def Parser.dispatch (p : Parser) : Parser :=
  let data := if p.data.getLast? = some 10 then p.data.dropLast else p.data
  { p with
    event := []
    data := []
    dispatched := p.dispatched ++ if p.data = [] then [] else
      [(if p.event = [] then ascii "message" else p.event, data)] }

def Parser.field (p : Parser) (name value : Bytes) : Parser :=
  if name = ascii "event" then { p with event := value }
  else if name = ascii "data" then { p with data := p.data ++ value ++ [10] }
  else p

def Parser.endLine (p : Parser) : Parser :=
  let value := (p.line.dropWhile (· ≠ 58)).drop 1
  let p' := { p with line := [] }
  if p.line = [] then p'.dispatch
  else if p.line.head? = some 58 then p'
  else p'.field (p.line.takeWhile (· ≠ 58)) (if value.head? = some 32 then value.drop 1 else value)

def Parser.feed (p : Parser) (b : UInt8) : Parser :=
  if b = 10 then if p.cr then { p with cr := false } else p.endLine
  else if b = 13 then { p.endLine with cr := true }
  else { p with line := p.line ++ [b], cr := false }

/-- The events of a stream, whose first bytes may be a byte order mark. -/
def eventSource (stream : Bytes) : List (Bytes × Bytes) :=
  let stream := if [0xEF, 0xBB, 0xBF] <+: stream then stream.drop 3 else stream
  (stream.foldl Parser.feed ⟨[], false, [], [], []⟩).dispatched

structure Call where
  env : Surrounding
  event : Option Bytes
  data : Bytes

def Call.run (s : Stream) (c : Call) : Stream := (csilkSseSend s c.env c.event (some c.data)).1

def expected (sent : Option Bytes × Option Bytes) : Bytes × Bytes :=
  (sent.1.getD (ascii "message"), sent.2.getD [])

structure Call.Valid (c : Call) : Prop where
  event : ∀ e ∈ c.event, e ≠ [] ∧ 0 ∉ e ∧ 10 ∉ e ∧ 13 ∉ e
  data : 0 ∉ c.data ∧ 13 ∉ c.data ∧ ¬ [10, 10] <:+: c.data

theorem snprintf_eq (h : text.length < size) : snprintf size text = text :=
  take_of_length_le (Nat.le_sub_one_of_lt h)

theorem sseFrame_eq (event : Option Bytes) (data : Bytes) : sseFrame event (some data) =
    (event.elim [] fun e => ascii "event: " ++ e ++ [10]) ++ (ascii "data: " ++ data ++ [10]) ++ [10] := by
  have hevent : (ascii "event: ").length = 7 := rfl
  have hdata : (ascii "data: ").length = 6 := rfl
  cases event with
  | none =>
    simp only [sseFrame, Option.elim_some]
    rw [snprintf_eq, snprintf_eq]
    all_goals simp [hdata]
    all_goals omega
  | some e =>
    simp only [sseFrame, Option.elim_some, Option.getD_some]
    rw [snprintf_eq, snprintf_eq, snprintf_eq]
    all_goals simp [hdata, hevent]
    all_goals omega

theorem feed_line (h : 10 ∉ l ∧ 13 ∉ l) (line event data : Bytes) (out : List (Bytes × Bytes)) :
    (l ++ [10]).foldl Parser.feed ⟨line, false, event, data, out⟩ =
      Parser.endLine ⟨line ++ l, false, event, data, out⟩ := by
  induction l generalizing line with
  | nil => rw [append_nil]; rfl
  | cons b l ih =>
    simp only [mem_cons, not_or] at h
    have hfeed : Parser.feed ⟨line, false, event, data, out⟩ b =
        ⟨line ++ [b], false, event, data, out⟩ := by
      rw [Parser.feed, if_neg (Ne.symm h.1.1), if_neg (Ne.symm h.2.1)]
    rw [cons_append, foldl_cons, hfeed, ih ⟨h.1.2, h.2.2⟩, append_assoc, singleton_append]

theorem feed_event (h : 10 ∉ e ∧ 13 ∉ e) (out : List (Bytes × Bytes)) :
    (ascii "event: " ++ e ++ [10]).foldl Parser.feed ⟨[], false, [], [], out⟩ =
      ⟨[], false, e, [], out⟩ := by
  apply feed_line
  simp only [mem_append, h]
  decide

theorem feed_data (h : 10 ∉ d ∧ 13 ∉ d) (e : Bytes) (out : List (Bytes × Bytes)) :
    (ascii "data: " ++ d ++ [10]).foldl Parser.feed ⟨[], false, e, [], out⟩ =
      ⟨[], false, e, d ++ [10], out⟩ := by
  apply feed_line
  simp only [mem_append, h]
  decide

variable {c : Call}

theorem feed_frame (hc : c.Valid) (hline : 10 ∉ c.data) (out : List (Bytes × Bytes)) :
    (sseFrame c.event (some c.data)).foldl Parser.feed ⟨[], false, [], [], out⟩ =
      ⟨[], false, [], [], out ++ [expected (c.event, some c.data)]⟩ := by
  have hend (event data : Bytes) : [10].foldl Parser.feed ⟨[], false, event, data ++ [10], out⟩ =
      ⟨[], false, [], [], out ++ [(if event = [] then ascii "message" else event, data)]⟩ := by
    show Parser.dispatch _ = _
    simp [Parser.dispatch]
  have hdata := feed_data ⟨hline, hc.data.2.1⟩
  rw [sseFrame_eq, foldl_append, foldl_append]
  cases hevent : c.event with
  | none =>
    rw [Option.elim_none, foldl_nil, hdata, hend]
    rfl
  | some e =>
    obtain ⟨hne, -, hlf, hcr⟩ := hc.event e hevent
    rw [Option.elim_some, feed_event ⟨hlf, hcr⟩, hdata, hend, if_neg hne]
    rfl

theorem head_sseFrame (event : Option Bytes) (data rest : Bytes) :
    (sseFrame event (some data) ++ rest).head? ≠ some 0xEF := by
  cases event with
  | none => exact fun h => absurd (Option.some.inj h) (by decide)
  | some e => exact fun h => absurd (Option.some.inj h) (by decide)

structure Inv (s : Stream) : Prop where
  parsed : s.wire.foldl Parser.feed ⟨[], false, [], [], []⟩ =
    ⟨[], false, [], [], s.sent.map expected⟩
  unmarked : s.wire.head? ≠ some 0xEF

theorem Inv.run (h : Inv s) (hc : c.Valid) (hline : 10 ∉ c.data) : Inv (c.run s) := by
  have hsent : Inv { s with
      wire := s.wire ++ sseFrame c.event (some c.data)
      sent := s.sent ++ [(c.event, some c.data)] } := by
    constructor
    · rw [foldl_append, h.parsed, feed_frame hc hline, map_append, map_singleton]
    · cases hwire : s.wire with
      | nil => simpa using head_sseFrame c.event c.data []
      | cons b wire =>
        have hhead := h.unmarked
        rw [hwire] at hhead
        exact hhead
  rw [Call.run, csilkSseSend]
  split
  · exact h
  split
  · exact h
  split
  · exact { h with }
  split
  · exact h
  · dsimp only
    split
    · exact { hsent with }
    · exact hsent

theorem Inv.events (h : Inv s) : eventSource s.wire = s.sent.map expected := by
  have hmark : ¬ [0xEF, 0xBB, 0xBF] <+: s.wire := by
    intro hmark
    obtain ⟨rest, hrest⟩ := hmark
    exact h.unmarked (hrest ▸ rfl)
  rw [eventSource, if_neg hmark, h.parsed]

def Stream.opened (highWaterMark : Nat) : Stream := ⟨true, true, false, highWaterMark, false, [], []⟩

/-- With data of one line each, an `EventSource` dispatches just the events sent. -/
theorem csilkSseSend_dispatched (mark : Nat) (calls : List Call) (hvalid : ∀ c ∈ calls, c.Valid)
    (hline : ∀ c ∈ calls, 10 ∉ c.data) : eventSource (calls.foldl Call.run (.opened mark)).wire =
      (calls.foldl Call.run (.opened mark)).sent.map expected := by
  have hstart : Inv (.opened mark) := ⟨rfl, by simp [Stream.opened]⟩
  generalize Stream.opened mark = s at hstart ⊢
  induction calls generalizing s with
  | nil => exact hstart.events
  | cons c calls ih =>
    apply ih (fun d hd => hvalid d (mem_cons_of_mem c hd)) fun d hd => hline d (mem_cons_of_mem c hd)
    exact hstart.run (hvalid c mem_cons_self) (hline c mem_cons_self)

def calm : Surrounding := ⟨0, 0, true⟩

theorem csilkSseSend_dispatched_two : eventSource
    ([⟨calm, none, ascii "a"⟩, ⟨calm, some (ascii "e"), []⟩].foldl Call.run (.opened 0)).wire =
      [(ascii "message", ascii "a"), (ascii "e", [])] := by
  apply csilkSseSend_dispatched 0 [⟨calm, none, ascii "a"⟩, ⟨calm, some (ascii "e"), []⟩]
  · exact forall_mem_cons.2 ⟨⟨by decide, by decide⟩, forall_mem_singleton.2 ⟨by decide, by decide⟩⟩
  · exact forall_mem_cons.2 ⟨by decide, forall_mem_singleton.2 (by decide)⟩

/-- Of two lines only the first is in a `data` field. -/
theorem csilkSseSend_cut : Call.Valid ⟨calm, none, ascii "a\nb"⟩ ∧
    (Call.run (.opened 0) ⟨calm, none, ascii "a\nb"⟩).sent = [(none, some (ascii "a\nb"))] ∧
    eventSource (Call.run (.opened 0) ⟨calm, none, ascii "a\nb"⟩).wire =
      [(ascii "message", ascii "a")] :=
  ⟨⟨by decide, by decide⟩, rfl, rfl⟩

end Csilk.Sse
