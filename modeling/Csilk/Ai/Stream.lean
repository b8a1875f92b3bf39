import Csilk.Json.Ints

namespace Csilk.Ai
open Json Json.Ints List Function

inductive Field
  | id
  | name
  | arguments
  deriving DecidableEq

inductive Kind
  | content
  | reasoning
  deriving DecidableEq

/-- An access to `res->tool_calls[idx]`, and the count and block size then. -/
structure Access where
  idx : Nat
  count : Nat
  capacity : Nat
  deriving DecidableEq

/-- `supply` says which allocations succeed, `allocs` how many were made; `calls` records callbacks.
-/
structure Response where
  text : Kind → Option Bytes
  toolCalls : Nat → Field → Option Bytes
  count : Nat
  capacity : Nat
  promptTokens : Int
  completionTokens : Int
  totalTokens : Int
  supply : Nat → Bool
  allocs : Nat
  calls : List (Kind × Bytes)
  accesses : List Access

/-- `yyjson_read` and the cast of a double, and which callbacks the request has. -/
structure Request where
  read : Bytes → Option Value
  toInt64 : UInt64 → Int
  callback : Kind → Bool

def Request.intValue (req : Request) (v : Value) : Int := csilkJsonIntValue req.toInt64 (.immutable v)

/-- The text that `realloc`, or `strdup` for none, leaves behind. -/
def Response.join (r : Response) (old : Option Bytes) (text : Bytes) : Option Bytes :=
  if r.supply r.allocs then some (old.getD [] ++ text) else old

def Request.tokens (req : Request) (usage : Value) (key : String) (old : Int) : Int :=
  (usage.get (ascii key)).elim old fun v => (req.intValue v).bmod (2 ^ 32)

def Request.usage (req : Request) (root : Value) (r : Response) : Response :=
  match root.get (ascii "usage") with
  | none | some .null => r
  | some usage =>
    { r with
      promptTokens := req.tokens usage "prompt_tokens" r.promptTokens
      completionTokens := req.tokens usage "completion_tokens" r.completionTokens
      totalTokens := req.tokens usage "total_tokens" r.totalTokens }

def Request.chunk (req : Request) (kind : Kind) (v : Option Value) (r : Response) : Response :=
  match v with
  | some (.str s) =>
    if cString s = [] then r
    else
      { r with
        text := update r.text kind (r.join (r.text kind) (cString s))
        allocs := r.allocs + 1
        calls := if req.callback kind then r.calls ++ [(kind, cString s)] else r.calls }
  | _ => r

def Request.contentDelta (req : Request) (delta : Value) (r : Response) : Response :=
  req.chunk .content (delta.get (ascii "content")) r

def Request.reasoningDelta (req : Request) (delta : Value) (r : Response) : Response :=
  req.chunk .reasoning
    ((delta.get (ascii "reasoning_content")).or (delta.get (ascii "reasoning"))) r

def toolCallSize : Nat := 24

def Request.index (req : Request) (tc : Value) (r : Response) : Nat :=
  match tc.get (ascii "index") with
  | some v => (req.intValue v % 2 ^ 64).toNat
  | none => r.count - 1

/-- `none` where the loop continues with the next call. -/
def Response.expand (r : Response) (idx : Nat) : Option Response :=
  if idx < r.count then some r
  else if r.supply r.allocs then
    let count := (idx + 1) % 2 ^ 64
    some { r with
      toolCalls := fun k => if r.count ≤ k ∧ k < count then fun _ => none else r.toolCalls k
      count := count
      capacity := count * toolCallSize % 2 ^ 64
      allocs := r.allocs + 1 }
  else none

def Response.capture (idx : Nat) (v : Option Value) (f : Field) (r : Response) : Response :=
  match v with
  | some (.str s) =>
    if f = .arguments ∧ cString s = [] then r
    else
      { r with
        toolCalls := update r.toolCalls idx
          (update (r.toolCalls idx) f (r.join (r.toolCalls idx f) (cString s)))
        allocs := r.allocs + 1
        accesses := r.accesses ++ [⟨idx, r.count, r.capacity⟩] }
  | _ => r

def Request.toolCall (req : Request) (r : Response) (tc : Value) : Response :=
  let idx := req.index tc r
  match r.expand idx with
  | none => { r with allocs := r.allocs + 1 }
  | some r =>
    let r := r.capture idx (tc.get (ascii "id")) .id
    match tc.get (ascii "function") with
    | none => r
    | some func =>
      (r.capture idx (func.get (ascii "name")) .name).capture idx (func.get (ascii "arguments")) .arguments

def delta (root : Value) : Option Value :=
  match root.get (ascii "choices") with
  | some (.arr (first :: _)) => first.get (ascii "delta")
  | _ => none

def toolCallsOf (delta : Value) : List Value :=
  match delta.get (ascii "tool_calls") with
  | some (.arr tcs) => tcs
  | _ => []

def Request.parse (req : Request) (line : Bytes) : Option Value :=
  let line := line.dropWhile fun b => b = 32 || b = 9
  if (ascii "data:").isPrefixOf line then
    let data := line.drop 5
    let data := if data.head? = some 32 then data.tail else data
    if data = ascii "[DONE]" then none else req.read data
  else none

def Request.processStreamLine (req : Request) (r : Response) (line : Bytes) : Response :=
  match req.parse line with
  | none => r
  | some root =>
    let r := req.usage root r
    match delta root with
    | none => r
    | some delta =>
      (toolCallsOf delta).foldl req.toolCall (req.reasoningDelta delta (req.contentDelta delta r))

def stripCr (line : Bytes) : Bytes := if line.getLast? = some 13 then line.dropLast else line

/-- The loop of `write_cb`: `line` is what stands between `line_start` and the rest. -/
def Request.drain (req : Request) (r : Response) (line : Bytes) : Bytes → Response × Bytes
  | [] => (r, line)
  | b :: bs =>
    if b = 10 then req.drain (req.processStreamLine r (stripCr line)) [] bs
    -- `strchr` stops at a NUL
    else if b = 0 then (r, line ++ b :: bs)
    else req.drain r (line ++ [b]) bs

/-- `write_cb` of a streamed reply: the response, and the bytes of `line_buf`. -/
def Request.writeCb (req : Request) (s : Response × Bytes) (contents : Bytes) : Response × Bytes :=
  req.drain s.1 [] (s.2 ++ contents)

def IsPart (line : Bytes) : Prop := 0 ∉ line ∧ 10 ∉ line

theorem IsPart.nil : IsPart [] := ⟨not_mem_nil, not_mem_nil⟩

theorem Request.drain_append (req : Request) (h : 0 ∉ xs) (ys : Bytes) :
    req.drain r line (xs ++ ys) = req.drain (req.drain r line xs).1 (req.drain r line xs).2 ys := by
  induction xs generalizing r line with
  | nil => rfl
  | cons b xs ih =>
    obtain ⟨hb, h⟩ := not_or.1 (mt mem_cons.2 h)
    rw [cons_append, drain, drain]
    split
    · exact ih h
    · rw [if_neg (Ne.symm hb), if_neg (Ne.symm hb)]
      exact ih h

theorem Request.drain_part (req : Request) (h : IsPart xs) :
    req.drain r line xs = (r, line ++ xs) := by
  induction xs generalizing line with
  | nil => rw [drain, append_nil]
  | cons b xs ih =>
    obtain ⟨h0, h10⟩ := h
    rw [drain, if_neg (ne_of_mem_of_not_mem mem_cons_self h10),
      if_neg (ne_of_mem_of_not_mem mem_cons_self h0), ih, append_assoc]
    · rfl
    · exact ⟨fun hm => h0 (mem_cons_of_mem _ hm), fun hm => h10 (mem_cons_of_mem _ hm)⟩

theorem Request.part_of_drain (req : Request) (h : 0 ∉ xs) (hline : IsPart line) :
    IsPart (req.drain r line xs).2 := by
  induction xs generalizing r line with
  | nil => exact hline
  | cons b xs ih =>
    obtain ⟨hb, h⟩ := not_or.1 (mt mem_cons.2 h)
    rw [drain]
    split
    · exact ih h .nil
    · rename_i hne
      rw [if_neg (Ne.symm hb)]
      apply ih h
      simp [IsPart, hline.1, hline.2, hb, Ne.symm hne]

theorem Request.writeCb_append (req : Request) (h : 0 ∉ xs) (hs : IsPart s.2) (ys : Bytes) :
    IsPart (req.writeCb s xs).2 ∧ req.writeCb (req.writeCb s xs) ys = req.writeCb s (xs ++ ys) := by
  have hxs : 0 ∉ s.2 ++ xs := fun hm => (mem_append.1 hm).elim hs.1 h
  have hpart := req.part_of_drain (r := s.1) hxs .nil
  refine ⟨hpart, ?_⟩
  rw [writeCb, writeCb, writeCb, ← append_assoc, req.drain_append hxs, req.drain_append hpart.1,
    req.drain_part hpart, nil_append]

/-- The response does not depend on how a stream without NUL is cut. -/
theorem writeCb_chunks (req : Request) (r : Response) (chunks : List Bytes)
    (h : ∀ chunk ∈ chunks, 0 ∉ chunk) :
    chunks.foldl req.writeCb (r, []) = req.writeCb (r, []) chunks.flatten := by
  suffices hgen : ∀ s, IsPart s.2 → chunks.foldl req.writeCb s = req.writeCb s chunks.flatten from
    hgen _ .nil
  induction chunks with
  | nil =>
    intro s hs
    rw [flatten_nil, Request.writeCb, append_nil, req.drain_part hs]
    rfl
  | cons chunk chunks ih =>
    intro s hs
    obtain ⟨hchunk, h⟩ := forall_mem_cons.1 h
    obtain ⟨hpart, happend⟩ := req.writeCb_append hchunk hs chunks.flatten
    rw [foldl_cons, ih h _ hpart, happend, flatten_cons]

def Response.empty : Response where
  text _ := none
  toolCalls _ _ := none
  count := 0
  capacity := 0
  promptTokens := 0
  completionTokens := 0
  totalTokens := 0
  supply _ := true
  allocs := 0
  calls := []
  accesses := []

def replies (delta : Value) : Request where
  read data := if data = ascii "1" then
      some (.obj [(ascii "choices", .arr [.obj [(ascii "delta", delta)]])])
    else none
  toInt64 _ := 0
  callback _ := true

theorem writeCb_chunks_crlf :
    let req := replies (.obj [(ascii "content", .str (ascii "hi"))])
    ([ascii "da", ascii "ta: 1\r", ascii "\n"].foldl req.writeCb (.empty, [])).1.calls =
        [(.content, ascii "hi")] ∧
      [ascii "da", ascii "ta: 1\r", ascii "\n"].foldl req.writeCb (.empty, []) =
        req.writeCb (.empty, []) (ascii "data: 1\r\n") := by
  refine ⟨by decide +kernel, writeCb_chunks _ _ _ ?_⟩
  simp [ascii]

/-- The accesses so far were in bounds, and the block holds the counted elements. -/
structure InBounds (r : Response) : Prop where
  block : r.count * toolCallSize ≤ r.capacity
  accesses : ∀ a ∈ r.accesses, a.idx < a.count ∧ a.count * toolCallSize ≤ a.capacity

theorem InBounds.capture (h : InBounds r) (hidx : idx < r.count) (v : Option Value) (f : Field) :
    InBounds (r.capture idx v f) ∧ (r.capture idx v f).count = r.count := by
  unfold Response.capture
  split
  · split
    · exact ⟨h, rfl⟩
    · refine ⟨⟨h.block, ?_⟩, rfl⟩
      exact forall_mem_append.2 ⟨h.accesses, forall_mem_singleton.2 ⟨hidx, h.block⟩⟩
  · exact ⟨h, rfl⟩

theorem InBounds.expand (h : InBounds r) (hidx : idx < r.count ∨ idx < 2 ^ 31)
    (hs : r.expand idx = some r') : InBounds r' ∧ idx < r'.count := by
  rw [Response.expand] at hs
  split_ifs at hs with hlt
  · cases hs
    exact ⟨h, hlt⟩
  · cases hs
    refine ⟨⟨?_, h.accesses⟩, ?_⟩
    · dsimp only [toolCallSize]
      omega
    · dsimp only
      omega

def Request.indices (req : Request) (line : Bytes) : List Int :=
  (((req.parse line).bind delta).elim [] toolCallsOf).filterMap fun tc =>
    (tc.get (ascii "index")).map req.intValue

theorem InBounds.toolCall (h : InBounds r) (req : Request) (hsmall : ∀ v,
      tc.get (ascii "index") = some v → 0 ≤ req.intValue v ∧ req.intValue v < 2 ^ 31) :
    InBounds (req.toolCall r tc) := by
  have hidx : req.index tc r < r.count ∨ req.index tc r < 2 ^ 31 := by
    rw [Request.index]
    split
    · rename_i v hv
      have hv := hsmall v hv
      omega
    · omega
  rw [Request.toolCall]
  split
  · exact { h with }
  · rename_i r' hs
    obtain ⟨h, hlt⟩ := h.expand hidx hs
    obtain ⟨hid, hcount⟩ := h.capture hlt (tc.get (ascii "id")) .id
    split
    · exact hid
    · rename_i func _
      obtain ⟨hname, hcount'⟩ := hid.capture (hcount ▸ hlt) (func.get (ascii "name")) .name
      exact (hname.capture (hcount' ▸ hcount ▸ hlt) _ _).1

theorem InBounds.chunk (h : InBounds r) (req : Request) (kind : Kind) (v : Option Value) :
    InBounds (req.chunk kind v r) := by
  unfold Request.chunk
  split
  · split <;> exact { h with }
  · exact h

theorem InBounds.processStreamLine (h : InBounds r) (req : Request)
    (hsmall : ∀ i ∈ req.indices line, 0 ≤ i ∧ i < 2 ^ 31) :
    InBounds (req.processStreamLine r line) := by
  rw [Request.processStreamLine]
  split
  · exact h
  · rename_i root hroot
    have husage : InBounds (req.usage root r) := by
      rw [Request.usage]
      split <;> exact { h with }
    split
    · exact husage
    · rename_i d hd
      refine foldlRecOn _ _ ((husage.chunk req _ _).chunk req _ _) ?_
      intro r h tc htc
      apply h.toolCall req
      intro v hv
      apply hsmall
      rw [Request.indices, hroot, Option.bind_some, hd]
      exact mem_filterMap.2 ⟨tc, htc, by rw [hv]; rfl⟩

/-- With every index below 2^31, whichever allocations fail. -/
theorem processStreamLine_inBounds (req : Request) (supply : Nat → Bool) (lines : List Bytes)
    (hsmall : ∀ line ∈ lines, ∀ i ∈ req.indices line, 0 ≤ i ∧ i < 2 ^ 31) :
    InBounds (lines.foldl req.processStreamLine { Response.empty with supply := supply }) := by
  refine foldlRecOn _ _ ⟨Nat.le_refl 0, by simp [Response.empty]⟩ ?_
  exact fun r h line hline => h.processStreamLine req (hsmall line hline)

def called (index : Int) : Request := replies (.obj [(ascii "tool_calls",
  .arr [.obj [(ascii "index", .int index), (ascii "id", .str (ascii "a"))]])])

theorem processStreamLine_inBounds_three : (called 3).indices (ascii "data: 1") = [3] ∧
    InBounds ([ascii "data: 1", ascii "data: 1"].foldl (called 3).processStreamLine
      { Response.empty with supply := fun n => n = 1 }) := by
  refine ⟨by decide +kernel, processStreamLine_inBounds _ _ _ ?_⟩
  decide +kernel

/-- `index + 1` is zero, and so are the count and the size of the block. -/
theorem processStreamLine_wraps :
    ((called (-1)).processStreamLine .empty (ascii "data: 1")).accesses = [⟨2 ^ 64 - 1, 0, 0⟩] := by
  decide +kernel

end Csilk.Ai
