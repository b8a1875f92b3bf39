import Csilk.Json.Views
import Csilk.Routing.Match
import Mathlib.Data.List.Forall2

namespace Csilk.Mcp
open Csilk.Json List

structure Library where
  parse : Bytes → Option Value
  serialize : Value → Bytes

def str (s : String) : Value := .str (ascii s)

structure Msg where
  jsonrpc : Bytes
  id : Option Value
  method : Option Bytes
  params : Option Value
  result : Option Value
  error : Option Value

structure Tool where
  name : Bytes
  description : Option Bytes
  parametersJson : Option Bytes
  fn : Option (Bytes → Option Bytes)

structure Server where
  name : Bytes
  version : Bytes
  tools : List Tool

def asString : Value → Option Bytes
  | .str s => some (cString s)
  | _ => none

def csilkMcpMsgParse (lib : Library) (buf : Bytes) : Option Msg :=
  if buf = [] then none
  else (lib.parse buf).map fun root =>
    { jsonrpc := (((root.get (ascii "jsonrpc")).bind asString).getD (ascii "2.0")).take 7
      id := root.get (ascii "id")
      method := (root.get (ascii "method")).bind asString
      params := root.get (ascii "params")
      result := root.get (ascii "result")
      error := root.get (ascii "error") }

def field (key : String) (v : Option Value) : List (Bytes × Value) :=
  (v.map fun v => (ascii key, v)).toList

def Msg.toJson (m : Msg) : Value :=
  .obj ([(ascii "jsonrpc", .str (if m.jsonrpc = [] then ascii "2.0" else m.jsonrpc))] ++
    field "id" m.id ++ field "method" (m.method.map .str) ++ field "params" m.params ++
    field "result" m.result ++ field "error" m.error)

def csilkMcpMsgSerialize (lib : Library) (m : Msg) : Bytes := lib.serialize m.toJson

def csilkMcpMsgCreateError (id : Option Value) (code : Int) (message : String) : Msg :=
  ⟨ascii "2.0", id, none, none, none,
    some (.obj [(ascii "code", .int code), (ascii "message", str message)])⟩

def csilkMcpMsgCreateResponse (id : Option Value) (result : Value) : Msg :=
  ⟨ascii "2.0", id, none, none, some result, none⟩

def initializeResult (server : Server) : Value :=
  .obj [(ascii "protocolVersion", str "2024-11-05"),
    (ascii "serverInfo",
      .obj [(ascii "name", .str server.name), (ascii "version", .str server.version)]),
    (ascii "capabilities", .obj [(ascii "tools", .obj [(ascii "listChanged", .bool false)])])]

def Tool.toJson (lib : Library) (t : Tool) : Value :=
  .obj [(ascii "name", .str t.name), (ascii "description", .str (t.description.getD [])),
    (ascii "inputSchema", (t.parametersJson.bind lib.parse).getD (.obj []))]

def toolResult (res : Option Bytes) : Value :=
  .obj [(ascii "content", .arr [.obj [(ascii "type", str "text"), (ascii "text", .str (res.getD []))]]),
    (ascii "isError", .bool false)]

def handleToolsCall (lib : Library) (server : Server) (req : Msg) : Msg :=
  match req.params with
  | none => csilkMcpMsgCreateError req.id (-32602) "Missing params"
  | some params =>
    match (params.get (ascii "name")).bind asString with
    | none => csilkMcpMsgCreateError req.id (-32602) "Missing tool name"
    | some name =>
      match (server.tools.find? fun t => t.name = name).bind Tool.fn with
      | none => csilkMcpMsgCreateError req.id (-32601) "Tool not found"
      | some fn =>
        let args := ((params.get (ascii "arguments")).map lib.serialize).getD (ascii "\x7b\x7d")
        csilkMcpMsgCreateResponse req.id (toolResult (fn args))

def handleMcpRequest (lib : Library) (server : Server) (req : Msg) : Msg :=
  match req.method with
  | none => csilkMcpMsgCreateError req.id (-32600) "Invalid Request"
  | some method =>
    if method = ascii "initialize" then
      csilkMcpMsgCreateResponse req.id (initializeResult server)
    else if method = ascii "tools/list" then
      csilkMcpMsgCreateResponse req.id
        (.obj [(ascii "tools", .arr (server.tools.map (Tool.toJson lib)))])
    else if method = ascii "tools/call" then handleToolsCall lib server req
    else csilkMcpMsgCreateError req.id (-32601) "Method not implemented"

section Http

/-- The text of a path parameter, or a server if its address was put there. -/
inductive Pointer
  | text (value : Bytes)
  | server (s : Server)

/-- The body as the context borrows it; `freed` says that its memory is gone. -/
structure Reply where
  status : Int
  body : Bytes
  freed : Bool

def csilkGetParam (c : Routing.Ctx) (key : Bytes) : Option Pointer :=
  (c.params.find? fun p => p.1 = key).map fun p => .text p.2

/-- A text that is taken for a server has no defined outcome. -/
def mcpSsePostHandler (lib : Library) (param : Option Pointer) (body : Bytes) : Option Reply :=
  if param.isNone ∨ body = [] then some ⟨400, ascii "\x7b\"error\":\"Invalid request\"\x7d", false⟩
  else match csilkMcpMsgParse lib body with
  | none => some ⟨400, ascii "\x7b\"error\":\"Parse error\"\x7d", false⟩
  | some req =>
    match param with
    | some (.server s) =>
      some ⟨200, csilkMcpMsgSerialize lib (handleMcpRequest lib s req), true⟩
    | _ => none

def Reply.read (r : Reply) : Option Bytes := if r.freed then none else some r.body

/-- The handler finds `s`, and its answer to the request is still there. -/
def Answered (lib : Library) (s : Server) (param : Option Pointer) (req : Msg)
    (reply : Option Reply) : Prop :=
  param = some (.server s) ∧
    reply.bind Reply.read = some (csilkMcpMsgSerialize lib (handleMcpRequest lib s req))

/-- No request that parses is answered; the body is live only when the request is refused. -/
theorem mcpSsePostHandler_unanswered (h : csilkMcpMsgParse lib body = some req) :
    (∀ c s, ¬Answered lib s (csilkGetParam c (ascii "_mcp_server")) req
      (mcpSsePostHandler lib (csilkGetParam c (ascii "_mcp_server")) body)) ∧
      ∀ param, ((mcpSsePostHandler lib param body).bind Reply.read).isSome ↔ param = none := by
  have hbody : body ≠ [] := by
    rintro rfl
    cases h
  constructor
  · rintro c s ⟨hfound, -⟩
    obtain ⟨p, -, hp⟩ := Option.map_eq_some_iff.1 hfound
    cases hp
  · intro param
    rw [mcpSsePostHandler, h]
    cases param with
    | none => simp [Reply.read]
    | some p => cases p <;> simp [hbody, Reply.read]

def listText : Bytes := ascii "\x7b\"jsonrpc\":\"2.0\",\"id\":1,\"method\":\"tools/list\"\x7d"

def pingText : Bytes := ascii "\x7b\"jsonrpc\":\"2.0\",\"method\":\"ping\"\x7d"

def sampleLibrary : Library where
  parse text :=
    if text.filter (· ≠ 10) = listText then some (.obj [(ascii "jsonrpc", str "2.0"),
      (ascii "id", .int 1), (ascii "method", str "tools/list")])
    else if text.filter (· ≠ 10) = pingText then
      some (.obj [(ascii "jsonrpc", str "2.0"), (ascii "method", str "ping")])
    else none
  serialize _ := ascii "\x7b\x7d"

theorem mcpSsePostHandler_unanswered_list : ¬((mcpSsePostHandler sampleLibrary
    (some (.server ⟨[], [], []⟩)) listText).bind Reply.read).isSome := by
  have hparse : ∃ req, csilkMcpMsgParse sampleLibrary listText = some req := ⟨_, rfl⟩
  obtain ⟨req, hreq⟩ := hparse
  rw [(mcpSsePostHandler_unanswered hreq).2]
  simp

/-- The route has no parameter of that name; with the server at hand the body is freed. -/
theorem mcpSsePostHandler_loses :
    mcpSsePostHandler sampleLibrary (csilkGetParam ⟨[], none⟩ (ascii "_mcp_server")) listText =
        some ⟨400, ascii "\x7b\"error\":\"Invalid request\"\x7d", false⟩ ∧
      ¬Answered sampleLibrary ⟨[], [], []⟩ (some (.server ⟨[], [], []⟩))
        ⟨ascii "2.0", some (.int 1), some (ascii "tools/list"), none, none, none⟩
        (mcpSsePostHandler sampleLibrary (some (.server ⟨[], [], []⟩)) listText) := by
  refine ⟨rfl, ?_⟩
  rintro ⟨-, hread⟩
  cases hread

end Http

section Stdio

/-- What is read into `size` bytes, and the rest of the input. -/
def fgets : Nat → Bytes → Bytes × Bytes
  | size + 2, b :: input =>
    if b = 10 then ([b], input) else ((b :: (fgets (size + 1) input).1), (fgets (size + 1) input).2)
  | _, input => ([], input)

def respond (lib : Library) (server : Server) (line : Bytes) : List Value :=
  ((csilkMcpMsgParse lib line).map fun req => (handleMcpRequest lib server req).toJson).toList

/-- Every pass takes a byte, so the length of the input is enough `fuel`. -/
def serve (lib : Library) (server : Server) : Nat → Bytes → List Value
  | 0, _ => []
  | fuel + 1, input =>
    let (line, rest) := fgets 4096 input
    if line = [] then [] else respond lib server line ++ serve lib server fuel rest

def csilkMcpServerStartStdio (lib : Library) (server : Server) (input : Bytes) : Bytes :=
  (serve lib server input.length input).flatMap fun v => lib.serialize v ++ [10]

def isRequest (v : Value) : Prop :=
  v.get (ascii "jsonrpc") = some (str "2.0") ∧ ∃ m, v.get (ascii "method") = some (.str m)

def errorCode (v : Value) : Option Value := (v.get (ascii "error")).bind (·.get (ascii "code"))

/-- What JSON-RPC demands to be written for a line. -/
inductive Answers (lib : Library) (line : Bytes) : List Value → Prop
  | request (hv : lib.parse line = some v) (hreq : isRequest v) (hid : v.get (ascii "id") = some i)
      (hr : r.get (ascii "id") = some i)
      (hout : (r.get (ascii "result")).isSome ∨ (r.get (ascii "error")).isSome) : Answers lib line [r]
  | notification (hv : lib.parse line = some v) (hreq : isRequest v)
      (hid : v.get (ascii "id") = none) : Answers lib line []
  | invalid (hv : ∀ v, lib.parse line = some v → ¬isRequest v)
      (hr : errorCode r = some (.int (-32700)) ∨ errorCode r = some (.int (-32600))) :
      Answers lib line [r]

/-- The line fits the buffer and is JSON, a request with an id or without a method. -/
structure Serviceable (lib : Library) (line : Bytes) : Prop where
  ended : ∃ text, line = text ++ [10] ∧ 10 ∉ text
  fits : line.length < 4096
  json : ∃ v, lib.parse line = some v ∧
    (isRequest v ∧ (v.get (ascii "id")).isSome ∨ (v.get (ascii "method")).bind asString = none)

theorem Msg.toJson_get (m : Msg) : m.toJson.get (ascii "id") = m.id ∧
    m.toJson.get (ascii "result") = m.result ∧ m.toJson.get (ascii "error") = m.error := by
  obtain ⟨jsonrpc, id, method, params, result, error⟩ := m
  cases id <;> cases method <;> cases params <;> cases result <;> cases error <;>
    exact ⟨rfl, rfl, rfl⟩

theorem handleMcpRequest_id (lib : Library) (server : Server) (req : Msg) :
    (handleMcpRequest lib server req).id = req.id ∧ ((handleMcpRequest lib server req).result.isSome ∨
      (handleMcpRequest lib server req).error.isSome) := by
  unfold handleMcpRequest handleToolsCall
  repeat' split
  all_goals first | exact ⟨rfl, .inl rfl⟩ | exact ⟨rfl, .inr rfl⟩

theorem handleMcpRequest_invalid (h : req.method = none) : handleMcpRequest lib server req =
    csilkMcpMsgCreateError req.id (-32600) "Invalid Request" := by
  rw [handleMcpRequest, h]

theorem fgets_line (text rest : Bytes) (hno : 10 ∉ text) (hlen : text.length + 1 < size) :
    fgets size (text ++ 10 :: rest) = (text ++ [10], rest) := by
  induction text generalizing size with
  | nil =>
    obtain ⟨size, rfl⟩ := Nat.exists_eq_add_of_le' hlen
    rfl
  | cons b text ih =>
    obtain ⟨size, rfl⟩ := Nat.exists_eq_add_of_le' (show 2 ≤ size by omega)
    obtain ⟨hb, hno⟩ := not_or.1 (mt mem_cons.2 hno)
    rw [cons_append, fgets, if_neg (Ne.symm hb), ih hno (Nat.lt_of_succ_lt_succ hlen)]
    rfl

theorem Serviceable.answers (h : Serviceable lib line) (server : Server) :
    Answers lib line (respond lib server line) := by
  obtain ⟨v, hv, hkind⟩ := h.json
  obtain ⟨text, rfl, -⟩ := h.ended
  rw [respond, csilkMcpMsgParse, if_neg (by simp), hv]
  obtain ⟨hreq, hid⟩ | hmethod := hkind
  · obtain ⟨i, hi⟩ := Option.isSome_iff_exists.1 hid
    apply Answers.request hv hreq hi
    · rw [(Msg.toJson_get _).1, (handleMcpRequest_id ..).1]
      exact hi
    · rw [(Msg.toJson_get _).2.1, (Msg.toJson_get _).2.2]
      exact (handleMcpRequest_id ..).2
  · apply Answers.invalid
    · rintro v' hv' ⟨-, m, hm⟩
      cases Option.some.inj (hv.symm.trans hv')
      rw [hm] at hmethod
      cases hmethod
    · right
      rw [errorCode, (Msg.toJson_get _).2.2, handleMcpRequest_invalid hmethod]
      rfl

theorem serve_lines {lines : List Bytes} (server : Server) (h : ∀ line ∈ lines, Serviceable lib line)
    (hfuel : lines.flatten.length ≤ fuel) :
    serve lib server fuel lines.flatten = (lines.map (respond lib server)).flatten := by
  induction lines generalizing fuel with
  | nil => cases fuel <;> rfl
  | cons line lines ih =>
    obtain ⟨hline, hrest⟩ := forall_mem_cons.1 h
    obtain ⟨text, rfl, hno⟩ := hline.ended
    have hfits := hline.fits
    simp only [flatten_cons, length_append, length_singleton] at hfuel hfits ⊢
    obtain ⟨fuel, rfl⟩ := Nat.exists_eq_add_of_le' (show 1 ≤ fuel by omega)
    have hread : fgets 4096 (text ++ [10] ++ lines.flatten) = (text ++ [10], lines.flatten) := by
      rw [append_assoc]
      exact fgets_line text _ hno hfits
    rw [serve, hread]
    dsimp only
    rw [if_neg (by simp), ih hrest (by omega)]
    rfl

/-- Serviceable lines are answered one by one. -/
theorem csilkMcpServerStartStdio_answers {lines : List Bytes} (server : Server)
    (h : ∀ line ∈ lines, Serviceable lib line) :
    ∃ outs, List.Forall₂ (Answers lib) lines outs ∧
      csilkMcpServerStartStdio lib server lines.flatten =
        outs.flatten.flatMap fun v => lib.serialize v ++ [10] := by
  refine ⟨lines.map (respond lib server), ?_, ?_⟩
  · rw [forall₂_map_right_iff, forall₂_same]
    exact fun line hline => (h line hline).answers server
  · rw [csilkMcpServerStartStdio, serve_lines server h le_rfl]

theorem csilkMcpServerStartStdio_list :
    ∃ outs, List.Forall₂ (Answers sampleLibrary) [listText ++ [10]] outs ∧
      csilkMcpServerStartStdio sampleLibrary ⟨[], [], []⟩ (listText ++ [10]) =
        outs.flatten.flatMap fun v => sampleLibrary.serialize v ++ [10] := by
  have hline : ∀ line ∈ [listText ++ [10]], Serviceable sampleLibrary line := by
    intro line hline
    cases mem_singleton.1 hline
    exact ⟨⟨listText, rfl, by decide⟩, by decide, _, rfl, .inl ⟨⟨rfl, _, rfl⟩, rfl⟩⟩
  exact csilkMcpServerStartStdio_answers _ hline

def RightAnswer (line : Bytes) : Prop :=
  ∃ outs, Answers sampleLibrary line outs ∧ csilkMcpServerStartStdio sampleLibrary ⟨[], [], []⟩ line =
    outs.flatMap fun v => sampleLibrary.serialize v ++ [10]

-- Nothing is written for a line that is not JSON, and an error for a notification.
theorem csilkMcpServerStartStdio_misanswers :
    ¬RightAnswer [120, 10] ∧ ¬RightAnswer (pingText ++ [10]) := by
  constructor <;> rintro ⟨outs, hans, hout⟩
  · cases hans with
    | request | invalid => cases hout
    | notification hv => cases hv
  · cases hans with
    | request hv hreq hid =>
      cases hv
      cases hid
    | notification => cases hout
    | invalid hv => exact hv _ rfl ⟨rfl, _, rfl⟩

end Stdio

end Csilk.Mcp
