import Csilk.Bytes

namespace Csilk.Ai.React
open List

inductive Role
  | system
  | user
  | assistant
  | tool
  deriving DecidableEq

structure ToolCall where
  id : Bytes
  name : Bytes
  arguments : Bytes

structure Message where
  role : Option Role
  content : Bytes
  toolCalls : List ToolCall
  toolCallId : Option Bytes

/-- A tool call of a response, whose strings may be NULL. -/
structure RawCall where
  id : Option Bytes
  name : Option Bytes
  arguments : Option Bytes

structure ChatResponse where
  content : Option Bytes
  toolCalls : List RawCall

/-- What `csilk_ai_chat`, the tools and `realloc` do. The messages before tell the calls of each
apart; there may be no registry of tools. -/
structure Env where
  chat : List Message → Option ChatResponse
  dispatch : Option (List Message → Bytes → Bytes → Option Bytes)
  realloc : List Message → Bool

/-- `requests` has the messages of each request, `overrun` a write beyond `msg_capacity`. -/
structure Loop where
  msgs : List Message
  msgCapacity : Nat
  requests : List (List Message)
  overrun : Bool

def Loop.push (s : Loop) (m : Message) : Loop :=
  { s with
    msgs := s.msgs ++ [m]
    overrun := s.overrun || decide (s.msgCapacity ≤ s.msgs.length) }

def Loop.reserve (env : Env) (s : Loop) (nCalls : Nat) : Option Loop :=
  if s.msgCapacity ≤ s.msgs.length + nCalls + 2 then
    if env.realloc s.msgs then some { s with msgCapacity := s.msgCapacity * 2 + nCalls } else none
  else some s

def RawCall.copy (c : RawCall) : ToolCall :=
  ⟨c.id.getD [], c.name.getD [], c.arguments.getD (ascii "\x7b\x7d")⟩

def observation (env : Env) (msgs : List Message) (c : ToolCall) : Message :=
  ⟨some .tool, (env.dispatch.bind fun dispatch => dispatch msgs c.name c.arguments).getD
    (ascii "\x7b\"error\":\"tool dispatch failed\"\x7d"), [], some c.id⟩

def Loop.observe (env : Env) (s : Loop) (c : ToolCall) : Loop := s.push (observation env s.msgs c)

def Loop.handle (env : Env) (s : Loop) (res : ChatResponse) : Loop :=
  let calls := res.toolCalls.map RawCall.copy
  calls.foldl (Loop.observe env) (s.push ⟨some .assistant, res.content.getD [], calls, none⟩)

/-- The final text, none with the result -1. -/
def turns (env : Env) : Nat → Loop → Option Bytes × Loop
  | 0, s => (none, s)
  | n + 1, s =>
    let s' := { s with requests := s.requests ++ [s.msgs] }
    match env.chat s.msgs with
    | none => (none, s')
    | some res =>
      if res.toolCalls.length = 0 then (some (res.content.getD []), s')
      else
        match s'.reserve env res.toolCalls.length with
        | none => (none, s')
        | some s'' => turns env n (s''.handle env res)

def maxTurns (maxIterations : Int) : Nat := if 0 < maxIterations then maxIterations.toNat else 10

def opening (systemPrompt : Option Bytes) (userPrompt : Bytes) : Loop :=
  let s : Loop := ⟨[], 32, [], false⟩
  let s' := match systemPrompt with
    | some (b :: bs) => s.push ⟨some .system, b :: bs, [], none⟩
    | _ => s
  s'.push ⟨some .user, userPrompt, [], none⟩

def csilkAiReactExecuteLoop (env : Env) (systemPrompt : Option Bytes) (userPrompt : Bytes)
    (maxIterations : Int) : Option Bytes × Loop :=
  turns env (maxTurns maxIterations) (opening systemPrompt userPrompt)

/-- Behind an assistant's message come the tool messages for its calls, one each and in order, and
none stands elsewhere. -/
inductive Paired : List Message → Prop
  | nil : Paired []
  | plain (hrole : m.role ≠ some .tool) (hcalls : m.toolCalls = []) (h : Paired ms) : Paired (m :: ms)
  | exchange (hrole : m.role = some .assistant)
      (htools : tools.map (fun t => (t.role, t.toolCallId)) =
        m.toolCalls.map fun c => (some .tool, some c.id))
      (h : Paired ms) : Paired (m :: (tools ++ ms))

theorem Paired.append (h : Paired ms) (h' : Paired ms') : Paired (ms ++ ms') := by
  induction h with
  | nil => exact h'
  | plain hrole hcalls _ ih => exact .plain hrole hcalls ih
  | exchange hrole htools _ ih =>
    rw [cons_append, append_assoc]
    exact .exchange hrole htools ih

structure Ok (s : Loop) : Prop where
  paired : Paired s.msgs
  sent : ∀ req ∈ s.requests, Paired req
  room : s.msgs.length < s.msgCapacity
  inside : s.overrun = false

theorem opening_ok (systemPrompt : Option Bytes) (userPrompt : Bytes) :
    Ok (opening systemPrompt userPrompt) ∧ (opening systemPrompt userPrompt).requests = [] := by
  have hlast : Paired [⟨some .user, userPrompt, [], none⟩] := .plain (by rintro ⟨⟩) rfl .nil
  have hnone : ∀ req ∈ ([] : List (List Message)), Paired req := by rintro _ ⟨⟩
  unfold opening
  split
  · exact ⟨⟨.plain (by rintro ⟨⟩) rfl hlast, hnone, (by decide : 2 < 32), rfl⟩, rfl⟩
  · exact ⟨⟨hlast, hnone, (by decide : 1 < 32), rfl⟩, rfl⟩

theorem push_eq {s : Loop} (hin : s.overrun = false) (hroom : s.msgs.length < s.msgCapacity) (m : Message) :
    s.push m = { s with msgs := s.msgs ++ [m] } := by
  rw [Loop.push, hin, decide_eq_false (Nat.not_le_of_lt hroom)]
  rfl

theorem foldl_observe (env : Env) (calls : List ToolCall) (s : Loop) (hin : s.overrun = false)
    (hroom : s.msgs.length + calls.length ≤ s.msgCapacity) :
    ∃ tools, calls.foldl (Loop.observe env) s = { s with msgs := s.msgs ++ tools } ∧
      tools.map (fun t => (t.role, t.toolCallId)) = calls.map fun c => (some .tool, some c.id) := by
  induction calls generalizing s with
  | nil => exact ⟨[], by simp, rfl⟩
  | cons c calls ih =>
    rw [length_cons] at hroom
    rw [foldl_cons, Loop.observe, push_eq hin (by omega)]
    obtain ⟨tools, htools, hmap⟩ := ih { s with msgs := s.msgs ++ [observation env s.msgs c] } hin
      (by dsimp only; rw [length_append, length_singleton]; omega)
    refine ⟨observation env s.msgs c :: tools, ?_, ?_⟩
    · rw [htools, append_assoc, singleton_append]
    · rw [map_cons, hmap]
      rfl

theorem Ok.handle (h : Ok s) (env : Env) (res : ChatResponse)
    (hroom : s.msgs.length + 1 + res.toolCalls.length < s.msgCapacity) :
    Ok (s.handle env res) ∧ (s.handle env res).requests = s.requests := by
  rw [Loop.handle, push_eq h.inside (by omega)]
  obtain ⟨tools, htools, hmap⟩ := foldl_observe env (res.toolCalls.map RawCall.copy)
    { s with msgs := s.msgs ++ [⟨some .assistant, res.content.getD [], _, none⟩] } h.inside
    (by simpa using hroom.le)
  have hlen := congrArg length hmap
  simp only [length_map] at hlen
  rw [htools]
  refine ⟨⟨?_, h.sent, by simp; omega, h.inside⟩, rfl⟩
  have hlast := Paired.exchange (m := ⟨some .assistant, res.content.getD [], _, none⟩) rfl hmap .nil
  rw [append_nil] at hlast
  rw [append_assoc]
  exact h.paired.append hlast

theorem Ok.reserve (h : Ok s) (hs : s.reserve env n = some s') :
    Ok s' ∧ s'.msgs.length + 1 + n < s'.msgCapacity ∧ s'.requests = s.requests := by
  have hroom := h.room
  unfold Loop.reserve at hs
  split at hs
  · split at hs
    · cases hs
      exact ⟨{ h with room := by dsimp only; omega }, by dsimp only; omega, rfl⟩
    · cases hs
  · cases hs
    exact ⟨h, by omega, rfl⟩

theorem turns_ok (env : Env) (n : Nat) (h : Ok s) :
    Ok (turns env n s).2 ∧ (turns env n s).2.requests.length ≤ s.requests.length + n := by
  induction n generalizing s with
  | zero => exact ⟨h, Nat.le_refl _⟩
  | succ n ih =>
    have hsent : Ok { s with requests := s.requests ++ [s.msgs] } := by
      refine { h with sent := ?_ }
      intro req hreq
      rcases mem_append.1 hreq with hreq | hreq
      · exact h.sent req hreq
      · rw [mem_singleton.1 hreq]
        exact h.paired
    have hone : (s.requests ++ [s.msgs]).length ≤ s.requests.length + (n + 1) := by
      rw [length_append, length_singleton]
      omega
    unfold turns
    dsimp only
    split
    · exact ⟨hsent, hone⟩
    · split
      · exact ⟨hsent, hone⟩
      · split
        · exact ⟨hsent, hone⟩
        · rename_i hs
          obtain ⟨hok, hroom, hreq⟩ := hsent.reserve hs
          obtain ⟨hok', hreq'⟩ := hok.handle env _ hroom
          obtain ⟨hlast, hle⟩ := ih hok'
          rw [hreq', hreq, length_append, length_singleton] at hle
          exact ⟨hlast, by omega⟩

/-- Requests stay well-formed, whatever the model and the tools do. -/
theorem csilkAiReactExecuteLoop_paired (env : Env) (systemPrompt : Option Bytes)
    (userPrompt : Bytes) (maxIterations : Int) :
    let s := (csilkAiReactExecuteLoop env systemPrompt userPrompt maxIterations).2
    (∀ req ∈ s.requests, Paired req) ∧ s.requests.length ≤ maxTurns maxIterations ∧
      s.overrun = false := by
  obtain ⟨hopen, hnone⟩ := opening_ok systemPrompt userPrompt
  obtain ⟨hok, hle⟩ := turns_ok env (maxTurns maxIterations) hopen
  rw [hnone, length_nil, Nat.zero_add] at hle
  exact ⟨hok.sent, hle, hok.inside⟩

end Csilk.Ai.React
