import Csilk.Ai.React

namespace Csilk.Ai.React
open List

/-- `pushed` has the messages made, `freed` those whose strings were freed; `crashed` says that
`strcmp` got a NULL role. -/
structure Node extends Loop where
  pushed : List Message
  freed : List Message
  crashed : Bool

def Node.push (s : Node) (m : Message) : Node :=
  { s with toLoop := s.toLoop.push m, pushed := s.pushed ++ [m] }

def Node.discard (s : Node) (maxHistory start : Nat) : Node :=
  let count := s.msgs.length - maxHistory
  { s with
    msgs := s.msgs.take start ++ s.msgs.drop (start + count)
    freed := s.freed ++ (s.msgs.drop start).take count }

def Node.trim (s : Node) (maxHistory : Nat) : Node :=
  if 0 < maxHistory ∧ maxHistory < s.msgs.length then
    match s.msgs.head?.bind Message.role with
    | none => { s with crashed := true }
    | some role => s.discard maxHistory (if role = .system then 1 else 0)
  else s

/-- A result is stored without a role. -/
def Node.observe (tool : List Message → RawCall → Option Bytes) (s : Node) (c : RawCall) : Node :=
  s.push ⟨none, (tool s.msgs c).getD (ascii "\x7b\x7d"), [], some (c.id.getD [])⟩

def Node.handle (tool : List Message → RawCall → Option Bytes) (s : Node) (res : ChatResponse) : Node :=
  let n := res.toolCalls.length
  let grown := if s.msgCapacity ≤ s.msgs.length + n + 1 then s.msgCapacity + (n + 16) else s.msgCapacity
  let s : Node := { s with msgCapacity := grown }
  res.toolCalls.foldl (Node.observe tool)
    (s.push ⟨some .assistant, res.content.getD [], res.toolCalls.map RawCall.copy, none⟩)

section

variable (chat : List Message → Option ChatResponse) (tool : List Message → RawCall → Option Bytes)

def Node.turns (maxHistory : Nat) : Nat → Node → Option Bytes × Node
  | 0, s => (none, s)
  | n + 1, s =>
    let s := s.trim maxHistory
    if s.crashed then (none, s)
    else
      let s' := { s with requests := s.requests ++ [s.msgs] }
      match chat s.msgs with
      | none => (none, s')
      | some res =>
        if 0 < res.toolCalls.length then Node.turns maxHistory n (s'.handle tool res)
        else (res.content, s')

def Node.opening (systemMsg : Option Bytes) (prompt : Bytes) : Node :=
  let s : Node := ⟨⟨[], 32, [], false⟩, [], [], false⟩
  (systemMsg.elim s fun m => s.push ⟨some .system, m, [], none⟩).push ⟨some .user, prompt, [], none⟩

def aiNodeHandler (systemMsg : Option Bytes) (prompt : Bytes) (maxHistory : Nat) :
    Option Bytes × Node :=
  let r := Node.turns chat tool maxHistory 10 (.opening systemMsg prompt)
  (r.1, { r.2 with freed := r.2.freed ++ r.2.msgs })

/-- A result follows the assistant's message with its call, and not only the system's message is
there. -/
structure WellFormed (req : List Message) : Prop where
  role : ∀ m ∈ req, m.role.isSome
  result : ∀ before m after id, req = before ++ m :: after → m.toolCallId = some id →
    m.role = some .tool ∧
      ∃ a ∈ before, a.role = some .assistant ∧ ∃ c ∈ a.toolCalls, c.id = id
  present : ∃ m ∈ req, m.role ≠ some .system

theorem opening_trim (hmax : maxHistory ≠ 1 ∨ systemMsg = none) (prompt : Bytes) :
    (Node.opening systemMsg prompt).trim maxHistory = .opening systemMsg prompt := by
  apply if_neg
  rintro ⟨hpos, hlt⟩
  cases systemMsg with
  | none => exact absurd hlt (Nat.not_lt.2 hpos)
  | some m =>
    have hlt : maxHistory < 2 := hlt
    rcases hmax with hmax | hmax
    · omega
    · cases hmax

theorem opening_wellFormed (systemMsg : Option Bytes) (prompt : Bytes) :
    WellFormed (Node.opening systemMsg prompt).msgs := by
  have hset : ∀ m ∈ (Node.opening systemMsg prompt).msgs, m.role.isSome ∧ m.toolCallId = none := by
    cases systemMsg <;> simp [Node.opening, Node.push, Loop.push]
  constructor
  · exact fun m hm => (hset m hm).1
  · intro before m after id heq hid
    have hnone := (hset m (heq ▸ mem_append_right _ mem_cons_self)).2
    cases hid.symm.trans hnone
  · refine ⟨⟨some .user, prompt, [], none⟩, ?_, by simp⟩
    cases systemMsg <;> simp [Node.opening, Node.push, Loop.push]

def Node.Fine (s : Node) : Prop :=
  (∀ req ∈ s.requests, WellFormed req) ∧ s.overrun = false ∧ s.crashed = false ∧ s.freed = s.pushed

variable {chat} (hmax : maxHistory ≠ 1 ∨ systemMsg = none)
  (hplain : ∀ res, chat (Node.opening systemMsg prompt).msgs = some res → res.toolCalls = [])
include hmax hplain

theorem turns_plain (n : Nat) :
    (Node.turns chat tool maxHistory (n + 1) (.opening systemMsg prompt)).2 =
      { Node.opening systemMsg prompt with requests := [(Node.opening systemMsg prompt).msgs] } := by
  have hopen : (Node.opening systemMsg prompt).crashed = false ∧
      (Node.opening systemMsg prompt).requests = [] := by
    cases systemMsg <;> exact ⟨rfl, rfl⟩
  rw [Node.turns, opening_trim hmax, if_neg (by rw [hopen.1]; decide), hopen.2]
  cases hchat : chat (Node.opening systemMsg prompt).msgs with
  | none => rfl
  | some res =>
    dsimp only
    rw [hplain res hchat]
    rfl

end

end Csilk.Ai.React
