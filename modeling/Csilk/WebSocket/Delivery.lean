import Csilk.Lib.Framing
import Csilk.Lib.Transition
import Csilk.WebSocket.Frame

namespace Csilk.WebSocket
open Csilk.Lib List

/-- An upgraded plain-TCP connection: its reads, whether `on_ws_message` is set, its calls, and
whether it is closed. -/
structure Conn where
  received : List Bytes
  onWsMessage : Bool
  delivered : List (Bytes × UInt8)
  closing : Bool
deriving DecidableEq

def Conn.onRead (s : Conn) (buf : Bytes) : Conn :=
  let s := { s with received := s.received ++ [buf] }
  match csilkWsParseFrame buf with
  | .ignored => s
  | .closed _ => { s with closing := true }
  | .message payload opcode =>
    if s.onWsMessage then { s with delivered := s.delivered ++ [(payload, opcode)] } else s

def upgraded : System Conn Bytes where
  init s := s = ⟨[], true, [], false⟩
  step s buf := if buf ≠ [] ∧ s.closing = false then some (s.onRead buf) else none

def frameLength (buf : Bytes) : Nat :=
  match payloadLength buf with
  | none => 0
  | some (payloadLen, offset) => offset + 4 + payloadLen

theorem csilkWsParseFrame_message (h : csilkWsParseFrame buf = .message payload opcode) :
    0 < buf.length ∧ 0 < frameLength buf := by
  unfold frameLength
  cases hl : payloadLength buf with
  | none =>
    unfold csilkWsParseFrame at h
    rw [hl] at h
    cases h
  | some p =>
    refine ⟨?_, by dsimp only; omega⟩
    unfold payloadLength at hl
    split at hl
    · cases hl
    · omega

def frames : FrameReader UInt8 (Bytes × UInt8) where
  read buf :=
    match csilkWsParseFrame buf with
    | .message payload opcode => some ((payload, opcode), buf.drop (frameLength buf))
    | _ => none
  shrinks := by
    intro buf a rest h
    split at h
    · rename_i hm
      cases h
      obtain ⟨hpos, hlen⟩ := csilkWsParseFrame_message hm
      rw [length_drop]
      omega
    · cases h

theorem frameLength_encode (f : Frame) (rest : Bytes) :
    (f.encode ++ rest).drop (frameLength (f.encode ++ rest)) = rest := by
  have hlen : f.encode.length = 1 + f.lengthBytes.length + 4 + f.payload.length := by
    rw [Frame.encode]
    simp only [length_cons, length_append, applyMask_length, f.mask_length]
    omega
  rw [frameLength, payloadLength_encode]
  dsimp only
  rw [← hlen, drop_left]

theorem readAll_frames (fs : List Frame) :
    frames.readAll (fs.flatMap Frame.encode) = fs.map Frame.message := by
  have hread : ∀ f ∈ fs, ∀ rest, ∃ a, frames.read (f.encode ++ rest) = some (a, rest) ∧
      id a = f.message := by
    intro f _ rest
    refine ⟨f.message, ?_, rfl⟩
    show (match csilkWsParseFrame (f.encode ++ rest) with
      | .message payload opcode =>
        some ((payload, opcode), (f.encode ++ rest).drop (frameLength (f.encode ++ rest)))
      | _ => none) = _
    rw [csilkWsParseFrame_encode, frameLength_encode]
    rfl
  have hall := FrameReader.readAll_flatMap fs hread []
  have hnil : frames.readAll [] = [] := FrameReader.readAll_none rfl
  rw [append_nil, hnil, map_nil, append_nil, List.map_id] at hall
  exact hall

structure Delivered (s : Conn) (fs : List Frame) : Prop where
  received : s.received = fs.map Frame.encode
  delivered : s.delivered = fs.map Frame.message
  callback : s.onWsMessage = true

theorem Delivered.onRead (h : Delivered s fs) (f : Frame) :
    Delivered (s.onRead f.encode) (fs ++ [f]) := by
  have hp := csilkWsParseFrame_encode f []
  rw [append_nil] at hp
  have heq : s.onRead f.encode = { s with
      received := s.received ++ [f.encode]
      delivered := s.delivered ++ [f.message] } := by
    rw [Conn.onRead, hp]
    simp only [h.callback]
    rfl
  rw [heq]
  refine ⟨?_, ?_, h.callback⟩
  · rw [map_append, ← h.received]
    rfl
  · rw [map_append, ← h.delivered]
    rfl

/-- If every read is one complete frame, the callback is called once for each, in order. -/
theorem upgraded_delivers (s : Conn)
    (hr : upgraded.Reachable (fun _ buf => ∃ f : Frame, buf = f.encode) s) (fs : List Frame)
    (hbytes : s.received.flatten = fs.flatMap Frame.encode) :
    s.delivered = fs.map Frame.message := by
  obtain ⟨gs, hgs⟩ : ∃ gs, Delivered s gs := by
    apply hr.invariant
    · rintro t rfl
      exact ⟨[], rfl, rfl, rfl⟩
    · rintro t buf t' ⟨gs, hgs⟩ ⟨f, rfl⟩ hs
      obtain ⟨_, hs⟩ := Option.ite_none_right_eq_some.1 hs
      cases hs
      exact ⟨gs ++ [f], hgs.onRead f⟩
  rw [hgs.delivered, ← readAll_frames, ← readAll_frames, ← hbytes, hgs.received]
  rfl

def helloFrame : Frame where
  opcode := 1
  form := .short
  mask := [1, 2, 3, 4]
  payload := ascii "hello"
  data := .inl rfl
  mask_length := rfl
  limit := by decide
  fits := by decide

theorem upgraded_delivers_two :
    ∃ s, upgraded.Reachable (fun _ buf => ∃ f : Frame, buf = f.encode) s ∧
      s.delivered = [(ascii "hello", 1), (ascii "hello", 1)] := by
  have hinit : upgraded.Reachable (fun _ buf => ∃ f : Frame, buf = f.encode) ⟨[], true, [], false⟩ :=
    .init rfl
  have hone := hinit.step (a := helloFrame.encode) ⟨helloFrame, rfl⟩ rfl
  have htwo := hone.step (a := helloFrame.encode) ⟨helloFrame, rfl⟩ rfl
  exact ⟨_, htwo, upgraded_delivers _ htwo [helloFrame, helloFrame] rfl⟩

/-- Of two frames in one read only the first is delivered; the rest of a cut frame is taken for
another. -/
theorem upgraded_drops_frames : (∃ s, upgraded.Reachable (fun _ _ => True) s ∧
      s.received.flatten = [helloFrame, helloFrame].flatMap Frame.encode ∧
      s.delivered ≠ [helloFrame, helloFrame].map Frame.message) ∧
    ∃ s, upgraded.Reachable (fun _ _ => True) s ∧
      s.received.flatten = [helloFrame].flatMap Frame.encode ∧
      s.delivered ≠ [helloFrame].map Frame.message := by
  have hinit : upgraded.Reachable (fun _ _ => True) ⟨[], true, [], false⟩ := .init rfl
  constructor
  · have hone := hinit.step (a := helloFrame.encode ++ helloFrame.encode) trivial rfl
    exact ⟨_, hone, rfl, by decide⟩
  · have hone := hinit.step (a := helloFrame.encode.take 4) trivial rfl
    have htwo := hone.step (a := helloFrame.encode.drop 4) trivial rfl
    exact ⟨_, htwo, rfl, by decide⟩

end Csilk.WebSocket
