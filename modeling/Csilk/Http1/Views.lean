import Csilk.Http1.Assembly
import Csilk.Http1.Pipeline

namespace Csilk.Http1
open Csilk.Headers Csilk.Lib

def Callback.piece : Callback → Option (Nat × Nat)
  | .url addr len | .headerField addr len | .headerValue addr len | .body addr len => some (addr, len)
  | _ => none

def Signal.brings : Signal → Bool
  | .callback (.url _ _) | .callback (.body _ _) => true
  | _ => false

theorem Conn.Holds.add {s : Conn} (h : s.Holds a n) (h' : s.Holds (a + n) k) :
    s.Holds a (n + k) := by
  intro i hi
  by_cases hin : i < n
  · exact h i hin
  · have hk := h' (i - n) (by omega)
    rwa [show a + n + (i - n) = a + i by omega] at hk

def Conn.BodySafe (s : Conn) (b : Body) : Prop := s.BodyAlive b ∨ b.pooled = true

def Conn.HoldsPiece (s : Conn) (piece : Option (Nat × Nat)) : Prop :=
  ∀ a n, piece = some (a, n) → s.Holds a n

/-- Views in memory of the request stay there, those of a header when the new piece does. -/
structure Keeps (s : Conn) (piece : Option (Nat × Nat)) (c c' : Client) : Prop where
  url : s.StrAlive c.currentUrl → s.StrAlive c'.currentUrl
  body : s.BodySafe c.request.body → s.BodySafe c'.request.body
  field : s.HoldsPiece piece → s.StrAlive c.currentHeaderField → s.StrAlive c'.currentHeaderField
  value : s.HoldsPiece piece → s.StrAlive c.currentHeaderValue → s.StrAlive c'.currentHeaderValue

section Keeps
variable {s : Conn} {c c' : Client}

theorem Keeps.trans (h : Keeps s p c d) (h' : Keeps s p d c') : Keeps s p c c' where
  url := h'.url ∘ h.url
  body := h'.body ∘ h.body
  field hp := h'.field hp ∘ h.field hp
  value hp := h'.value hp ∘ h.value hp

theorem Conn.StrAlive.extend (h : s.StrAlive v) (hres : c.resets = s.client.resets)
    (hp : s.Holds a n) : s.StrAlive (some (c.extend v a n)) := by
  unfold Client.extend
  cases v with
  | none => exact hp
  | some v =>
    cases v with
    | view b l =>
      dsimp only
      split
      · rename_i hadd
        subst hadd
        exact Conn.Holds.add h hp
      · exact .inr hres
    | copy r bytes => exact .inr hres

theorem Client.persistHeader_keeps (c : Client) : Keeps s p c c.persistHeader := by
  unfold Client.persistHeader
  cases c.currentHeaderField with
  | none => exact ⟨id, id, fun _ => id, fun _ => id⟩
  | some field => exact ⟨id, id, fun _ _ => trivial, fun _ _ => trivial⟩

theorem onHeaderField_keeps (h : onHeaderField lim c a n = .ok c')
    (hres : c.resets = s.client.resets) : Keeps s (some (a, n)) c c' := by
  unfold onHeaderField at h
  dsimp only at h
  split at h
  · cases h
  · have hbegin : Keeps s (some (a, n)) c
        (Client.beginField { c with totalHeaderSize := c.totalHeaderSize + n }) := by
      unfold Client.beginField
      split
      · exact { Client.persistHeader_keeps { c with totalHeaderSize := c.totalHeaderSize + n } with }
      · exact ⟨id, id, fun _ => id, fun _ => id⟩
    apply hbegin.trans
    have hbres := congrArg (·.2.1)
      (Client.beginField_assembly { c with totalHeaderSize := c.totalHeaderSize + n }).2
    unfold Client.appendField at h
    split at h
    · rename_i field hf
      cases h
      exact ⟨id, id, fun hp hv => (hf ▸ hv).extend (hbres.trans hres) (hp a n rfl), fun _ => id⟩
    · dsimp only at h
      split at h
      · cases h
      · cases h
        exact ⟨id, id, fun hp _ => hp a n rfl, fun _ _ => trivial⟩

theorem onBody_keeps (h : onBody lim c a n = .ok c') (hp : s.Holds a n) :
    ∃ b, (s.BodySafe c.request.body → s.BodySafe b) ∧
      c' = { c with request := { c.request with body := b } } := by
  unfold onBody at h
  dsimp only at h
  split at h
  · cases h
  split at h
  · cases h
  split at h
  · cases h
    exact ⟨.borrowed a n, fun _ => .inl hp, rfl⟩
  · cases hb : c.request.body with
    | none =>
      rw [hb] at h
      cases h
      exact ⟨_, id, by rw [← hb]⟩
    | borrowed b l =>
      rw [hb] at h
      dsimp only at h
      split at h
      · rename_i he
        cases h
        subst he
        exact ⟨.borrowed b (l + n), Or.imp_left (Conn.Holds.add · hp), rfl⟩
      · cases h
        exact ⟨_, fun _ => .inr rfl, rfl⟩
    | pool bytes capacity =>
      rw [hb] at h
      dsimp only at h
      split at h <;> (cases h; exact ⟨_, fun _ => .inr rfl, rfl⟩)

theorem Callback.run_keeps {cb : Callback} (h : cb.run lim c = .ok c')
    (hres : c.resets = s.client.resets)
    (hdata : (Signal.callback cb).brings = true → s.HoldsPiece cb.piece) :
    Keeps s cb.piece c c' := by
  cases cb with
  | messageBegin =>
    cases h
    exact ⟨id, id, fun _ _ => trivial, fun _ _ => trivial⟩
  | url a n =>
    rw [Callback.run, onUrl] at h
    split at h
    · cases h
    · cases h
      exact ⟨fun hv => hv.extend hres (hdata rfl a n rfl), id, fun _ => id, fun _ => id⟩
  | headerField a n => exact onHeaderField_keeps h hres
  | headerFieldComplete =>
    cases h
    exact ⟨id, id, fun _ => id, fun _ => id⟩
  | headerValue a n =>
    rw [Callback.run, onHeaderValue] at h
    split at h
    · cases h
    · cases h
      exact ⟨id, id, fun _ => id, fun hp hv => hv.extend hres (hp a n rfl)⟩
  | headerValueComplete | headersComplete =>
    cases h
    exact { Client.persistHeader_keeps { c with headerFieldCompleted := false } with }
  | body a n =>
    obtain ⟨b, hb, rfl⟩ := onBody_keeps h (hdata rfl a n rfl)
    exact ⟨id, hb, fun _ => id, fun _ => id⟩

end Keeps

theorem Callback.run_frame {c c' : Client} {cb : Callback} (h : cb.run lim c = .ok c') :
    c'.frame = c.frame := by
  have hg := cb.run_gives lim c
  rw [h] at hg
  exact hg.2

theorem Conn.Holds.mono {s t : Conn} (h : s.Holds a n) (hlive : ∀ x, Within s.live x → Within t.live x) :
    t.Holds a n := fun i hi => hlive _ (h i hi)

theorem Conn.StrAlive.mono {s t : Conn} (h : s.StrAlive v)
    (hlive : ∀ x, Within s.live x → Within t.live x) (hr : t.client.resets = s.client.resets) :
    t.StrAlive v := by
  cases v with
  | none => trivial
  | some v =>
    cases v with
    | view a n => exact Conn.Holds.mono h hlive
    | copy r bytes =>
      unfold Conn.StrAlive
      rw [hr]
      exact h

theorem Conn.BodySafe.mono {s t : Conn} (h : s.BodySafe b)
    (hlive : ∀ x, Within s.live x → Within t.live x) : t.BodySafe b := by
  cases b with
  | none => exact .inl trivial
  | borrowed a n =>
    rcases h with h | h
    · exact .inl (Conn.Holds.mono h hlive)
    · cases h
  | pool bytes capacity => exact .inr rfl

structure Conn.Alive (s : Conn) : Prop where
  url : s.StrAlive s.client.currentUrl
  body : s.BodySafe s.client.request.body

theorem Conn.Alive.callback {s : Conn} {cb : Callback} (h : s.Alive)
    (hr : cb.run lim s.client = .ok c)
    (hdata : (Signal.callback cb).brings = true → s.HoldsPiece cb.piece) :
    Conn.Alive { s with client := c } := by
  have hk := Callback.run_keeps hr rfl hdata
  exact ⟨(hk.url h.url).mono (fun _ hx => hx) (congrArg (·.2.1) (Callback.run_frame hr)),
    (hk.body h.body).mono fun _ hx => hx⟩

def Blank : Option Str → Prop
  | none => True
  | some v => v.len = 0

theorem Conn.StrAlive.blank (h : Blank v) (s : Conn) : s.StrAlive v := by
  cases v with
  | none => trivial
  | some v =>
    cases v with
    | view a n =>
      intro i hi
      have hn : n = 0 := h
      omega
    | copy r bytes => exact .inl (List.length_eq_zero_iff.1 h)

theorem finalizeRequest_url (c : Client) (method : Bytes) :
    Blank (finalizeRequest c method).currentUrl := by
  unfold finalizeRequest
  dsimp only
  cases hu : c.persistHeader.currentUrl with
  | none => trivial
  | some u =>
    dsimp only
    split
    · trivial
    · rename_i hlen
      exact Nat.eq_zero_of_not_pos hlen

theorem finalizeRequest_body (c : Client) (method : Bytes) :
    (finalizeRequest c method).request.body = c.request.body ∧
      (finalizeRequest c method).mem = c.mem ∧ (finalizeRequest c method).resets = c.resets := by
  have hp : c.persistHeader.request.body = c.request.body ∧ c.persistHeader.mem = c.mem ∧
      c.persistHeader.resets = c.resets := by
    unfold Client.persistHeader
    cases c.currentHeaderField <;> exact ⟨rfl, rfl, rfl⟩
  unfold finalizeRequest
  dsimp only
  cases c.persistHeader.currentUrl with
  | none => exact hp
  | some u =>
    dsimp only
    split <;> exact hp

theorem Callback.shift_holds {s : Conn} {cb : Callback} (hb : s.Holds base len) (hf : cb.Fits len) :
    s.HoldsPiece (cb.shift base).piece := by
  have hpiece : ∀ x k a n, x + k ≤ len → some (base + x, k) = some (a, n) → s.Holds a n := by
    intro x k a n hle heq i hi
    cases heq
    rw [add_assoc]
    exact hb (x + i) (by omega)
  intro a n h
  cases cb with
  | url x k | headerField x k | headerValue x k | body x k => exact hpiece x k a n hf h
  | _ => cases h

theorem Within.append_left (h : Within xs a) : Within (xs ++ ys) a := by
  obtain ⟨b, hb, hin⟩ := h
  exact ⟨b, List.mem_append_left _ hb, hin⟩

theorem Within.append_right (h : Within ys a) : Within (xs ++ ys) a := by
  obtain ⟨b, hb, hin⟩ := h
  exact ⟨b, List.mem_append_right _ hb, hin⟩

end Csilk.Http1
