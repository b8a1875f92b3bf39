import Csilk.Http1.Chunking

namespace Csilk.Http1
open Csilk.Headers List Option

structure Totals where
  url : Nat
  header : Nat
  fields : Nat
  body : Nat
  named : Bool

def Totals.add (t : Totals) : Item → Totals
  | .messageBegin => t
  | .url b => { t with url := t.url + b.length }
  | .headerField b =>
    { t with header := t.header + b.length, fields := t.fields + cond t.named 0 1, named := true }
  | .headerFieldComplete | .headerValueComplete | .headersComplete => { t with named := false }
  | .headerValue b => { t with header := t.header + b.length }
  | .body b => { t with body := t.body + b.length }

structure Limited (lim : Limits) (t : Totals) : Prop where
  url : 0 < lim.maxUrlSize → t.url ≤ lim.maxUrlSize
  header : t.header ≤ lim.maxHeaderSize
  fields : 0 < lim.maxHeadersCount → t.fields ≤ lim.maxHeadersCount
  body : t.body ≤ lim.maxBodySize

def Callback.later : Callback → Bool
  | .messageBegin | .url _ _ => false
  | _ => true

namespace Assembly

def totals (a : Assembly) (url : Nat) : Totals :=
  ⟨url, a.headerSize, a.headerCount, a.body.length, a.field.isSome && !a.fieldCompleted⟩

variable {a b : Assembly}

theorem totals_persist (a : Assembly) :
    (persist { a with fieldCompleted := false }).totals u = { a.totals u with named := false } := by
  unfold persist
  cases hf : a.field <;> simp [totals]

theorem totals_beginField (a : Assembly) :
    a.beginField.totals u = a.totals u ∧ a.beginField.fieldCompleted = false := by
  unfold beginField persist
  cases hc : a.fieldCompleted <;> cases hf : a.field <;> simp [totals, hc, hf]

theorem totals_appendField (hc : a.fieldCompleted = false)
    (hs : a.appendField lim piece = some b) (hl : Limited lim (a.totals u)) :
    b.totals u = { a.totals u with
      fields := (a.totals u).fields + cond (a.totals u).named 0 1, named := true } ∧
      Limited lim (b.totals u) := by
  unfold appendField at hs
  cases hf : a.field with
  | some field =>
    rw [hf] at hs
    cases hs
    exact ⟨by simp [totals, hf, hc], { hl with }⟩
  | none =>
    rw [hf] at hs
    obtain ⟨hle, hs⟩ := ite_none_left_eq_some.1 hs
    cases hs
    refine ⟨by simp [totals, hf, hc], { hl with fields := fun hm => not_lt.1 fun hlt => ?_ }⟩
    exact hle ⟨hm, hlt⟩

theorem totals_step (hcb : Callback.later cb = true) (hl : Limited lim (a.totals u))
    (hs : a.step lim (cb.item mem) = some b) :
    b.totals u = (a.totals u).add (cb.item mem) ∧ Limited lim (b.totals u) := by
  cases cb with
  | messageBegin | url => cases hcb
  | headerField addr n =>
    obtain ⟨hle, hs⟩ := ite_none_left_eq_some.1 hs
    obtain ⟨hb, hc⟩ := totals_beginField (u := u)
      { a with headerSize := a.headerSize + (readMem mem addr n).length }
    have happ := totals_appendField (u := u) hc hs (hb ▸ { hl with header := not_lt.1 hle })
    rwa [hb] at happ
  | headerFieldComplete =>
    cases hs
    exact ⟨by simp [totals, Totals.add, Callback.item], { hl with }⟩
  | headerValueComplete | headersComplete =>
    cases hs
    rw [totals_persist]
    exact ⟨rfl, { hl with }⟩
  | headerValue addr n =>
    obtain ⟨hle, hs⟩ := ite_none_left_eq_some.1 hs
    cases hs
    exact ⟨rfl, { hl with header := not_lt.1 hle }⟩
  | body addr n =>
    obtain ⟨hle, hs⟩ := ite_none_left_eq_some.1 hs
    obtain ⟨-, hs⟩ := ite_none_left_eq_some.1 hs
    cases hs
    simp only [totals, length_append]
    exact ⟨rfl, { hl with body := not_lt.1 hle }⟩

theorem run_limited {cbs : List Callback} (hcbs : ∀ cb ∈ cbs, cb.later = true)
    (hr : a.run lim (cbs.map (Callback.item mem)) = some b) (hl : Limited lim (a.totals u)) :
    Limited lim ((cbs.map (Callback.item mem)).foldl Totals.add (a.totals u)) := by
  induction cbs generalizing a with
  | nil => exact hl
  | cons cb cbs ih =>
    obtain ⟨a', hs, hr⟩ := bind_eq_some_iff.1 hr
    obtain ⟨hcb, hcbs⟩ := forall_mem_cons.1 hcbs
    obtain ⟨ht, hl⟩ := totals_step hcb hl hs
    rw [map_cons, foldl_cons, ← ht]
    exact ih hcbs hr hl

end Assembly

/-- A request whose URL comes in one piece is accepted within the limits only. -/
theorem runCallbacks_limited {cbs : List Callback} (hc : Client.Idle c)
    (hcbs : ∀ cb ∈ cbs, cb.later = true)
    (hr : runCallbacks lim c (.messageBegin :: .url addr len :: cbs) = .ok d) :
    Limited lim (((.url addr len :: cbs).map (Callback.item c.mem)).foldl Totals.add
      ⟨0, 0, 0, 0, false⟩) := by
  have hg := runCallbacks_gives lim c (.messageBegin :: .url addr len :: cbs)
  rw [hr] at hg
  obtain ⟨a, hs, hrun⟩ := bind_eq_some_iff.1 hg.1
  cases hs
  obtain ⟨a, hs, hrun⟩ := bind_eq_some_iff.1 hrun
  obtain ⟨hle, hs⟩ := ite_none_left_eq_some.1 hs
  cases hs
  have hurl : 0 < lim.maxUrlSize → 0 + (readMem c.mem addr len).length ≤ lim.maxUrlSize := by
    rw [zero_add]
    exact fun hm => not_lt.1 fun hlt => hle ⟨hm, hlt⟩
  have hbody : c.assembly.body = [] := hc.assembly.body
  simp only [hbody] at hrun
  exact Assembly.run_limited hcbs hrun ⟨hurl, Nat.zero_le _, fun _ => Nat.zero_le _, Nat.zero_le _⟩

theorem runCallbacks_limited_post :
    Limited ⟨1, 9, 1, 2⟩ (([.url 0 1, .headerField 1 2, .headerField 3 2, .headerFieldComplete,
      .headerValue 9 1, .headerValueComplete, .headersComplete, .body 10 1, .body 11 1].map
      (Callback.item fun _ => 65)).foldl Totals.add ⟨0, 0, 0, 0, false⟩) := by
  have hc : (Client.new fun _ => 65).Idle := ⟨rfl, rfl, rfl⟩
  exact runCallbacks_limited hc (by decide) rfl

-- Each piece of the URL is within the limit, both together are not.
theorem runCallbacks_unlimited :
    (runCallbacks ⟨1, 0, 0, 0⟩ (Client.new fun _ => 65) [.messageBegin, .url 0 1, .url 1 1]).isOk ∧
      ¬Limited ⟨1, 0, 0, 0⟩ (([.url 0 1, .url 1 1].map (Callback.item fun _ => 65)).foldl Totals.add
        ⟨0, 0, 0, 0, false⟩) := by
  refine ⟨rfl, fun h => ?_⟩
  cases h.url Nat.one_pos with
  | step h => cases h

end Csilk.Http1
