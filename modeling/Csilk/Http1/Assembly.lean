import Csilk.Http1.Parse

namespace Csilk.Http1
open Csilk.Headers List Option

inductive Item where
  | messageBegin
  | url (bytes : Bytes)
  | headerField (bytes : Bytes)
  | headerFieldComplete
  | headerValue (bytes : Bytes)
  | headerValueComplete
  | headersComplete
  | body (bytes : Bytes)
deriving DecidableEq

structure Assembly where
  url : Option Bytes
  field : Option Bytes
  value : Option Bytes
  fieldCompleted : Bool
  headerSize : Nat
  headerCount : Nat
  headers : HeaderMap
  body : Bytes

def Assembly.persist (a : Assembly) : Assembly :=
  match a.field with
  | none => a
  | some field =>
    { a with headers := (mapSetView a.headers field (a.value.getD [])).1, field := none, value := none }

def Assembly.beginField (a : Assembly) : Assembly :=
  if a.fieldCompleted then { a.persist with fieldCompleted := false } else a

def Assembly.appendField (a : Assembly) (lim : Limits) (b : Bytes) : Option Assembly :=
  match a.field with
  | some field => some { a with field := some (field ++ b) }
  | none =>
    let a := { a with headerCount := a.headerCount + 1 }
    if 0 < lim.maxHeadersCount ∧ lim.maxHeadersCount < a.headerCount then none
    else some { a with field := some b, value := none }

def Assembly.step (lim : Limits) (a : Assembly) : Item → Option Assembly
  | .messageBegin =>
    some { a with headerSize := 0, headerCount := 0, fieldCompleted := false, field := none,
                  value := none }
  | .url b =>
    if 0 < lim.maxUrlSize ∧ lim.maxUrlSize < b.length then none
    else some { a with url := some (a.url.getD [] ++ b) }
  | .headerField b =>
    let a := { a with headerSize := a.headerSize + b.length }
    if lim.maxHeaderSize < a.headerSize then none
    else a.beginField.appendField lim b
  | .headerFieldComplete => some { a with fieldCompleted := true }
  | .headerValue b =>
    let a := { a with headerSize := a.headerSize + b.length }
    if lim.maxHeaderSize < a.headerSize then none
    else some { a with value := some (a.value.getD [] ++ b) }
  | .headerValueComplete | .headersComplete =>
    some (Assembly.persist { a with fieldCompleted := false })
  | .body b =>
    if lim.maxBodySize < a.body.length + b.length then none
    else if sizeMax - a.body.length - 1 < b.length then none
    else some { a with body := a.body ++ b }

def Assembly.run (lim : Limits) : Assembly → List Item → Option Assembly
  | a, [] => some a
  | a, i :: is => (a.step lim i).bind fun a => a.run lim is

def Callback.item (mem : Nat → UInt8) : Callback → Item
  | .messageBegin => .messageBegin
  | .url addr len => .url (readMem mem addr len)
  | .headerField addr len => .headerField (readMem mem addr len)
  | .headerFieldComplete => .headerFieldComplete
  | .headerValue addr len => .headerValue (readMem mem addr len)
  | .headerValueComplete => .headerValueComplete
  | .headersComplete => .headersComplete
  | .body addr len => .body (readMem mem addr len)

def Client.assembly (c : Client) : Assembly where
  url := c.currentUrl.map c.load
  field := c.currentHeaderField.map c.load
  value := c.currentHeaderValue.map c.load
  fieldCompleted := c.headerFieldCompleted
  headerSize := c.totalHeaderSize
  headerCount := c.headerCount
  headers := c.request.headers
  body := c.bodyBytes

theorem readMem_length (mem : Nat → UInt8) (a n : Nat) : (readMem mem a n).length = n := by
  rw [readMem, length_map, length_range]

theorem readMem_add (mem : Nat → UInt8) (a n k : Nat) :
    readMem mem a (n + k) = readMem mem a n ++ readMem mem (a + n) k := by
  rw [readMem, range_add, map_append, List.map_map]
  refine congrArg (_ ++ ·) (map_congr_left fun i _ => ?_)
  simp [add_assoc]

theorem Client.load_extend (c : Client) (s : Option Str) (a n : Nat) :
    c.load (c.extend s a n) = (s.map c.load).getD [] ++ readMem c.mem a n := by
  cases s with
  | none => rfl
  | some s =>
    cases s with
    | view b l =>
      simp only [Client.extend]
      split
      · rename_i h
        subst h
        exact readMem_add _ _ _ _
      · exact if_pos rfl
    | copy r bytes => exact if_pos rfl

theorem le_csilkBodyAlloc (size : Nat) : size ≤ csilkBodyAlloc size := by
  unfold csilkBodyAlloc
  cases h : bodyTiers.find? (size ≤ ·) with
  | none => exact le_rfl
  | some t => simpa using find?_some h

theorem bodyBytes_length (c : Client) : c.bodyBytes.length = c.request.body.len := by
  unfold Client.bodyBytes
  cases c.request.body with
  | none | pool bytes capacity => rfl
  | borrowed a l => exact readMem_length _ _ _

def Client.frame (c : Client) : (Nat → UInt8) × Nat × List (Bytes × Bytes) :=
  (c.mem, c.resets, c.request.queryParams)

def Gives (r : Except Client Client) (c : Client) (a : Option Assembly) : Prop :=
  match r with
  | .error _ => a = none
  | .ok c' => a = some c'.assembly ∧ c'.frame = c.frame

theorem Client.persistHeader_assembly (c : Client) :
    c.persistHeader.assembly = c.assembly.persist := by
  unfold Client.persistHeader Assembly.persist
  cases hf : c.currentHeaderField with
  | none =>
    have ha : c.assembly.field = none := by rw [Client.assembly, hf]; rfl
    rw [ha]
  | some field =>
    have ha : c.assembly.field = some (c.load field) := by rw [Client.assembly, hf]; rfl
    rw [ha]
    rfl

theorem Client.persistHeader_frame (c : Client) : c.persistHeader.frame = c.frame := by
  unfold Client.persistHeader
  cases c.currentHeaderField <;> rfl

theorem Client.beginField_assembly (c : Client) :
    c.beginField.assembly = c.assembly.beginField ∧ c.beginField.frame = c.frame := by
  unfold Client.beginField Assembly.beginField
  rw [show c.assembly.fieldCompleted = c.headerFieldCompleted from rfl]
  split
  · refine ⟨?_, c.persistHeader_frame⟩
    rw [← c.persistHeader_assembly]
    rfl
  · exact ⟨rfl, rfl⟩

theorem Client.appendField_gives (c : Client) (lim : Limits) (a n : Nat) :
    Gives (c.appendField lim a n) c (c.assembly.appendField lim (readMem c.mem a n)) := by
  unfold Client.appendField Assembly.appendField
  cases hf : c.currentHeaderField with
  | some field =>
    have ha : c.assembly.field = some (c.load field) := by rw [Client.assembly, hf]; rfl
    have hl := c.load_extend (some field) a n
    rw [map_some, getD_some] at hl
    rw [ha]
    dsimp only
    rw [← hl]
    exact ⟨rfl, rfl⟩
  | none =>
    have ha : c.assembly.field = none := by rw [Client.assembly, hf]; rfl
    rw [ha]
    dsimp only
    rw [show c.assembly.headerCount = c.headerCount from rfl]
    split
    · exact rfl
    · exact ⟨rfl, rfl⟩

section

variable (lim : Limits) (c : Client)
include lim c

theorem onUrl_gives (a n : Nat) :
    Gives (onUrl lim c a n) c (c.assembly.step lim (.url (readMem c.mem a n))) := by
  rw [onUrl, Assembly.step, readMem_length]
  split
  · exact rfl
  · refine ⟨?_, rfl⟩
    have hu := c.load_extend c.currentUrl a n
    rw [show c.assembly.url = c.currentUrl.map c.load from rfl, ← hu]
    rfl

theorem onHeaderValue_gives (a n : Nat) : Gives (onHeaderValue lim c a n) c
      (c.assembly.step lim (.headerValue (readMem c.mem a n))) := by
  rw [onHeaderValue, Assembly.step]
  rw [readMem_length, show c.assembly.headerSize = c.totalHeaderSize from rfl]
  split
  · exact rfl
  · refine ⟨?_, rfl⟩
    have hv := c.load_extend c.currentHeaderValue a n
    rw [show c.assembly.value = c.currentHeaderValue.map c.load from rfl, ← hv]
    rfl

theorem onBody_gives (a n : Nat) :
    Gives (onBody lim c a n) c (c.assembly.step lim (.body (readMem c.mem a n))) := by
  have hlen : c.assembly.body.length = c.request.body.len := bodyBytes_length c
  rw [onBody, Assembly.step, readMem_length, hlen]
  split
  · exact rfl
  split
  · exact rfl
  split
  · rename_i h0
    rw [← hlen, length_eq_zero_iff] at h0
    rw [h0]
    exact ⟨rfl, rfl⟩
  · rename_i hpos
    cases hb : c.request.body with
    | none => exact absurd (by rw [hb]; rfl) hpos
    | borrowed b l =>
      have ht : c.assembly.body = readMem c.mem b l := by
        show c.bodyBytes = _
        rw [Client.bodyBytes, hb]
      dsimp only
      split
      · rename_i h
        subst h
        rw [ht, ← readMem_add]
        exact ⟨rfl, rfl⟩
      · rw [ht]
        exact ⟨rfl, rfl⟩
    | pool bytes capacity =>
      have ht : c.assembly.body = bytes := by
        show c.bodyBytes = _
        rw [Client.bodyBytes, hb]
      dsimp only
      split
      · rw [ht]
        exact ⟨rfl, rfl⟩
      · rename_i hcap
        have hle := le_csilkBodyAlloc (bytes.length + n + 1)
        have hkeep : csilkBodyRealloc bytes capacity (bytes.length + n + 1) =
            (bytes, csilkBodyAlloc (bytes.length + n + 1)) := by
          rw [csilkBodyRealloc, if_neg (by simpa [hb, Body.len] using hcap)]
          dsimp only
          rw [Nat.min_eq_left (by omega), take_length]
        rw [show (Body.pool bytes capacity).len = bytes.length from rfl, hkeep, ht]
        exact ⟨rfl, rfl⟩

theorem onHeaderField_gives (a n : Nat) : Gives (onHeaderField lim c a n) c
      (c.assembly.step lim (.headerField (readMem c.mem a n))) := by
  rw [onHeaderField, Assembly.step, readMem_length]
  rw [show c.assembly.headerSize = c.totalHeaderSize from rfl]
  split
  · exact rfl
  · obtain ⟨hb, hframe⟩ :=
      Client.beginField_assembly { c with totalHeaderSize := c.totalHeaderSize + n }
    generalize Client.beginField { c with totalHeaderSize := c.totalHeaderSize + n } = d
      at hb hframe ⊢
    have hd := d.appendField_gives lim a n
    have hm : d.mem = c.mem := congrArg Prod.fst hframe
    rw [hb, hm] at hd
    cases h : d.appendField lim a n with
    | error d' =>
      rw [h] at hd
      exact hd
    | ok d' =>
      rw [h] at hd
      exact ⟨hd.1, hd.2.trans hframe⟩

theorem Callback.run_gives (cb : Callback) :
    Gives (cb.run lim c) c (c.assembly.step lim (cb.item c.mem)) := by
  cases cb with
  | messageBegin | headerFieldComplete => exact ⟨rfl, rfl⟩
  | url a n => exact onUrl_gives lim c a n
  | headerField a n => exact onHeaderField_gives lim c a n
  | headerValue a n => exact onHeaderValue_gives lim c a n
  | headerValueComplete | headersComplete =>
    have h := Client.persistHeader_assembly { c with headerFieldCompleted := false }
    exact ⟨congrArg some h.symm, Client.persistHeader_frame _⟩
  | body a n => exact onBody_gives lim c a n

theorem runCallbacks_gives (cbs : List Callback) :
    Gives (runCallbacks lim c cbs) c (c.assembly.run lim (cbs.map (Callback.item c.mem))) := by
  induction cbs generalizing c with
  | nil => exact ⟨rfl, rfl⟩
  | cons cb cbs ih =>
    have hcb := cb.run_gives lim c
    rw [runCallbacks, map_cons, Assembly.run]
    cases hr : cb.run lim c with
    | error c' =>
      rw [hr] at hcb
      rw [show c.assembly.step lim (cb.item c.mem) = none from hcb]
      exact rfl
    | ok c' =>
      rw [hr] at hcb
      obtain ⟨hs, hframe⟩ := hcb
      have ih := ih c'
      rw [show c'.mem = c.mem from congrArg Prod.fst hframe] at ih
      rw [hs]
      dsimp only [bind_some]
      cases hrest : runCallbacks lim c' cbs with
      | error d =>
        rw [hrest] at ih
        exact ih
      | ok d =>
        rw [hrest] at ih
        exact ⟨ih.1, ih.2.trans hframe⟩

end

end Csilk.Http1
