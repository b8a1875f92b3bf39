import Csilk.Http1.Response
import Mathlib.Data.Nat.Digits.Lemmas

namespace Csilk.Http1
open Csilk.Headers Csilk.Lib List

inductive Call where
  | setHeader (key value : Bytes)
  | addHeader (key value : Bytes)
  | setCookieEx (name value : Bytes) (maxAge : Int) (path domain : Option Bytes)
      (secure httpOnly : Bool) (sameSite : Option Bytes)
  | redirect (status : Nat) (location : Bytes)

def Call.apply (r : Response) : Call → Response
  | .setHeader key value => csilkSetHeader r key value
  | .addHeader key value => csilkAddHeader r key value
  | .setCookieEx name value maxAge path domain secure httpOnly sameSite =>
    csilkSetCookieEx r name value maxAge path domain secure httpOnly sameSite
  | .redirect status location => csilkRedirect r status location

def Response.fresh : Response := ⟨0, [], Nat.two_pow_pos 64, .empty⟩

def decimal (n : Nat) : Bytes :=
  if n = 0 then ascii "0" else ((Nat.digits 10 n).map fun d => UInt8.ofNat (48 + d)).reverse

def statusLine (status : Nat) : Bytes :=
  ascii "HTTP/1.1 " ++ decimal status ++ ascii " " ++ getStatusText status

def headerLine (h : Header) : Bytes := h.key ++ ascii ": " ++ h.value

def controlLines (status bodyLen : Nat) : List Bytes :=
  if status = 101 then [statusLine status]
  else [statusLine status, ascii "Content-Length: " ++ decimal bodyLen,
    ascii "Connection: keep-alive"]

structure Sound (m : HeaderMap) : Prop where
  clean : ∀ h ∈ m.entries, h.key ≠ [] ∧ IsLine h.key ∧ IsLine h.value
  perm : m.stored.Perm (List.range m.entries.length)

theorem isLine_append (hx : IsLine x) (hy : IsLine y) : IsLine (x ++ y) := by
  constructor
  · intro h
    exact (mem_append.1 h).elim hx.1 hy.1
  · intro h
    exact (mem_append.1 h).elim hx.2 hy.2

theorem isLine_sanitize (str : Bytes) : IsLine (csilkSanitizeHeaderStr str) := by
  constructor
  · intro h
    simpa using (mem_filter.1 h).2
  · intro h
    simpa using (mem_filter.1 h).2

theorem sound_empty : Sound .empty := ⟨(by rintro _ ⟨⟩), .refl _⟩

theorem Sound.setValue (h : Sound m) (hv : IsLine v) : Sound (m.setValue a v) := by
  constructor
  · intro e he
    obtain ⟨i, hi⟩ := getElem?_of_mem he
    rw [getElem?_setValue, Option.map_eq_some_iff] at hi
    obtain ⟨x, hx, rfl⟩ := hi
    obtain ⟨hne, hkey, hval⟩ := h.clean x (mem_of_getElem? hx)
    split
    · exact ⟨hne, hkey, hv⟩
    · exact ⟨hne, hkey, hval⟩
  · have hl : (m.setValue a v).entries.length = m.entries.length := length_modify _ _ _
    rw [hl]
    exact h.perm

theorem Sound.setKnown {id : HeaderId} (h : Sound m) : Sound (m.setKnown id a) := by
  rw [setKnown_eq]
  exact ⟨h.clean, h.perm⟩

theorem Sound.prepend (h : Sound m) (hne : key ≠ []) (hk : IsLine key) (hv : IsLine v) :
    Sound (m.prependEntry key v).1 := by
  constructor
  · rw [prependEntry_entries]
    exact forall_mem_append.2 ⟨h.clean, forall_mem_singleton.2 ⟨hne, hk, hv⟩⟩
  · rw [prependEntry_entries, length_append, length_singleton, range_succ]
    apply (stored_prependEntry m key v).trans
    apply (h.perm.cons _).trans
    exact (perm_append_singleton _ _).symm

theorem Sound.write (h : Sound m) (hne : key ≠ []) (hk : IsLine key) (hv : IsLine v) :
    Sound (m.writeEntry key v).1 := by
  unfold HeaderMap.writeEntry
  dsimp only
  split
  · exact h.setValue hv
  · split
    · exact (h.setValue hv).setKnown
    · exact h.prepend hne hk hv

theorem Sound.mapSet (h : Sound m) (key v : Bytes) : Sound (mapSet m key v).1 := by
  have hm : Sound { m with used := true } := ⟨h.clean, h.perm⟩
  unfold Headers.mapSet
  dsimp only
  split
  · exact hm
  · rename_i hne
    exact hm.write (fun he => hne (by rw [he]; rfl)) (isLine_sanitize key) (isLine_sanitize v)

theorem Sound.mapAdd (h : Sound m) (key v : Bytes) : Sound (mapAdd m key v).1 := by
  have hm : Sound { m with used := true } := ⟨h.clean, h.perm⟩
  unfold Headers.mapAdd
  dsimp only
  split
  · exact hm
  · rename_i hne
    exact hm.prepend (fun he => hne (by rw [he]; rfl)) (isLine_sanitize key) (isLine_sanitize v)

theorem Sound.apply (h : Sound r.headers) (c : Call) : Sound (c.apply r).headers := by
  cases c with
  | setHeader key value => exact h.mapSet key value
  | addHeader key value => exact h.mapAdd key value
  | setCookieEx name value maxAge path domain secure httpOnly sameSite => exact h.mapAdd _ _
  | redirect status location =>
    unfold Call.apply csilkRedirect
    dsimp only
    split
    · exact h
    · exact h.mapSet _ _

theorem Sound.applyAll (h : Sound r.headers) (calls : List Call) :
    Sound (calls.foldl Call.apply r).headers :=
  foldlRecOn (motive := fun r => Sound r.headers) calls Call.apply h fun _ h c _ => h.apply c

theorem filterMap_range_getElem? (l : List α) : (List.range l.length).filterMap (l[·]?) = l := by
  induction l with
  | nil => rfl
  | cons a l ih =>
    rw [length_cons, range_succ_eq_map, filterMap_cons, filterMap_map]
    simp only [getElem?_cons_zero, List.cons.injEq, true_and]
    exact ih

theorem Sound.chained (h : Sound m) : (chained m).Perm m.entries := by
  have hp := h.perm.filterMap (m.entries[·]?)
  rwa [filterMap_range_getElem?] at hp

theorem uintDigits_eq (n : Nat) :
    uintDigits n = (Nat.digits 10 n).map fun d => UInt8.ofNat (48 + d) := by
  induction n using Nat.strong_induction_on with
  | h n ih =>
    rw [uintDigits]
    split
    · rename_i h0
      rw [h0]
      rfl
    · rename_i h0
      rw [Nat.digits_def' (by decide) (Nat.pos_of_ne_zero h0), map_cons,
        ih (n / 10) (Nat.div_lt_self (Nat.pos_of_ne_zero h0) (by decide))]

theorem fastUint64ToStr_eq (n : Nat) : fastUint64ToStr n = decimal n := by
  rw [fastUint64ToStr, decimal, uintDigits_eq]

theorem isLine_decimal (n : Nat) : IsLine (decimal n) := by
  have hb : ∀ b ∈ decimal n, b ≠ 13 ∧ b ≠ 10 := by
    intro b hb
    unfold decimal at hb
    split at hb
    · have : b = 48 := by simpa [ascii] using hb
      subst this
      decide
    · rw [mem_reverse, List.mem_map] at hb
      obtain ⟨d, hd, rfl⟩ := hb
      have hd10 : d < 10 := Nat.digits_lt_base (by decide) hd
      have hdigit : ∀ d : Fin 10, UInt8.ofNat (48 + d) ≠ 13 ∧ UInt8.ofNat (48 + d) ≠ 10 := by
        decide
      exact hdigit ⟨d, hd10⟩
  exact ⟨fun h => (hb _ h).1 rfl, fun h => (hb _ h).2 rfl⟩

theorem decimal_length_le (hn : n < 2 ^ 64) : (decimal n).length ≤ 20 := by
  unfold decimal
  split
  · decide
  · rw [length_reverse, length_map]
    have hlt : n < 10 ^ 20 := hn.trans (by decide)
    exact (Nat.digits_length_le_iff (by decide) n).2 hlt

theorem decimal_status (h1 : 100 ≤ s) (h2 : s ≤ 999) :
    decimal s = [UInt8.ofNat (48 + s / 100), UInt8.ofNat (48 + s / 10 % 10),
      UInt8.ofNat (48 + s % 10)] := by
  have hd : Nat.digits 10 s = [s % 10, s / 10 % 10, s / 100] := by
    rw [Nat.digits_def' (by decide) (by omega), Nat.digits_def' (by decide) (by omega),
      Nat.digits_of_lt 10 (s / 10 / 10) (by omega) (by omega), Nat.div_div_eq_div_mul]
  rw [decimal, if_neg (by omega), hd]
  rfl

theorem getStatusText_line (s : Nat) :
    IsLine (getStatusText s) ∧ (getStatusText s).length ≤ 21 := by
  unfold getStatusText
  split <;> exact ⟨⟨by decide, by decide⟩, by decide⟩

theorem fastSerializeStatusAndControl_control (h1 : 100 ≤ s) (h2 : s ≤ 999) (chunked : Bool)
    (encoding : Bytes) (n : Nat) (val : Bytes) :
    fastSerializeStatusAndControl s (getStatusText s) chunked encoding n val =
      unlines [statusLine s] ++ if s = 101 then [] else
        (if chunked then encoding else ascii "Content-Length: " ++ decimal n ++ crlf) ++
          ascii "Connection: " ++ val ++ crlf := by
  have hline : ∀ t : Bytes, ascii "HTTP/1.1 " ++ [UInt8.ofNat (48 + s / 100),
      UInt8.ofNat (48 + s / 10 % 10), UInt8.ofNat (48 + s % 10)] ++ ascii " " ++ getStatusText s ++
      crlf ++ t = unlines [statusLine s] ++ t := by
    intro t
    rw [statusLine, decimal_status h1 h2]
    simp [unlines]
  rw [fastSerializeStatusAndControl, fastUint64ToStr_eq]
  by_cases h200 : s = 200
  · subst h200
    exact hline _
  by_cases h101 : s = 101
  · subst h101
    exact (append_nil _).symm.trans (hline [])
  by_cases h404 : s = 404
  · subst h404
    exact hline _
  by_cases h500 : s = 500
  · subst h500
    exact hline _
  rw [if_neg h200, if_neg h101, if_neg h404, if_neg h500, if_neg h101]
  exact hline _

theorem fastSerializeStatusAndControl_eq (h1 : 100 ≤ s) (h2 : s ≤ 999) (n : Nat) :
    fastSerializeStatusAndControl s (getStatusText s) false [] n (ascii "keep-alive") =
      unlines (controlLines s n) := by
  rw [fastSerializeStatusAndControl_control h1 h2, controlLines]
  split
  · exact append_nil _
  · simp [unlines, ascii]

theorem appendCustomHeadersFast_eq (m : HeaderMap) :
    appendCustomHeadersFast m = unlines ((chained m).map headerLine) := by
  rw [unlines, flatMap_map]
  rfl

theorem isLine_headerLine (hk : IsLine h.key) (hv : IsLine h.value) : IsLine (headerLine h) :=
  isLine_append (isLine_append hk ⟨by decide, by decide⟩) hv

theorem statusLine_isLine (s : Nat) : statusLine s ≠ [] ∧ IsLine (statusLine s) := by
  refine ⟨by simp [statusLine, ascii], ?_⟩
  exact isLine_append (isLine_append (isLine_append ⟨by decide, by decide⟩ (isLine_decimal s))
    ⟨by decide, by decide⟩) (getStatusText_line s).1

theorem controlLines_isLine (s n : Nat) : ∀ l ∈ controlLines s n, l ≠ [] ∧ IsLine l := by
  have hlength : ascii "Content-Length: " ++ decimal n ≠ [] ∧
      IsLine (ascii "Content-Length: " ++ decimal n) :=
    ⟨by simp [ascii], isLine_append ⟨by decide, by decide⟩ (isLine_decimal n)⟩
  intro l hl
  unfold controlLines at hl
  split at hl
  · rw [mem_singleton.1 hl]
    exact statusLine_isLine s
  · simp only [mem_cons, not_mem_nil, or_false] at hl
    rcases hl with rfl | rfl | rfl
    · exact statusLine_isLine s
    · exact hlength
    · exact ⟨by decide, by decide, by decide⟩

theorem controlLines_length (h1 : 100 ≤ s) (h2 : s ≤ 999) (hn : n < 2 ^ 64) :
    (unlines (controlLines s n)).length + 2 ≤ 128 + (getStatusText s).length + 32 := by
  have hs : (statusLine s).length = 13 + (getStatusText s).length := by
    rw [statusLine, decimal_status h1 h2]
    simp [ascii]
    omega
  have hd := decimal_length_le hn
  unfold controlLines
  split
  · simp only [unlines, crlf, flatMap_cons, flatMap_nil, length_append, hs,
      length_cons, length_nil]
    omega
  · have hc : (ascii "Content-Length: ").length = 16 := rfl
    have hk : (ascii "Connection: keep-alive").length = 22 := rfl
    simp only [unlines, crlf, flatMap_cons, flatMap_nil, length_append, hs, hc, hk,
      length_cons, length_nil]
    omega

theorem unlines_headers_length (hs : List Header) : (unlines (hs.map headerLine)).length =
    (hs.map fun h => h.key.length + 4 + h.value.length).sum := by
  induction hs with
  | nil => rfl
  | cons h hs ih =>
    rw [map_cons, unlines, flatMap_cons, ← unlines, length_append, ih, map_cons,
      sum_cons]
    have hc : (ascii ": ").length = 2 := rfl
    simp only [headerLine, crlf, length_append, length_cons, length_nil]
    omega

theorem csilkSerializeHttp1Response_eq (r : Response) (h1 : 100 ≤ r.status) (h2 : r.status ≤ 999)
    (hne : csilkSerializeHttp1Response r capacity ≠ []) :
    (csilkSerializeHttp1Response r capacity).length ≤ capacity ∧
      csilkSerializeHttp1Response r capacity =
        unlines (controlLines r.status r.body.length ++ (chained r.headers).map headerLine) ++
          crlf ++ r.body := by
  have h0 : r.status ≠ 0 := by omega
  have hlen := controlLines_length h1 h2 r.body_lt
  unfold csilkSerializeHttp1Response at hne ⊢
  simp only [if_neg h0] at hne ⊢
  split at hne
  · exact absurd rfl hne
  · rename_i hc
    rw [if_neg hc]
    split at hne
    · exact absurd rfl hne
    · rename_i hb
      rw [if_neg hb]
      rw [fastSerializeStatusAndControl_eq h1 h2, appendCustomHeadersFast_eq, unlines_append]
      refine ⟨?_, rfl⟩
      rw [length_append, length_append, length_append, unlines_headers_length]
      have hcrlf : crlf.length = 2 := rfl
      omega

theorem cutHead_unlines (hne : ls ≠ []) (hls : ∀ l ∈ ls, l ≠ [] ∧ IsLine l) (body : Bytes) :
    ∃ head, cutHead (unlines ls ++ crlf ++ body) = some (head, body) ∧ splitLines head = ls := by
  refine ⟨crlf.intercalate ls, ?_, splitLines_intercalate ls hne fun l hl => (hls l hl).2.1⟩
  have hcut := cutHead_intercalate ls hne (fun l hl => ⟨(hls l hl).1, (hls l hl).2.1⟩) body
  rw [unlines_eq ls hne]
  simpa only [append_assoc] using hcut

theorem headerLines_isLine (h : Sound m) : ∀ l ∈ (chained m).map headerLine, l ≠ [] ∧ IsLine l := by
  intro l hl
  obtain ⟨e, he, rfl⟩ := List.mem_map.1 hl
  obtain ⟨-, hk, hv⟩ := h.clean e (h.chained.mem_iff.1 he)
  exact ⟨by simp [headerLine, ascii], isLine_headerLine hk hv⟩

/-- The header lines are those asked for, and the rest is the body. -/
theorem csilkSerializeHttp1Response_framed (calls : List Call) (status : Nat) (h1 : 100 ≤ status)
    (h2 : status ≤ 999) (body : Bytes) (hbody : body.length < 2 ^ 64) (capacity : Nat) :
    let r : Response := { calls.foldl Call.apply .fresh with
      status := status, body := body, body_lt := hbody }
    let out := csilkSerializeHttp1Response r capacity
    out ≠ [] → out.length ≤ capacity ∧
      ∃ (head : Bytes) (hs : List Header), cutHead out = some (head, body) ∧ hs.Perm r.headers.entries ∧
        splitLines head = controlLines status body.length ++ hs.map headerLine ∧
        ∀ l ∈ splitLines head, IsLine l := by
  intro r out hne
  obtain ⟨hlen, hout⟩ := csilkSerializeHttp1Response_eq r h1 h2 hne
  have hsound : Sound r.headers := sound_empty.applyAll calls
  have hls : ∀ l ∈ controlLines status body.length ++ (chained r.headers).map headerLine,
      l ≠ [] ∧ IsLine l := forall_mem_append.2 ⟨controlLines_isLine _ _, headerLines_isLine hsound⟩
  have hne' : controlLines status body.length ++ (chained r.headers).map headerLine ≠ [] := by
    unfold controlLines
    split <;> simp
  obtain ⟨head, hcut, hsplit⟩ := cutHead_unlines hne' hls body
  rw [← show out = _ from hout] at hcut
  refine ⟨hlen, head, chained r.headers, hcut, hsound.chained, hsplit, ?_⟩
  rw [hsplit]
  exact fun l hl => (hls l hl).2

theorem csilkSerializeHttp1Response_framed_injected :
    let r : Response := { [Call.setHeader (ascii "X") [65, 13, 10, 66]].foldl Call.apply .fresh with
      status := 404, body := ascii "no", body_lt := by decide }
    ∃ (head : Bytes) (hs : List Header),
      cutHead (csilkSerializeHttp1Response r 300) = some (head, ascii "no") ∧ hs.Perm r.headers.entries ∧
      splitLines head = controlLines 404 2 ++ hs.map headerLine ∧
      ∀ l ∈ splitLines head, IsLine l := by
  intro r
  have hne : csilkSerializeHttp1Response r 300 ≠ [] := by
    intro h
    have hl := congrArg (List.headD · 0) h
    revert hl
    decide
  exact (csilkSerializeHttp1Response_framed [.setHeader (ascii "X") [65, 13, 10, 66]] 404 (by decide)
    (by decide) (ascii "no") (by decide) 300 hne).2

/-- A response with status 101 has neither a length nor a connection line. -/
theorem csilkSerializeHttp1Response_switching :
    let r : Response := { Response.fresh with status := 101 }
    cutHead (csilkSerializeHttp1Response r 300) =
        some (ascii "HTTP/1.1 101 Switching Protocols", []) ∧
      splitLines (ascii "HTTP/1.1 101 Switching Protocols") =
        [ascii "HTTP/1.1 101 Switching Protocols"] := by
  decide

end Csilk.Http1
