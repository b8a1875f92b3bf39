import Csilk.Http1.Assembly

namespace Csilk.Http1
open Csilk.Headers List Option

structure Message where
  url : Bytes
  headers : List (Bytes × Bytes)
  body : Bytes

structure HeaderTexts where
  field : List Bytes
  value : List Bytes
  field_ne : field ≠ []

structure Texts where
  url : List Bytes
  headers : List HeaderTexts
  body : List Bytes

def HeaderTexts.header (h : HeaderTexts) : Bytes × Bytes := (h.field.flatten, h.value.flatten)

def Texts.message (t : Texts) : Message :=
  ⟨t.url.flatten, t.headers.map HeaderTexts.header, t.body.flatten⟩

def HeaderTexts.items (h : HeaderTexts) : List Item :=
  h.field.map .headerField ++ (.headerFieldComplete :: (h.value.map .headerValue ++
    [.headerValueComplete]))

def Texts.items (t : Texts) : List Item :=
  .messageBegin :: (t.url.map .url ++ (t.headers.flatMap HeaderTexts.items ++
    (.headersComplete :: t.body.map .body)))

def textSize (h : Bytes × Bytes) : Nat := h.1.length + h.2.length

structure Message.Fits (m : Message) (lim : Limits) : Prop where
  url : lim.maxUrlSize = 0 ∨ m.url.length ≤ lim.maxUrlSize
  size : (m.headers.map textSize).sum ≤ lim.maxHeaderSize
  count : lim.maxHeadersCount = 0 ∨ m.headers.length ≤ lim.maxHeadersCount
  body : m.body.length ≤ lim.maxBodySize
  word : m.body.length + 1 ≤ sizeMax

def addHeaders (m : HeaderMap) (hs : List (Bytes × Bytes)) : HeaderMap :=
  hs.foldl (fun m h => (mapSetView m h.1 h.2).1) m

namespace Assembly

theorem run_append (lim : Limits) (a : Assembly) (xs ys : List Item) :
    a.run lim (xs ++ ys) = (a.run lim xs).bind fun a => a.run lim ys := by
  induction xs generalizing a with
  | nil => rfl
  | cons x xs ih =>
    rw [cons_append, run, run, bind_assoc]
    congr 1
    funext b
    exact ih b

theorem run_then (hx : run lim a xs = some b) (hy : b.run lim ys = some c) :
    a.run lim (xs ++ ys) = some c := by
  rw [run_append, hx]
  exact hy

section

variable (lim : Limits) (bs : List Bytes) (a : Assembly)
include lim bs a

theorem run_url (h : lim.maxUrlSize = 0 ∨ bs.flatten.length ≤ lim.maxUrlSize) :
    ∃ u, u.getD [] = a.url.getD [] ++ bs.flatten ∧
      a.run lim (bs.map .url) = some { a with url := u } := by
  induction bs generalizing a with
  | nil => exact ⟨a.url, (append_nil _).symm, rfl⟩
  | cons b bs ih =>
    rw [flatten_cons, length_append] at h
    obtain ⟨u, hu, hr⟩ := ih { a with url := some (a.url.getD [] ++ b) } (by omega)
    refine ⟨u, ?_, ?_⟩
    · rw [hu, flatten_cons, ← append_assoc]
      rfl
    · rw [map_cons, run, step, if_neg (by omega)]
      exact hr

theorem run_field (hf : a.field = some f)
    (hc : a.fieldCompleted = false) (h : a.headerSize + bs.flatten.length ≤ lim.maxHeaderSize) :
    a.run lim (bs.map .headerField) =
      some { a with headerSize := a.headerSize + bs.flatten.length,
                    field := some (f ++ bs.flatten) } := by
  induction bs generalizing a f with
  | nil =>
    rw [flatten_nil, append_nil, ← hf]
    rfl
  | cons b bs ih =>
    rw [flatten_cons, length_append] at h
    have hstep : a.step lim (.headerField b) =
        some { a with headerSize := a.headerSize + b.length, field := some (f ++ b) } := by
      rw [step, if_neg (by dsimp only; omega)]
      simp only [beginField, hc, Bool.false_eq_true, if_false, appendField, hf]
    rw [map_cons, run, hstep, bind_some]
    rw [ih { a with headerSize := a.headerSize + b.length, field := some (f ++ b) } rfl hc
      (by dsimp only; omega)]
    rw [flatten_cons, length_append, append_assoc, add_assoc]

theorem run_value (h : a.headerSize + bs.flatten.length ≤ lim.maxHeaderSize) :
    ∃ v, v.getD [] = a.value.getD [] ++ bs.flatten ∧ a.run lim (bs.map .headerValue) =
      some { a with headerSize := a.headerSize + bs.flatten.length, value := v } := by
  induction bs generalizing a with
  | nil => exact ⟨a.value, (append_nil _).symm, rfl⟩
  | cons b bs ih =>
    rw [flatten_cons, length_append] at h
    obtain ⟨v, hv, hr⟩ := ih { a with headerSize := a.headerSize + b.length,
                                      value := some (a.value.getD [] ++ b) } (by dsimp only; omega)
    refine ⟨v, ?_, ?_⟩
    · rw [hv, flatten_cons, ← append_assoc]
      rfl
    · rw [map_cons, run, step, if_neg (by dsimp only; omega),
        bind_some, hr, flatten_cons, length_append, add_assoc]

end

theorem run_header (lim : Limits) (h : HeaderTexts) (a : Assembly) (hf : a.field = none)
    (hc : a.fieldCompleted = false)
    (hsize : a.headerSize + textSize h.header ≤ lim.maxHeaderSize)
    (hcount : lim.maxHeadersCount = 0 ∨ a.headerCount + 1 ≤ lim.maxHeadersCount) :
    a.run lim h.items =
      some { a with headers := (mapSetView a.headers h.header.1 h.header.2).1, value := none,
                    headerSize := a.headerSize + textSize h.header,
                    headerCount := a.headerCount + 1 } := by
  obtain ⟨field, value, hne⟩ := h
  obtain ⟨b, bs, rfl⟩ := exists_cons_of_ne_nil hne
  have hl : textSize (HeaderTexts.header ⟨b :: bs, value, hne⟩) =
      b.length + bs.flatten.length + value.flatten.length := by
    simp [textSize, HeaderTexts.header]
  rw [hl] at hsize ⊢
  have hfirst : a.step lim (.headerField b) =
      some { a with headerSize := a.headerSize + b.length, headerCount := a.headerCount + 1,
                    field := some b, value := none } := by
    rw [step, if_neg (by dsimp only; omega)]
    simp only [beginField, hc, Bool.false_eq_true, if_false, appendField, hf]
    rw [if_neg (by omega)]
  have hrest := run_field lim bs
    { a with headerSize := a.headerSize + b.length, headerCount := a.headerCount + 1,
             field := some b, value := none } rfl hc (by dsimp only; omega)
  obtain ⟨v, hv, hval⟩ := run_value lim value
    { a with headerSize := a.headerSize + b.length + bs.flatten.length,
             headerCount := a.headerCount + 1, field := some (b ++ bs.flatten), value := none,
             fieldCompleted := true } (by dsimp only; omega)
  have hname : a.run lim ((b :: bs).map .headerField) =
      some { a with headerSize := a.headerSize + b.length + bs.flatten.length,
                    headerCount := a.headerCount + 1, field := some (b ++ bs.flatten),
                    value := none } := by
    rw [map_cons, run, hfirst, bind_some]
    exact hrest
  apply run_then hname
  apply run_then hval
  rw [run, step, persist, hv]
  simp only [run, bind_some, HeaderTexts.header, flatten_cons, hf, hc,
    getD_none, nil_append, add_assoc]

theorem run_headers (lim : Limits) (hs : List HeaderTexts) (a : Assembly) (hf : a.field = none)
    (hc : a.fieldCompleted = false) (hv : a.value = none)
    (hsize : a.headerSize + ((hs.map HeaderTexts.header).map textSize).sum ≤ lim.maxHeaderSize)
    (hcount : lim.maxHeadersCount = 0 ∨ a.headerCount + hs.length ≤ lim.maxHeadersCount) :
    ∃ n k, a.run lim (hs.flatMap HeaderTexts.items) =
      some { a with headers := addHeaders a.headers (hs.map HeaderTexts.header),
                    headerSize := n, headerCount := k } := by
  induction hs generalizing a with
  | nil => exact ⟨_, _, rfl⟩
  | cons h hs ih =>
    simp only [map_cons, sum_cons, length_cons] at hsize hcount
    have hh := run_header lim h a hf hc (by omega) (by omega)
    obtain ⟨n, k, hr⟩ := ih { a with
      headers := (mapSetView a.headers h.header.1 h.header.2).1, value := none,
      headerSize := a.headerSize + textSize h.header, headerCount := a.headerCount + 1 } hf hc rfl
      (by dsimp only; omega) (by dsimp only; omega)
    refine ⟨n, k, ?_⟩
    rw [flatMap_cons]
    apply run_then hh
    rw [hr, hv]
    rfl

theorem run_body (lim : Limits) (bs : List Bytes) (a : Assembly)
    (h : (a.body ++ bs.flatten).length ≤ lim.maxBodySize)
    (hw : (a.body ++ bs.flatten).length + 1 ≤ sizeMax) :
    a.run lim (bs.map .body) = some { a with body := a.body ++ bs.flatten } := by
  induction bs generalizing a with
  | nil =>
    rw [flatten_nil, append_nil]
    rfl
  | cons b bs ih =>
    have happ : a.body ++ (b :: bs).flatten = a.body ++ b ++ bs.flatten := by
      rw [flatten_cons, append_assoc]
    rw [happ] at h hw
    have hl : (a.body ++ b ++ bs.flatten).length =
        a.body.length + b.length + bs.flatten.length := by
      simp only [length_append]
    rw [map_cons, run, step, if_neg (by omega), if_neg (by omega),
      bind_some, happ]
    exact ih { a with body := a.body ++ b } (hl ▸ h) (hl ▸ hw)

end Assembly

structure Assembled (a : Assembly) (m : Message) : Prop where
  url : a.url.getD [] = m.url
  headers : a.headers = addHeaders .empty m.headers
  body : a.body = m.body
  field : a.field = none

structure Assembly.Idle (a : Assembly) : Prop where
  url : a.url = none
  headers : a.headers = .empty
  body : a.body = []

theorem Assembly.run_items (t : Texts) (a : Assembly) (ha : a.Idle) (hfit : t.message.Fits lim) :
    ∃ b, a.run lim t.items = some b ∧ Assembled b t.message := by
  obtain ⟨hurl, hsize, hcount, hbody, hword⟩ := hfit
  obtain ⟨u, hu, hrun⟩ := Assembly.run_url lim t.url
    { a with headerSize := 0, headerCount := 0, fieldCompleted := false, field := none,
             value := none } hurl
  obtain ⟨n, k, hheaders⟩ := Assembly.run_headers lim t.headers
    { a with headerSize := 0, headerCount := 0, fieldCompleted := false, field := none,
             value := none, url := u } rfl rfl rfl
    (by rw [zero_add]; exact hsize) (by simpa [Texts.message] using hcount)
  have hbody := Assembly.run_body lim t.body
    { a with headerSize := n, headerCount := k, fieldCompleted := false, field := none,
             value := none, url := u, headers := addHeaders a.headers t.message.headers }
    (by rw [ha.body]; exact hbody) (by rw [ha.body]; exact hword)
  have hall : a.run lim t.items = some
      { a with headerSize := n, headerCount := k, fieldCompleted := false, field := none,
               value := none, url := u, headers := addHeaders a.headers t.message.headers,
               body := a.body ++ t.body.flatten } := by
    apply Assembly.run_then hrun
    apply Assembly.run_then hheaders
    exact hbody
  rw [ha.headers, ha.body] at hall
  rw [ha.url] at hu
  exact ⟨_, hall, hu, rfl, rfl, rfl⟩

abbrev Piece := Nat × Nat

structure HeaderCut where
  field : List Piece
  value : List Piece
  field_ne : field ≠ []

/-- Where the pieces of a request lie: anywhere, next to each other or not. -/
structure Cut where
  url : List Piece
  headers : List HeaderCut
  body : List Piece

def HeaderCut.callbacks (h : HeaderCut) : List Callback :=
  h.field.map (fun p => .headerField p.1 p.2) ++ (.headerFieldComplete ::
    (h.value.map (fun p => .headerValue p.1 p.2) ++ [.headerValueComplete]))

def Cut.callbacks (k : Cut) : List Callback :=
  .messageBegin :: (k.url.map (fun p => .url p.1 p.2) ++
    (k.headers.flatMap HeaderCut.callbacks ++
      (.headersComplete :: k.body.map fun p => .body p.1 p.2)))

def readPieces (mem : Nat → UInt8) (ps : List Piece) : List Bytes := ps.map fun p => readMem mem p.1 p.2

def HeaderCut.texts (mem : Nat → UInt8) (h : HeaderCut) : HeaderTexts :=
  ⟨readPieces mem h.field, readPieces mem h.value, fun he => h.field_ne (map_eq_nil_iff.1 he)⟩

def Cut.texts (mem : Nat → UInt8) (k : Cut) : Texts :=
  ⟨readPieces mem k.url, k.headers.map (HeaderCut.texts mem), readPieces mem k.body⟩

theorem HeaderCut.items_callbacks (mem : Nat → UInt8) (h : HeaderCut) :
    h.callbacks.map (Callback.item mem) = (h.texts mem).items := by
  simp only [HeaderCut.callbacks, HeaderTexts.items, HeaderCut.texts, readPieces, map_append,
    map_cons, List.map_map, map_nil]
  rfl

theorem Cut.items_callbacks (mem : Nat → UInt8) (k : Cut) :
    k.callbacks.map (Callback.item mem) = (k.texts mem).items := by
  have hh : (k.headers.flatMap HeaderCut.callbacks).map (Callback.item mem) =
      (k.headers.map (HeaderCut.texts mem)).flatMap HeaderTexts.items := by
    rw [map_flatMap, flatMap_map]
    congr 1
    funext h
    exact h.items_callbacks mem
  simp only [Cut.callbacks, Texts.items, Cut.texts, readPieces, map_append, map_cons,
    List.map_map, hh]
  rfl

structure Client.Idle (c : Client) : Prop where
  url : c.currentUrl = none
  headers : c.request.headers = .empty
  body : c.request.body = .none

theorem Client.Idle.assembly (h : Client.Idle c) : c.assembly.Idle where
  url := by rw [Client.assembly, h.url]; rfl
  headers := h.headers
  body := by rw [Client.assembly, Client.bodyBytes, h.body]

theorem runCallbacks_assembled (hc : Client.Idle c) (k : Cut)
    (hfit : (k.texts c.mem).message.Fits lim) :
    ∃ d, runCallbacks lim c k.callbacks = .ok d ∧
      Assembled d.assembly (k.texts c.mem).message := by
  obtain ⟨b, hb, hdone⟩ := Assembly.run_items (k.texts c.mem) c.assembly hc.assembly hfit
  have hg := runCallbacks_gives lim c k.callbacks
  rw [k.items_callbacks, hb] at hg
  cases hr : runCallbacks lim c k.callbacks with
  | error d =>
    rw [hr] at hg
    cases hg
  | ok d =>
    rw [hr] at hg
    cases hg.1
    exact ⟨d, rfl, hdone⟩

/-- What is put together of a request does not depend on how it is cut. -/
theorem runCallbacks_chunking (lim : Limits) (c₁ c₂ : Client) (h₁ : c₁.Idle) (h₂ : c₂.Idle)
    (k₁ k₂ : Cut) (hsame : (k₁.texts c₁.mem).message = (k₂.texts c₂.mem).message)
    (hfit : (k₁.texts c₁.mem).message.Fits lim) :
    ∃ d₁ d₂, runCallbacks lim c₁ k₁.callbacks = .ok d₁ ∧ runCallbacks lim c₂ k₂.callbacks = .ok d₂ ∧
      d₁.text d₁.currentUrl = d₂.text d₂.currentUrl ∧
      (∀ key, mapGet d₁.request.headers key = mapGet d₂.request.headers key) ∧
      d₁.bodyBytes = d₂.bodyBytes := by
  obtain ⟨d₁, hr₁, ha₁⟩ := runCallbacks_assembled h₁ k₁ hfit
  obtain ⟨d₂, hr₂, ha₂⟩ := runCallbacks_assembled h₂ k₂ (hsame ▸ hfit)
  rw [hsame] at ha₁
  refine ⟨d₁, d₂, hr₁, hr₂, ha₁.url.trans ha₂.url.symm, ?_, ha₁.body.trans ha₂.body.symm⟩
  intro key
  have hh : d₁.request.headers = d₂.request.headers := ha₁.headers.trans ha₂.headers.symm
  rw [hh]

theorem runCallbacks_chunking_split :
    let c₁ := Client.new fun i => (ascii "/a-bHo-stxyz").getD i 0
    let c₂ := Client.new fun i => (ascii "/abHostxyz").getD i 0
    let k₁ : Cut := ⟨[(0, 2), (3, 1)], [⟨[(4, 2), (7, 2)], [(9, 1)], by decide⟩], [(10, 1), (11, 1)]⟩
    let k₂ : Cut := ⟨[(0, 3)], [⟨[(3, 4)], [(7, 1)], by decide⟩], [(8, 2)]⟩
    ∃ d₁ d₂, runCallbacks ⟨0, 100, 0, 100⟩ c₁ k₁.callbacks = .ok d₁ ∧
      runCallbacks ⟨0, 100, 0, 100⟩ c₂ k₂.callbacks = .ok d₂ ∧
      d₁.text d₁.currentUrl = d₂.text d₂.currentUrl ∧
      (∀ key, mapGet d₁.request.headers key = mapGet d₂.request.headers key) ∧
      d₁.bodyBytes = d₂.bodyBytes := by
  intro c₁ c₂ k₁ k₂
  exact runCallbacks_chunking ⟨0, 100, 0, 100⟩ c₁ c₂ ⟨rfl, rfl, rfl⟩ ⟨rfl, rfl, rfl⟩ k₁ k₂ rfl
    ⟨by decide, by decide, by decide, by decide, by decide⟩

end Csilk.Http1
