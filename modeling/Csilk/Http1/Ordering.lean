import Csilk.Http1.Chunking
import Csilk.Http1.Views

namespace Csilk.Http1
open Csilk.Headers Csilk.Lib List Option

/-- A complete request with the pieces its text came in; its target is not empty. -/
structure Sent where
  method : Bytes
  texts : Texts
  target : texts.message.url ≠ []

def requestData (method url : Bytes) (headers : HeaderMap) (body : Bytes) : Data where
  method := method
  path := some (cString (csilkUrlDecode (cString (url.takeWhile (· ≠ 63)))))
  query := parseKeyValuePairs (cString ((url.dropWhile (· ≠ 63)).drop 1))
  headers := headers
  body := body

def Sent.data (q : Sent) : Data :=
  requestData q.method q.texts.message.url (addHeaders .empty q.texts.message.headers)
    q.texts.message.body

inductive Mark where
  | item (i : Item)
  | complete (method : Bytes)
deriving DecidableEq

def Mark.isComplete : Mark → Bool
  | .complete _ => true
  | .item _ => false

def Sent.marks (q : Sent) : List Mark := q.texts.items.map .item ++ [.complete q.method]

def bufferMem (bytes : Bytes) : Nat → UInt8 := fun i => bytes.getD i 0

def Signal.mark (bytes : Bytes) : Signal → Mark
  | .callback cb => .item (cb.item (bufferMem bytes))
  | .messageComplete method => .complete method

def Read.marks (r : Read) : List Mark := r.signals.map (Signal.mark r.bytes)

def completed (rs : List Read) : Nat := (rs.flatMap Read.marks).countP Mark.isComplete

def Assembly.start : Assembly := ⟨none, none, none, false, 0, 0, .empty, []⟩

structure Parsed where
  open? : Option Assembly
  done : List Data

def Assembly.data (a : Assembly) (method : Bytes) : Data :=
  requestData method (a.url.getD []) a.persist.headers a.body

theorem Assembled.data (h : Assembled a m) (method : Bytes) :
    a.data method = requestData method m.url (addHeaders .empty m.headers) m.body := by
  rw [Assembly.data, Assembly.persist, h.field, h.url, h.body]
  rw [h.headers]

namespace Parsed

def step (lim : Limits) (p : Parsed) (m : Mark) : Option Parsed :=
  match p.open?, m with
  | none, .item .messageBegin => some { p with open? := some .start }
  | none, _ => none
  | some a, .item i => (a.step lim i).map fun a => { p with open? := some a }
  | some a, .complete method =>
    if a.url.getD [] = [] then none else some ⟨none, p.done ++ [a.data method]⟩

theorem step_item (lim : Limits) (a : Assembly) (done : List Data) (i : Item) :
    step lim ⟨some a, done⟩ (.item i) = (a.step lim i).map fun a => ⟨some a, done⟩ := rfl

theorem step_complete (lim : Limits) (a : Assembly) (done : List Data) (method : Bytes)
    (hurl : a.url.getD [] ≠ []) :
    step lim ⟨some a, done⟩ (.complete method) = some ⟨none, done ++ [a.data method]⟩ :=
  if_neg hurl

def run (lim : Limits) (p : Parsed) : List Mark → Option Parsed
  | [] => some p
  | m :: ms => (p.step lim m).bind fun p => p.run lim ms

theorem run_append (lim : Limits) (p : Parsed) (xs ys : List Mark) :
    p.run lim (xs ++ ys) = (p.run lim xs).bind fun p => p.run lim ys := by
  induction xs generalizing p with
  | nil => rfl
  | cons x xs ih =>
    rw [cons_append, run, run, bind_assoc]
    congr 1
    funext q
    exact ih q

theorem run_items (lim : Limits) (is : List Item) (a b : Assembly) (done : List Data)
    (h : a.run lim is = some b) :
    run lim ⟨some a, done⟩ (is.map .item) = some ⟨some b, done⟩ := by
  induction is generalizing a with
  | nil =>
    cases h
    rfl
  | cons i is ih =>
    obtain ⟨a', ha, hrest⟩ := bind_eq_some_iff.1 h
    rw [map_cons, run, step_item, ha]
    exact ih a' hrest

theorem run_sent (lim : Limits) (q : Sent) (hfit : q.texts.message.Fits lim)
    (done : List Data) : run lim ⟨none, done⟩ q.marks = some ⟨none, done ++ [q.data]⟩ := by
  obtain ⟨b, hb, hdone⟩ := Assembly.run_items q.texts .start ⟨rfl, rfl, rfl⟩ hfit
  have hrun := run_items lim _ _ b done hb
  have hbegin : step lim ⟨none, done⟩ (.item .messageBegin) = some ⟨some .start, done⟩ := rfl
  have hend := step_complete lim b done q.method (by rw [hdone.url]; exact q.target)
  rw [Sent.marks, Texts.items, map_cons, cons_append, run, hbegin,
    bind_some, run_append]
  refine (congrArg (Option.bind · _) hrun).trans ?_
  rw [bind_some, run, hend, hdone.data]
  rfl

theorem run_sents (lim : Limits) (qs : List Sent) (hfit : ∀ q ∈ qs, q.texts.message.Fits lim)
    (done : List Data) :
    run lim ⟨none, done⟩ (qs.flatMap Sent.marks) = some ⟨none, done ++ qs.map Sent.data⟩ := by
  induction qs generalizing done with
  | nil =>
    rw [map_nil, append_nil]
    rfl
  | cons q qs ih =>
    obtain ⟨hq, hqs⟩ := forall_mem_cons.1 hfit
    rw [flatMap_cons, run_append, run_sent lim q hq, bind_some,
      ih hqs, map_cons, append_assoc]
    rfl

theorem step_done (h : step lim p m = some p') :
    p.done <+: p'.done ∧ p'.done.length = p.done.length + if m.isComplete then 1 else 0 := by
  unfold step at h
  split at h
  · cases h
    exact ⟨prefix_rfl, rfl⟩
  · cases h
  · obtain ⟨a, _, rfl⟩ := map_eq_some_iff.1 h
    exact ⟨prefix_rfl, rfl⟩
  · split at h
    · cases h
    · cases h
      exact ⟨prefix_append _ _, length_append⟩

theorem run_done (ms : List Mark) (h : run lim p ms = some p') :
    p.done <+: p'.done ∧ p'.done.length = p.done.length + ms.countP Mark.isComplete := by
  induction ms generalizing p with
  | nil =>
    cases h
    exact ⟨prefix_rfl, rfl⟩
  | cons m ms ih =>
    obtain ⟨q, hq, hrest⟩ := bind_eq_some_iff.1 h
    obtain ⟨hpre, hlen⟩ := step_done hq
    obtain ⟨hpre', hlen'⟩ := ih hrest
    refine ⟨hpre.trans hpre', ?_⟩
    rw [hlen', hlen, countP_cons, add_assoc, add_comm (ite _ _ _)]

theorem run_prefix (lim : Limits) (qs : List Sent)
    (hfit : ∀ q ∈ qs, q.texts.message.Fits lim) (hms : ms <+: qs.flatMap Sent.marks) :
    ∃ p, run lim ⟨none, []⟩ ms = some p ∧
      p.done = (qs.take (ms.countP Mark.isComplete)).map Sent.data := by
  obtain ⟨rest, hrest⟩ := hms
  have hall := run_sents lim qs hfit []
  rw [← hrest, run_append, nil_append] at hall
  obtain ⟨p, hp, hq⟩ := bind_eq_some_iff.1 hall
  obtain ⟨hpre, _⟩ := run_done rest hq
  obtain ⟨_, hlen⟩ := run_done ms hp
  refine ⟨p, hp, ?_⟩
  rw [prefix_iff_eq_take.1 hpre, hlen, map_take, length_nil, zero_add]

end Parsed

end Csilk.Http1
