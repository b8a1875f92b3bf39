import Csilk.Http1.Replacing
import Mathlib.Data.List.DropRight

namespace Csilk.Gzip
open Csilk.Headers Csilk.Http1 List

/-- zlib with the gzip wrapper; `deflate` is one call with `Z_FINISH` that ends the stream in its
room. -/
structure Zlib where
  deflateBound : Nat → Nat
  deflate : Bytes → Nat → Option Bytes
  inflate : Bytes → Option Bytes
  fits : deflate src cap = some out → out.length ≤ cap
  inverts : deflate src cap = some out → inflate out = some src

/-- Whether deflations get stream and buffer, the state is allocated and the work queued, and what a
new buffer holds. -/
structure Env where
  inline : Bool
  work : Bool
  state : Bool
  queued : Bool
  fresh : Bytes

structure Response where
  status : Nat
  body : Bytes
  headers : HeaderMap

/-- The deflation of both paths; `avail_in` and `avail_out` have 32 bits. -/
def gzip (z : Zlib) (ok : Bool) (fresh body : Bytes) (destCap : Nat) : Option Bytes :=
  if ok then
    (z.deflate (body.take (body.length % 2 ^ 32)) (destCap % 2 ^ 32)).map fun out =>
      (out ++ fresh).take (destCap - (destCap % 2 ^ 32 - out.length))
  else none

def apply (r : Response) (dest : Bytes) : Response where
  status := r.status
  body := dest
  headers := (mapSet (mapSet r.headers (ascii "Content-Encoding") (ascii "gzip")).1 (ascii "Vary")
    (ascii "Accept-Encoding")).1

def csilkGzipWorkCb (z : Zlib) (env : Env) (body : Bytes) : Option Bytes :=
  gzip z env.work env.fresh body (min (z.deflateBound body.length) (body.length * 1024 % 2 ^ 64))

def csilkGzipAfterWorkCb (r : Response) (dest : Option Bytes) : Response := dest.elim r (apply r)

/-- The responses that are not compressed; every header is read from the request. -/
def skips (request : HeaderMap) (r : Response) : Bool :=
  r.body.length = 0 || (mapGet request (ascii "Content-Encoding")).isSome ||
    (mapGet request (ascii "Content-Type")).any (fun type =>
      ["image/", "video/", "audio/", "application/pdf", "application/zip", "application/x-gzip"].any
        fun t => strstr type (ascii t)) ||
    !(mapGet request (ascii "Accept-Encoding")).any (strstr · (ascii "gzip")) || r.body.length < 1024

/-- `csilk_gzip_middleware` after `csilk_next`, up to the sending of the response. -/
def csilkGzipMiddleware (z : Zlib) (env : Env) (request : HeaderMap) (r : Response) : Response :=
  if skips request r then r
  else
    let inline := if r.body.length < 32768 then
        gzip z env.inline env.fresh r.body (z.deflateBound r.body.length)
      else none
    match inline with
    | some dest => apply r dest
    | none =>
      if !env.state then r
      else if env.queued then csilkGzipAfterWorkCb r (csilkGzipWorkCb z env r.body)
      else { r with status := 500 }

def encodingLines (m : HeaderMap) : List Header :=
  (chained m).filter fun h => foldCase h.key = foldCase (ascii "Content-Encoding")

def isBlank (b : UInt8) : Bool := b = 32 || b = 9

/-- The elements of a list in a header value, without the blanks around them. -/
def listed (value : Bytes) : List Bytes :=
  ((value.splitOnP (· = 44)).map fun item =>
    foldCase ((item.dropWhile isBlank).rdropWhile isBlank)).filter (· ≠ [])

/-- The body with the codings of the response undone, the last one first. -/
def representation (decoder : Bytes → Bytes → Option Bytes) (r : Response) : Option Bytes :=
  ((encodingLines r.headers).flatMap fun h => listed h.value).foldr
    (fun coding body => body.bind (decoder coding)) (some r.body)

theorem gzip_inverts (z : Zlib) (hbody : body.length < 2 ^ 32) (hcap : cap < 2 ^ 32)
    (h : gzip z ok fresh body cap = some dest) : z.inflate dest = some body := by
  obtain ⟨-, h⟩ := Option.ite_none_right_eq_some.1 h
  obtain ⟨out, hout, rfl⟩ := Option.map_eq_some_iff.1 h
  rw [Nat.mod_eq_of_lt hbody, take_length, Nat.mod_eq_of_lt hcap] at hout
  rw [Nat.mod_eq_of_lt hcap, Nat.sub_sub_self (z.fits hout), take_left]
  exact z.inverts hout

theorem csilkGzipMiddleware_cases (z : Zlib) (env : Env) (request : HeaderMap) (r : Response)
    (hbody : r.body.length < 2 ^ 32) (hbound : z.deflateBound r.body.length < 2 ^ 32) :
    (∃ status, csilkGzipMiddleware z env request r = { r with status := status }) ∨
      ∃ dest, z.inflate dest = some r.body ∧ csilkGzipMiddleware z env request r = apply r dest := by
  rw [csilkGzipMiddleware]
  split
  · exact .inl ⟨_, rfl⟩
  dsimp only
  split
  · rename_i dest hdest
    obtain ⟨-, hdest⟩ := Option.ite_none_right_eq_some.1 hdest
    exact .inr ⟨dest, gzip_inverts z hbody hbound hdest, rfl⟩
  · split_ifs
    · exact .inl ⟨_, rfl⟩
    · cases hdest : csilkGzipWorkCb z env r.body with
      | none => exact .inl ⟨_, rfl⟩
      | some dest =>
        have hcap := lt_of_le_of_lt (Nat.min_le_left _ (r.body.length * 1024 % 2 ^ 64)) hbound
        exact .inr ⟨dest, gzip_inverts z hbody hcap hdest, rfl⟩
    · exact .inl ⟨_, rfl⟩

theorem apply_encodingLines (hws : ∀ w ∈ ws, w.Ok) (hr : r.headers = (recordAll ws).1)
    (hnone : encodingLines r.headers = []) (dest : Bytes) :
    ∃ h : Header, h.value = ascii "gzip" ∧ encodingLines (apply r dest).headers = [h] := by
  rw [hr] at hnone
  have hcopies := length_filter_chained (ascii "Content-Encoding") hws
  rw [← encodingLines, hnone] at hcopies
  have hset : Write.Ok (.set (ascii "Content-Encoding") (ascii "gzip")) :=
    ⟨⟨by decide, all_eq_true.1 (by decide)⟩, ⟨by decide, by decide⟩, by decide⟩
  have hvary : Write.Ok (.set (ascii "Vary") (ascii "Accept-Encoding")) :=
    ⟨⟨by decide, all_eq_true.1 (by decide)⟩, ⟨by decide, by decide⟩, by decide⟩
  have hall := forall_mem_append.2 ⟨hws, forall_mem_cons.2 ⟨hset, forall_mem_singleton.2 hvary⟩⟩
  have hle : copies (ascii "Content-Encoding") ws ≤ 1 := hcopies ▸ Nat.zero_le 1
  obtain ⟨h, hvalue, hone⟩ := set_once (forall_mem_singleton.2 (by decide)) hall hle
  refine ⟨h, hvalue, ?_⟩
  rw [← hone, recordAll, foldl_append, apply, hr]
  rfl

def stored : Zlib where
  deflateBound n := n + 1
  deflate src cap := if src.length < cap then some (31 :: src) else none
  inflate out := some out.tail
  fits h := by
    obtain ⟨hlt, ⟨⟩⟩ := Option.ite_none_right_eq_some.1 h
    exact hlt
  inverts h := by
    obtain ⟨-, ⟨⟩⟩ := Option.ite_none_right_eq_some.1 h
    rfl

def page (ws : List Write) : Response := ⟨200, replicate 1024 0, (recordAll ws).1⟩

def sent (ws : List Write) : Response :=
  csilkGzipMiddleware stored ⟨true, true, true, true, []⟩
    (recordAll [.set (ascii "Accept-Encoding") (ascii "gzip")]).1 (page ws)

end Csilk.Gzip
