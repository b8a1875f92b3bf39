import Csilk.Headers.Map
import Csilk.Lib.Lines

namespace Csilk.Http1
open Csilk.Headers Csilk.Lib

/-- The status is 0 until one is set, and a body's length is a `size_t`. -/
structure Response where
  status : Nat
  body : Bytes
  body_lt : body.length < 2 ^ 64
  headers : HeaderMap

def csilkSetHeader (r : Response) (key value : Bytes) : Response :=
  { r with headers := (mapSet r.headers key value).1 }

def csilkAddHeader (r : Response) (key value : Bytes) : Response :=
  { r with headers := (mapAdd r.headers key value).1 }

def csilkStatus (r : Response) (status : Nat) : Response := { r with status := status }

def csilkString (r : Response) (status : Nat) (msg : Bytes) (h : msg.length < 2 ^ 64) : Response :=
  { r with status := status, body := msg, body_lt := h }

def uintDigits (val : Nat) : Bytes :=
  if val = 0 then [] else UInt8.ofNat (48 + val % 10) :: uintDigits (val / 10)
termination_by val
decreasing_by omega

/-- `fast_uint64_to_str`, and `%d` of a positive number. -/
def fastUint64ToStr (val : Nat) : Bytes := if val = 0 then ascii "0" else (uintDigits val).reverse

def cookieText (name value : Bytes) (maxAge : Int) (path domain : Option Bytes)
    (secure httpOnly : Bool) (sameSite : Option Bytes) : Bytes :=
  name ++ ascii "=" ++ value ++
    (if 0 < maxAge then ascii "; Max-Age=" ++ fastUint64ToStr maxAge.toNat
      else if maxAge < 0 then ascii "; Max-Age=0" else []) ++
    (match path with
      | some path => ascii "; Path=" ++ path
      | none => ascii "; Path=/") ++
    (match domain with
      | some domain => ascii "; Domain=" ++ domain
      | none => []) ++
    (if secure then ascii "; Secure" else []) ++
    (if httpOnly then ascii "; HttpOnly" else []) ++
    (match sameSite with
      | some site => if site = [] then [] else ascii "; SameSite=" ++ site
      | none => [])

def csilkSetCookieEx (r : Response) (name value : Bytes) (maxAge : Int) (path domain : Option Bytes)
    (secure httpOnly : Bool) (sameSite : Option Bytes) : Response :=
  csilkAddHeader r (ascii "Set-Cookie")
    (cookieText name value maxAge path domain secure httpOnly sameSite)

def strstr (s t : Bytes) : Bool := s.tails.any t.isPrefixOf

def unsafeLocation (location : Bytes) : Bool :=
  let c0 := location.getD 0 0
  let c1 := location.getD 1 0
  (c0 = 47 && (c1 = 47 || c1 = 92)) || (c0 = 92 && (c1 = 92 || c1 = 47)) ||
    strncasecmp location (ascii "http:") 5 || strncasecmp location (ascii "https:") 6 ||
    strncasecmp location (ascii "javascript:") 11 || strncasecmp location (ascii "data:") 5 ||
    strncasecmp location (ascii "vbscript:") 9 || strstr location (ascii "://")

/-- `csilk_redirect`; the location is copied into a buffer of 1024 bytes. -/
def csilkRedirect (r : Response) (status : Nat) (location : Bytes) : Response :=
  let status := if status < 300 ∨ 308 < status then 302 else status
  if unsafeLocation location then
    csilkString (csilkStatus r 400) 400 (ascii "Invalid redirect URL") (by decide)
  else
    let sanitized := (location.filter fun c => 0x20 ≤ c && c ≤ 0x7E && c ≠ 13 && c ≠ 10).take 1023
    csilkString (csilkStatus (csilkSetHeader r (ascii "Location") sanitized) status) status []
      (by decide)

def getStatusText : Nat → Bytes
  | 101 => ascii "Switching Protocols"
  | 200 => ascii "OK"
  | 201 => ascii "Created"
  | 204 => ascii "No Content"
  | 400 => ascii "Bad Request"
  | 401 => ascii "Unauthorized"
  | 403 => ascii "Forbidden"
  | 404 => ascii "Not Found"
  | 500 => ascii "Internal Server Error"
  | _ => ascii "OK"

def fastSerializeStatusAndControl (status : Nat) (statusText : Bytes) (useChunked : Bool)
    (transferEncoding : Bytes) (bodyLen : Nat) (connectionVal : Bytes) : Bytes :=
  let control :=
    (if useChunked then transferEncoding
      else ascii "Content-Length: " ++ fastUint64ToStr bodyLen ++ crlf) ++
    ascii "Connection: " ++ connectionVal ++ crlf
  if status = 200 then ascii "HTTP/1.1 200 OK" ++ crlf ++ control
  else if status = 101 then ascii "HTTP/1.1 101 Switching Protocols" ++ crlf
  else if status = 404 then ascii "HTTP/1.1 404 Not Found" ++ crlf ++ control
  else if status = 500 then ascii "HTTP/1.1 500 Internal Server Error" ++ crlf ++ control
  else
    ascii "HTTP/1.1 " ++ [UInt8.ofNat (48 + status / 100), UInt8.ofNat (48 + status / 10 % 10),
      UInt8.ofNat (48 + status % 10)] ++ ascii " " ++ statusText ++ crlf ++ control

def chained (m : HeaderMap) : List Header := m.stored.filterMap (m.entries[·]?)

def appendCustomHeadersFast (m : HeaderMap) : Bytes :=
  (chained m).flatMap fun h => h.key ++ ascii ": " ++ h.value ++ crlf

/-- `_csilk_serialize_http1_response`: the bytes it writes, none if it returns 0. -/
def csilkSerializeHttp1Response (r : Response) (capacity : Nat) : Bytes :=
  if capacity = 0 then []
  else
    let status := if r.status = 0 then 200 else r.status
    let statusText := getStatusText status
    let customHeadersLen := ((chained r.headers).map fun h => h.key.length + 4 + h.value.length).sum
    let bound := 128 + statusText.length + customHeadersLen + r.body.length + 32
    if bound > capacity then []
    else
      fastSerializeStatusAndControl status statusText false [] r.body.length (ascii "keep-alive") ++
        appendCustomHeadersFast r.headers ++ crlf ++ r.body

end Csilk.Http1
