import Csilk.Bytes
import Csilk.Lib.Lines
import Csilk.Lib.Search

namespace Csilk.Multipart
open Csilk.Lib

def csilkMaxPartName : Nat := 128
def csilkMaxPartFilename : Nat := 256
def csilkMaxPartSize : Nat := 10 * 1024 * 1024

def contentTypeSize : Nat := 64

/-- The strings up to their NUL, the data as the handler sees it. -/
structure Part where
  name : Bytes
  filename : Bytes
  contentType : Bytes
  data : Bytes
  deriving DecidableEq

def Part.zero : Part := ⟨[], [], [], []⟩

/-- The memory from `pos` on, and how much of it is body. String functions read on up to the next
NUL. -/
structure Cursor where
  text : Bytes
  left : Nat
  deriving DecidableEq

def Cursor.advance (c : Cursor) (n : Nat) : Cursor := ⟨c.text.drop n, c.left - n⟩

def Cursor.body (c : Cursor) : Bytes := c.text.take c.left

def Cursor.skipSpaces (c : Cursor) : Cursor := c.advance (c.body.takeWhile (· = 32)).length

def strstr (text needle : Bytes) : Option Nat := search needle (cString text)

def strchr (text : Bytes) (b : UInt8) : Option Nat := search [b] (cString text)

/-- What stands between the first `key` and the next quote, unless it is too long for its buffer. -/
def paramValue (key : Bytes) (limit : Nat) (text : Bytes) : Option Bytes := do
  let start ← strstr text key
  let value := text.drop (start + key.length)
  let len ← strchr value 34
  if len < limit then some (value.take len) else none

def nameKey : Bytes := ascii "name=\""
def filenameKey : Bytes := ascii "filename=\""

def readDisposition (text : Bytes) (part : Part) : Part :=
  { part with
    name := (paramValue nameKey csilkMaxPartName text).getD part.name
    filename := (paramValue filenameKey csilkMaxPartFilename text).getD part.filename }

def readContentType (text : Bytes) (len : Nat) (part : Part) : Part :=
  if len < contentTypeSize - 1 then { part with contentType := text.take len } else part

def dispositionKey : Bytes := ascii "Content-Disposition:"
def contentTypeKey : Bytes := ascii "Content-Type:"

def skipLine (c : Cursor) : Option Cursor :=
  (strstr c.text crlf).map fun len => c.advance (len + 2)

def parseHeaders : Nat → Cursor → Part → Option (Cursor × Part)
  | 0, _, _ => none
  | fuel + 1, c, part =>
    if c.left = 0 ∨ c.text.head? = some 13 then some (c, part)
    else if dispositionKey.isPrefixOf c.text then
      let c := (c.advance dispositionKey.length).skipSpaces
      let part := readDisposition c.text part
      match skipLine c with
      | some c => parseHeaders fuel c part
      | none => some (c, part)
    else if contentTypeKey.isPrefixOf c.text then
      let c := (c.advance contentTypeKey.length).skipSpaces
      match strstr c.text crlf with
      | some len => parseHeaders fuel (c.advance (len + 2)) (readContentType c.text len part)
      | none =>
        let len := (cString c.text).length
        parseHeaders fuel (c.advance len) (readContentType c.text len part)
    else
      match skipLine c with
      | some c => parseHeaders fuel c part
      | none => some (c, part)

def skipEmptyLine (c : Cursor) : Cursor :=
  if 0 < c.left ∧ crlf.isPrefixOf c.text then c.advance 2 else c

/-- The LF before the delimiter at `next` and the CR before that are not data. -/
def dropLineEnd (body : Bytes) (next : Nat) : Nat :=
  if 0 < next - 1 ∧ body[next - 2]? = some 13 then next - 2 else next - 1

/-- The scan for the next delimiter, from `start` on; none when the fuel is out. -/
def bodyEnd (delimiter body : Bytes) : Nat → Nat → Option Nat
  | 0, _ => none
  | fuel + 1, start =>
    if start < body.length then
      match search delimiter (body.drop start) with
      | none => some body.length
      | some i =>
        let next := start + i
        if 0 < next ∧ body[next - 1]? = some 10 then some (dropLineEnd body next)
        else bodyEnd delimiter body fuel (next + delimiter.length)
    else some body.length

def skipLineEnd (c : Cursor) : Cursor :=
  let c := if c.text.head? = some 13 then c.advance 1 else c
  if c.text.head? = some 10 then c.advance 1 else c

structure Outcome where
  parts : List Part
  status : Option Nat
  deriving DecidableEq

def Outcome.done : Outcome := ⟨[], none⟩

def nextPart (delimiter : Bytes) (c : Cursor) : Option Cursor :=
  let c := if 2 < c.left ∧ crlf.isPrefixOf c.text then c.advance 2 else c
  if c.left < delimiter.length then none
  else if ¬ delimiter.isPrefixOf c.text then none
  else if delimiter.length + 2 ≤ c.left ∧
      (ascii "--").isPrefixOf (c.text.drop delimiter.length) then none
  else some (skipLineEnd (c.advance delimiter.length))

def parseParts (delimiter : Bytes) : Nat → Cursor → Option Outcome
  | 0, _ => none
  | fuel + 1, c =>
    if c.left = 0 then some .done
    else do
      let (c, part) ← parseHeaders (c.left + 1) c .zero
      let c := skipEmptyLine c
      let stop ← bodyEnd delimiter c.body (c.body.length + 1) 0
      let part := { part with data := c.body.take stop }
      if stop > csilkMaxPartSize then return ⟨[], some 413⟩
      let rest ← match nextPart delimiter (c.advance stop) with
        | none => some Outcome.done
        | some c => parseParts delimiter fuel c
      return { rest with parts := part :: rest.parts }

def boundaryKey : Bytes := ascii "multipart/form-data; boundary="

def delimiterSize : Nat := 256

/-- `behind` is the memory behind the body, as far as a string function may read. -/
def csilkMultipartParse (contentType body : Option Bytes) (behind : Bytes) : Option Outcome :=
  match body, contentType with
  | none, _ | _, none => some .done
  | some body, some contentType =>
    let contentType := cString contentType
    let boundary := contentType.drop boundaryKey.length
    if ¬ boundaryKey.isPrefixOf contentType then some .done
    else if boundary.length = 0 then some .done
    else
      let delimiter := (ascii "--" ++ boundary).take (delimiterSize - 1)
      let text := body ++ behind
      if ¬ delimiter.isPrefixOf text then some .done
      else
        parseParts delimiter (body.length + 1)
          (skipLineEnd ((Cursor.mk text body.length).advance delimiter.length))

end Csilk.Multipart
