import Csilk.Multipart.Model

namespace Csilk.Multipart
open Csilk.Lib

/-- A part of a form, and which parameter and which header come first. -/
structure FormPart where
  name : Bytes
  filename : Option Bytes
  contentType : Option Bytes
  data : Bytes
  filenameFirst : Bool
  typeFirst : Bool
  deriving DecidableEq

def FormPart.expected (p : FormPart) : Part :=
  ⟨p.name, p.filename.getD [], p.contentType.getD [], p.data⟩

def FormPart.nameParam (p : FormPart) : Bytes := nameKey ++ (p.name ++ [34])

def filenameParam (f : Bytes) : Bytes := filenameKey ++ (f ++ [34])

def FormPart.params (p : FormPart) : Bytes :=
  match p.filename with
  | none => p.nameParam
  | some f =>
    if p.filenameFirst then filenameParam f ++ (ascii "; " ++ p.nameParam)
    else p.nameParam ++ (ascii "; " ++ filenameParam f)

def FormPart.dispositionLine (p : FormPart) : Bytes :=
  ascii "Content-Disposition: form-data; " ++ (p.params ++ crlf)

def FormPart.typeLine (p : FormPart) : Bytes :=
  match p.contentType with
  | none => []
  | some t => ascii "Content-Type: " ++ (t ++ crlf)

def FormPart.headers (p : FormPart) : Bytes :=
  if p.typeFirst then p.typeLine ++ p.dispositionLine else p.dispositionLine ++ p.typeLine

def delimiter (boundary : Bytes) : Bytes := ascii "--" ++ boundary

def serialise (boundary : Bytes) (epilogue : Bytes) : List FormPart → Bytes
  | [] => delimiter boundary ++ (ascii "--" ++ epilogue)
  | p :: ps => delimiter boundary ++
      (crlf ++ (p.headers ++ (crlf ++ (p.data ++ (crlf ++ serialise boundary epilogue ps)))))

def requestType (quoted : Bool) (boundary : Bytes) : Bytes :=
  boundaryKey ++ if quoted then 34 :: (boundary ++ [34]) else boundary

def boundaryChars : Bytes :=
  ascii "0123456789ABCDEFGHIJKLMNOPQRSTUVWXYZabcdefghijklmnopqrstuvwxyz'()+_,-./:=?"

/-- One to seventy of the allowed characters, the last one no space. -/
structure IsBoundary (boundary : Bytes) : Prop where
  nonempty : boundary ≠ []
  length : boundary.length ≤ 70
  chars : ∀ b ∈ boundary, b ∈ boundaryChars ∨ b = 32
  last : boundary.getLast? ≠ some 32

def IsQuotable (bs : Bytes) : Prop := 34 ∉ bs ∧ 13 ∉ bs ∧ 10 ∉ bs ∧ 0 ∉ bs

def IsValue (bs : Bytes) : Prop := 13 ∉ bs ∧ 10 ∉ bs ∧ 0 ∉ bs ∧ bs.head? ≠ some 32

instance (bs : Bytes) : Decidable (IsQuotable bs) := inferInstanceAs (Decidable (_ ∧ _))

instance (bs : Bytes) : Decidable (IsValue bs) := inferInstanceAs (Decidable (_ ∧ _))

structure FormPart.WellFormed (boundary : Bytes) (p : FormPart) : Prop where
  name : p.name.length < csilkMaxPartName ∧ IsQuotable p.name
  filename : ∀ f ∈ p.filename, f.length < csilkMaxPartFilename ∧ IsQuotable f
  contentType : ∀ t ∈ p.contentType, t.length ≤ 60 ∧ IsValue t
  data : p.data.length < csilkMaxPartSize ∧ ¬ crlf ++ delimiter boundary <:+: p.data

/-- The first `filename="` is closed by a quote before any NUL, with a value that fits and is not
empty. -/
def StrayFilename (text : Bytes) : Prop :=
  ∃ front value back, text = front ++ (filenameKey ++ (value ++ 34 :: back)) ∧
    0 ∉ front ++ value ∧ 34 ∉ value ∧ value ≠ [] ∧ value.length < csilkMaxPartFilename ∧
    ¬ filenameKey <:+: front ++ filenameKey.dropLast

def FormPart.behindName (p : FormPart) (following : Bytes) : Bytes :=
  crlf ++ ((if p.typeFirst then [] else p.typeLine) ++
    (crlf ++ (p.data ++ (crlf ++ following))))

def FormPart.Plain (boundary : Bytes) (following : Bytes) (p : FormPart) : Prop :=
  ¬ 10 :: delimiter boundary <:+: p.data ∧ match p.filename with
    | none => ¬ StrayFilename (p.name ++ 34 :: p.behindName following)
    | some f =>
      if p.filenameFirst then p.name = if f.length < csilkMaxPartName then f else []
      else ascii "filename=" <:+ p.name → f = ascii "; filename="

def AllPlain (boundary epilogue behind : Bytes) : List FormPart → Prop
  | [] => True
  | p :: ps => p.Plain boundary (serialise boundary epilogue ps ++ behind) ∧
      AllPlain boundary epilogue behind ps

end Csilk.Multipart
