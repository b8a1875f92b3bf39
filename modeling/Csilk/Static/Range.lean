import Csilk.Context.Query
import Csilk.Http1.Framing

namespace Csilk.Static
open Csilk.Http1 Context List

def isDigit (b : UInt8) : Bool := 48 ≤ b && b ≤ 57

def number (digits : Bytes) : Nat := digits.foldl (fun n b => n * 10 + (b.toNat - 48)) 0

def strtoll (text : Bytes) : Option Int :=
  let text := text.dropWhile isspace
  let sign := text.head?
  let digits := (if sign = some 45 ∨ sign = some 43 then text.tail else text).takeWhile isDigit
  if digits = [] then none
  else some (if sign = some 45 then max (-2 ^ 63) (-number digits) else min (2 ^ 63 - 1) (number digits))

structure Reply where
  status : Nat
  headers : List (Bytes × Bytes)
  file : Option (Nat × Nat)

def fileHeaders (mime : Bytes) : List (Bytes × Bytes) :=
  [(ascii "Content-Type", mime), (ascii "Accept-Ranges", ascii "bytes")]

def unsatisfiable : Reply := ⟨416, [], none⟩

def partialContent (first last size : Nat) (mime : Bytes) : Reply :=
  ⟨206, (ascii "Content-Range", ascii "bytes " ++ decimal first ++ ascii "-" ++ decimal last ++
    ascii "/" ++ decimal size) :: fileHeaders mime, some (first, last - first + 1)⟩

def rangeEnd (size : Nat) (text : Bytes) : Int :=
  match strtoll text with
  | none => size - 1
  | some stop => if size ≤ stop then size - 1 else stop

def serveRange (start stop : Int) (size : Nat) (mime : Bytes) : Reply :=
  if stop < start ∨ size ≤ start then unsatisfiable
  else partialContent start.toNat stop.toNat size mime

def rangeResponse (val : Bytes) (size : Nat) (mime : Bytes) : Reply :=
  match val.dropWhile (· ≠ 45) with
  | [] => unsatisfiable
  | dash :: rest =>
    if val = dash :: rest then serveRange 0 (rangeEnd size rest) size mime
    else
      match strtoll val with
      | none => unsatisfiable
      | some start =>
        if start < 0 then unsatisfiable else serveRange start (rangeEnd size rest) size mime

def setRangeResponse (range : Option Bytes) (size : Nat) (mime : Bytes) : Reply :=
  match range with
  | none => ⟨200, fileHeaders mime, some (0, size)⟩
  | some hdr =>
    if hdr.take 6 ≠ ascii "bytes=" then ⟨200, fileHeaders mime, some (0, size)⟩
    else rangeResponse (hdr.drop 6) size mime

/-- A number of a range: decimal digits below 2⁶³. -/
structure Numeral where
  digits : Bytes
  nonempty : digits ≠ []
  decimal : ∀ b ∈ digits, isDigit b = true
  fits : number digits < 2 ^ 63

def Numeral.value (n : Numeral) : Nat := number n.digits

inductive ByteRange where
  | between (first last : Numeral)
  | onwards (first : Numeral)
  | suffix (length : Numeral)

namespace ByteRange

def text : ByteRange → Bytes
  | between first last => first.digits ++ 45 :: last.digits
  | onwards first => first.digits ++ [45]
  | suffix length => 45 :: length.digits

def select (size : Nat) : ByteRange → Nat × Nat
  | between first last => (first.value, min (last.value + 1) size)
  | onwards first => (first.value, size)
  | suffix length => (size - length.value, size)

def answer (size : Nat) (mime : Bytes) (r : ByteRange) : Reply :=
  if (r.select size).1 < (r.select size).2 then
    partialContent (r.select size).1 ((r.select size).2 - 1) size mime
  else unsatisfiable

end ByteRange

theorem isDigit_sign (h : isDigit b = true) : isspace b = false ∧ b ≠ 45 ∧ b ≠ 43 := by
  grind [isDigit, isspace]

namespace Numeral
variable (n : Numeral)

theorem strtoll_append (rest : Bytes) (hrest : rest.takeWhile isDigit = []) :
    strtoll (n.digits ++ rest) = some (n.value : Int) := by
  have hdigits : (n.digits ++ rest).takeWhile isDigit = n.digits := by
    rw [takeWhile_append_of_pos n.decimal, hrest, append_nil]
  obtain ⟨d, ds, hd⟩ := exists_cons_of_ne_nil n.nonempty
  obtain ⟨hspace, h45, h43⟩ := isDigit_sign (n.decimal d (hd ▸ mem_cons_self))
  have hdrop : (n.digits ++ rest).dropWhile isspace = n.digits ++ rest := by
    rw [hd, cons_append, dropWhile_cons_of_neg (by simp [hspace])]
  have hhead : (n.digits ++ rest).head? = some d := by rw [hd]; rfl
  have hfits : (number n.digits : Int) ≤ 2 ^ 63 - 1 := Int.le_sub_one_of_lt (by exact_mod_cast n.fits)
  simp only [strtoll, hdrop, hhead, Option.some.injEq, h45, h43, or_self, if_false, hdigits, n.nonempty,
    min_eq_right hfits]
  rfl

theorem rangeEnd_eq (size : Nat) : rangeEnd size n.digits + 1 = (min (n.value + 1) size : Nat) := by
  have h := n.strtoll_append [] rfl
  rw [append_nil] at h
  rw [rangeEnd, h]
  dsimp only
  split <;> omega

theorem rangeResponse_eq (size : Nat) (mime rest : Bytes) :
    rangeResponse (n.digits ++ 45 :: rest) size mime =
      serveRange n.value (rangeEnd size rest) size mime := by
  have hdash : (n.digits ++ 45 :: rest).dropWhile (· ≠ 45) = 45 :: rest := by
    rw [dropWhile_append_of_pos]
    · rfl
    · intro b hb
      simpa using (isDigit_sign (n.decimal b hb)).2.1
  have hne : n.digits ++ 45 :: rest ≠ 45 :: rest := by simpa using n.nonempty
  rw [rangeResponse, hdash]
  simp only [hne, if_false, n.strtoll_append (45 :: rest) rfl]
  exact if_neg (not_lt.2 (Int.natCast_nonneg _))

end Numeral

theorem serveRange_eq (h : stop + 1 = ((last : Nat) : Int)) (hlast : last ≤ size) :
    serveRange (first : Nat) stop size mime =
      if first < last then partialContent first (last - 1) size mime else unsatisfiable := by
  have hstop : stop.toNat = last - 1 := by omega
  have hiff : (stop < first ∨ (size : Int) ≤ first) ↔ ¬first < last := by omega
  rw [serveRange, hstop, Int.toNat_natCast, if_congr hiff rfl rfl, ite_not]

def two : Numeral := ⟨ascii "2", by decide, all_eq_true.1 rfl, by decide⟩

end Csilk.Static
