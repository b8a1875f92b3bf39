import Mathlib.Data.List.Basic

namespace Csilk.Lib
open List

def crlf : List UInt8 := [13, 10]

/-- The text before the first empty line, and what follows that line. -/
def cutHead : List UInt8 → Option (List UInt8 × List UInt8)
  | [] => none
  | b :: bs =>
    if (crlf ++ crlf).isPrefixOf (b :: bs) then some ([], (b :: bs).drop 4)
    else (cutHead bs).map fun p => (b :: p.1, p.2)

def splitLines : List UInt8 → List (List UInt8)
  | [] => [[]]
  | [b] => [[b]]
  | b :: c :: bs =>
    if b = 13 ∧ c = 10 then [] :: splitLines bs
    else (splitLines (c :: bs)).modifyHead (b :: ·)

def IsLine (l : List UInt8) : Prop := 13 ∉ l ∧ 10 ∉ l

theorem splitLines_cons (h : b ≠ 13) (hne : bs ≠ []) :
    splitLines (b :: bs) = (splitLines bs).modifyHead (b :: ·) := by
  cases bs with
  | nil => exact absurd rfl hne
  | cons c bs => rw [splitLines, if_neg (fun hc => h hc.1)]

theorem splitLines_last (h : 13 ∉ l) : splitLines l = [l] := by
  induction l with
  | nil => rfl
  | cons b l ih =>
    have hb : b ≠ 13 := fun he => h (he ▸ mem_cons_self)
    cases l with
    | nil => rfl
    | cons c l =>
      rw [splitLines_cons hb (cons_ne_nil _ _), ih (fun hm => h (mem_cons_of_mem _ hm))]
      rfl

theorem splitLines_line (h : 13 ∉ l) (rest : List UInt8) :
    splitLines (l ++ (crlf ++ rest)) = l :: splitLines rest := by
  induction l with
  | nil => rfl
  | cons b l ih =>
    have hb : b ≠ 13 := fun he => h (he ▸ mem_cons_self)
    have hne : l ++ (crlf ++ rest) ≠ [] := by simp [crlf]
    rw [cons_append, splitLines_cons hb hne, ih (fun hm => h (mem_cons_of_mem _ hm))]
    rfl

theorem splitLines_intercalate (ls : List (List UInt8)) (hne : ls ≠ []) (h : ∀ l ∈ ls, 13 ∉ l) :
    splitLines (crlf.intercalate ls) = ls := by
  induction ls with
  | nil => exact absurd rfl hne
  | cons l ls ih =>
    have hl := h l mem_cons_self
    cases ls with
    | nil =>
      rw [intercalate_singleton]
      exact splitLines_last hl
    | cons l' ls =>
      rw [intercalate_cons_cons, append_assoc, splitLines_line hl,
        ih (cons_ne_nil _ _) (fun x hx => h x (mem_cons_of_mem _ hx))]

theorem cutHead_cons (h : b ≠ 13) (bs : List UInt8) :
    cutHead (b :: bs) = (cutHead bs).map fun p => (b :: p.1, p.2) := by
  rw [cutHead]
  simp [crlf, Ne.symm h]

theorem cutHead_line (h : 13 ∉ l) (rest : List UInt8) :
    cutHead (l ++ rest) = (cutHead rest).map fun p => (l ++ p.1, p.2) := by
  induction l with
  | nil =>
    exact Option.map_id'.symm
  | cons b l ih =>
    have hb : b ≠ 13 := fun he => h (he ▸ mem_cons_self)
    rw [cons_append, cutHead_cons hb, ih (fun hm => h (mem_cons_of_mem _ hm)),
      Option.map_map]
    rfl

theorem cutHead_crlf (h : b ≠ 13) (bs : List UInt8) :
    cutHead (crlf ++ b :: bs) = (cutHead (b :: bs)).map fun p => (crlf ++ p.1, p.2) := by
  have h13 : cutHead (13 :: 10 :: b :: bs) =
      (cutHead (10 :: b :: bs)).map fun p => (13 :: p.1, p.2) := by
    rw [cutHead]
    simp [crlf, Ne.symm h]
  have h10 := cutHead_cons (show (10 : UInt8) ≠ 13 by decide) (b :: bs)
  rw [show crlf ++ b :: bs = 13 :: 10 :: b :: bs from rfl, h13, h10, Option.map_map]
  rfl

theorem cutHead_intercalate (ls : List (List UInt8)) (hne : ls ≠ [])
    (h : ∀ l ∈ ls, l ≠ [] ∧ 13 ∉ l) (body : List UInt8) :
    cutHead (crlf.intercalate ls ++ (crlf ++ (crlf ++ body))) =
      some (crlf.intercalate ls, body) := by
  induction ls with
  | nil => exact absurd rfl hne
  | cons l ls ih =>
    have hl := (h l mem_cons_self).2
    cases ls with
    | nil =>
      rw [intercalate_singleton, cutHead_line hl]
      simp [crlf, cutHead]
    | cons l' ls =>
      have ih := ih (cons_ne_nil _ _) (fun x hx => h x (mem_cons_of_mem _ hx))
      obtain ⟨hne', hcr'⟩ := h l' (mem_cons_of_mem _ mem_cons_self)
      obtain ⟨b, bs, hb⟩ : ∃ b bs, crlf.intercalate (l' :: ls) = b :: bs ∧ b ≠ 13 := by
        obtain ⟨b, bs, rfl⟩ := exists_cons_of_ne_nil hne'
        have hb : b ≠ 13 := fun he => hcr' (he ▸ mem_cons_self)
        cases ls with
        | nil => exact ⟨b, bs, intercalate_singleton, hb⟩
        | cons l'' ls => exact ⟨b, _, intercalate_cons_cons, hb⟩
      rw [hb.1, cons_append] at ih
      rw [intercalate_cons_cons, hb.1, append_assoc, append_assoc, cutHead_line hl,
        cons_append, cutHead_crlf hb.2, ih, Option.map_some, Option.map_some]
      simp

def unlines (ls : List (List UInt8)) : List UInt8 := ls.flatMap (· ++ crlf)

theorem unlines_append (xs ys : List (List UInt8)) :
    unlines (xs ++ ys) = unlines xs ++ unlines ys := flatMap_append

theorem unlines_eq (ls : List (List UInt8)) (hne : ls ≠ []) :
    unlines ls = crlf.intercalate ls ++ crlf := by
  induction ls with
  | nil => exact absurd rfl hne
  | cons l ls ih =>
    cases ls with
    | nil => simp [unlines]
    | cons l' ls =>
      have ih := ih (cons_ne_nil _ _)
      rw [unlines, flatMap_cons, ← unlines, ih]
      simp

end Csilk.Lib
