import Csilk.Bytes

namespace Csilk.Static
open List

/-- An absolute path without empty, `.` or `..` components. -/
structure Canonical where
  parts : List Bytes
  proper : ∀ p ∈ parts, p ≠ [] ∧ 47 ∉ p ∧ p ≠ ascii "." ∧ p ≠ ascii ".."

def Canonical.text (c : Canonical) : Bytes := if c.parts = [] then [47] else c.parts.flatMap (47 :: ·)

def isSep (b : UInt8) : Bool := b = 47 || b = 92

def containsPathTraversal : UInt8 → Bytes → Bool
  | _, [] => false
  | prev, b :: path =>
    b = 46 && path.head? = some 46 && isSep prev && path.tail.head?.all isSep || containsPathTraversal b path

inductive Outcome where
  | forbidden
  | serverError
  | notFound
  | opens (path : Bytes)

/-- `full_path`: the request's path without the prefix, below the root directory. -/
def fullPath (rootDir : Bytes) (staticPrefix : Option Bytes) (path : Bytes) : Bytes :=
  let relative := match staticPrefix with
    | none => path
    | some pre =>
      if pre.isPrefixOf path then
        let rest := path.drop pre.length
        if rest.head? = some 47 then rest.tail else rest
      else path
  rootDir ++ 47 :: relative

/-- `static_work_cb` up to the call that opens the file; the texts are C strings. -/
def staticWorkCb (realpath : Bytes → Option Canonical) (rootDir : Bytes) (staticPrefix : Option Bytes)
    (path : Bytes) : Outcome :=
  if path.any (· < 0x20) then .forbidden
  else if containsPathTraversal 47 path then .forbidden
  else
    match realpath rootDir with
    | none => .serverError
    | some root =>
      let full := fullPath rootDir staticPrefix path
      if 4096 ≤ full.length then .serverError
      else
        match realpath full with
        | none => .notFound
        | some file =>
          let next := file.text[root.text.length]?
          if root.text.isPrefixOf file.text && next.all (· = 47) then .opens file.text
          else .forbidden

/-- A `..` between separators or ends of the path. -/
def HasDotDot (path : Bytes) : Prop :=
  ∃ before after, path = before ++ 46 :: 46 :: after ∧ before.getLast?.all isSep ∧ after.head?.all isSep

theorem containsPathTraversal_dots {prev : UInt8} (h : containsPathTraversal prev path = true) :
    ∃ before after, path = before ++ 46 :: 46 :: after ∧ isSep ((prev :: before).getLast (cons_ne_nil _ _)) ∧
      after.head?.all isSep := by
  induction path generalizing prev with
  | nil => cases h
  | cons b path ih =>
    rw [containsPathTraversal, Bool.or_eq_true] at h
    rcases h with h | h
    · simp only [Bool.and_eq_true, decide_eq_true_eq] at h
      obtain ⟨⟨⟨rfl, hdot⟩, hprev⟩, hnext⟩ := h
      obtain ⟨after, rfl⟩ := head?_eq_some_iff.1 hdot
      exact ⟨[], after, rfl, hprev, hnext⟩
    · obtain ⟨before, after, rfl, hlast, hnext⟩ := ih h
      exact ⟨b :: before, after, rfl, hlast, hnext⟩

theorem containsPathTraversal_of_not (h : ¬HasDotDot path) : containsPathTraversal 47 path = false := by
  refine eq_false_of_ne_true fun htrue => h ?_
  obtain ⟨before, after, rfl, hlast, hnext⟩ := containsPathTraversal_dots htrue
  refine ⟨before, after, rfl, ?_, hnext⟩
  cases before with
  | nil => rfl
  | cons b before => simpa [getLast?_eq_some_getLast] using hlast

def Cut (text : Bytes) : Prop := text.head?.all (· = 47) = true

theorem cut_nil : Cut [] := rfl

theorem cut_flatMap (parts : List Bytes) (h : Cut text) : Cut (parts.flatMap (47 :: ·) ++ text) := by
  cases parts with
  | nil => exact h
  | cons p parts => simp [Cut]

theorem takeWhile_cut (hp : 47 ∉ p) (h : Cut text) : (p ++ text).takeWhile (· ≠ 47) = p := by
  have htext : text.takeWhile (· ≠ 47) = [] := by
    cases text with
    | nil => rfl
    | cons b text => simpa [Cut] using h
  rw [takeWhile_append_of_pos, htext, append_nil]
  intro b hb
  simpa using ne_of_mem_of_not_mem hb hp

theorem isPrefix_of_text (hroot : ∀ p ∈ root, 47 ∉ p) (hfile : ∀ p ∈ file, 47 ∉ p) (hcut : Cut text)
    (h : root.flatMap (47 :: ·) ++ text = file.flatMap (47 :: ·)) : root <+: file := by
  induction root generalizing file with
  | nil => exact nil_prefix
  | cons p root ih =>
    obtain ⟨hp, hroot⟩ := forall_mem_cons.1 hroot
    cases file with
    | nil => cases h
    | cons q file =>
      obtain ⟨hq, hrest⟩ := forall_mem_cons.1 hfile
      simp only [flatMap_cons, cons_append, append_assoc, cons.injEq, true_and] at h
      have hend : Cut (file.flatMap (47 :: ·)) := by simpa using cut_flatMap file cut_nil
      obtain rfl : p = q := by
        rw [← takeWhile_cut hp (cut_flatMap root hcut), h, takeWhile_cut hq hend]
      exact (prefix_cons_inj p).2 (ih hroot hrest (append_cancel_left h))

namespace Canonical
variable {root file : Canonical}

theorem isPrefix (hpre : root.text <+: file.text)
    (hcut : Cut (file.text.drop root.text.length)) : root.parts <+: file.parts := by
  obtain ⟨rest, hrest⟩ := hpre
  rw [← hrest, drop_left] at hcut
  by_cases hr : root.parts = []
  · rw [hr]
    exact nil_prefix
  rw [text, if_neg hr] at hrest
  by_cases hf : file.parts = []
  · obtain ⟨p, ps, hps⟩ := exists_cons_of_ne_nil hr
    rw [text, if_pos hf, hps] at hrest
    have hp := (root.proper p (hps ▸ mem_cons_self)).1
    simp [hp] at hrest
  · rw [text, if_neg hf] at hrest
    exact isPrefix_of_text (fun p hp => (root.proper p hp).2.1) (fun p hp => (file.proper p hp).2.1) hcut hrest

theorem text_prefix (hne : root.parts ≠ []) (h : root.parts <+: file.parts) :
    root.text <+: file.text ∧ Cut (file.text.drop root.text.length) := by
  obtain ⟨more, hmore⟩ := h
  have hf : file.parts ≠ [] := by simp [← hmore, hne]
  have htext : file.text = root.text ++ more.flatMap (47 :: ·) := by
    rw [text, text, if_neg hf, if_neg hne, ← hmore, flatMap_append]
  rw [htext]
  exact ⟨prefix_append _ _, by simpa using cut_flatMap more cut_nil⟩

end Canonical

/-- Only the root and what lies below it is opened, and below a root other than `/` all that is
asked for without `..` and control bytes. -/
theorem staticWorkCb_contained (realpath : Bytes → Option Canonical) (rootDir : Bytes)
    (staticPrefix : Option Bytes) (path : Bytes) :
    (∀ f, staticWorkCb realpath rootDir staticPrefix path = .opens f →
      ∃ root file, realpath rootDir = some root ∧
        realpath (fullPath rootDir staticPrefix path) = some file ∧ f = file.text ∧
        root.parts <+: file.parts) ∧
    ∀ root file, realpath rootDir = some root → root.parts ≠ [] →
      (∀ b ∈ path, 0x20 ≤ b) → ¬HasDotDot path → (fullPath rootDir staticPrefix path).length < 4096 →
      realpath (fullPath rootDir staticPrefix path) = some file → root.parts <+: file.parts →
      staticWorkCb realpath rootDir staticPrefix path = .opens file.text := by
  constructor
  · intro f h
    unfold staticWorkCb at h
    split_ifs at h
    cases hroot : realpath rootDir with
    | none => simp [hroot] at h
    | some root =>
      simp only [hroot] at h
      split_ifs at h
      cases hfile : realpath (fullPath rootDir staticPrefix path) with
      | none => simp [hfile] at h
      | some file =>
        simp only [hfile] at h
        split_ifs at h with hok
        cases h
        rw [Bool.and_eq_true, isPrefixOf_iff_prefix, ← head?_drop] at hok
        exact ⟨root, file, rfl, rfl, rfl, Canonical.isPrefix hok.1 hok.2⟩
  · intro root file hroot hne hbytes hdots hlen hfile hpre
    obtain ⟨htext, hcut⟩ := Canonical.text_prefix hne hpre
    have hany : path.any (· < 0x20) = false := by simpa using hbytes
    rw [Cut, head?_drop] at hcut
    rw [staticWorkCb, hany, containsPathTraversal_of_not hdots, hroot]
    simp [hfile, not_le.2 hlen, hcut, htext]

end Csilk.Static
