import Csilk.Routing.Search
import Mathlib.Data.List.Lex
import Mathlib.Data.Prod.Lex

namespace Csilk.Routing
open List

structure Key where
  type : NodeType
  name : Bytes
deriving DecidableEq

theorem NodeType.rank_inj (h : NodeType.rank a = NodeType.rank b) : a = b := by
  cases a <;> cases b <;> first | rfl | cases h

def Key.order (k : Key) : Nat ×ₗ List Nat := toLex (k.type.rank, k.name.map UInt8.toNat)

theorem Key.order_injective : Function.Injective Key.order := by
  rintro ⟨t, n⟩ ⟨t', n'⟩ h
  obtain ⟨ht, hn⟩ := Prod.mk.inj (toLex_inj.1 h)
  have hname : n = n' := (map_injective_iff.2 fun _ _ => UInt8.toNat_inj.1) hn
  have htype : t = t' := NodeType.rank_inj ht
  rw [htype, hname]

instance : LinearOrder Key := LinearOrder.lift' Key.order Key.order_injective

def RouterNode.key (node : RouterNode) : Key := ⟨node.type, node.segment⟩

def segmentKey (seg : Bytes) : Key := ⟨(segmentKind seg).1, (segmentKind seg).2⟩

def segments (p : Bytes) : List Bytes := (p.splitOnP (· = slash)).filter (· ≠ [])

def uptoWildcard : List Key → List Key
  | [] => []
  | k :: ks => if k.type = .wildcard then [k] else k :: uptoWildcard ks

def patternKeys (p : Bytes) : List Key := uptoWildcard ((segments p).map segmentKey)

/-- `seg` is the first maximal run of non-slash bytes, and `rest` follows it. -/
def FirstSegment (path seg rest : Bytes) : Prop :=
  ∃ n, path = List.replicate n slash ++ (seg ++ rest) ∧ seg ≠ [] ∧ slash ∉ seg ∧
    (rest = [] ∨ ∃ r, rest = slash :: r)

inductive Matches : List Key → Bytes → Prop
  | done (h : path = [] ∨ path = [slash]) : Matches [] path
  | static (hs : FirstSegment path seg rest) (h : Matches ks rest) :
      Matches (⟨.static, seg⟩ :: ks) path
  | param (hs : FirstSegment path seg rest) (h : Matches ks rest) :
      Matches (⟨.param, name⟩ :: ks) path
  | wildcard : Matches (⟨.wildcard, name⟩ :: ks) path

theorem strcmp_eq_iff (a b : Bytes) : strcmp a b = .eq ↔ a = b := by
  induction a generalizing b with
  | nil => cases b <;> simp [strcmp]
  | cons x a ih =>
    cases b with
    | nil => simp [strcmp]
    | cons y b =>
      simp only [strcmp, List.cons.injEq, UInt8.lt_iff_toNat_lt, ← UInt8.toNat_inj]
      split
      · simp; omega
      · split
        · simp; omega
        · rw [ih]
          constructor
          · exact fun h => ⟨by omega, h⟩
          · exact And.right

theorem strcmp_lt_iff (a b : Bytes) : strcmp a b = .lt ↔ a.map UInt8.toNat < b.map UInt8.toNat := by
  induction a generalizing b with
  | nil => cases b <;> simp [strcmp]
  | cons x a ih =>
    cases b with
    | nil => simp [strcmp]
    | cons y b =>
      simp only [strcmp, map_cons, cons_lt_cons_iff, UInt8.lt_iff_toNat_lt]
      split
      · simp; omega
      · split
        · simp; omega
        · rw [ih]
          constructor
          · exact fun h => .inr ⟨by omega, h⟩
          · rintro (h | ⟨-, h⟩)
            · omega
            · exact h

section

variable (t : NodeType) (n : Bytes) (node : RouterNode)
include t n node

theorem nodeCmpKey_eq_iff :
    nodeCmpKey t n node = .eq ↔ (⟨t, n⟩ : Key) = node.key := by
  unfold nodeCmpKey RouterNode.key
  split
  · rename_i h
    split <;> simp [h]
  · rename_i h
    rw [strcmp_eq_iff]
    simp only [not_not] at h
    simp [h]

theorem nodeCmpKey_lt_iff :
    nodeCmpKey t n node = .lt ↔ (⟨t, n⟩ : Key) < node.key := by
  have hlt : (⟨t, n⟩ : Key) < node.key ↔ t.rank < node.type.rank ∨
      t.rank = node.type.rank ∧ n.map UInt8.toNat < node.segment.map UInt8.toNat :=
    Prod.Lex.toLex_lt_toLex
  rw [hlt]
  unfold nodeCmpKey
  split
  · rename_i h
    have hr : t.rank ≠ node.type.rank := fun he => h (NodeType.rank_inj he)
    split <;> simp [*]
  · rename_i h
    simp only [not_not] at h
    simp [h, strcmp_lt_iff]

theorem nodeCmpKey_gt_iff :
    nodeCmpKey t n node = .gt ↔ node.key < (⟨t, n⟩ : Key) := by
  have he := nodeCmpKey_eq_iff t n node
  have hl := nodeCmpKey_lt_iff t n node
  rcases lt_trichotomy (⟨t, n⟩ : Key) node.key with h | h | h
  · rw [hl.2 h]
    simp [h.le]
  · rw [he.2 h]
    simp [h]
  · cases hc : nodeCmpKey t n node with
    | lt => exact absurd (hl.1 hc) h.le.not_gt
    | eq => exact absurd (he.1 hc) h.ne'
    | gt => simp [h]

end

theorem takeWhile_append_stop {q : α → Bool} {l r : List α} (hl : ∀ x ∈ l, q x = true)
    (hr : ∀ x ∈ r.head?, q x = false) :
    (l ++ r).takeWhile q = l ∧ (l ++ r).dropWhile q = r := by
  induction l with
  | nil => cases r <;> simp_all
  | cons a l ih =>
    obtain ⟨ht, hd⟩ := ih fun x hx => hl x (mem_cons_of_mem _ hx)
    have ha := hl a mem_cons_self
    simp [ha, ht, hd]

theorem FirstSegment.getNextSegment (h : FirstSegment path seg rest) :
    getNextSegment path = (some seg, rest) := by
  obtain ⟨n, rfl, hne, hmem, hrest⟩ := h
  obtain ⟨b, bs, rfl⟩ := exists_cons_of_ne_nil hne
  have hb : b ≠ slash := fun he => hmem (he ▸ mem_cons_self)
  obtain ⟨-, hdrop⟩ := takeWhile_append_stop (q := (· = slash)) (l := List.replicate n slash)
    (r := b :: bs ++ rest) (by simp) (by simpa using hb)
  obtain ⟨ht, hd⟩ := takeWhile_append_stop (q := (· ≠ slash)) (l := b :: bs) (r := rest)
    (fun x hx => by simpa using fun he : x = slash => hmem (he ▸ hx))
    (by rcases hrest with rfl | ⟨r, rfl⟩ <;> simp)
  simp only [Routing.getNextSegment, hdrop, ht, hd]
  simp

theorem firstSegment_of_getNextSegment (h : getNextSegment path = (some seg, rest)) :
    FirstSegment path seg rest := by
  simp only [getNextSegment] at h
  split at h
  · cases h
  · rename_i hne
    cases h
    refine ⟨(path.takeWhile (· = slash)).length, ?_, ?_, ?_, ?_⟩
    · rw [takeWhile_append_dropWhile]
      have hrep : path.takeWhile (· = slash) =
          List.replicate (path.takeWhile (· = slash)).length slash := by
        apply eq_replicate_of_mem
        intro b hb
        simpa using mem_takeWhile_imp hb
      rw [← hrep, takeWhile_append_dropWhile]
    · obtain ⟨b, bs, hs⟩ := exists_cons_of_ne_nil hne
      have hb := dropWhile_cons_not hs
      rw [hs, takeWhile_cons_of_pos (by simpa using hb)]
      exact cons_ne_nil _ _
    · intro hm
      simpa using mem_takeWhile_imp hm
    · cases hr : (path.dropWhile (· = slash)).dropWhile (· ≠ slash) with
      | nil => exact .inl rfl
      | cons b bs =>
        have hb : b = slash := by simpa using dropWhile_cons_not hr
        exact .inr ⟨bs, by rw [hb]⟩

theorem segments_slash (p : Bytes) : segments (slash :: p) = segments p := by
  simp [segments, splitOnP_cons_eq_if_modifyHead]

theorem segments_slashes (n : Nat) (p : Bytes) :
    segments (List.replicate n slash ++ p) = segments p := by
  induction n with
  | zero => rfl
  | succ n ih => rw [replicate_succ, cons_append, segments_slash, ih]

theorem splitOnP_run {seg : Bytes} (hmem : slash ∉ seg) : seg.splitOnP (· = slash) = [seg] := by
  induction seg with
  | nil => rfl
  | cons b seg ih =>
    simp only [mem_cons, not_or] at hmem
    simp [splitOnP_cons_eq_if_modifyHead, ih hmem.2, Ne.symm hmem.1]

theorem FirstSegment.segments (h : FirstSegment path seg rest) :
    segments path = seg :: segments rest := by
  obtain ⟨n, rfl, hne, hmem, hrest⟩ := h
  rw [segments_slashes]
  rcases hrest with rfl | ⟨r, rfl⟩
  · simp [Routing.segments, splitOnP_run hmem, hne]
  · simp [Routing.segments, splitOnP_append_cons, splitOnP_run hmem, hne,
      splitOnP_cons_eq_if_modifyHead]

theorem segments_of_none (h : (getNextSegment p).1 = none) : segments p = [] := by
  simp only [getNextSegment] at h
  split at h
  · rename_i hd
    have hrep : p = List.replicate p.length slash := by
      apply eq_replicate_of_mem
      intro b hb
      simpa using dropWhile_eq_nil_iff.1 hd b hb
    rw [hrep, ← append_nil (List.replicate _ _), segments_slashes]
    rfl
  · cases h

theorem patternKeys_none (h : (getNextSegment p).1 = none) : patternKeys p = [] := by
  rw [patternKeys, segments_of_none h]
  rfl

theorem patternKeys_some (h : getNextSegment p = (some seg, rest)) :
    patternKeys p = if (segmentKey seg).type = .wildcard then [segmentKey seg]
      else segmentKey seg :: patternKeys rest := by
  rw [patternKeys, (firstSegment_of_getNextSegment h).segments]
  rfl

end Csilk.Routing
