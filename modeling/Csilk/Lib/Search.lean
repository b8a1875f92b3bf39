import Mathlib.Data.List.Infix

namespace Csilk.Lib
open List Option

variable {α : Type*} [DecidableEq α] {n m l t bs : List α} {b x q : α}

def search (n : List α) : List α → Option Nat
  | [] => none
  | b :: bs => if n.isPrefixOf (b :: bs) then some 0 else (search n bs).map (· + 1)

theorem search_cons_pos (h : n <+: b :: bs) : search n (b :: bs) = some 0 := by
  rw [search, if_pos (List.isPrefixOf_iff_prefix.2 h)]

theorem search_cons_neg (h : ¬ n <+: b :: bs) : search n (b :: bs) = (search n bs).map (· + 1) := by
  rw [search, if_neg fun hp => h (List.isPrefixOf_iff_prefix.1 hp)]

theorem search_some (h : search n t = some i) :
    i < t.length ∧ n <+: t.drop i ∧ ∀ j < i, ¬ n <+: t.drop j := by
  induction t generalizing i with
  | nil => cases h
  | cons b bs ih =>
    by_cases hp : n <+: b :: bs
    · rw [search_cons_pos hp] at h
      cases h
      exact ⟨Nat.zero_lt_succ _, hp, fun j hj => absurd hj (Nat.not_lt_zero j)⟩
    · rw [search_cons_neg hp] at h
      obtain ⟨k, hk, rfl⟩ := map_eq_some_iff.1 h
      obtain ⟨hlt, hocc, hfirst⟩ := ih hk
      apply And.intro (Nat.succ_lt_succ hlt)
      apply And.intro hocc
      intro j hj
      cases j with
      | zero => exact hp
      | succ j => exact hfirst j (Nat.lt_of_succ_lt_succ hj)

theorem search_none (h : search n t = none) (hi : i < t.length) : ¬ n <+: t.drop i := by
  induction t generalizing i with
  | nil => exact absurd hi (Nat.not_lt_zero i)
  | cons b bs ih =>
    by_cases hp : n <+: b :: bs
    · rw [search_cons_pos hp] at h
      cases h
    · rw [search_cons_neg hp] at h
      cases i with
      | zero => exact hp
      | succ i => exact ih (map_eq_none_iff.1 h) (Nat.lt_of_succ_lt_succ hi)

theorem search_eq_some (hi : i < t.length) (hocc : n <+: t.drop i)
    (hfirst : ∀ j < i, ¬ n <+: t.drop j) : search n t = some i := by
  cases h : search n t with
  | none => exact absurd hocc (search_none h hi)
  | some k =>
    obtain ⟨-, hocc', hfirst'⟩ := search_some h
    rcases Nat.lt_trichotomy i k with hlt | rfl | hgt
    · exact absurd hocc (hfirst' i hlt)
    · rfl
    · exact absurd hocc' (hfirst k hgt)

section Occurrence
omit [DecidableEq α]

theorem infix_iff_drop : n <:+: l ↔ ∃ i, n <+: l.drop i := by
  rw [infix_iff_prefix_suffix]
  constructor
  · intro h
    obtain ⟨t, hn, ht⟩ := h
    rw [suffix_iff_eq_drop.1 ht] at hn
    exact ⟨_, hn⟩
  · intro h
    obtain ⟨i, hi⟩ := h
    exact ⟨_, hi, drop_suffix i l⟩

theorem prefix_drop_of_append (h : n <+: (l ++ t).drop i) (hlen : i + n.length ≤ l.length) :
    n <+: l.drop i := by
  rw [drop_append_of_le_length (by omega)] at h
  apply prefix_of_prefix_length_le h (prefix_append _ _)
  rw [length_drop]
  omega

theorem getElem?_of_prefix_drop (h : n <+: l.drop i) (hj : j < n.length) :
    l[i + j]? = some n[j] := by
  rw [← getElem?_drop]
  exact prefix_iff_getElem?.1 h j hj

theorem prefix_drop_apart (h : n <+: l.drop i) (hx : x ∉ n) (hk : l[k]? = some x) :
    k < i ∨ i + n.length ≤ k := by
  by_contra hin
  have hget := getElem?_of_prefix_drop h (show k - i < n.length by omega)
  rw [Nat.add_sub_cancel' (by omega), hk] at hget
  exact hx (Option.some.inj hget ▸ getElem_mem _)

theorem cons_prefix_drop_iff : x :: n <+: l.drop i ↔ l[i]? = some x ∧ n <+: l.drop (i + 1) := by
  rcases lt_or_ge i l.length with hlt | hge
  · rw [drop_eq_getElem_cons hlt, cons_prefix_cons, getElem?_eq_getElem hlt,
      Option.some.injEq, eq_comm]
  · rw [drop_of_length_le hge, getElem?_eq_none hge]
    simp

end Occurrence

theorem search_eq_some_iff (hne : n ≠ []) : search n t = some i ↔ ∃ front back,
    t = front ++ (n ++ back) ∧ front.length = i ∧ ¬ n <:+: front ++ n.dropLast := by
  have hsplit (front back : List α) :
      front ++ (n ++ back) = (front ++ n.dropLast) ++ n.getLast hne :: back := by
    rw [append_assoc, append_cons n.dropLast, dropLast_append_getLast hne]
  have hlen : n.dropLast.length + 1 = n.length := by
    rw [length_dropLast]
    exact Nat.sub_add_cancel (length_pos_of_ne_nil hne)
  constructor
  · intro h
    obtain ⟨hlt, ⟨back, hback⟩, hfirst⟩ := search_some h
    have ht : t = t.take i ++ (n ++ back) := by rw [hback, take_append_drop]
    have htake : (t.take i).length = i := length_take_of_le (le_of_lt hlt)
    refine ⟨t.take i, back, ht, htake, ?_⟩
    intro hinfix
    obtain ⟨j, hj⟩ := infix_iff_drop.1 hinfix
    have hle := hj.length_le
    rw [length_drop, length_append, htake] at hle
    have hji : j < i := by
      omega
    apply hfirst j hji
    rw [ht, hsplit]
    exact hj.trans (List.IsPrefix.drop (prefix_append _ _) j)
  · intro h
    obtain ⟨front, back, rfl, rfl, hfirst⟩ := h
    apply search_eq_some
    · rw [length_append, length_append]
      omega
    · rw [drop_left]
      exact prefix_append _ _
    · intro j hj hp
      rw [hsplit] at hp
      refine hfirst (infix_iff_drop.2 ⟨j, prefix_drop_of_append hp ?_⟩)
      rw [length_append]
      omega

omit [DecidableEq α] in
theorem closed_eq (hm : q ∉ m) (hl : q ∉ l) (h : m ++ [q] <+: l ++ q :: rest) : m = l := by
  classical
  obtain ⟨back, h⟩ := h
  have hbefore {s : List α} (hs : q ∉ s) (back : List α) :
      (s ++ q :: back).takeWhile (· ≠ q) = s := by
    rw [takeWhile_append_of_pos, takeWhile_cons_of_neg (by simp), append_nil]
    intro x hx
    exact decide_eq_true (ne_of_mem_of_not_mem hx hs)
  rw [append_assoc] at h
  rw [← hbefore hm back, ← hbefore hl rest]
  exact congrArg _ h

theorem search_skip (hm : q ∉ m) (hl : q ∉ l) (hnot : ¬ m <:+ l) (rest : List α) :
    search (m ++ [q]) (l ++ q :: rest) = (search (m ++ [q]) rest).map (· + (l.length + 1)) := by
  induction l with
  | nil => exact search_cons_neg fun h => hnot (closed_eq hm hl h ▸ suffix_refl m)
  | cons b l ih =>
    have hhead : ¬ m ++ [q] <+: b :: (l ++ q :: rest) := fun h =>
      hnot (closed_eq hm hl h ▸ suffix_refl m)
    rw [cons_append, search_cons_neg hhead, ih (fun hq => hl (mem_cons_of_mem _ hq))
      fun h => hnot (h.trans (suffix_cons b l)), Option.map_map]
    rfl

end Csilk.Lib
