import Csilk.Http1.Replacing

namespace Csilk.Http1
open Csilk.Headers List

/-- It does not start with two slashes of either kind, and no scheme leaves the site. -/
def LocalTarget (v : Bytes) : Prop :=
  (∀ a b rest, v = a :: b :: rest → ¬((a = 47 ∨ a = 92) ∧ (b = 47 ∨ b = 92))) ∧
    ¬ascii "://" <:+: v ∧
    ∀ scheme ∈ ["http:", "https:", "javascript:", "data:", "vbscript:"], ¬ascii scheme <+: foldCase v

theorem LocalTarget.mono (h : LocalTarget v) (hp : w <+: v) : LocalTarget w := by
  obtain ⟨hslash, hauthority, hscheme⟩ := h
  obtain ⟨t, rfl⟩ := hp
  refine ⟨?_, fun hw => hauthority (hw.trans (prefix_append w t).isInfix), fun s hs hw => hscheme s hs ?_⟩
  · rintro a b rest rfl
    exact hslash a b (rest ++ t) rfl
  · rw [foldCase_append]
    exact hw.trans (prefix_append _ _)

theorem strncasecmp_folded (h : foldCase p <+: foldCase v) : strncasecmp v p p.length = true := by
  induction p generalizing v with
  | nil => rfl
  | cons y ys ih =>
    cases v with
    | nil => cases prefix_nil.1 h
    | cons x xs =>
      obtain ⟨hxy, hrest⟩ := cons_prefix_cons.1 h
      simp [strncasecmp, hxy, ih hrest]

theorem localTarget_of_safe (h : unsafeLocation v = false) : LocalTarget v := by
  simp only [unsafeLocation, Bool.or_eq_false_iff] at h
  obtain ⟨⟨⟨⟨⟨⟨⟨hslash, hback⟩, hhttp⟩, hhttps⟩, hjs⟩, hdata⟩, hvb⟩, hauthority⟩ := h
  have hscheme : ∀ {p : Bytes}, foldCase p = p → strncasecmp v p p.length = false → ¬p <+: foldCase v :=
    fun hp hv hw => by cases hv.symm.trans (strncasecmp_folded (hp.symm ▸ hw))
  refine ⟨?_, fun hw => ?_, ?_⟩
  · rintro a b rest rfl ⟨ha, hb⟩
    rcases ha with rfl | rfl <;> rcases hb with rfl | rfl <;> simp at hslash hback
  · obtain ⟨t, ht, hsuffix⟩ := infix_iff_prefix_suffix.1 hw
    have hfound : strstr v (ascii "://") = true :=
      any_eq_true.2 ⟨t, (mem_tails t v).2 hsuffix, isPrefixOf_iff_prefix.2 ht⟩
    cases hauthority.symm.trans hfound
  · simp only [mem_cons, not_mem_nil, or_false, forall_eq_or_imp, forall_eq]
    exact ⟨hscheme rfl hhttp, hscheme rfl hhttps, hscheme rfl hjs, hscheme rfl hdata, hscheme rfl hvb⟩

theorem mapGet_mapSet (hws : ∀ w ∈ ws, w.Ok) (hk : Token key) (hv : Clean v) :
    mapGet (mapSet (recordAll ws).1 key v).1 key = some v := by
  have hw : (Write.set key v).Ok := ⟨hk, hv⟩
  have hget := ((recordAll_inv ws hws).record hw).get hk.clean.1
  rw [record_eq _ hw] at hget
  rw [mapSet_clean _ hk.clean hk.1 hv]
  exact hget.trans (congrArg (Option.map Written.value) (latest_cons rfl))

theorem csilkRedirect_stores (hws : ∀ w ∈ ws, w.Ok) (status : Nat) (hsafe : unsafeLocation location = false) :
    mapGet (csilkRedirect (withHeaders ws) status location).headers (ascii "Location") =
      some ((location.filter fun c => 0x20 ≤ c && c ≤ 0x7E && c ≠ 13 && c ≠ 10).take 1023) := by
  rw [csilkRedirect, hsafe]
  refine mapGet_mapSet hws ⟨by decide, all_eq_true.1 rfl⟩ ?_
  have hout : ∀ b : UInt8, b = 0 ∨ b = 13 ∨ b = 10 →
      b ∉ (location.filter fun c => 0x20 ≤ c && c ≤ 0x7E && c ≠ 13 && c ≠ 10).take 1023 := by
    rintro b hb hmem
    have hkept := (mem_filter.1 (mem_of_mem_take hmem)).2
    rcases hb with rfl | rfl | rfl <;> cases hkept
  exact ⟨⟨hout 0 (.inl rfl), hout 13 (.inr (.inl rfl))⟩, hout 10 (.inr (.inr rfl))⟩

end Csilk.Http1
