import Csilk.Headers.Refine
import Csilk.Http1.Sending

namespace Csilk.Http1
open Csilk.Headers Csilk.Lib List

def isAdd : Write → Bool
  | .add _ _ => true
  | _ => false

def copies (k : Bytes) (ws : List Write) : Nat :=
  ws.foldl (fun n w => if foldCase w.key = foldCase k then if isAdd w then n + 1 else max n 1 else n) 0

def keys (m : HeaderMap) : List Bytes := m.entries.map fun h => foldCase h.key

theorem keys_setValue (m : HeaderMap) (a : Nat) (v : Bytes) : keys (m.setValue a v) = keys m := by
  apply ext_getElem?
  intro i
  rw [keys, keys, getElem?_map, getElem?_map, getElem?_setValue, Option.map_map]
  refine congrArg (Option.map · _) (funext fun h => ?_)
  split <;> rfl

theorem keys_prepend (m : HeaderMap) (key v : Bytes) :
    keys (m.prependEntry key v).1 = keys m ++ [foldCase key] := by
  rw [keys, prependEntry_entries, map_append]
  rfl

theorem keys_write (h : Inv m log) (hk : Plain key) (v : Bytes) : keys (m.writeEntry key v).1 =
    if latest log key = none then keys m ++ [foldCase key] else keys m := by
  have hfind := h.find key hk
  unfold HeaderMap.writeEntry
  dsimp only
  cases hs : m.slot (csilkHeaderIdFromName key) with
  | some a =>
    rw [HeaderMap.slot] at hs
    split at hs
    · rename_i hid
      rw [h.known key hk hid] at hs
      rw [if_neg (fun he => by rw [he] at hs; cases hs)]
      exact keys_setValue m a v
    · cases hs
  | none =>
    cases hf : m.find key with
    | some a =>
      rw [hf] at hfind
      rw [if_neg (fun he => by rw [he] at hfind; cases hfind)]
      exact (congrArg keys (setKnown_eq ..)).trans (keys_setValue m a v)
    | none =>
      rw [hf] at hfind
      rw [if_pos (Option.map_eq_none_iff.1 hfind.symm)]
      exact keys_prepend m key v

theorem keys_record (h : Inv s.1 s.2) (hw : w.Ok) : keys (record s w).1 =
    if isAdd w then keys s.1 ++ [foldCase w.key]
    else if latest s.2 w.key = none then keys s.1 ++ [foldCase w.key] else keys s.1 := by
  rw [record_eq s hw]
  cases w with
  | set | setView => exact keys_write h.mark hw.1.clean.1 _
  | add => exact keys_prepend _ _ _

theorem count_copies (k : Bytes) (hws : ∀ w ∈ ws, w.Ok) :
    (keys (recordAll ws).1).count (foldCase k) = copies k ws ∧
      (latest (recordAll ws).2 k = none ↔ copies k ws = 0) := by
  induction ws using reverseRecOn with
  | nil => exact ⟨rfl, by simp [latest, recordAll, copies]⟩
  | append_singleton ws w ih =>
    obtain ⟨hws, hw⟩ := forall_mem_append.1 hws
    have hw := hw w mem_cons_self
    obtain ⟨ih, hnone⟩ := ih hws
    have hrec : recordAll (ws ++ [w]) = record (recordAll ws) w := foldl_concat ..
    rw [hrec, keys_record (recordAll_inv ws hws) hw, record_eq _ hw, copies, foldl_concat, ← copies]
    by_cases hk : foldCase w.key = foldCase k
    · have hlatest : latest (recordAll ws).2 w.key = latest (recordAll ws).2 k := by
        rw [latest, hk, ← latest]
      rw [latest_cons (by exact hk), if_pos hk, hlatest, hk]
      cases isAdd w with
      | true => simp [ih]
      | false =>
        by_cases h0 : copies k ws = 0
        · simp [hnone.2 h0, ih, h0]
        · simp [mt hnone.1 h0, ih]
          omega
    · rw [latest_cons_ne (by exact hk), if_neg hk, hnone, ← ih]
      refine ⟨?_, Iff.rfl⟩
      split_ifs <;> simp [hk]

theorem sound_recordAll (hws : ∀ w ∈ ws, w.Ok) : Sound (recordAll ws).1 := by
  apply foldlRecOn (motive := fun s => Sound s.1) ws record sound_empty
  intro s h w hw
  obtain ⟨htok, hval⟩ := hws w hw
  have hm : Sound { s.1 with used := true } := ⟨h.clean, h.perm⟩
  have hkey : IsLine w.key := ⟨htok.clean.1.2, htok.clean.2⟩
  rw [record_eq s (hws w hw)]
  cases w with
  | set | setView => exact hm.write htok.1 hkey ⟨hval.1.2, hval.2⟩
  | add => exact hm.prepend htok.1 hkey ⟨hval.1.2, hval.2⟩

def lineName (line : Bytes) : Bytes := foldCase (line.takeWhile (· ≠ 58))

theorem lineName_headerLine (hk : Token k) (h : foldCase e.key = foldCase k) :
    lineName (headerLine e) = foldCase e.key := by
  have hcolon : ∀ n : Fin 256, isTchar (UInt8.ofNat n) = true → foldByte (UInt8.ofNat n) ≠ 58 := by
    decide +kernel
  have hkey : ∀ b ∈ e.key, decide (b ≠ 58) = true := by
    intro b hb
    refine decide_eq_true fun he => ?_
    have hmem : foldByte b ∈ foldCase e.key := mem_map_of_mem hb
    rw [h, he] at hmem
    obtain ⟨c, hc, hfold⟩ := mem_map.1 hmem
    have hne := hcolon ⟨c.toNat, c.toNat_lt⟩
    rw [UInt8.ofNat_toNat] at hne
    exact hne (hk.2 c hc) hfold
  rw [lineName, headerLine, append_assoc, takeWhile_append_of_pos hkey]
  simp [ascii]

theorem keys_subset (hws : ∀ w ∈ ws, w.Ok) : keys (recordAll ws).1 ⊆ ws.map fun w => foldCase w.key := by
  induction ws using reverseRecOn with
  | nil => exact nil_subset _
  | append_singleton ws w ih =>
    obtain ⟨hws, hw⟩ := forall_mem_append.1 hws
    have ih := Subset.trans (ih hws) (subset_append_left _ [foldCase w.key])
    have hrec : recordAll (ws ++ [w]) = record (recordAll ws) w := foldl_concat ..
    rw [hrec, keys_record (recordAll_inv ws hws) (hw w mem_cons_self), map_append]
    split_ifs
    · exact append_subset.2 ⟨ih, subset_append_right _ _⟩
    · exact append_subset.2 ⟨ih, subset_append_right _ _⟩
    · exact ih

theorem filter_headerLines (hws : ∀ w ∈ ws, w.Ok) (k : Bytes) :
    ((chained (recordAll ws).1).map headerLine).filter (fun l => lineName l = foldCase k) =
      ((chained (recordAll ws).1).filter fun h => foldCase h.key = foldCase k).map headerLine := by
  rw [filter_map]
  refine congrArg _ (filter_congr fun e he => ?_)
  have hmem : foldCase e.key ∈ keys (recordAll ws).1 :=
    mem_map_of_mem ((sound_recordAll hws).chained.mem_iff.1 he)
  obtain ⟨w, hw, hkey⟩ := mem_map.1 (keys_subset hws hmem)
  rw [Function.comp_apply, lineName_headerLine (hws w hw).1 hkey.symm]

theorem length_filter_chained (k : Bytes) (hws : ∀ w ∈ ws, w.Ok) :
    ((chained (recordAll ws).1).filter fun h => foldCase h.key = foldCase k).length = copies k ws := by
  rw [← (count_copies k hws).1, keys, count_eq_countP, countP_map,
    ((sound_recordAll hws).chained.filter _).length_eq, countP_eq_length_filter]
  refine congrArg _ (filter_congr fun h _ => ?_)
  exact Bool.eq_iff_iff.2 (by simp)

section

variable {before after : List Write} {k v : Bytes} (hafter : ∀ w ∈ after, foldCase w.key ≠ foldCase k)
include hafter

theorem copies_set : copies k (before ++ .set k v :: after) = max (copies k before) 1 := by
  rw [copies, foldl_append]
  apply foldlRecOn (motive := (· = max (copies k before) 1)) after
  · exact if_pos rfl
  · intro n hn w hw
    rw [if_neg (hafter w hw), hn]

theorem set_once (hws : ∀ w ∈ before ++ .set k v :: after, w.Ok) (hle : copies k before ≤ 1) :
    ∃ h : Header, h.value = v ∧ (chained (recordAll (before ++ .set k v :: after)).1).filter
      (fun h => foldCase h.key = foldCase k) = [h] := by
  have hlatest : ∃ a, latest (recordAll (before ++ .set k v :: after)).2 k = some ⟨k, v, a⟩ := by
    rw [recordAll, foldl_append, foldl_cons, record_eq _ (hws _ mem_append_cons_self)]
    apply foldlRecOn (motive := fun s : _ × List Written => ∃ a, latest s.2 k = some ⟨k, v, a⟩) after
    · exact ⟨_, latest_cons rfl⟩
    · intro s hs w hw
      rw [record_eq s (hws w (mem_append_right _ (mem_cons_of_mem _ hw))), latest_cons_ne (hafter w hw)]
      exact hs
  obtain ⟨a, ha⟩ := hlatest
  obtain ⟨e, he, hkey, hval⟩ := (recordAll_inv _ hws).value k _ ha
  have hlen := length_filter_chained k hws
  rw [copies_set hafter, max_eq_right hle] at hlen
  obtain ⟨h, hone⟩ := length_eq_one_iff.1 hlen
  have hmem := (sound_recordAll hws).chained.mem_iff.2 (mem_of_getElem? he)
  have hmem : e ∈ [h] := hone ▸ mem_filter.2 ⟨hmem, decide_eq_true hkey⟩
  cases mem_singleton.1 hmem
  exact ⟨e, hval, hone⟩

end

/-- A header that was set has one line, with that value, if none of the server's own has its name
and it had at most one before. -/
theorem set_replaces_iff (before after : List Write) (k v : Bytes)
    (hws : ∀ w ∈ before ++ .set k v :: after, w.Ok) (hafter : ∀ w ∈ after, foldCase w.key ≠ foldCase k)
    (r : Response) (isAsync keepAlive : Bool) (h1 : 100 ≤ statusOf r) (h2 : statusOf r ≤ 999)
    (h101 : statusOf r ≠ 101) (hr : r.headers = (recordAll (before ++ .set k v :: after)).1) :
    (∃ h : Header, h.value = v ∧ (headLines (sentBytes r isAsync keepAlive)).filter
        (fun l => lineName l = foldCase k) = [headerLine h]) ↔
      copies k before ≤ 1 ∧ ∀ l ∈ ownLines r isAsync keepAlive, lineName l ≠ foldCase k := by
  rw [sentBytes_lines r isAsync keepAlive h1 h2 h101 (hr ▸ sound_recordAll hws), filter_append, hr,
    filter_headerLines hws]
  have hown : (ownLines r isAsync keepAlive).filter (fun l => lineName l = foldCase k) = [] ↔
      ∀ l ∈ ownLines r isAsync keepAlive, lineName l ≠ foldCase k := by
    simp [filter_eq_nil_iff]
  rw [← hown, ← length_eq_zero_iff]
  constructor
  · rintro ⟨h, -, hone⟩
    have hlength := congrArg length hone
    rw [length_append, length_map, length_filter_chained k hws, copies_set hafter,
      length_singleton] at hlength
    omega
  · rintro ⟨hle, hnone⟩
    obtain ⟨e, hval, hone⟩ := set_once hafter hws hle
    rw [length_eq_zero_iff.1 hnone, hone]
    exact ⟨e, hval, rfl⟩

def withHeaders (ws : List Write) : Response := { Response.fresh with headers := (recordAll ws).1 }

theorem set_replaces_vary : ∃ h : Header, h.value = ascii "b" ∧
    (headLines (sentBytes (withHeaders [.add (ascii "Vary") (ascii "a"), .set (ascii "vary") (ascii "b")])
      false true)).filter (fun l => lineName l = foldCase (ascii "vary")) = [headerLine h] := by
  refine (set_replaces_iff [.add (ascii "Vary") (ascii "a")] [] _ _ vary_ok (by simp) _ false true
    (by decide) (by decide) (by decide) rfl).2 ?_
  decide +kernel

/-- Of two lines one is replaced and the other stays. -/
theorem set_leaves_stale : (headLines (sentBytes (withHeaders [.add (ascii "Via") (ascii "a"),
    .add (ascii "Via") (ascii "b"), .set (ascii "Via") (ascii "c")]) false true)).filter
      (fun l => lineName l = foldCase (ascii "Via")) = [ascii "Via: c", ascii "Via: a"] := by
  decide +kernel

end Csilk.Http1
