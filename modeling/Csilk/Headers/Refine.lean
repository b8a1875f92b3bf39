import Csilk.Headers.Map
import Mathlib.Data.List.Find

namespace Csilk.Headers
open List Option Function

def isTchar (b : UInt8) : Bool :=
  b ∈ ascii "!#$%&'*+-.^_`|~" || (48 ≤ b && b ≤ 57) || (65 ≤ b && b ≤ 90) || (97 ≤ b && b ≤ 122)

def Token (k : Bytes) : Prop := k ≠ [] ∧ ∀ b ∈ k, isTchar b = true

def Plain (k : Bytes) : Prop := 0 ∉ k ∧ 13 ∉ k

def Clean (v : Bytes) : Prop := Plain v ∧ 10 ∉ v

theorem Token.clean (h : Token k) : Clean k :=
  ⟨⟨fun h0 => absurd (h.2 _ h0) (by decide), fun h0 => absurd (h.2 _ h0) (by decide)⟩,
    fun h0 => absurd (h.2 _ h0) (by decide)⟩

theorem Clean.sanitize (h : Clean v) : csilkSanitizeHeaderStr v = v := by
  apply filter_eq_self.2
  intro b hb
  have h13 : b ≠ 13 := fun he => h.1.2 (he ▸ hb)
  have h10 : b ≠ 10 := fun he => h.2 (he ▸ hb)
  simp [h13, h10]

theorem Clean.cString (h : Clean v) : cString v = v := cString_eq_self h.1.1

inductive Write where
  | set (key value : Bytes)
  | setView (key value : Bytes)
  | add (key value : Bytes)

def Write.key : Write → Bytes
  | .set key _ | .setView key _ | .add key _ => key

def Write.value : Write → Bytes
  | .set _ value | .setView _ value | .add _ value => value

def Write.Ok (w : Write) : Prop := Token w.key ∧ Clean w.value

def Write.apply (m : HeaderMap) : Write → HeaderMap × Option Nat
  | .set key value => mapSet m key value
  | .setView key value => mapSetView m key value
  | .add key value => mapAdd m key value

structure Written where
  key : Bytes
  value : Bytes
  entry : Nat

def record (s : HeaderMap × List Written) (w : Write) : HeaderMap × List Written :=
  match w.apply s.1 with
  | (m, none) => (m, s.2)
  | (m, some a) => (m, ⟨w.key, w.value, a⟩ :: s.2)

def recordAll (ws : List Write) : HeaderMap × List Written := ws.foldl record (.empty, [])

def latest (log : List Written) (k : Bytes) : Option Written :=
  log.find? fun w => foldCase w.key = foldCase k

structure Agrees (m : HeaderMap) (log : List Written) : Prop where
  get : ∀ k, Plain k → mapGet m k = (latest log k).map (·.value)
  view : ∀ k, Plain k → mapGetView m k = (latest log k).map (·.value)
  known : ∀ k, Plain k → csilkHeaderIdFromName k ≠ .unknown →
    m.known (csilkHeaderIdFromName k) = (latest log k).map (·.entry)
  entry : ∀ k w, latest log k = some w → ∃ h, m.entries[w.entry]? = some h ∧
    foldCase h.key = foldCase k ∧ h.value = w.value
  count : m.count.toNat = m.stored.length

variable {m : HeaderMap}

theorem headerHash_congr (h : foldCase x = foldCase y) : headerHash x = headerHash y := by
  have hf : ∀ k : Bytes, headerHash k =
      (foldCase k).foldl (fun (hash : UInt32) b => ((hash <<< 5) + hash) + b.toUInt32) 5381 := by
    intro k
    rw [foldCase, foldl_map]
    rfl
  rw [hf, hf, h]

structure Inv (m : HeaderMap) (log : List Written) : Prop where
  entries : ∀ h ∈ m.entries, h.hash = headerHash h.key ∧ Plain h.key
  bound : ∀ b, ∀ a ∈ m.buckets b, a < m.entries.length
  find : ∀ k, Plain k → m.find k = (latest log k).map (·.entry)
  value : ∀ k w, latest log k = some w → ∃ h, m.entries[w.entry]? = some h ∧
    foldCase h.key = foldCase k ∧ h.value = w.value
  known : ∀ k, Plain k → csilkHeaderIdFromName k ≠ .unknown →
    m.known (csilkHeaderIdFromName k) = (latest log k).map (·.entry)
  clean : ∀ w ∈ log, Clean w.value ∧ w.key ≠ []
  used : log ≠ [] → m.used = true
  count : m.count = UInt16.ofNat m.stored.length

theorem latest_cons (h : foldCase w.key = foldCase k) : latest (w :: log) k = some w := by
  rw [latest, find?_cons_of_pos (by simpa using h)]

theorem latest_cons_ne (h : foldCase w.key ≠ foldCase k) : latest (w :: log) k = latest log k := by
  rw [latest, find?_cons_of_neg (by simpa using h)]
  rfl

theorem holds_iff (he : ∀ h ∈ m.entries, h.hash = headerHash h.key ∧ Plain h.key) (hk : Plain k) :
    m.holds k (headerHash k) a = true ↔
      ∃ h, m.entries[a]? = some h ∧ foldCase h.key = foldCase k := by
  unfold HeaderMap.holds
  cases ha : m.entries[a]? with
  | none => simp
  | some h =>
    obtain ⟨hhash, -⟩ := he h (mem_of_getElem? ha)
    simp only [Bool.and_eq_true, Bool.or_eq_true, decide_eq_true_eq, Option.some.injEq,
      exists_eq_left']
    constructor
    · rintro ⟨⟨-, hl⟩, heq | hcmp⟩
      · rw [heq]
      · exact (strncasecmp_iff hl hk.1).1 hcmp
    · intro hf
      have hl : h.key.length = k.length := by
        rw [← foldCase_length, hf, foldCase_length]
      exact ⟨⟨by rw [hhash, headerHash_congr hf], hl⟩, .inr ((strncasecmp_iff hl hk.1).2 hf)⟩

theorem find_congr (h : foldCase x = foldCase y) (hx : Plain x) (hy : Plain y)
    (he : ∀ h ∈ m.entries, h.hash = headerHash h.key ∧ Plain h.key) : m.find x = m.find y := by
  have hp : m.holds x (headerHash x) = m.holds y (headerHash y) := by
    funext a
    rw [Bool.eq_iff_iff, holds_iff he hy, holds_iff he hx, h]
  rw [HeaderMap.find, HeaderMap.find, hp, headerHash_congr h]

theorem inv_empty : Inv .empty [] where
  entries := (by rintro _ ⟨⟩)
  bound := (by rintro _ _ ⟨⟩)
  find := fun _ _ => rfl
  value := (by rintro _ _ ⟨⟩)
  known := fun _ _ _ => rfl
  clean := (by simp)
  used := fun h => absurd rfl h
  count := rfl

theorem Inv.mark (h : Inv m log) : Inv { m with used := true } log :=
  { h with used := fun _ => rfl }

theorem holds_setValue (m : HeaderMap) (a : Nat) (v k : Bytes) (hash : UInt32) (i : Nat) :
    (m.setValue a v).holds k hash i = m.holds k hash i := by
  unfold HeaderMap.holds
  rw [getElem?_setValue]
  cases m.entries[i]? with
  | none => rfl
  | some h =>
    simp only [map_some]
    split <;> rfl

theorem find_setValue (m : HeaderMap) (a : Nat) (v k : Bytes) :
    (m.setValue a v).find k = m.find k := by
  have hp : (m.setValue a v).holds k (headerHash k) = m.holds k (headerHash k) :=
    funext (holds_setValue m a v k _)
  rw [HeaderMap.find, hp]
  rfl

section

variable (h : Inv m log)
include h

theorem Inv.key_of_find (hk : Plain k) (hf : m.find k = some a) :
    ∃ e, m.entries[a]? = some e ∧ foldCase e.key = foldCase k :=
  (holds_iff h.entries hk).1 (find?_some hf)

theorem Inv.overwrite (hk : Plain key) (hne : key ≠ []) (hv : Clean v)
    (ha : m.find key = some a) : Inv (m.setValue a v) (⟨key, v, a⟩ :: log) := by
  obtain ⟨e, he, hek⟩ := h.key_of_find hk ha
  have hset : ∀ k w, latest (⟨key, v, a⟩ :: log) k = some w →
      ∃ e, (m.setValue a v).entries[w.entry]? = some e ∧ foldCase e.key = foldCase k ∧
        e.value = w.value := by
    intro k w hw
    by_cases hkk : foldCase key = foldCase k
    · rw [latest_cons hkk] at hw
      cases hw
      exact ⟨{ e with value := v }, by rw [getElem?_setValue, he]; simp, hek.trans hkk, rfl⟩
    · rw [latest_cons_ne hkk] at hw
      obtain ⟨e', he', hk', hv'⟩ := h.value k w hw
      have hne : a ≠ w.entry := by
        rintro rfl
        rw [he] at he'
        cases he'
        exact hkk (hek.symm.trans hk')
      exact ⟨e', by rw [getElem?_setValue, he']; simp [hne], hk', hv'⟩
  -- The slots and the chains stay, and point at the entry just written for its key.
  have hentry : ∀ k, Plain k → (latest log k).map (·.entry) =
      (latest (⟨key, v, a⟩ :: log) k).map (·.entry) := by
    intro k hkp
    by_cases hkk : foldCase key = foldCase k
    · rw [latest_cons hkk, ← h.find k hkp, find_congr hkk.symm hkp hk h.entries, ha]
      rfl
    · rw [latest_cons_ne hkk]
  refine ⟨?_, ?_, ?_, hset, ?_, ?_, fun _ => ?_, h.count⟩
  · intro x hx
    obtain ⟨i, hi⟩ := getElem?_of_mem hx
    rw [getElem?_setValue, map_eq_some_iff] at hi
    obtain ⟨y, hy, rfl⟩ := hi
    have := h.entries y (mem_of_getElem? hy)
    split
    · exact this
    · exact this
  · intro b i hi
    have hb := h.bound b i hi
    simpa [HeaderMap.setValue] using hb
  · intro k hkp
    rw [find_setValue, h.find k hkp, hentry k hkp]
  · intro k hkp hid
    exact (h.known k hkp hid).trans (hentry k hkp)
  · exact forall_mem_cons.2 ⟨⟨hv, hne⟩, h.clean⟩
  · show m.used = true
    apply h.used
    rintro rfl
    rw [h.find key hk] at ha
    cases ha

theorem Inv.setKnown (hk : Plain key)
    (ha : (latest log key).map (·.entry) = some a) :
    m.setKnown (csilkHeaderIdFromName key) a = m := by
  unfold HeaderMap.setKnown
  split
  · rename_i hid
    have hs : m.known (csilkHeaderIdFromName key) = some a := (h.known key hk hid).trans ha
    rw [← hs, update_eq_self]
  · rfl

theorem Inv.entries_prepend (hkey : Plain key) :
    ∀ e ∈ (m.prependEntry key v).1.entries, e.hash = headerHash e.key ∧ Plain e.key := by
  rw [prependEntry_entries]
  exact forall_mem_append.2 ⟨h.entries, forall_mem_singleton.2 ⟨rfl, hkey⟩⟩

theorem Inv.find_prepend (hk : Plain k) (hkey : Plain key) :
    (m.prependEntry key v).1.find k =
      if foldCase key = foldCase k then some m.entries.length else m.find k := by
  have hentries := h.entries_prepend (v := v) hkey
  have hold : ∀ i < m.entries.length,
      (m.prependEntry key v).1.holds k (headerHash k) i = m.holds k (headerHash k) i := by
    intro i hi
    rw [Bool.eq_iff_iff, holds_iff hentries hk, holds_iff h.entries hk, prependEntry_entries,
      getElem?_append_left hi]
  have hnew : (m.prependEntry key v).1.holds k (headerHash k) m.entries.length = true ↔
      foldCase key = foldCase k := by
    rw [holds_iff hentries hk, prependEntry_entries]
    simp
  have hchain : ∀ b, (m.buckets b).find? ((m.prependEntry key v).1.holds k (headerHash k)) =
      (m.buckets b).find? (m.holds k (headerHash k)) := by
    intro b
    apply find?_congr
    intro i hi
    exact hold i (h.bound b i hi)
  rw [HeaderMap.find, HeaderMap.find, prependEntry_buckets]
  split
  · rename_i hf
    rw [← headerHash_congr hf, update_self, headerHash_congr hf,
      find?_cons_of_pos (hnew.2 hf)]
  · rename_i hf
    by_cases hb : bucketOf (headerHash k) = bucketOf (headerHash key)
    · rw [← hb, update_self, find?_cons_of_neg (fun ht => hf (hnew.1 ht)), hchain]
    · rw [update_of_ne hb, hchain]

theorem Inv.prepend (hu : m.used = true) (hk : Plain key) (hne : key ≠ [])
    (hv : Clean v) : Inv (m.prependEntry key v).1 (⟨key, v, m.entries.length⟩ :: log) := by
  have hentry : ∀ k, (latest (⟨key, v, m.entries.length⟩ :: log) k).map (·.entry) =
      if foldCase key = foldCase k then some m.entries.length
      else (latest log k).map (·.entry) := by
    intro k
    split
    · rename_i hf
      rw [latest_cons hf]
      rfl
    · rename_i hf
      rw [latest_cons_ne hf]
  refine ⟨h.entries_prepend hk, ?_, ?_, ?_, ?_, ?_, fun _ => ?_, ?_⟩
  · intro b i hi
    rw [prependEntry_entries, length_append]
    rw [prependEntry_buckets, update_apply] at hi
    split at hi
    · rcases mem_cons.1 hi with rfl | hi
      · exact Nat.lt_succ_self _
      · exact Nat.lt_succ_of_lt (h.bound _ i hi)
    · exact Nat.lt_succ_of_lt (h.bound _ i hi)
  · intro k hkp
    rw [h.find_prepend hkp hk, hentry, h.find k hkp]
  · intro k w hw
    by_cases hf : foldCase key = foldCase k
    · rw [latest_cons hf] at hw
      cases hw
      exact ⟨_, by rw [prependEntry_entries, getElem?_concat_length], hf, rfl⟩
    · rw [latest_cons_ne hf] at hw
      obtain ⟨e, he, hek, hev⟩ := h.value k w hw
      have hlt : w.entry < m.entries.length := (List.getElem?_eq_some_iff.1 he).1
      exact ⟨e, by rw [prependEntry_entries, getElem?_append_left hlt, he], hek, hev⟩
  · intro k hkp hid
    rw [prependEntry_known _ _ _ hid, hentry, h.known k hkp hid]
    by_cases hf : foldCase key = foldCase k
    · rw [if_pos (csilkHeaderIdFromName_congr hkp.2 hk.2 hf.symm), if_pos hf]
    · rw [if_neg (fun he => hf (foldCase_eq_of_id hkp.2 hk.2 hid he).symm), if_neg hf]
  · exact forall_mem_cons.2 ⟨⟨hv, hne⟩, h.clean⟩
  · exact (congrArg HeaderMap.used (setKnown_eq ..)).trans hu
  · rw [(stored_prependEntry m key v).length_eq]
    refine (congrArg HeaderMap.count (setKnown_eq ..)).trans ?_
    show m.count + 1 = _
    rw [h.count]
    exact (UInt16.ofNat_add _ _).symm

theorem Inv.write (hu : m.used = true) (hk : Plain key) (hne : key ≠ [])
    (hv : Clean v) :
    Inv (m.writeEntry key v).1 (⟨key, v, (m.writeEntry key v).2⟩ :: log) := by
  unfold HeaderMap.writeEntry
  dsimp only
  cases hs : m.slot (csilkHeaderIdFromName key) with
  | some a =>
    have hid : csilkHeaderIdFromName key ≠ .unknown := by
      intro he
      rw [HeaderMap.slot, if_neg (not_not.2 he)] at hs
      cases hs
    rw [HeaderMap.slot, if_pos hid, h.known key hk hid, ← h.find key hk] at hs
    exact h.overwrite hk hne hv hs
  | none =>
    cases hf : m.find key with
    | some a =>
      have ho := h.overwrite hk hne hv hf
      dsimp only
      rw [ho.setKnown hk (by rw [latest_cons rfl]; rfl)]
      exact ho
    | none => exact h.prepend hu hk hne hv

end

theorem mapSet_clean (m : HeaderMap) (hk : Clean key) (hne : key ≠ []) (hv : Clean v) :
    mapSet m key v = mapSetView m key v := by
  have hlen : key.length ≠ 0 := fun he => hne (eq_nil_of_length_eq_zero he)
  rw [mapSet, hk.sanitize, hv.sanitize, if_neg hlen]
  rfl

theorem mapAdd_clean (m : HeaderMap) (hk : Clean key) (hne : key ≠ []) (hv : Clean v) :
    mapAdd m key v = (({ m with used := true } : HeaderMap).prependEntry key v).map id some := by
  have hlen : key.length ≠ 0 := fun he => hne (eq_nil_of_length_eq_zero he)
  rw [mapAdd, hk.sanitize, hv.sanitize, if_neg hlen]
  rfl

def Write.enter (m : HeaderMap) : Write → HeaderMap × Nat
  | .set key value | .setView key value => m.writeEntry key value
  | .add key value => m.prependEntry key value

theorem record_eq (s : HeaderMap × List Written) (hw : w.Ok) :
    record s w = ((w.enter { s.1 with used := true }).1,
      ⟨w.key, w.value, (w.enter { s.1 with used := true }).2⟩ :: s.2) := by
  obtain ⟨htok, hval⟩ := hw
  unfold record
  cases w with
  | set key value =>
    rw [Write.apply, show mapSet s.1 key value = _ from mapSet_clean _ htok.clean htok.1 hval]
    rfl
  | setView key value => rfl
  | add key value =>
    rw [Write.apply, show mapAdd s.1 key value = _ from mapAdd_clean _ htok.clean htok.1 hval]
    rfl

theorem Inv.record (h : Inv s.1 s.2) (hw : w.Ok) : Inv (record s w).1 (record s w).2 := by
  rw [record_eq s hw]
  obtain ⟨htok, hval⟩ := hw
  cases w with
  | set | setView => exact h.mark.write rfl htok.clean.1 htok.1 hval
  | add => exact h.mark.prepend rfl htok.clean.1 htok.1 hval

theorem recordAll_inv (ws : List Write) (hws : ∀ w ∈ ws, w.Ok) :
    Inv (recordAll ws).1 (recordAll ws).2 := by
  apply foldlRecOn (motive := fun s => Inv s.1 s.2) ws Headers.record inv_empty
  intro s h w hw
  exact h.record (hws w hw)

theorem Inv.locate (h : Inv m log) (hk : Plain k) :
    m.locate k = (latest log k).bind fun w => m.entries[w.entry]? := by
  have hor : (m.slot (csilkHeaderIdFromName k)).or (m.find k) = (latest log k).map (·.entry) := by
    rw [h.find k hk, HeaderMap.slot]
    split
    · rename_i hid
      rw [h.known k hk hid, Option.or_self]
    · rfl
  rw [HeaderMap.locate, hor, bind_map]
  rfl

theorem Inv.get (h : Inv m log) (hk : Plain k) : mapGet m k = (latest log k).map (·.value) := by
  rw [mapGet, h.locate hk]
  cases hl : latest log k with
  | none => rfl
  | some w =>
    obtain ⟨e, he, -, hv⟩ := h.value k w hl
    have hc : Clean w.value := (h.clean w (mem_of_find?_eq_some hl)).1
    rw [bind_some, he, map_some, map_some, hv, hc.cString]

theorem Inv.view (h : Inv m log) (hk : Plain k) :
    mapGetView m k = (latest log k).map (·.value) := by
  rw [mapGetView, h.locate hk]
  cases hl : latest log k with
  | none => simp
  | some w =>
    obtain ⟨e, he, -, hv⟩ := h.value k w hl
    have hmem := mem_of_find?_eq_some hl
    have hc := h.clean w hmem
    have hu : m.used = true := h.used (ne_nil_of_mem hmem)
    have hne : k ≠ [] := by
      rintro rfl
      have hf : foldCase w.key = foldCase [] := by simpa using find?_some hl
      exact hc.2 (map_eq_nil_iff.1 hf)
    rw [if_neg (by simp [hu, hne]), bind_some, he, map_some, map_some, hv,
      hc.1.cString, ite_self]

theorem Inv.count_mod (h : Inv m log) : m.count.toNat = m.stored.length % 2 ^ 16 := by
  rw [h.count, UInt16.toNat_ofNat']

/-- The map agrees with the association list while its 16-bit counter holds the entries. -/
theorem headerMap_agrees_iff (ws : List Write) (hws : ∀ w ∈ ws, w.Ok) :
    Agrees (recordAll ws).1 (recordAll ws).2 ↔ (recordAll ws).1.stored.length < 2 ^ 16 := by
  have h := recordAll_inv ws hws
  constructor
  · intro ha
    rw [← ha.count]
    exact UInt16.toNat_lt _
  · intro hlt
    have hcount := h.count_mod
    rw [Nat.mod_eq_of_lt hlt] at hcount
    exact ⟨fun k hk => h.get hk, fun k hk => h.view hk, h.known, h.value, hcount⟩

theorem vary_ok : ∀ w ∈ [Write.add (ascii "Vary") (ascii "a"), .set (ascii "vary") (ascii "b")], w.Ok := by
  intro w hw
  simp only [mem_cons, not_mem_nil, or_false] at hw
  rcases hw with rfl | rfl
  · exact ⟨⟨by decide, List.all_eq_true.1 (by decide)⟩, ⟨by decide, by decide⟩, by decide⟩
  · exact ⟨⟨by decide, List.all_eq_true.1 (by decide)⟩, ⟨by decide, by decide⟩, by decide⟩

theorem headerMap_agrees_two :
    Agrees (recordAll [.add (ascii "Vary") (ascii "a"), .set (ascii "vary") (ascii "b")]).1
      (recordAll [.add (ascii "Vary") (ascii "a"), .set (ascii "vary") (ascii "b")]).2 :=
  (headerMap_agrees_iff _ vary_ok).2 (by decide)

theorem stored_replicate_add (hk : Clean key) (hne : key ≠ []) (hv : Clean v) (n : Nat)
    (s : HeaderMap × List Written) :
    ((List.replicate n (.add key v)).foldl record s).1.stored.length = s.1.stored.length + n := by
  induction n generalizing s with
  | zero => rfl
  | succ n ih =>
    have hs : (record s (.add key v)).1.stored.length = s.1.stored.length + 1 := by
      rw [record, Write.apply, mapAdd_clean _ hk hne hv]
      exact (stored_prependEntry _ _ _).length_eq
    rw [replicate_succ, foldl_cons, ih]
    omega

/-- With 65536 entries the counter reads 0. -/
theorem headerMap_count_wraps : ∃ ws : List Write, (∀ w ∈ ws, w.Ok) ∧
    (recordAll ws).1.stored.length = 2 ^ 16 ∧ (recordAll ws).1.count = 0 ∧
    ¬ Agrees (recordAll ws).1 (recordAll ws).2 := by
  have hw : (Write.add (ascii "Via") (ascii "a")).Ok :=
    ⟨⟨by decide, List.all_eq_true.1 (by decide)⟩, ⟨by decide, by decide⟩, by decide⟩
  have hws : ∀ w ∈ List.replicate (2 ^ 16) (Write.add (ascii "Via") (ascii "a")), w.Ok := by
    intro w hmem
    rw [eq_of_mem_replicate hmem]
    exact hw
  have hlen := stored_replicate_add hw.1.clean hw.1.1 hw.2 (2 ^ 16) (.empty, [])
  have hl : (recordAll (List.replicate (2 ^ 16) (.add (ascii "Via") (ascii "a")))).1.stored.length =
      2 ^ 16 := hlen
  have hcount := (recordAll_inv _ hws).count_mod
  rw [hl] at hcount
  refine ⟨_, hws, hl, UInt16.toNat_inj.1 hcount, ?_⟩
  intro ha
  have hc := ha.count
  rw [hl, hcount] at hc
  cases hc

end Csilk.Headers
