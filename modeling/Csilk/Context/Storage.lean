import Csilk.Context.Api
import Mathlib.Data.List.Induction
import Mathlib.Data.List.Nodup
import Mathlib.Data.List.Perm.Basic

namespace Csilk.Context.Storage
open Csilk.Headers List Option

structure Store where
  items : List StorageItem
  freed : List (Fn × Nat)
  deriving DecidableEq

def Store.empty : Store := ⟨[], []⟩

def due (item : StorageItem) : Option (Fn × Nat) :=
  match item.freeFn, item.value with
  | some fn, some v => some (fn, v)
  | _, _ => none

def assign (new : StorageItem) : List StorageItem → Option Store
  | [] => none
  | item :: rest =>
    if item.key = new.key then
      some ⟨new :: rest, if item.value = new.value then [] else (due item).toList⟩
    else (assign new rest).map fun s => { s with items := item :: s.items }

/-- Without a storage driver, for a destructor that leaves the context alone. -/
def csilkSetEx (s : Store) (key : Bytes) (value : Option Nat) (freeFn : Option Fn) : Store :=
  match assign ⟨key, value, freeFn⟩ s.items with
  | some t => ⟨t.items, s.freed ++ t.freed⟩
  | none =>
    if s.items.length ≥ csilkMaxStorage then s
    else { s with items := ⟨key, value, freeFn⟩ :: s.items }

def csilkSet (s : Store) (key : Bytes) (value : Option Nat) : Store :=
  csilkSetEx s key value none

/-- `copy` is the arena's copy of the string, none for NULL. -/
def csilkSetString (s : Store) (key : Bytes) (copy : Option Nat) : Store × Int :=
  match copy with
  | none => (s, -1)
  | some p => (csilkSet s key (some p), 0)

def csilkGet (s : Store) (key : Bytes) : Option Nat :=
  (s.items.find? fun item => item.key = key).bind StorageItem.value

def releaseItems (s : Store) : Nat → Store
  | 0 => s
  | n + 1 =>
    let s := releaseItems s n
    match s.items[n]? with
    | some ⟨key, some v, some fn⟩ =>
      ⟨s.items.set n ⟨key, none, some fn⟩, s.freed ++ [(fn, v)]⟩
    | _ => s

def csilkCtxCleanup (s : Store) : Store :=
  { releaseItems s s.items.length with items := [] }

inductive Call
  | csilkSet (key : Bytes) (value : Option Nat)
  | csilkSetEx (key : Bytes) (value : Option Nat) (freeFn : Fn)
  | csilkSetString (key : Bytes) (copy : Option Nat)
  | csilkGet (key : Bytes)
  deriving DecidableEq

def step (s : Store) : Call → Store
  | .csilkSet key value => csilkSet s key value
  | .csilkSetEx key value freeFn => csilkSetEx s key value (some freeFn)
  | .csilkSetString key copy => (csilkSetString s key copy).1
  | .csilkGet _ => s

def run (s : Store) (calls : List Call) : Store := calls.foldl step s

def Call.item : Call → Option StorageItem
  | .csilkSet key value => some ⟨key, value, none⟩
  | .csilkSetEx key value freeFn => some ⟨key, value, some freeFn⟩
  | .csilkSetString _ none => none
  | .csilkSetString key (some p) => some ⟨key, some p, none⟩
  | .csilkGet _ => none

def Call.owned (call : Call) : Option (Fn × Nat) := call.item.bind due

/-- A pointer handed over with a destructor is used in one call only. -/
def SingleUse (calls : List Call) : Prop :=
  calls.Pairwise fun c d =>
    c.item.bind StorageItem.value = d.item.bind StorageItem.value → c.owned = none ∧ d.owned = none

instance (calls : List Call) : Decidable (SingleUse calls) :=
  inferInstanceAs (Decidable (List.Pairwise _ _))

def distinctKeys (calls : List Call) : List Bytes :=
  ((calls.filterMap Call.item).map StorageItem.key).eraseDups

/-- A value with a destructor comes under one of the first 64 keys in use. -/
def HasRoom (before : List Call) : Call → Prop
  | .csilkSetEx key (some _) _ =>
    key ∈ (distinctKeys before).take csilkMaxStorage ∨
      (distinctKeys before).length < csilkMaxStorage
  | _ => True

instance : (before : List Call) → (call : Call) → Decidable (HasRoom before call)
  | _, .csilkSetEx _ (some _) _ => inferInstanceAs (Decidable (_ ∨ _))
  | _, .csilkSetEx _ none _ | _, .csilkSet _ _ | _, .csilkSetString _ _ | _, .csilkGet _ =>
    .isTrue trivial

theorem step_eq (s : Store) (call : Call) : step s call =
    call.item.elim s fun new => csilkSetEx s new.key new.value new.freeFn := by
  cases call with
  | csilkSetString key copy => cases copy <;> rfl
  | _ => rfl

theorem due_value (h : due item = some p) : item.value = some p.2 ∧ item.freeFn = some p.1 := by
  obtain ⟨key, value, freeFn⟩ := item
  cases freeFn with
  | none => cases value <;> cases h
  | some fn =>
    cases value with
    | none => cases h
    | some v => cases h; exact ⟨rfl, rfl⟩

theorem assign_some (h : assign new items = some t) :
    ∃ front item back, items = front ++ item :: back ∧ item.key = new.key ∧
      t = ⟨front ++ new :: back, if item.value = new.value then [] else (due item).toList⟩ := by
  induction items generalizing t with
  | nil => cases h
  | cons item rest ih =>
    rw [assign] at h
    split at h
    case isTrue hkey =>
      cases h
      exact ⟨[], item, rest, rfl, hkey, rfl⟩
    case isFalse =>
      obtain ⟨u, hu, rfl⟩ := map_eq_some_iff.1 h
      obtain ⟨front, old, back, rfl, hkey, rfl⟩ := ih hu
      exact ⟨item :: front, old, back, rfl, hkey, rfl⟩

theorem assign_none (h : assign new items = none) : new.key ∉ items.map StorageItem.key := by
  induction items with
  | nil => exact not_mem_nil
  | cons item rest ih =>
    rw [assign] at h
    split at h
    case isTrue => cases h
    case isFalse hkey =>
      rw [map_cons, mem_cons, not_or]
      exact ⟨fun heq => hkey heq.symm, ih (map_eq_none_iff.1 h)⟩

theorem csilkSetEx_cases (s : Store) (new : StorageItem) :
    (∃ front item back, s.items = front ++ item :: back ∧ item.key = new.key ∧
      csilkSetEx s new.key new.value new.freeFn = ⟨front ++ new :: back,
        s.freed ++ if item.value = new.value then [] else (due item).toList⟩) ∨
    (new.key ∉ s.items.map StorageItem.key ∧ s.items.length ≥ csilkMaxStorage ∧
      csilkSetEx s new.key new.value new.freeFn = s) ∨
    (new.key ∉ s.items.map StorageItem.key ∧ s.items.length < csilkMaxStorage ∧
      csilkSetEx s new.key new.value new.freeFn = { s with items := new :: s.items }) := by
  rw [csilkSetEx]
  split
  case h_1 t ht =>
    obtain ⟨front, item, back, hitems, hkey, rfl⟩ := assign_some ht
    exact .inl ⟨front, item, back, hitems, hkey, rfl⟩
  case h_2 hnone =>
    have hkey := assign_none hnone
    split
    case isTrue hfull => exact .inr (.inl ⟨hkey, hfull, rfl⟩)
    case isFalse hroom => exact .inr (.inr ⟨hkey, Nat.lt_of_not_le hroom, rfl⟩)

def acceptedAt (calls : List Call) (i : Nat) : Option (Fn × Nat) :=
  calls[i]?.bind fun call => if HasRoom (calls.take i) call then call.owned else none

def accepted (calls : List Call) : List (Fn × Nat) :=
  (range calls.length).filterMap (acceptedAt calls)

structure Balanced (calls : List Call) (taken : List (Fn × Nat)) (s : Store) : Prop where
  balance : (s.freed ++ s.items.filterMap due).Perm taken
  origin : ∀ item ∈ s.items, item.value ≠ none → item ∈ calls.filterMap Call.item

def KeysInUse (calls : List Call) (s : Store) : Prop :=
  s.items.map StorageItem.key = ((distinctKeys calls).take csilkMaxStorage).reverse

theorem filterMap_due_cons (item : StorageItem) (items : List StorageItem) :
    (item :: items).filterMap due = (due item).toList ++ items.filterMap due := by
  rw [filterMap_cons]
  cases due item <;> rfl

theorem SingleUse.fresh (h : SingleUse (before ++ [call])) (hnew : call.item = some new)
    (hold : old ∈ before.filterMap Call.item) (hvalue : old.value = new.value) :
    due old = none ∧ due new = none := by
  obtain ⟨earlier, hmem, hitem⟩ := mem_filterMap.1 hold
  have hpair := (pairwise_append.1 h).2.2 earlier hmem call (mem_singleton.2 rfl)
  simp only [Call.owned, hitem, hnew] at hpair
  exact hpair hvalue

theorem owned_eq_due {call : Call} (h : call.item = some new) : call.owned = due new := by
  rw [Call.owned, h, bind_some]

theorem hasRoom_iff (hitem : call.item = some new) (hdue : due new ≠ none) :
    HasRoom before call ↔ new.key ∈ (distinctKeys before).take csilkMaxStorage ∨
      (distinctKeys before).length < csilkMaxStorage := by
  cases call with
  | csilkSet key value => cases hitem; exact absurd rfl hdue
  | csilkSetEx key value freeFn =>
    cases hitem
    cases value with
    | none => exact absurd rfl hdue
    | some v => exact Iff.rfl
  | csilkSetString key copy =>
    cases copy with
    | none => cases hitem
    | some p => cases hitem; exact absurd rfl hdue
  | csilkGet key => cases hitem

theorem distinctKeys_none (h : call.item = none) :
    distinctKeys (before ++ [call]) = distinctKeys before := by
  simp only [distinctKeys, filterMap_append, filterMap_cons, h, filterMap_nil,
    append_nil]

theorem distinctKeys_some (h : call.item = some new) :
    distinctKeys (before ++ [call]) = distinctKeys before ++
      if new.key ∈ distinctKeys before then [] else [new.key] := by
  simp only [distinctKeys, filterMap_append, filterMap_cons, h, filterMap_nil,
    map_append, map_cons, map_nil, eraseDups_append, mem_eraseDups]
  split
  case isTrue hmem => simp [List.removeAll, hmem]
  case isFalse hmem => simp [List.removeAll, hmem, eraseDups_cons]

theorem KeysInUse.length {s : Store} (h : KeysInUse calls s) :
    s.items.length = min csilkMaxStorage (distinctKeys calls).length := by
  rw [← length_map StorageItem.key, h, length_reverse, length_take]

theorem KeysInUse.mem_iff {s : Store} (h : KeysInUse calls s) :
    key ∈ s.items.map StorageItem.key ↔ key ∈ (distinctKeys calls).take csilkMaxStorage := by
  rw [h, mem_reverse]

theorem KeysInUse.take_eq {s : Store} (h : KeysInUse calls s)
    (hroom : s.items.length < csilkMaxStorage) :
    (distinctKeys calls).take csilkMaxStorage = distinctKeys calls := by
  rw [h.length] at hroom
  exact take_of_length_le (by omega)

theorem KeysInUse.step {s : Store} (h : KeysInUse before s) (call : Call) :
    KeysInUse (before ++ [call]) (step s call) := by
  cases hitem : call.item with
  | none => rwa [step_eq, hitem, elim_none, KeysInUse, distinctKeys_none hitem]
  | some new =>
    rw [step_eq, hitem, elim_some, KeysInUse, distinctKeys_some hitem]
    rcases csilkSetEx_cases s new with
      ⟨front, item, back, hitems, hkey, heq⟩ | ⟨hkey, hfull, heq⟩ | ⟨hkey, hroom, heq⟩
    · have hkeys : (front ++ new :: back).map StorageItem.key = s.items.map StorageItem.key := by
        rw [hitems, map_append, map_append, map_cons, map_cons, hkey]
      have hmem : new.key ∈ s.items.map StorageItem.key := by
        rw [← hkeys, map_append]
        exact mem_append_right _ mem_cons_self
      rw [heq, hkeys, if_pos (mem_of_mem_take (h.mem_iff.1 hmem)), append_nil, h]
    · have hlen := h.length
      rw [heq, take_append_of_le_length (by omega), h]
    · have htake := h.take_eq hroom
      have hnew : new.key ∉ distinctKeys before := by
        rwa [h.mem_iff, htake] at hkey
      have hlen := h.length
      rw [heq, if_neg hnew, map_cons, h, htake, take_of_length_le, reverse_append]
      · exact singleton_append.symm
      · rw [length_append, length_singleton]
        omega

theorem KeysInUse.owned {s : Store} (h : KeysInUse before s) (hitem : call.item = some new) :
    (if HasRoom before call then call.owned else none) =
      if new.key ∈ s.items.map StorageItem.key ∨ s.items.length < csilkMaxStorage then due new
      else none := by
  rw [owned_eq_due hitem]
  by_cases hdue : due new = none
  · rw [hdue, ite_self, ite_self]
  · apply if_congr _ rfl rfl
    rw [hasRoom_iff hitem hdue, h.mem_iff, h.length]
    exact or_congr_right (by omega)

theorem Balanced.step {s : Store} (h : Balanced before taken s) (hkeys : KeysInUse before s)
    (huse : SingleUse (before ++ [call])) :
    Balanced (before ++ [call])
      (taken ++ (if HasRoom before call then call.owned else none).toList) (step s call) := by
  have hmono : ∀ item ∈ s.items, item.value ≠ none →
      item ∈ (before ++ [call]).filterMap Call.item := by
    intro item hmem hv
    rw [filterMap_append]
    exact mem_append_left _ (h.origin item hmem hv)
  cases hitem : call.item with
  | none =>
    rw [step_eq, Call.owned, hitem, bind_none, ite_self, toList_none, append_nil]
    exact ⟨h.balance, hmono⟩
  | some new =>
    have hlast : new ∈ (before ++ [call]).filterMap Call.item :=
      mem_filterMap.2 ⟨call, mem_append_right _ mem_cons_self, hitem⟩
    rw [step_eq, hkeys.owned hitem, hitem, elim_some]
    rcases csilkSetEx_cases s new with
      ⟨front, item, back, hitems, hkey, heq⟩ | ⟨hkey, hfull, heq⟩ | ⟨hkey, hspace, heq⟩
    · have hmem : item ∈ s.items := hitems ▸ mem_append_right _ mem_cons_self
      have hfreed : (if item.value = new.value then [] else (due item).toList) =
          (due item).toList := by
        apply ite_eq_right_iff.2
        intro hv
        cases hdue : due item with
        | none => rfl
        | some p =>
          have hsome : item.value ≠ none := by rw [(due_value hdue).1]; exact some_ne_none _
          rw [(huse.fresh hitem (h.origin item hmem hsome) hv).1] at hdue
          cases hdue
      rw [heq, if_pos (.inl (hkey ▸ List.mem_map_of_mem hmem)), hfreed]
      constructor
      · apply perm_iff_count.2
        intro p
        have hcount := h.balance.count_eq p
        simp only [hitems, filterMap_append, filterMap_due_cons, count_append] at hcount ⊢
        omega
      · intro other hother
        rw [hitems] at hmono
        rcases mem_append.1 hother with hfront | hrest
        · exact hmono other (mem_append_left _ hfront)
        · rcases mem_cons.1 hrest with rfl | hback
          · exact fun _ => hlast
          · exact hmono other (mem_append_right _ (mem_cons_of_mem _ hback))
    · rw [heq, if_neg (not_or.2 ⟨hkey, Nat.not_lt_of_le hfull⟩), toList_none, append_nil]
      exact ⟨h.balance, hmono⟩
    · rw [heq, if_pos (.inr hspace)]
      constructor
      · apply perm_iff_count.2
        intro p
        have hcount := h.balance.count_eq p
        simp only [filterMap_due_cons, count_append] at hcount ⊢
        omega
      · exact forall_mem_cons.2 ⟨fun _ => hlast, hmono⟩

theorem accepted_concat (calls : List Call) (call : Call) : accepted (calls ++ [call]) =
    accepted calls ++ (if HasRoom calls call then call.owned else none).toList := by
  rw [accepted, length_append, length_singleton, range_succ, filterMap_append]
  congr 1
  · apply filterMap_congr
    intro i hi
    have hi := mem_range.1 hi
    rw [acceptedAt, getElem?_append_left hi, take_append_of_le_length (le_of_lt hi), acceptedAt]
  · rw [filterMap_cons, acceptedAt, getElem?_concat_length, bind_some, take_left]
    cases (if HasRoom calls call then call.owned else none) <;> rfl

theorem run_balanced (huse : SingleUse calls) :
    Balanced calls (accepted calls) (run .empty calls) ∧ KeysInUse calls (run .empty calls) := by
  induction calls using reverseRecOn with
  | nil => exact ⟨⟨.refl _, by rintro _ ⟨⟩⟩, rfl⟩
  | append_singleton calls call ih =>
    obtain ⟨hbalanced, hkeys⟩ := ih (huse.sublist (sublist_append_left _ _))
    rw [run, foldl_append, accepted_concat]
    exact ⟨hbalanced.step hkeys huse, hkeys.step call⟩

def released (item : StorageItem) : StorageItem :=
  if (due item).isSome then { item with value := none } else item

theorem released_spec (item : StorageItem) : due (released item) = none ∧
    ((released item).value ≠ none → released item = item) := by
  obtain ⟨key, value, freeFn⟩ := item
  cases freeFn with
  | none => exact ⟨rfl, fun _ => rfl⟩
  | some fn =>
    cases value with
    | none => exact ⟨rfl, fun _ => rfl⟩
    | some v => exact ⟨rfl, fun h => absurd rfl h⟩

theorem releaseItems_eq (s : Store) (n : Nat) : releaseItems s n =
    ⟨(s.items.take n).map released ++ s.items.drop n, s.freed ++ (s.items.take n).filterMap due⟩ := by
  induction n with
  | zero => rw [take_zero, filterMap_nil, append_nil]; rfl
  | succ n ih =>
    rw [releaseItems, ih]
    cases hget : s.items[n]? with
    | none =>
      have hle := getElem?_eq_none_iff.1 hget
      rw [take_of_length_le hle, take_of_length_le (Nat.le_succ_of_le hle), drop_of_length_le hle,
        drop_of_length_le (Nat.le_succ_of_le hle), append_nil, List.getElem?_eq_none]
      rwa [length_map]
    | some item =>
      obtain ⟨hlt, hitem⟩ := List.getElem?_eq_some_iff.1 hget
      have hdrop : s.items.drop n = item :: s.items.drop (n + 1) := hitem ▸ drop_eq_getElem_cons hlt
      have hlen : ((s.items.take n).map released).length = n := by
        rw [length_map, length_take_of_le (le_of_lt hlt)]
      have htake : s.items.take (n + 1) = s.items.take n ++ [item] := by
        rw [take_add_one, hget, toList_some]
      rw [htake, map_append, hdrop]
      generalize (s.items.take n).map released = front at hlen
      have hset : ∀ new, (front ++ item :: s.items.drop (n + 1)).set n new =
          front ++ new :: s.items.drop (n + 1) := by
        intro new
        rw [set_append_right _ _ (le_of_eq hlen), hlen, Nat.sub_self, set_cons_zero]
      rw [getElem?_append_right (le_of_eq hlen), hlen]
      obtain ⟨key, value, freeFn⟩ := item
      cases freeFn with
      | none => simp [released, due]
      | some fn => cases value <;> simp [released, due, hset]

theorem csilkCtxCleanup_freed {s : Store} (h : Balanced calls taken s) :
    (csilkCtxCleanup s).freed.Perm taken := by
  rw [csilkCtxCleanup, releaseItems_eq, take_length]
  exact h.balance

theorem Balanced.releaseItems {s : Store} (h : Balanced calls taken s) (n : Nat) :
    Balanced calls taken (releaseItems s n) := by
  have hnone : ((s.items.take n).map released).filterMap due = [] := by
    rw [filterMap_map]
    exact filterMap_eq_nil_iff.2 fun item _ => (released_spec item).1
  rw [releaseItems_eq]
  constructor
  · rw [filterMap_append, hnone, nil_append, append_assoc, ← filterMap_append, take_append_drop]
    exact h.balance
  · intro item hmem hv
    apply h.origin item _ hv
    rcases mem_append.1 hmem with hmem | hmem
    · obtain ⟨old, hold, rfl⟩ := List.mem_map.1 hmem
      rw [(released_spec old).2 hv]
      exact mem_of_mem_take hold
    · exact mem_of_mem_drop hmem

theorem acceptedAt_eq_some : acceptedAt calls i = some p ↔
    ∃ hi : i < calls.length, HasRoom (calls.take i) calls[i] ∧ calls[i].owned = some p := by
  rw [acceptedAt]
  constructor
  · intro hp
    obtain ⟨call, hcall, hp⟩ := bind_eq_some_iff.1 hp
    obtain ⟨hi, rfl⟩ := List.getElem?_eq_some_iff.1 hcall
    split at hp
    case isTrue hroom => exact ⟨hi, hroom, hp⟩
    case isFalse => cases hp
  · rintro ⟨hi, hroom, hp⟩
    rw [getElem?_eq_getElem hi, bind_some, if_pos hroom, hp]

theorem mem_accepted : p ∈ accepted calls ↔
    ∃ i, ∃ hi : i < calls.length, HasRoom (calls.take i) calls[i] ∧ calls[i].owned = some p := by
  rw [accepted, mem_filterMap]
  simp only [acceptedAt_eq_some]
  constructor
  · rintro ⟨i, -, hp⟩
    exact ⟨i, hp⟩
  · rintro ⟨i, hi, hp⟩
    exact ⟨i, mem_range.2 hi, hi, hp⟩

theorem owned_value {call : Call} (h : call.owned = some p) :
    call.item.bind StorageItem.value = some p.2 := by
  obtain ⟨item, hitem, hdue⟩ := bind_eq_some_iff.1 h
  rw [hitem, bind_some, (due_value hdue).1]

theorem SingleUse.index_eq (h : SingleUse calls) (hi : i < calls.length) (hj : j < calls.length)
    (howned : calls[i].owned = some p)
    (hvalue : calls[j].item.bind StorageItem.value = some p.2) : i = j := by
  have hp := owned_value howned
  have hpair := pairwise_iff_getElem.1 h
  rcases Nat.lt_trichotomy i j with hlt | heq | hgt
  · have hnone := (hpair i j hi hj hlt (hp.trans hvalue.symm)).1
    rw [howned] at hnone
    cases hnone
  · exact heq
  · have hnone := (hpair j i hj hi hgt (hvalue.trans hp.symm)).2
    rw [howned] at hnone
    cases hnone

theorem SingleUse.nodup (h : SingleUse calls) : ((accepted calls).map Prod.snd).Nodup := by
  rw [accepted, map_filterMap]
  apply nodup_range.filterMap
  intro i j v hi hj
  obtain ⟨p, hp, rfl⟩ := map_eq_some_iff.1 hi
  obtain ⟨q, hq, hqp⟩ := map_eq_some_iff.1 hj
  obtain ⟨hi, -, hp⟩ := acceptedAt_eq_some.1 hp
  obtain ⟨hj, -, hq⟩ := acceptedAt_eq_some.1 hq
  exact h.index_eq hi hj hp (hqp ▸ owned_value hq)

def LiveUnfreed (s : Store) : Prop :=
  ∀ key v, csilkGet s key = some v → ∀ fn, (fn, v) ∉ s.freed

theorem csilkGet_mem (h : csilkGet s key = some v) : ∃ item ∈ s.items, item.value = some v := by
  obtain ⟨item, hfind, hvalue⟩ := bind_eq_some_iff.1 h
  exact ⟨item, mem_of_find?_eq_some hfind, hvalue⟩

theorem Balanced.liveUnfreed {s : Store} (h : Balanced calls (accepted calls) s)
    (huse : SingleUse calls) : LiveUnfreed s := by
  intro key v hget fn hfreed
  obtain ⟨item, hitem, hvalue⟩ := csilkGet_mem hget
  cases hdue : due item with
  | some p =>
    -- The pointer would be twice among the values the calls hand over.
    have hp : p.2 = v := Option.some.inj ((due_value hdue).1.symm.trans hvalue)
    have hnodup := huse.nodup
    rw [← (h.balance.map Prod.snd).nodup_iff, map_append, nodup_append] at hnodup
    exact hnodup.2.2 v (List.mem_map.2 ⟨_, hfreed, rfl⟩) v
      (List.mem_map.2 ⟨p, mem_filterMap.2 ⟨item, hitem, hdue⟩, hp⟩) rfl
  | none =>
    -- One call has handed it over, another one has stored it without a destructor.
    have hmem := h.balance.subset (mem_append_left _ hfreed)
    obtain ⟨i, hi, -, howned⟩ := mem_accepted.1 hmem
    obtain ⟨call, hcall, hfrom⟩ := mem_filterMap.1
      (h.origin item hitem (by rw [hvalue]; exact some_ne_none v))
    obtain ⟨j, hj, rfl⟩ := getElem_of_mem hcall
    have hij := huse.index_eq hi hj howned (by rw [hfrom, bind_some, hvalue])
    subst hij
    rw [owned_eq_due hfrom, hdue] at howned
    cases howned

theorem filter_eq_singleton {l : List (Fn × Nat)} (h : (l.map Prod.snd).Nodup) (hp : p ∈ l) :
    l.filter (fun q => q.2 = p.2) = [p] := by
  have hcongr : ∀ q ∈ l, decide (q.2 = p.2) = (q == p) := by
    intro q hq
    apply Bool.eq_iff_iff.2
    rw [decide_eq_true_eq, beq_iff_eq]
    exact ⟨inj_on_of_nodup_map h hq hp, congrArg Prod.snd⟩
  rw [filter_congr hcongr, filter_beq, count_eq_one_of_mem h.of_map hp]
  rfl

/-- Each value has been to its own destructor once, and no lookup returned a freed one. -/
structure DestroyedOnce (calls : List Call) : Prop where
  once : ∀ key v fn, .csilkSetEx key (some v) fn ∈ calls →
    ((csilkCtxCleanup (run .empty calls)).freed.filter fun q => q.2 = v) = [(fn, v)]
  live : ∀ n, LiveUnfreed (run .empty (calls.take n))
  cleanup : ∀ n, LiveUnfreed (releaseItems (run .empty calls) n)

theorem destroyedOnce_iff (calls : List Call) (huse : SingleUse calls) :
    DestroyedOnce calls ↔ ∀ i (hi : i < calls.length), HasRoom (calls.take i) calls[i] := by
  obtain ⟨hbalanced, -⟩ := run_balanced huse
  have hfreed := csilkCtxCleanup_freed hbalanced
  constructor
  · intro h i hi
    by_contra hroom
    cases hcall : calls[i] with
    | csilkSetEx key value fn =>
      cases value with
      | none => exact hroom (hcall ▸ trivial)
      | some v =>
        have honce := h.once key v fn (hcall ▸ getElem_mem hi)
        have hmem : (fn, v) ∈ (csilkCtxCleanup (run .empty calls)).freed :=
          mem_of_mem_filter (honce ▸ mem_singleton.2 rfl)
        obtain ⟨j, hj, hroom', howned⟩ := mem_accepted.1 (hfreed.subset hmem)
        have hji := huse.index_eq hj hi howned (by rw [hcall]; rfl)
        subst hji
        exact hroom hroom'
    | csilkSet key value | csilkSetString key copy | csilkGet key => exact hroom (hcall ▸ trivial)
  · intro hroom
    constructor
    · intro key v fn hcall
      obtain ⟨i, hi, hcall⟩ := getElem_of_mem hcall
      apply filter_eq_singleton (p := (fn, v)) ((hfreed.map Prod.snd).nodup_iff.2 huse.nodup)
      rw [hfreed.mem_iff]
      exact mem_accepted.2 ⟨i, hi, hroom i hi, by rw [hcall]; rfl⟩
    · intro n
      have huse' : SingleUse (calls.take n) := huse.sublist (take_sublist n calls)
      exact (run_balanced huse').1.liveUnfreed huse'
    · intro n
      exact (hbalanced.releaseItems n).liveUnfreed huse

-- A value replaced by another, and one that waits for the cleanup.
theorem destroyedOnce_three :
    DestroyedOnce [.csilkSetEx [107] (some 1) 7, .csilkSetEx [107] (some 2) 7, .csilkGet [107],
      .csilkSetString [108] (some 3), .csilkSetEx [108] (some 4) 8] :=
  (destroyedOnce_iff _ (by decide)).2 (by decide)

def sixtyFiveKeys : List Call :=
  (List.range 65).map fun i => .csilkSetEx [UInt8.ofNat (i + 1)] (some i) 7

-- The destructor of the last value never runs.
theorem csilkSetEx_leaks : SingleUse sixtyFiveKeys ∧ .csilkSetEx [65] (some 64) 7 ∈ sixtyFiveKeys ∧
      ((csilkCtxCleanup (run .empty sixtyFiveKeys)).freed.filter fun q => q.2 = 64) = [] := by
  decide +kernel

end Csilk.Context.Storage
