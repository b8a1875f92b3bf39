import Csilk.Headers.Intern
import Mathlib.Logic.Function.Basic

namespace Csilk.Headers
open List Function

def csilkHeaderBuckets : Nat := 16

/-- `csilk_header_t`; the lengths are those of the two strings. -/
structure Header where
  key : Bytes
  value : Bytes
  hash : UInt32
  id : HeaderId

/-- Addresses are places in `entries`; a bucket lists those of its chain. -/
structure HeaderMap where
  entries : List Header
  known : HeaderId → Option Nat
  buckets : Nat → List Nat
  count : UInt16
  used : Bool

def HeaderMap.empty : HeaderMap := ⟨[], fun _ => none, fun _ => [], 0, false⟩

def headerHash (data : Bytes) : UInt32 :=
  data.foldl (fun hash b => ((hash <<< 5) + hash) + (foldByte b).toUInt32) 5381

def bucketOf (hash : UInt32) : Nat := (hash &&& (UInt32.ofNat csilkHeaderBuckets - 1)).toNat

def HeaderMap.holds (m : HeaderMap) (key : Bytes) (hash : UInt32) (a : Nat) : Bool :=
  match m.entries[a]? with
  | none => false
  | some h =>
    h.hash = hash && h.key.length = key.length && (h.key = key || strncasecmp h.key key key.length)

def HeaderMap.find (m : HeaderMap) (key : Bytes) : Option Nat :=
  let hash := headerHash key
  (m.buckets (bucketOf hash)).find? (m.holds key hash)

def HeaderMap.slot (m : HeaderMap) (id : HeaderId) : Option Nat :=
  if id ≠ .unknown then m.known id else none

def HeaderMap.locate (m : HeaderMap) (key : Bytes) : Option Header :=
  ((m.slot (csilkHeaderIdFromName key)).or (m.find key)).bind (m.entries[·]?)

def mapGet (m : HeaderMap) (key : Bytes) : Option Bytes :=
  (m.locate key).map fun h => cString h.value

def mapGetView (m : HeaderMap) (key : Bytes) : Option Bytes :=
  if m.used = false ∨ key = [] then none
  else (m.locate key).map fun h => if h.value.length ≠ 0 then h.value else cString h.value

def HeaderMap.setValue (m : HeaderMap) (a : Nat) (value : Bytes) : HeaderMap :=
  { m with entries := m.entries.modify a fun h => { h with value := value } }

def HeaderMap.setKnown (m : HeaderMap) (id : HeaderId) (a : Nat) : HeaderMap :=
  if id ≠ .unknown then { m with known := update m.known id (some a) } else m

def HeaderMap.prependEntry (m : HeaderMap) (key value : Bytes) : HeaderMap × Nat :=
  let id := csilkHeaderIdFromName key
  let hash := headerHash key
  let bucket := bucketOf hash
  let a := m.entries.length
  let m := { m with
    entries := m.entries ++ [Header.mk key value hash id]
    buckets := update m.buckets bucket (a :: m.buckets bucket)
    count := m.count + 1 }
  (m.setKnown id a, a)

def HeaderMap.writeEntry (m : HeaderMap) (key value : Bytes) : HeaderMap × Nat :=
  let id := csilkHeaderIdFromName key
  match m.slot id with
  | some a => (m.setValue a value, a)
  | none =>
    match m.find key with
    | some a => ((m.setValue a value).setKnown id a, a)
    | none => m.prependEntry key value

def csilkSanitizeHeaderStr (str : Bytes) : Bytes := str.filter fun b => b ≠ 13 && b ≠ 10

def mapSetView (m : HeaderMap) (key value : Bytes) : HeaderMap × Option Nat :=
  let (m, a) := { m with used := true }.writeEntry key value
  (m, some a)

def mapSet (m : HeaderMap) (key value : Bytes) : HeaderMap × Option Nat :=
  let m := { m with used := true }
  let cleanKey := csilkSanitizeHeaderStr key
  if cleanKey.length = 0 then (m, none)
  else
    let (m, a) := m.writeEntry cleanKey (csilkSanitizeHeaderStr value)
    (m, some a)

def mapAdd (m : HeaderMap) (key value : Bytes) : HeaderMap × Option Nat :=
  let m := { m with used := true }
  let cleanKey := csilkSanitizeHeaderStr key
  if cleanKey.length = 0 then (m, none)
  else
    let (m, a) := m.prependEntry cleanKey (csilkSanitizeHeaderStr value)
    (m, some a)

def HeaderMap.stored (m : HeaderMap) : List Nat := (List.range csilkHeaderBuckets).flatMap m.buckets

theorem getElem?_setValue (m : HeaderMap) (a : Nat) (v : Bytes) (i : Nat) :
    (m.setValue a v).entries[i]? =
      (m.entries[i]?).map fun h => if a = i then { h with value := v } else h := by
  rw [HeaderMap.setValue, getElem?_modify]
  split
  · rfl
  · simp

section Prepend
variable (m : HeaderMap) (id : HeaderId) (a : Nat) (key v : Bytes)

theorem setKnown_eq : m.setKnown id a = { m with known := (m.setKnown id a).known } := by
  rw [HeaderMap.setKnown]
  split <;> rfl

theorem setKnown_known {id' : HeaderId} (hid : id' ≠ .unknown) :
    (m.setKnown id a).known id' = if id' = id then some a else m.known id' := by
  unfold HeaderMap.setKnown
  split
  · exact update_apply _ _ _ _
  · rename_i hu
    rw [not_not] at hu
    rw [if_neg (hu ▸ hid)]

theorem prependEntry_entries : (m.prependEntry key v).1.entries =
    m.entries ++ [⟨key, v, headerHash key, csilkHeaderIdFromName key⟩] :=
  congrArg HeaderMap.entries (setKnown_eq ..)

theorem prependEntry_buckets : (m.prependEntry key v).1.buckets =
    update m.buckets (bucketOf (headerHash key))
      (m.entries.length :: m.buckets (bucketOf (headerHash key))) :=
  congrArg HeaderMap.buckets (setKnown_eq ..)

theorem prependEntry_known {id : HeaderId} (hid : id ≠ .unknown) :
    (m.prependEntry key v).1.known id =
      if id = csilkHeaderIdFromName key then some m.entries.length else m.known id :=
  setKnown_known _ _ _ hid

end Prepend

theorem bucketOf_lt (hash : UInt32) : bucketOf hash < csilkHeaderBuckets := by
  unfold bucketOf
  exact lt_of_le_of_lt Nat.and_le_right (by decide)

theorem stored_prependEntry (m : HeaderMap) (key v : Bytes) :
    (m.prependEntry key v).1.stored.Perm (m.entries.length :: m.stored) := by
  have hmem : bucketOf (headerHash key) ∈ List.range csilkHeaderBuckets :=
    mem_range.2 (bucketOf_lt _)
  obtain ⟨l, r, hlr⟩ := append_of_mem hmem
  have hnd : (l ++ bucketOf (headerHash key) :: r).Nodup := hlr ▸ nodup_range
  have hout : ∀ xs : List Nat, bucketOf (headerHash key) ∉ xs →
      xs.flatMap (m.prependEntry key v).1.buckets = xs.flatMap m.buckets := by
    intro xs hxs
    apply congrArg List.flatten
    apply map_congr_left
    intro x hx
    have hne : x ≠ bucketOf (headerHash key) := fun he => hxs (he ▸ hx)
    rw [prependEntry_buckets, update_of_ne hne]
  have hl := hout l (fun he => (nodup_append.1 hnd).2.2 _ he _ mem_cons_self rfl)
  have hr := hout r (nodup_cons.1 (nodup_append.1 hnd).2.1).1
  rw [HeaderMap.stored, HeaderMap.stored, hlr, flatMap_append, flatMap_append,
    flatMap_cons, flatMap_cons, hl, hr, prependEntry_buckets, update_self,
    cons_append]
  exact perm_middle

end Csilk.Headers
