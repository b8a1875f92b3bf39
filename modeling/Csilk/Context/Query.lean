import Csilk.Context.Api
import Csilk.Headers.Refine
import Csilk.Http1.Pipeline

namespace Csilk.Context
open Csilk.Headers Csilk.Http1 List

def kvHolds (key : Bytes) (entry : Bytes × Bytes) : Bool :=
  headerHash entry.1 = headerHash key && entry.1.length = key.length &&
    (entry.1 = key || strncasecmp entry.1 key key.length)

def mapKvGet (m : KvMap) (key : Bytes) : Option Bytes :=
  ((m.buckets (bucketOf (headerHash key))).find? (kvHolds key)).map fun entry => cString entry.2

def addPairs (m : KvMap) (pairs : List (Bytes × Bytes)) : KvMap :=
  pairs.foldl (fun m p => mapKvAdd m p.1 p.2) m

def csilkParseQuery (m : KvMap) (queryString : Bytes) : KvMap :=
  let qs := cString queryString
  if qs = [] then m else addPairs m (parseKeyValuePairs qs)

def isspace (b : UInt8) : Bool := (9 ≤ b && b ≤ 13) || b = 32

def formContentType : Bytes := ascii "application/x-www-form-urlencoded"

def isFormContentType (ct : Bytes) : Bool :=
  ct.take 33 = formContentType && match ct.drop 33 with
    | [] => true
    | sep :: _ => sep = 59 || isspace sep

def csilkParseFormUrlencoded (m : KvMap) (contentType body : Option Bytes) : KvMap :=
  match body, contentType with
  | some body, some ct =>
    if body.length = 0 then m
    else if isFormContentType (cString ct) then addPairs m (parseKeyValuePairs (cString body))
    else m
  | _, _ => m

def kvEntries (pairs : List (Bytes × Bytes)) : List (Bytes × Bytes) :=
  (pairs.map fun p => (csilkSanitizeHeaderStr p.1, csilkSanitizeHeaderStr p.2)).reverse.filter
    fun e => e.1 ≠ []

theorem mapKvAdd_buckets (m : KvMap) (key value : Bytes) (b : Nat) :
    (mapKvAdd m key value).buckets b =
      (kvEntries [(key, value)]).filter (fun e => bucketOf (headerHash e.1) = b) ++
        m.buckets b := by
  rw [mapKvAdd]
  by_cases hkey : csilkSanitizeHeaderStr key = []
  · simp [kvEntries, hkey]
  · have hlen : (csilkSanitizeHeaderStr key).length ≠ 0 := fun h =>
      hkey (eq_nil_of_length_eq_zero h)
    simp only [if_neg hlen]
    by_cases hb : bucketOf (headerHash (csilkSanitizeHeaderStr key)) = b
    · subst hb
      simp [kvEntries, hkey]
    · rw [Function.update_of_ne (Ne.symm hb)]
      simp [kvEntries, hb]

theorem addPairs_buckets (pairs : List (Bytes × Bytes)) (m : KvMap) (b : Nat) :
    (addPairs m pairs).buckets b =
      (kvEntries pairs).filter (fun e => bucketOf (headerHash e.1) = b) ++ m.buckets b := by
  induction pairs generalizing m with
  | nil => rfl
  | cons p pairs ih =>
    have hcons : kvEntries (p :: pairs) = kvEntries pairs ++ kvEntries [p] := by
      unfold kvEntries
      rw [map_cons, reverse_cons, filter_append]
      rfl
    rw [addPairs, foldl_cons, ← addPairs, ih, mapKvAdd_buckets, hcons, filter_append,
      append_assoc]

theorem kvHolds_iff (hk : 0 ∉ k) : kvHolds k e = true ↔ foldCase e.1 = foldCase k := by
  simp only [kvHolds, Bool.and_eq_true, Bool.or_eq_true, decide_eq_true_eq]
  constructor
  · rintro ⟨⟨-, hlen⟩, heq | hcmp⟩
    · rw [heq]
    · exact (strncasecmp_iff hlen hk).1 hcmp
  · intro hf
    have hlen : e.1.length = k.length := by
      rw [← foldCase_length, hf, foldCase_length]
    exact ⟨⟨headerHash_congr hf, hlen⟩, .inr ((strncasecmp_iff hlen hk).2 hf)⟩

theorem mapKvGet_addPairs (pairs : List (Bytes × Bytes)) (hk : 0 ∉ k) :
    mapKvGet (addPairs .empty pairs) k =
      ((kvEntries pairs).find? fun e => foldCase e.1 = foldCase k).map fun e => cString e.2 := by
  have hholds : kvHolds k = fun e : Bytes × Bytes => decide (foldCase e.1 = foldCase k) := by
    funext e
    rw [Bool.eq_iff_iff, kvHolds_iff hk, decide_eq_true_eq]
  rw [mapKvGet, addPairs_buckets, KvMap.empty, append_nil, find?_filter, hholds]
  congr 2
  funext e
  rw [Bool.eq_iff_iff]
  simp only [decide_eq_true_eq]
  constructor
  · exact And.right
  · intro hf
    exact ⟨congrArg bucketOf (headerHash_congr hf), hf⟩

end Csilk.Context
