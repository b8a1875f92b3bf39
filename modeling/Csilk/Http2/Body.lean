import Csilk.Context.Storage

namespace Csilk.Http2
open Context Context.Storage List

def h2BodyOffset : Bytes := ascii "_h2_body_offset"

def pointer (n : Nat) : Option Nat := if n = 0 then none else some n

/-- The store, the bytes copied and whether EOF is flagged. `body_len - offset` does not wrap while
the offset is the callback's own. -/
def bodyReadCallback (body : Option Bytes) (s : Store) (length : Nat) : Store × Bytes × Bool :=
  match body with
  | none => (s, [], true)
  | some body =>
    let offset := (csilkGet s h2BodyOffset).getD 0
    let remaining := body.length - offset
    let toCopy := if remaining < length then remaining else length
    let chunk := (body.drop offset).take toCopy
    let offset := offset + toCopy
    (csilkSet s h2BodyOffset (pointer offset), chunk, body.length ≤ offset)

/-- The calls for one response, up to the one that flags EOF. -/
def send (body : Option Bytes) : Store → List Nat → List (Bytes × Bool)
  | _, [] => []
  | s, n :: ns =>
    let (s, chunk, eof) := bodyReadCallback body s n
    (chunk, eof) :: if eof then [] else send body s ns

def cut : Bytes → List Nat → List (Bytes × Bool)
  | _, [] => []
  | body, n :: ns =>
    (body.take n, body.length ≤ n) :: if body.length ≤ n then [] else cut (body.drop n) ns

theorem cut_flatten (hne : ns ≠ []) (h : body.length ≤ ns.sum) : (cut body ns).flatMap Prod.fst = body := by
  induction ns generalizing body with
  | nil => exact absurd rfl hne
  | cons n ns ih =>
    rw [sum_cons] at h
    rw [cut, flatMap_cons]
    split
    · rename_i hle
      exact (append_nil _).trans (take_of_length_le hle)
    · rename_i hlt
      have hns : ns ≠ [] := by
        rintro rfl
        exact hlt h
      rw [ih hns (by rw [length_drop]; omega), take_append_drop]

/-- The store of the handlers, with the offset in front of it once it was set. -/
def Stored (items : List StorageItem) (offset : Nat) (s : Store) : Prop :=
  offset = 0 ∧ s.items = items ∨ s.items = ⟨h2BodyOffset, pointer offset, none⟩ :: items

section
variable {items : List StorageItem} (hfresh : h2BodyOffset ∉ items.map StorageItem.key)
include hfresh

theorem Stored.get (h : Stored items offset s) : (csilkGet s h2BodyOffset).getD 0 = offset := by
  rcases h with ⟨rfl, h⟩ | h
  · have hnone : items.find? (fun item => item.key = h2BodyOffset) = none := by
      simpa [find?_eq_none] using hfresh
    rw [csilkGet, h, hnone]
    rfl
  · rw [csilkGet, h, pointer]
    split <;> simp [*]

theorem Stored.set (hroom : items.length < csilkMaxStorage) (h : Stored items offset s) (n : Nat) :
    Stored items n (csilkSet s h2BodyOffset (pointer n)) := by
  rcases h with ⟨rfl, h⟩ | h
  · subst h
    rcases csilkSetEx_cases s ⟨h2BodyOffset, pointer n, none⟩ with
      ⟨front, item, back, hitems, hkey, -⟩ | ⟨-, hfull, -⟩ | ⟨-, -, heq⟩
    · exact absurd (mem_map.2 ⟨item, by simp [hitems], hkey⟩) hfresh
    · exact absurd hfull (not_le.2 hroom)
    · exact .inr (congrArg Store.items heq)
  · rw [csilkSet, Storage.csilkSetEx, h]
    exact .inr rfl

theorem Stored.send (hroom : items.length < csilkMaxStorage) (h : Stored items offset s)
    (hle : offset ≤ body.length) : send (some body) s ns = cut (body.drop offset) ns := by
  induction ns generalizing s offset with
  | nil => rfl
  | cons n ns ih =>
    have hlen : (body.drop offset).length = body.length - offset := length_drop
    rw [Http2.send, bodyReadCallback, h.get hfresh, cut, hlen]
    by_cases hlast : body.length - offset ≤ n
    · have htake : (body.drop offset).take (if body.length - offset < n then body.length - offset else n) =
          (body.drop offset).take n := by
        rw [take_of_length_le (by split <;> omega), take_of_length_le (by omega)]
      have hend : body.length ≤ offset + if body.length - offset < n then body.length - offset else n := by
        split <;> omega
      simp [htake, hend, hlast]
    · have hlt : ¬body.length - offset < n := fun h => hlast h.le
      have hend : ¬body.length ≤ offset + n := by omega
      simp only [hlt, hend, hlast, if_false, decide_false, Bool.false_eq_true]
      rw [ih (h.set hfresh hroom _) (not_le.1 hend).le, drop_drop]

end

def fullStore : Store := ⟨(range 64).map fun i => ⟨[UInt8.ofNat (i + 1)], some 1, none⟩, []⟩

end Csilk.Http2
