import Csilk.Json.Views
import Mathlib.Algebra.Group.Int.Defs

namespace Csilk.Json.Ints
open Option

inductive Handle
  | mutable (val : Value)
  | immutable (val : Value)

structure Yyjson (τ : Type) where
  write : Value → τ
  read : τ → Option Value
  read_write : read (write v) = some v

def yyjsonMutGetSint (n : Int) : Int := n.bmod (2 ^ 64)

def yyjsonGetInt (n : Int) : Int := n.bmod (2 ^ 32)

def intOf (toInt64 : UInt64 → Int) (get : Int → Int) : Value → Int
  | .int n => get n
  | .real bits => toInt64 bits
  | _ => 0

def csilkJsonIntValue (toInt64 : UInt64 → Int) : Handle → Int
  | .mutable v => intOf toInt64 yyjsonMutGetSint v
  | .immutable v => intOf toInt64 yyjsonGetInt v

def csilkJsonGetInt (toInt64 : UInt64 → Int) (key : Bytes) : Handle → Int
  | .mutable v => (v.get key).elim 0 (intOf toInt64 yyjsonMutGetSint)
  | .immutable v => (v.get key).elim 0 (intOf toInt64 yyjsonGetInt)

def csilkJsonGet (key : Bytes) : Handle → Option Handle
  | .mutable v => (v.get key).map .mutable
  | .immutable v => (v.get key).map .immutable

/-- `yyjson_mut_obj_add` appends, whether the key is there or not. -/
def csilkJsonAddInt (key : Bytes) (value : Int) : Handle → Bool × Handle
  | .mutable (.obj members) => (true, .mutable (.obj (members ++ [(key, .int value)])))
  | obj => (false, obj)

def csilkJsonSerialize (lib : Yyjson τ) : Handle → τ
  | .mutable v | .immutable v => lib.write v

def csilkJsonParse (lib : Yyjson τ) (text : τ) : Option Handle := (lib.read text).map .immutable

def Reads (toInt64 : UInt64 → Int) (key : Bytes) (v : Int) (obj : Handle) : Prop :=
  csilkJsonGetInt toInt64 key obj = v ∧ (csilkJsonGet key obj).map (csilkJsonIntValue toInt64) = some v

theorem get_append (hnew : ∀ m ∈ members, m.1 ≠ key) (v : Value) :
    (Value.obj (members ++ [(key, v)])).get key = some v := by
  have hnone : (members.find? fun m => m.1 = key) = none := by
    apply List.find?_eq_none.2
    intro m hm heq
    exact hnew m hm (of_decide_eq_true heq)
  rw [Value.get, List.find?_append, hnone]
  simp

theorem reads_mutable (h : Value.get key val = some (.int n)) :
    Reads toInt64 key v (.mutable val) ↔ yyjsonMutGetSint n = v := by
  rw [Reads, csilkJsonGetInt, csilkJsonGet, h, map_some, map_some, some.injEq]
  exact and_self_iff

theorem reads_immutable (h : Value.get key val = some (.int n)) :
    Reads toInt64 key v (.immutable val) ↔ yyjsonGetInt n = v := by
  rw [Reads, csilkJsonGetInt, csilkJsonGet, h, map_some, map_some, some.injEq]
  exact and_self_iff

/-- The integer is read back from the tree it was added to, and from the parsed text just if it
fits into 32 bits. -/
theorem csilkJsonAddInt_reads_iff (lib : Yyjson τ) (toInt64 : UInt64 → Int)
    (members : List (Bytes × Value)) (key : Bytes) (v : Int) (hlow : -2 ^ 63 ≤ v) (hhigh : v < 2 ^ 63) (hnew : ∀ m ∈ members, m.1 ≠ key) :
    ∃ obj parsed, csilkJsonAddInt key v (.mutable (.obj members)) = (true, obj) ∧
      csilkJsonParse lib (csilkJsonSerialize lib obj) = some parsed ∧ Reads toInt64 key v obj ∧
      (Reads toInt64 key v parsed ↔ -2 ^ 31 ≤ v ∧ v < 2 ^ 31) := by
  have hget := get_append hnew (.int v)
  refine ⟨_, .immutable (.obj (members ++ [(key, .int v)])), rfl, ?_, ?_, ?_⟩
  · rw [csilkJsonParse, csilkJsonSerialize, lib.read_write, map_some]
  · rw [reads_mutable hget, yyjsonMutGetSint, Int.bmod_def]
    omega
  · rw [reads_immutable hget, yyjsonGetInt, Int.bmod_def]
    omega

def trees : Yyjson Value := ⟨id, some, rfl⟩

theorem csilkJsonAddInt_reads_minus : ∃ obj parsed,
    csilkJsonAddInt (ascii "n") (-7) (.mutable (.obj [(ascii "m", .null)])) = (true, obj) ∧
      csilkJsonParse trees (csilkJsonSerialize trees obj) = some parsed ∧
      Reads (fun _ => 0) (ascii "n") (-7) obj ∧ Reads (fun _ => 0) (ascii "n") (-7) parsed := by
  obtain ⟨obj, parsed, hadd, hparse, hobj, hiff⟩ := csilkJsonAddInt_reads_iff trees
    (fun _ => 0) [(ascii "m", .null)] (ascii "n") (-7) (by decide) (by decide) (by simp [ascii])
  exact ⟨obj, parsed, hadd, hparse, hobj, hiff.2 (by decide)⟩

/-- The size of a file of 4 GB is read as zero. -/
theorem csilkJsonAddInt_truncated : ∃ obj parsed,
    csilkJsonAddInt (ascii "n") (2 ^ 32) (.mutable (.obj [])) = (true, obj) ∧
      csilkJsonParse trees (csilkJsonSerialize trees obj) = some parsed ∧
      csilkJsonGetInt (fun _ => 0) (ascii "n") obj = 2 ^ 32 ∧
      csilkJsonGetInt (fun _ => 0) (ascii "n") parsed = 0 ∧
      (csilkJsonGet (ascii "n") parsed).map (csilkJsonIntValue fun _ => 0) = some 0 :=
  ⟨_, _, rfl, rfl, by decide, by decide, by decide⟩

end Csilk.Json.Ints
