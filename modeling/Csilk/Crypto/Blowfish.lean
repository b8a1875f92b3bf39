import Csilk.Bytes
import Mathlib.Algebra.Group.Nat.Defs
import Mathlib.Logic.Function.Iterate

namespace Csilk.Bcrypt
open List Function

structure State where
  P : Nat → UInt32
  S : Nat → Nat → UInt32

def fo (state : State) (x : UInt32) : UInt32 :=
  let byte (k : UInt32) := (x >>> (8 * k) &&& 0xFF).toNat
  state.S 0 (byte 0) ^^^ state.S 1 (byte 1) ^^^ state.S 2 (byte 2) ^^^ state.S 3 (byte 3)

def blowfishEncipher (state : State) (block : UInt32 × UInt32) : UInt32 × UInt32 :=
  let (l, r) := (range 16).foldl (fun (l, r) i =>
    let l := l ^^^ state.P i
    (r ^^^ fo state l, l)) block
  (l ^^^ state.P 16, r ^^^ state.P 17)

def pwdByte (password : Bytes) (i : Nat) : UInt8 × Nat :=
  if i < password.length then (password.getD i 0, i + 1) else (password.getD 0 0, 1)

def saltByte (salt : Bytes) (i : Nat) : UInt8 × Nat :=
  (salt.getD i 0, if salt.length ≤ i + 1 then 0 else i + 1)

def nextWord (next : Nat → UInt8 × Nat) (i : Nat) : UInt32 × Nat :=
  (range 4).foldl (fun (w, i) _ => (w <<< 8 ||| (next i).1.toUInt32, (next i).2)) (0, i)

/-- The words that step 1 of the key setup mixes into `P`. -/
def keyWords (password : Bytes) : Nat → Nat → List UInt32
  | 0, _ => []
  | n + 1, i =>
    (nextWord (pwdByte password) i).1 :: keyWords password n (nextWord (pwdByte password) i).2

structure Feed where
  block : UInt32 × UInt32
  saltIdx : Nat

def encipherSalt (salt : Bytes) (state : State) (f : Feed) : Feed :=
  let (l, i) := nextWord (saltByte salt) f.saltIdx
  let (r, i) := nextWord (saltByte salt) i
  ⟨blowfishEncipher state (f.block.1 ^^^ l, f.block.2 ^^^ r), i⟩

/-- The three steps of `eksblowfish_key_setup`. In the third the block is not carried on. -/
def expand (password salt : Bytes) (state : State) : State :=
  let state := { state with P := fun i => state.P i ^^^ (keyWords password 18 0).getD i 0 }
  let (state, f) := (range 9).foldl (fun (state, f) k =>
    let f := encipherSalt salt state f
    ({ state with P := update (update state.P (2 * k) f.block.1) (2 * k + 1) f.block.2 }, f))
    (state, ⟨(0, 0), 0⟩)
  let store (i : Nat) (s : State × Nat) (k : Nat) : State × Nat :=
    let g := encipherSalt salt s.1 ⟨f.block, s.2⟩
    let box := update (update (s.1.S i) (2 * k) g.block.1) (2 * k + 1) g.block.2
    ({ s.1 with S := update s.1.S i box }, g.saltIdx)
  ((range 4).foldl (fun s i => (range 128).foldl (store i) s) (state, f.saltIdx)).1

/-- The state on the stack, and how often the constants have been copied into it. -/
structure Run where
  state : State
  loads : Nat

/-- `eksblowfish_key_setup`, where `consts` are `pg` and `sg_init`. -/
def eksblowfishKeySetup (consts : State) (password salt : Bytes) (r : Run) : Run :=
  ⟨expand password salt { r.state with P := consts.P, S := consts.S }, r.loads + 1⟩

def rounds (consts : State) (password salt : Bytes) (cost : Nat) (r : Run) : Run :=
  (eksblowfishKeySetup consts password salt)^[2 ^ cost] r

theorem rounds_eq (consts : State) (password salt : Bytes) (cost : Nat) (r : Run) :
    rounds consts password salt cost r = ⟨expand password salt consts, r.loads + 2 ^ cost⟩ := by
  obtain ⟨n, hn⟩ := Nat.exists_eq_succ_of_ne_zero (Nat.two_pow_pos cost).ne'
  rw [rounds, hn]
  clear hn
  induction n with
  | zero => rfl
  | succ n ih =>
    rw [iterate_succ_apply', ih]
    rfl

def zeroConsts : State := ⟨fun _ => 0, fun _ _ => 0⟩

theorem toNat_append (w : UInt32) (b : UInt8) :
    (w <<< 8 ||| b.toUInt32).toNat = w.toNat % 2 ^ 24 * 256 + b.toNat := by
  have h : w.toNat <<< 8 % 2 ^ 32 = (w.toNat % 2 ^ 24) <<< 8 := by
    omega
  refine (congrArg (· ||| b.toNat) h).trans ?_
  rw [← Nat.shiftLeft_add_eq_or_of_lt b.toNat_lt, Nat.shiftLeft_eq]

def word (a b c d : UInt8) : UInt32 :=
  ((((0 : UInt32) <<< 8 ||| a.toUInt32) <<< 8 ||| b.toUInt32) <<< 8 ||| c.toUInt32) <<< 8 ||| d.toUInt32

theorem toNat_word (a b c d : UInt8) :
    (word a b c d).toNat = ((a.toNat * 256 + b.toNat) * 256 + c.toNat) * 256 + d.toNat := by
  have ha := a.toNat_lt
  have hb := b.toNat_lt
  have hc := c.toNat_lt
  simp only [word, toNat_append]
  omega

theorem word_inj : word a b c d = word a' b' c' d' ↔ a = a' ∧ b = b' ∧ c = c' ∧ d = d' := by
  have hb := b.toNat_lt
  have hc := c.toNat_lt
  have hd := d.toNat_lt
  have hb' := b'.toNat_lt
  have hc' := c'.toNat_lt
  have hd' := d'.toNat_lt
  simp only [← UInt32.toNat_inj, ← UInt8.toNat_inj, toNat_word]
  omega

def cycled (password : Bytes) (i : Nat) : UInt8 := password.getD (i % password.length) 0

/-- An index the key setup may stand at before byte `i` of the repeated password. -/
def At (password : Bytes) (i j : Nat) : Prop :=
  j ≤ password.length ∧ j % password.length = i % password.length

variable {p q : Bytes} (hp : p ≠ [])
include hp

theorem pwdByte_at (h : At p i j) :
    (pwdByte p j).1 = cycled p i ∧ At p (i + 1) (pwdByte p j).2 := by
  have hpos := length_pos_iff.2 hp
  rw [cycled, ← h.2]
  unfold pwdByte
  split
  case isTrue hlt =>
    refine ⟨by rw [Nat.mod_eq_of_lt hlt], hlt, ?_⟩
    rw [Nat.add_mod, h.2, ← Nat.add_mod]
  case isFalse hge =>
    obtain rfl : j = p.length := le_antisymm h.1 (not_lt.1 hge)
    refine ⟨by rw [Nat.mod_self], hpos, ?_⟩
    rw [Nat.add_mod, ← h.2, Nat.mod_self, zero_add, Nat.mod_mod]

theorem nextWord_at (h : At p i j) : (nextWord (pwdByte p) j).1 =
      word (cycled p i) (cycled p (i + 1)) (cycled p (i + 2)) (cycled p (i + 3)) ∧
    At p (i + 4) (nextWord (pwdByte p) j).2 := by
  obtain ⟨h0, h⟩ := pwdByte_at hp h
  obtain ⟨h1, h⟩ := pwdByte_at hp h
  obtain ⟨h2, h⟩ := pwdByte_at hp h
  obtain ⟨h3, h⟩ := pwdByte_at hp h
  rw [← h0, ← h1, ← h2, ← h3]
  exact ⟨rfl, h⟩

theorem keyWords_inj (hq : q ≠ []) (n : Nat) (hi : At p i j) (hi' : At q i k) :
    keyWords p n j = keyWords q n k ↔ ∀ m < 4 * n, cycled p (i + m) = cycled q (i + m) := by
  induction n generalizing i j k with
  | zero => simp [keyWords]
  | succ n ih =>
    obtain ⟨hw, hat⟩ := nextWord_at hp hi
    obtain ⟨hw', hat'⟩ := nextWord_at hq hi'
    rw [keyWords, keyWords, cons.injEq, ih hat hat', hw, hw', word_inj, Nat.mul_succ]
    rw [Nat.forall_lt_succ_left, Nat.forall_lt_succ_left, Nat.forall_lt_succ_left,
      Nat.forall_lt_succ_left]
    simp only [Nat.add_zero, add_assoc, Nat.reduceAdd, add_comm 4, and_assoc]

/-- Passwords with the same key words agree once they are repeated to 72 bytes. -/
theorem keyWords_eq_iff (hq : q ≠ []) :
    keyWords p 18 0 = keyWords q 18 0 ↔ ∀ i < 72, cycled p i = cycled q i := by
  have h := keyWords_inj hp hq 18 (i := 0) ⟨Nat.zero_le _, rfl⟩ ⟨Nat.zero_le _, rfl⟩
  simpa using h

omit hp

theorem keyWords_ab_ba : keyWords (ascii "ab") 18 0 ≠ keyWords (ascii "ba") 18 0 :=
  fun h => absurd ((keyWords_eq_iff (by decide) (by decide)).1 h 0 (by decide)) (by decide)

theorem keyWords_a_aa : keyWords (ascii "a") 18 0 = keyWords (ascii "aa") 18 0 := by
  decide +kernel

end Csilk.Bcrypt
