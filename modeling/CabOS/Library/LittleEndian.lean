import Mathlib

/-!
# Little-endian numbers in memory

Memory is a function from addresses to bytes.  `readLE mem a n` is the number that the `n` bytes
from `a` on hold, the least significant one first, and `writeLE mem a n v` is the memory in which
they hold `v`. A number that fits is read back, and a write does not change what is read elsewhere.
-/

namespace CabOS

open Nat

/-- Bytes by their address. -/
abbrev Memory := ℕ → UInt8

/-- The number in the `n` bytes from `a` on. -/
def readLE (mem : Memory) (a : ℕ) : ℕ → ℕ
  | 0 => 0
  | n + 1 => (mem a).toNat + 256 * readLE mem (a + 1) n

/-- The memory in which the `n` bytes from `a` on hold the number `v`. -/
def writeLE (mem : Memory) (a n v : ℕ) : Memory :=
  fun x => if a ≤ x ∧ x < a + n then UInt8.ofNat (v / 256 ^ (x - a)) else mem x

variable {mem mem' : Memory} {a b n m v x : ℕ}

lemma writeLE_of_not_mem (hx : x < a ∨ a + n ≤ x) : writeLE mem a n v x = mem x := by
  rw [writeLE, if_neg]
  omega

/-- Equal bytes at two places are the same number. -/
lemma readLE_shift (h : ∀ i < n, mem' (b + i) = mem (a + i)) :
    readLE mem' b n = readLE mem a n := by
  induction n generalizing a b with
  | zero => rfl
  | succ n ih =>
    have htail : readLE mem' (b + 1) n = readLE mem (a + 1) n := by
      refine ih fun i hi => ?_
      rw [add_right_comm b, add_right_comm a]
      exact h (i + 1) (by omega)
    rw [readLE, readLE, htail, ← add_zero b, ← add_zero a, h 0 (succ_pos n)]

lemma readLE_congr (h : ∀ x, a ≤ x → x < a + n → mem' x = mem x) :
    readLE mem' a n = readLE mem a n :=
  readLE_shift fun i hi => h (a + i) (by omega) (by omega)

lemma readLE_writeLE_of_disjoint (h : b + m ≤ a ∨ a + n ≤ b) :
    readLE (writeLE mem a n v) b m = readLE mem b m :=
  readLE_congr fun _ _ _ => writeLE_of_not_mem (by omega)

/-- The bytes above the first one hold the rest of the number. -/
lemma readLE_writeLE_tail :
    readLE (writeLE mem a (n + 1) v) (a + 1) n = readLE (writeLE mem (a + 1) n (v / 256))
      (a + 1) n := by
  refine readLE_congr fun x hx hx' => ?_
  have hsub : x - a = x - (a + 1) + 1 := by omega
  rw [writeLE, writeLE, if_pos ⟨by omega, by omega⟩, if_pos ⟨hx, hx'⟩, hsub, pow_succ',
    Nat.div_div_eq_div_mul]

/-- What was written is read, modulo the size of the range. -/
lemma readLE_writeLE_self : readLE (writeLE mem a n v) a n = v % 256 ^ n := by
  induction n generalizing a v with
  | zero => simp [readLE, mod_one]
  | succ n ih =>
    have hfirst : (writeLE mem a (n + 1) v a).toNat = v % 256 := by
      rw [writeLE, if_pos ⟨le_rfl, by omega⟩, Nat.sub_self, pow_zero, Nat.div_one]
      simp
    rw [readLE, hfirst, readLE_writeLE_tail, ih, pow_succ', Nat.mod_mul]

lemma readLE_writeLE_of_lt (hv : v < 256 ^ n) : readLE (writeLE mem a n v) a n = v := by
  rw [readLE_writeLE_self, mod_eq_of_lt hv]

/-- The bytes of a number in memory. -/
lemma readLE_byte {i : ℕ} (hi : i < n) : UInt8.ofNat (readLE mem a n / 256 ^ i) = mem (a + i) := by
  induction n generalizing a i with
  | zero => omega
  | succ n ih =>
    have hbyte : (mem a).toNat < 256 := (mem a).toNat_lt
    cases i with
    | zero =>
      refine UInt8.toNat_inj.mp ?_
      simp only [readLE, pow_zero, Nat.div_one, UInt8.toNat_ofNat', Nat.add_zero]
      omega
    | succ i =>
      have hdiv : readLE mem a (n + 1) / 256 = readLE mem (a + 1) n := by
        rw [readLE]
        omega
      rw [pow_succ', ← Nat.div_div_eq_div_mul, hdiv, ih (by omega)]
      congr 1
      omega

/-- A number in memory fits into its bytes. -/
lemma readLE_lt : readLE mem a n < 256 ^ n := by
  induction n generalizing a with
  | zero => simp [readLE]
  | succ n ih =>
    have hbyte : (mem a).toNat < 256 := (mem a).toNat_lt
    have hrest := @ih (a + 1)
    rw [readLE, pow_succ']
    omega

end CabOS
