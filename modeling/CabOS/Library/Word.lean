import Mathlib

/-!
# Machine words

Unsigned 64-bit arithmetic on natural numbers: sums, differences and products modulo `2 ^ 64`, as a
release build computes them, with the conditions under which they are the exact ones.  Words that
hold flags are bit vectors.
-/

namespace CabOS

/-- One past the largest machine word. -/
def usizeBound : ℕ := 2 ^ 64

/-- The largest word, `usize::MAX`. -/
def usizeMax : ℕ := usizeBound - 1

/-- The sum of two words, without the carry. -/
def wadd (a b : ℕ) : ℕ := (a + b) % usizeBound

/-- The difference of two words, without the borrow. -/
def wsub (a b : ℕ) : ℕ := (a + (usizeBound - b)) % usizeBound

/-- The product of two words, without the carry. -/
def wmul (a b : ℕ) : ℕ := (a * b) % usizeBound

variable {a b : ℕ}

lemma wadd_eq (h : a + b < usizeBound) : wadd a b = a + b := Nat.mod_eq_of_lt h

/-- A difference that is not negative is exact. -/
lemma wsub_eq (ha : a < usizeBound) (h : b ≤ a) : wsub a b = a - b := by
  have hsum : a + (usizeBound - b) = a - b + usizeBound := by omega
  rw [wsub, hsum, Nat.add_mod_right]
  exact Nat.mod_eq_of_lt (by omega)

lemma wmul_eq (h : a * b < usizeBound) : wmul a b = a * b := Nat.mod_eq_of_lt h

/-- The word `w` has all the flags of `f`. -/
def hasFlags {n : ℕ} (w f : BitVec n) : Bool := w &&& f == f

/-- More bits do not take flags away. -/
lemma hasFlags_or {n : ℕ} {w f : BitVec n} (h : hasFlags w f) (v : BitVec n) :
    hasFlags (w ||| v) f := by
  rw [hasFlags, beq_iff_eq] at h ⊢
  refine BitVec.eq_of_getLsbD_eq fun i _ => ?_
  have hi := congrArg (·.getLsbD i) h
  simp only [BitVec.getLsbD_and, BitVec.getLsbD_or] at hi ⊢
  cases hw : w.getLsbD i <;> simp_all

/-- The word, if it has no bits outside the known flags. -/
def fromBits {n : ℕ} (known bits : BitVec n) : Option (BitVec n) :=
  if bits &&& ~~~known = 0 then some bits else none

end CabOS
