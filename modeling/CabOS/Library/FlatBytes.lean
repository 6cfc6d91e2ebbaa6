import CabOS.Library.Splice

/-!
# Flat byte arrays

A flat byte array is a function from positions to values.  `flatRead c off n` is the list of the `n`
values from `off` on and `flatWrite c off bytes` is the array in which these positions hold `bytes`.
The lemmas below say what reading and writing do at one position, that a read-modify-write of a
larger range is a write of the smaller one, and that a write of a part of a buffer is described by
the positions it covers.
-/

namespace CabOS

open List

variable {α : Type*} {c : ℕ → α} {off n base start a : ℕ} {bytes : List α}

/-- The `n` values of the array starting at `off`. -/
def flatRead (c : ℕ → α) (off n : ℕ) : List α := (List.range n).map fun i => c (off + i)

/-- The array in which the positions from `off` on hold `bytes`. -/
def flatWrite (c : ℕ → α) (off : ℕ) (bytes : List α) : ℕ → α :=
  fun a => if off ≤ a then bytes[a - off]?.getD (c a) else c a

@[simp] lemma length_flatRead (c : ℕ → α) (off n : ℕ) : (flatRead c off n).length = n := by
  simp [flatRead]

lemma getElem?_flatRead (c : ℕ → α) {i : ℕ} (hi : i < n) :
    (flatRead c off n)[i]? = some (c (off + i)) := by
  simp [flatRead, hi]

/-- A list is what is read from an array as soon as its elements are the array's. -/
lemma eq_flatRead_iff {l : List α} (hl : l.length = n) :
    l = flatRead c off n ↔ ∀ i < n, l[i]? = some (c (off + i)) := by
  constructor
  · rintro rfl i hi
    exact getElem?_flatRead c hi
  · intro h
    apply ext_getElem?
    intro i
    rcases Nat.lt_or_ge i n with hi | hi
    · rw [h i hi, getElem?_flatRead c hi]
    · rw [getElem?_eq_none (by omega), getElem?_eq_none (by simpa using hi)]

/-- A slice of what is read from an array is read from the array. -/
lemma slice_flatRead {m : ℕ} (h : start + m ≤ n) :
    slice (flatRead c base n) start m = flatRead c (base + start) m := by
  rw [eq_flatRead_iff (length_slice (by rw [length_flatRead]; exact h))]
  intro i hi
  rw [getElem?_slice hi, getElem?_flatRead _ (by omega), Nat.add_assoc]

lemma flatWrite_of_getElem? {b : α} (hoff : off ≤ a)
    (hb : bytes[a - off]? = some b) : flatWrite c off bytes a = b := by
  simp [flatWrite, hoff, hb]

/-- Outside the written range the array is unchanged. -/
lemma flatWrite_of_not_mem (h : a < off ∨ off + bytes.length ≤ a) :
    flatWrite c off bytes a = c a := by
  unfold flatWrite
  split_ifs with hoff
  · rw [getElem?_eq_none (by omega)]
    rfl
  · rfl

@[simp] lemma flatWrite_nil (c : ℕ → α) (off : ℕ) : flatWrite c off [] = c := by
  funext a
  exact flatWrite_of_not_mem (by simp only [length_nil]; omega)

/-- The value of a written array, by cases on the position. -/
lemma flatWrite_apply (c : ℕ → α) (off : ℕ) (bytes : List α) (a : ℕ) : flatWrite c off bytes a =
      if off ≤ a ∧ a < off + bytes.length then bytes[a - off]?.getD (c a) else c a := by
  split_ifs with h
  · simp [flatWrite, h.1]
  · exact flatWrite_of_not_mem (by omega)

/-- Writing the part of `buffer` that belongs to the positions `[a, a + n)`, when `buffer` as a
whole belongs to the positions from `off` on. -/
lemma flatWrite_slice_apply {buffer : List α} (hoff : off ≤ a)
    (hn : a + n ≤ off + buffer.length) (x : ℕ) :
    flatWrite c a (slice buffer (a - off) n) x =
      if a ≤ x ∧ x < a + n then buffer[x - off]?.getD (c x) else c x := by
  have hlen : (slice buffer (a - off) n).length = n := length_slice (by omega)
  rw [flatWrite_apply, hlen]
  split_ifs with h
  · rw [getElem?_slice (by omega)]
    congr 2
    omega
  · rfl

/-- Writing back a range in which only a part was overwritten is writing that part. -/
lemma flatWrite_splice_flatRead {src : List α} (h : start + src.length ≤ n) :
    flatWrite c base (splice (flatRead c base n) start src) = flatWrite c (base + start) src := by
  have hlen : start + src.length ≤ (flatRead c base n).length := by simpa using h
  funext a
  rw [flatWrite_apply, flatWrite_apply, length_splice hlen, length_flatRead, getElem?_splice hlen]
  by_cases hin : base ≤ a ∧ a < base + n
  · rw [if_pos hin]
    by_cases hs : start ≤ a - base ∧ a - base < start + src.length
    · rw [if_pos hs, if_pos (by omega)]
      congr 2
      omega
    · rw [if_neg hs, if_neg (by omega), getElem?_flatRead c (by omega)]
      simp only [Option.getD_some]
      congr 1
      omega
  · rw [if_neg hin, if_neg (by omega)]

/-- Two consecutive writes are one write of the concatenation. -/
lemma flatWrite_flatWrite_append (c : ℕ → α) (off : ℕ) (xs ys : List α) :
    flatWrite (flatWrite c off xs) (off + xs.length) ys = flatWrite c off (xs ++ ys) := by
  funext a
  rw [flatWrite_apply, flatWrite_apply, flatWrite_apply, length_append]
  by_cases hx : off ≤ a ∧ a < off + xs.length
  · rw [if_neg (by omega), if_pos hx, if_pos (by omega), getElem?_append_left (by omega)]
  · by_cases hy : off + xs.length ≤ a ∧ a < off + xs.length + ys.length
    · rw [if_pos hy, if_neg hx, if_pos (by omega), getElem?_append_right (by omega)]
      congr 2
      omega
    · rw [if_neg hy, if_neg hx, if_neg (by omega)]

end CabOS
