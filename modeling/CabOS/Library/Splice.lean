import Mathlib

/-!
# Slices of byte buffers

The list counterparts of the slice operations of a systems language: `List.slice l a n` is the
subslice `l[a .. a + n]`, `List.splice l a src` overwrites `l[a .. a + src.len()]` with `src`
(`copy_from_slice` into a subslice), and `List.chunksExact n l` cuts `l` into consecutive chunks of
exactly `n` elements, dropping an incomplete last one.  All three are described pointwise, by
`getD`, so that proofs about buffers reduce to arithmetic on indices.
-/

namespace CabOS

open List Nat

variable {α : Type*} {start n k : ℕ} {l dst src : List α} {cs : List (List α)}

/-- The subslice of `n` elements starting at `start`. -/
def slice (l : List α) (start n : ℕ) : List α := (l.drop start).take n

/-- Overwrite the elements of `dst` from `start` on by `src`. -/
def splice (dst : List α) (start : ℕ) (src : List α) : List α :=
  dst.take start ++ src ++ dst.drop (start + src.length)

/-- The first `k` chunks of `n` elements each. -/
def chunksOf (n : ℕ) : ℕ → List α → List (List α)
  | 0, _ => []
  | k + 1, l => l.take n :: chunksOf n k (l.drop n)

/-- All the complete chunks of `n` elements of `l`. -/
def chunksExact (n : ℕ) (l : List α) : List (List α) := chunksOf n (l.length / n) l

lemma length_slice (h : start + n ≤ l.length) : (slice l start n).length = n := by
  simp only [slice, length_take, length_drop]
  omega

lemma getElem?_slice {i : ℕ} (hi : i < n) : (slice l start n)[i]? = l[start + i]? := by
  simp [slice, hi]

/-- A subslice of a subslice. -/
lemma slice_slice {a b m : ℕ} (h : b + m ≤ n) : slice (slice l a n) b m = slice l (a + b) m := by
  rw [slice, slice, slice, drop_take, take_take, drop_drop, min_eq_left (by omega)]

/-- A subslice that is continued where it ends. -/
lemma slice_append_slice (l : List α) (start m n : ℕ) :
    slice l start m ++ slice l (start + (slice l start m).length) n = slice l start (m + n) := by
  unfold slice
  rw [take_add, drop_drop, length_take, length_drop]
  rcases le_total m (l.length - start) with hle | hle
  · rw [min_eq_left hle]
  · have hend : ∀ k, l.length ≤ k → l.drop k = [] := fun k hk => drop_eq_nil_of_le hk
    rw [min_eq_right hle, hend (start + (l.length - start)) (by omega), hend (start + m) (by omega)]

/-- Overwriting a range inside the list keeps its length. -/
lemma length_splice (h : start + src.length ≤ dst.length) :
    (splice dst start src).length = dst.length := by
  simp only [splice, length_append, length_take, length_drop]
  omega

/-- An overwritten list holds the source inside the range and its old elements outside. -/
lemma getElem?_splice (h : start + src.length ≤ dst.length) (i : ℕ) :
    (splice dst start src)[i]? =
      if start ≤ i ∧ i < start + src.length then src[i - start]? else dst[i]? := by
  have hlen : (dst.take start).length = start := by
    rw [length_take]
    omega
  rw [splice, append_assoc]
  rcases Nat.lt_or_ge i start with hlt | hge
  · rw [getElem?_append_left (by omega), getElem?_take, if_pos hlt, if_neg (by omega)]
  · rw [getElem?_append_right (by omega), hlen]
    rcases Nat.lt_or_ge i (start + src.length) with hin | hout
    · rw [getElem?_append_left (by omega), if_pos ⟨hge, hin⟩]
    · rw [getElem?_append_right (by omega), if_neg (by omega), getElem?_drop]
      congr 1
      omega

lemma length_chunksOf (n k : ℕ) (l : List α) : (chunksOf n k l).length = k := by
  induction k generalizing l with
  | zero => rfl
  | succ k ih => simp [chunksOf, ih]

/-- Every chunk cut from a long enough list is complete. -/
lemma length_of_mem_chunksOf {c : List α} (hl : k * n ≤ l.length) (hc : c ∈ chunksOf n k l) :
    c.length = n := by
  induction k generalizing l with
  | zero => simp [chunksOf] at hc
  | succ k ih =>
    have hmul : (k + 1) * n = k * n + n := by ring
    rcases mem_cons.mp hc with rfl | hc
    · rw [length_take]
      omega
    · exact ih (by rw [length_drop]; omega) hc

/-- The `j`-th chunk is the subslice starting at `j * n`. -/
lemma getElem?_chunksOf {j : ℕ} (l : List α) (hj : j < k) :
    (chunksOf n k l)[j]? = some (slice l (j * n) n) := by
  induction k generalizing l j with
  | zero => omega
  | succ k ih =>
    cases j with
    | zero => simp [chunksOf, slice]
    | succ j =>
      rw [chunksOf, getElem?_cons_succ, ih _ (by omega)]
      simp [slice, drop_drop, succ_mul, Nat.add_comm]

/-- Gluing chunks of one common length back together: the element at position `i` lies in the chunk
`i / n` at position `i % n`. -/
lemma getElem?_flatten_of_length (hn : 0 < n) (h : ∀ c ∈ cs, c.length = n) (i : ℕ) :
    cs.flatten[i]? = cs[i / n]?.bind fun chunk => chunk[i % n]? := by
  induction cs generalizing i with
  | nil => simp
  | cons c cs ih =>
    have hc : c.length = n := h c (by simp)
    rw [flatten_cons]
    rcases Nat.lt_or_ge i n with hlt | hge
    · rw [getElem?_append_left (by omega), div_eq_of_lt hlt, mod_eq_of_lt hlt]
      simp
    · rw [getElem?_append_right (by omega), hc, ih (fun c hc => h c (by simp [hc])),
        div_eq_sub_div hn hge, mod_eq_sub_mod hge]
      simp

/-- Chunks of one common length glue to a list of the expected length. -/
lemma length_flatten_of_length (h : ∀ c ∈ cs, c.length = n) :
    cs.flatten.length = cs.length * n := by
  induction cs with
  | nil => simp
  | cons c cs ih =>
    rw [flatten_cons, length_append, h c (by simp), ih fun c hc => h c (by simp [hc]), length_cons]
    ring

end CabOS
