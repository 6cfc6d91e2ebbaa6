import Mathlib

/-!
# Tables of steps

A table of markers `(address, value)` in the order of their addresses is a step function: at an
address it has the value of the last marker at or below it, and `null` below all markers.
-/

namespace CabOS

open List

variable {T : Type} {ms : List (ℕ × T)} (v : T)

/-- The value at `a` of the step function with the markers, if it is `v` before them. -/
def stepValue (v : T) (ms : List (ℕ × T)) (a : ℕ) : T :=
  ms.foldl (fun v m => if m.1 ≤ a then m.2 else v) v

@[simp] lemma stepValue_cons (m : ℕ × T) (ms : List (ℕ × T)) (a : ℕ) :
    stepValue v (m :: ms) a = stepValue (if m.1 ≤ a then m.2 else v) ms a := rfl

lemma stepValue_append (ms ms' : List (ℕ × T)) (a : ℕ) :
    stepValue v (ms ++ ms') a = stepValue (stepValue v ms a) ms' a :=
  foldl_append

/-- Markers above the address do not count. -/
lemma stepValue_of_above {a : ℕ} (h : ∀ m ∈ ms, a < m.1) (v : T) : stepValue v ms a = v := by
  induction ms with
  | nil => rfl
  | cons m ms ih =>
    have hm := h m mem_cons_self
    rw [stepValue_cons, if_neg (by omega)]
    exact ih fun x hx => h x (mem_cons_of_mem _ hx)

/-- How many markers are at or below the address. -/
def rank (ms : List (ℕ × T)) (a : ℕ) : ℕ :=
  (ms.takeWhile fun m => m.1 ≤ a).length

lemma rank_le_length (ms : List (ℕ × T)) (a : ℕ) : rank ms a ≤ ms.length :=
  (takeWhile_sublist _).length_le

/-- In a strictly increasing table, the markers at or below the address are the first `rank ms a`
ones. -/
lemma getElem?_le_iff (h : ms.Pairwise fun x y => x.1 < y.1) {a k : ℕ} {m : ℕ × T}
    (hk : ms[k]? = some m) : m.1 ≤ a ↔ k < rank ms a := by
  induction ms generalizing k with
  | nil => simp at hk
  | cons x xs ih =>
    obtain ⟨hx, hxs⟩ := pairwise_cons.mp h
    rw [rank, takeWhile_cons]
    by_cases hxa : x.1 ≤ a
    · simp only [hxa, decide_true, if_true, length_cons]
      cases k with
      | zero =>
        cases hk
        simpa using hxa
      | succ k =>
        rw [Nat.succ_lt_succ_iff]
        exact ih hxs (by simpa using hk)
    · simp only [hxa, decide_false, Bool.false_eq_true, if_false, length_nil,
        Nat.not_lt_zero, iff_false]
      cases k with
      | zero =>
        cases hk
        exact hxa
      | succ k =>
        have hm := hx m (mem_of_getElem? (by simpa using hk))
        omega

/-- The value is the one of the last marker at or below the address. -/
lemma stepValue_eq_rank (h : ms.Pairwise fun x y => x.1 < y.1) (v : T) (a : ℕ) :
    (rank ms a = 0 ∧ stepValue v ms a = v) ∨
      ∃ m, ms[rank ms a - 1]? = some m ∧ 0 < rank ms a ∧ stepValue v ms a = m.2 := by
  induction ms generalizing v with
  | nil => exact .inl ⟨rfl, rfl⟩
  | cons x xs ih =>
    obtain ⟨hx, hxs⟩ := pairwise_cons.mp h
    by_cases hxa : x.1 ≤ a
    · have hrank : rank (x :: xs) a = rank xs a + 1 := by
        simp [rank, hxa]
      rw [hrank, stepValue_cons, if_pos hxa]
      rcases ih hxs x.2 with ⟨h0, hv⟩ | ⟨m, hm, hpos, hv⟩
      · exact .inr ⟨x, by simp [h0], by omega, hv⟩
      · refine .inr ⟨m, ?_, by omega, hv⟩
        obtain ⟨n, hn⟩ := Nat.exists_eq_succ_of_ne_zero (Nat.ne_of_gt hpos)
        rw [hn] at hm ⊢
        simpa using hm
    · refine .inl ⟨by simp [rank, hxa], stepValue_of_above (fun m hm => ?_) v⟩
      rcases mem_cons.mp hm with rfl | hm
      · omega
      · have := hx m hm
        omega

end CabOS
