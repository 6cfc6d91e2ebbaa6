import Mathlib

/-!
# Ring buffers

`N` slots in a ring; `none` is a slot that holds no value.  `Ring.Holds N slots head l` says that
the slots from `head` on, in the order of the ring, hold the values of the list `l`, and that the
other slots are empty.  Writing behind the last value and taking out the first one are then the
corresponding operations on lists.
-/

namespace CabOS.Ring

open Function List Nat

variable {α : Type*} {N head : ℕ} {slots : ℕ → Option α} {l : List α} {x : α}

/-- The slots from `head` on hold the list, and the others are empty. -/
structure Holds (N : ℕ) (slots : ℕ → Option α) (head : ℕ) (l : List α) : Prop where
  head_lt : head < N
  length_le : l.length ≤ N
  slot : ∀ i, i < N → slots ((head + i) % N) = l[i]?

/-- Different offsets are different slots. -/
lemma offset_injective {i j : ℕ} (hi : i < N) (hj : j < N)
    (h : (head + i) % N = (head + j) % N) : i = j :=
  Nat.ModEq.eq_of_lt_of_lt (Nat.ModEq.add_left_cancel' head h) hi hj

/-- A ring without values. -/
lemma Holds.empty (hN : 0 < N) (hslots : ∀ i, slots i = none) : Holds N slots 0 [] := by
  refine ⟨hN, Nat.zero_le N, fun i _ => ?_⟩
  rw [hslots, getElem?_nil]

/-- The slot behind the last value is empty, unless the ring is full. -/
lemma Holds.next (h : Holds N slots head l) (hlen : l.length < N) :
    slots ((head + l.length) % N) = none := by
  rw [h.slot _ hlen, getElem?_eq_none le_rfl]

/-- A value is written behind the last one. -/
lemma Holds.push (h : Holds N slots head l) (hlen : l.length < N) (x : α) :
    Holds N (update slots ((head + l.length) % N) (some x)) head (l ++ [x]) := by
  refine ⟨h.head_lt, ?_, fun i hi => ?_⟩
  · rw [length_append, length_singleton]
    exact hlen
  · rcases eq_or_ne i l.length with rfl | hne
    · rw [update_self, getElem?_concat_length]
    · have hslot : (head + i) % N ≠ (head + l.length) % N :=
        fun heq => hne (offset_injective hi hlen heq)
      rw [update_of_ne hslot, h.slot i hi]
      rcases Nat.lt_or_gt_of_ne hne with hlt | hgt
      · rw [getElem?_append_left hlt]
      · rw [getElem?_eq_none hgt.le, getElem?_eq_none]
        rw [length_append, length_singleton]
        exact hgt

/-- The first value stands at the head. -/
lemma Holds.first (h : Holds N slots head (x :: l)) : slots head = some x := by
  have hslot := h.slot 0 (zero_lt_of_lt h.head_lt)
  rwa [Nat.add_zero, mod_eq_of_lt h.head_lt, getElem?_cons_zero] at hslot

/-- The first value is taken out. -/
lemma Holds.pop (h : Holds N slots head (x :: l)) : Holds N (update slots head none)
    ((head + 1) % N) l := by
  have hN := zero_lt_of_lt h.head_lt
  have hlen : l.length < N := h.length_le
  refine ⟨mod_lt _ hN, hlen.le, fun i hi => ?_⟩
  have hoffset : ((head + 1) % N + i) % N = (head + (i + 1)) % N := by
    rw [mod_add_mod]
    congr 1
    ring
  rw [hoffset]
  rcases Nat.lt_or_ge (i + 1) N with hlt | hge
  · have hne : (head + (i + 1)) % N ≠ head := by
      intro heq
      have hmod : (head + (i + 1)) % N = (head + 0) % N := by
        rw [heq, Nat.add_zero, mod_eq_of_lt h.head_lt]
      exact succ_ne_zero i (offset_injective hlt hN hmod)
    rw [update_of_ne hne, h.slot _ hlt, getElem?_cons_succ]
  · -- the slot that has been emptied is now the last one
    obtain rfl : N = i + 1 := le_antisymm hge hi
    rw [add_mod_right, mod_eq_of_lt h.head_lt, update_self, getElem?_eq_none (le_of_lt_succ hlen)]

end CabOS.Ring
