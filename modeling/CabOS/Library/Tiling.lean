import Mathlib

/-!
# Tilings of a set of numbers

`IsTiling S l` says that `S` is divided into the intervals of the list `l`, given by their first
number and their length. The order of the list does not matter, and a tile can be cut in two.
-/

namespace CabOS

/-- The numbers of an interval. -/
def interval (r : ℕ × ℕ) : Set ℕ := Set.Ico r.1 (r.1 + r.2)

/-- `S` is divided into intervals that are not empty. -/
structure IsTiling (S : Set ℕ) (l : List (ℕ × ℕ)) : Prop where
  pos : ∀ r ∈ l, 0 < r.2
  disjoint : l.Pairwise fun r r' => Disjoint (interval r) (interval r')
  mem_iff : ∀ x, x ∈ S ↔ ∃ r ∈ l, x ∈ interval r

namespace IsTiling

variable {S : Set ℕ} {l l' : List (ℕ × ℕ)} {b n k : ℕ}

/-- The order of the tiles does not matter. -/
lemma perm (h : IsTiling S l) (hl : l.Perm l') : IsTiling S l' where
  pos r hr := h.pos r (hl.mem_iff.mpr hr)
  disjoint := (hl.pairwise_iff fun hdisjoint => Disjoint.symm hdisjoint).mp h.disjoint
  mem_iff x := by
    rw [h.mem_iff]
    simp only [hl.mem_iff]

lemma subset (h : IsTiling S l) {r : ℕ × ℕ} (hr : r ∈ l) : interval r ⊆ S :=
  fun x hx => (h.mem_iff x).mpr ⟨r, hr, hx⟩

/-- A tile can be cut in two. -/
lemma cut (h : IsTiling S ((b, n) :: l)) (hk : 0 < k) (hkn : k < n) :
    IsTiling S ((b, k) :: (b + k, n - k) :: l) := by
  have hsplit : ∀ x, x ∈ interval (b, n) ↔ x ∈ interval (b, k) ∨ x ∈ interval (b + k, n - k) := by
    intro x
    simp only [interval, Set.mem_Ico]
    omega
  obtain ⟨hhead, htail⟩ := List.pairwise_cons.mp h.disjoint
  refine ⟨fun r hr => ?_, ?_, fun x => ?_⟩
  · rcases List.mem_cons.mp hr with rfl | hr
    · exact hk
    · rcases List.mem_cons.mp hr with rfl | hr
      · exact Nat.sub_pos_of_lt hkn
      · exact h.pos r (List.mem_cons_of_mem _ hr)
  · refine List.pairwise_cons.mpr ⟨fun r hr => ?_, List.pairwise_cons.mpr ⟨fun r hr => ?_, htail⟩⟩
    · rcases List.mem_cons.mp hr with rfl | hr
      · refine Set.disjoint_left.mpr fun x hx hx' => ?_
        simp only [interval, Set.mem_Ico] at hx hx'
        omega
      · exact Set.disjoint_left.mpr fun x hx =>
          Set.disjoint_left.mp (hhead r hr) ((hsplit x).mpr (.inl hx))
    · exact Set.disjoint_left.mpr fun x hx =>
        Set.disjoint_left.mp (hhead r hr) ((hsplit x).mpr (.inr hx))
  · rw [h.mem_iff]
    simp only [List.exists_mem_cons_iff, hsplit, or_assoc]

end IsTiling

end CabOS
