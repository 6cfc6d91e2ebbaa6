import CabOS.Fs.Ext2.FNode

/-!
# Where the blocks of a file are

The number of a block of a file can be read off its path, so different blocks have different paths.
The last index of a path of depth four is a remainder by the square of the number of entries of a
block, and is outside the block for most blocks of that depth.
-/

namespace CabOS.Ext2

open Nat

/-- The number of the block at a path, if a block has `b` entries. -/
def TreePath.number (b : ℕ) (p : TreePath) : ℕ :=
  match p.depth with
  | 1 => p.indices 0
  | 2 => 12 + p.indices 1
  | 3 => 12 + b + (b * p.indices 1 + p.indices 2)
  | _ => 12 + b + b * b + (b * b * p.indices 1 + p.indices 3)

/-- The path of a block has its number. -/
lemma number_treePath (b n : ℕ) : (treePath (b * 4) n).number b = n := by
  have hb : b * 4 / 4 = b := Nat.mul_div_cancel b (by decide)
  simp only [treePath, hb]
  split_ifs with hdirect hsingle hdouble
  · rfl
  · exact add_sub_of_le (Nat.not_lt.mp hdirect)
  · change 12 + b + (b * ((n - 12 - b) / b) + (n - 12 - b) % b) = n
    rw [div_add_mod]
    omega
  · change 12 + b + b * b +
      (b * b * ((n - 12 - b - b * b) / (b * b)) + (n - 12 - b - b * b) % (b * b)) = n
    rw [div_add_mod]
    omega

/-- A path has at most four indices, the first one is in the inode, and no other block of a file has
the same path.  The other indices are in blocks with `b` entries exactly if the last index of a path
of depth four is. -/
theorem treePath_fits (b : ℕ) (hb : 1 ≤ b) (n : ℕ) (hn : n < 12 + b + b ^ 2 + b ^ 3) (p : TreePath)
    (hp : treePath (b * 4) n = p) :
    (1 ≤ p.depth ∧ p.depth ≤ 4 ∧ p.indices 0 ≤ 14 ∧ ∀ n', treePath (b * 4) n' = p → n' = n) ∧
      ((∀ i, 1 ≤ i → i < p.depth → p.indices i < b) ↔
        n < 12 + b + b ^ 2 ∨ (n - (12 + b + b ^ 2)) % b ^ 2 < b) := by
  have hinjective : ∀ n', treePath (b * 4) n' = p → n' = n := fun n' heq => by
    rw [← number_treePath b n', heq, ← hp, number_treePath]
  have hdiv : b * 4 / 4 = b := Nat.mul_div_cancel b (by decide)
  have hcube : b ^ 3 = b * b * b := by ring
  have hmod : ∀ x, x % b < b := fun x => mod_lt x hb
  simp only [treePath, hdiv] at hp
  rw [sq, ← Nat.sub_sub, ← Nat.sub_sub]
  rw [sq, hcube] at hn
  split_ifs at hp with hdirect hsingle hdouble
  · subst hp
    refine ⟨⟨le_rfl, by simp, ?_, hinjective⟩, fun _ => .inl (by omega),
      fun _ i hi hlt => absurd hlt hi.not_gt⟩
    simp only [fourIndices]
    omega
  · subst hp
    refine ⟨⟨by simp, by simp, by simp [fourIndices], hinjective⟩, fun _ => .inl (by omega),
      fun _ i hi hlt => ?_⟩
    obtain rfl : i = 1 := by simp only at hlt; omega
    exact hsingle
  · subst hp
    refine ⟨⟨by simp, by simp, by simp [fourIndices], hinjective⟩, fun _ => .inl (by omega),
      fun _ i hi hlt => ?_⟩
    obtain rfl | rfl : i = 1 ∨ i = 2 := by simp only at hlt; omega
    · exact Nat.div_lt_of_lt_mul hdouble
    · exact hmod _
  · subst hp
    have hlow : n - 12 - b - b * b < b * b * b := by omega
    refine ⟨⟨by simp, by simp, by simp [fourIndices], hinjective⟩,
      fun h => .inr (h 3 (by decide) (show 3 < 4 by decide)), fun hlast i hi hlt => ?_⟩
    obtain rfl | rfl | rfl : i = 1 ∨ i = 2 ∨ i = 3 := by simp only at hlt; omega
    · exact Nat.div_lt_of_lt_mul hlow
    · exact hmod _
    · exact hlast.resolve_left (by omega)

/-- A block of 1024 bytes has 256 entries. -/
theorem treePath_fits_double : (treePath 1024 300).indices 2 < 256 :=
  (treePath_fits 256 (by decide) 300 (by decide) _ rfl).2.mpr (by decide) 2 (by decide) (by decide)

/-- A path of depth four with a last index outside the block. -/
theorem treePath_outside : 66060 < 12 + 256 + 256 ^ 2 + 256 ^ 3 ∧ (treePath 1024 66060).depth = 4 ∧
    (treePath 1024 66060).indices 3 = 256 := by
  decide

end CabOS.Ext2
