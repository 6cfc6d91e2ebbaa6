import CabOS.Fs.Ext2.FNode

/-!
# Images of ext2 file systems

What the calls do when nobody else works on the disk.  Taking an entry of a group
(`allocGivenGroup_cases`) counts it off and sets one bit of a bitmap, if the group has a free one.

`allocBlock_noSpace_iff` says when there is no block left.  The groups are counted by a division
that leaves out a last group that is not full, and blocks there are not found if they are not asked
for (`allocBlock_misses_last_group`).
-/

namespace CabOS

open Function Prog List

/-! ## Records in blocks -/

variable {b src : Memory} {offset n k v : ℕ}

@[simp] lemma viewAt_apply : viewAt b offset k = b (offset + k) := rfl

/-- A record that was taken out, changed in one field and put back. -/
lemma putAt_writeLE_viewAt {size : ℕ} (h : k + n ≤ size) :
    putAt b offset (writeLE (viewAt b offset) k n v) size = writeLE b (offset + k) n v := by
  funext x
  by_cases hx : offset ≤ x ∧ x < offset + size
  · rw [putAt, if_pos hx, writeLE, writeLE, viewAt_apply, Nat.add_sub_cancel' hx.1]
    by_cases hin : k ≤ x - offset ∧ x - offset < k + n
    · rw [if_pos hin, if_pos ⟨by omega, by omega⟩]
      congr 3
      omega
    · rw [if_neg hin, if_neg (by omega)]
  · rw [putAt, if_neg hx, writeLE, if_neg (by omega)]

namespace Ext2

/-! ## Running alone -/

/-- A block is replaced. -/
def State.setDisk (m : State) (n : ℕ) (b : Memory) : State := update m (.block n) b

/-- The inode that a node keeps is replaced. -/
def State.setInode (m : State) (h : ℕ) (inode : INode) : State := update m (.handle h) inode

section

variable {m : State} {h h' : ℕ} {i : INode}

@[simp] lemma inode_setInode (m : State) (h : ℕ) (i : INode) :
    (m.setInode h i).inode = update m.inode h i := by
  funext k
  rcases eq_or_ne k h with rfl | hne
  · rw [update_self]
    exact update_self (Cell.handle k) i m
  · have hcell : Cell.handle k ≠ Cell.handle h := fun heq => hne (Cell.handle.inj heq)
    rw [update_of_ne hne]
    exact update_of_ne hcell i m

@[simp] lemma run_loadInode : (loadInode h).run m = .ok (m.inode h) m := rfl

@[simp] lemma run_fail {α : Type} (e : FsError) : (fail e : FsProg α).run m = .error (.err e) m :=
  rfl

lemma run_divide {a c : ℕ} (hc : 0 < c) : (divide a c).run m = .ok (a / c) m := by
  rw [divide, if_neg (by omega)]
  rfl

variable {sb : Superblock}

lemma run_readBlock (hn : n < sb.blocksCount) : (readBlock sb n).run m = .ok (m.disk n) m := by
  rw [readBlock, if_neg (by omega)]
  rfl

lemma run_writeBlock (hn : n < sb.blocksCount) : (writeBlock sb n b).run m = .ok ()
    (m.setDisk n b) := by
  rw [writeBlock, if_neg (by omega)]
  rfl

lemma run_field (hn : offset + n ≤ sb.blockSize) :
    (field sb b offset n).run m = .ok (readLE b offset n) m := by
  rw [field, if_pos hn]
  rfl

end

/-! ## Fields of an inode -/

section

variable (data : INodeData)

/-- A slot for a block is not the size. -/
lemma fileSize_withBlock (i number : ℕ) : (data.withBlock i number).fileSize = data.fileSize :=
  readLE_writeLE_of_disjoint (by omega)

lemma fileSize_withSize (size : ℕ) : (data.withSize size).fileSize = size % 2 ^ 32 :=
  readLE_writeLE_self

lemma fileSize_lt : data.fileSize < 2 ^ 32 := readLE_lt

end

/-! ## Bitmaps -/

/-- The sizes that a block can have. -/
lemma Superblock.blockSize_cases (sb : Superblock) :
    sb.blockSize = 1024 ∨ sb.blockSize = 2048 ∨ sb.blockSize = 4096 := by
  have hle := sb.logBlockSize_le
  unfold Superblock.blockSize
  interval_cases sb.logBlockSize <;> simp

/-! ## Groups -/

section

variable {sb : Superblock} {m : State} {r : Resource} {g i : ℕ} {p : ℕ}

/-- The descriptor of a group on the disk. -/
def bgdOf (sb : Superblock) (m : State) (g : ℕ) : BlockGroupDescriptor :=
  viewAt (m.disk (bgdBlock sb g)) (bgdOffset sb g)

/-- The state with another number of free entries in a group. -/
def setCount (sb : Superblock) (r : Resource) (m : State) (g count : ℕ) : State :=
  m.setDisk (bgdBlock sb g)
    (writeLE (m.disk (bgdBlock sb g)) (bgdOffset sb g + r.countOffset) 2 count)

/-- A descriptor is inside its block. -/
lemma bgdOffset_le (sb : Superblock) (g : ℕ) : bgdOffset sb g + 32 ≤ sb.blockSize := by
  have hpos : 0 < sb.blockSize / 32 := by
    rcases sb.blockSize_cases with h | h | h <;> rw [h] <;> decide
  have hlt := Nat.mod_lt g hpos
  unfold bgdOffset
  omega

section

variable (hg : bgdBlock sb g < sb.blocksCount)
include hg

lemma run_getBlockGroupDescriptor : (getBlockGroupDescriptor sb g).run m =
      .ok ⟨bgdOf sb m g, bgdOffset sb g, bgdBlock sb g, m.disk (bgdBlock sb g)⟩ m := by
  have hfits : bgdOffset sb g + BlockGroupDescriptor.size ≤ sb.blockSize :=
    (Nat.add_le_add_left (by decide) _).trans (bgdOffset_le sb g)
  rw [getBlockGroupDescriptor, run_bind_ok (run_readBlock hg), if_pos hfits]
  rfl

lemma run_writeCount (count : ℕ) :
    (writeCount sb r ⟨bgdOf sb m g, bgdOffset sb g, bgdBlock sb g, m.disk (bgdBlock sb g)⟩
      count).run m =
      .ok () (setCount sb r m g count) := by
  have hfield : r.countOffset + 2 ≤ BlockGroupDescriptor.size := by cases r <;> decide
  rw [writeCount, run_writeBlock hg, bgdOf, putAt_writeLE_viewAt hfield]
  rfl

/-- A group that counts no free entry is left alone. -/
lemma run_allocGivenGroup_of_eq_zero (hcount : r.count (bgdOf sb m g) = 0) :
    (allocGivenGroup sb r g).run m = .ok none m := by
  rw [allocGivenGroup, run_bind, exec_bind, run_withLock, run_bind, exec_bind,
    run_getBlockGroupDescriptor hg]
  simp [hcount]

/-- In a group that counts free entries one is counted off before the bitmap is read. -/
lemma run_allocGivenGroup_of_pos (hcount : 0 < r.count (bgdOf sb m g)) :
    (allocGivenGroup sb r g).run m = (do
        let buffer ← readBlock sb (r.bitmap (bgdOf sb m g))
        (firstZeroInBitmap sb buffer).elim (fail (.corrupted r.corrupted)) fun i => do
          writeBlock sb (r.bitmap (bgdOf sb m g)) (setBit buffer i)
          return some (r.first sb + i + g * r.perGroup sb) : FsProg (Option ℕ)).run
        (setCount sb r m g (r.count (bgdOf sb m g) - 1)) := by
  rw [allocGivenGroup, run_bind, exec_bind, run_withLock, run_bind, exec_bind,
    run_getBlockGroupDescriptor hg]
  simp only [hcount.ne', if_false]
  rw [run_bind, exec_bind, run_writeCount hg]
  simp only [run_pure, exec_pure, run_bind, exec_bind]
  cases (readBlock sb (r.bitmap (bgdOf sb m g))).run
    (setCount sb r m g (r.count (bgdOf sb m g) - 1)) with
  | error e m' => rfl
  | ok buffer m' =>
    dsimp only
    cases firstZeroInBitmap sb buffer with
    | none => rfl
    | some i => rfl

/-- Taking an entry of a group finds none if the group counts none, and otherwise it does not say
that there is no space. -/
lemma allocGivenGroup_cases :
    (r.count (bgdOf sb m g) = 0 ∧ (allocGivenGroup sb r g).run m = .ok none m) ∨
      (0 < r.count (bgdOf sb m g) ∧ ((∃ n m', (allocGivenGroup sb r g).run m = .ok (some n) m') ∨
          ∃ e m', (allocGivenGroup sb r g).run m = .error e m' ∧ e ≠ .err .noSpace)) := by
  rcases Nat.eq_zero_or_pos (r.count (bgdOf sb m g)) with hcount | hcount
  · exact .inl ⟨hcount, run_allocGivenGroup_of_eq_zero hg hcount⟩
  · refine .inr ⟨hcount, ?_⟩
    rw [run_allocGivenGroup_of_pos hg hcount, run_bind, exec_bind]
    by_cases hbitmap : r.bitmap (bgdOf sb m g) < sb.blocksCount
    · rw [run_readBlock hbitmap]
      dsimp only
      cases firstZeroInBitmap sb _ with
      | none => exact .inr ⟨_, _, rfl, by simp⟩
      | some i =>
        rw [Option.elim_some, run_bind, exec_bind, run_writeBlock hbitmap]
        exact .inl ⟨_, _, rfl⟩
    · rw [readBlock, if_pos (by omega), run_fail]
      exact .inr ⟨.err .notFound, _, rfl, by simp⟩

end

/-- The groups of a list have no free entry if and only if there is no space. -/
lemma allocFromGroups_noSpace_iff {gs : List ℕ} (hgs : ∀ g ∈ gs, bgdBlock sb g < sb.blocksCount) :
    raisedError (allocFromGroups sb r p gs).run m = some (.err .noSpace) ↔
      ∀ g ∈ gs, g ≠ p → r.count (bgdOf sb m g) = 0 := by
  induction gs with
  | nil => simp [allocFromGroups, raisedError]
  | cons g gs ih =>
    have hrest := ih fun g' hg' => hgs g' (mem_cons_of_mem g hg')
    rw [allocFromGroups, run_ite]
    by_cases hp : g = p
    · rw [if_pos hp, hrest]
      simp [hp]
    · rw [if_neg hp, run_bind, raisedError, exec_bind]
      rcases allocGivenGroup_cases (r := r) (m := m) (hgs g mem_cons_self) with
        ⟨hzero, hrun⟩ | ⟨hpos, ⟨n, m', hrun⟩ | ⟨e, m', hrun, he⟩⟩
      · rw [hrun]
        exact hrest.trans (by simp [hp, hzero])
      · rw [hrun]
        simp only [run_pure, exec_pure, reduceCtorEq, false_iff]
        intro hall
        exact hpos.ne' (hall g mem_cons_self hp)
      · rw [hrun]
        simp only [Option.some.injEq, he, false_iff]
        intro hall
        exact hpos.ne' (hall g mem_cons_self hp)

/-- There is no space if and only if neither the preferred group nor one of those that the division
counts has a free entry. -/
lemma alloc_noSpace_iff (hper : 0 < r.perGroup sb)
    (hgs : ∀ g, g = p ∨ g < r.total sb / r.perGroup sb → bgdBlock sb g < sb.blocksCount) :
    raisedError (alloc sb r p).run m = some (.err .noSpace) ↔
      ∀ g, g = p ∨ g < r.total sb / r.perGroup sb → r.count (bgdOf sb m g) = 0 := by
  rw [alloc, run_withLock, run_bind, raisedError, exec_bind]
  rcases allocGivenGroup_cases (r := r) (m := m) (hgs p (.inl rfl)) with
    ⟨hzero, hrun⟩ | ⟨hpos, ⟨n, m', hrun⟩ | ⟨e, m', hrun, he⟩⟩
  · rw [hrun]
    simp only [run_bind, exec_bind, run_divide hper]
    refine (allocFromGroups_noSpace_iff fun g hg => hgs g (.inr (mem_range.mp hg))).trans ?_
    constructor
    · intro hall g hg
      by_cases hp : g = p
      · rw [hp, hzero]
      · exact hall g (mem_range.mpr (hg.resolve_left hp)) hp
    · intro hall g hg _
      exact hall g (.inr (mem_range.mp hg))
  · rw [hrun]
    simp only [run_pure, exec_pure, reduceCtorEq, false_iff]
    intro hall
    exact hpos.ne' (hall p (.inl rfl))
  · rw [hrun]
    simp only [Option.some.injEq, he, false_iff]
    intro hall
    exact hpos.ne' (hall p (.inl rfl))

end

/-! ## Full disks -/

section

/-- The number of groups, with a last one that need not be full. -/
def groupCount (sb : Superblock) : ℕ :=
  (sb.blocksCount - sb.firstDataBlock + sb.blocksPerGroup - 1) / sb.blocksPerGroup

/-- The number of blocks of a group that its bitmap can name. -/
def blocksIn (sb : Superblock) (g : ℕ) : ℕ :=
  min (min sb.blocksPerGroup (sb.blocksCount - sb.firstDataBlock - g * sb.blocksPerGroup))
    (8 * sb.blockSize)

/-- A block of a group is free. -/
def HasFreeBlock (sb : Superblock) (m : State) (g : ℕ) : Prop :=
  ∃ i < blocksIn sb g, bitAt (m.disk (bgdOf sb m g).blockBitmap) i = false

instance (sb : Superblock) (m : State) (g : ℕ) : Decidable (HasFreeBlock sb m g) :=
  inferInstanceAs (Decidable (∃ i < blocksIn sb g,
    bitAt (m.disk (bgdOf sb m g).blockBitmap) i = false))

/-- Every group has a descriptor on the disk that counts its free blocks. -/
def CountsMatch (sb : Superblock) (m : State) : Prop :=
  ∀ g < groupCount sb, bgdBlock sb g < sb.blocksCount ∧
    (bgdOf sb m g).freeBlocksCount = zeros (m.disk (bgdOf sb m g).blockBitmap) (blocksIn sb g)

instance (sb : Superblock) (m : State) : Decidable (CountsMatch sb m) :=
  inferInstanceAs (Decidable (∀ g < groupCount sb, bgdBlock sb g < sb.blocksCount ∧
    (bgdOf sb m g).freeBlocksCount = zeros (m.disk (bgdOf sb m g).blockBitmap) (blocksIn sb g)))

variable {sb : Superblock} {m : State} {g p : ℕ}

/-- The groups that `alloc_block` looks at: the preferred one and those that the division counts. -/
def Searched (sb : Superblock) (p g : ℕ) : Prop := g = p ∨ g < sb.blocksCount / sb.blocksPerGroup

/-- That there is no space if and only if no group has a free block holds exactly if the groups that
are looked at count a free block when some group has one, and only then. -/
theorem allocBlock_noSpace_iff (sb : Superblock) (m : State) (p : ℕ) (hper : 0 < sb.blocksPerGroup)
    (hdisk : ∀ g, Searched sb p g → bgdBlock sb g < sb.blocksCount) :
    (raisedError (allocBlock sb p).run m = some (.err .noSpace) ↔
      ∀ g < groupCount sb, ¬HasFreeBlock sb m g) ↔
      ((∃ g, Searched sb p g ∧ 0 < (bgdOf sb m g).freeBlocksCount) ↔
        ∃ g < groupCount sb, HasFreeBlock sb m g) := by
  have hrun : raisedError (allocBlock sb p).run m = some (.err .noSpace) ↔
      ¬∃ g, Searched sb p g ∧ 0 < (bgdOf sb m g).freeBlocksCount := by
    refine (alloc_noSpace_iff (r := .blocks) hper hdisk).trans ⟨fun hall ⟨g, hg, hpos⟩ => ?_,
      fun hnone g hg => ?_⟩
    · exact hpos.ne' (hall g hg)
    · exact Nat.eq_zero_of_not_pos fun hpos => hnone ⟨g, hg, hpos⟩
  have hfull : (∀ g < groupCount sb, ¬HasFreeBlock sb m g) ↔
    ¬∃ g < groupCount sb, HasFreeBlock sb m g := by
    simp only [not_exists, not_and]
  rw [hrun, hfull, not_iff_not]

/-- A disk with the given numbers of blocks and of blocks per group. -/
def smallSuperblock (blocksCount blocksPerGroup : ℕ) (h : blocksCount < 2 ^ 32) : Superblock :=
  ⟨16, blocksCount, 1, 0, blocksPerGroup, 8, 128, by decide, by decide, h⟩

/-- Two groups with the bitmaps of their blocks in blocks 3 and 4.  The first group is full, and in
the second one only the last of its blocks is free. -/
def twoGroups : State
  | .block 2 => fun k => if k = 0 then 3 else if k = 32 then 4 else if k = 32 + 12 then 1 else 0
  | .block 3 => fun _ => 0xff
  | .block 4 => fun k => if k = 0 then 0xfb else 0xff
  | .block _ => fun _ => 0
  | .handle _ => ⟨0, fun _ => 0⟩

/-- Asked for a block of the second group, the disk has one. -/
theorem allocBlock_noSpace_iff_second_group :
    raisedError (allocBlock (smallSuperblock 12 8 (by decide)) 1).run twoGroups ≠
      some (.err .noSpace) := by
  have hdisk : ∀ g, Searched (smallSuperblock 12 8 (by decide)) 1 g →
      bgdBlock (smallSuperblock 12 8 (by decide)) g < 12 := by
    rintro g (rfl | hg)
    · decide
    · obtain rfl : g = 0 := Nat.lt_one_iff.mp hg
      decide
  rw [ne_eq, (allocBlock_noSpace_iff _ twoGroups 1 (by decide) hdisk).mpr
    ⟨fun _ => ⟨1, by decide +kernel⟩, fun _ => ⟨1, .inl rfl, by decide +kernel⟩⟩]
  decide +kernel

/-- Asked for a block of the first group, a disk with eleven blocks in groups of eight has no space,
but the third block of the second group is free. -/
theorem allocBlock_misses_last_group : CountsMatch (smallSuperblock 12 8 (by decide)) twoGroups ∧
      HasFreeBlock (smallSuperblock 12 8 (by decide)) twoGroups 1 ∧
      raisedError (allocBlock (smallSuperblock 12 8 (by decide)) 0).run twoGroups =
        some (.err .noSpace) := by
  decide +kernel

end

end Ext2

end CabOS
