import CabOS.Fs.Ext2.Image
import CabOS.Fs.File

/-!
# Reads of ext2 files

`read_unaligned` goes from block to block.  If the blocks of a file can be read, it returns as many
bytes of the file as there are (`HoldsFile.run_readUnaligned`), so that an ext2 file is one of those
that can be read in pieces (`HoldsFile.readsContent`).  A file whose blocks are all among the first
twelve holds the bytes of these blocks, zeros where there is none (`holdsFile_direct`).
-/

namespace CabOS.Ext2

open Prog List

variable {sb : Superblock} {m : State} {h offset len : ℕ} {data : List UInt8}

/-- Every block of the file up to its size can be read, and together they hold the bytes. -/
structure HoldsFile (sb : Superblock) (m : State) (h : ℕ) (data : List UInt8) : Prop where
  fileSize_eq : (m.inode h).data.fileSize = data.length
  readBlock_eq : ∀ n, n * sb.blockSize < data.length →
    ∃ b, (FNode.readBlock sb n (m.inode h)).run m = .ok b m ∧
      ∀ k < sb.blockSize, n * sb.blockSize + k < data.length →
        data[n * sb.blockSize + k]? = some (b k)

lemma Superblock.blockSize_pos (sb : Superblock) : 0 < sb.blockSize := by
  rcases sb.blockSize_cases with h | h | h <;> rw [h] <;> decide

/-- What one step of a read copies out of the block of a position is the file from there on. -/
lemma HoldsFile.exists_readBlock (hfile : HoldsFile sb m h data) {pos : ℕ}
    (hpos : pos < data.length) :
    ∃ b, (FNode.readBlock sb (pos / sb.blockSize) (m.inode h)).run m = .ok b m ∧
      ∀ n ≤ sb.blockSize - pos % sb.blockSize, pos + n ≤ data.length →
        flatRead b (pos % sb.blockSize) n = slice data pos n := by
  have hsplit : pos / sb.blockSize * sb.blockSize + pos % sb.blockSize = pos :=
    Nat.div_add_mod' _ _
  obtain ⟨b, hrun, hb⟩ := hfile.readBlock_eq (pos / sb.blockSize) (by omega)
  refine ⟨b, hrun, fun n hblock hdata => ?_⟩
  refine ((eq_flatRead_iff (length_slice hdata)).2 fun i hi => ?_).symm
  rw [getElem?_slice hi, ← hb (pos % sb.blockSize + i) (by omega) (by omega)]
  congr 1
  omega

/-- The loop continues the `r` bytes that were read to `len` bytes, or to the end of the file. -/
lemma HoldsFile.run_readLoop (hfile : HoldsFile sb m h data) {fuel r : ℕ} (hr : r ≤ len)
    (hfuel : len ≤ r + fuel) (hinside : offset + r ≤ data.length) :
    (readLoop sb (m.inode h) offset len fuel (slice data offset r)).run m =
      .ok (slice data offset len) m := by
  -- every step reads at least one byte, so that the fuel is enough
  induction fuel generalizing r with
  | zero =>
    obtain rfl : r = len := by omega
    rfl
  | succ fuel ih =>
    have hlength : (slice data offset r).length = r := length_slice hinside
    rw [readLoop, run_ite, hlength, hfile.fileSize_eq]
    by_cases hmore : r < len ∧ offset + r < data.length
    · obtain ⟨b, hrun, hcopy⟩ := hfile.exists_readBlock hmore.2
      have hblock : (offset + r) % sb.blockSize < sb.blockSize :=
        Nat.mod_lt _ sb.blockSize_pos
      rw [if_pos hmore, run_bind_ok hrun]
      dsimp only
      generalize htoCopy : min (min (len - r) (sb.blockSize - (offset + r) % sb.blockSize))
        (data.length - (offset + r)) = toCopy
      have hjoin := slice_append_slice data offset r toCopy
      rw [hlength] at hjoin
      rw [hcopy toCopy (by omega) (by omega), hjoin]
      exact ih (by omega) (by omega) (by omega)
    · rw [if_neg hmore]
      have hend : slice data offset r = slice data offset len := by
        have hjoin := slice_append_slice data offset r (len - r)
        rw [hlength, Nat.add_sub_cancel' hr] at hjoin
        rw [← hjoin]
        rcases Nat.lt_or_ge r len with hlt | hge
        · simp [slice, show data.length ≤ offset + r by omega]
        · simp [slice, show len - r = 0 by omega]
      rw [hend]
      rfl

/-- A read returns as many bytes of the file as there are, and changes nothing. -/
lemma HoldsFile.run_readUnaligned (hfile : HoldsFile sb m h data) :
    (readUnaligned sb h offset len).run m = .ok (slice data offset len) m := by
  rw [readUnaligned, run_withLock, run_bind_ok run_loadInode, run_ite, hfile.fileSize_eq]
  by_cases hoffset : data.length ≤ offset
  · rw [if_pos hoffset, slice, drop_eq_nil_of_le hoffset, take_nil]
    rfl
  · rw [if_neg hoffset]
    exact hfile.run_readLoop (Nat.zero_le _) (Nat.le_add_left _ _) (by omega)

/-- A node that is read by `read_unaligned` has the bytes of its file as a fixed content. -/
lemma HoldsFile.readsContent (hfile : HoldsFile sb m h data) {V : Type} [ReadableVNode V]
    {vnode : V} (hnode : ∀ offset len bytes, (readUnaligned sb h offset len).run m = .ok bytes m →
      ReadableVNode.readUnaligned vnode offset len = .ok bytes) :
    OpenFile.ReadsContent vnode data := fun offset len =>
  hnode offset len _ hfile.run_readUnaligned

/-! ## Files of at most twelve blocks -/

/-- A block whose number is in the inode; one that is not there is all zeros. -/
def directBlock (m : State) (inode : INode) (n : ℕ) : Memory :=
  match inode.data.block n with
  | 0 => fun _ => 0
  | b => m.disk b

lemma run_readBlock_direct {inode : INode} {n : ℕ} (hn : n < 12)
    (hdisk : inode.data.block n < sb.blocksCount) :
    (FNode.readBlock sb n inode).run m = .ok (directBlock m inode n) m := by
  have hpath : blockTreeIndices sb n = ⟨fourIndices n 0 0 0, 1⟩ := if_pos hn
  have htree : (blockTree sb n inode).run m =
      .ok (Function.update (fun _ => 0) 0 (inode.data.block n)) m := by
    rw [blockTree, hpath]
    rfl
  rw [FNode.readBlock, run_bind_ok htree, hpath, Nat.sub_self, Function.update_self, directBlock]
  cases hblock : inode.data.block n with
  | zero => rfl
  | succ b => exact run_readBlock (hblock ▸ hdisk)

/-- A file of at most twelve blocks, all of them on the disk, holds what is in these blocks. -/
lemma holdsFile_direct (hsize : (m.inode h).data.fileSize ≤ 12 * sb.blockSize)
    (hdisk : ∀ n < 12, (m.inode h).data.block n < sb.blocksCount) :
    HoldsFile sb m h
      (flatRead (fun i => directBlock m (m.inode h) (i / sb.blockSize) (i % sb.blockSize)) 0
        (m.inode h).data.fileSize) where
  fileSize_eq := (length_flatRead _ _ _).symm
  readBlock_eq n hn := by
    rw [length_flatRead] at hn
    have htwelve : n < 12 := Nat.lt_of_mul_lt_mul_right (hn.trans_le hsize)
    refine ⟨directBlock m (m.inode h) n, run_readBlock_direct htwelve (hdisk n htwelve), ?_⟩
    intro k hk hinside
    have hdiv : (n * sb.blockSize + k) / sb.blockSize = n := by
      rw [Nat.mul_comm, Nat.mul_add_div sb.blockSize_pos, Nat.div_eq_of_lt hk, Nat.add_zero]
    have hmod : (n * sb.blockSize + k) % sb.blockSize = k := by
      rw [Nat.mul_add_mod_self_right, Nat.mod_eq_of_lt hk]
    rw [getElem?_flatRead _ (by rwa [length_flatRead] at hinside), Nat.zero_add, hdiv, hmod]

end CabOS.Ext2
