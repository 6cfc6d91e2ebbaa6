import CabOS.Fs.Ext2.Damaged
import CabOS.Library.Triple

/-!
# Sizes of files

A write makes the blocks of a file first, and they do not change its size; then the size grows to
the end of what was written.  The inode has 32 bits for it.  Below 4 GiB the new size is the larger
one of the old size and the end of the write (`write_size`), and a write that ends beyond stores the
end without its upper bits (`write_size_wraps`).
-/

namespace CabOS.Ext2

open Prog Triple

variable {sb : Superblock} {h size : ℕ} (n : ℕ)

/-- The node keeps an inode with this size. -/
def SizeIs (h size : ℕ) (m : State) : Prop := (m.inode h).data.fileSize = size

/-- The blocks of the disk. -/
def Cell.IsBlock : Cell → Prop
  | .block _ => True
  | .handle _ => False

/-! ## Calls that work on blocks only -/

section

lemma onlyStores_writeBlock (b : Memory) : (writeBlock sb n b).OnlyStores Cell.IsBlock :=
  .ite (onlyStores_throw _) (onlyStores_store trivial b)

lemma onlyStores_readBlock : (readBlock sb n).OnlyStores Cell.IsBlock :=
  (onlyLoads_readBlock n).onlyStores

lemma onlyStores_divide (a b : ℕ) : (divide a b).OnlyStores Cell.IsBlock :=
  .ite (onlyStores_throw _) (onlyStores_pure _)

lemma onlyStores_getBlockGroupDescriptor (g : ℕ) :
    (getBlockGroupDescriptor sb g).OnlyStores Cell.IsBlock :=
  (onlyStores_readBlock _).bind fun _ => .ite (onlyStores_pure _) (onlyStores_throw _)

lemma onlyStores_allocGivenGroup (r : Resource) (g : ℕ) :
    (allocGivenGroup sb r g).OnlyStores Cell.IsBlock := by
  have hcount : (Prog.withLock .group do
      let d ← getBlockGroupDescriptor sb g
      if r.count d.bgd = 0 then
        return none
      writeCount sb r d (r.count d.bgd - 1)
      return some (r.bitmap d.bgd) : FsProg (Option ℕ)).OnlyStores Cell.IsBlock := by
    refine ((onlyStores_getBlockGroupDescriptor g).bind fun d => ?_).withLock _
    exact .ite (onlyStores_pure _) ((onlyStores_writeBlock _ _).bind fun _ => onlyStores_pure _)
  refine hcount.bind fun bitmap => ?_
  cases bitmap with
  | none => exact onlyStores_pure _
  | some bitmap =>
    refine (onlyStores_readBlock _).bind fun buffer => ?_
    cases firstZeroInBitmap sb buffer with
    | none => exact onlyStores_throw _
    | some i => exact (onlyStores_writeBlock _ _).bind fun _ => onlyStores_pure _

lemma onlyStores_allocFromGroups (r : Resource) (p : ℕ) (gs : List ℕ) :
    (allocFromGroups sb r p gs).OnlyStores Cell.IsBlock := by
  induction gs with
  | nil => exact onlyStores_throw _
  | cons g gs ih =>
    refine .ite ih ((onlyStores_allocGivenGroup r g).bind fun b => ?_)
    cases b with
    | none => exact ih
    | some b => exact onlyStores_pure _

lemma onlyStores_allocBlock (p : ℕ) : (allocBlock sb p).OnlyStores Cell.IsBlock := by
  refine ((onlyStores_allocGivenGroup .blocks p).bind fun b => ?_).withLock _
  cases b with
  | none => exact (onlyStores_divide _ _).bind fun groups => onlyStores_allocFromGroups _ _ _
  | some b => exact onlyStores_pure _

/-- What works on blocks only does not change the size of a node. -/
lemma triple_of_onlyStores {α : Type} {p : FsProg α} (hp : p.OnlyStores Cell.IsBlock) :
    Triple (SizeIs h size) p.run (fun _ => SizeIs h size) fun _ => True := by
  refine of_cases (fun m a m' hm e => ?_) fun _ _ _ _ _ => trivial
  have hcell : m' (.handle h) = m (.handle h) := by
    rw [← finalState_of_ok e]
    exact hp.finalState_apply (i := Cell.handle h) (fun hblock => hblock) m
  unfold SizeIs State.inode at hm ⊢
  rw [hcell]
  exact hm

end

/-! ## Writes -/

section

/-- A new inode has its own size. -/
lemma triple_updateInode {P : State → Prop} {inode : INode} (hsize : inode.data.fileSize = size) :
    Triple P (updateInode sb h inode).run (fun _ => SizeIs h size) fun _ => True := by
  refine of_cases (fun m a m' _ e => ?_) fun _ _ _ _ _ => trivial
  simp only [updateInode, run_bind] at e
  obtain ⟨old, m₁, -, e⟩ := exec_bind_eq_ok.mp e
  obtain ⟨slot, m₂, -, e⟩ := exec_bind_eq_ok.mp e
  obtain ⟨_, m₃, -, e⟩ := exec_bind_eq_ok.mp e
  cases e
  change ((State.setInode m₃ h inode).inode h).data.fileSize = size
  rw [inode_setInode, Function.update_self, hsize]

/-- A block that is added does not change the size. -/
lemma triple_addLevel (path : TreePath) (preferredGroup : ℕ) (tree : ℕ → ℕ) (i : ℕ) :
    Triple (SizeIs h size) (addLevel sb h path none preferredGroup tree i).run
      (fun _ => SizeIs h size)
        fun _ => True := by
  unfold addLevel
  rw [run_ite]
  refine ite (fun _ => pure fun _ hm => hm) fun _ => ?_
  rw [run_bind]
  refine bind (triple_of_onlyStores (onlyStores_allocBlock preferredGroup)) fun b => ?_
  dsimp only
  rw [run_ite]
  refine ite (fun _ => ?_) fun _ => ?_
  · -- the new inode has the size of the one that was loaded
    simp only [run_bind]
    refine bind (Q := fun (inode : INode) _ => inode.data.fileSize = size) ⟨fun m hm => ?_⟩
      fun inode => ?_
    · rw [run_loadInode]
      exact hm
    refine bind (Q := fun _ => SizeIs h size) ⟨fun m hinode => ?_⟩ fun _ => pure fun _ hm => hm
    refine (triple_updateInode (P := fun _ => True) ?_).run m trivial
    rw [fileSize_withBlock, fileSize_withSize, Option.getD_none, hinode]
    exact Nat.mod_eq_of_lt (hinode ▸ fileSize_lt _)
  · refine triple_of_onlyStores ?_
    refine Prog.OnlyStores.bind (.ite (onlyStores_pure _) (onlyStores_throw _)) fun buffer => ?_
    exact (onlyStores_writeBlock _ _).bind fun _ => onlyStores_pure _

/-- The blocks of a write do not change the size. -/
lemma triple_writeBlock (buffer : Memory) (preferredGroup : ℕ) :
    Triple (SizeIs h size) (FNode.writeBlock sb h n buffer none preferredGroup).run
      (fun _ => SizeIs h size)
        fun _ => True := by
  have hlevels : ∀ (path : TreePath) (levels : List ℕ) (tree : ℕ → ℕ),
      Triple (SizeIs h size) (levels.foldlM (addLevel sb h path none preferredGroup) tree).run
        (fun _ => SizeIs h size)
          fun _ => True := by
    intro path levels
    induction levels with
    | nil => exact fun tree => pure fun _ hm => hm
    | cons i levels ih =>
      intro tree
      rw [List.foldlM_cons, run_bind]
      exact bind (triple_addLevel path preferredGroup tree i) fun tree' => ih tree'
  unfold FNode.writeBlock
  simp only [run_bind]
  refine bind (triple_of_onlyStores (onlyStores_load _)) fun inode => ?_
  refine bind (triple_of_onlyStores (onlyLoads_blockTree n).onlyStores) fun tree => ?_
  exact bind (hlevels _ _ tree) fun tree' => triple_of_onlyStores (onlyStores_writeBlock _ _)

lemma triple_readBlock_node (inode : INode) :
    Triple (SizeIs h size) (FNode.readBlock sb n inode).run (fun _ => SizeIs h size) fun _ =>
    True :=
  triple_of_onlyStores (onlyLoads_readBlock_node n).onlyStores

lemma triple_writeLoop (offset : ℕ) (buffer : List UInt8) (fuel written : ℕ) :
    Triple (SizeIs h size) (writeLoop sb h offset buffer fuel written).run
      (fun _ => SizeIs h size) fun _ => True := by
  induction fuel generalizing written with
  | zero => exact pure fun _ hm => hm
  | succ fuel ih =>
    unfold writeLoop
    rw [run_ite]
    refine ite (fun _ => ?_) fun _ => pure fun _ hm => hm
    simp only [run_bind]
    refine bind (triple_of_onlyStores (onlyStores_load _)) fun inode => ?_
    refine bind (triple_readBlock_node _ inode) fun scratch => ?_
    exact bind (triple_writeBlock _ _ _) fun _ => ih _

lemma triple_writePageLoop (offset preferredGroup : ℕ) (page : List UInt8) (fuel written : ℕ) :
    Triple (SizeIs h size) (writePageLoop sb h offset preferredGroup page fuel written).run
      (fun _ => SizeIs h size)
        fun _ => True := by
  induction fuel generalizing written with
  | zero => exact pure fun _ hm => hm
  | succ fuel ih =>
    unfold writePageLoop
    rw [run_ite]
    refine ite (fun _ => ?_) fun _ => pure fun _ hm => hm
    dsimp only
    rw [run_ite]
    refine ite (fun _ => ?_) fun _ => ?_
    · rw [run_bind]
      exact bind (triple_writeBlock _ _ _) fun _ => ih _
    · simp only [run_bind]
      refine bind (triple_of_onlyStores (onlyStores_load _)) fun inode => ?_
      refine bind (triple_readBlock_node _ inode) fun scratch => ?_
      exact bind (triple_writeBlock _ _ _) fun _ => ih _

/-- The size grows to the end of what was written, as far as it fits into 32 bits. -/
lemma triple_growSize (newEnd : ℕ) :
    Triple (SizeIs h size) (growSize sb h newEnd).run (fun _ => SizeIs h (max size newEnd % 2 ^ 32))
    fun _ => True := by
  refine ⟨fun m hm => ?_⟩
  have hmax : (m.inode h).data.fileSize = size := hm
  rw [growSize, run_bind_ok run_loadInode]
  dsimp only
  rw [hmax, run_ite]
  split_ifs with hne
  · exact (triple_updateInode (P := fun _ => True) (fileSize_withSize _ _)).run m trivial
  · have hsame : max size newEnd = size := not_not.mp hne
    change (m.inode h).data.fileSize = _
    rw [hsame, ← hmax, Nat.mod_eq_of_lt (fileSize_lt _)]

end

/-- A call that writes to a file. -/
inductive FileWrite where
  | unaligned (offset : ℕ) (buffer : List UInt8)
  | page (bytes : List UInt8) (offset : ℕ)

/-- Where the write starts. -/
def FileWrite.offset : FileWrite → ℕ
  | .unaligned offset _ => offset
  | .page _ offset => offset

/-- The number of bytes. -/
def FileWrite.count : FileWrite → ℕ
  | .unaligned _ buffer => buffer.length
  | .page _ _ => pageSize

/-- The call. -/
def FileWrite.call (sb : Superblock) (h : ℕ) : FileWrite → FsProg ℕ
  | .unaligned offset buffer => writeUnaligned sb h offset buffer
  | .page bytes offset => writePage sb h bytes offset

/-- **The size after a write.**  A write that succeeds writes all of its bytes, and it makes the
size the larger one of the old size and the end of what was written exactly if that end is below 4
GiB. -/
theorem write_size (sb : Superblock) (h : ℕ) (w : FileWrite) (m m' : State) (n : ℕ)
    (hok : (w.call sb h).run m = .ok n m') :
    n = w.count ∧ ((Ext2.size h).run m' = .ok (max (m.inode h).data.fileSize (w.offset + n)) m' ↔
      w.offset + w.count < 2 ^ 32) := by
  have hgrown : n = w.count ∧
    SizeIs h (max (m.inode h).data.fileSize (w.offset + n) % 2 ^ 32) m' := by
    cases w with
    | unaligned offset buffer =>
      simp only [FileWrite.call, writeUnaligned, run_withLock, run_bind] at hok
      obtain ⟨_, m₁, hloop, hok⟩ := exec_bind_eq_ok.mp hok
      obtain ⟨_, m₂, hgrow, hok⟩ := exec_bind_eq_ok.mp hok
      cases hok
      exact ⟨rfl, (triple_growSize _).of_ok
        ((triple_writeLoop offset buffer _ 0).of_ok rfl hloop) hgrow⟩
    | page bytes offset =>
      simp only [FileWrite.call, writePage, run_withLock, run_bind] at hok
      obtain ⟨inode, m₀, hload, hok⟩ := exec_bind_eq_ok.mp hok
      cases hload
      obtain ⟨preferredGroup, m₁, hdivide, hok⟩ := exec_bind_eq_ok.mp hok
      obtain ⟨_, m₂, hloop, hok⟩ := exec_bind_eq_ok.mp hok
      obtain ⟨_, m₃, hgrow, hok⟩ := exec_bind_eq_ok.mp hok
      cases hok
      have hstart := (triple_of_onlyStores (h := h) (onlyStores_divide _ _)).of_ok rfl hdivide
      have hloop' := (triple_writePageLoop offset _ bytes _ 0).of_ok hstart hloop
      exact ⟨rfl, (triple_growSize _).of_ok hloop' hgrow⟩
  obtain ⟨rfl, hsize⟩ := hgrown
  have hold := fileSize_lt (m.inode h).data
  have hnew := fileSize_lt (m'.inode h).data
  have hcall : (Ext2.size h).run m' = .ok (m'.inode h).data.fileSize m' := by
    rw [Ext2.size, run_withLock, run_bind_ok run_loadInode]
    rfl
  refine ⟨rfl, fun heq => ?_, fun hbound => ?_⟩
  · rw [hcall] at heq
    have hmax := (EStateM.Result.ok.inj heq).1
    omega
  · rw [hcall, show (m'.inode h).data.fileSize = _ from hsize, Nat.mod_eq_of_lt (by omega)]

/-- A disk with 64 blocks of 4096 bytes. -/
def largeBlocks : Superblock :=
  { smallSuperblock 64 32768 (by decide) with
    firstDataBlock := 0, logBlockSize := 2, logBlockSize_le := le_rfl }

/-- A node for an empty file, on a disk with ten free blocks from the sixth on. -/
def emptyFile : State
  | .block 1 => fun k =>
    if k = 0 then 2 else if k = 4 then 3 else if k = 8 then 4 else if k = 12 then 10 else 0
  | .block 2 => fun k => if k = 0 then 0x3f else if k = 1 then 0 else 0xff
  | .block _ => fun _ => 0
  | .handle _ => ⟨1, INodeData.new 0x8000 1⟩

/-- Three bytes in an empty file. -/
theorem write_size_three_bytes :
    returnedValue (Ext2.size 0).run
      (finalState (writeUnaligned largeBlocks 0 0 [1, 2, 3]).run emptyFile) = some 3 := by
  have hsize := (write_size largeBlocks 0 (.unaligned 0 [1, 2, 3]) emptyFile _ 3
    (exec_of_returnedValue (by decide +kernel))).2.mpr (by decide)
  rw [returnedValue, ← FileWrite.call, hsize]
  rfl

/-- One byte behind 4 GiB: the call writes it, and the size is one. -/
theorem write_size_wraps :
    returnedValue (writeUnaligned largeBlocks 0 (2 ^ 32) [7]).run emptyFile = some 1 ∧
      returnedValue (Ext2.size 0).run
        (finalState (writeUnaligned largeBlocks 0 (2 ^ 32) [7]).run emptyFile) =
        some 1 := by
  decide +kernel

end CabOS.Ext2
