import CabOS.Fs.Ext2.Records

/-!
# Damaged disks

Calls on a disk of which the blocks may hold anything.  The numbers in the superblock are divisors
and sizes: the calls with a number of an inode or a group return or fail for every disk exactly if
no divisor is zero and the last inode of a block is inside the block (`calls_return`).  The check of
the superblock does not ask for that, and an inode size of zero is a division by zero
(`inodeSize_zero_panics`).

A search in a directory goes from record to record by their lengths.  It ends, after one round for
every four bytes, exactly if it can read the records up to the one with the name and all of them but
that one have a length (`search_ends`); a record of length zero keeps it where it is
(`search_hangs`).
-/

namespace CabOS.Ext2

open Prog Nat

/-- An error that a call returns. -/
def Stop.IsErr (s : Stop) : Prop := ∃ e, s = .err e

/-- Whatever the disk holds, the call returns a value or an error. -/
def Returns {α : Type} (p : FsProg α) : Prop := ∀ m e, raisedError p.run m = some e → e.IsErr

lemma returns_of_onlyFails {α : Type} {p : FsProg α} (hp : p.OnlyFails Stop.IsErr) : Returns p :=
  fun _ _ h => hp.of_raisedError h

/-- A call that returns does not panic. -/
lemma panic_ne {α : Type} {p : FsProg α} (hp : Returns p) (m : State) :
    p.run m ≠ .error .panic m := by
  intro h
  obtain ⟨e, he⟩ := hp m .panic (by rw [raisedError, h])
  cases he

/-! ## Divisors in the superblock -/

section

variable {sb : Superblock} (r : Resource)

lemma onlyFails_fail {α : Type} (e : FsError) : (fail e : FsProg α).OnlyFails Stop.IsErr := ⟨e, rfl⟩

lemma onlyFails_divide {a b : ℕ} (hb : 0 < b) : (divide a b).OnlyFails Stop.IsErr := by
  rw [divide, if_neg hb.ne']
  exact onlyFails_pure _

lemma onlyFails_readBlock (n : ℕ) : (readBlock sb n).OnlyFails Stop.IsErr :=
  .ite (fun _ => onlyFails_fail _) fun _ => onlyFails_load _

lemma onlyFails_writeBlock (n : ℕ) (b : Memory) : (writeBlock sb n b).OnlyFails Stop.IsErr :=
  .ite (fun _ => onlyFails_fail _) fun _ => onlyFails_store _ _

/-- A descriptor is inside its block for every number of a group. -/
lemma onlyFails_getBlockGroupDescriptor (g : ℕ) :
    (getBlockGroupDescriptor sb g).OnlyFails Stop.IsErr := by
  have hfits : bgdOffset sb g + BlockGroupDescriptor.size ≤ sb.blockSize :=
    (Nat.add_le_add_left (by decide) _).trans (bgdOffset_le sb g)
  refine (onlyFails_readBlock _).bind fun buffer => ?_
  rw [if_pos hfits]
  exact onlyFails_pure _

lemma onlyFails_allocGivenGroup (g : ℕ) : (allocGivenGroup sb r g).OnlyFails Stop.IsErr := by
  have hcount : (withLock .group do
      let d ← getBlockGroupDescriptor sb g
      if r.count d.bgd = 0 then
        return none
      writeCount sb r d (r.count d.bgd - 1)
      return some (r.bitmap d.bgd) : FsProg (Option ℕ)).OnlyFails Stop.IsErr := by
    refine ((onlyFails_getBlockGroupDescriptor g).bind fun d => ?_).withLock _
    refine .ite (fun _ => onlyFails_pure _) fun _ => ?_
    exact (onlyFails_writeBlock _ _).bind fun _ => onlyFails_pure _
  refine hcount.bind fun bitmap => ?_
  cases bitmap with
  | none => exact onlyFails_pure _
  | some bitmap =>
    refine (onlyFails_readBlock _).bind fun buffer => ?_
    cases firstZeroInBitmap sb buffer with
    | none => exact onlyFails_fail _
    | some i => exact (onlyFails_writeBlock _ _).bind fun _ => onlyFails_pure _

lemma onlyFails_allocFromGroups (p : ℕ) (gs : List ℕ) :
    (allocFromGroups sb r p gs).OnlyFails Stop.IsErr := by
  induction gs with
  | nil => exact onlyFails_fail _
  | cons g gs ih =>
    refine .ite (fun _ => ih) fun _ => (onlyFails_allocGivenGroup r g).bind fun b => ?_
    cases b with
    | none => exact ih
    | some b => exact onlyFails_pure _

lemma onlyFails_alloc {r : Resource} (hr : 0 < r.perGroup sb) (p : ℕ) :
    (alloc sb r p).OnlyFails Stop.IsErr := by
  refine ((onlyFails_allocGivenGroup r p).bind fun b => ?_).withLock _
  cases b with
  | none => exact (onlyFails_divide hr).bind fun groups => onlyFails_allocFromGroups r p _
  | some b => exact onlyFails_pure _

/-- There are inodes in a block, and the last one that is used of a block is inside it. -/
structure SlotsFit (sb : Superblock) : Prop where
  inodeSize_pos : 0 < sb.inodeSize
  inodeSize_le : sb.inodeSize ≤ sb.blockSize
  last : (min sb.inodesPerGroup (sb.blockSize / sb.inodeSize) - 1) * sb.inodeSize +
    INodeData.size ≤ sb.blockSize

/-- The slot of an inode is inside its block. -/
lemma onlyFails_getExt2Inode (hper : 0 < sb.inodesPerGroup) (hfit : SlotsFit sb) (n : ℕ) :
    (getExt2Inode sb n).OnlyFails Stop.IsErr := by
  have hquotient : 0 < sb.blockSize / sb.inodeSize :=
    Nat.div_pos hfit.inodeSize_le hfit.inodeSize_pos
  refine .ite (fun _ => onlyFails_fail _) fun _ => (onlyFails_divide hper).bind fun group => ?_
  refine ((onlyFails_getBlockGroupDescriptor group).bind fun d => ?_).withLock _
  -- the number of inodes in a block is needed for the offset, so the two divisions are made here
  rw [divide, if_neg hfit.inodeSize_pos.ne', pure_bind]
  refine (onlyFails_divide hquotient).bind fun quotient =>
    (onlyFails_readBlock _).bind fun buffer => ?_
  refine .ite (fun _ => onlyFails_pure _) fun hout => absurd ?_ hout
  have hindex := mod_lt (n % 2 ^ 32 - 1) hper
  have hlt := mod_lt ((n % 2 ^ 32 - 1) % sb.inodesPerGroup) hquotient
  have hle := mod_le ((n % 2 ^ 32 - 1) % sb.inodesPerGroup) (sb.blockSize / sb.inodeSize)
  have hmul := mul_le_mul_right sb.inodeSize (show (n % 2 ^ 32 - 1) % sb.inodesPerGroup %
    (sb.blockSize / sb.inodeSize) ≤ min sb.inodesPerGroup (sb.blockSize / sb.inodeSize) - 1 by
    omega)
  have hlast := hfit.last
  omega

/-- Without a block for the descriptors no descriptor is found. -/
lemma getBlockGroupDescriptor_eq_fail (hnone : ¬sb.firstDataBlock + 1 < sb.blocksCount) (g : ℕ) :
    getBlockGroupDescriptor sb g = fail .notFound := by
  have hbehind : bgdBlock sb g ≥ sb.blocksCount := le_trans (not_lt.mp hnone) (Nat.le_add_right _ _)
  rw [getBlockGroupDescriptor, readBlock, if_pos hbehind]
  rfl

/-- A disk of zeros. -/
def zeroDisk : State
  | .block _ => fun _ => 0
  | .handle _ => ⟨0, fun _ => 0⟩

section

variable (hdisk : sb.firstDataBlock + 1 < sb.blocksCount)
include hdisk

/-- The descriptor of the first group. -/
lemma bgdBlock_zero_lt : bgdBlock sb 0 < sb.blocksCount := by
  rw [bgdBlock, Nat.zero_div]
  exact hdisk

/-- On a disk of zeros the first group is full, and then the number of groups is computed. -/
lemma run_alloc_zeroDisk {r : Resource} (hr : r.perGroup sb = 0) :
    (alloc sb r 0).run zeroDisk = .error .panic zeroDisk := by
  have hcount : r.count (bgdOf sb zeroDisk 0) = 0 := by cases r <;> rfl
  rw [alloc, run_withLock,
    run_bind_ok (run_allocGivenGroup_of_eq_zero (bgdBlock_zero_lt hdisk) hcount)]
  refine run_bind_error ?_
  rw [divide, if_pos hr]
  rfl

/-- On a disk of zeros the inodes of the first group are from block zero on. -/
lemma run_getExt2Inode_zeroDisk {n : ℕ} (hn : 0 < n) (hlt : n < 2 ^ 32)
    (hper : n ≤ sb.inodesPerGroup) :
    (getExt2Inode sb n).run zeroDisk = (do
      let inodesPerBlock ← divide sb.blockSize sb.inodeSize
      let quotient ← divide (n - 1) inodesPerBlock
      let buffer ← readBlock sb (0 + quotient)
      if (n - 1) % inodesPerBlock * sb.inodeSize + INodeData.size ≤ sb.blockSize then
        return ⟨viewAt buffer ((n - 1) % inodesPerBlock * sb.inodeSize), 0 + quotient,
          (n - 1) % inodesPerBlock * sb.inodeSize, buffer⟩
      else
        panic : FsProg Slot).run zeroDisk := by
  have hgroup : divide (n - 1) sb.inodesPerGroup = pure 0 := by
    rw [divide, if_neg (by omega), Nat.div_eq_of_lt (by omega)]
  rw [getExt2Inode, mod_eq_of_lt hlt, if_neg hn.ne', hgroup, pure_bind, run_withLock,
    run_bind_ok (run_getBlockGroupDescriptor (bgdBlock_zero_lt hdisk)), mod_eq_of_lt (by omega)]
  rfl

/-- If the inodes of the first group are found on a disk of zeros, the slots of all inodes are
inside. -/
lemma slotsFit_of_returns (hper : 0 < sb.inodesPerGroup) (hall : ∀ n, Returns (getExt2Inode sb n)) :
    SlotsFit sb := by
  have hsize : sb.blockSize ≤ 4096 := by rcases sb.blockSize_cases with h | h | h <;> omega
  have hquotient : sb.inodeSize ≠ 0 ∧ sb.blockSize / sb.inodeSize ≠ 0 := by
    by_contra hzero
    refine panic_ne (hall 1) zeroDisk ?_
    rw [run_getExt2Inode_zeroDisk hdisk one_pos (by norm_num) hper]
    by_cases hinode : sb.inodeSize = 0
    · exact run_bind_error (by rw [divide, if_pos hinode]; rfl)
    · rw [divide, if_neg hinode, pure_bind]
      refine run_bind_error ?_
      rw [divide, if_pos (not_not.mp fun h => hzero ⟨hinode, h⟩)]
      rfl
  have hle : sb.inodeSize ≤ sb.blockSize := by
    by_contra hlt
    exact hquotient.2 (Nat.div_eq_of_lt (not_le.mp hlt))
  refine ⟨Nat.pos_of_ne_zero hquotient.1, hle, ?_⟩
  by_contra hout
  have hpos := Nat.pos_of_ne_zero hquotient.2
  have hdiv := Nat.div_le_self sb.blockSize sb.inodeSize
  -- the last inode of the first block
  obtain ⟨n, hn⟩ : ∃ n, n = min sb.inodesPerGroup (sb.blockSize / sb.inodeSize) := ⟨_, rfl⟩
  have hlow : 0 < n := hn ▸ lt_min hper hpos
  have hhigh : n ≤ sb.blockSize / sb.inodeSize := hn ▸ min_le_right _ _
  rw [← hn] at hout
  refine panic_ne (hall n) zeroDisk ?_
  rw [run_getExt2Inode_zeroDisk hdisk hlow (by omega) (hn ▸ min_le_left _ _), divide,
    if_neg hquotient.1, pure_bind,
    divide, if_neg hquotient.2, pure_bind, Nat.div_eq_of_lt (by omega), mod_eq_of_lt (by omega),
    run_bind_ok (run_readBlock (by omega)), if_neg hout]
  rfl

end

/-- **The numbers of the superblock.**  The calls with the number of an inode or a group return a
value or an error on every disk exactly if the groups have inodes and, unless the disk has no room
for a descriptor, the groups have blocks and the inodes are inside their blocks. -/
theorem calls_return (sb : Superblock) :
    (∀ n g, Returns (getExt2Inode sb n) ∧ Returns (getBlockGroupDescriptor sb g) ∧
      Returns (allocBlock sb g) ∧ Returns (allocInode sb g)) ↔
    0 < sb.inodesPerGroup ∧
      (sb.firstDataBlock + 1 < sb.blocksCount → 0 < sb.blocksPerGroup ∧ SlotsFit sb) := by
  refine ⟨fun hall => ?_, fun ⟨hinodes, hfit⟩ n g => ?_⟩
  · have hinodes : 0 < sb.inodesPerGroup := by
      by_contra hzero
      refine panic_ne (hall 1 0).1 zeroDisk ?_
      rw [getExt2Inode, if_neg (by norm_num), divide, if_pos (by omega)]
      rfl
    refine ⟨hinodes, fun hdisk => ⟨?_, slotsFit_of_returns hdisk hinodes fun n => (hall n 0).1⟩⟩
    by_contra hzero
    exact panic_ne (hall 0 0).2.2.1 zeroDisk (run_alloc_zeroDisk (r :=
      .blocks) hdisk (Nat.eq_zero_of_not_pos hzero))
  · have hdescriptor : Returns (getBlockGroupDescriptor sb g) :=
      returns_of_onlyFails (onlyFails_getBlockGroupDescriptor g)
    have hinode : Returns (allocInode sb g) :=
      returns_of_onlyFails (onlyFails_alloc (r := .inodes) hinodes g)
    by_cases hdisk : sb.firstDataBlock + 1 < sb.blocksCount
    · obtain ⟨hblocks, hslots⟩ := hfit hdisk
      exact ⟨returns_of_onlyFails (onlyFails_getExt2Inode hinodes hslots n), hdescriptor,
        returns_of_onlyFails (onlyFails_alloc (r := .blocks) hblocks g), hinode⟩
    · have hfail := getBlockGroupDescriptor_eq_fail hdisk
      refine ⟨returns_of_onlyFails ?_, hdescriptor, fun m e he => ?_, hinode⟩
      · refine .ite (fun _ => onlyFails_fail _) fun _ =>
          (onlyFails_divide hinodes).bind fun group => ?_
        refine Prog.OnlyFails.withLock ?_ _
        rw [hfail]
        exact onlyFails_fail _
      · have hgiven : (allocGivenGroup sb .blocks g).run m = .error (.err .notFound) m := by
          rw [allocGivenGroup]
          refine run_bind_error ?_
          rw [run_withLock, hfail]
          rfl
        rw [raisedError, allocBlock, alloc, run_withLock, run_bind_error hgiven] at he
        cases he
        exact ⟨_, rfl⟩

/-- A disk with twelve blocks in groups of eight. -/
theorem calls_return_small : Returns (allocBlock (smallSuperblock 12 8 (by decide)) 0) :=
  ((calls_return (smallSuperblock 12 8 (by decide))).mpr
    ⟨by decide, fun _ => ⟨by decide, by decide, by decide, by decide⟩⟩ 1 0).2.2.1

/-- A superblock with an inode size of zero. -/
def noInodeSize : Superblock := { smallSuperblock 12 8 (by decide) with inodeSize := 0 }

/-- An inode size of zero is accepted, and the lookup of the root divides by it. -/
theorem inodeSize_zero_panics :
    raisedError (getExt2Inode noInodeSize 2).run twoGroups = some .panic := by
  decide +kernel

end

/-! ## Searches -/

section

variable {sb : Superblock} {m : State} {inode : INode} {name : Name} {n i : ℕ}

lemma onlyLoads_readBlock (n : ℕ) : (readBlock sb n).OnlyLoads :=
  .ite (onlyLoads_throw _) (onlyLoads_load _)

/-- The way to a block of a file is only read. -/
lemma onlyLoads_blockTree (n : ℕ) : (blockTree sb n inode).OnlyLoads := by
  have hfrom : ∀ (path : TreePath) (k i : ℕ) (list : ℕ → ℕ),
    (blockTreeFrom sb path list i k).OnlyLoads := by
    intro path k
    induction k with
    | zero => exact fun i list => onlyLoads_pure _
    | succ k ih =>
      intro i list
      refine .ite (onlyLoads_pure _) ((onlyLoads_readBlock _).bind fun buffer => ?_)
      exact Prog.OnlyLoads.bind (.ite (onlyLoads_pure _) (onlyLoads_throw _)) fun next => ih _ _
  exact hfrom _ _ _ _

/-- Reading a block of a file writes nothing. -/
lemma onlyLoads_readBlock_node (n : ℕ) : (FNode.readBlock sb n inode).OnlyLoads := by
  refine Prog.OnlyLoads.bind (onlyLoads_blockTree n) fun tree => ?_
  cases tree ((blockTreeIndices sb n).depth - 1) with
  | zero => exact onlyLoads_pure _
  | succ b => exact onlyLoads_readBlock _

/-- A search for a name that has come to a place of a directory ends.  The place is the end, or its
block cannot be read, or there is a record that can be read.  Either this is the record with the
name, and then its inode can be found or not without a panic, or it has a length and the search ends
from the place behind it on. -/
inductive Walkable (sb : Superblock) (m : State) (inode : INode) (name : Name) : ℕ → Prop
  | done {p : ℕ} (hp : inode.data.fileSize ≤ p) : Walkable sb m inode name p
  | unreadable {p : ℕ} (h4 : p % 4 = 0) (e : FsError)
      (hb : (FNode.readBlock sb (p / sb.blockSize) inode).run m = .error (.err e) m) :
      Walkable sb m inode name p
  | found {p : ℕ} {b : Memory} (h4 : p % 4 = 0)
      (hb : (FNode.readBlock sb (p / sb.blockSize) inode).run m = .ok b m)
      (hok : RecordOk sb b (p % sb.blockSize)) (hname : Matches b (p % sb.blockSize) name)
      (hget : ∀ e, raisedError (getFnode sb (inodeAt b (p % sb.blockSize))).run m =
        some e → e.IsErr) :
      Walkable sb m inode name p
  | behind {p : ℕ} {b : Memory} (h4 : p % 4 = 0)
      (hb : (FNode.readBlock sb (p / sb.blockSize) inode).run m = .ok b m)
      (hok : RecordOk sb b (p % sb.blockSize)) (hname : ¬Matches b (p % sb.blockSize) name)
      (hpos : 0 < recLenAt b (p % sb.blockSize))
      (next : Walkable sb m inode name (p + recLenAt b (p % sb.blockSize))) :
      Walkable sb m inode name p

/-- Before the end a search that ends is at a multiple of four. -/
lemma Walkable.aligned (h : Walkable sb m inode name n) (hn : n < inode.data.fileSize) :
    n % 4 = 0 := by
  cases h with
  | done hp => omega
  | unreadable h4 => exact h4
  | found h4 => exact h4
  | behind h4 => exact h4

/-- Every round of a search goes at least four bytes on. -/
lemma searchScan_ends {s : Scan} {fuel : ℕ} {e : Stop} (hp : Walkable sb m inode name s.pointer)
    (hs : Fetched sb m inode s) (hfuel : (inode.data.fileSize - s.pointer + 3) / 4 < fuel)
    (h : raisedError (searchScan sb inode name fuel s).run m = some e) : e.IsErr := by
  induction fuel generalizing s with
  | zero => omega
  | succ fuel ih =>
    by_cases hin : s.pointer < inode.data.fileSize
    · have h4 := hp.aligned hin
      cases hp with
      | done hp => omega
      | unreadable _ e' hb =>
        have hfetch := (run_fetch hs).trans hb
        rw [searchScan, if_pos hin, if_neg (not_not.mpr h4), raisedError,
          run_bind_error hfetch] at h
        cases h
        exact ⟨e', rfl⟩
      | found _ hb hok hname hget =>
        rw [raisedError, (searchScan_round hin h4 ((run_fetch hs).trans hb) hok).1 hname] at h
        exact hget e h
      | @behind _ b _ hb hok hname hpos next =>
        rw [raisedError, (searchScan_round hin h4 ((run_fetch hs).trans hb) hok).2 hname] at h
        refine ih next (fetched_next hb _) ?_ h
        dsimp only
        -- the next place is the end or a multiple of four
        by_cases hend : s.pointer + recLenAt b (s.pointer % sb.blockSize) < inode.data.fileSize
        · have := next.aligned hend
          omega
        · omega
    · rw [raisedError, searchScan_end (by omega)] at h
      cases h
      exact ⟨_, rfl⟩

/-- A search stays at a record without a length. -/
lemma searchScan_stays {s : Scan} {b : Memory} (hs : Fetched sb m inode s)
    (hin : s.pointer < inode.data.fileSize)
    (h4 : s.pointer % 4 = 0) (hb :
      (FNode.readBlock sb (s.pointer / sb.blockSize) inode).run m = .ok b m)
    (hok : RecordOk sb b (s.pointer % sb.blockSize))
    (hname : ¬Matches b (s.pointer % sb.blockSize) name)
    (hzero : recLenAt b (s.pointer % sb.blockSize) = 0) (fuel : ℕ) :
    raisedError (searchScan sb inode name fuel s).run m = some .hang := by
  induction fuel generalizing s with
  | zero => rfl
  | succ fuel ih =>
    rw [raisedError, (searchScan_round hin h4 ((run_fetch hs).trans hb) hok).2 hname, hzero]
    exact ih (fetched_next hb _) hin h4 hb hok hname hzero

/-- A search that ends has come to records that can be read. -/
lemma walkable_of_searchScan {s : Scan} {fuel : ℕ} (hs : Fetched sb m inode s)
    (h : ∀ e, raisedError (searchScan sb inode name fuel s).run m = some e → e.IsErr) :
    Walkable sb m inode name s.pointer := by
  have hends :
    ∀ {fuel s}, (∀ e, raisedError (searchScan sb inode name fuel s).run m = some e → e.IsErr) →
      (searchScan sb inode name fuel s).run m ≠ .error .panic m := by
    intro fuel s h hpanic
    obtain ⟨e, he⟩ := h .panic (by rw [raisedError, hpanic])
    cases he
  induction fuel generalizing s with
  | zero =>
    obtain ⟨e, he⟩ := h .hang rfl
    cases he
  | succ fuel ih =>
    by_cases hin : s.pointer < inode.data.fileSize
    · have h4 : s.pointer % 4 = 0 := by
        by_contra hne
        refine hends h ?_
        rw [searchScan, if_pos hin, if_pos hne]
        rfl
      cases hread : (FNode.readBlock sb (s.pointer / sb.blockSize) inode).run m with
      | error e m' =>
        have hsame : finalState (FNode.readBlock sb (s.pointer / sb.blockSize) inode).run m = m :=
          (onlyLoads_readBlock_node _).finalState_eq m
        rw [finalState, hread] at hsame
        change m' = m at hsame
        subst hsame
        have hrun : (searchScan sb inode name (fuel + 1) s).run m' = .error e m' := by
          rw [searchScan, if_pos hin, if_neg (not_not.mpr h4),
            run_bind_error ((run_fetch hs).trans hread)]
        obtain ⟨e', rfl⟩ := h e (by rw [raisedError, hrun])
        exact .unreadable h4 e' hread
      | ok b m' =>
        have hsame : finalState (FNode.readBlock sb (s.pointer / sb.blockSize) inode).run m = m :=
          (onlyLoads_readBlock_node _).finalState_eq m
        rw [finalState_of_ok hread] at hsame
        subst hsame
        have hfetch := (run_fetch hs).trans hread
        have hok := recordOk_of_round hin h4 hfetch (hends h)
        by_cases hname : Matches b (s.pointer % sb.blockSize) name
        · refine .found h4 hread hok hname fun e he => h e ?_
          rw [raisedError, (searchScan_round hin h4 hfetch hok).1 hname]
          exact he
        · refine .behind h4 hread hok hname (Nat.pos_of_ne_zero fun hzero => ?_)
            (ih (fetched_next hread _) fun e he => ?_)
          · obtain ⟨e, he⟩ := h .hang (searchScan_stays hs hin h4 hread hok hname hzero _)
            cases he
          · refine h e ?_
            rw [raisedError, (searchScan_round hin h4 hfetch hok).2 hname]
            exact he
    · exact .done (by omega)

/-- **Searches end.**  A search in a directory returns or fails, after at most one round for every
four bytes and one more, exactly if it comes from the start of the directory to the end, to a block
that cannot be read or to the name. (The check that ends the loop is a unit of fuel of its own.) -/
theorem search_ends (sb : Superblock) (m : State) (h : ℕ) (name : Name)
    (hdir : (m.inode h).data.mode &&& 0xF000 = 0x4000) :
    ((∀ e, raisedError (search sb h name).run m = some e → e.IsErr) ∧
      ∀ fuel ≥ (m.inode h).data.fileSize / 4 + 1, ∀ e,
        raisedError (searchScan sb (m.inode h) name (fuel + 1) .start).run m = some e → e.IsErr) ↔
    Walkable sb m (m.inode h) name 0 := by
  refine ⟨fun hends => walkable_of_searchScan fetched_start (hends.2 _ le_rfl),
    fun hwalk => ⟨fun e he => ?_, fun fuel hfuel e he => ?_⟩⟩
  · rw [raisedError, search, run_withLock, run_bind_ok run_loadInode, run_ite,
      if_neg (not_not.mpr hdir)] at he
    exact searchScan_ends hwalk fetched_start (by change (_ - 0 + 3) / 4 < _; omega) he
  · exact searchScan_ends hwalk fetched_start (by change (_ - 0 + 3) / 4 < _; omega) he

/-- A directory of the given size with one block, and a node for it. -/
def oneBlockDirectory (size : ℕ) (content : Memory) : State
  | .block 5 => content
  | .block _ => fun _ => 0
  | .handle _ => ⟨2, ((INodeData.new 0x4000 2).withSize size).withBlock 0 5⟩

/-- A block with one record: the name `a` of inode 11. -/
def oneRecord : Memory := flatWrite (fun _ => 0) 0 [11, 0, 0, 0, 0, 4, 1, 1, 0x61]

/-- A search for another name. -/
theorem search_ends_one_record :
    raisedError (search (smallSuperblock 12 8 (by decide)) 0 dotName).run
      (oneBlockDirectory 1024 oneRecord) ≠
        some .hang := by
  have hread : (FNode.readBlock (smallSuperblock 12 8 (by decide)) (0 / 1024)
      ((oneBlockDirectory 1024 oneRecord).inode 0)).run (oneBlockDirectory 1024 oneRecord) =
        .ok oneRecord (oneBlockDirectory 1024 oneRecord) := rfl
  have hwalk : Walkable (smallSuperblock 12 8 (by decide)) (oneBlockDirectory 1024 oneRecord)
      ((oneBlockDirectory 1024 oneRecord).inode 0) dotName 0 := by
    refine .behind rfl hread ⟨by decide, fun _ => ⟨by decide, by decide⟩⟩
      (fun h => absurd h.2 (by decide))
      (by decide) (.done ?_)
    decide
  have hends :=
    (search_ends (smallSuperblock 12 8 (by decide)) (oneBlockDirectory 1024 oneRecord) 0 dotName
    (by decide)).mpr hwalk
  intro h
  obtain ⟨e, he⟩ := hends.1 _ h
  cases he

/-- With a record of length zero a search in a directory of eight bytes is not over after nine
rounds, and it is still where it was. -/
theorem search_hangs :
    raisedError (search (smallSuperblock 12 8 (by decide)) 0 dotName).run
      (oneBlockDirectory 8 fun _ => 0) =
        some .hang := by
  decide +kernel

end

end CabOS.Ext2
