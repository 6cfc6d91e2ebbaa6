import CabOS.Fs.Ext2.Disk
import CabOS.Fs.Mounts

/-!
# Nodes of an ext2 file system

A node keeps a copy of its inode, which has the numbers of twelve blocks and of three blocks with
further numbers, one, two and three levels deep.  Blocks are read and written through this tree, and
missing ones are added on the way.  A directory is a file of records; a record is followed by the
next one after `rec_len` bytes.

Every call of a node is under the lock of the node.
-/

namespace CabOS.Ext2

open Function

variable (sb : Superblock)

/-! ## Blocks of a file -/

/-- Where a block of a file is in the tree: the indices on the way and their number. -/
structure TreePath where
  indices : ℕ → ℕ
  depth : ℕ

/-- The four indices of a path. -/
def fourIndices (a b c d : ℕ) : ℕ → ℕ
  | 0 => a
  | 1 => b
  | 2 => c
  | 3 => d
  | _ => 0

/-- `block_tree_indices`, for blocks of any size -/
def treePath (blockSize blockNumber : ℕ) : TreePath :=
  if blockNumber < 12 then ⟨fourIndices blockNumber 0 0 0, 1⟩
  else
    let bpb := blockSize / 4
    let blockNumber := blockNumber - 12
    if blockNumber < bpb then ⟨fourIndices 12 blockNumber 0 0, 2⟩
    else
      let blockNumber := blockNumber - bpb
      if blockNumber < bpb * bpb then ⟨fourIndices 13 (blockNumber / bpb) (blockNumber % bpb) 0, 3⟩
      else
        let blockNumber := blockNumber - bpb * bpb
        ⟨fourIndices 14 (blockNumber / (bpb * bpb)) (blockNumber / bpb % bpb)
          (blockNumber % (bpb * bpb)), 4⟩

/-- `block_tree_indices` -/
def blockTreeIndices (blockNumber : ℕ) : TreePath := treePath sb.blockSize blockNumber

/-- Follow the numbers in the blocks of a path from level `i` on, for `n` levels; behind a zero all
are zero. -/
def blockTreeFrom (path : TreePath) (list : ℕ → ℕ) (i : ℕ) : ℕ → FsProg (ℕ → ℕ)
  | 0 => return list
  | n + 1 => do
    if list (i - 1) = 0 then
      return list
    else
      let buffer ← readBlock sb (list (i - 1))
      let next ← field sb buffer (path.indices i * 4) 4
      blockTreeFrom path (update list i next) (i + 1) n

/-- `block_tree`: the numbers of the blocks on the way to a block of a file. -/
def blockTree (blockNumber : ℕ) (inode : INode) : FsProg (ℕ → ℕ) :=
  let path := blockTreeIndices sb blockNumber
  let list := update (fun _ => 0) 0 (inode.data.block (path.indices 0))
  blockTreeFrom sb path list 1 (path.depth - 1)

/-- `read_block` of a node: a block that is not there is all zeros. -/
def FNode.readBlock (blockNumber : ℕ) (inode : INode) : FsProg Memory := do
  let tree ← blockTree sb blockNumber inode
  match tree ((blockTreeIndices sb blockNumber).depth - 1) with
  | 0 => return fun _ => 0
  | b => Ext2.readBlock sb b

/-- `update_inode`: write an inode to the disk and keep it. -/
def updateInode (h : ℕ) (inode : INode) : FsProg Unit := do
  let old ← loadInode h
  let slot ← getExt2Inode sb old.number
  Ext2.writeBlock sb slot.block (putAt slot.buffer slot.offset inode.data INodeData.size)
  storeInode h inode

/-- The step of `write_block` at one level of the tree: add a block if there is none. -/
def addLevel (h : ℕ) (path : TreePath) (newSize : Option ℕ) (preferredGroup : ℕ)
    (tree : ℕ → ℕ) (i : ℕ) :
    FsProg (ℕ → ℕ) := do
  if ¬(tree i = 0 ∨ (i = 0 ∧ newSize.isSome)) then
    return tree
  else
    let b ← allocBlock sb preferredGroup
    if i = 0 then
      let inode ← loadInode h
      let data :=
        (inode.data.withSize (newSize.getD inode.data.fileSize)).withBlock (path.indices i) b
      updateInode sb h ⟨inode.number, data⟩
    else
      let buffer ← putField sb (fun _ => 0) (path.indices i * 4) 4 b
      Ext2.writeBlock sb (tree (i - 1)) buffer
    return update tree i b

/-- `write_block` of a node -/
def FNode.writeBlock (h blockNumber : ℕ) (buffer : Memory) (newSize : Option ℕ)
    (preferredGroup : ℕ) : FsProg Unit := do
  let inode ← loadInode h
  let path := blockTreeIndices sb blockNumber
  let tree ← blockTree sb blockNumber inode
  let tree ← (List.range path.depth).foldlM (addLevel sb h path newSize preferredGroup) tree
  Ext2.writeBlock sb (tree (path.depth - 1)) buffer

/-! ## Files -/

/-- One block of `read_unaligned`, and the rest, after the bytes that were read before. -/
def readLoop (inode : INode) (offset len : ℕ) : ℕ → List UInt8 → FsProg (List UInt8)
  | 0, read => return read
  | fuel + 1, read => do
    if read.length < len ∧ offset + read.length < inode.data.fileSize then
      let filePos := offset + read.length
      let blockOffset := filePos % sb.blockSize
      let scratch ← FNode.readBlock sb (filePos / sb.blockSize) inode
      -- at most the rest of the buffer, of the block and of the file
      let toCopy := min (min (len - read.length) (sb.blockSize - blockOffset))
        (inode.data.fileSize - filePos)
      readLoop inode offset len fuel (read ++ flatRead scratch blockOffset toCopy)
    else
      return read

/-- `read_unaligned`, into a buffer of `len` bytes -/
def readUnaligned (h offset len : ℕ) : FsProg (List UInt8) := Prog.withLock (.handle h) do
  let inode ← loadInode h
  if inode.data.fileSize ≤ offset then
    return []
  else
    readLoop sb inode offset len len []

/-- Grow the size of a file to the end of what was written. -/
def growSize (h newEnd : ℕ) : FsProg Unit := do
  let inode ← loadInode h
  let newSize := max inode.data.fileSize newEnd
  if newSize ≠ inode.data.fileSize then
    updateInode sb h ⟨inode.number, inode.data.withSize newSize⟩
  else
    return ()

/-- One block of `write_unaligned`, and the rest. -/
def writeLoop (h offset : ℕ) (buffer : List UInt8) : ℕ → ℕ → FsProg Unit
  | 0, _ => return ()
  | fuel + 1, written => do
    if written < buffer.length then
      let filePos := offset + written
      let inode ← loadInode h
      let scratch ← FNode.readBlock sb (filePos / sb.blockSize) inode
      let toCopy := min (buffer.length - written) (sb.blockSize - filePos % sb.blockSize)
      let scratch := flatWrite scratch (filePos % sb.blockSize) (slice buffer written toCopy)
      FNode.writeBlock sb h (filePos / sb.blockSize) scratch none 0
      writeLoop h offset buffer fuel (written + toCopy)
    else
      return ()

/-- `write_unaligned` -/
def writeUnaligned (h offset : ℕ) (buffer : List UInt8) : FsProg ℕ := Prog.withLock (.handle h) do
  writeLoop sb h offset buffer buffer.length 0
  growSize sb h (offset + buffer.length)
  return buffer.length

/-- One block of `write_page`, and the rest: a block that is written as a whole is not read. -/
def writePageLoop (h offset preferredGroup : ℕ) (page : List UInt8) : ℕ → ℕ → FsProg Unit
  | 0, _ => return ()
  | fuel + 1, written => do
    if written < pageSize then
      let filePos := offset + written
      let blockOffset := filePos % sb.blockSize
      let chunkLen := min (pageSize - written) (sb.blockSize - blockOffset)
      let chunk := slice page written chunkLen
      if blockOffset = 0 ∧ chunkLen = sb.blockSize then
        FNode.writeBlock sb h (filePos / sb.blockSize) (flatWrite (fun _ => 0) 0 chunk) none
          preferredGroup
      else
        let inode ← loadInode h
        let scratch ← FNode.readBlock sb (filePos / sb.blockSize) inode
        FNode.writeBlock sb h (filePos / sb.blockSize) (flatWrite scratch blockOffset chunk) none
          preferredGroup
      writePageLoop h offset preferredGroup page fuel (written + chunkLen)
    else
      return ()

/-- `write_page`, from a page with the given bytes -/
def writePage (h : ℕ) (page : List UInt8) (offset : ℕ) : FsProg ℕ := Prog.withLock (.handle h) do
  let inode ← loadInode h
  let preferredGroup ← divide (inode.number - 1) sb.inodesPerGroup
  writePageLoop sb h offset preferredGroup page pageSize 0
  growSize sb h (offset + pageSize)
  return pageSize

/-- `size` -/
def size (h : ℕ) : FsProg ℕ := Prog.withLock (.handle h) do
  let inode ← loadInode h
  return inode.data.fileSize

/-! ## Directories -/

/-- The bytes are the text of some characters, as `from_utf8` checks it. -/
def validUtf8 (bytes : List UInt8) : Bool := bytes.toByteArray.validateUTF8

/-- A text, by its bytes. -/
structure Name where
  bytes : List UInt8
  valid : validUtf8 bytes = true
  deriving DecidableEq

/-- The text in `n` bytes of a buffer of one block. -/
def textField (buffer : Memory) (offset n : ℕ) : FsProg (List UInt8) :=
  if offset + n ≤ sb.blockSize then
    let text := flatRead buffer offset n
    if validUtf8 text then pure text else panic
  else panic

/-- Where a scan of a directory is: the record, and the block that was fetched last. -/
structure Scan where
  pointer : ℕ
  lastFetchedBlock : ℕ
  buffer : Memory

/-- A scan starts without a block. -/
def Scan.start : Scan := ⟨0, 1, fun _ => 0⟩

/-- Fetch the block of the next record, if it is not there. -/
def fetch (inode : INode) (s : Scan) : FsProg Memory :=
  if s.pointer / sb.blockSize ≠
    s.lastFetchedBlock then FNode.readBlock sb (s.pointer / sb.blockSize) inode
  else pure s.buffer

/-- The loop of `search`.  It does not check that a record has a length, and without one it does not
end. -/
def searchScan (inode : INode) (fileName : Name) : ℕ → Scan → FsProg INode
  | 0, _ => Prog.throw .hang
  | fuel + 1, s => do
    if s.pointer < inode.data.fileSize then
      if s.pointer % 4 ≠ 0 then
        panic
      else
        let buffer ← fetch sb inode s
        let offset := s.pointer % sb.blockSize
        let inumber ← field sb buffer offset 4
        let recLen ← field sb buffer (offset + 4) 2
        let nameLen ← field sb buffer (offset + 6) 1
        if inumber ≠ 0 then
          let name ← textField sb buffer (offset + 8) nameLen
          if name = fileName.bytes then
            getFnode sb inumber
          else
            searchScan inode fileName fuel ⟨s.pointer + recLen, s.pointer / sb.blockSize, buffer⟩
        else
          searchScan inode fileName fuel ⟨s.pointer + recLen, s.pointer / sb.blockSize, buffer⟩
    else
      fail .notFound

/-- `search`: the inode of the node that is found. -/
def search (h : ℕ) (fileName : Name) : FsProg INode := Prog.withLock (.handle h) do
  let inode ← loadInode h
  if inode.data.mode &&& 0xF000 ≠ 0x4000 then
    fail .invalidInput
  else
    searchScan sb inode fileName (inode.data.fileSize + 1) .start

/-- The name of a directory in itself. -/
def dotName : Name := ⟨[0x2E], by decide⟩

end CabOS.Ext2
