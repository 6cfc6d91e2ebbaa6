import CabOS.Fs.Vfs
import CabOS.Library.FlatBytes
import CabOS.Library.LittleEndian
import CabOS.Library.Prog

/-!
# The blocks of an ext2 file system

A file system is on a disk of blocks.  The groups of blocks have descriptors with the numbers of
free blocks and inodes and with the blocks that hold the two bitmaps and the inodes of the group.
The records on the disk are the bytes that the kernel copies, so a record is a memory of which the
first bytes are used, and a field is a number at an offset.

The calls are programs of which every access to a block is one step, under the locks of the source.
What a node knows of its inode is a cell of its own, next to the blocks.  A call ends with a value
or with an error, or it panics, or it does not end at all.  Scratch buffers are not modelled: no
call reads from one what it has not put there.
-/

namespace CabOS

/-- The bytes of a memory from an offset on. -/
def viewAt (b : Memory) (offset : ℕ) : Memory := fun k => b (offset + k)

/-- The memory with the first `n` bytes of another one at an offset. -/
def putAt (b : Memory) (offset : ℕ) (src : Memory) (n : ℕ) : Memory := fun k =>
  if offset ≤ k ∧ k < offset + n then src (k - offset) else b k

/-- A bit of a memory, from the least significant bit of the first byte on. -/
def bitAt (b : Memory) (i : ℕ) : Bool := (b (i / 8)).toNat.testBit (i % 8)

/-- Set a bit. -/
def setBit (b : Memory) (i : ℕ) : Memory :=
  Function.update b (i / 8) (b (i / 8) ||| 1 <<< UInt8.ofNat (i % 8))

/-- The number of bits among the first `n` that are not set. -/
def zeros (b : Memory) (n : ℕ) : ℕ := (List.range n).countP fun i => !bitAt b i

namespace Ext2

/-! ## Records -/

/-- The fields of the superblock that are used.  `new_from_block_devices` takes only a disk with
blocks of at most 4096 bytes, and the counts have 32 bits. -/
structure Superblock where
  inodesCount : ℕ
  blocksCount : ℕ
  firstDataBlock : ℕ
  logBlockSize : ℕ
  blocksPerGroup : ℕ
  inodesPerGroup : ℕ
  inodeSize : ℕ
  logBlockSize_le : logBlockSize ≤ 2
  inodesCount_lt : inodesCount < 2 ^ 32
  blocksCount_lt : blocksCount < 2 ^ 32
  deriving DecidableEq, Repr

/-- The number of bytes of a block. -/
def Superblock.blockSize (sb : Superblock) : ℕ := 1024 <<< sb.logBlockSize

/-- The record of an inode: 128 bytes. -/
abbrev INodeData := Memory

namespace INodeData

def size : ℕ := 128

def mode (data : INodeData) : ℕ := readLE data 0 2

def fileSize (data : INodeData) : ℕ := readLE data 4 4

/-- One of the 15 slots for the numbers of blocks. -/
def block (data : INodeData) (i : ℕ) : ℕ := readLE data (40 + 4 * i) 4

def withSize (data : INodeData) (size : ℕ) : INodeData := writeLE data 4 4 size

def withBlock (data : INodeData) (i number : ℕ) : INodeData := writeLE data (40 + 4 * i) 4 number

/-- The record of a new inode: all other fields are zero. -/
def new (mode linksCount : ℕ) : INodeData := writeLE (writeLE (fun _ => 0) 0 2 mode) 26 2 linksCount

end INodeData

/-- An inode with its number. -/
structure INode where
  number : ℕ
  data : INodeData

/-- The descriptor of a group: 18 bytes. -/
abbrev BlockGroupDescriptor := Memory

namespace BlockGroupDescriptor

def size : ℕ := 18

def blockBitmap (bgd : BlockGroupDescriptor) : ℕ := readLE bgd 0 4

def inodeBitmap (bgd : BlockGroupDescriptor) : ℕ := readLE bgd 4 4

def inodeTable (bgd : BlockGroupDescriptor) : ℕ := readLE bgd 8 4

def freeBlocksCount (bgd : BlockGroupDescriptor) : ℕ := readLE bgd 12 2

end BlockGroupDescriptor

/-! ## Programs on blocks -/

/-- The ways a call ends without a value. -/
inductive Stop where
  | err (e : FsError)
  | panic
  /-- A loop does not end. -/
  | hang
  deriving DecidableEq, Repr

/-- What a step reads or writes: a block of the disk, or the inode that a node keeps. -/
inductive Cell where
  | block (n : ℕ)
  | handle (h : ℕ)
  deriving DecidableEq, Repr

/-- What a cell holds. -/
def Cell.Content : Cell → Type
  | .block _ => Memory
  | .handle _ => INode

/-- The locks of the file system and of its nodes. -/
inductive Lock where
  | blockMap
  | inodeMap
  | group
  | handle (h : ℕ)
  deriving DecidableEq, Repr

/-- A call. -/
abbrev FsProg (α : Type) := Prog Cell Cell.Content Lock Stop α

/-- The blocks of the disk and the inodes of the nodes. -/
abbrev State := (c : Cell) → c.Content

/-- The blocks of the disk. -/
def State.disk (m : State) (n : ℕ) : Memory := m (.block n)

/-- The inode that a node keeps. -/
def State.inode (m : State) (h : ℕ) : INode := m (.handle h)

/-- Load a block. -/
def loadBlock (number : ℕ) : FsProg Memory := Prog.load (Cell.block number)

/-- Store a block. -/
def storeBlock (number : ℕ) (buffer : Memory) : FsProg Unit := Prog.store (Cell.block number) buffer

/-- Load the inode that a node keeps. -/
def loadInode (h : ℕ) : FsProg INode := Prog.load (Cell.handle h)

/-- Store the inode that a node keeps. -/
def storeInode (h : ℕ) (inode : INode) : FsProg Unit := Prog.store (Cell.handle h) inode

/-- An error. -/
def fail {α : Type} (e : FsError) : FsProg α := Prog.throw (.err e)

/-- A failed assertion, or an access outside a buffer. -/
def panic {α : Type} : FsProg α := Prog.throw .panic

/-- A quotient; a division by zero panics. -/
def divide (a b : ℕ) : FsProg ℕ := if b = 0 then panic else pure (a / b)

variable (sb : Superblock)

/-- The number in `n` bytes of a buffer of one block. -/
def field (buffer : Memory) (offset n : ℕ) : FsProg ℕ :=
  if offset + n ≤ sb.blockSize then pure (readLE buffer offset n) else panic

/-- A buffer of one block with a number in `n` bytes. -/
def putField (buffer : Memory) (offset n v : ℕ) : FsProg Memory :=
  if offset + n ≤ sb.blockSize then pure (writeLE buffer offset n v) else panic

/-- `read_block` of the file system, on a disk that does not fail. -/
def readBlock (number : ℕ) : FsProg Memory :=
  if number ≥ sb.blocksCount then fail .notFound else loadBlock number

/-- `write_block` of the file system, on a disk that does not fail. -/
def writeBlock (number : ℕ) (buffer : Memory) : FsProg Unit :=
  if number ≥ sb.blocksCount then fail .notFound else storeBlock number buffer

/-- A descriptor that was read: the record, its offset and its block, and the buffer with the block.
-/
structure Descriptor where
  bgd : BlockGroupDescriptor
  offset : ℕ
  block : ℕ
  buffer : Memory

/-- The block of the descriptor of a group. -/
def bgdBlock (group : ℕ) : ℕ := sb.firstDataBlock + 1 + group / (sb.blockSize / 32)

/-- The offset of the descriptor of a group in its block. -/
def bgdOffset (group : ℕ) : ℕ := group % (sb.blockSize / 32) * 32

/-- `get_block_group_descriptor` -/
def getBlockGroupDescriptor (group : ℕ) : FsProg Descriptor := do
  let buffer ← readBlock sb (bgdBlock sb group)
  if bgdOffset sb group + BlockGroupDescriptor.size ≤ sb.blockSize then
    return ⟨viewAt buffer (bgdOffset sb group), bgdOffset sb group, bgdBlock sb group, buffer⟩
  else
    panic

/-! ## Free blocks and inodes -/

/-- What has a bitmap in every group. -/
inductive Resource where
  | blocks
  | inodes
  deriving DecidableEq, Repr

namespace Resource

/-- The lock for the bitmaps. -/
def lock : Resource → Lock
  | blocks => .blockMap
  | inodes => .inodeMap

/-- Where the number of free ones is in a descriptor. -/
def countOffset : Resource → ℕ
  | blocks => 12
  | inodes => 14

/-- The number of free ones in a group. -/
def count (r : Resource) (bgd : BlockGroupDescriptor) : ℕ := readLE bgd r.countOffset 2

/-- The block with the bitmap of a group. -/
def bitmap : Resource → BlockGroupDescriptor → ℕ
  | blocks => BlockGroupDescriptor.blockBitmap
  | inodes => BlockGroupDescriptor.inodeBitmap

/-- The number that belongs to the first bit of the first group. -/
def first : Resource → Superblock → ℕ
  | blocks => Superblock.firstDataBlock
  | inodes => fun _ => 1

/-- How many a group has. -/
def perGroup : Resource → Superblock → ℕ
  | blocks => Superblock.blocksPerGroup
  | inodes => Superblock.inodesPerGroup

/-- How many there are. -/
def total : Resource → Superblock → ℕ
  | blocks => Superblock.blocksCount
  | inodes => Superblock.inodesCount

/-- The text of the error for a bitmap without the free entry that the descriptor has promised. -/
def corrupted : Resource → String
  | blocks => "block bitmap reports free entries but none were found"
  | inodes => "inode bitmap reports free entries but none were found"

end Resource

/-- The first bit of a block that is not set, found by words, bytes and bits. -/
def firstZeroInBitmap (bitmap : Memory) : Option ℕ :=
  (List.range (sb.blockSize / 8)).findSome? fun i =>
    if readLE bitmap (i * 8) 8 = 2 ^ 64 - 1 then none
    else (List.range 8).findSome? fun j =>
      if bitmap (i * 8 + j) = 0xff then none
      else (List.range 8).findSome? fun k =>
        if (bitmap (i * 8 + j)).toNat.testBit k then none else some (k + 8 * j + 64 * i)

/-- Write a descriptor back with another number of free entries. -/
def writeCount (r : Resource) (d : Descriptor) (count : ℕ) : FsProg Unit :=
  writeBlock sb d.block (putAt d.buffer d.offset (writeLE d.bgd r.countOffset 2 count)
    BlockGroupDescriptor.size)

/-- Take an entry of a group, if the descriptor has one. -/
def allocGivenGroup (r : Resource) (group : ℕ) : FsProg (Option ℕ) := do
  let bitmap ← Prog.withLock .group do
    let d ← getBlockGroupDescriptor sb group
    if r.count d.bgd = 0 then
      return none
    writeCount sb r d (r.count d.bgd - 1)
    return some (r.bitmap d.bgd)
  match bitmap with
  | none => return none
  | some bitmap =>
    let buffer ← readBlock sb bitmap
    match firstZeroInBitmap sb buffer with
    | some i =>
      writeBlock sb bitmap (setBit buffer i)
      return some (r.first sb + i + group * r.perGroup sb)
    | none => fail (.corrupted r.corrupted)

/-- Try the groups of a list, but not the preferred one. -/
def allocFromGroups (r : Resource) (preferredGroup : ℕ) : List ℕ → FsProg ℕ
  | [] => fail .noSpace
  | group :: groups => do
    if group = preferredGroup then
      allocFromGroups r preferredGroup groups
    else
      match ← allocGivenGroup sb r group with
      | some b => return b
      | none => allocFromGroups r preferredGroup groups

/-- Take an entry, from the preferred group if it has one. -/
def alloc (r : Resource) (preferredGroup : ℕ) : FsProg ℕ := Prog.withLock r.lock do
  match ← allocGivenGroup sb r preferredGroup with
  | some b => return b
  | none =>
    let groups ← divide (r.total sb) (r.perGroup sb)
    allocFromGroups sb r preferredGroup (List.range groups)

/-- `alloc_block` -/
def allocBlock (preferredGroup : ℕ) : FsProg ℕ := alloc sb .blocks preferredGroup

/-- `alloc_inode` -/
def allocInode (preferredGroup : ℕ) : FsProg ℕ := alloc sb .inodes preferredGroup

/-! ## Inodes on the disk -/

/-- An inode that was read: its record, its block and its offset there, and the buffer with the
block. -/
structure Slot where
  data : INodeData
  block : ℕ
  offset : ℕ
  buffer : Memory

/-- `get_ext2_inode`; the number has 32 bits. -/
def getExt2Inode (inumber : ℕ) : FsProg Slot := do
  if inumber % 2 ^ 32 = 0 then
    fail .invalidInput
  else
    let group ← divide (inumber % 2 ^ 32 - 1) sb.inodesPerGroup
    Prog.withLock .group do
      let d ← getBlockGroupDescriptor sb group
      let inodesPerBlock ← divide sb.blockSize sb.inodeSize
      let index := (inumber % 2 ^ 32 - 1) % sb.inodesPerGroup
      let quotient ← divide index inodesPerBlock
      let block := d.bgd.inodeTable + quotient
      let buffer ← readBlock sb block
      let offset := index % inodesPerBlock * sb.inodeSize
      if offset + INodeData.size ≤ sb.blockSize then
        return ⟨viewAt buffer offset, block, offset, buffer⟩
      else
        panic

/-- `get_fnode`: the inode of a new node. -/
def getFnode (inumber : ℕ) : FsProg INode := do
  let slot ← getExt2Inode sb inumber
  return ⟨inumber % 2 ^ 32, slot.data⟩

end Ext2

end CabOS
