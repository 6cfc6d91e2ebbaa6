import CabOS.Arch.Paging
import CabOS.Library.Exec
import CabOS.Library.TableTree
import CabOS.Library.Word

/-!
# AArch64 page tables

A page table has 512 entries of 64 bits; four levels of tables translate an address.  `vmap` enters
a page and makes the missing tables on its path, `vunmapInternal` clears the entry of a page and
gives back the tables that have become empty, and `getPhysAddr` translates an address.

Tables are named by their physical address.  The frames that can be handed out form a list; the
first word of a frame on the list is a link to the next one.
-/

namespace CabOS.AArch64

open TableTree

/-- The bits of an entry that hold a physical address. -/
def pteAddrMask : BitVec 64 := 0x0000FFFFFFFFF000#64

/-- The number of entries of a table. -/
abbrev ptePerPage : ℕ := 512

instance : NeZero ptePerPage := ⟨by decide⟩

namespace PageTableEntryFlags

/-- The entry is valid. -/
def valid : BitVec 64 := 1#64 <<< 0

/-- The entry points to a table, or on the last level to a page. -/
def table : BitVec 64 := 1#64 <<< 1

/-- Cacheable memory. -/
def normalMemoryCacheable : BitVec 64 := 0b00#64 <<< 2

/-- Memory that is not cached. -/
def normalMemoryNonCacheable : BitVec 64 := 0b01#64 <<< 2

/-- Device memory. -/
def deviceMemory : BitVec 64 := 0b10#64 <<< 2

/-- The kernel can read and write. -/
def rwEl1 : BitVec 64 := 0b00#64 <<< 6

/-- Programs can read and write. -/
def rwEl0 : BitVec 64 := 0b01#64 <<< 6

/-- The kernel can read. -/
def roEl1 : BitVec 64 := 0b10#64 <<< 6

/-- Programs can read. -/
def roEl0 : BitVec 64 := 0b11#64 <<< 6

/-- The access flag. -/
def af : BitVec 64 := 1#64 <<< 10

/-- Programs cannot execute. -/
def uxn : BitVec 64 := 1#64 <<< 54

/-- The kernel cannot execute. -/
def pxn : BitVec 64 := 1#64 <<< 53

end PageTableEntryFlags

open PageTableEntryFlags in
/-- The attribute bits of an entry. -/
def createAarch64Attributes (options : PagingOptions) : BitVec 64 :=
  af |||
  (if hasFlags options PagingOptions.present then valid ||| table else 0) |||
  (if hasFlags options PagingOptions.writable ∧ hasFlags options PagingOptions.userAccessible then
    rwEl0
  else if hasFlags options PagingOptions.writable then rwEl1
  else if hasFlags options PagingOptions.userAccessible then roEl0
  else roEl1) |||
  (if !hasFlags options PagingOptions.executable then uxn ||| pxn else 0) |||
  (if hasFlags options PagingOptions.deviceMemory then deviceMemory
  else if hasFlags options PagingOptions.cacheable then normalMemoryCacheable
  else normalMemoryNonCacheable)

/-- The entries of all tables, by the address of the table. -/
abbrev TableMem := BitVec 64 → Fin ptePerPage → BitVec 64

/-- The memory that holds the tables, and the free frames. -/
structure Vmm where
  /-- The entries of the tables. -/
  mem : TableMem
  /-- The frames that can be handed out. -/
  free : List (BitVec 64)

/-- The ways the frame allocator does not return. -/
inductive FrameFault where
  | waiting
  | unaligned
  deriving DecidableEq, Repr

/-- Hand out a frame; without one the allocator waits. -/
def frameAlloc : EStateM FrameFault Vmm (BitVec 64) := do
  let s ← get
  match s.free with
  | [] => throw .waiting
  | frame :: free =>
    if frame &&& 0xFFF#64 ≠ 0 then throw .unaligned
    set { s with free := free }
    pure frame

/-- Take a frame back; its first word becomes the link to the next free frame. -/
def frameDealloc (frame : BitVec 64) : EStateM FrameFault Vmm Unit := do
  if frame &&& 0xFFF#64 ≠ 0 then throw .unaligned
  modify fun s =>
    { mem := write s.mem frame 0 (s.free.headD (BitVec.allOnes 64)), free := frame :: s.free }

/-- Change an entry. -/
def writeEntry (t : BitVec 64) (i : Fin ptePerPage) (e : BitVec 64) :
    EStateM FrameFault Vmm Unit :=
  modify fun s => { s with mem := write s.mem t i e }

/-- Clear a table. -/
def zeroTable (t : BitVec 64) : EStateM FrameFault Vmm Unit :=
  modify fun s => { s with mem := fill s.mem t 0 }

/-- The index of an address at the level whose indices start at bit `shift`. -/
def index (vaddr : BitVec 64) (shift : ℕ) : Fin ptePerPage :=
  ⟨((vaddr >>> shift) &&& 0x1FF#64).toNat, by
    rw [BitVec.toNat_and]
    exact lt_of_le_of_lt Nat.and_le_right (by decide)⟩

/-- The index into the root table. -/
def index0 (vaddr : BitVec 64) : Fin ptePerPage := index vaddr 39

/-- The index into the table of level 1. -/
def index1 (vaddr : BitVec 64) : Fin ptePerPage := index vaddr 30

/-- The index into the table of level 2. -/
def index2 (vaddr : BitVec 64) : Fin ptePerPage := index vaddr 21

/-- The index into the table of level 3. -/
def index3 (vaddr : BitVec 64) : Fin ptePerPage := index vaddr 12

/-- The root table of an address space. -/
def rootOf (space : BitVec 64) : BitVec 64 := space &&& ~~~0xFFF#64

/-- The physical address that an address is translated to. -/
def getPhysAddr (mem : TableMem) (vaddr space : BitVec 64) : Option (BitVec 64) :=
  let l0 := mem (rootOf space)
  if l0 (index0 vaddr) &&& 0b11 ≠ 0b11 then none
  else
    let l1 := mem (l0 (index0 vaddr) &&& pteAddrMask)
    if l1 (index1 vaddr) &&& 0b11 ≠ 0b11 then none
    else
      let l2 := mem (l1 (index1 vaddr) &&& pteAddrMask)
      if l2 (index2 vaddr) &&& 0b11 ≠ 0b11 then none
      else
        let l3 := mem (l2 (index2 vaddr) &&& pteAddrMask)
        if l3 (index3 vaddr) &&& 0b1 = 0 then none
        else some ((l3 (index3 vaddr) &&& pteAddrMask) ||| (vaddr &&& 0xFFF#64))

/-- The table that an entry points to, which is made if there is none. -/
def ensureNextTable (t : BitVec 64) (i : Fin ptePerPage) : EStateM FrameFault Vmm (BitVec 64) := do
  let s ← get
  if s.mem t i &&& 0b11 = 0 then
    let newTablePhys ← frameAlloc
    zeroTable newTablePhys
    writeEntry t i ((newTablePhys &&& pteAddrMask) ||| 0b11)
  let s ← get
  pure (s.mem t i &&& pteAddrMask)

/-- Map a page. -/
def vmap (space vaddr paddr : BitVec 64) (options : PagingOptions) : EStateM FrameFault Vmm Unit :=
  do
  let l1 ← ensureNextTable (rootOf space) (index0 vaddr)
  let l2 ← ensureNextTable l1 (index1 vaddr)
  let l3 ← ensureNextTable l2 (index2 vaddr)
  writeEntry l3 (index3 vaddr) ((paddr &&& pteAddrMask) ||| createAarch64Attributes options)

/-- Some entry of the table is valid. -/
def inUse (mem : TableMem) (t : BitVec 64) : Bool :=
  decide (∃ i, mem t i &&& 0b11 ≠ 0)

/-- Clear the entry that points to a table and give the table back. -/
def detachTable (t : BitVec 64) (i : Fin ptePerPage) (child : BitVec 64) :
    EStateM FrameFault Vmm Unit := do
  writeEntry t i 0
  frameDealloc child

/-- Give back the tables on the path of an address that have become empty, from the last level up.
-/
def freeUnusedTables (vaddr l0 l1 l2 l3 : BitVec 64) : EStateM FrameFault Vmm Unit := do
  let s ← get
  if inUse s.mem l3 then
    return
  detachTable l2 (index2 vaddr) l3
  let s ← get
  if inUse s.mem l2 then
    return
  detachTable l1 (index1 vaddr) l2
  let s ← get
  if inUse s.mem l1 then
    return
  detachTable l0 (index0 vaddr) l1

/-- Unmap a page and return the physical address that it was mapped to, if it was mapped. -/
def vunmapInternal (space vaddr : BitVec 64) (freeFrame : Bool) :
    EStateM FrameFault Vmm (Option (BitVec 64)) := do
  let s ← get
  let l0 := rootOf space
  if s.mem l0 (index0 vaddr) &&& 0b11 ≠ 0b11 then
    return none
  let l1 := s.mem l0 (index0 vaddr) &&& pteAddrMask
  if s.mem l1 (index1 vaddr) &&& 0b11 ≠ 0b11 then
    return none
  let l2 := s.mem l1 (index1 vaddr) &&& pteAddrMask
  if s.mem l2 (index2 vaddr) &&& 0b11 ≠ 0b11 then
    return none
  let l3 := s.mem l2 (index2 vaddr) &&& pteAddrMask
  if s.mem l3 (index3 vaddr) &&& 0b11 = 0 then
    return none
  let paddr := s.mem l3 (index3 vaddr) &&& pteAddrMask
  writeEntry l3 (index3 vaddr) 0
  freeUnusedTables vaddr l0 l1 l2 l3
  if freeFrame then
    frameDealloc paddr
  return some paddr

/-- Unmap a page and give its frame back. -/
def vunmap (space vaddr : BitVec 64) : EStateM FrameFault Vmm (Option (BitVec 64)) :=
  vunmapInternal space vaddr true

/-- Unmap a page and keep its frame. -/
def vunmapNoDealloc (space vaddr : BitVec 64) : EStateM FrameFault Vmm (Option (BitVec 64)) :=
  vunmapInternal space vaddr false

end CabOS.AArch64
