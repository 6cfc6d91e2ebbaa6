import CabOS.Arch.Paging
import CabOS.Library.LittleEndian
import CabOS.Library.Word

/-!
# The buddy allocator of the heap

`BuddyPageAllocator` hands out blocks of `2 ^ order` pages.  The free blocks of an order form a
doubly linked list that lives in the blocks themselves: the first bytes of a free block are a
`FreeBlockNode` with a tag, the order and the links.  The code reaches a node through the direct map
at `phys + hhdm_offset`; memory is indexed by physical addresses here, so the offset does not
appear.
-/

namespace CabOS

open Function

/-- The largest order of a block. -/
def maxOrder : ℕ := 18

/-- The end mark of a free list. -/
@[irreducible] def buddyNone : ℕ := 2 ^ 64 - 1

lemma buddyNone_eq : buddyNone = 2 ^ 64 - 1 := by
  rw [buddyNone]

/-- The tag of a block on a free list. -/
def buddyFreeMagic : ℕ := 0xBDDFFACE

/-- The number of regions that the allocator can hold. -/
def maxRegions : ℕ := 256

/-- The first bytes of a free block. -/
structure FreeBlockNode where
  /-- `buddyFreeMagic` on a free list. -/
  magic : ℕ
  /-- The order the block is free at. -/
  order : ℕ
  /-- The next block of the list. -/
  next : ℕ
  /-- The previous block of the list. -/
  prev : ℕ
  deriving DecidableEq, Repr

namespace FreeBlockNode

/-- The node at an address. -/
def read (mem : Memory) (p : ℕ) : FreeBlockNode where
  magic := readLE mem p 4
  order := readLE mem (p + 4) 4
  next := readLE mem (p + 8) 8
  prev := readLE mem (p + 16) 8

/-- Write the tag of a node. -/
def setMagic (mem : Memory) (p v : ℕ) : Memory := writeLE mem p 4 v

/-- Write the order of a node. -/
def setOrder (mem : Memory) (p v : ℕ) : Memory := writeLE mem (p + 4) 4 v

/-- Write the forward link of a node. -/
def setNext (mem : Memory) (p v : ℕ) : Memory := writeLE mem (p + 8) 8 v

/-- Write the back link of a node. -/
def setPrev (mem : Memory) (p v : ℕ) : Memory := writeLE mem (p + 16) 8 v

end FreeBlockNode

open FreeBlockNode

/-- A range of memory that was given to the allocator. -/
structure PhysRegion where
  /-- The first address. -/
  base : ℕ
  /-- One past the last address. -/
  limit : ℕ
  deriving DecidableEq, Repr

/-- The allocator, with the memory it works on. -/
structure BuddyPageAllocator where
  /-- The memory, which also holds the nodes of the free lists. -/
  mem : Memory
  /-- The first free block of every order. -/
  freeHeads : ℕ → ℕ
  /-- The regions that were added. -/
  regions : List PhysRegion

namespace BuddyPageAllocator

/-- An allocator without memory to hand out. -/
def new (mem : Memory) : BuddyPageAllocator := ⟨mem, fun _ => buddyNone, []⟩

/-- Remember a region; there is room for a fixed number of them. -/
def addRegion (s : BuddyPageAllocator) (base limit : ℕ) : BuddyPageAllocator :=
  if s.regions.length ≥ maxRegions then s
  else { s with regions := s.regions ++ [⟨base, limit⟩] }

/-- The number of bytes of a block. -/
def blockSizeBytes (order : ℕ) : ℕ := pageSize <<< order

/-- A range lies inside one region; the sum wraps around. -/
def containsInSameRegion (s : BuddyPageAllocator) (addr size : ℕ) : Bool :=
  let stop := wadd addr size
  s.regions.any fun r => decide (r.base ≤ addr) && decide (stop ≤ r.limit)

/-- Put a block on the list of its order. -/
def pushFree (s : BuddyPageAllocator) (order phys : ℕ) : BuddyPageAllocator :=
  let oldHead := s.freeHeads order
  let mem := setMagic s.mem phys buddyFreeMagic
  let mem := setOrder mem phys order
  let mem := setNext mem phys oldHead
  let mem := setPrev mem phys buddyNone
  let mem := if oldHead ≠ buddyNone then setPrev mem oldHead phys else mem
  { s with mem := mem, freeHeads := update s.freeHeads order phys }

/-- Take the first block of an order. -/
def popFree (s : BuddyPageAllocator) (order : ℕ) : Option ℕ × BuddyPageAllocator :=
  let head := s.freeHeads order
  if head = buddyNone then (none, s)
  else
    let mem := setMagic s.mem head 0
    let next := (read mem head).next
    let mem := if next ≠ buddyNone then setPrev mem next buddyNone else mem
    (some head, { s with mem := mem, freeHeads := update s.freeHeads order next })

/-- Unlink a block, if its tag says that it is free at the order. -/
def tryRemoveBuddy (s : BuddyPageAllocator) (order target : ℕ) : Bool × BuddyPageAllocator :=
  let node := read s.mem target
  if node.magic ≠ buddyFreeMagic ∨ node.order ≠ order then (false, s)
  else
    let heads :=
      if node.prev = buddyNone then update s.freeHeads order node.next else s.freeHeads
    let mem := if node.prev = buddyNone then s.mem else setNext s.mem node.prev node.next
    let mem := if node.next ≠ buddyNone then setPrev mem node.next node.prev else mem
    (true, { s with mem := setMagic mem target 0, freeHeads := heads })

/-- The largest order, at most the given one, whose blocks fit into the pages and for which the base
is aligned. -/
def pickOrder (base pages : ℕ) : ℕ → ℕ
  | 0 => 0
  | order + 1 =>
    if 2 ^ (order + 1) ≤ pages ∧ base % (2 ^ (order + 1) * pageSize) = 0 then order + 1
    else pickOrder base pages order

/-- A block of the order that is picked is not larger than the range. -/
lemma pickOrder_le {base pages : ℕ} (hpages : 0 < pages) (order : ℕ) :
    2 ^ pickOrder base pages order ≤ pages := by
  induction order with
  | zero => exact hpages
  | succ order ih =>
    rw [pickOrder]
    split_ifs with h
    · exact h.1
    · exact ih

/-- Carve a range into blocks and put them on the lists. -/
def carve (s : BuddyPageAllocator) (base pages : ℕ) : BuddyPageAllocator :=
  if h : 0 < pages then
    let order := pickOrder base pages maxOrder
    have : pages - 2 ^ order < pages := Nat.sub_lt h (Nat.two_pow_pos _)
    carve (s.pushFree order base) (base + 2 ^ order * pageSize) (pages - 2 ^ order)
  else s
termination_by pages

/-- Give a range of pages to the allocator.  The end of the region wraps around. -/
def addRange (s : BuddyPageAllocator) (base pages : ℕ) : BuddyPageAllocator :=
  if pages = 0 then s
  else (s.addRegion base (wadd base (pages * pageSize))).carve base pages

/-- The first order from the given one on that has a free block. -/
def firstNonEmpty (s : BuddyPageAllocator) (order : ℕ) : Option ℕ :=
  (List.range' order (maxOrder + 1 - order)).find? fun k => s.freeHeads k ≠ buddyNone

/-- Halve a block of order `order + n` until it has the given order; the upper halves become free.
-/
def splitDown (s : BuddyPageAllocator) (order block : ℕ) : ℕ → BuddyPageAllocator
  | 0 => s
  | n + 1 =>
    (s.pushFree (order + n) (block + blockSizeBytes (order + n))).splitDown order block n

/-- Hand out a block of the given order. -/
def allocPages (s : BuddyPageAllocator) (order : ℕ) : Option ℕ × BuddyPageAllocator :=
  if order > maxOrder then (none, s)
  else
    match s.firstNonEmpty order with
    | none => (none, s)
    | some cur =>
      match s.popFree cur with
      | (none, s) => (none, s)
      | (some block, s) => (some block, s.splitDown order block (cur - order))

/-- Take a block back and merge it with its buddy as long as that is free. -/
def freeLoop (s : BuddyPageAllocator) (base order : ℕ) : BuddyPageAllocator :=
  let size := blockSizeBytes order
  let buddy := base ^^^ size
  let combinedBase := min base buddy
  if ¬ s.containsInSameRegion combinedBase (size * 2) then s.pushFree order base
  else
    match s.tryRemoveBuddy order buddy with
    | (false, s) => s.pushFree order base
    | (true, s) =>
      if order + 1 > maxOrder then s.pushFree maxOrder combinedBase
      else s.freeLoop combinedBase (order + 1)
termination_by maxOrder - order

/-- Take a block of the given order back. -/
def freePages (s : BuddyPageAllocator) (base order : ℕ) : BuddyPageAllocator :=
  if order > maxOrder then s else s.freeLoop base order

end BuddyPageAllocator

end CabOS
