import CabOS.Memory.Heap.Buddy

/-!
# The heap: slabs over the buddy allocator

`HeapAllocator` serves requests of up to `maxSlabSize` bytes from slab pages, and larger ones from
the buddy allocator.  A slab page is a page of the buddy allocator that starts with a
`SlabPageHeader` and is cut into objects of one class; the free objects of a page form a list whose
links are in the objects.  For every class there is a list of pages with free objects and a list of
full pages.

The loops of the code have no bound of their own.  Their models take the number of rounds they may
make and return `none` if that is not enough.
-/

namespace CabOS

open Function

/-- The number of object sizes. -/
def numClasses : ℕ := 8

/-- The sizes of the objects. -/
def classSizes : List ℕ := [16, 32, 64, 128, 256, 512, 1024, 2048]

/-- The size of the objects of a class. -/
def classSize (c : ℕ) : ℕ := classSizes.getD c 0

/-- The largest object of a slab. -/
def maxSlabSize : ℕ := 2048

/-- The tag of a slab page. -/
def slabPageMagic : ℕ := 0x12ABCDEF

/-- A multiple of the alignment that is not greater. -/
def alignDown (value align : ℕ) : ℕ := value / align * align

/-- A multiple of the alignment that is not less. -/
def alignUp (value align : ℕ) : ℕ := alignDown (value + (align - 1)) align

/-! ## Layouts -/

/-- The size and the alignment of a request.  The alignment is a power of two, and the size rounded
up to it is at most `isize::MAX`. -/
structure Layout where
  size : ℕ
  /-- The logarithm of the alignment. -/
  logAlign : ℕ
  fits : size + (2 ^ logAlign - 1) ≤ 2 ^ 63 - 1
  deriving DecidableEq

namespace Layout

/-- The alignment. -/
def align (l : Layout) : ℕ := 2 ^ l.logAlign

/-- A layout with another size and the same alignment, if there is one. -/
def withSize (l : Layout) (size : ℕ) : Option Layout :=
  if h : size + (2 ^ l.logAlign - 1) ≤ 2 ^ 63 - 1 then some ⟨size, l.logAlign, h⟩ else none

end Layout

/-- The layout with a size that is not zero; the code panics if there is none. -/
def normalizeLayout (l : Layout) : Option Layout := l.withSize (max l.size 1)

/-- The class of the objects that serve a request, if they are large enough. -/
def classIndexForLayout (l : Layout) : Option ℕ :=
  let needed := max (max l.size 1) l.align
  if needed > maxSlabSize then none else classSizes.findIdx? fun sz => decide (sz ≥ needed)

/-- The number of pages for a size. -/
def pageCountFor (size : ℕ) : ℕ := (max size 1 + (pageSize - 1)) / pageSize

/-- The order of the smallest block with a number of pages. -/
def BuddyPageAllocator.orderForPages (pages : ℕ) : Option ℕ :=
  if pages = 0 then none
  else
    let order := Nat.clog 2 pages
    if order > maxOrder then none else some order

/-! ## Slab pages -/

/-- The start of a slab page. -/
structure SlabPageHeader where
  magic : ℕ
  classIndex : ℕ
  /-- The number of objects in use. -/
  inUse : ℕ
  capacity : ℕ
  /-- The first free object. -/
  freeList : ℕ
  /-- The next page of the list. -/
  next : ℕ
  deriving DecidableEq, Repr

namespace SlabPageHeader

/-- The number of bytes of a header. -/
def sizeOf : ℕ := 32

/-- The header at an address. -/
def read (mem : Memory) (p : ℕ) : SlabPageHeader where
  magic := readLE mem p 4
  classIndex := readLE mem (p + 4) 2
  inUse := readLE mem (p + 6) 2
  capacity := readLE mem (p + 8) 2
  freeList := readLE mem (p + 16) 8
  next := readLE mem (p + 24) 8

def setMagic (mem : Memory) (p v : ℕ) : Memory := writeLE mem p 4 v

def setClassIndex (mem : Memory) (p v : ℕ) : Memory := writeLE mem (p + 4) 2 v

def setInUse (mem : Memory) (p v : ℕ) : Memory := writeLE mem (p + 6) 2 v

def setCapacity (mem : Memory) (p v : ℕ) : Memory := writeLE mem (p + 8) 2 v

def setReserved (mem : Memory) (p v : ℕ) : Memory := writeLE mem (p + 10) 2 v

def setFreeList (mem : Memory) (p v : ℕ) : Memory := writeLE mem (p + 16) 8 v

def setNext (mem : Memory) (p v : ℕ) : Memory := writeLE mem (p + 24) 8 v

end SlabPageHeader

/-- The link in a free object. -/
def linkIn (mem : Memory) (o : ℕ) : ℕ := readLE mem o 8

/-- Write the link in a free object. -/
def setLink (mem : Memory) (o v : ℕ) : Memory := writeLE mem o 8 v

/-- Chain the first objects of a page, from the last one on; the result is the head of the list. -/
def linkSlots (start objectSize : ℕ) : ℕ → Memory → ℕ → Memory × ℕ
  | 0, mem, prev => (mem, prev)
  | i + 1, mem, prev =>
    let slot := start + i * objectSize
    linkSlots start objectSize i (setLink mem slot prev) slot

/-- Unlink a page from the list that starts at `head`; the result is the memory and the new head. -/
def unlinkSlabPage (victim : ℕ) : ℕ → Memory → ℕ → ℕ → ℕ → Option (Memory × ℕ)
  | 0, _, _, _, _ => none
  | fuel + 1, mem, head, cur, prev =>
    if cur = 0 then some (mem, head)
    else if cur = victim then
      let next := (SlabPageHeader.read mem cur).next
      if prev = 0 then some (mem, next) else some (SlabPageHeader.setNext mem prev next, head)
    else unlinkSlabPage victim fuel mem head (SlabPageHeader.read mem cur).next cur

/-! ## The heap -/

/-- The heap.  Physical and virtual addresses are the same, since `hhdm_offset` is zero. -/
structure HeapAllocator where
  /-- The pages with free objects, by class. -/
  partialSlabs : ℕ → ℕ
  /-- The pages without free objects, by class. -/
  fullSlabs : ℕ → ℕ
  /-- The buddy allocator, with the memory. -/
  buddy : BuddyPageAllocator

namespace HeapAllocator

open SlabPageHeader

/-- An empty heap. -/
def new (mem : Memory) : HeapAllocator := ⟨fun _ => 0, fun _ => 0, .new mem⟩

/-- The memory. -/
def mem (h : HeapAllocator) : Memory := h.buddy.mem

/-- The heap with another memory. -/
def withMem (h : HeapAllocator) (mem : Memory) : HeapAllocator :=
  { h with buddy := { h.buddy with mem := mem } }

/-- Give the whole pages of a block of memory to the heap. -/
def initFromBlock (h : HeapAllocator) (offset len : ℕ) : HeapAllocator :=
  let start := alignUp offset pageSize
  let stop := alignDown (offset + len) pageSize
  if stop ≤ start then h
  else
    let pageCount := (stop - start) / pageSize
    if pageCount = 0 then h else { h with buddy := h.buddy.addRange start pageCount }

/-- Write the header of a new slab page and put it on the list of its class. -/
def initSlabPage (h : HeapAllocator) (c page capacity freeList : ℕ) : HeapAllocator :=
  let m := setMagic h.mem page slabPageMagic
  let m := setClassIndex m page c
  let m := setInUse m page 0
  let m := setCapacity m page capacity
  let m := setReserved m page 0
  let m := setFreeList m page freeList
  let m := setNext m page (h.partialSlabs c)
  { h.withMem m with partialSlabs := update h.partialSlabs c page }

/-- Take a page for the objects of a class. -/
def addSlabPage (h : HeapAllocator) (c : ℕ) : Bool × HeapAllocator :=
  match h.buddy.allocPages 0 with
  | (none, buddy) => (false, { h with buddy := buddy })
  | (some phys, buddy) =>
    let objectSize := classSize c
    let start := alignUp (phys + sizeOf) (max objectSize 8)
    if start ≥ phys + pageSize then (false, { h with buddy := buddy.freePages phys 0 })
    else
      let capacity := (phys + pageSize - start) / objectSize
      if capacity = 0 then (false, { h with buddy := buddy.freePages phys 0 })
      else
        let (m, prev) := linkSlots start objectSize capacity buddy.mem 0
        (true, ({ h with buddy := { buddy with mem := m } }).initSlabPage c phys capacity prev)

/-- Take the first free object of a page; a page without free objects goes to the full ones. -/
def takeObject (h : HeapAllocator) (c page : ℕ) : ℕ × HeapAllocator :=
  let object := (read h.mem page).freeList
  let m := setFreeList h.mem page (linkIn h.mem object)
  let m := setInUse m page ((read m page).inUse + 1)
  if (read m page).freeList = 0 then
    (object,
      { partialSlabs := update h.partialSlabs c (read m page).next, fullSlabs :=
        update h.fullSlabs c page
        buddy := { h.buddy with mem := setNext m page (h.fullSlabs c) } })
  else (object, h.withMem m)

/-- Hand out an object of a class. -/
def allocateSmall (c : ℕ) : ℕ → HeapAllocator → Option (ℕ × HeapAllocator)
  | 0, _ => none
  | fuel + 1, h =>
    let page := h.partialSlabs c
    if page ≠ 0 then some (h.takeObject c page)
    else
      match h.addSlabPage c with
      | (false, h) => some (0, h)
      | (true, h) => allocateSmall c fuel h

/-- Put an object on the list of its page. -/
def putObject (h : HeapAllocator) (ptr header : ℕ) : HeapAllocator :=
  let m := setLink h.mem ptr (read h.mem header).freeList
  let m := setFreeList m header ptr
  -- the counter has two bytes
  h.withMem (setInUse m header ((read m header).inUse + (2 ^ 16 - 1)))

/-- Take an object back.  A page without objects in use goes back to the buddy allocator, and a page
that was full to the pages with free objects. -/
def freeSmall (fuel ptr : ℕ) (h : HeapAllocator) : Option HeapAllocator :=
  let header := alignDown ptr pageSize
  if (read h.mem header).magic ≠ slabPageMagic then some h
  else
    let c := (read h.mem header).classIndex
    let wasFull := (read h.mem header).freeList = 0
    let h := h.putObject ptr header
    if (read h.mem header).inUse = 0 then
      if wasFull then
        match unlinkSlabPage header fuel h.mem (h.fullSlabs c) (h.fullSlabs c) 0 with
        | none => none
        | some (m, head) =>
          some { h with
            fullSlabs := update h.fullSlabs c head
            buddy := ({ h.buddy with mem := m } : BuddyPageAllocator).freePages header 0 }
      else
        match unlinkSlabPage header fuel h.mem (h.partialSlabs c) (h.partialSlabs c) 0 with
        | none => none
        | some (m, head) =>
          some { h with
            partialSlabs := update h.partialSlabs c head
            buddy := ({ h.buddy with mem := m } : BuddyPageAllocator).freePages header 0 }
    else if wasFull then
      match unlinkSlabPage header fuel h.mem (h.fullSlabs c) (h.fullSlabs c) 0 with
      | none => none
      | some (m, head) =>
        some
          { partialSlabs := update h.partialSlabs c header, fullSlabs := update h.fullSlabs c head
            buddy := { h.buddy with mem := setNext m header (h.partialSlabs c) } }
    else some h

/-- Hand out whole pages. -/
def allocateLarge (l : Layout) (h : HeapAllocator) : ℕ × HeapAllocator :=
  if l.align > pageSize then (0, h)
  else
    match BuddyPageAllocator.orderForPages (pageCountFor l.size) with
    | none => (0, h)
    | some order =>
      match h.buddy.allocPages order with
      | (some p, buddy) => (p, { h with buddy := buddy })
      | (none, buddy) => (0, { h with buddy := buddy })

/-- Take whole pages back. -/
def freeLarge (ptr : ℕ) (l : Layout) (h : HeapAllocator) : HeapAllocator :=
  match BuddyPageAllocator.orderForPages (pageCountFor l.size) with
  | none => h
  | some order => { h with buddy := h.buddy.freePages ptr order }

/-- Serve a request; the result is zero if there is no memory. -/
def allocate (fuel : ℕ) (l : Layout) (h : HeapAllocator) : Option (ℕ × HeapAllocator) :=
  match classIndexForLayout l with
  | some c => allocateSmall c fuel h
  | none => some (allocateLarge l h)

/-- Take back what was served. -/
def free (fuel ptr : ℕ) (l : Layout) (h : HeapAllocator) : Option HeapAllocator :=
  if ptr = 0 then some h
  else
    match classIndexForLayout l with
    | some _ => freeSmall fuel ptr h
    | none => some (freeLarge ptr l h)

end HeapAllocator

end CabOS
