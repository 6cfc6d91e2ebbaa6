import CabOS.Arch.Paging
import CabOS.Library.Exec
import CabOS.Library.SortedTree
import CabOS.Library.Word

/-!
# Kernel virtual memory

`VirtualMemoryEntryContainer` divides a range `[low, high)` of kernel addresses into active entries,
ordered by base, and free entries, ordered by length and then base.  `VirtualMemoryAllocation.new`
takes a range out of a free entry, the one that contains a fixed start or a shortest one that is
long enough; dropping an allocation gives its range back and merges it with the free entries next to
it. Every failure is a panic, and the error is its message.
-/

namespace CabOS

/-- The range `[base, base + length)` of kernel addresses. -/
structure VirtualMemoryEntry where
  /-- The lowest address. -/
  base : ℕ
  /-- The number of addresses. -/
  length : ℕ
  /-- The attributes of the pages. -/
  options : PagingOptions
  deriving DecidableEq, Repr

namespace VirtualMemoryEntry

/-- Free entries are ordered by length and then by base. -/
def freeKey (e : VirtualMemoryEntry) : ℕ ×ₗ ℕ := toLex (e.length, e.base)

/-- The addresses of an entry. -/
def range (e : VirtualMemoryEntry) : Set ℕ := Set.Ico e.base (e.base + e.length)

end VirtualMemoryEntry

/-- The active and the free entries of a range of addresses. -/
structure VirtualMemoryEntryContainer where
  /-- The lowest address. -/
  low : ℕ
  /-- One past the highest address. -/
  high : ℕ
  /-- The ranges in use. -/
  active : SortedTree VirtualMemoryEntry.base
  /-- The ranges that are not in use. -/
  free : SortedTree VirtualMemoryEntry.freeKey

/-- The container of a range of which nothing is in use. -/
def VirtualMemoryEntryContainer.new (low high : ℕ) : VirtualMemoryEntryContainer where
  low := low
  high := high
  active := SortedTree.empty
  free := SortedTree.empty.insert ⟨low, wsub high low, 0⟩

/-- A range in use, as its owner sees it. -/
structure VirtualMemoryAllocation where
  /-- The lowest address. -/
  base : ℕ
  /-- The number of addresses. -/
  length : ℕ
  deriving DecidableEq, Repr

namespace VirtualMemoryAllocation

open VirtualMemoryEntryContainer

/-- Whether a shadow allocation at `base` is already covered by one active entry. -/
def covered (c : VirtualMemoryEntryContainer) (base length : ℕ) : Bool :=
  match c.active.upperBound base with
  | some entry => wadd base length ≤ wadd entry.base entry.length
  | none => false

/-- Take out the free entry between the active neighbours of `base`, without its part below `base`.
-/
def takeFixed (base : ℕ) : EStateM String VirtualMemoryEntryContainer VirtualMemoryEntry := do
  let c ← get
  let bottom := match c.active.below base with
    | some entry => wadd entry.base entry.length
    | none => c.low
  let top := match c.active.lowerBound base with
    | some entry => entry.base
    | none => c.high
  match c.free.find (toLex (wsub top bottom, bottom)) with
  | none => throw "fixed mapping attempted at unavailable base"
  | some chosen =>
    let free := c.free.erase chosen
    if chosen.base < base then
      set { c with free := free.insert ⟨chosen.base, wsub base chosen.base, 0⟩ }
      pure ⟨base, wsub chosen.length (wsub base chosen.base), chosen.options⟩
    else
      set { c with free := free }
      pure chosen

/-- Take out a shortest free entry that is long enough. -/
def takeBestFit (length : ℕ) : EStateM String VirtualMemoryEntryContainer VirtualMemoryEntry := do
  let c ← get
  match c.free.lowerBound (toLex (length, 0)) with
  | none => throw "free VME collection error during allocation"
  | some chosen =>
    set { c with free := c.free.erase chosen }
    pure chosen

/-- Allocate a range from a free entry that was taken out: the rest goes back. -/
def placeIn (chosen : VirtualMemoryEntry) (length : ℕ) (options : PagingOptions) :
    EStateM String VirtualMemoryEntryContainer (Option VirtualMemoryAllocation) := do
  if chosen.length < length then
    throw "assertion failed: chosen.length >= length"
  if chosen.length ≠ length then
    modify fun c => { c with
      free := c.free.insert ⟨wadd chosen.base length, wsub chosen.length length, chosen.options⟩ }
  modify fun c => { c with active := c.active.insert ⟨chosen.base, length, options⟩ }
  if hasFlags options PagingOptions.shadow then
    pure none
  else
    pure (some ⟨chosen.base, length⟩)

/-- Allocate a range of the given length, at a fixed start or by best fit. -/
def new (start : Option ℕ) (length : ℕ) (options : PagingOptions) :
    EStateM String VirtualMemoryEntryContainer (Option VirtualMemoryAllocation) := do
  if length % pageSize ≠ 0 then
    throw "assertion failed: length.is_multiple_of(Arch::PAGE_SIZE)"
  match start with
  | some base =>
    let c ← get
    if hasFlags options PagingOptions.shadow ∧ covered c base length then
      pure none
    else
      let chosen ← takeFixed base
      placeIn chosen length options
  | none =>
    let chosen ← takeBestFit length
    placeIn chosen length options

/-- Merge a dropped entry with the free entry above it.  The active tree no longer holds the entry.
-/
def mergeAbove (active : SortedTree VirtualMemoryEntry.base)
    (free : SortedTree VirtualMemoryEntry.freeKey) (found : VirtualMemoryEntry) :
    Except String (VirtualMemoryEntry × SortedTree VirtualMemoryEntry.freeKey) :=
  match active.lowerBound found.base with
  | some next =>
    if next.base ≠ wadd found.base found.length then
      match free.find (toLex (wsub (wsub next.base found.base) found.length,
          wadd found.base found.length)) with
      | some above =>
        .ok ({ found with length := wadd found.length above.length }, free.erase above)
      | none => .error "tree mismatch 1"
    else .ok (found, free)
  | none =>
    match free.back with
    | some back =>
      if back.base > found.base then
        if wadd found.base found.length = back.base then
          -- the topmost free entry is counted in but stays in the tree
          .ok ({ found with length := wadd found.length back.length }, free)
        else .error "assertion failed: found.base + found.length == back.base"
      else .ok (found, free)
    | none => .ok (found, free)

/-- Merge a dropped entry with the free entry below it. -/
def mergeBelow (active : SortedTree VirtualMemoryEntry.base)
    (free : SortedTree VirtualMemoryEntry.freeKey) (found : VirtualMemoryEntry) :
    Except String (VirtualMemoryEntry × SortedTree VirtualMemoryEntry.freeKey) :=
  match active.below found.base with
  | some prev =>
    if found.base < wadd prev.base prev.length then
      .error "assertion failed: prev.base + prev.length <= found.base"
    else if wadd prev.base prev.length ≠ found.base then
      match free.find (toLex (wsub (wsub found.base prev.base) prev.length,
          wadd prev.base prev.length)) with
      | some below =>
        .ok (⟨below.base, wadd found.length below.length, found.options⟩, free.erase below)
      | none => .error "tree mismatch 2"
    else .ok (found, free)
  | none =>
    match free.front with
    | some front =>
      if front.base < found.base then
        if wadd front.base front.length = found.base then
          -- the lowest free entry is counted in but stays in the tree
          .ok (⟨front.base, wadd found.length front.length, found.options⟩, free)
        else .error "assertion failed: front.base + front.length == found.base"
      else .ok (found, free)
    | none => .ok (found, free)

/-- Give an allocation back. -/
def drop (a : VirtualMemoryAllocation) : EStateM String VirtualMemoryEntryContainer Unit := do
  let c ← get
  match c.active.find a.base with
  | none => throw "deallocating unallocated virtual address"
  | some found =>
    let active := c.active.erase found
    match mergeAbove active c.free found with
    | .error e => throw e
    | .ok (found, free) =>
      match mergeBelow active free found with
      | .error e => throw e
      | .ok (found, free) => set { c with active := active, free := free.insert found }

end VirtualMemoryAllocation

end CabOS
