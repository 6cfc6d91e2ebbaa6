import CabOS.Arch.Paging
import CabOS.Library.Exec
import CabOS.Library.LinkedList
import CabOS.Library.Word

/-!
# The allocator of physical frames

The boot loader describes the physical memory as a list of regions.  `END` moves through the frames
of the usable regions and hands out each of them once; frames that are given back form a list whose
head is `HEAD` and whose links are stored in the frames themselves.  `frameAlloc` prefers the list,
`allocFrames` hands out contiguous frames for devices and uses `END` only.

`EndOk.search_cases` says where a search from `END` stops: at the first usable region, from the
present one on, that has room.
-/

namespace CabOS

open List

/-- What a region of the memory map is used for. -/
inductive EntryType where
  | usable
  | reserved
  | acpiReclaimable
  | acpiNvs
  | badMemory
  | bootloaderReclaimable
  | executableAndModules
  | framebuffer
  deriving DecidableEq, Repr

/-- A region of the memory map. -/
structure Entry where
  base : ℕ
  length : ℕ
  entryType : EntryType
  deriving DecidableEq, Repr

/-- A place in a region. -/
structure FrameLocation where
  region : ℕ
  offset : ℕ
  deriving DecidableEq, Repr

/-- The state of the allocator, with the part of the physical memory it uses. -/
structure PhysicalMemory where
  /-- `HEAD`: the first frame of the list, or the largest word. -/
  head : ℕ
  /-- `END`: the first frame that has never been handed out. -/
  last : FrameLocation
  /-- The first word of every frame, by the address of the frame. -/
  words : ℕ → ℕ

/-- The ways a call does not return. -/
inductive FrameAllocFault where
  /-- The panic of `init_physical_memory_allocator` and `alloc_frames`. -/
  | noUsableRegion
  /-- The assertions that frames are aligned. -/
  | unaligned (frame : ℕ)
  /-- The assertion that at least one frame is asked for. -/
  | noFrames
  /-- The call waits for a frame. -/
  | waiting
  deriving DecidableEq, Repr

namespace PhysicalMemory

variable (regions : List Entry)

/-- The region with the given number is usable. -/
def isUsable (r : ℕ) : Bool := (regions[r]?.map Entry.entryType) == some .usable

/-- The length of the region with the given number. -/
def lengthOf (r : ℕ) : ℕ := (regions[r]?.map Entry.length).getD 0

/-- The base of the region with the given number. -/
def baseOf (r : ℕ) : ℕ := (regions[r]?.map Entry.base).getD 0

/-- The first usable region from `start` on. -/
def findUsable (start : ℕ) : Option ℕ :=
  (range' start (regions.length - start)).find? (isUsable regions)

/-- The allocator before the first call: the list is empty and `END` is at the first usable region.
-/
def initPhysicalMemoryAllocator (words : ℕ → ℕ) : Except FrameAllocFault PhysicalMemory :=
  match findUsable regions 0 with
  | some region => .ok ⟨usizeMax, ⟨region, 0⟩, words⟩
  | none => .error .noUsableRegion

/-- Move `END` to a region with room for `size` bytes; say whether there is one.  Every pass but the
last moves on to a later region, so there are at most as many passes as regions. -/
def search (size : ℕ) : ℕ → FrameLocation → Bool × FrameLocation
  | 0, last => (false, last)
  | passes + 1, last =>
    if wadd last.offset size > lengthOf regions last.region then
      match findUsable regions (last.region + 1) with
      | some region => search size passes ⟨region, 0⟩
      | none => (false, last)
    else (true, last)

/-- The section of `frame_alloc` under the lock of `HEAD`: take the first frame of the list. -/
def popHead : EStateM FrameAllocFault PhysicalMemory (Option ℕ) := do
  let s ← get
  if s.head = usizeMax then return none
  if s.head % pageSize ≠ 0 then throw (.unaligned s.head)
  set { s with head := s.words s.head }
  return some s.head

/-- The section of `frame_alloc` under the lock of `END`: take the next frame. -/
def bumpFrame : EStateM FrameAllocFault PhysicalMemory (Option ℕ) := do
  let s ← get
  match search regions pageSize regions.length s.last with
  | (false, last) =>
    set { s with last }
    return none
  | (true, last) =>
    set { s with last := { last with offset := wadd last.offset pageSize } }
    return some (wadd (baseOf regions last.region) last.offset)

/-- Hand out a frame.  Without one the call repeats both sections until another thread gives a frame
back. -/
def frameAlloc : EStateM FrameAllocFault PhysicalMemory ℕ := do
  match ← popHead with
  | some frame => return frame
  | none =>
    match ← bumpFrame regions with
    | some frame => return frame
    | none => throw .waiting

/-- Hand out contiguous frames. -/
def allocFrames (frames : ℕ) : EStateM FrameAllocFault PhysicalMemory ℕ := do
  if frames = 0 then throw .noFrames
  let s ← get
  match search regions (wmul pageSize frames) regions.length s.last with
  | (false, last) =>
    set { s with last }
    throw .noUsableRegion
  | (true, last) =>
    set { s with last := { last with offset := wadd last.offset (wmul pageSize frames) } }
    return wadd (baseOf regions last.region) last.offset

/-- Take a frame back. -/
def frameDealloc (frame : ℕ) : EStateM FrameAllocFault PhysicalMemory Unit := do
  if frame % pageSize ≠ 0 then throw (.unaligned frame)
  modify fun s => { s with head := frame, words := Function.update s.words frame s.head }

/-! ## Usable regions -/

variable {regions} {r start size : ℕ} {last : FrameLocation}

lemma isUsable_iff : isUsable regions r ↔ ∃ e, regions[r]? = some e ∧ e.entryType = .usable := by
  rw [isUsable, beq_iff_eq, Option.map_eq_some_iff]

lemma lt_of_isUsable (h : isUsable regions r) : r < regions.length := by
  obtain ⟨e, he, -⟩ := isUsable_iff.mp h
  exact (List.getElem?_eq_some_iff.mp he).1

/-- The next usable region. -/
lemma findUsable_eq_some (h : findUsable regions start = some r) :
    start ≤ r ∧ isUsable regions r ∧ ∀ j, start ≤ j → j < r → isUsable regions j = false := by
  obtain ⟨husable, i, hi, hget, hbefore⟩ := find?_eq_some_iff_getElem.mp h
  rw [getElem_range'_1] at hget
  refine ⟨by omega, husable, fun j hj hlt => ?_⟩
  have hskip := hbefore (j - start) (by omega)
  rw [getElem_range'_1, show start + (j - start) = j by omega] at hskip
  simpa using hskip

/-- No usable region is left. -/
lemma findUsable_eq_none (h : findUsable regions start = none) : ∀ j, start ≤ j →
    isUsable regions j = false := by
  intro j hj
  by_cases hlt : j < regions.length
  · have hmem : j ∈ range' start (regions.length - start) := by
      rw [mem_range'_1]
      omega
    simpa using find?_eq_none.mp h j hmem
  · refine Bool.eq_false_iff.mpr fun husable => hlt (lt_of_isUsable husable)

/-- The usable regions are intervals of pages, and no two of them overlap. -/
structure MapOk (regions : List Entry) : Prop where
  base_aligned : ∀ r, isUsable regions r = true → baseOf regions r % pageSize = 0
  length_aligned : ∀ r, isUsable regions r = true → lengthOf regions r % pageSize = 0
  bound : ∀ r, isUsable regions r = true → baseOf regions r + lengthOf regions r ≤ usizeBound
  apart : ∀ r r', isUsable regions r = true → isUsable regions r' = true → r ≠ r' →
    baseOf regions r + lengthOf regions r ≤ baseOf regions r' ∨
      baseOf regions r' + lengthOf regions r' ≤ baseOf regions r

/-- `END` is at a page of a usable region, or at its end. -/
structure EndOk (regions : List Entry) (last : FrameLocation) : Prop where
  usable : isUsable regions last.region = true
  aligned : last.offset % pageSize = 0
  le : last.offset ≤ lengthOf regions last.region

/-- `END` at the start of a usable region. -/
lemma endOk_start (h : isUsable regions r) : EndOk regions ⟨r, 0⟩ :=
  ⟨h, Nat.zero_mod _, Nat.zero_le _⟩

/-- From `last` the usable regions before `last'` are passed over, and none of them has room for
`size` bytes. -/
structure PassedOver (regions : List Entry) (size : ℕ) (last last' : FrameLocation) : Prop where
  ok : EndOk regions last'
  moved : last' = last ∨
    last.region < last'.region ∧ last'.offset = 0 ∧
    lengthOf regions last.region < last.offset + size
  small : ∀ j, last.region < j → j < last'.region → isUsable regions j = true →
    lengthOf regions j < size

/-- A search stops at the first usable region with room, or at the last one if there is none. -/
lemma EndOk.search_cases (h : EndOk regions last) {passes : ℕ}
    (hpasses : regions.length ≤ last.region + passes) (hsize : last.offset + size < usizeBound) :
    (∃ last', search regions size passes last = (true, last') ∧ PassedOver regions size last last' ∧
      last'.offset + size ≤ lengthOf regions last'.region) ∨
    ∃ last', search regions size passes last = (false, last') ∧ PassedOver regions size last last' ∧
      lengthOf regions last'.region < last'.offset + size ∧
      ∀ j, last'.region < j → isUsable regions j = false := by
  induction passes generalizing last with
  | zero => exact absurd (lt_of_isUsable h.usable) (by omega)
  | succ passes ih =>
    rw [search, wadd_eq hsize]
    by_cases hroom : last.offset + size ≤ lengthOf regions last.region
    · rw [if_neg (by omega)]
      exact .inl ⟨last, rfl, ⟨h, .inl rfl, fun j hj hlt => absurd hlt (by omega)⟩, hroom⟩
    · rw [if_pos (by omega)]
      cases hnext : findUsable regions (last.region + 1) with
      | none =>
        refine .inr ⟨last, rfl, ⟨h, .inl rfl, fun j hj hlt => absurd hlt (by omega)⟩, by omega,
          findUsable_eq_none hnext⟩
      | some r =>
        obtain ⟨hle, husable, hskip⟩ := findUsable_eq_some hnext
        -- the search goes on at the start of region `r`; what it passes over from there is passed
        -- over from
        -- `last` as well, and so is region `r` itself
        have hpassed : ∀ last', PassedOver regions size ⟨r, 0⟩ last' →
          PassedOver regions size last last' := by
          intro last' hp
          have hmoved : r ≤ last'.region ∧ last'.offset = 0 ∧
            (r < last'.region → lengthOf regions r < size) := by
            rcases hp.moved with rfl | ⟨hlt, hzero, hsmall⟩
            · exact ⟨le_rfl, rfl, fun hlt => absurd hlt (lt_irrefl r)⟩
            · exact ⟨hlt.le, hzero, fun _ => by simpa using hsmall⟩
          refine ⟨hp.ok, .inr ⟨by omega, hmoved.2.1, by omega⟩, fun j hj hlt hj' => ?_⟩
          rcases Nat.lt_trichotomy j r with hjr | rfl | hjr
          · exact absurd hj' (by simp [hskip j hj hjr])
          · exact hmoved.2.2 hlt
          · exact hp.small j hjr hlt hj'
        rcases ih (endOk_start husable) (by simp only; omega) (by simp only; omega) with
          ⟨last', e, hp, hfits⟩ | ⟨last', e, hp, hfull, hnone⟩
        · exact .inl ⟨last', e, hpassed last' hp, hfits⟩
        · exact .inr ⟨last', e, hpassed last' hp, hfull, hnone⟩

/-- A search does not move `END` on inside its region. -/
lemma PassedOver.offset_le {last' : FrameLocation}
    (h : PassedOver regions size last last') : last'.offset ≤ last.offset := by
  rcases h.moved with rfl | ⟨-, hzero, -⟩
  · exact le_rfl
  · rw [hzero]
    exact Nat.zero_le _

section

variable (hmap : MapOk regions) {s : PhysicalMemory} (h : EndOk regions s.last)

include hmap in
/-- The address of a frame with room behind it is exact. -/
lemma EndOk.wadd_baseOf (h : EndOk regions last) (hpos : 0 < size)
    (hroom : last.offset + size ≤ lengthOf regions last.region) :
    wadd (baseOf regions last.region) last.offset = baseOf regions last.region + last.offset := by
  have hbound := hmap.bound _ h.usable
  exact wadd_eq (by omega)

include hmap h

/-- The section of `END` takes the next frame, if a usable region has room for one. -/
lemma bumpFrame_cases (hfits : s.last.offset + pageSize < usizeBound) :
    (∃ last', PassedOver regions pageSize s.last last' ∧
      last'.offset + pageSize ≤ lengthOf regions last'.region ∧
      bumpFrame regions s = .ok (some (baseOf regions last'.region + last'.offset))
        { s with last := ⟨last'.region, last'.offset + pageSize⟩ }) ∨
    ∃ last', PassedOver regions pageSize s.last last' ∧
    bumpFrame regions s = .ok none { s with last := last' } := by
  rcases h.search_cases (Nat.le_add_left _ _) hfits with
    ⟨last', e, hover, hroom⟩ | ⟨last', e, hover, -, -⟩
  · have hle := hover.offset_le
    refine .inl ⟨last', hover, hroom, ?_⟩
    rw [← wadd_eq (show last'.offset + pageSize < usizeBound by omega),
      ← hover.ok.wadd_baseOf hmap (by decide : 0 < pageSize) hroom]
    simp only [bumpFrame, exec_bind, exec_get, e, exec_set, exec_pure]
  · refine .inr ⟨last', hover, ?_⟩
    simp only [bumpFrame, exec_bind, exec_get, e, exec_set, exec_pure]

/-- Contiguous frames are taken where `END` finds room for them; without room the call panics. -/
lemma allocFrames_cases {frames : ℕ} (hpos : 0 < frames)
    (hfits : s.last.offset + pageSize * frames < usizeBound) :
    (∃ last', PassedOver regions (pageSize * frames) s.last last' ∧
      last'.offset + pageSize * frames ≤ lengthOf regions last'.region ∧
      allocFrames regions frames s = .ok (baseOf regions last'.region + last'.offset)
        { s with last := ⟨last'.region, last'.offset + pageSize * frames⟩ }) ∨
    ∃ last', PassedOver regions (pageSize * frames) s.last last' ∧
      lengthOf regions last'.region < last'.offset + pageSize * frames ∧
      (∀ j, last'.region < j → isUsable regions j = false) ∧
      allocFrames regions frames s = .error .noUsableRegion { s with last := last' } := by
  have hsize : wmul pageSize frames = pageSize * frames := wmul_eq (by omega)
  rcases h.search_cases (Nat.le_add_left _ _) hfits with
    ⟨last', e, hover, hroom⟩ | ⟨last', e, hover, hfull, hnone⟩
  · have hle := hover.offset_le
    refine .inl ⟨last', hover, hroom, ?_⟩
    rw [← wadd_eq (show last'.offset + pageSize * frames < usizeBound by omega),
      ← hover.ok.wadd_baseOf hmap (Nat.mul_pos (by decide) hpos) hroom]
    simp only [allocFrames, exec_bind, if_neg hpos.ne', exec_get, hsize, e, exec_set, exec_pure]
  · refine .inr ⟨last', hover, hfull, hnone, ?_⟩
    simp [allocFrames, if_neg hpos.ne', hsize, e]

end

/-! ## A small memory map -/

/-- A memory map with a usable region of four frames between regions that are not usable. -/
def fourFrames : List Entry :=
  [⟨0, 0x1000, .reserved⟩, ⟨0x1000, 0x4000, .usable⟩, ⟨0x5000, 0x1000, .framebuffer⟩]

/-- Only one region is usable. -/
lemma isUsable_fourFrames (hr : isUsable fourFrames r) : r = 1 := by
  have hlt := lt_of_isUsable hr
  simp only [fourFrames, length_cons, length_nil] at hlt
  interval_cases r <;> first | rfl | exact absurd hr (by decide)

/-- The map is in order. -/
lemma mapOk_fourFrames : MapOk fourFrames := by
  refine ⟨fun r hr => ?_, fun r hr => ?_, fun r hr => ?_, fun r r' hr hr' hne => ?_⟩
  · rw [isUsable_fourFrames hr]
    decide
  · rw [isUsable_fourFrames hr]
    decide
  · rw [isUsable_fourFrames hr]
    decide
  · exact absurd ((isUsable_fourFrames hr).trans (isUsable_fourFrames hr').symm) hne

/-- The allocator of this map at the start. -/
def fourFramesStart : PhysicalMemory := ⟨usizeMax, ⟨1, 0⟩, fun _ => 0⟩

end PhysicalMemory

end CabOS
