import CabOS.Memory.PhysicalMemoryRuns

/-!
# Memory for devices

A transfer to or from a device needs contiguous frames, a `DmaRegion`, which are given back one by
one when the transfer is over.  The frames of a region come from `END`, but they go to the list of
`HEAD`, where only `frameAlloc` looks for them.  So the number of regions of a given size that can
ever be made is fixed by the memory map: it is the number of such blocks in what `END` has not
reached, however many of them have been given back (`dmaRounds_iff`).
-/

namespace CabOS.PhysicalMemory

open Nat Finset

/-- Contiguous frames for a device. -/
structure DmaRegion where
  physAddr : ℕ
  numFrames : ℕ

variable (regions : List Entry)

/-- Allocate a region and clear it. -/
def DmaRegion.new (numFrames : ℕ) : EStateM FrameAllocFault PhysicalMemory DmaRegion := do
  let physAddr ← allocFrames regions numFrames
  modify fun s =>
    { s with words := fun a => if physAddr ≤ a ∧
      a < physAddr + wmul numFrames pageSize then 0 else s.words a }
  return ⟨physAddr, numFrames⟩

/-- Give the frames from number `i` on back. -/
def DmaRegion.dropFrom (region : DmaRegion) (i : ℕ) : ℕ →
    EStateM FrameAllocFault PhysicalMemory Unit
  | 0 => pure ()
  | frames + 1 => do
    frameDealloc (wadd region.physAddr (wmul i pageSize))
    region.dropFrom (i + 1) frames

/-- Give all frames of a region back. -/
def DmaRegion.drop (region : DmaRegion) : EStateM FrameAllocFault PhysicalMemory Unit :=
  region.dropFrom 0 region.numFrames

/-- Transfers after each other, each with a region of its own. -/
def dmaRounds (numFrames : ℕ) : ℕ → EStateM FrameAllocFault PhysicalMemory Unit
  | 0 => pure ()
  | rounds + 1 => do
    let region ← DmaRegion.new regions numFrames
    region.drop
    dmaRounds numFrames rounds

/-- The blocks of `size` bytes that the region with number `r` has room for, from `END` on. -/
def blocksIn (size : ℕ) (last : FrameLocation) (r : ℕ) : ℕ :=
  if r = last.region then (lengthOf regions r - last.offset) / size
  else if last.region < r ∧ isUsable regions r = true then lengthOf regions r / size
  else 0

/-- The blocks of `size` bytes that there is room for in all regions, from `END` on. -/
def capacity (size : ℕ) (last : FrameLocation) : ℕ :=
  ∑ r ∈ Finset.range regions.length, blocksIn regions size last r

variable {regions} {size : ℕ} {last last' : FrameLocation}

/-- Regions that are passed over have no room for a block. -/
lemma PassedOver.capacity_eq (h : PassedOver regions size last last') (hpos : 0 < size) :
    capacity regions size last = capacity regions size last' := by
  rcases h.moved with rfl | ⟨hlt, hzero, hsmall⟩
  · rfl
  · refine sum_congr rfl fun r _ => ?_
    rcases lt_trichotomy r last.region with hr | rfl | hr
    · simp [blocksIn, if_neg (show r ≠ last.region by omega),
        if_neg (show r ≠ last'.region by omega),
      if_neg (show ¬ (last.region < r ∧ isUsable regions r) by omega),
      if_neg (show ¬ (last'.region < r ∧ isUsable regions r) by omega)]
    · simp only [blocksIn, if_true, if_neg (show last.region ≠ last'.region by omega),
        if_neg (show ¬ (last'.region < last.region ∧ isUsable regions last.region) by omega)]
      exact div_eq_of_lt (by omega)
    · rcases lt_trichotomy r last'.region with hr' | rfl | hr'
      · simp only [blocksIn, if_neg (show r ≠ last.region by omega),
          if_neg (show r ≠ last'.region by omega),
          if_neg (show ¬ (last'.region < r ∧ isUsable regions r) by omega)]
        split_ifs with husable
        · exact div_eq_of_lt (h.small r hr hr' husable.2)
        · rfl
      · simp [blocksIn, if_neg (show last'.region ≠ last.region by omega),
        if_pos (show last.region < last'.region ∧
          isUsable regions last'.region = true from ⟨hlt, h.ok.usable⟩),
        hzero]
      · simp [blocksIn, if_neg (show r ≠ last.region by omega),
          if_neg (show r ≠ last'.region by omega), hr, hr']

/-- A block less. -/
lemma EndOk.capacity_bump (h : EndOk regions last) (hpos : 0 < size)
    (hroom : last.offset + size ≤ lengthOf regions last.region) :
    capacity regions size last = capacity regions size ⟨last.region, last.offset + size⟩ + 1 := by
  have hterm : ∀ r ∈ range regions.length, blocksIn regions size last r =
      blocksIn regions size ⟨last.region, last.offset + size⟩ r + if r =
        last.region then 1 else 0 := by
    intro r _
    by_cases hr : r = last.region
    · subst hr
      simp only [blocksIn, if_true]
      rw [show lengthOf regions last.region - last.offset =
        lengthOf regions last.region - (last.offset + size) + size by omega, add_div_right _ hpos]
    · simp [blocksIn, if_neg hr]
  have hmem : last.region ∈ range regions.length := mem_range.mpr (lt_of_isUsable h.usable)
  rw [capacity, capacity, sum_congr rfl hterm, sum_add_distrib, sum_ite_eq', if_pos hmem]

/-- No block is left. -/
lemma capacity_eq_zero (hpos : 0 < size) (hfull : lengthOf regions last.region < last.offset + size)
    (hnone : ∀ j, last.region < j → isUsable regions j = false) :
    capacity regions size last = 0 := by
  refine sum_eq_zero fun r _ => ?_
  rw [blocksIn]
  split_ifs with hr hlater
  · rw [hr]
    exact div_eq_of_lt (by omega)
  · exact absurd hlater.2 (by simp [hnone r hlater.1])
  · rfl

/-- All frames of a region are given back, and `END` stays where it is. -/
lemma DmaRegion.dropFrom_ok (region : DmaRegion) (haligned : region.physAddr % pageSize = 0)
    (i frames : ℕ)
    (hbound : region.physAddr + pageSize * (i + frames) ≤ usizeBound) (s : PhysicalMemory) :
    ∃ s', region.dropFrom i frames s = .ok () s' ∧ s'.last = s.last := by
  induction frames generalizing i s with
  | zero => exact ⟨s, rfl, rfl⟩
  | succ frames ih =>
    have hpage : 0 < pageSize := by decide
    have hmul : pageSize * (i + (frames + 1)) = pageSize * i + pageSize * frames + pageSize := by
      ring
    have hframe : wadd region.physAddr (wmul i pageSize) = region.physAddr + pageSize * i := by
      rw [wmul_eq (by rw [mul_comm]; omega), mul_comm, wadd_eq (by omega)]
    have hmod : (region.physAddr + pageSize * i) % pageSize = 0 := by
      rw [add_mul_mod_self_left, haligned]
    obtain ⟨s', e, hlast⟩ := ih (i :=
      i + 1) (by rw [show i + 1 + frames = i + (frames + 1) by omega]; exact hbound)
      { s with
        head := region.physAddr + pageSize * i
        words := Function.update s.words (region.physAddr + pageSize * i) s.head }
    refine ⟨s', ?_, hlast⟩
    simp only [dropFrom, exec_bind, frameDealloc, hframe, hmod, ne_eq, not_true_eq_false,
      if_false, exec_modify]
    exact e

/-- As long as the length of a region plus the size of a block is a word: transfers of `numFrames`
frames after each other all get their frames if and only if there are not more of them than blocks
in what `END` has not reached at the start. -/
theorem dmaRounds_iff (hmap : MapOk regions) {numFrames : ℕ} (hpos : 0 < numFrames)
    (hfits : ∀ r, isUsable regions r = true →
      lengthOf regions r + pageSize * numFrames < usizeBound)
    {s : PhysicalMemory} (hs : EndOk regions s.last) (rounds : ℕ) :
    (∃ s', dmaRounds regions numFrames rounds s = .ok () s') ↔
      rounds ≤ capacity regions (pageSize * numFrames) s.last := by
  induction rounds generalizing s with
  | zero => simp [dmaRounds]
  | succ rounds ih =>
    have hsize : 0 < pageSize * numFrames := mul_pos (by decide) hpos
    have hword : s.last.offset + pageSize * numFrames < usizeBound := by
      have hle := hs.le
      have hlt := hfits _ hs.usable
      omega
    rcases allocFrames_cases hmap hs hpos hword with
      ⟨last', hover, hroom, e⟩ | ⟨last', hover, hfull, hnone, e⟩
    · -- the round succeeds and leaves one block less
      have hbound := hmap.bound _ hover.ok.usable
      have haligned : (baseOf regions last'.region + last'.offset) % pageSize = 0 := by
        rw [add_mod, hmap.base_aligned _ hover.ok.usable, hover.ok.aligned, zero_add, zero_mod]
      obtain ⟨hok', -⟩ := hover.ok.block_fresh hmap hroom
      obtain ⟨s', e', hlast⟩ := DmaRegion.dropFrom_ok
        ⟨baseOf regions last'.region + last'.offset, numFrames⟩ haligned 0 numFrames
        (by rw [zero_add]; simp only; omega) _
      have hround : dmaRounds regions numFrames (rounds + 1) s =
        dmaRounds regions numFrames rounds s' := by
        simp only [dmaRounds, DmaRegion.new, exec_bind, e, exec_modify, exec_pure, DmaRegion.drop]
        rw [e']
      rw [hround, hover.capacity_eq hsize, hover.ok.capacity_bump hsize hroom, add_le_add_iff_right,
        ih (by rw [hlast]; exact hok'), hlast]
    · rw [hover.capacity_eq hsize, capacity_eq_zero hsize hfull hnone]
      refine iff_of_false ?_ (not_succ_le_zero _)
      rintro ⟨s', e'⟩
      simp only [dmaRounds, DmaRegion.new, exec_bind, e] at e'
      cases e'

/-- With four usable frames, two transfers of two frames succeed. -/
theorem dmaRounds_iff_two : ∃ s', dmaRounds fourFrames 2 2 fourFramesStart = .ok () s' := by
  have hend : EndOk fourFrames fourFramesStart.last := endOk_start (by decide)
  refine (dmaRounds_iff mapOk_fourFrames (by decide) (fun r hr => ?_) hend 2).mpr (by decide)
  rw [isUsable_fourFrames hr]
  decide

/-- With four usable frames, the first transfer of four frames succeeds and the second one panics,
although all frames have been given back. -/
theorem dmaRounds_second_fails :
    initPhysicalMemoryAllocator fourFrames (fun _ => 0) = .ok fourFramesStart ∧
    (∃ s', dmaRounds fourFrames 4 1 fourFramesStart = .ok () s') ∧
    ∃ s', dmaRounds fourFrames 4 2 fourFramesStart = .error .noUsableRegion s' :=
  ⟨rfl, ⟨_, exec_of_returnedValue (by decide +kernel)⟩,
    ⟨_, exec_of_raisedError (by decide +kernel)⟩⟩

end CabOS.PhysicalMemory
