import CabOS.Library.Run
import CabOS.Memory.PhysicalMemory

/-!
# Frames on several cores

Cores allocate frames, give frames back and write to the frames they own, in any order.  The section
of `frame_alloc` under the lock of `HEAD` and the one under the lock of `END` are separate steps,
between which other cores can do anything.

The frames that `END` has handed out are at every time divided into those that someone owns and
those on the list (`Inv`), and each of them was handed out by `END` once.  So no frame has two
owners (`frames_run`), as long as the sums that are compared with the length of a region do not
wrap; a request for `2 ^ 52` frames leaves `END` where it is, and the next request gets the same
frame (`allocFrames_wrapped`).
-/

namespace CabOS.PhysicalMemory

open Function List Nat

/-- The addresses of contiguous frames. -/
def block (base frames : ℕ) : List ℕ := (List.range frames).map fun i => base + pageSize * i

/-- The allocator and its users. -/
structure Cores where
  allocator : PhysicalMemory
  /-- The cores that are in `frame_alloc`, between the section of `HEAD` and the section of `END`.
  -/
  atEnd : ℕ → Bool
  /-- The frames that someone owns; each frame of a block is listed. -/
  live : List ℕ
  /-- The frames that `END` has handed out so far.  No step reads this record. -/
  bumped : List ℕ

/-- What a core does while it holds one lock or none. -/
inductive FrameStep where
  /-- `frame_alloc` starts: the section of `HEAD`. -/
  | popHead (core : ℕ)
  /-- `frame_alloc` goes on: the section of `END`. -/
  | bump (core : ℕ)
  | allocFrames (core frames : ℕ)
  | frameDealloc (core frame : ℕ)
  /-- The owner of a frame writes to its first word. -/
  | write (frame word : ℕ)

namespace Cores

variable (regions : List Entry)

/-- One step.  A core that is in the middle of `frame_alloc` can only go on with it.  A call that
panics leaves the allocator as it was at this moment. -/
def step (m : Cores) : FrameStep → Cores
  | .popHead core =>
    if m.atEnd core then m
    else
      match PhysicalMemory.popHead m.allocator with
      | .ok (some frame) s => { m with allocator := s, live := frame :: m.live }
      | .ok none s => { m with allocator := s, atEnd := update m.atEnd core true }
      | .error _ s => { m with allocator := s }
  | .bump core =>
    if m.atEnd core then
      match bumpFrame regions m.allocator with
      | .ok (some frame) s =>
        { allocator := s, atEnd := update m.atEnd core false, live := frame :: m.live,
          bumped := frame :: m.bumped }
      | .ok none s => { m with allocator := s, atEnd := update m.atEnd core false }
      | .error _ s => { m with allocator := s }
    else m
  | .allocFrames core frames =>
    if m.atEnd core then m
    else
      match PhysicalMemory.allocFrames regions frames m.allocator with
      | .ok base s =>
        { m with
          allocator := s, live := block base frames ++ m.live,
          bumped := block base frames ++ m.bumped }
      | .error _ s => { m with allocator := s }
  | .frameDealloc core frame =>
    if m.atEnd core then m
    else
      match PhysicalMemory.frameDealloc frame m.allocator with
      | .ok () s => { m with allocator := s, live := m.live.erase frame }
      | .error _ s => { m with allocator := s }
  | .write frame word =>
    { m with allocator := { m.allocator with words := update m.allocator.words frame word } }

/-- No core has done anything yet. -/
def start (s : PhysicalMemory) : Cores := ⟨s, fun _ => false, [], []⟩

/-- A run of several cores, one step after the other. -/
def run (m : Cores) (steps : List FrameStep) : Cores := steps.foldl (step regions) m

/-- Only owned frames are given back and written to. -/
def Allowed (m : Cores) : FrameStep → Prop
  | .frameDealloc _ frame => frame ∈ m.live
  | .write frame _ => frame ∈ m.live
  | _ => True

/-- The end of the frames that are asked for, counted from the start of the region of `END`, is a
word. -/
def Fits (m : Cores) : FrameStep → Prop
  | .bump _ => m.allocator.last.offset + pageSize < usizeBound
  | .allocFrames _ frames => m.allocator.last.offset + pageSize * frames < usizeBound
  | _ => True

end Cores

/-! ## The invariant -/

variable {regions : List Entry} {last last' : FrameLocation} {frame frames : ℕ}

/-- An aligned frame of a usable region. -/
def IsFrame (regions : List Entry) (frame : ℕ) : Prop :=
  frame % pageSize = 0 ∧ ∃ r, isUsable regions r = true ∧ baseOf regions r ≤ frame ∧
    frame + pageSize ≤ baseOf regions r + lengthOf regions r

/-- A frame that `END` has not reached. -/
def Ahead (regions : List Entry) (last : FrameLocation) (frame : ℕ) : Prop :=
  ∃ r, isUsable regions r = true ∧ frame < baseOf regions r + lengthOf regions r ∧
    (last.region < r ∧ baseOf regions r ≤ frame ∨ r = last.region ∧
      baseOf regions r + last.offset ≤ frame)

/-- A frame that `END` has passed. -/
def Passed (regions : List Entry) (last : FrameLocation) (frame : ℕ) : Prop :=
  frame % pageSize = 0 ∧ ∃ r, isUsable regions r = true ∧ baseOf regions r ≤ frame ∧
    frame + pageSize ≤ baseOf regions r + lengthOf regions r ∧
    (r < last.region ∨ r = last.region ∧ frame + pageSize ≤ baseOf regions r + last.offset)

/-- Such a frame lies in a usable region. -/
lemma Passed.isFrame (h : Passed regions last frame) : IsFrame regions frame := by
  obtain ⟨haligned, r, husable, hlo, hhi, -⟩ := h
  exact ⟨haligned, r, husable, hlo, hhi⟩

/-- A frame that `END` has passed is behind it. -/
lemma Passed.not_ahead (hmap : MapOk regions) (h : Passed regions last frame) :
    ¬ Ahead regions last frame := by
  obtain ⟨-, r, husable, hlo, hhi, hpassed⟩ := h
  rintro ⟨r', husable', hhi', hahead⟩
  have hpage : 0 < pageSize := by decide
  by_cases heq : r = r'
  · subst heq
    omega
  · have := hmap.apart r r' husable husable' heq
    omega

/-- What `END` has passed stays behind it when it moves on. -/
lemma Passed.mono (h : Passed regions last frame)
    (hmoved : last.region < last'.region ∨ last.region = last'.region ∧
      last.offset ≤ last'.offset) :
    Passed regions last' frame := by
  obtain ⟨haligned, r, husable, hlo, hhi, hpassed⟩ := h
  exact ⟨haligned, r, husable, hlo, hhi, by omega⟩

/-- A search moves `END` on. -/
lemma PassedOver.moved_on {size : ℕ} (h : PassedOver regions size last last') :
    last.region < last'.region ∨ last.region = last'.region ∧ last.offset ≤ last'.offset := by
  rcases h.moved with rfl | ⟨hlt, -, -⟩
  · exact .inr ⟨rfl, le_rfl⟩
  · exact .inl hlt

/-- The frames that `END` has handed out are those that someone owns and those on the list. -/
structure Cores.Inv (regions : List Entry) (m : Cores) : Prop where
  endOk : EndOk regions m.allocator.last
  nodup : m.bumped.Nodup
  passed : ∀ frame ∈ m.bumped, Passed regions m.allocator.last frame
  divided : ∃ free, Chain m.allocator.words usizeMax m.allocator.head free ∧
    (free ++ m.live).Perm m.bumped

/-! ## Blocks -/

lemma mem_block {base : ℕ} : frame ∈ block base frames ↔
    ∃ i < frames, frame = base + pageSize * i := by
  simp [block, mem_map, eq_comm]

lemma nodup_block (base frames : ℕ) : (block base frames).Nodup := by
  refine List.Nodup.map (fun i j hij => ?_) nodup_range
  simp only [pageSize] at hij
  omega

/-- `END` was moved to `last'` and then past a block of frames: they are new, and `END` has now
passed them. -/
lemma EndOk.block_fresh (hmap : MapOk regions) (hok : EndOk regions last')
    (hroom : last'.offset + pageSize * frames ≤ lengthOf regions last'.region) :
    EndOk regions ⟨last'.region, last'.offset + pageSize * frames⟩ ∧
      ∀ frame ∈ block (baseOf regions last'.region + last'.offset) frames,
        Ahead regions last' frame ∧
        Passed regions ⟨last'.region, last'.offset + pageSize * frames⟩ frame := by
  have haligned := hok.aligned
  have hbase := hmap.base_aligned _ hok.usable
  refine ⟨⟨hok.usable, by rw [add_mul_mod_self_left]; exact haligned, hroom⟩,
    fun frame hframe => ?_⟩
  obtain ⟨i, hi, rfl⟩ := mem_block.mp hframe
  have hpage : 0 < pageSize := by decide
  have hmul : pageSize * (i + 1) ≤ pageSize * frames := mul_le_mul_left _ hi
  rw [mul_add, mul_one] at hmul
  refine ⟨⟨last'.region, hok.usable, by omega, .inr ⟨rfl, by omega⟩⟩, ?_, last'.region, hok.usable,
    by omega, by omega, .inr ⟨rfl, by simp only; omega⟩⟩
  rw [add_mul_mod_self_left, add_mod, hbase, haligned, zero_add, zero_mod]

/-! ## Steps -/

namespace Cores

variable {m : Cores}

/-- `END` moves on and hands out a block of frames. -/
lemma Inv.handOut (hmap : MapOk regions) (h : m.Inv regions) (hok : EndOk regions last')
    (hmoved : m.allocator.last.region < last'.region ∨ m.allocator.last.region = last'.region ∧
      m.allocator.last.offset ≤ last'.offset)
    (hroom : last'.offset + pageSize * frames ≤ lengthOf regions last'.region) (atEnd : ℕ → Bool) :
    Inv regions
      { allocator := { m.allocator with last :=
        ⟨last'.region, last'.offset + pageSize * frames⟩ }, atEnd
        live := block (baseOf regions last'.region + last'.offset) frames ++ m.live
        bumped := block (baseOf regions last'.region + last'.offset) frames ++ m.bumped } := by
  obtain ⟨hok', hfresh⟩ := hok.block_fresh hmap hroom
  obtain ⟨free, hchain, hperm⟩ := h.divided
  refine ⟨hok', ?_, ?_, free, hchain, ?_⟩
  · refine nodup_append.mpr ⟨nodup_block _ _, h.nodup, ?_⟩
    rintro frame hframe _ hold rfl
    exact ((h.passed frame hold).mono hmoved).not_ahead hmap (hfresh frame hframe).1
  · intro frame hframe
    rcases mem_append.mp hframe with hnew | hold
    · exact (hfresh frame hnew).2
    · refine (h.passed frame hold).mono ?_
      simp only
      omega
  · rw [← append_assoc]
    refine (perm_append_comm.append_right m.live).trans ?_
    rw [append_assoc]
    exact hperm.append_left _

section

variable (h : m.Inv regions)
include h

/-- `END` moves on without handing out a frame. -/
lemma Inv.moveEnd (hok : EndOk regions last')
    (hmoved : m.allocator.last.region < last'.region ∨ m.allocator.last.region = last'.region ∧
      m.allocator.last.offset ≤ last'.offset) (atEnd : ℕ → Bool) :
    Inv regions { m with allocator := { m.allocator with last := last' }, atEnd } where
  endOk := hok
  nodup := h.nodup
  passed frame hframe := (h.passed frame hframe).mono hmoved
  divided := h.divided

/-- The first frame of the list gets an owner. -/
lemma Inv.popHead (hhead : m.allocator.head ≠ usizeMax) : popHead m.allocator =
        .ok (some m.allocator.head)
        { m.allocator with head := m.allocator.words m.allocator.head } ∧
      Inv regions
        { m with
          allocator := { m.allocator with head := m.allocator.words m.allocator.head }
          live := m.allocator.head :: m.live } := by
  obtain ⟨free, hchain, hperm⟩ := h.divided
  obtain ⟨rest, rfl, hrest⟩ := hchain.exists_cons hhead
  have hpassed := h.passed _ (hperm.subset mem_cons_self)
  refine ⟨?_, h.endOk, h.nodup, h.passed, rest, hrest, perm_middle.trans hperm⟩
  simp only [PhysicalMemory.popHead, exec_bind, exec_get, if_neg hhead, hpassed.1, ne_eq,
    not_true_eq_false,
    if_false, exec_pure, exec_set]

/-- An owned frame is not on the list. -/
lemma Inv.notMem_free {free : List ℕ} (hperm : (free ++ m.live).Perm m.bumped)
    (hlive : frame ∈ m.live) : frame ∉ free :=
  fun hfree => disjoint_of_nodup_append (hperm.nodup_iff.mpr h.nodup) hfree hlive

/-- A frame becomes the first one of the list. -/
lemma Inv.frameDealloc (hlive : frame ∈ m.live) :
    frameDealloc frame m.allocator =
        .ok () { m.allocator with
          head := frame, words := update m.allocator.words frame m.allocator.head } ∧
      Inv regions
        { m with
          allocator := { m.allocator with
            head := frame, words := update m.allocator.words frame m.allocator.head }
          live := m.live.erase frame } := by
  obtain ⟨free, hchain, hperm⟩ := h.divided
  have hpassed := h.passed frame (hperm.subset (mem_append_right _ hlive))
  have hfree : frame ∉ free := h.notMem_free hperm hlive
  refine ⟨?_, h.endOk, h.nodup, h.passed, frame :: free, ⟨rfl, ?_, ?_⟩, ?_⟩
  · simp [PhysicalMemory.frameDealloc, hpassed.1]
  · -- the largest word is not a multiple of the page size
    rintro rfl
    exact absurd hpassed.1 (by decide)
  · have hlink : update m.allocator.words frame m.allocator.head frame = m.allocator.head :=
      update_self ..
    change Chain _ _ (update m.allocator.words frame m.allocator.head frame) free
    rw [hlink]
    exact hchain.update hfree _
  · exact ((perm_middle.symm).trans ((perm_cons_erase hlive).symm.append_left free)).trans hperm

/-- An owner writes to its frame. -/
lemma Inv.write (hlive : frame ∈ m.live) (word : ℕ) : Inv regions { m with
      allocator := { m.allocator with words := update m.allocator.words frame word } } := by
  obtain ⟨free, hchain, hperm⟩ := h.divided
  have hfree : frame ∉ free := h.notMem_free hperm hlive
  exact ⟨h.endOk, h.nodup, h.passed, free, hchain.update hfree word, hperm⟩

end

/-- Every step keeps the frames divided. -/
lemma Inv.step (hmap : MapOk regions) (h : m.Inv regions) {st : FrameStep} (hallowed : m.Allowed st)
    (hfits : m.Fits st) : (m.step regions st).Inv regions := by
  cases st with
  | popHead core =>
    rw [Cores.step]
    split_ifs with hbusy
    · exact h
    · by_cases hhead : m.allocator.head = usizeMax
      · have e : PhysicalMemory.popHead m.allocator = .ok none m.allocator := by
          simp [PhysicalMemory.popHead, hhead]
        rw [e]
        exact ⟨h.endOk, h.nodup, h.passed, h.divided⟩
      · obtain ⟨e, hinv⟩ := h.popHead hhead
        rw [e]
        exact hinv
  | bump core =>
    rw [Cores.step]
    split_ifs with hbusy
    · rcases bumpFrame_cases hmap h.endOk hfits with ⟨last', hover, hroom, e⟩ | ⟨last', hover, e⟩
      · rw [e]
        exact h.handOut hmap hover.ok hover.moved_on
          (show last'.offset + pageSize * 1 ≤ _ from hroom) _
      · rw [e]
        exact h.moveEnd hover.ok hover.moved_on _
    · exact h
  | allocFrames core frames =>
    rw [Cores.step]
    split_ifs with hbusy
    · exact h
    · rcases Nat.eq_zero_or_pos frames with hzero | hpos
      · have e : allocFrames regions frames m.allocator = .error .noFrames m.allocator := by
          simp [allocFrames, if_pos hzero]
        rw [e]
        exact h
      · rcases allocFrames_cases hmap h.endOk hpos hfits with
          ⟨last', hover, hroom, e⟩ | ⟨last', hover, -, -, e⟩
        · rw [e]
          exact h.handOut hmap hover.ok hover.moved_on hroom _
        · rw [e]
          exact h.moveEnd hover.ok hover.moved_on _
  | frameDealloc core frame =>
    rw [Cores.step]
    split_ifs with hbusy
    · exact h
    · obtain ⟨e, hinv⟩ := h.frameDealloc hallowed
      rw [e]
      exact hinv
  | write frame word => exact h.write hallowed word

/-- Nothing has been handed out at the start. -/
lemma inv_start {words : ℕ → ℕ} {s : PhysicalMemory}
    (hs : initPhysicalMemoryAllocator regions words = .ok s) : (start s).Inv regions := by
  unfold initPhysicalMemoryAllocator at hs
  cases hfind : findUsable regions 0 with
  | none =>
    rw [hfind] at hs
    cases hs
  | some r =>
    rw [hfind] at hs
    cases hs
    exact ⟨endOk_start (findUsable_eq_some hfind).2.1, nodup_nil,
      by simp [start], [], rfl, List.Perm.refl _⟩

/-- Whatever several cores do with their frames, as long as no sum wraps: every frame that was
handed out is an aligned frame of a usable region and has one owner; the list of free frames is
finite, has no frame twice and none that is owned; together, owned and free frames are those that
`END` has handed out, and `END` has passed them. -/
theorem frames_run (hmap : MapOk regions) {words : ℕ → ℕ} {s : PhysicalMemory}
    (hs : initPhysicalMemoryAllocator regions words = .ok s) {steps : List FrameStep}
    (hallowed : AlongRun (step regions) Allowed (start s) steps)
    (hfits : AlongRun (step regions) Fits (start s) steps) :
    (∀ frame ∈ (run regions (start s) steps).live, IsFrame regions frame) ∧
    (run regions (start s) steps).live.Nodup ∧
      ∃ free, Chain (run regions (start s) steps).allocator.words usizeMax
          (run regions (start s) steps).allocator.head free ∧ free.Nodup ∧
        (∀ frame ∈ free, frame ∉ (run regions (start s) steps).live) ∧
        (∀ frame ∈ free, ¬ Ahead regions (run regions (start s) steps).allocator.last frame) ∧
        (free ++ (run regions (start s) steps).live).Perm (run regions (start s) steps).bumped := by
  have hinv : (run regions (start s) steps).Inv regions := by
    refine AlongRun.invariant (P :=
      fun m st => m.Allowed st ∧ m.Fits st) ?_ (inv_start hs) (hallowed.and hfits)
    exact fun m st h hst => h.step hmap hst.1 hst.2
  obtain ⟨free, hchain, hperm⟩ := hinv.divided
  obtain ⟨hfree, hlive, -⟩ := nodup_append.mp (hperm.nodup_iff.mpr hinv.nodup)
  have hpassed : ∀ frame ∈ free ++ (run regions (start s) steps).live,
      Passed regions (run regions (start s) steps).allocator.last frame :=
    fun frame hframe => hinv.passed frame (hperm.subset hframe)
  refine ⟨fun frame hframe => (hpassed frame (mem_append_right _ hframe)).isFrame,
    hlive, free, hchain,
    hfree, fun frame hframe hown => hinv.notMem_free hperm hown hframe,
    fun frame hframe => ?_, hperm⟩
  exact (hpassed frame (mem_append_left _ hframe)).not_ahead hmap

/-- Two cores allocate at the same time, one of the frames is given back, and a device gets two
frames. -/
def twoCoreSteps : List FrameStep :=
  [.popHead 0, .popHead 1, .bump 1, .bump 0, .write 0x1000 7, .frameDealloc 1 0x1000,
    .allocFrames 0 2]

/-- The two cores have three frames, and the fourth one is free. -/
theorem frames_run_two_cores :
    (run fourFrames (start fourFramesStart) twoCoreSteps).live = [0x3000, 0x4000, 0x2000] ∧
      (run fourFrames (start fourFramesStart) twoCoreSteps).live.Nodup :=
  ⟨by decide, (frames_run mapOk_fourFrames
    (show initPhysicalMemoryAllocator fourFrames (fun _ => 0) = .ok fourFramesStart from rfl)
    (by simp only [twoCoreSteps, alongRun_cons, alongRun_nil, Allowed]; decide)
    (by simp only [twoCoreSteps, alongRun_cons, alongRun_nil, Fits]; decide)).2.1⟩

/-- A request for `2 ^ 52` frames, whose size is zero modulo `2 ^ 64`, is granted and leaves `END`
where it is; the next request gets the same frame. -/
theorem allocFrames_wrapped :
    initPhysicalMemoryAllocator fourFrames (fun _ => 0) = .ok fourFramesStart ∧
    (∃ s s', PhysicalMemory.allocFrames fourFrames (2 ^ 52) fourFramesStart = .ok 0x1000 s ∧
      PhysicalMemory.allocFrames fourFrames 1 s = .ok 0x1000 s') ∧
    0x1000 ∈ block 0x1000 (2 ^ 52) := by
  have e : allocFrames fourFrames (2 ^ 52) fourFramesStart = .ok 0x1000 fourFramesStart := by
    have hsize : wmul pageSize (2 ^ 52) = 0 := by norm_num [wmul, pageSize, usizeBound]
    simp only [allocFrames, hsize]
    rfl
  exact ⟨rfl, ⟨fourFramesStart, _, e, exec_of_returnedValue (by decide +kernel)⟩,
    mem_block.mpr ⟨0, Nat.two_pow_pos _, rfl⟩⟩

end Cores

end CabOS.PhysicalMemory
