import CabOS.Library.Run
import CabOS.Memory.Heap.BuddyCalls

/-!
# Runs of the buddy allocator

A run starts with one range and goes on with calls of `allocPages` and `freePages` and with writes
of the clients to the blocks they hold.  In every state of a run the free blocks and the blocks in
use tile the range, the free lists are in order and no two buddies are free (`run_tiles`), if no
block that is freed finds a tag just behind the range.

That tag matters for one place of the range only: `containsInSameRegion` adds the size of the merged
block without a carry, so that a merged block which ends with the address space ends at zero and
passes. `tag_behind_breaks_tiling` is such a run: the free list gets a block that is larger than the
range.

Without such a tag the free lists depend on the addresses in use only (`run_lists_determined`):
there is one way to cover the rest with merged blocks.
-/

namespace CabOS.BuddyPageAllocator

open DyadicBlock FreeBlockNode Finset

/-- The allocator together with the blocks that its clients hold. -/
structure Session where
  /-- The allocator and the memory. -/
  buddy : BuddyPageAllocator
  /-- The orders and bases of the blocks in use. -/
  live : Finset (ℕ × ℕ)

/-- A step of a run. -/
inductive Op where
  | allocPages (order : ℕ)
  | freePages (base order : ℕ)
  /-- The clients change the memory. -/
  | write (mem : Memory)

variable {mem : Memory} {pages lo hi a : ℕ}

namespace Session

/-- One range is given to a new allocator. -/
def start (mem : Memory) (lo pages : ℕ) : Session := ⟨(new mem).addRange lo pages, ∅⟩

/-- Run one step. -/
def step (t : Session) : Op → Session
  | .allocPages order =>
    match t.buddy.allocPages order with
    | (some b, s) => ⟨s, insert (order, b) t.live⟩
    | (none, s) => ⟨s, t.live⟩
  | .freePages base order => ⟨t.buddy.freePages base order, t.live.erase (order, base)⟩
  | .write mem => ⟨{ t.buddy with mem := mem }, t.live⟩

/-- Run several steps. -/
def run (t : Session) (ops : List Op) : Session := ops.foldl step t

/-- Only blocks in use are freed, at the order they were handed out with; clients write to blocks in
use and outside the range, and never the tag of a free block to the start of a block. -/
def Allowed (lo hi : ℕ) (t : Session) : Op → Prop
  | .allocPages _ => True
  | .freePages base order => (order, base) ∈ t.live
  | .write mem =>
    (∀ a, mem a ≠ t.buddy.mem a → a < lo ∨ hi ≤ a ∨ ∃ x ∈ t.live, a ∈ span 12 x) ∧
    TagFree mem t.live

/-- A block is freed only while no tag lies just behind the range. -/
def Unfooled (hi : ℕ) (t : Session) : Op → Prop
  | .freePages _ _ => Behind hi t.buddy.mem
  | _ => True

/-- What holds in every state of a run. -/
structure Inv (lo hi : ℕ) (t : Session) (F : ℕ → List ℕ) : Prop where
  buddy : BuddyInv lo hi t.buddy F t.live
  noBuddies : NoBuddies F
  tagFree : TagFree t.buddy.mem t.live
  /-- The range is the only region, or empty. -/
  regions : t.buddy.regions = [⟨lo, hi⟩] ∨ lo = hi

variable {lo hi : ℕ} {t : Session} {F : ℕ → List ℕ}

section

variable (h : t.Inv lo hi F)
include h

/-- `allocPages` keeps the invariant. -/
lemma Inv.allocPages (order : ℕ) : ∃ F', (t.step (.allocPages order)).Inv lo hi F' := by
  rcases h.buddy.allocPages h.noBuddies order with hnone | ⟨-, b, s', F', hsome, ht⟩
  · refine ⟨F, ?_⟩
    rw [step, hnone]
    exact h
  · refine ⟨F', ?_⟩
    rw [step, hsome]
    refine ⟨?_, ht.noBuddies, ?_, by rw [ht.regions]; exact h.regions⟩
    · rw [coe_insert]
      exact ht.inv
    · rw [coe_insert]
      rintro x (rfl | hx) k hk
      · exact not_tagged_of_magic ht.magic
      · exact ht.untouched.tagFree h.tagFree x hx k hk

/-- A write to blocks in use and outside the range keeps the invariant. -/
lemma Inv.write (hmem : t.Allowed lo hi (.write mem)) : (t.step (.write mem)).Inv lo hi F := by
  refine ⟨h.buddy.congr_mem fun k b hb a ha ha' => ?_, h.noBuddies, hmem.2, h.regions⟩
  -- the node of a free block is neither outside the range nor in a block in use
  by_contra hne
  have hspan : a ∈ span 12 (k, b) := BuddyInv.mem_span_of_node ha ha'
  have hrange := h.buddy.tiling.mem_range (.inl hb) hspan
  rcases hmem.1 a hne with hlt | hge | ⟨x, hx, hax⟩
  · omega
  · omega
  · have heq := h.buddy.tiling.disjoint x (.inr hx) (k, b) (.inl hb) a hax hspan
    exact h.buddy.apart x hx (heq ▸ hb)

section

variable (hsmall : hi < lo + width 12 (maxOrder + 1))
include hsmall

/-- `freePages` of a block in use keeps the invariant. -/
lemma Inv.freePages {base order : ℕ} (hlive : (order, base) ∈ t.live)
    (hbehind : Behind hi t.buddy.mem) :
    ∃ F', (t.step (.freePages base order)).Inv lo hi F' := by
  have hinsert : (↑t.live : Set (ℕ × ℕ)) = insert (order, base) ↑(t.live.erase (order, base)) := by
    rw [← coe_insert, insert_erase hlive]
  have hbuddy := h.buddy
  have htag := h.tagFree
  rw [hinsert] at hbuddy htag
  have hregions : t.buddy.regions = [⟨lo, hi⟩] := by
    refine h.regions.resolve_right fun heq => ?_
    -- an empty range has no blocks
    have := h.buddy.tiling.mem_range (.inr hlive) base_mem_span
    omega
  obtain ⟨F', D, hr⟩ := hbuddy.freePages (by simp) hregions h.noBuddies htag hbehind
  obtain rfl := hr.lost hsmall
  have hinv := hr.inv
  rw [Set.union_empty] at hinv
  exact ⟨F', hinv, hr.noBuddies, hr.untouched.tagFree (htag.mono (Set.subset_insert _ _)),
    .inl (hr.regions.trans hregions)⟩

/-- A step keeps the invariant. -/
lemma Inv.step {op : Op} (hop : t.Allowed lo hi op) (hsafe : t.Unfooled hi op) :
    ∃ F', (t.step op).Inv lo hi F' := by
  cases op with
  | allocPages order => exact h.allocPages order
  | freePages base order => exact h.freePages hsmall hop hsafe
  | write mem => exact ⟨F, h.write hop⟩

/-- A run keeps the invariant. -/
lemma Inv.run {ops : List Op} (hops : AlongRun Session.step (Allowed lo hi) t ops)
    (hsafe : AlongRun Session.step (Unfooled hi) t ops) : ∃ F', (t.run ops).Inv lo hi F' := by
  induction ops generalizing t F with
  | nil => exact ⟨F, h⟩
  | cons op ops ih =>
    obtain ⟨F', h'⟩ := h.step hsmall hops.1 hsafe.1
    exact ih h' hops.2 hsafe.2

end

end

/-- The invariant holds after the range was added. -/
lemma Inv.start (mem : Memory) (hlo : pageSize ∣ lo) (hhi : lo + pages * pageSize = hi)
    (hbound : hi < usizeBound) : ∃ F, (Session.start mem lo pages).Inv lo hi F := by
  obtain ⟨F, hinv, hno, -, hregions⟩ := addRange_inv mem hlo hhi hbound
  refine ⟨F, ?_, hno, fun x hx => absurd hx (by simp [Session.start]), hregions⟩
  rw [Session.start, coe_empty]
  exact hinv

end Session

/-! ## Tiling -/

/-- The range does not have room for two blocks of the largest order. -/
lemma range_small (hpages : pages < 2 ^ (maxOrder + 1)) :
    lo + pages * pageSize < lo + width 12 (maxOrder + 1) := by
  have := Nat.mul_lt_mul_of_pos_right hpages (show 0 < pageSize by decide)
  rw [two_pow_mul_pageSize] at this
  omega

/-- In every state of a run the free blocks and the blocks in use tile the range, aligned to their
sizes; the list of every order is doubly linked through nodes with the tag and the order; and no two
free blocks of an order below the largest are buddies.  A range of fewer than `2 ^ (maxOrder + 1)`
pages is given to the allocator, and no freed block meets a tag just behind it. -/
theorem run_tiles (mem : Memory) (lo pages : ℕ) (ops : List Op) (hlo : pageSize ∣ lo)
    (hpages : pages < 2 ^ (maxOrder + 1)) (hbound : lo + pages * pageSize < usizeBound)
    (hops : AlongRun Session.step (Session.Allowed lo (lo + pages * pageSize))
      (Session.start mem lo pages) ops)
    (hsafe : AlongRun Session.step (Session.Unfooled (lo + pages * pageSize))
      (Session.start mem lo pages) ops) :
    ∃ F : ℕ → List ℕ, BuddyInv lo (lo + pages * pageSize)
      ((Session.start mem lo pages).run ops).buddy F
          ((Session.start mem lo pages).run ops).live ∧ NoBuddies F := by
  obtain ⟨F, hstart⟩ := Session.Inv.start mem hlo rfl hbound
  obtain ⟨F', hrun⟩ := hstart.run (range_small hpages) hops hsafe
  exact ⟨F', hrun.buddy, hrun.noBuddies⟩

/-- A range in low memory does not end one block before the end of the address space. -/
lemma not_tagged_behind : Behind (16384 + 4 * pageSize) mem := by
  intro k hk heq
  have : width 12 k ≤ width 12 18 := Nat.le_of_dvd width_pos (width_dvd_width hk)
  have hmax : width 12 18 = 2 ^ 30 := rfl
  simp only [pageSize, usizeBound] at heq
  omega

/-- Four pages, of which the first two are handed out: the block is split twice. -/
def twoOfFour : Session := (Session.start (fun _ => 0) 16384 4).run [.allocPages 0, .allocPages 0]

/-- The owners fill their pages with sevens. -/
def sevens : Memory := fun a => if 24576 ≤ a ∧ a < 32768 then twoOfFour.buddy.mem a else 7

lemma twoOfFour_live : twoOfFour.live = {(0, 16384), (0, 20480)} := by
  decide +kernel

/-- Two of four pages are handed out, filled and given back, and the four pages are merged. -/
theorem run_tiles_four_pages : ∃ F : ℕ → List ℕ,
    BuddyInv 16384 (16384 + 4 * pageSize) (twoOfFour.run
        [.write sevens, .freePages 16384 0, .freePages 20480 0]).buddy F
      (twoOfFour.run [.write sevens, .freePages 16384 0, .freePages 20480 0]).live ∧
    NoBuddies F := by
  have hfirst : (0, 16384) ∈ (twoOfFour.step (.write sevens)).live :=
    twoOfFour_live.ge (by simp)
  have hsecond : (0, 20480) ∈
    ((twoOfFour.step (.write sevens)).step (.freePages 16384 0)).live := by
    decide +kernel
  refine run_tiles (fun _ => 0) 16384 4 [.allocPages 0, .allocPages 0, .write sevens,
    .freePages 16384 0, .freePages 20480 0] (by decide) (by decide) (by decide)
    ⟨trivial, trivial, ⟨fun a hne => ?_, fun x hx k _ htag => ?_⟩, hfirst, hsecond, trivial⟩
    ⟨trivial, trivial, trivial, not_tagged_behind, not_tagged_behind, trivial⟩
  · change sevens a ≠ twoOfFour.buddy.mem a at hne
    change _ ∨ _ ∨ ∃ x ∈ twoOfFour.live, a ∈ span 12 x
    rw [twoOfFour_live]
    by_cases hupper : 24576 ≤ a ∧ a < 32768
    · exact absurd (if_pos hupper) hne
    · simp only [Finset.mem_insert, mem_singleton, exists_eq_or_imp, exists_eq_left, mem_span]
      rw [← pageSize_eq]
      simp only [pageSize]
      omega
  · change x ∈ (twoOfFour.live : Set (ℕ × ℕ)) at hx
    rw [twoOfFour_live] at hx
    have hmagic : (FreeBlockNode.read sevens x.2).magic ≠ buddyFreeMagic := by
      rcases (by simpa using hx : x = (0, 16384) ∨ x = (0, 20480)) with rfl | rfl <;>
        decide +kernel
    exact absurd htag.1 hmagic

/-! ## A tag behind the range -/

/-- The range is the last page but one of the address space, and the last page starts with a tag. -/
def lastPages : Session :=
  Session.start (setMagic (fun _ => 0) (2 ^ 64 - 4096) buddyFreeMagic) (2 ^ 64 - 8192) 1

/-- When the page is given back it is merged with the last page: the sum in the test for the region
wraps around to zero, and the list of order one gets a block that reaches beyond the range. -/
lemma lastPages_run : AlongRun Session.step (Session.Allowed (2 ^ 64 - 8192)
    (2 ^ 64 - 4096)) lastPages
        [.allocPages 0, .freePages (2 ^ 64 - 8192) 0] ∧
      (lastPages.run [.allocPages 0, .freePages (2 ^ 64 - 8192) 0]).live = ∅ ∧
      (lastPages.run [.allocPages 0, .freePages (2 ^ 64 - 8192) 0]).buddy.freeHeads 1 =
        2 ^ 64 - 8192 := by
  have hlive : (0, 2 ^ 64 - 8192) ∈ (lastPages.step (.allocPages 0)).live := by decide +kernel
  exact ⟨⟨trivial, hlive, trivial⟩, by decide +kernel, by decide +kernel⟩

/-- With a tag just behind the range, a page that is given back ends up in a block that reaches
beyond the range. -/
theorem tag_behind_breaks_tiling :
    AlongRun Session.step (Session.Allowed (2 ^ 64 - 8192) (2 ^ 64 - 4096))
        (Session.start (setMagic (fun _ => 0) (2 ^ 64 - 4096) buddyFreeMagic) (2 ^ 64 - 8192) 1)
        [.allocPages 0, .freePages (2 ^ 64 - 8192) 0] ∧
      ¬ ∃ F : ℕ → List ℕ, BuddyInv (2 ^ 64 - 8192) (2 ^ 64 - 4096)
        ((Session.start (setMagic (fun _ => 0) (2 ^ 64 - 4096) buddyFreeMagic)
          (2 ^ 64 - 8192) 1).run
          [.allocPages 0, .freePages (2 ^ 64 - 8192) 0]).buddy F
        ((Session.start (setMagic (fun _ => 0) (2 ^ 64 - 4096) buddyFreeMagic)
          (2 ^ 64 - 8192) 1).run
          [.allocPages 0, .freePages (2 ^ 64 - 8192) 0]).live := by
  obtain ⟨hallowed, -, hhead⟩ := lastPages_run
  refine ⟨hallowed, ?_⟩
  rintro ⟨F, hinv⟩
  have hchain := hinv.chain 1 (by decide)
  change Chain _ _ ((lastPages.run _).buddy.freeHeads 1) _ at hchain
  rw [hhead] at hchain
  obtain ⟨ys, hF, -⟩ := hchain.exists_cons (by rw [buddyNone_eq]; decide)
  have hin := (hinv.tiling.inside (1, 2 ^ 64 - 8192) (.inl (by simp [hF]))).2
  exact absurd hin (by decide)

/-! ## Lists and history -/

/-- The lists of every order hold the same blocks, in any order. -/
def SameLists (s s' : BuddyPageAllocator) : Prop :=
  ∀ k ≤ maxOrder, ∃ xs ys : List ℕ, Chain (nextIn s.mem) buddyNone (s.freeHeads k) xs ∧
    Chain (nextIn s'.mem) buddyNone (s'.freeHeads k) ys ∧ xs.Nodup ∧ ys.Nodup ∧ ∀ b, b ∈ xs ↔ b ∈ ys

/-- The addresses of the blocks in use. -/
def Session.used (t : Session) : Set ℕ := {a | ∃ x ∈ t.live, a ∈ span 12 x}

variable {s : BuddyPageAllocator} {L : Set (ℕ × ℕ)} {F : ℕ → List ℕ}

/-- The free blocks are merged. -/
lemma BuddyInv.merged (h : BuddyInv lo hi s F L) (hno : NoBuddies F) :
    Merged 12 maxOrder (freeBlocks F) where
  aligned x hx := h.tiling.aligned x (.inl hx)
  disjoint x hx y hy := h.tiling.disjoint x (.inl hx) y (.inl hy)
  order_le x hx := h.order_le x (.inl hx)
  noBuddies k hk b hb := hno k hk b hb

/-- The free blocks cover what is not in use. -/
lemma BuddyInv.free_cover (h : BuddyInv lo hi s F L) :
    (∃ x ∈ freeBlocks F, a ∈ span 12 x) ↔ (lo ≤ a ∧ a < hi) ∧ ¬ ∃ x ∈ L, a ∈ span 12 x := by
  constructor
  · rintro ⟨x, hx, hax⟩
    refine ⟨h.tiling.mem_range (.inl hx) hax, ?_⟩
    rintro ⟨y, hy, hay⟩
    have heq := h.tiling.disjoint y (.inr hy) x (.inl hx) a hay hax
    exact h.apart y hy (heq ▸ hx)
  · rintro ⟨⟨hlo, hhi⟩, hnot⟩
    obtain ⟨x, hx | hx, hax⟩ := h.tiling.cover a hlo hhi
    · exact ⟨x, hx, hax⟩
    · exact absurd ⟨x, hx, hax⟩ hnot

/-- Two states in which the same addresses are in use have the same free blocks. -/
lemma Session.Inv.sameLists {t t' : Session} {F' : ℕ → List ℕ} (h : t.Inv lo hi F)
    (h' : t'.Inv lo hi F') (hused : t.used = t'.used) : SameLists t.buddy t'.buddy := by
  have hcover : ∀ a, (∃ x ∈ freeBlocks F, a ∈ span 12 x) ↔ ∃ x ∈ freeBlocks F', a ∈ span 12 x := by
    intro a
    rw [h.buddy.free_cover, h'.buddy.free_cover]
    exact and_congr_right fun _ => not_congr (Set.ext_iff.mp hused a)
  have hmerged := h.buddy.merged h.noBuddies
  have hmerged' := h'.buddy.merged h'.noBuddies
  intro k hk
  refine ⟨F k, F' k, h.buddy.chain k hk, h'.buddy.chain k hk, h.buddy.nodup k, h'.buddy.nodup k,
    fun b => ⟨fun hb => ?_, fun hb => ?_⟩⟩
  · exact hmerged.subset_of_cover hmerged' hcover (show (k, b) ∈ freeBlocks F from hb)
  · exact hmerged'.subset_of_cover hmerged (fun a => (hcover a).symm)
      (show (k, b) ∈ freeBlocks F' from hb)

/-- The lists depend on the addresses in use only: two runs over the same range of fewer than `2 ^
(maxOrder + 1)` pages that end with the same addresses in use end with the same free blocks of every
order.  In particular, when all blocks have been given back, in whatever order, the lists are those
after `addRange`.  No freed block meets a tag just behind the range. -/
theorem run_lists_determined (mem : Memory) (lo pages : ℕ) (ops : List Op) (hlo : pageSize ∣ lo)
    (hpages : pages < 2 ^ (maxOrder + 1)) (hbound : lo + pages * pageSize < usizeBound)
    (hops : AlongRun Session.step (Session.Allowed lo (lo + pages * pageSize))
      (Session.start mem lo pages) ops)
    (hsafe : AlongRun Session.step (Session.Unfooled (lo + pages * pageSize))
      (Session.start mem lo pages) ops) :
    (((Session.start mem lo pages).run ops).live = ∅ →
      SameLists ((Session.start mem lo pages).run ops).buddy (Session.start mem lo pages).buddy) ∧
    ∀ (mem' : Memory) (ops' : List Op),
      AlongRun Session.step (Session.Allowed lo (lo + pages * pageSize))
        (Session.start mem' lo pages) ops' →
      AlongRun Session.step (Session.Unfooled (lo + pages * pageSize))
        (Session.start mem' lo pages) ops' →
      ((Session.start mem lo pages).run ops).used = ((Session.start mem' lo pages).run ops').used →
      SameLists ((Session.start mem lo pages).run ops).buddy
        ((Session.start mem' lo pages).run ops').buddy := by
  obtain ⟨F, hstart⟩ := Session.Inv.start mem hlo rfl hbound
  obtain ⟨F', hrun⟩ := hstart.run (range_small hpages) hops hsafe
  refine ⟨fun hlive => ?_, fun mem' ops' hops' hsafe' hused => ?_⟩
  · refine hrun.sameLists hstart ?_
    rw [Session.used, hlive]
    rfl
  · obtain ⟨F₀, hstart'⟩ := Session.Inv.start mem' hlo rfl hbound
    obtain ⟨F₁, hrun'⟩ := hstart'.run (range_small hpages) hops' hsafe'
    exact hrun.sameLists hrun' hused

/-- Two of four pages are handed out and given back, and the four pages are one block again. -/
theorem run_lists_four_pages :
    SameLists (twoOfFour.run [.freePages 20480 0, .freePages 16384 0]).buddy
      (Session.start (fun _ => 0) 16384 4).buddy := by
  have hsecond : (0, 20480) ∈ twoOfFour.live := twoOfFour_live.ge (by simp)
  have hfirst : (0, 16384) ∈ (twoOfFour.step (.freePages 20480 0)).live := by decide +kernel
  exact (run_lists_determined (fun _ => 0) 16384 4
    [.allocPages 0, .allocPages 0, .freePages 20480 0, .freePages 16384 0] (by decide) (by decide)
    (by decide) ⟨trivial, trivial, hsecond, hfirst, trivial⟩
    ⟨trivial, trivial, not_tagged_behind, not_tagged_behind, trivial⟩).1 (by decide +kernel)

/-- With a tag just behind the range, a page that was handed out and given back is not on its list
again. -/
theorem tag_behind_breaks_lists :
    AlongRun Session.step (Session.Allowed (2 ^ 64 - 8192) (2 ^ 64 - 4096)) lastPages
        [.allocPages 0, .freePages (2 ^ 64 - 8192) 0] ∧
      (lastPages.run [.allocPages 0, .freePages (2 ^ 64 - 8192) 0]).live = ∅ ∧
      ¬ SameLists (lastPages.run [.allocPages 0, .freePages (2 ^ 64 - 8192) 0]).buddy
      lastPages.buddy := by
  obtain ⟨hallowed, hlive, hhead⟩ := lastPages_run
  refine ⟨hallowed, hlive, fun hsame => ?_⟩
  obtain ⟨xs, ys, hx, hy, -, -, hmem⟩ := hsame 1 (by decide)
  rw [hhead] at hx
  obtain ⟨zs, rfl, -⟩ := hx.exists_cons (by rw [buddyNone_eq]; decide)
  have hnone : lastPages.buddy.freeHeads 1 = buddyNone := by decide +kernel
  rw [hnone] at hy
  obtain rfl := hy.eq_nil_iff.mp rfl
  exact absurd ((hmem _).mp List.mem_cons_self) (by simp)

/-- The memory in which a client has written the tag of a free page. -/
def tagMem (mem : Memory) (p : ℕ) : Memory :=
  setPrev (setNext (setOrder (setMagic mem p buddyFreeMagic) p 0) p buddyNone) p buddyNone

lemma tagMem_of_not_mem {p : ℕ} (ha : a < p ∨ p + 24 ≤ a) : tagMem mem p a = mem a := by
  rw [tagMem, setPrev_of_not_mem ha, setNext_of_not_mem ha, setOrder_of_not_mem ha,
    setMagic_of_not_mem ha]

end CabOS.BuddyPageAllocator
