import CabOS.Memory.Heap.BuddyRuns

/-!
# The buddy allocator with several ranges

Ranges are given to the allocator at any time, and clients store what they like in the blocks they
hold. To use the invariant of one range, the whole address space up to its last page is seen as one:
the pages that were never given to the allocator count as blocks in use that nobody gives back
(`gaps`), and so do the upper halves that `freePages` forgets when it merges two blocks of the
largest order.

`freePages` merges a block with real free buddies only, writes to free blocks only and leaves the
blocks in use alone, if none of them starts with the tag of a free block (`freePages_merges_free`).
What the clients store decides about that: `freePages_merges_live` is a run in which a page that
someone holds is merged and handed out a second time.
-/

namespace CabOS.BuddyPageAllocator

open DyadicBlock FreeBlockNode List Nat Finset Set

/-- The allocator, the blocks that its clients hold, and the ranges that were added. -/
structure Holdings where
  buddy : BuddyPageAllocator
  /-- The orders and bases of the blocks in use. -/
  live : Finset (ℕ × ℕ)
  /-- The ranges, also those that `addRegion` had no room for. -/
  ranges : List PhysRegion

/-- A call, or a write of the clients. -/
inductive HoldingsOp where
  | addRange (base pages : ℕ)
  | allocPages (order : ℕ)
  | freePages (base order : ℕ)
  | write (mem : Memory)

namespace Holdings

/-- An allocator without ranges. -/
def start (mem : Memory) : Holdings := ⟨new mem, ∅, []⟩

/-- Run one step. -/
def step (t : Holdings) : HoldingsOp → Holdings
  | .addRange base pages =>
    { t with
      buddy := t.buddy.addRange base pages
      ranges := ⟨base, base + pages * pageSize⟩ :: t.ranges }
  | .allocPages order =>
    match t.buddy.allocPages order with
    | (some b, s) => { t with buddy := s, live := insert (order, b) t.live }
    | (none, s) => { t with buddy := s }
  | .freePages base order =>
    { t with buddy := t.buddy.freePages base order, live := t.live.erase (order, base) }
  | .write mem => { t with buddy := { t.buddy with mem := mem } }

/-- Run several steps. -/
def run (t : Holdings) (ops : List HoldingsOp) : Holdings := ops.foldl step t

/-- The address lies outside all ranges. -/
def Outside (t : Holdings) (a : ℕ) : Prop := ∀ r ∈ t.ranges, a < r.base ∨ r.limit ≤ a

/-- Ranges consist of pages and do not overlap; only blocks in use are freed, at the order they were
handed out with; and clients write to blocks in use and outside the ranges, whatever they like. -/
def Allowed (t : Holdings) : HoldingsOp → Prop
  | .addRange base pages => pageSize ∣ base ∧ base + pages * pageSize < usizeBound ∧
    ∀ r ∈ t.ranges, base + pages * pageSize ≤ r.base ∨ r.limit ≤ base
  | .allocPages _ => True
  | .freePages base order => (order, base) ∈ t.live
  | .write mem => ∀ a, mem a ≠ t.buddy.mem a → (∃ x ∈ t.live, a ∈ span 12 x) ∨ t.Outside a

/-- When a block is freed, no block in use starts with a tag, and there is none at the place outside
the ranges that the test for the region lets through because the sum wraps around. -/
def Untagged (t : Holdings) : HoldingsOp → Prop
  | .freePages _ _ => TagFree t.buddy.mem t.live ∧
    ∀ k ≤ maxOrder, t.Outside (usizeBound - width 12 k) →
    ¬ Tagged t.buddy.mem (usizeBound - width 12 k) k
  | _ => True

end Holdings

/-! ## The address space as one range -/

/-- The last page of the address space. -/
def lastPage : ℕ := usizeBound - pageSize

/-- The pages from an address on. -/
def pagesFrom (base pages : ℕ) : Set (ℕ × ℕ) :=
  {x | x.1 = 0 ∧ ∃ i < pages, x.2 = base + pageSize * i}

/-- The pages outside the ranges. -/
def gaps (ranges : List PhysRegion) : Set (ℕ × ℕ) :=
  {x | x.1 = 0 ∧ pageSize ∣ x.2 ∧ x.2 < lastPage ∧ ∀ r ∈ ranges, x.2 < r.base ∨ r.limit ≤ x.2}

/-- A range consists of pages below the last one. -/
structure RangeOk (r : PhysRegion) : Prop where
  base : pageSize ∣ r.base
  limit : pageSize ∣ r.limit
  le : r.limit ≤ lastPage

variable {a lo hi : ℕ}

lemma mem_span_page {b : ℕ} : a ∈ span 12 (0, b) ↔ b ≤ a ∧ a < b + pageSize := Iff.rfl

/-- The address `a` lies on the page of `a`. -/
lemma mem_span_own_page (a : ℕ) : a ∈ span 12 (0, pageSize * (a / pageSize)) := by
  have hdiv := div_add_mod a pageSize
  have hmod := mod_lt a (show 0 < pageSize by decide)
  rw [mem_span_page]
  omega

/-- A page-aligned end is on the same side of an address as of its page. -/
lemma page_lt_iff {n : ℕ} (hn : pageSize ∣ n) : pageSize * (a / pageSize) < n ↔ a < n := by
  obtain ⟨j, rfl⟩ := hn
  rw [Nat.mul_lt_mul_left (show 0 < pageSize by decide),
    Nat.div_lt_iff_lt_mul (show 0 < pageSize by decide),
    Nat.mul_comm j]

lemma pageSize_dvd_lastPage : pageSize ∣ lastPage := by decide

variable {ranges : List PhysRegion} {s : BuddyPageAllocator} {F : ℕ → List ℕ} {L : Set (ℕ × ℕ)}
  (mem : Memory)

/-- An address outside the ranges lies on a page outside them. -/
lemma page_mem_gaps (hranges : ∀ r ∈ ranges, RangeOk r)
    (ha : a < lastPage) (hout : ∀ r ∈ ranges, a < r.base ∨ r.limit ≤ a) :
    (0, pageSize * (a / pageSize)) ∈ gaps ranges := by
  refine ⟨rfl, Dvd.intro _ rfl, (page_lt_iff pageSize_dvd_lastPage).mpr ha, fun r hr => ?_⟩
  rcases hout r hr with hlt | hge
  · exact .inl ((page_lt_iff (hranges r hr).base).mpr hlt)
  · refine .inr (not_lt.mp fun hlt => ?_)
    exact absurd ((page_lt_iff (hranges r hr).limit).mp hlt) (not_lt.mpr hge)

/-- A new allocator: the whole address space is a gap. -/
lemma BuddyInv.new_gaps : BuddyInv 0 lastPage (BuddyPageAllocator.new mem) (fun _ => [])
    (gaps []) := by
  have hunion : freeBlocks (fun _ => []) ∪ gaps [] = gaps [] := by
    rw [union_eq_right]
    intro x hx
    simp [freeBlocks] at hx
  refine ⟨by decide, ?_, ?_, fun x _ hfree => by simp [freeBlocks] at hfree, fun k => nodup_nil,
    fun k _ => rfl, fun k => trivial, fun k b hb => absurd hb (by simp)⟩
  · rw [hunion]
    refine ⟨?_, ?_, ?_, ?_⟩
    · rintro ⟨k, b⟩ ⟨rfl, hdvd, -, -⟩
      exact hdvd
    · rintro ⟨k, b⟩ ⟨rfl, hdvd, hlt, -⟩
      exact ⟨zero_le _, add_le_of_dvd hdvd pageSize_dvd_lastPage hlt⟩
    · rintro ⟨k, b⟩ ⟨rfl, hdvd, -, -⟩ ⟨j, c⟩ ⟨rfl, hdvd', -, -⟩ a ha ha'
      rcases lt_trichotomy b c with hlt | rfl | hlt
      · have := add_le_of_dvd hdvd hdvd' hlt
        have := mem_span_page.mp ha
        have := mem_span_page.mp ha'
        omega
      · rfl
      · have := add_le_of_dvd hdvd' hdvd hlt
        have := mem_span_page.mp ha
        have := mem_span_page.mp ha'
        omega
    · intro a _ ha
      exact ⟨_, page_mem_gaps (by simp) ha (by simp), mem_span_own_page a⟩
  · rw [hunion]
    rintro x ⟨hx, -⟩
    rw [hx]
    exact zero_le _

/-! ## Adding a range -/

section

variable {s : BuddyPageAllocator} {F : ℕ → List ℕ} {L : Set (ℕ × ℕ)} {base pages k : ℕ} {limit : ℕ}

/-- The first pages are those of a block. -/
lemma pagesFrom_split (hfit : 2 ^ k ≤ pages) :
    pagesFrom base pages = pagesFrom base (2 ^ k) ∪ pagesFrom (base + width 12 k)
      (pages - 2 ^ k) := by
  have hwidth : width 12 k = pageSize * 2 ^ k := by rw [← two_pow_mul_pageSize, mul_comm]
  ext ⟨j, b⟩
  constructor
  · rintro ⟨hj, i, hi, hb⟩
    rcases lt_or_ge i (2 ^ k) with hlt | hge
    · exact .inl ⟨hj, i, hlt, hb⟩
    · refine .inr ⟨hj, i - 2 ^ k, by omega, ?_⟩
      rw [hwidth, add_assoc, ← mul_add, Nat.add_sub_cancel' hge]
      exact hb
  · rintro (⟨hj, i, hi, hb⟩ | ⟨hj, i, hi, hb⟩)
    · exact ⟨hj, i, by omega, hb⟩
    · refine ⟨hj, 2 ^ k + i, by omega, ?_⟩
      rw [mul_add, ← hwidth, ← add_assoc]
      exact hb

/-- The pages of a block cover it. -/
lemma exists_page_iff : (∃ x ∈ pagesFrom base (2 ^ k), a ∈ span 12 x) ↔ a ∈ span 12 (k, base) := by
  have hwidth : width 12 k = pageSize * 2 ^ k := by rw [← two_pow_mul_pageSize, mul_comm]
  constructor
  · rintro ⟨⟨j, b⟩, ⟨rfl, i, hi, rfl⟩, ha⟩
    have ha' := mem_span_page.mp ha
    have hmul : pageSize * (i + 1) ≤ pageSize * 2 ^ k := mul_le_mul_left _ hi
    rw [mul_add, mul_one] at hmul
    simp only [mem_span, hwidth]
    omega
  · intro ha
    simp only [mem_span, hwidth] at ha
    have hdiv := div_add_mod (a - base) pageSize
    have hmod := mod_lt (a - base) (show 0 < pageSize by decide)
    refine ⟨(0, base + pageSize * ((a - base) / pageSize)), ⟨rfl, _, ?_, rfl⟩, ?_⟩
    · rw [div_lt_iff_lt_mul (by decide), mul_comm]
      omega
    · rw [mem_span_page]
      omega

/-- Pages in use that form a block are seen as this block. -/
lemma BuddyInv.join (h : BuddyInv 0 lastPage s F (L ∪ pagesFrom base (2 ^ k))) (hk : k ≤ maxOrder)
    (hdvd : width 12 k ∣ base) (hapart : ∀ x ∈ pagesFrom base (2 ^ k), x ∉ L) :
    BuddyInv 0 lastPage s F (insert (k, base) L) ∧ (k, base) ∉ L := by
  have hpage : (0, base) ∈ pagesFrom base (2 ^ k) := ⟨rfl, 0, Nat.two_pow_pos k, rfl⟩
  have hX : pagesFrom base (2 ^ k) ⊆ freeBlocks F ∪ (L ∪ pagesFrom base (2 ^ k)) :=
    fun x hx => .inr (.inr hx)
  -- the block itself is neither free nor in use
  have hnot : (k, base) ∈ freeBlocks F ∪ L → False := by
    intro hmem
    have hmem' : (k, base) ∈ freeBlocks F ∪ (L ∪ pagesFrom base (2 ^ k)) := hmem.imp_right .inl
    have heq := h.tiling.disjoint _ hmem' _ (hX hpage) base base_mem_span base_mem_span
    rw [heq] at hmem
    exact hmem.elim (h.apart _ (.inr hpage)) (hapart _ hpage)
  have htiling := h.tiling.replace (Y := {(k, base)}) hX (by rintro y rfl; exact hdvd)
    (by rintro x rfl y rfl a - -; rfl) fun a => by
    simp only [exists_page_iff, mem_singleton_iff, exists_eq_left]
  have hblocks :
    {(k, base)} ∪ ((freeBlocks F ∪ (L ∪ pagesFrom base (2 ^ k))) \ pagesFrom base (2 ^ k)) =
      freeBlocks F ∪ insert (k, base) L := by
    ext x
    simp only [mem_union, mem_insert_iff, mem_singleton_iff, mem_sdiff]
    constructor
    · tauto
    · rintro (hfree | rfl | hL)
      · exact .inr ⟨.inl hfree, fun hp => h.apart x (.inr hp) hfree⟩
      · exact .inl rfl
      · exact .inr ⟨.inr (.inl hL), fun hp => hapart x hp hL⟩
  refine ⟨h.reuse (hblocks ▸ htiling) ?_ ?_, fun hmem => hnot (.inr hmem)⟩
  · rintro x (rfl | hx)
    · exact hk
    · exact h.order_le x (.inr (.inl hx))
  · rintro x (rfl | hx) hfree
    · exact hnot (.inl hfree)
    · exact h.apart x (.inl hx) hfree

/-- The list of regions does not matter for the free lists. -/
lemma BuddyInv.addRegion (h : BuddyInv 0 lastPage s F L) :
    BuddyInv 0 lastPage (s.addRegion base limit) F L := by
  rw [BuddyPageAllocator.addRegion]
  split_ifs
  · exact h
  · exact ⟨h.bound, h.tiling, h.order_le, h.apart, h.nodup, h.chain, h.back, h.tagged⟩

lemma addRegion_mem : (s.addRegion base limit).mem = s.mem := by
  rw [addRegion]
  split_ifs <;> rfl

/-- A region that is remembered is one that was added. -/
lemma mem_addRegion {r : PhysRegion} (hr : r ∈ (s.addRegion base limit).regions) :
    r = ⟨base, limit⟩ ∨ r ∈ s.regions := by
  rw [addRegion] at hr
  split_ifs at hr
  · exact .inr hr
  · rcases mem_append.mp hr with hr | hr
    · exact .inr hr
    · exact .inl (List.mem_singleton.mp hr)

section

variable (h : BuddyInv 0 lastPage s F (L ∪ pagesFrom base pages))
include h

/-- Carving makes pages in use free. -/
lemma BuddyInv.carve_pages (hdvd : pageSize ∣ base) (hapart : ∀ x ∈ pagesFrom base pages, x ∉ L) :
    ∃ F', BuddyInv 0 lastPage (s.carve base pages) F' L ∧
    Untouched 0 lastPage L s.mem (s.carve base pages).mem ∧
      (s.carve base pages).regions = s.regions := by
  induction pages using Nat.strong_induction_on generalizing s F base with
  | h pages ih =>
    rcases Nat.eq_zero_or_pos pages with rfl | hpages
    · have hempty : pagesFrom base 0 = ∅ := by
        ext x
        simp [pagesFrom]
      rw [hempty, union_empty] at h
      rw [carve_zero]
      exact ⟨F, h, Untouched.refl _ _ _ _, rfl⟩
    · obtain ⟨k, hkdef⟩ : ∃ k, k = pickOrder base pages maxOrder := ⟨_, rfl⟩
      have hk : k ≤ maxOrder := hkdef ▸ pickOrder_le_self _ _ _
      have hfit : 2 ^ k ≤ pages := hkdef ▸ pickOrder_le hpages _
      have hal : width 12 k ∣ base := hkdef ▸ pickOrder_dvd hdvd _ _
      have hpos := Nat.two_pow_pos k
      rw [carve_of_pos hpages hkdef]
      rw [pagesFrom_split hfit] at h hapart
      -- the other pages stay in use for now
      have hfirst : ∀ x ∈ pagesFrom base (2 ^ k),
        x ∉ L ∪ pagesFrom (base + width 12 k) (pages - 2 ^ k) := by
        rintro x hx (hL | hlater)
        · exact hapart x (.inl hx) hL
        · obtain ⟨-, i, hi, hb⟩ := hx
          obtain ⟨-, j, -, hb'⟩ := hlater
          have hmul := (Nat.mul_lt_mul_left (show 0 < pageSize by decide)).mpr hi
          rw [← two_pow_mul_pageSize, Nat.mul_comm (2 ^ k)] at hb'
          omega
      have hregroup : L ∪ (pagesFrom base (2 ^ k) ∪ pagesFrom (base + width 12 k) (pages - 2 ^ k)) =
          L ∪ pagesFrom (base + width 12 k) (pages - 2 ^ k) ∪ pagesFrom base (2 ^ k) := by
        rw [union_comm (pagesFrom base (2 ^ k)), union_assoc]
      rw [hregroup] at h
      obtain ⟨hjoin, hfresh⟩ := h.join hk hal hfirst
      have hpush := hjoin.push hfresh
      obtain ⟨F', hinv, hunt, hregions⟩ := ih (pages - 2 ^ k) (by omega) hpush
        (dvd_add hdvd (width_dvd_width (zero_le k))) fun x hx => hapart x (.inr hx)
      refine ⟨F', hinv, Untouched.trans ?_ hunt, hregions⟩
      exact (hjoin.untouched_pushFree hfresh).mono fun x hx => ⟨x, .inl hx, subset_rfl⟩

/-- Adding a range makes its pages free. -/
lemma BuddyInv.addRange_pages (hdvd : pageSize ∣ base)
    (hend : base + pages * pageSize < usizeBound) (hapart : ∀ x ∈ pagesFrom base pages, x ∉ L) :
    ∃ F', BuddyInv 0 lastPage (s.addRange base pages) F' L ∧
      Untouched 0 lastPage L s.mem (s.addRange base pages).mem ∧
      ∀ r ∈ (s.addRange base pages).regions, r = ⟨base, base + pages * pageSize⟩ ∨
      r ∈ s.regions := by
  rw [addRange, wadd_eq hend]
  split_ifs with hzero
  · obtain ⟨F', hinv, -, -⟩ := h.carve_pages hdvd hapart
    rw [hzero, carve_zero] at hinv
    exact ⟨F', hinv, Untouched.refl _ _ _ _, fun r hr => .inr hr⟩
  · obtain ⟨F', hinv, hunt, hregions⟩ := h.addRegion.carve_pages hdvd hapart
    rw [addRegion_mem] at hunt
    exact ⟨F', hinv, hunt, fun r hr => mem_addRegion (hregions ▸ hr)⟩

end

/-- A range whose end is an address ends before the last page. -/
lemma rangeOk_of_lt (hdvd : pageSize ∣ base) (hend : base + pages * pageSize < usizeBound) :
    RangeOk ⟨base, base + pages * pageSize⟩ := by
  have hlimit : pageSize ∣ base + pages * pageSize := dvd_add hdvd (Dvd.intro_left _ rfl)
  refine ⟨hdvd, hlimit, ?_⟩
  have := add_le_of_dvd hlimit (show pageSize ∣ usizeBound by decide) hend
  simp only [lastPage]
  omega

/-- A new range is taken out of the gaps. -/
lemma gaps_eq_union (hdvd : pageSize ∣ base) (hend : base + pages * pageSize < usizeBound)
    (hranges : ∀ r ∈ ranges, base + pages * pageSize ≤ r.base ∨ r.limit ≤ base) :
    gaps ranges = gaps (⟨base, base + pages * pageSize⟩ :: ranges) ∪ pagesFrom base pages := by
  have hlast : base + pages * pageSize ≤ lastPage := (rangeOk_of_lt hdvd hend).le
  have hpage : 0 < pageSize := by decide
  ext ⟨k, b⟩
  constructor
  · rintro ⟨rfl, hb, hlt, hout⟩
    by_cases hin : base ≤ b ∧ b < base + pages * pageSize
    · obtain ⟨i, rfl⟩ := hdvd
      obtain ⟨j, rfl⟩ := hb
      simp only [pageSize] at hin
      refine .inr ⟨rfl, j - i, by omega, ?_⟩
      simp only [pageSize]
      omega
    · refine .inl ⟨rfl, hb, hlt, ?_⟩
      rw [List.forall_mem_cons]
      exact ⟨by simp only; omega, hout⟩
  · rintro (⟨rfl, hb, hlt, hout⟩ | ⟨rfl, i, hi, rfl⟩)
    · exact ⟨rfl, hb, hlt, fun r hr => hout r (mem_cons_of_mem _ hr)⟩
    · have hmul : pageSize * (i + 1) ≤ pages * pageSize := by
        rw [mul_comm pages]
        exact mul_le_mul_left _ hi
      rw [mul_add, mul_one] at hmul
      refine ⟨rfl, dvd_add hdvd (Dvd.intro _ rfl), by simp only; omega, fun r hr => ?_⟩
      have := hranges r hr
      simp only
      omega

end

/-! ## Steps -/

/-- The free lists of the allocator. -/
def Lists (s : BuddyPageAllocator) (F : ℕ → List ℕ) : Prop :=
  (∀ k ≤ maxOrder, Chain (nextIn s.mem) buddyNone (s.freeHeads k) (F k)) ∧ ∀ k > maxOrder, F k = []

/-- The lists of the invariant are those of the allocator. -/
lemma BuddyInv.isLists (h : BuddyInv lo hi s F L) : Lists s F := by
  refine ⟨h.chain, fun k hk => eq_nil_iff_forall_not_mem.mpr fun b hb => ?_⟩
  exact absurd (h.order_le (k, b) (.inl hb)) (not_le.mpr hk)

/-- Different blocks do not overlap. -/
lemma BuddyInv.disjoint_span (h : BuddyInv lo hi s F L) {x y : ℕ × ℕ} (hx : x ∈ freeBlocks F ∪ L)
    (hy : y ∈ freeBlocks F ∪ L) (hne : x ≠ y) : Disjoint (span 12 x) (span 12 y) :=
  disjoint_left.mpr fun a hax hay => hne (h.tiling.disjoint x hx y hy a hax hay)

namespace Holdings

/-- What holds in every state of a run; the blocks `D` are lost. -/
structure Inv (t : Holdings) (F : ℕ → List ℕ) (D : Set (ℕ × ℕ)) : Prop where
  buddy : BuddyInv 0 lastPage t.buddy F (↑t.live ∪ D ∪ gaps t.ranges)
  /-- Blocks in use and lost blocks are different, and they are not pages outside the ranges. -/
  apart : ∀ x ∈ t.live, x ∉ D
  placed : ∀ x ∈ (↑t.live ∪ D : Set (ℕ × ℕ)), x ∉ gaps t.ranges
  /-- What is lost does not look free. -/
  lost : TagFree t.buddy.mem D
  ranges : ∀ r ∈ t.ranges, RangeOk r
  regions : ∀ r ∈ t.buddy.regions, r ∈ t.ranges

variable {t : Holdings} {F : ℕ → List ℕ} {D : Set (ℕ × ℕ)}

/-- Nothing has been added at the start. -/
lemma inv_start : (start mem).Inv (fun _ => []) ∅ where
  buddy := by
    rw [start, coe_empty, union_empty, empty_union]
    exact BuddyInv.new_gaps mem
  apart := by simp [start]
  placed := by simp [start]
  lost := fun x hx => hx.elim
  ranges := by simp [start]
  regions := by simp [start, new]

/-- `addRange` keeps the invariant, and no block in use gets a tag. -/
lemma Inv.addRange (h : t.Inv F D) {base pages : ℕ} (hallowed : t.Allowed (.addRange base pages)) :
    ∃ F', (t.step (.addRange base pages)).Inv F' D ∧
      (TagFree t.buddy.mem t.live → TagFree (t.buddy.addRange base pages).mem t.live) := by
  obtain ⟨hdvd, hend, hdisjoint⟩ := hallowed
  have hgaps := gaps_eq_union hdvd hend hdisjoint
  have hbuddy := h.buddy
  rw [hgaps, ← union_assoc] at hbuddy
  have hapart : ∀ x ∈ pagesFrom base pages,
    x ∉ ↑t.live ∪ D ∪ gaps (⟨base, base + pages * pageSize⟩ :: t.ranges) := by
    rintro x hx (hlive | hgap)
    · refine h.placed x hlive ?_
      rw [hgaps]
      exact .inr hx
    · obtain ⟨-, i, hi, hb⟩ := hx
      have hout := hgap.2.2.2 _ mem_cons_self
      have hmul := (Nat.mul_lt_mul_left (show 0 < pageSize by decide)).mpr hi
      rw [Nat.mul_comm pages] at hout
      simp only at hout
      omega
  obtain ⟨F', hinv, hunt, hregions⟩ := hbuddy.addRange_pages hdvd hend hapart
  have huntLive : Untouched 0 lastPage t.live t.buddy.mem (t.buddy.addRange base pages).mem :=
    hunt.mono fun x hx => ⟨x, .inl (.inl hx), subset_rfl⟩
  refine ⟨F', ⟨hinv, h.apart, fun x hx hgap => h.placed x hx ?_, ?_, ?_, fun r hr => ?_⟩,
    huntLive.tagFree⟩
  · rw [hgaps]
    exact .inl hgap
  · have huntD : Untouched 0 lastPage D t.buddy.mem (t.buddy.addRange base pages).mem :=
      hunt.mono fun x hx => ⟨x, .inl (.inr hx), subset_rfl⟩
    exact huntD.tagFree h.lost
  · exact forall_mem_cons.mpr ⟨rangeOk_of_lt hdvd hend, h.ranges⟩
  · rcases hregions r hr with rfl | hr
    · exact mem_cons_self
    · exact mem_cons_of_mem _ (h.regions r hr)

/-- `allocPages` keeps the invariant, and no block in use gets a tag. -/
lemma Inv.allocPages (h : t.Inv F D) (order : ℕ) : ∃ F', (t.step (.allocPages order)).Inv F' D ∧
    (TagFree t.buddy.mem t.live →
      TagFree (t.step (.allocPages order)).buddy.mem (t.step (.allocPages order)).live) := by
  rcases h.buddy.allocPages_handed order with hnone | ⟨-, b, s', F', hsome, ht⟩
  · refine ⟨F, ?_⟩
    rw [step, hnone]
    exact ⟨h, id⟩
  · refine ⟨F', ?_⟩
    rw [step, hsome]
    have huntLive : Untouched 0 lastPage t.live t.buddy.mem s'.mem :=
      ht.untouched.mono fun x hx => ⟨x, .inl (.inl hx), subset_rfl⟩
    refine ⟨⟨?_, ?_, ?_, ?_, h.ranges, fun r hr => h.regions r (ht.regions ▸ hr)⟩, fun htag => ?_⟩
    · rw [coe_insert, insert_union, insert_union]
      exact ht.inv
    · intro x hx hD
      rcases mem_insert.mp hx with rfl | hx
      · exact ht.fresh (.inl (.inr hD))
      · exact h.apart x hx hD
    · rw [coe_insert, insert_union]
      rintro x (rfl | hx) hgap
      · exact ht.fresh (.inr hgap)
      · exact h.placed x hx hgap
    · have huntD : Untouched 0 lastPage D t.buddy.mem s'.mem :=
        ht.untouched.mono fun x hx => ⟨x, .inl (.inr hx), subset_rfl⟩
      exact huntD.tagFree h.lost
    · intro x hx
      rcases mem_insert.mp hx with rfl | hx
      · exact fun k _ => not_tagged_of_magic ht.magic
      · exact huntLive.tagFree htag x hx

/-- The blocks in use other than the one that is freed. -/
def others (t : Holdings) (D : Set (ℕ × ℕ)) (base order : ℕ) : Set (ℕ × ℕ) :=
  ↑(t.live.erase (order, base)) ∪ D ∪ gaps t.ranges

section

variable (h : t.Inv F D) {mem : Memory}
include h

/-- No tag misleads the loop of `freePages`. -/
lemma Inv.honest {base order : ℕ} (huntagged : t.Untagged (.freePages base order)) :
    Honest 0 lastPage t.buddy (t.others D base order) := by
  obtain ⟨htag, hwrap⟩ := huntagged
  intro k hk b hal hlo hhi hcontains
  refine ⟨zero_le _, fun htagged => ?_⟩
  obtain ⟨m, hdvd, hmin, hm⟩ := exists_parent hal
  rw [hmin] at hcontains
  obtain ⟨r, hr, hle⟩ := any_eq_true.mp hcontains
  rw [Bool.and_eq_true, decide_eq_true_iff, decide_eq_true_iff] at hle
  have hlimit := (h.ranges r (h.regions r hr)).le
  have hsucc := width_succ (e := 12) (k := k)
  have hpos := width_pos (e := 12) (k := k)
  -- in a range, only a free block has the tag
  have hin : ∀ r' ∈ t.ranges, r'.base ≤ b ^^^ width 12 k → b ^^^ width 12 k < r'.limit →
      b ^^^ width 12 k < lastPage ∧ ∀ x ∈ t.others D base order, x.2 ≠ b ^^^ width 12 k := by
    intro r' hr' hbase hlim
    refine ⟨lt_of_lt_of_le hlim (h.ranges r' hr').le, ?_⟩
    rintro x ((hx | hx) | hx) heq
    · exact htag x (mem_of_mem_erase hx) k hk (heq ▸ htagged)
    · exact h.lost x hx k hk (heq ▸ htagged)
    · have := hx.2.2.2 r' hr'
      omega
  by_cases hsum : m + width 12 k * 2 < usizeBound
  · rw [wadd_eq hsum] at hle
    exact hin r (h.regions r hr) (by omega) (by omega)
  · -- the sum has wrapped around: the buddy is the last block of the address space
    have htop : width 12 (k + 1) ∣ usizeBound :=
      pow_dvd_pow 2 (by simp only [maxOrder] at hk; omega)
    have hlast : lastPage < usizeBound := by decide
    have hend := add_le_of_dvd hdvd htop (by omega)
    have hbuddy : b ^^^ width 12 k = usizeBound - width 12 k := by omega
    by_cases hout : t.Outside (usizeBound - width 12 k)
    · exact absurd (hbuddy ▸ htagged) (hwrap k hk hout)
    · simp only [Outside, not_forall, not_or, not_lt, not_le] at hout
      obtain ⟨r', hr', hbase, hlim⟩ := hout
      exact hin r' hr' (by omega) (by omega)

/-- What `freePages` does to a block in use. -/
lemma Inv.freed {base order : ℕ} (hlive : (order, base) ∈ t.live)
    (huntagged : t.Untagged (.freePages base order)) :
    ∃ F' D', Freed 0 lastPage t.buddy F (t.others D base order) (t.buddy.mergedWith base order)
      (t.buddy.freePages base order) F' D' ∧
      ((∀ x ∈ t.buddy.mergedWith base order, x.1 ≠ maxOrder) → D' = ∅) := by
  have hinsert : ↑t.live ∪ D ∪ gaps t.ranges = insert (order, base) (t.others D base order) := by
    rw [others, ← insert_union, ← insert_union, ← coe_insert, insert_erase hlive]
  have hbuddy := h.buddy
  rw [hinsert] at hbuddy
  refine hbuddy.freePages_freed ?_ (huntagged.1 _ hlive) (h.honest huntagged)
  rintro ((hmem | hmem) | hmem)
  · simp at hmem
  · exact h.apart _ hlive hmem
  · exact h.placed _ (.inl hlive) hmem

/-- `freePages` keeps the invariant, and no block in use gets a tag. -/
lemma Inv.freePages {base order : ℕ} (hlive : (order, base) ∈ t.live)
    (huntagged : t.Untagged (.freePages base order)) :
    ∃ F' D', (t.step (.freePages base order)).Inv F' (D ∪ D') ∧
      TagFree (t.buddy.freePages base order).mem ↑(t.live.erase (order, base)) ∧
      ((∀ x ∈ t.buddy.mergedWith base order, x.1 ≠ maxOrder) → D' = ∅) := by
  obtain ⟨F', D', hr, hkept⟩ := h.freed hlive huntagged
  have hregroup : t.others D base order ∪ D' =
    ↑(t.live.erase (order, base)) ∪ (D ∪ D') ∪ gaps t.ranges := by
    rw [others, union_assoc, union_comm (gaps t.ranges), ← union_assoc, ← union_assoc]
  have huntLive : Untouched 0 lastPage ↑(t.live.erase (order, base)) t.buddy.mem
    (t.buddy.freePages base order).mem :=
    hr.untouched.mono fun x hx => ⟨x, .inl (.inl hx), subset_rfl⟩
  have htag : TagFree t.buddy.mem ↑(t.live.erase (order, base)) :=
    huntagged.1.mono fun x hx => mem_of_mem_erase hx
  refine ⟨F', D', ⟨hregroup ▸ hr.inv, ?_, ?_, ?_, h.ranges,
    fun r hr' => h.regions r (hr.regions ▸ hr')⟩,
    huntLive.tagFree htag, hkept⟩
  · rintro x hx (hD | hD)
    · exact h.apart x (mem_of_mem_erase hx) hD
    · exact hr.apart x hD (.inl (.inl hx))
  · rintro x (hx | hD | hD) hgap
    · exact h.placed x (.inl (mem_of_mem_erase hx)) hgap
    · exact h.placed x (.inr hD) hgap
    · exact hr.apart x hD (.inr hgap)
  · rintro x (hD | hD)
    · have huntD : Untouched 0 lastPage D t.buddy.mem (t.buddy.freePages base order).mem :=
        hr.untouched.mono fun x hx => ⟨x, .inl (.inr hx), subset_rfl⟩
      exact huntD.tagFree h.lost x hD
    · exact hr.tagFree x hD

/-- Clients cannot write to free and lost blocks. -/
lemma Inv.write_eq (hallowed : t.Allowed (.write mem)) {x : ℕ × ℕ}
    (hx : x ∈ freeBlocks F ∪ D) (ha : a ∈ span 12 x) : mem a = t.buddy.mem a := by
  have hxB : x ∈ freeBlocks F ∪ (↑t.live ∪ D ∪ gaps t.ranges) :=
    hx.imp_right fun hD => .inl (.inr hD)
  have hother : ∀ y ∈ (↑t.live ∪ D ∪ gaps t.ranges : Set (ℕ × ℕ)), a ∈ span 12 y → y ∈ D := by
    intro y hy hay
    have heq := h.buddy.tiling.disjoint x hxB y (.inr hy) a ha hay
    subst heq
    exact hx.resolve_left (h.buddy.apart x hy)
  by_contra hne
  rcases hallowed a hne with ⟨y, hy, hay⟩ | hout
  · exact h.apart y hy (hother y (.inl (.inl hy)) hay)
  · have hgap := page_mem_gaps h.ranges (h.buddy.tiling.mem_range hxB ha).2 hout
    exact h.placed _ (.inr (hother _ (.inr hgap) (mem_span_own_page a))) hgap

/-- A write keeps the invariant. -/
lemma Inv.write (hallowed : t.Allowed (.write mem)) : (t.step (.write mem)).Inv F D := by
  refine ⟨h.buddy.congr_mem fun k b hb a ha ha' => ?_, h.apart, h.placed, fun x hx k hk => ?_,
    h.ranges, h.regions⟩
  · exact h.write_eq hallowed (Or.inl hb : (k, b) ∈ _) (BuddyInv.mem_span_of_node ha ha')
  · have hread : read mem x.2 = read t.buddy.mem x.2 :=
      read_congr fun a ha ha' => h.write_eq hallowed (Or.inr hx) (BuddyInv.mem_span_of_node ha ha')
    change ¬ Tagged mem x.2 k
    rw [Tagged, hread]
    exact h.lost x hx k hk

/-- A step keeps the invariant. -/
lemma Inv.step {op : HoldingsOp} (hallowed : t.Allowed op) (huntagged : t.Untagged op) :
    ∃ F' D', (t.step op).Inv F' D' := by
  cases op with
  | addRange base pages =>
    obtain ⟨F', h', -⟩ := h.addRange hallowed
    exact ⟨F', D, h'⟩
  | allocPages order =>
    obtain ⟨F', h', -⟩ := h.allocPages order
    exact ⟨F', D, h'⟩
  | freePages base order =>
    obtain ⟨F', D', h', -⟩ := h.freePages hallowed huntagged
    exact ⟨F', D ∪ D', h'⟩
  | write mem => exact ⟨F, D, h.write hallowed⟩

/-- A run keeps the invariant. -/
lemma Inv.run {ops : List HoldingsOp} (hallowed : AlongRun Holdings.step Allowed t ops)
    (huntagged : AlongRun Holdings.step Untagged t ops) : ∃ F' D', (t.run ops).Inv F' D' := by
  induction ops generalizing t F D with
  | nil => exact ⟨F, D, h⟩
  | cons op ops ih =>
    obtain ⟨F', D', h'⟩ := h.step hallowed.1 huntagged.1
    exact ih h' hallowed.2 huntagged.2

end

/-- After a run in which no block in use starts with a tag when a block is freed, free another block
under the same condition.  Every buddy that it is merged with was on the list of its order; only the
block itself and blocks that were free are written to; no block on the lists afterwards overlaps one
that is still in use, and neither does a block that is handed out next. -/
theorem freePages_merges_free (mem : Memory) (ops : List HoldingsOp)
    (hallowed : AlongRun step Allowed (start mem) ops)
    (huntagged : AlongRun step Untagged (start mem) ops)
    {base order : ℕ} (hlive : (order, base) ∈ ((start mem).run ops).live)
    (hfree : ((start mem).run ops).Untagged (.freePages base order)) :
    ∃ F F' : ℕ → List ℕ, Lists ((start mem).run ops).buddy F ∧
      Lists (((start mem).run ops).buddy.freePages base order) F' ∧
      (∀ x ∈ ((start mem).run ops).buddy.mergedWith base order, x.2 ∈ F x.1) ∧
      (∀ a, (((start mem).run ops).buddy.freePages base order).mem a ≠
        ((start mem).run ops).buddy.mem a →
        a ∈ span 12 (order, base) ∨ ∃ k, ∃ b ∈ F k, a ∈ span 12 (k, b)) ∧
      ∀ x ∈ ((start mem).run ops).live.erase (order, base),
      (∀ k, ∀ b ∈ F' k, Disjoint (span 12 x) (span 12 (k, b))) ∧
        ∀ n b s', (((start mem).run ops).buddy.freePages base order).allocPages n = (some b, s') →
          Disjoint (span 12 x) (span 12 (n, b)) := by
  obtain ⟨F, D, h⟩ := (inv_start mem).run hallowed huntagged
  obtain ⟨F', D', hr, -⟩ := h.freed hlive hfree
  refine ⟨F, F', h.buddy.isLists, hr.inv.isLists, hr.merged, fun a ha => ?_,
    fun x hx => ⟨fun k b hb => ?_,
    fun n b s' hsome => ?_⟩⟩
  · -- what is not untouched is a free block or the block that is freed
    have hin : a < lastPage := by
      by_contra hge
      exact ha (hr.untouched a (.inr (.inl (not_lt.mp hge))))
    obtain ⟨⟨k, b⟩, hy, hay⟩ := h.buddy.tiling.cover a (zero_le a) hin
    rcases hy with hy | hy
    · exact .inr ⟨k, b, hy, hay⟩
    · by_cases heq : (k, b) = (order, base)
      · exact .inl (heq ▸ hay)
      · refine absurd (hr.untouched a (.inr (.inr ⟨(k, b), ?_, hay⟩))) ha
        exact hy.imp_left (Or.imp_left fun hmem => mem_erase.mpr ⟨heq, hmem⟩)
  · have hxL : x ∈ ((start mem).run ops).others D base order ∪ D' := .inl (.inl (.inl hx))
    refine hr.inv.disjoint_span (.inr hxL) (.inl hb) ?_
    rintro rfl
    exact hr.inv.apart _ hxL hb
  · have hxL : x ∈ ((start mem).run ops).others D base order ∪ D' := .inl (.inl (.inl hx))
    rcases hr.inv.allocPages_handed n with hnone | ⟨-, b', s'', F'', hsome', ht⟩
    · rw [hnone] at hsome
      cases hsome
    · rw [hsome'] at hsome
      cases hsome
      refine ht.inv.disjoint_span (.inr (Set.mem_insert_of_mem _ hxL))
        (.inr (Set.mem_insert _ _)) ?_
      rintro rfl
      exact ht.fresh hxL

/-- Three pages are given to the allocator and handed out one by one. -/
def threePages : List HoldingsOp := [.addRange 8192 3, .allocPages 0, .allocPages 0, .allocPages 0]

/-- Then their owners write to them. -/
def writtenPages (mem : Memory) : List HoldingsOp := threePages ++ [HoldingsOp.write mem]

/-- Then the second page is given back. -/
def freedPages (mem : Memory) : List HoldingsOp :=
  writtenPages mem ++ [HoldingsOp.freePages 12288 0]

/-- The three pages. -/
def threeLive : Finset (ℕ × ℕ) := {(0, 12288), (0, 8192), (0, 16384)}

lemma run_threePages : ((start fun _ => 0).run threePages).live = threeLive ∧
    ((start fun _ => 0).run threePages).ranges = [⟨8192, 20480⟩] := by
  decide +kernel

/-- The clients may write anything to the three pages. -/
lemma alongRun_threePages : AlongRun step Allowed (start fun _ => 0) (writtenPages mem) := by
  refine alongRun_append.mpr
    ⟨⟨⟨by decide, by decide, by simp [start]⟩, trivial, trivial, trivial, trivial⟩,
    fun a _ => ?_, trivial⟩
  change (∃ x ∈ ((start fun _ => 0).run threePages).live, _) ∨
    ∀ r ∈ ((start fun _ => 0).run threePages).ranges, _
  rw [run_threePages.1, run_threePages.2]
  by_cases hin : 8192 ≤ a ∧ a < 20480
  · refine .inl ⟨(0, pageSize * (a / pageSize)), ?_, mem_span_own_page a⟩
    simp only [threeLive, Finset.mem_insert, Finset.mem_singleton, Prod.mk.injEq,
      true_and, pageSize]
    omega
  · refine .inr fun r hr => ?_
    obtain rfl := List.mem_singleton.mp hr
    simp only
    omega

/-- The second page may be freed if no page in use starts with a tag. -/
theorem freePages_merges_free_three :
    ∃ F F' : ℕ → List ℕ, Lists ((start fun _ => 0).run (writtenPages fun _ => 0)).buddy F ∧
      Lists (((start fun _ => 0).run (writtenPages fun _ => 0)).buddy.freePages 12288 0) F' ∧
      ∀ x ∈ ((start fun _ => 0).run (writtenPages fun _ => 0)).buddy.mergedWith 12288 0,
      x.2 ∈ F x.1 := by
  have hzero : ∀ p k, ¬ Tagged (fun _ => 0) p k := fun p k => not_tagged_of_magic rfl
  obtain ⟨F, F', hF, hF', hmerged, -⟩ :=
    freePages_merges_free (fun _ => 0) (writtenPages fun _ => 0)
      (alongRun_threePages _) ⟨trivial, trivial, trivial, trivial, trivial, trivial⟩
    (show (0, 12288) ∈ ((start fun _ => 0).run (writtenPages fun _ => 0)).live by decide +kernel)
    ⟨fun x _ k _ => hzero x.2 k, fun k _ _ => hzero _ k⟩
  exact ⟨F, F', hF, hF', hmerged⟩

/-- The owner of the first page stores the tag of a free page there.  When the second page is given
back it is merged with the first one, which is on no list, and both are handed out as one block
while the first one is still in use. -/
theorem freePages_merges_live : ∃ mem, AlongRun step Allowed (start fun _ => 0) (freedPages mem) ∧
      (0, 8192) ∈ ((start fun _ => 0).run (freedPages mem)).live ∧
      ((start fun _ => 0).run (writtenPages mem)).buddy.freeHeads 0 = buddyNone ∧
      ∃ s', ((start fun _ => 0).run (freedPages mem)).buddy.allocPages 1 = (some 8192, s') := by
  have hlive : (0, 12288) ∈ ((start fun _ => 0).run (writtenPages
      (tagMem ((start fun _ => 0).run threePages).buddy.mem 8192))).live := by decide +kernel
  refine ⟨tagMem ((start fun _ => 0).run threePages).buddy.mem 8192,
    alongRun_append.mpr ⟨alongRun_threePages _, hlive, trivial⟩, by decide +kernel, by
    decide +kernel, _,
    Prod.ext ?_ rfl⟩
  decide +kernel

end Holdings

end CabOS.BuddyPageAllocator
