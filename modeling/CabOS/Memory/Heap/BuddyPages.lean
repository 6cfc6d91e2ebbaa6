import CabOS.Memory.Heap.BuddyRegions

/-!
# The number of pages of the buddy allocator

Every page that was added is on a free list or in use, as long as `freePages` does not merge two
blocks of the largest order: there is no list for the result, so that one half of it is put on the
list of the largest order and the other half is forgotten (`merge_loses_pages`).  Without such a
merge no page is lost and `freePages` gives back exactly the pages of the block (`pages_conserved`).

The pages are counted through the tiling: the free blocks and the blocks in use cover the ranges,
every address once, so their widths add up to the lengths of the ranges.
-/

namespace CabOS.BuddyPageAllocator

open DyadicBlock FreeBlockNode Finset List Function

/-- The number of pages on the free lists. -/
def freePageCount (F : ℕ → List ℕ) : ℕ := ∑ k ∈ Finset.range (maxOrder + 1), (F k).length * 2 ^ k

/-- The addresses of the ranges. -/
def addresses (ranges : List PhysRegion) : Finset ℕ :=
  ranges.foldr (fun r A => Finset.Ico r.base r.limit ∪ A) ∅

/-- The ranges do not overlap. -/
def Apart (r r' : PhysRegion) : Prop := r.limit ≤ r'.base ∨ r'.limit ≤ r.base

/-- The block of an order that an address lies in. -/
def blockAt (k a : ℕ) : ℕ := width 12 k * (a / width 12 k)

/-- Two blocks of the largest order are joined when a block is freed: from the order of the block
on, the buddy of every order is on the list of its order and in one region with the block that it
belongs to. -/
def JoinsLargest (s : BuddyPageAllocator) (base order : ℕ) : Prop :=
  ∀ k, order ≤ k → k ≤ maxOrder →
    s.containsInSameRegion (blockAt (k + 1) base) (width 12 (k + 1)) ∧
      ∃ F, Lists s F ∧ blockAt k base ^^^ width 12 k ∈ F k

namespace Holdings

/-- The number of pages in use. -/
def livePageCount (t : Holdings) : ℕ := ∑ x ∈ t.live, 2 ^ x.1

/-- The number of pages that were added. -/
def addedPageCount (t : Holdings) : ℕ := (t.ranges.map fun r => (r.limit - r.base) / pageSize).sum

/-- Clients do not store a tag at the start of a block in use.  When a block is freed, it does not
join two blocks of the largest order, and there is no tag at the place outside the ranges that the
test for the region lets through because the sum wraps around. -/
def Careful (t : Holdings) : HoldingsOp → Prop
  | .freePages base order => ¬ t.buddy.JoinsLargest base order ∧
    ∀ k ≤ maxOrder, t.Outside (usizeBound - width 12 k) →
    ¬ Tagged t.buddy.mem (usizeBound - width 12 k) k
  | .write mem => TagFree mem t.live
  | _ => True

end Holdings

/-! ## Joined blocks -/

section

variable {s : BuddyPageAllocator} {b j k : ℕ}

/-- A block and its buddy are the halves of the next larger block. -/
lemma min_xor_eq_blockAt (hal : width 12 k ∣ b) : min b (b ^^^ width 12 k) = blockAt (k + 1) b := by
  obtain ⟨m, ⟨q, rfl⟩, hmin, hhalf⟩ := exists_parent hal
  rw [hmin, blockAt]
  refine congrArg _ (Nat.div_eq_of_lt_le ?_ ?_).symm
  · rcases hhalf with h | h
    · rw [Nat.mul_comm]
      exact h.1.ge
    · rw [Nat.mul_comm]
      omega
  · have hsucc := width_succ (e := 12) (k := k)
    have hpos := width_pos (e := 12) (k := k)
    rw [Nat.mul_comm, Nat.mul_add]
    omega

/-- The larger block of a smaller one is that of its addresses. -/
lemma blockAt_blockAt (h : j ≤ k) : blockAt k (blockAt j b) = blockAt k b := by
  obtain ⟨c, hc⟩ := width_dvd_width (e := 12) h
  rw [blockAt, blockAt, blockAt, hc, Nat.mul_div_mul_left _ _ width_pos, Nat.div_div_eq_div_mul]

/-- If `freePages` arrives at two blocks of the largest order, it has met the buddies of all orders.
-/
lemma mem_mergedWith_of_largest (hal : width 12 k ∣ b)
    (hlast : ∃ x ∈ s.mergedWith b k, x.1 = maxOrder)
    (hkj : k ≤ j) (hj : j ≤ maxOrder) :
    s.containsInSameRegion (blockAt (j + 1) b) (width 12 (j + 1)) ∧
      (j, blockAt j b ^^^ width 12 j) ∈ s.mergedWith b k := by
  induction hn : maxOrder - k using Nat.strong_induction_on generalizing s k b with
  | h n ih =>
    by_cases hmerge : s.containsInSameRegion (min b (b ^^^ width 12 k)) (width 12 k * 2) ∧
        Tagged s.mem (b ^^^ width 12 k) k
    · obtain ⟨s', hremove, hregions⟩ :
          ∃ s', s.tryRemoveBuddy k (b ^^^ width 12 k) = (true, s') ∧ s'.regions = s.regions := by
        rw [tryRemoveBuddy, if_neg (not_or.mpr ⟨not_not.mpr hmerge.2.1, not_not.mpr hmerge.2.2⟩)]
        exact ⟨_, rfl, rfl⟩
      have hcons := mergedWith_merge hmerge.1 hremove
      have hmin := min_xor_eq_blockAt hal
      have hself : blockAt k b = b := Nat.mul_div_cancel' hal
      rw [hcons] at hlast ⊢
      rcases hkj.eq_or_lt with rfl | hlt
      · rw [hself, width_succ, Nat.mul_comm, ← hmin]
        exact ⟨hmerge.1, mem_cons_self⟩
      · -- the rest of the loop is about the joined block
        rw [if_neg (by omega), hmin] at hlast ⊢
        obtain ⟨x, hx, hxlast⟩ := hlast
        have hx' := (mem_cons.mp hx).resolve_left (by rintro rfl; simp only at hxlast; omega)
        have hrest := ih (maxOrder - (k + 1)) (by omega)
          (show width 12 (k + 1) ∣ blockAt (k + 1) b from Dvd.intro _ rfl) ⟨x, hx', hxlast⟩ hlt rfl
        rw [blockAt_blockAt (by omega), blockAt_blockAt (by omega), containsInSameRegion,
          hregions] at hrest
        exact ⟨hrest.1, mem_cons_of_mem _ hrest.2⟩
    · rw [mergedWith_stop fun hc ht => hmerge ⟨hc, ht⟩] at hlast
      simp at hlast

end

/-! ## Counting -/

section

variable {F : ℕ → List ℕ} {ranges : List PhysRegion}

/-- The free blocks as a finite set. -/
def freeFinset (F : ℕ → List ℕ) : Finset (ℕ × ℕ) :=
  (Finset.range (maxOrder + 1)).biUnion fun k => (F k).toFinset.image (Prod.mk k)

/-- The free blocks are those of the lists. -/
lemma mem_freeFinset (hF : ∀ k > maxOrder, F k = []) {x : ℕ × ℕ} : x ∈ freeFinset F ↔
    x.2 ∈ F x.1 := by
  obtain ⟨k, b⟩ := x
  simp only [freeFinset, mem_biUnion, Finset.mem_range, mem_image, List.mem_toFinset, Prod.mk.injEq]
  constructor
  · rintro ⟨j, -, c, hc, rfl, rfl⟩
    exact hc
  · intro hb
    refine ⟨k, ?_, b, hb, rfl, rfl⟩
    by_contra hk
    rw [hF k (by omega)] at hb
    exact List.not_mem_nil hb

/-- The widths of the free blocks. -/
lemma sum_width_freeFinset (hnodup : ∀ k, (F k).Nodup) :
    ∑ x ∈ freeFinset F, width 12 x.1 = freePageCount F * pageSize := by
  have hpair : (Finset.range (maxOrder + 1) : Set ℕ).PairwiseDisjoint fun k =>
    (F k).toFinset.image (Prod.mk k) := by
    intro j _ k _ hne
    refine disjoint_left.mpr fun x hj hk => hne ?_
    obtain ⟨b, -, rfl⟩ := mem_image.mp hj
    obtain ⟨c, -, heq⟩ := mem_image.mp hk
    exact (congrArg Prod.fst heq).symm
  rw [freeFinset, sum_biUnion hpair, freePageCount, sum_mul]
  refine sum_congr rfl fun k _ => ?_
  rw [sum_image fun b _ c _ heq => congrArg Prod.snd heq, mul_assoc, two_pow_mul_pageSize,
    ← List.toFinset_card_of_nodup (hnodup k)]
  simp only [sum_const, smul_eq_mul]

/-- The addresses of the ranges, one by one. -/
lemma mem_addresses {a : ℕ} : a ∈ addresses ranges ↔ ∃ r ∈ ranges, r.base ≤ a ∧ a < r.limit := by
  induction ranges with
  | nil => simp [addresses]
  | cons r ranges ih =>
    rw [addresses, foldr_cons, mem_union, mem_Ico, ← addresses, ih]
    simp

/-- Ranges that do not overlap have as many addresses as their lengths add up to. -/
lemma card_addresses (hapart : ranges.Pairwise Apart) :
    (addresses ranges).card = (ranges.map fun r => r.limit - r.base).sum := by
  induction ranges with
  | nil => rfl
  | cons r ranges ih =>
    obtain ⟨hr, hranges⟩ := pairwise_cons.mp hapart
    have hdisjoint : Disjoint (Finset.Ico r.base r.limit) (addresses ranges) := by
      refine disjoint_left.mpr fun a ha ha' => ?_
      rw [mem_Ico] at ha
      obtain ⟨r', hr', hle, hlt⟩ := mem_addresses.mp ha'
      rcases hr r' hr' with h | h <;> omega
    rw [addresses, foldr_cons, ← addresses, card_union_of_disjoint hdisjoint, Nat.card_Ico,
      ih hranges, List.map_cons, List.sum_cons]

end

namespace Holdings

variable {t : Holdings} {F : ℕ → List ℕ} {base order : ℕ}

/-- The lengths of the ranges in pages. -/
lemma addedPageCount_mul (hranges : ∀ r ∈ t.ranges, RangeOk r) :
    t.addedPageCount * pageSize = (t.ranges.map fun r => r.limit - r.base).sum := by
  rw [addedPageCount, ← sum_map_mul_right]
  refine congrArg sum (map_congr_left fun r hr => ?_)
  exact Nat.div_mul_cancel (Nat.dvd_sub (hranges r hr).limit (hranges r hr).base)

/-- If nothing is lost, the free blocks and the blocks in use are what was added. -/
lemma Inv.mem_addresses_iff (h : t.Inv F ∅) {a : ℕ} :
    a ∈ addresses t.ranges ↔ ∃ x ∈ freeFinset F ∪ t.live, a ∈ span 12 x := by
  have hmem : ∀ x, x ∈ freeFinset F ∪ t.live ↔ x ∈ freeBlocks F ∨ x ∈ t.live := fun x => by
    rw [mem_union, mem_freeFinset h.buddy.isLists.2]
    rfl
  simp only [hmem, mem_addresses]
  constructor
  · rintro ⟨r, hr, hle, hlt⟩
    have hok := h.ranges r hr
    obtain ⟨x, hx, ha⟩ := h.buddy.tiling.cover a (Nat.zero_le a) (lt_of_lt_of_le hlt hok.le)
    rcases hx with hx | (hx | hx) | hgap
    · exact ⟨x, .inl hx, ha⟩
    · exact ⟨x, .inr hx, ha⟩
    · exact hx.elim
    · -- a page outside the ranges does not reach into one
      obtain ⟨hzero, hdvd, -, hout⟩ := hgap
      obtain ⟨k, b⟩ := x
      subst hzero
      rw [mem_span_page] at ha
      rcases hout r hr with hbelow | habove
      · have hend := add_le_of_dvd hdvd hok.base hbelow
        omega
      · simp only at habove
        omega
  · rintro ⟨x, hx, ha⟩
    have hxB : x ∈ freeBlocks F ∪ (↑t.live ∪ ∅ ∪ gaps t.ranges) :=
      hx.imp_right fun hx => .inl (.inl hx)
    by_contra hnone
    have hgap := page_mem_gaps h.ranges (h.buddy.tiling.mem_range hxB ha).2 (fun r hr => by
        by_contra hin
        rw [not_or, not_lt, not_le] at hin
        exact hnone ⟨r, hr, hin⟩)
    have heq := h.buddy.tiling.disjoint x hxB _ (.inr (.inr hgap)) a ha (mem_span_own_page a)
    subst heq
    rcases hx with hfree | hlive
    · exact h.buddy.apart _ (.inr hgap) hfree
    · exact h.placed _ (.inl hlive) hgap

/-- If nothing is lost, every page is on a list or in use. -/
lemma Inv.conserved (h : t.Inv F ∅) (hapart : t.ranges.Pairwise Apart) :
    freePageCount F + t.livePageCount = t.addedPageCount := by
  have hpages : (freePageCount F + t.livePageCount) * pageSize = t.addedPageCount * pageSize := by
    have hdisjoint : Disjoint (freeFinset F) t.live := by
      refine disjoint_left.mpr fun x hfree hlive => ?_
      exact h.buddy.apart x (.inl (.inl hlive)) ((mem_freeFinset h.buddy.isLists.2).mp hfree)
    have hone : ∀ x ∈ freeFinset F ∪ t.live, ∀ y ∈ freeFinset F ∪ t.live, ∀ a, a ∈ span 12 x →
        a ∈ span 12 y → x = y := by
      have hB : ∀ x ∈ freeFinset F ∪ t.live, x ∈ freeBlocks F ∪ (↑t.live ∪ ∅ ∪ gaps t.ranges) := by
        intro x hx
        rw [mem_union, mem_freeFinset h.buddy.isLists.2] at hx
        exact hx.imp_right fun hx => .inl (.inl hx)
      exact fun x hx y hy a => h.buddy.tiling.disjoint x (hB x hx) y (hB y hy) a
    calc (freePageCount F + t.livePageCount) * pageSize
        = ∑ x ∈ freeFinset F, width 12 x.1 + ∑ x ∈ t.live, width 12 x.1 := by
          rw [add_mul, sum_width_freeFinset h.buddy.nodup, livePageCount, sum_mul]
          simp only [two_pow_mul_pageSize]
      _ = ∑ x ∈ freeFinset F ∪ t.live, width 12 x.1 := (sum_union hdisjoint).symm
      _ = (addresses t.ranges).card := (card_eq_sum_width hone fun a => h.mem_addresses_iff).symm
      _ = t.addedPageCount * pageSize := by rw [card_addresses hapart, addedPageCount_mul h.ranges]
  exact Nat.eq_of_mul_eq_mul_right (by decide) hpages

/-! ## Runs -/

/-- What holds in every state of a careful run: nothing is lost, and no block in use looks free. -/
structure Kept (t : Holdings) (F : ℕ → List ℕ) : Prop where
  inv : t.Inv F ∅
  tagFree : TagFree t.buddy.mem t.live
  apart : t.ranges.Pairwise Apart

lemma kept_start (mem : Memory) : (start mem).Kept fun _ => [] :=
  ⟨inv_start mem, fun x hx => absurd hx (by simp [start]), List.Pairwise.nil⟩

lemma step_allocPages_ranges (t : Holdings) (order : ℕ) :
    (t.step (.allocPages order)).ranges = t.ranges := by
  rw [step]
  split
  · rfl
  · rfl

/-- A careful step is one that no tag misleads. -/
lemma Kept.untagged (h : t.Kept F) (hcareful : t.Careful (.freePages base order)) :
    t.Untagged (.freePages base order) := ⟨h.tagFree, hcareful.2⟩

/-- A careful `freePages` loses nothing. -/
lemma Kept.freePages (h : t.Kept F) (hlive : (order, base) ∈ t.live)
    (hcareful : t.Careful (.freePages base order)) :
    ∃ F', (t.step (.freePages base order)).Kept F' := by
  obtain ⟨F', D', hinv, htag, hkept⟩ := h.inv.freePages hlive (h.untagged hcareful)
  have hnone : ∀ x ∈ t.buddy.mergedWith base order, x.1 ≠ maxOrder := by
    intro x hx hlast
    obtain ⟨_, _, hfreed, -⟩ := h.inv.freed hlive (h.untagged hcareful)
    have hal := h.inv.buddy.tiling.aligned (order, base) (.inr (.inl (.inl hlive)))
    refine hcareful.1 fun k hk hk' => ?_
    obtain ⟨hregion, hmem⟩ := mem_mergedWith_of_largest hal ⟨x, hx, hlast⟩ hk hk'
    exact ⟨hregion, F, h.inv.buddy.isLists, hfreed.merged _ hmem⟩
  rw [hkept hnone, Set.union_empty] at hinv
  exact ⟨F', hinv, htag, h.apart⟩

/-- A careful step loses nothing. -/
lemma Kept.step (h : t.Kept F) {op : HoldingsOp} (hallowed : t.Allowed op)
    (hcareful : t.Careful op) :
    ∃ F', (t.step op).Kept F' := by
  cases op with
  | addRange base pages =>
    obtain ⟨F', hinv, htag⟩ := h.inv.addRange hallowed
    exact ⟨F', hinv, htag h.tagFree, pairwise_cons.mpr ⟨hallowed.2.2, h.apart⟩⟩
  | allocPages order =>
    obtain ⟨F', hinv, htag⟩ := h.inv.allocPages order
    exact ⟨F', hinv, htag h.tagFree, (step_allocPages_ranges t order).symm ▸ h.apart⟩
  | freePages base order => exact h.freePages hallowed hcareful
  | write mem => exact ⟨F, h.inv.write hallowed, hcareful, h.apart⟩

/-- A careful run loses nothing. -/
lemma Kept.run {ops : List HoldingsOp} (h : t.Kept F)
    (hallowed : AlongRun Holdings.step Allowed t ops)
    (hcareful : AlongRun Holdings.step Careful t ops) : ∃ F', (t.run ops).Kept F' := by
  induction ops generalizing t F with
  | nil => exact ⟨F, h⟩
  | cons op ops ih =>
    obtain ⟨F', h'⟩ := h.step hallowed.1 hcareful.1
    exact ih h' hallowed.2 hcareful.2

/-- In every state of a careful run every page that was added is on a free list or in use, and a
further careful `freePages` of a block in use puts exactly its pages on the lists. -/
theorem pages_conserved (mem : Memory) (ops : List HoldingsOp)
    (hallowed : AlongRun step Allowed (start mem) ops)
    (hcareful : AlongRun step Careful (start mem) ops) :
    let t := (start mem).run ops
    ∃ F : ℕ → List ℕ, Lists t.buddy F ∧ freePageCount F + t.livePageCount = t.addedPageCount ∧
      ∀ base order, (order, base) ∈ t.live → t.Careful (.freePages base order) →
        ∃ F' : ℕ → List ℕ, Lists (t.buddy.freePages base order) F' ∧
          freePageCount F' = freePageCount F + 2 ^ order := by
  intro t
  obtain ⟨F, h⟩ := (kept_start mem).run hallowed hcareful
  have hsum := h.inv.conserved h.apart
  refine ⟨F, h.inv.buddy.isLists, hsum, fun base order hlive hfree => ?_⟩
  obtain ⟨F', h'⟩ := h.freePages hlive hfree
  refine ⟨F', h'.inv.buddy.isLists, ?_⟩
  have hsum' := h'.inv.conserved h'.apart
  have hlives : (t.step (.freePages base order)).livePageCount + 2 ^ order = t.livePageCount :=
    sum_erase_add _ _ hlive
  have hadded : (t.step (.freePages base order)).addedPageCount = t.addedPageCount := rfl
  change freePageCount F' + (t.step (.freePages base order)).livePageCount =
    (t.step (.freePages base order)).addedPageCount at hsum'
  change freePageCount F + t.livePageCount = t.addedPageCount at hsum
  omega

/-- Four pages are added, and two of them are handed out. -/
def twoOfFourPages : List HoldingsOp := [.addRange 16384 4, .allocPages 0, .allocPages 0]

/-- Then they are given back. -/
def fourPagesAgain : List HoldingsOp :=
  twoOfFourPages ++ [HoldingsOp.freePages 16384 0, HoldingsOp.freePages 20480 0]

/-- Two of four pages are handed out and given back: the block of four is split twice and merged
again. -/
theorem pages_conserved_four : ∃ F : ℕ → List ℕ,
    Lists ((start fun _ => 0).run fourPagesAgain).buddy F ∧ freePageCount F = 4 := by
  have hfirst : (0, 16384) ∈ ((start fun _ => 0).run twoOfFourPages).live := by decide +kernel
  have hsecond : (0, 20480) ∈
      (((start fun _ => 0).run twoOfFourPages).step (.freePages 16384 0)).live := by decide +kernel
  -- the range is too small for a block of eight pages
  have hsmall : ∀ t : Holdings, t.buddy.regions = [⟨16384, 32768⟩] → ∀ base < 32768,
      ¬ t.buddy.JoinsLargest base 0 := by
    intro t ht base hbase hjoin
    have hcontains := (hjoin 2 (by decide) (by decide)).1
    rw [containsInSameRegion_iff ht, blockAt,
      Nat.div_eq_of_lt (show base < width 12 3 from hbase)] at hcontains
    exact absurd hcontains.1 (by decide)
  have hzero : ∀ ops ∈ [twoOfFourPages, twoOfFourPages ++ [HoldingsOp.freePages 16384 0]],
    ∀ k ≤ maxOrder,
      ¬ Tagged ((start fun _ => 0).run ops).buddy.mem (usizeBound - width 12 k) k := by
        decide +kernel
  obtain ⟨F, hlists, hsum, -⟩ := pages_conserved (fun _ => 0) fourPagesAgain
    (alongRun_append.mpr ⟨⟨⟨by decide, by decide, by simp [start]⟩, trivial, trivial, trivial⟩,
      hfirst, hsecond, trivial⟩)
    (alongRun_append.mpr ⟨⟨trivial, trivial, trivial, trivial⟩,
      ⟨hsmall _ (by decide +kernel) _ (by decide), fun k hk _ => hzero _ (by simp) k hk⟩,
      ⟨hsmall _ (by decide +kernel) _ (by decide), fun k hk _ =>
        hzero (twoOfFourPages ++ [HoldingsOp.freePages 16384 0]) (by simp) k hk⟩, trivial⟩)
  refine ⟨F, hlists, ?_⟩
  have hlive : ((start fun _ => 0).run fourPagesAgain).livePageCount = 0 := by decide +kernel
  have hadded : ((start fun _ => 0).run fourPagesAgain).addedPageCount = 4 := by decide +kernel
  omega

/-! ## Two blocks of the largest order -/

/-- The upper one of two buddies of the largest order at two gibibytes. -/
def upperHalf : ℕ := 2 ^ 31 + width 12 maxOrder

/-- Two gibibytes are added, and the upper half is handed out and given back. -/
def twoLargest : List HoldingsOp :=
  [.addRange (2 ^ 31) (2 ^ 19), .allocPages maxOrder, .freePages upperHalf maxOrder]

/-- The lists of the orders below the largest are empty. -/
def largest (xs : List ℕ) : ℕ → List ℕ := Function.update (fun _ => []) maxOrder xs

/-- Two buddies of the largest order are added, one is handed out and given back.  They are merged,
but there is no list for the result: all pages were added, none is in use, and half of them are on
no list. -/
theorem merge_loses_pages : AlongRun step Allowed (start fun _ => 0) twoLargest ∧
      Lists ((start fun _ => 0).run twoLargest).buddy (largest [2 ^ 31]) ∧
      freePageCount (largest [2 ^ 31]) = 2 ^ 18 ∧
      ((start fun _ => 0).run twoLargest).livePageCount = 0 ∧
      ((start fun _ => 0).run twoLargest).addedPageCount = 2 ^ 19 := by
  have hlive : (maxOrder, upperHalf) ∈
      ((start fun _ => 0).run [.addRange (2 ^ 31) (2 ^ 19), .allocPages maxOrder]).live := by
        decide +kernel
  have hchain : ∀ k ≤ maxOrder,
    Chain (nextIn ((start fun _ => 0).run twoLargest).buddy.mem) buddyNone
      (((start fun _ => 0).run twoLargest).buddy.freeHeads k) (largest [2 ^ 31] k) := by
        decide +kernel
  exact ⟨⟨⟨by decide, by decide, by simp [start]⟩, trivial, hlive, trivial⟩,
    ⟨hchain, fun k hk => update_of_ne hk.ne' _ _⟩, by decide, by decide +kernel, by decide +kernel⟩

end Holdings

end CabOS.BuddyPageAllocator
