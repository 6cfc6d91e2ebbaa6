import CabOS.Memory.Heap.BuddySteps

/-!
# The calls of the buddy allocator

`allocPages` takes a block out of the free lists and splits it (`BuddyInv.allocPages`), `freePages`
puts a block back and merges it with its buddy as long as that is free (`BuddyInv.freePages`), and
`addRange` carves a range into the largest blocks that fit (`addRange_inv`).  None of them leaves
two buddies free.

A call to `freePages` decides by a tag in memory whether the buddy is free.  What it reads there is
written by others if the buddy is the start of a block in use, and also if it lies just behind the
range: the test for the region lets the block at the very end of the address space through, because
the sum wraps around to zero.
-/

namespace CabOS.BuddyPageAllocator

open Function List Nat Untouched Set Prod

open DyadicBlock FreeBlockNode

variable {lo hi k b c order : ℕ} {s s' : BuddyPageAllocator} {F F' : ℕ → List ℕ}
  {L L' : Set (ℕ × ℕ)} {mem mem' : Memory} {xs ys : List ℕ} {n base pages : ℕ}

/-- No two free blocks are the halves of a larger one. -/
def NoBuddies (F : ℕ → List ℕ) : Prop := ∀ k < maxOrder, ∀ b ∈ F k, b ^^^ width 12 k ∉ F k

/-- No block in use starts with the tag of a free one. -/
def TagFree (mem : Memory) (L : Set (ℕ × ℕ)) : Prop := ∀ x ∈ L, ∀ k ≤ maxOrder, ¬ Tagged mem x.2 k

/-- If the range ends one block before the end of the address space, then no tag of a block of this
size lies behind it. -/
def Behind (hi : ℕ) (mem : Memory) : Prop :=
  ∀ k ≤ maxOrder, hi + width 12 k = usizeBound → ¬ Tagged mem hi k

namespace NoBuddies

lemma mono (h : NoBuddies F) (hF : ∀ k, ∀ b ∈ F' k, b ∈ F k) : NoBuddies F' :=
  fun k hk b hb hmem => h k hk b (hF k b hb) (hF k _ hmem)

/-- A block whose buddy is not free is added. -/
lemma push (h : NoBuddies F) (hb : k < maxOrder → b ^^^ width 12 k ∉ F k) :
    NoBuddies (update F k (b :: F k)) := by
  intro j hj c hc hmem
  by_cases hjk : j = k
  · subst hjk
    rw [update_self] at hc hmem
    rcases mem_cons.mp hc with rfl | hc <;> rcases mem_cons.mp hmem with heq | hmem
    · exact xor_ne c heq
    · exact hb hj hmem
    · refine hb hj ?_
      rw [← heq, xor_xor]
      exact hc
    · exact h j hj c hc hmem
  · rw [update_of_ne hjk] at hc hmem
    exact h j hj c hc hmem

end NoBuddies

lemma TagFree.mono (h : TagFree mem L) (hL : L' ⊆ L) : TagFree mem L' := fun x hx => h x (hL hx)

section

variable (h : Untouched lo hi L mem mem')
include h

/-- Memory that is untouched where the blocks in use lie has their old starts. -/
lemma Untouched.read_eq {x : ℕ × ℕ} (hx : x ∈ L) : read mem' x.2 = read mem x.2 :=
  read_congr fun a ha ha' => h a (.inr (.inr ⟨x, hx, BuddyInv.mem_span_of_node ha ha'⟩))

lemma Untouched.tagFree (htag : TagFree mem L) : TagFree mem' L := by
  intro x hx k hk
  rw [Tagged, h.read_eq hx]
  exact htag x hx k hk

/-- The memory behind the range is untouched. -/
lemma Untouched.behind (hbehind : Behind hi mem) : Behind hi mem' := by
  intro k hk heq
  rw [Tagged, read_congr fun a ha _ => h a (.inr (.inl ha))]
  exact hbehind k hk heq

/-- Blocks inside others are untouched with them. -/
lemma Untouched.mono (hL : ∀ x ∈ L', ∃ y ∈ L, span 12 x ⊆ span 12 y) :
    Untouched lo hi L' mem mem' := by
  rintro a (ha | ha | ⟨x, hx, hax⟩)
  · exact h a (.inl ha)
  · exact h a (.inr (.inl ha))
  · obtain ⟨y, hy, hsub⟩ := hL x hx
    exact h a (.inr (.inr ⟨y, hy, hsub hax⟩))

end

lemma not_tagged_of_magic (h : (read mem b).magic = 0) : ¬ Tagged mem b k := by
  rintro ⟨hmagic, -⟩
  rw [h] at hmagic
  exact absurd hmagic (by decide)

/-! ## Taking a block -/

/-- A block of the order `k` at `b` was handed out. -/
structure Taken (lo hi : ℕ) (s : BuddyPageAllocator) (L : Set (ℕ × ℕ)) (k b : ℕ)
    (s' : BuddyPageAllocator) (F' : ℕ → List ℕ) : Prop where
  /-- The block is in use now. -/
  inv : BuddyInv lo hi s' F' (insert (k, b) L)
  /-- It was not in use before. -/
  fresh : (k, b) ∉ L
  noBuddies : NoBuddies F'
  /-- The blocks that were in use are untouched. -/
  untouched : Untouched lo hi L s.mem s'.mem
  /-- The tag of the block is cleared. -/
  magic : (read s'.mem b).magic = 0
  regions : s'.regions = s.regions

/-- A block of the order `k` at `b` was handed out, whether or not buddies are free. -/
structure Handed (lo hi : ℕ) (s : BuddyPageAllocator) (F : ℕ → List ℕ) (L : Set (ℕ × ℕ)) (k b : ℕ)
    (s' : BuddyPageAllocator) (F' : ℕ → List ℕ) : Prop where
  inv : BuddyInv lo hi s' F' (insert (k, b) L)
  fresh : (k, b) ∉ L
  noBuddies : NoBuddies F → NoBuddies F'
  untouched : Untouched lo hi L s.mem s'.mem
  magic : (read s'.mem b).magic = 0
  regions : s'.regions = s.regions

/-- A block in use is halved down to the order, and the upper halves become free. -/
lemma BuddyInv.splitDown (h : BuddyInv lo hi s F (insert (order + n, b) L))
    (hb : (order + n, b) ∉ L) (hmagic : (read s.mem b).magic = 0) :
    ∃ F', Handed lo hi s F L order b (s.splitDown order b n) F' := by
  induction n generalizing s F with
  | zero => exact ⟨F, h, hb, id, refl _ _ _ _, hmagic, rfl⟩
  | succ n ih =>
    have hsize : blockSizeBytes (order + n) = width 12 (order + n) := blockSizeBytes_eq _
    have hdvd : width 12 (order + n + 1) ∣ b := h.tiling.aligned _ (.inr (mem_insert _ _))
    obtain ⟨hsplit, hupper, hlower⟩ := h.split hb
    have hpush := hsplit.push hupper
    have hunt := hsplit.untouched_pushFree hupper
    -- the buddy of the upper half is the block that is still held
    have hbuddy : (b + width 12 (order + n)) ^^^ width 12 (order + n) = b := by
      rw [← xor_of_dvd hdvd, xor_xor]
    have hno' : NoBuddies F →
      NoBuddies (update F (order + n) ((b + width 12 (order + n)) :: F (order + n))) := by
      refine fun hno => hno.push fun _ => ?_
      rw [hbuddy]
      exact hsplit.apart (order + n, b) (mem_insert_of_mem _ (mem_insert _ _))
    have hkeep := hunt.read_eq (x := (order + n, b)) (mem_insert _ _)
    obtain ⟨F', ht⟩ := ih hpush hlower (by rw [hkeep, hmagic])
    refine ⟨F', ?_⟩
    rw [splitDown, hsize]
    have huntL : Untouched lo hi L s.mem (s.pushFree (order + n) (b + width 12 (order + n))).mem :=
      hunt.mono fun x hx => ⟨x, mem_insert_of_mem _ hx, subset_rfl⟩
    exact ⟨ht.inv, ht.fresh, fun hno => ht.noBuddies (hno' hno), huntL.trans ht.untouched,
      ht.magic, ht.regions⟩

/-- The order that is found has a free block. -/
lemma firstNonEmpty_eq_some {cur : ℕ} (horder : order ≤ maxOrder)
    (h : s.firstNonEmpty order = some cur) :
    order ≤ cur ∧ cur ≤ maxOrder ∧ s.freeHeads cur ≠ buddyNone := by
  have hmem := mem_range'_1.mp (mem_of_find?_eq_some h)
  have hne := find?_some h
  exact ⟨hmem.1, by omega, by simpa using hne⟩

/-- `allocPages` hands out a block that was free, or changes nothing. -/
lemma BuddyInv.allocPages_handed (h : BuddyInv lo hi s F L) (order : ℕ) :
    s.allocPages order = (none, s) ∨
      order ≤ maxOrder ∧ ∃ b s' F', s.allocPages order = (some b, s') ∧
      Handed lo hi s F L order b s' F' := by
  by_cases horder : maxOrder < order
  · exact .inl (by rw [allocPages, if_pos horder])
  have hle : order ≤ maxOrder := not_lt.mp horder
  cases hfind : s.firstNonEmpty order with
  | none => exact .inl (by rw [allocPages, if_neg horder, hfind])
  | some cur =>
    obtain ⟨hcur, hmax, hne⟩ := firstNonEmpty_eq_some hle hfind
    obtain ⟨ys, hF, -⟩ := (h.chain cur hmax).exists_cons hne
    obtain ⟨n, rfl⟩ := Nat.exists_eq_add_of_le hcur
    obtain ⟨hinv, hfresh, hunt, hmagic⟩ := h.pop hmax hF
    have hno' : NoBuddies F → NoBuddies (update F (order + n) ys) := by
      refine fun hno => hno.mono fun j c hc => ?_
      by_cases hj : j = order + n
      · subst hj
        rw [update_self] at hc
        rw [hF]
        exact mem_cons_of_mem _ hc
      · rwa [update_of_ne hj] at hc
    obtain ⟨F', ht⟩ := hinv.splitDown hfresh hmagic
    refine .inr ⟨hle, s.freeHeads (order + n), _, F', ?_, ht.inv, ht.fresh,
      fun hno => ht.noBuddies (hno' hno), trans hunt ht.untouched, ht.magic, ?_⟩
    · rw [allocPages, if_neg horder, hfind]
      simp [h.popFree_eq hmax hF]
    · rw [ht.regions, popped_regions]

/-- If no buddies are free, then none are afterwards. -/
lemma BuddyInv.allocPages (h : BuddyInv lo hi s F L) (hno : NoBuddies F) (order : ℕ) :
    s.allocPages order = (none, s) ∨
      order ≤ maxOrder ∧ ∃ b s' F', s.allocPages order = (some b, s') ∧
      Taken lo hi s L order b s' F' := by
  refine (h.allocPages_handed order).imp_right ?_
  rintro ⟨hle, b, s', F', e, ht⟩
  exact ⟨hle, b, s', F', e, ht.inv, ht.fresh, ht.noBuddies hno, ht.untouched, ht.magic, ht.regions⟩

/-! ## Giving a block back -/

/-- The test for the region, with one region. -/
lemma containsInSameRegion_iff (hregions : s.regions = [⟨lo, hi⟩]) {addr size : ℕ} :
    s.containsInSameRegion addr size ↔ lo ≤ addr ∧ wadd addr size ≤ hi := by
  simp [containsInSameRegion, hregions]

/-- What the test for the region lets the loop look at does not lie before the range; and if there
is a tag, then it does not lie behind the range either, nor is it the start of a block in use. -/
def Honest (lo hi : ℕ) (s : BuddyPageAllocator) (L : Set (ℕ × ℕ)) : Prop :=
  ∀ k ≤ maxOrder, ∀ b, width 12 k ∣ b → lo ≤ b → b + width 12 k ≤ hi →
    s.containsInSameRegion (min b (b ^^^ width 12 k)) (width 12 k * 2) = true →
    lo ≤ b ^^^ width 12 k ∧
      (Tagged s.mem (b ^^^ width 12 k) k → b ^^^ width 12 k < hi ∧ ∀ x ∈ L, x.2 ≠ b ^^^ width 12 k)

/-- Changes elsewhere do not bring a tag to a block in use. -/
lemma Honest.congr (h : Honest lo hi s L) (hunt : Untouched lo hi L s.mem s'.mem)
    (hregions : s'.regions = s.regions) : Honest lo hi s' L := by
  intro k hk b hb hlo hhi hcontains
  rw [containsInSameRegion, hregions] at hcontains
  obtain ⟨hlo', htag⟩ := h k hk b hb hlo hhi hcontains
  refine ⟨hlo', fun htagged => ⟨?_, fun x hx heq => ?_⟩⟩
  · by_contra hge
    have hread : read s'.mem (b ^^^ width 12 k) = read s.mem (b ^^^ width 12 k) :=
      read_congr fun a ha _ => hunt a (.inr (.inl ((not_lt.mp hge).trans ha)))
    exact hge (htag (by rwa [Tagged, ← hread])).1
  · have hread := hunt.read_eq hx
    rw [heq] at hread
    exact (htag (by rwa [Tagged, ← hread])).2 x hx heq

/-- With one region, and no tag at a block in use or just behind the region, the loop is not misled.
-/
lemma honest_of_region (hregions : s.regions = [⟨lo, hi⟩]) (htag : TagFree s.mem L)
    (hbehind : Behind hi s.mem) (hbound : hi < 2 ^ 64) : Honest lo hi s L := by
  intro k hk b hal hlo hhi hcontains
  obtain ⟨m, hdvd, hmin, hm⟩ := exists_parent hal
  rw [containsInSameRegion_iff hregions, hmin] at hcontains
  refine ⟨by omega, fun htagged => ⟨?_, fun x hx heq => htag x hx k hk (heq ▸ htagged)⟩⟩
  by_contra hge
  -- the sum has wrapped around
  have htop : width 12 (k + 1) ∣ usizeBound := pow_dvd_pow 2 (by simp only [maxOrder] at hk; omega)
  have hsucc := width_succ (e := 12) (k := k)
  have hpos := width_pos (e := 12) (k := k)
  have hend : m + width 12 (k + 1) ≤ usizeBound :=
    add_le_of_dvd hdvd htop (by rw [usizeBound]; omega)
  have hwrap : ¬ m + width 12 k * 2 < usizeBound := by
    intro hlt
    rw [wadd_eq hlt] at hcontains
    omega
  have hbuddy : b ^^^ width 12 k = hi := by omega
  exact absurd (hbuddy ▸ htagged) (hbehind k hk (by omega))

/-- The buddies that the loop of `freePages` unlinks. -/
def mergedWith (s : BuddyPageAllocator) (base order : ℕ) : List (ℕ × ℕ) :=
  let size := blockSizeBytes order
  let buddy := base ^^^ size
  let combinedBase := min base buddy
  if ¬ s.containsInSameRegion combinedBase (size * 2) then []
  else
    match s.tryRemoveBuddy order buddy with
    | (false, _) => []
    | (true, s) =>
      (order, buddy) :: if order + 1 > maxOrder then [] else s.mergedWith combinedBase (order + 1)
termination_by maxOrder - order

/-- A block was given back and merged with the buddies `M`; the blocks `D` are lost. -/
structure Freed (lo hi : ℕ) (s : BuddyPageAllocator) (F : ℕ → List ℕ) (L : Set (ℕ × ℕ))
    (M : List (ℕ × ℕ)) (s' : BuddyPageAllocator) (F' : ℕ → List ℕ) (D : Set (ℕ × ℕ)) : Prop where
  inv : BuddyInv lo hi s' F' (L ∪ D)
  /-- The lost blocks are not the others in use. -/
  apart : ∀ x ∈ D, x ∉ L
  /-- No buddies are free afterwards, if all that lies in the range lies in one region. -/
  noBuddies : (∀ m size, lo ≤ m → m + size ≤ hi → s.containsInSameRegion m size = true) →
    NoBuddies F → NoBuddies F'
  /-- The buddies were on the lists of their orders. -/
  merged : ∀ x ∈ M, x ∈ freeBlocks F
  /-- The other blocks in use are untouched. -/
  untouched : Untouched lo hi L s.mem s'.mem
  /-- What is lost does not look free. -/
  tagFree : TagFree s'.mem D
  /-- Nothing is lost in a range that does not have room for two blocks of the largest order. -/
  lost : hi < lo + width 12 (maxOrder + 1) → D = ∅
  regions : s'.regions = s.regions

/-- The block of the order `k` at `b` was given back; the blocks `D` are lost. -/
structure Returned (lo hi : ℕ) (s : BuddyPageAllocator) (L : Set (ℕ × ℕ)) (s' : BuddyPageAllocator)
    (F' : ℕ → List ℕ) (D : Set (ℕ × ℕ)) : Prop where
  inv : BuddyInv lo hi s' F' (L ∪ D)
  noBuddies : NoBuddies F'
  /-- The other blocks in use are untouched. -/
  untouched : Untouched lo hi L s.mem s'.mem
  /-- What is lost does not look free. -/
  tagFree : TagFree s'.mem D
  /-- Nothing is lost in a range that does not have room for two blocks of the largest order. -/
  lost : hi < lo + width 12 (maxOrder + 1) → D = ∅
  regions : s'.regions = s.regions

section

variable (h : BuddyInv lo hi s F (insert (k, b) L))
include h

/-- What the loop takes for a free buddy is one. -/
lemma BuddyInv.free_of_tagged (hhonest : Honest lo hi s L)
    (hcontains : s.containsInSameRegion (min b (b ^^^ width 12 k)) (width 12 k * 2))
    (htagged : Tagged s.mem (b ^^^ width 12 k) k) : b ^^^ width 12 k ∈ F k := by
  have hbB : (k, b) ∈ freeBlocks F ∪ insert (k, b) L := .inr (mem_insert _ _)
  obtain ⟨hlo, htag⟩ :=
    hhonest k (h.order_le _ hbB) b (h.tiling.aligned _ hbB) (h.tiling.inside _ hbB).1
      (h.tiling.inside _ hbB).2 hcontains
  obtain ⟨hhi, hnot⟩ := htag htagged
  -- the buddy starts a block, and only a free block of this order has the tag
  obtain ⟨j, -, hj⟩ := h.tiling.exists_start_buddy hbB hlo hhi
  rcases hj with hfree | heq | hlive
  · have hjk : j = k := (h.tagged j _ hfree).2.symm.trans htagged.2
    exact hjk ▸ hfree
  · exact absurd (congrArg snd heq) (xor_ne b)
  · exact absurd rfl (hnot _ hlive)

/-- A block whose buddy is not free is put on its list. -/
lemma BuddyInv.freed_push (hb : (k, b) ∉ L)
    (hbuddy : (∀ m size, lo ≤ m → m + size ≤ hi → s.containsInSameRegion m size) →
      b ^^^ width 12 k ∉ F k) :
    ∃ F', Freed lo hi s F L [] (s.pushFree k b) F' ∅ := by
  refine ⟨update F k (b :: F k), ?_, fun x hx => hx.elim,
    fun hall hno => hno.push fun _ => hbuddy hall, by
      simp, h.untouched_pushFree hb, fun x hx => hx.elim,
    fun _ => rfl, rfl⟩
  rw [union_empty]
  exact h.push hb

/-- Taking a buddy off its list; it is in use then, and does not look free. -/
lemma BuddyInv.remove_buddy (hc : c ∈ F k) :
    ∃ F', BuddyInv lo hi (removed s k c) F' (insert (k, c) (insert (k, b) L)) ∧
      (k, c) ∉ insert (k, b) L ∧ (∀ j, ∀ d ∈ F' j, d ∈ F j) ∧
      Untouched lo hi (insert (k, b) L) s.mem (removed s k c).mem ∧
      (read (removed s k c).mem c).magic = 0 := by
  have hk : k ≤ maxOrder := h.order_le (k, c) (.inl hc)
  obtain ⟨xs, ys, hF⟩ := append_of_mem hc
  obtain ⟨hinv, hfresh, hunt, hmagic⟩ := h.remove hk hF
  refine ⟨_, hinv, hfresh, fun j d hd => ?_, hunt, hmagic⟩
  by_cases hj : j = k
  · subst hj
    rw [update_self] at hd
    rw [hF]
    exact perm_middle.mem_iff.mpr (mem_cons_of_mem _ hd)
  · rwa [update_of_ne hj] at hd

end

/-- A block in use and its buddy, in the order of their addresses. -/
lemma BuddyInv.exists_halves (h :
    BuddyInv lo hi s F (insert (k, b ^^^ width 12 k) (insert (k, b) L)))
    (hb : (k, b) ∉ L) (hc : (k, b ^^^ width 12 k) ∉ L) :
    ∃ m, width 12 (k + 1) ∣ m ∧ min b (b ^^^ width 12 k) = m ∧ (k, m) ∉ L ∧
    (k, m + width 12 k) ∉ L ∧
      insert (k, b ^^^ width 12 k) (insert (k, b) L) = insert (k, m + width 12 k)
        (insert (k, m) L) ∧
      ∀ P : ℕ → Prop, P b → P (b ^^^ width 12 k) → P m ∧ P (m + width 12 k) := by
  have hal : width 12 k ∣ b :=
    h.tiling.aligned _ (.inr (mem_insert_of_mem _ (mem_insert _ _)))
  obtain ⟨m, hdvd, hmin, ⟨hbm, hcm⟩ | ⟨hbm, hcm⟩⟩ := exists_parent hal
  · rw [hcm] at hc ⊢
    rw [hbm] at hb ⊢
    exact ⟨m, hdvd, by omega, hb, hc, rfl, fun P hP hP' => ⟨hP, hP'⟩⟩
  · rw [hcm] at hc ⊢
    rw [hbm] at hb ⊢
    exact ⟨m, hdvd, by omega, hc, hb, insert_comm _ _ _, fun P hP hP' => ⟨hP', hP⟩⟩

/-- The free half of a merged pair of the largest order is put on the list, and the other one is
lost. -/
lemma BuddyInv.freed_lost {m : ℕ}
    (h : BuddyInv lo hi s F (insert (maxOrder, m + width 12 maxOrder) (insert (maxOrder, m) L)))
    (hlower : (maxOrder, m) ∉ L) (hupper : (maxOrder, m + width 12 maxOrder) ∉ L)
    (htag : ∀ j ≤ maxOrder, ¬ Tagged s.mem (m + width 12 maxOrder) j) :
    ∃ F' D, Freed lo hi s F L [] (s.pushFree maxOrder m) F' D := by
  have hpos := width_pos (e := 12) (k := maxOrder)
  have hx := h.tiling.inside (maxOrder, m + width 12 maxOrder) (.inr (mem_insert _ _))
  have hy := h.tiling.inside (maxOrder, m) (.inr (mem_insert_of_mem _ (mem_insert _ _)))
  rw [insert_comm] at h
  have hfresh : (maxOrder, m) ∉ insert (maxOrder, m + width 12 maxOrder) L := by
    rintro (heq | hmem)
    · have := congrArg snd heq
      simp only at this
      omega
    · exact hlower hmem
  have hunt := h.untouched_pushFree hfresh
  refine ⟨_, {(maxOrder, m + width 12 maxOrder)}, ?_, ?_,
    fun _ hno => hno.push (k := maxOrder) (b := m) fun hlt => absurd hlt (lt_irrefl _), by
      simp, ?_, ?_, ?_,
    rfl⟩
  · rw [union_singleton]
    exact h.push hfresh
  · rintro x rfl
    exact hupper
  · exact hunt.mono fun x hx => ⟨x, mem_insert_of_mem _ hx, subset_rfl⟩
  · rintro x rfl j hj
    rw [Tagged, hunt.read_eq (mem_insert _ _)]
    exact htag j hj
  · intro hlt
    have hsucc := width_succ (e := 12) (k := maxOrder)
    simp only at hx hy
    omega

lemma tryRemoveBuddy_of_not_tagged (h : ¬ Tagged s.mem c k) :
    s.tryRemoveBuddy k c = (false, s) := by
  rw [tryRemoveBuddy, if_pos]
  exact not_and_or.mp h

section

variable (h : s.containsInSameRegion (min b (b ^^^ width 12 k)) (width 12 k * 2) = true →
  ¬ Tagged s.mem (b ^^^ width 12 k) k)
include h

/-- The loop stops at a block whose buddy is not in the region or not free. -/
lemma freeLoop_stop : s.freeLoop b k = s.pushFree k b := by
  rw [freeLoop, blockSizeBytes_eq]
  by_cases hc : s.containsInSameRegion (min b (b ^^^ width 12 k)) (width 12 k * 2)
  · simp [hc, tryRemoveBuddy_of_not_tagged (h hc)]
  · rw [if_pos hc]

/-- Then it has unlinked nothing. -/
lemma mergedWith_stop : s.mergedWith b k = [] := by
  rw [mergedWith, blockSizeBytes_eq]
  by_cases hc : s.containsInSameRegion (min b (b ^^^ width 12 k)) (width 12 k * 2)
  · simp [hc, tryRemoveBuddy_of_not_tagged (h hc)]
  · rw [if_pos hc]

end

section

variable (hc : s.containsInSameRegion (min b (b ^^^ width 12 k)) (width 12 k * 2) = true)
include hc

section

variable (hremove : s.tryRemoveBuddy k (b ^^^ width 12 k) = (true, s'))
include hremove

/-- The loop merges a block with its free buddy. -/
lemma freeLoop_merge :
    s.freeLoop b k = if k + 1 > maxOrder then s'.pushFree maxOrder (min b (b ^^^ width 12 k))
      else s'.freeLoop (min b (b ^^^ width 12 k)) (k + 1) := by
  rw [freeLoop, blockSizeBytes_eq]
  simp [hc, hremove]

/-- Then it has unlinked the buddy. -/
lemma mergedWith_merge :
    s.mergedWith b k = (k, b ^^^ width 12 k) ::
      if k + 1 > maxOrder then [] else s'.mergedWith (min b (b ^^^ width 12 k)) (k + 1) := by
  rw [mergedWith, blockSizeBytes_eq]
  simp [hc, hremove]

end

end

section

variable (h : BuddyInv lo hi s F (insert (k, b) L))
include h

/-- The loop of `freePages`, from a block in use that does not look free.  Something is lost only if
two blocks of the largest order are merged. -/
lemma BuddyInv.freeLoop (hb : (k, b) ∉ L) (hself : ∀ j ≤ maxOrder, ¬ Tagged s.mem b j)
    (hhonest : Honest lo hi s L) :
    ∃ F' D, Freed lo hi s F L (s.mergedWith b k) (s.freeLoop b k) F' D ∧
      ((∀ x ∈ s.mergedWith b k, x.1 ≠ maxOrder) → D = ∅) := by
  induction hn : maxOrder - k using Nat.strong_induction_on generalizing s F k b with
  | h n ih =>
    have hbB : (k, b) ∈ freeBlocks F ∪ insert (k, b) L := .inr (mem_insert _ _)
    have hk : k ≤ maxOrder := h.order_le (k, b) hbB
    by_cases hmerge : s.containsInSameRegion (min b (b ^^^ width 12 k)) (width 12 k * 2) ∧
        Tagged s.mem (b ^^^ width 12 k) k
    · have hfree := h.free_of_tagged hhonest hmerge.1 hmerge.2
      obtain ⟨F₁, h₁, hfresh, hsub, hunt₁, hmagic⟩ := h.remove_buddy hfree
      obtain ⟨m, hdvd, hmin, hlower, hupper, hinsert, hboth⟩ :=
        h₁.exists_halves hb fun hmem => hfresh (mem_insert_of_mem _ hmem)
      have huntL : Untouched lo hi L s.mem (removed s k (b ^^^ width 12 k)).mem :=
        hunt₁.mono fun x hx => ⟨x, mem_insert_of_mem _ hx, subset_rfl⟩
      -- neither of the two looks free now
      obtain ⟨hm, hm'⟩ :=
        hboth (fun c => ∀ j ≤ maxOrder, ¬ Tagged (removed s k (b ^^^ width 12 k)).mem c j)
          (fun j hj => by rw [Tagged, hunt₁.read_eq (mem_insert _ _)]; exact hself j hj)
        fun j _ => not_tagged_of_magic hmagic
      rw [hinsert] at h₁
      rw [freeLoop_merge hmerge.1 (h.tryRemoveBuddy_eq hfree),
        mergedWith_merge hmerge.1 (h.tryRemoveBuddy_eq hfree), hmin]
      -- whatever happens next, the lists have only lost blocks
      have hstep : ∀ {M : List (ℕ × ℕ)} {s' F' D},
        Freed lo hi (removed s k (b ^^^ width 12 k)) F₁ L M s' F' D →
            Freed lo hi s F L ((k, b ^^^ width 12 k) :: M) s' F' D := by
        intro M s' F' D hr
        refine ⟨hr.inv, hr.apart, fun hall hno => hr.noBuddies ?_ (hno.mono hsub), ?_,
          huntL.trans hr.untouched,
          hr.tagFree, hr.lost, hr.regions.trans removed_regions⟩
        · intro m size hlo hhi
          rw [containsInSameRegion, removed_regions]
          exact hall m size hlo hhi
        · rw [forall_mem_cons]
          exact ⟨hfree, fun x hx => hsub _ _ (hr.merged x hx)⟩
      split_ifs with hlast
      · obtain rfl : k = maxOrder := by omega
        obtain ⟨F', D, hr⟩ := h₁.freed_lost hlower hupper hm'
        exact ⟨F', D, hstep hr, fun hnone => absurd rfl (hnone _ mem_cons_self)⟩
      · obtain ⟨h₂, hfresh₂⟩ := h₁.merge (by omega) hdvd hlower hupper
        obtain ⟨F', D, hr, hkept⟩ := ih (maxOrder - (k + 1)) (by omega) h₂ hfresh₂ hm
          (hhonest.congr huntL removed_regions) rfl
        exact ⟨F', D, hstep hr, fun hnone => hkept fun x hx => hnone x (mem_cons_of_mem _ hx)⟩
    · have hstop := fun hc ht => hmerge ⟨hc, ht⟩
      rw [freeLoop_stop hstop, mergedWith_stop hstop]
      have hbuddy : (∀ m size, lo ≤ m → m + size ≤ hi → s.containsInSameRegion m size) →
        b ^^^ width 12 k ∉ F k := by
        intro hall hfree
        refine hmerge ⟨?_, h.tagged k _ hfree⟩
        -- both halves lie in the range
        have hin := h.tiling.inside _ hbB
        have hin' := h.tiling.inside (k, b ^^^ width 12 k) (.inl hfree)
        obtain ⟨m, -, hmin, hm⟩ := exists_parent (h.tiling.aligned _ hbB)
        simp only at hin hin' hmin hm
        exact hall _ _ (by omega) (by omega)
      obtain ⟨F', hr⟩ := h.freed_push hb hbuddy
      exact ⟨F', ∅, hr, fun _ => rfl⟩

/-- `freePages` takes a block in use back that does not look free. -/
lemma BuddyInv.freePages_freed (hb : (k, b) ∉ L)
    (hself : ∀ j ≤ maxOrder, ¬ Tagged s.mem b j) (hhonest : Honest lo hi s L) :
    ∃ F' D, Freed lo hi s F L (s.mergedWith b k) (s.freePages b k) F' D ∧
      ((∀ x ∈ s.mergedWith b k, x.1 ≠ maxOrder) → D = ∅) := by
  have hk : k ≤ maxOrder := h.order_le (k, b) (.inr (mem_insert _ _))
  rw [freePages, if_neg (not_lt.mpr hk)]
  exact h.freeLoop hb hself hhonest

/-- `freePages` takes a block in use back; with one region no buddies are free afterwards. -/
lemma BuddyInv.freePages (hb : (k, b) ∉ L) (hregions : s.regions = [⟨lo, hi⟩]) (hno : NoBuddies F)
    (htag : TagFree s.mem (insert (k, b) L)) (hbehind : Behind hi s.mem) :
    ∃ F' D, Returned lo hi s L (s.freePages b k) F' D := by
  have hhonest := honest_of_region hregions (htag.mono (subset_insert _ _)) hbehind h.bound
  obtain ⟨F', D, hr, -⟩ := h.freePages_freed hb (htag _ (mem_insert _ _)) hhonest
  have hall : ∀ m size, lo ≤ m → m + size ≤ hi → s.containsInSameRegion m size := by
    intro m size hlo hhi
    have hbound := h.bound
    rw [containsInSameRegion_iff hregions, wadd_eq (by rw [usizeBound]; omega)]
    exact ⟨hlo, hhi⟩
  exact ⟨F', D, hr.inv, hr.noBuddies hall hno, hr.untouched, hr.tagFree, hr.lost, hr.regions⟩

end

/-! ## Adding a range -/

lemma two_pow_mul_pageSize (k : ℕ) : 2 ^ k * pageSize = width 12 k := by
  rw [width, pow_add, mul_comm]
  rfl

lemma pickOrder_le_self (base pages n : ℕ) : pickOrder base pages n ≤ n := by
  induction n with
  | zero => exact le_rfl
  | succ n ih =>
    rw [pickOrder]
    split_ifs
    · exact le_rfl
    · exact ih.trans (le_succ n)

/-- The base is aligned for the order that is picked. -/
lemma pickOrder_dvd (hbase : pageSize ∣ base) (pages n : ℕ) :
    width 12 (pickOrder base pages n) ∣ base := by
  induction n with
  | zero => exact hbase
  | succ n ih =>
    rw [pickOrder]
    split_ifs with h
    · rw [← two_pow_mul_pageSize]
      exact dvd_of_mod_eq_zero h.2
    · exact ih

/-- A larger order does not fit, or the base is not aligned for it. -/
lemma pickOrder_max {j : ℕ} (hj : pickOrder base pages n < j) (hjn : j ≤ n)
    (hdvd : width 12 j ∣ base) : pages < 2 ^ j := by
  induction n with
  | zero => omega
  | succ n ih =>
    rw [pickOrder] at hj
    split_ifs at hj with h
    · omega
    · rcases lt_or_ge n j with hlt | hge
      · obtain rfl : j = n + 1 := by omega
        by_contra hle
        refine h ⟨not_lt.mp hle, ?_⟩
        rw [two_pow_mul_pageSize]
        exact mod_eq_zero_of_dvd hdvd
      · exact ih hj hge

/-- A free block could not have been larger in a range that ends at `stop`. -/
def Greedy (F : ℕ → List ℕ) (stop : ℕ) : Prop :=
  ∀ k < maxOrder, ∀ b ∈ F k, width 12 (k + 1) ∣ b → stop < b + width 12 (k + 1)

/-- Then no two free blocks are the halves of a larger one. -/
lemma Greedy.noBuddies (hg : Greedy F hi) (h : BuddyInv lo hi s F L) : NoBuddies F := by
  intro k hk b hb hmem
  have hal : width 12 k ∣ b := h.tiling.aligned (k, b) (.inl hb)
  have hb' := (h.tiling.inside (k, b) (.inl hb)).2
  have hmem' := (h.tiling.inside (k, b ^^^ width 12 k) (.inl hmem)).2
  have hsucc := width_succ (e := 12) (k := k)
  obtain ⟨m, hdvd, -, ⟨hbm, hcm⟩ | ⟨hbm, hcm⟩⟩ := exists_parent hal
  · have := hg k hk b hb (hbm ▸ hdvd)
    simp only at hb' hmem'
    omega
  · have := hg k hk _ hmem (hcm ▸ hdvd)
    simp only at hb' hmem'
    omega

/-- The range grows by a free block. -/
lemma BuddyInv.extend (h : BuddyInv lo base s F ∅) (hlo : lo ≤ base)
    (hk : k ≤ maxOrder) (hdvd : width 12 k ∣ base) (hbound : base + width 12 k < 2 ^ 64) :
    BuddyInv lo (base + width 12 k) (s.pushFree k base) (update F k (base :: F k)) ∅ ∧
      Untouched lo (base + width 12 k) ∅ s.mem (s.pushFree k base).mem := by
  have hblocks : insert (k, base) (freeBlocks F ∪ ∅) = freeBlocks F ∪ insert (k, base) ∅ := by
    rw [union_insert]
  have hinv : BuddyInv lo (base + width 12 k) s F (insert (k, base) ∅) := by
    refine ⟨hbound, hblocks ▸ h.tiling.extend hlo hdvd, ?_, ?_, h.nodup, h.chain, h.back, h.tagged⟩
    · rintro x (hx | rfl | hx)
      · exact h.order_le x (.inl hx)
      · exact hk
      · exact hx.elim
    · rintro x (rfl | hx) hfree
      · have := (h.tiling.mem_range (.inl hfree) base_mem_span).2
        exact lt_irrefl _ this
      · exact hx.elim
  exact ⟨hinv.push (notMem_empty _), hinv.untouched_pushFree (notMem_empty _)⟩

/-- Carving puts a block of the order that is picked on its list and goes on behind it. -/
lemma carve_of_pos (hpages : 0 < pages) (hk : k = pickOrder base pages maxOrder) :
    s.carve base pages = (s.pushFree k base).carve (base + width 12 k) (pages - 2 ^ k) := by
  rw [carve, dif_pos hpages, hk, ← two_pow_mul_pageSize]

lemma carve_zero : s.carve base 0 = s := by
  rw [carve, dif_neg (lt_irrefl 0)]

/-- What carving makes of the range up to `base`, to which the pages up to `hi` are added. -/
lemma BuddyInv.carve (h : BuddyInv lo base s F ∅) (hlo : lo ≤ base)
    (hdvd : pageSize ∣ base) (hend : base + pages * pageSize = hi) (hbound : hi < 2 ^ 64)
    (hg : Greedy F hi) :
    ∃ F', BuddyInv lo hi (s.carve base pages) F' ∅ ∧ Greedy F' hi ∧
      Untouched lo hi ∅ s.mem (s.carve base pages).mem ∧
      (s.carve base pages).regions = s.regions := by
  induction pages using Nat.strong_induction_on generalizing s F base with
  | h pages ih =>
    rcases Nat.eq_zero_or_pos pages with rfl | hpages
    · rw [Nat.zero_mul, Nat.add_zero] at hend
      rw [carve_zero]
      exact ⟨F, hend ▸ h, hg, refl _ _ _ _, rfl⟩
    · obtain ⟨k, hkdef⟩ : ∃ k, k = pickOrder base pages maxOrder := ⟨_, rfl⟩
      have hk : k ≤ maxOrder := hkdef ▸ pickOrder_le_self _ _ _
      have hfit : 2 ^ k ≤ pages := hkdef ▸ pickOrder_le hpages _
      have hal : width 12 k ∣ base := hkdef ▸ pickOrder_dvd hdvd _ _
      rw [carve_of_pos hpages hkdef]
      have hbytes : width 12 k ≤ pages * pageSize := by
        rw [← two_pow_mul_pageSize]
        exact mul_le_mul_right _ hfit
      obtain ⟨hinv, hunt⟩ := h.extend hlo hk hal (by omega)
      have hg' : Greedy (update F k (base :: F k)) hi := by
        intro j hj b hb hjb
        by_cases hjk : j = k
        · subst hjk
          rw [update_self] at hb
          rcases mem_cons.mp hb with rfl | hb
          · -- a larger block would have been picked
            have hlt : pages < 2 ^ (j + 1) :=
              pickOrder_max (hkdef ▸ lt_succ_self _) hj hjb
            have : pages * pageSize < width 12 (j + 1) := by
              rw [← two_pow_mul_pageSize]
              exact mul_lt_mul_of_pos_right hlt (by decide)
            omega
          · exact hg j hj b hb hjb
        · rw [update_of_ne hjk] at hb
          exact hg j hj b hb hjb
      have hsum : base + width 12 k + (pages - 2 ^ k) * pageSize = hi := by
        rw [Nat.sub_mul, two_pow_mul_pageSize]
        omega
      have hpos := Nat.two_pow_pos k
      obtain ⟨F', hinv', hg'', hunt', hregions⟩ := ih (pages - 2 ^ k) (by omega) hinv (by omega)
        (dvd_add hdvd (width_dvd_width (zero_le k))) hsum hg'
      have huntHi : Untouched lo hi ∅ s.mem (s.pushFree k base).mem := by
        rintro a (ha | ha | ⟨x, hx, -⟩)
        · exact hunt a (.inl ha)
        · exact hunt a (.inr (.inl (by omega)))
        · exact hx.elim
      exact ⟨F', hinv', hg'', huntHi.trans hunt', hregions⟩

/-- A new allocator has an empty range. -/
lemma BuddyInv.new (hlo : lo < 2 ^ 64) : BuddyInv lo lo (new mem) (fun _ => []) ∅ := by
  have hempty : freeBlocks (fun _ => []) ∪ ∅ = (∅ : Set (ℕ × ℕ)) := by
    ext x
    simp [freeBlocks]
  refine ⟨hlo, ?_, ?_, fun x hx => hx.elim, fun k => nodup_nil, fun k _ => rfl,
    fun k => trivial, fun k b hb => absurd hb (by simp)⟩
  · rw [hempty]
    exact Tiling.empty 12 lo
  · rw [hempty]
    exact fun x hx => hx.elim

/-- After `addRange` the whole range is free, and no two buddies are. -/
lemma addRange_inv (mem : Memory) (hdvd : pageSize ∣ lo) (hhi : lo + pages * pageSize = hi)
    (hbound : hi < 2 ^ 64) :
    ∃ F, BuddyInv lo hi ((new mem).addRange lo pages) F ∅ ∧ NoBuddies F ∧
      Untouched lo hi ∅ mem ((new mem).addRange lo pages).mem ∧
      (((new mem).addRange lo pages).regions = [⟨lo, hi⟩] ∨ lo = hi) := by
  have hnew : BuddyInv lo lo (new mem) (fun _ => []) ∅ := BuddyInv.new (by omega)
  by_cases hpages : pages = 0
  · subst hpages
    obtain rfl : lo = hi := by omega
    rw [addRange, if_pos rfl]
    exact ⟨_, hnew, fun k _ b hb => absurd hb (by simp), refl _ _ _ _, .inr rfl⟩
  · have hregion : BuddyInv lo lo ((new mem).addRegion lo hi) (fun _ => []) ∅ :=
      ⟨hnew.bound, hnew.tiling, hnew.order_le, hnew.apart, hnew.nodup, hnew.chain,
        hnew.back, hnew.tagged⟩
    obtain ⟨F, hinv, hg, hunt, hregions⟩ :=
      hregion.carve le_rfl hdvd hhi hbound fun k _ b hb => absurd hb (by simp)
    rw [addRange, if_neg hpages, wadd_eq (by rw [hhi]; exact hbound), hhi]
    exact ⟨F, hinv, hg.noBuddies hinv, hunt, .inl hregions⟩

end CabOS.BuddyPageAllocator
