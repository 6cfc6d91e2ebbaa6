import CabOS.Memory.Heap.BuddyInv

/-!
# Steps of the buddy allocator

What pushing, popping and unlinking a block do to the invariant, and the steps that only change how
the blocks in use are seen: a block is split into its halves, two halves are merged.
-/

namespace CabOS.BuddyPageAllocator

open Function Set Prod Untouched List

open DyadicBlock FreeBlockNode

variable {lo hi k b c : ℕ} {s s' : BuddyPageAllocator} {F : ℕ → List ℕ} {L : Set (ℕ × ℕ)}
  {mem mem' : Memory} {xs ys : List ℕ}

namespace BuddyInv

variable {j d : ℕ}

section

variable (h : BuddyInv lo hi s F L)
include h

/-- The head of a list is a word. -/
lemma head_lt (hk : k ≤ maxOrder) : s.freeHeads k < 2 ^ 64 := by
  have hchain := h.chain k hk
  cases hF : F k with
  | nil =>
    rw [hF, chain_nil] at hchain
    rw [hchain, buddyNone_eq]
    decide
  | cons d xs =>
    rw [hF] at hchain
    rw [hchain.1]
    have := h.base_lt (x := (k, d)) (.inl (by simp [hF]))
    rw [buddyNone_eq] at this
    omega

lemma free_ne_none (hd : d ∈ F j) : d ≠ buddyNone :=
  ne_of_lt (h.base_lt (x := (j, d)) (.inl hd))

/-- A free block and one in use have different bases. -/
lemma free_ne (hd : d ∈ F j) (hb : (k, b) ∈ L) : d ≠ b := by
  intro heq
  have := h.eq_of_base (x := (j, d)) (y := (k, b)) (.inl hd) (.inr hb) heq
  exact h.apart (k, b) hb (this ▸ hd)

/-- Free blocks of different orders have different bases. -/
lemma free_ne_free (hjk : j ≠ k) (hd : d ∈ F j) (hb : b ∈ F k) : d ≠ b := by
  intro heq
  have := h.eq_of_base (x := (j, d)) (y := (k, b)) (.inl hd) (.inl hb) heq
  exact hjk (congrArg fst this)

end

section

variable (h : BuddyInv lo hi s F (insert (k, b) L))
include h

/-- The nodes after a push: the new head, the old head with its new back link, and the others. -/
lemma read_pushFree : read (s.pushFree k b).mem b = ⟨buddyFreeMagic, k, s.freeHeads k, buddyNone⟩ ∧
      ∀ j, ∀ c ∈ F j, read (s.pushFree k b).mem c =
        if c = s.freeHeads k then { read s.mem c with prev := b } else read s.mem c := by
  have hbB : (k, b) ∈ freeBlocks F ∪ insert (k, b) L := .inr (mem_insert _ _)
  have hk : k ≤ maxOrder := h.order_le _ hbB
  have hblt := h.base_lt hbB
  set m := setPrev (setNext (setOrder (setMagic s.mem b buddyFreeMagic) b k) b (s.freeHeads k)) b
    buddyNone with hm
  have hout : ∀ a, (a < b ∨ b + 24 ≤ a) → m a = s.mem a := by
    intro a ha
    rw [hm, setPrev_of_not_mem ha, setNext_of_not_mem ha, setOrder_of_not_mem ha,
      setMagic_of_not_mem ha]
  have hnode : read m b = ⟨buddyFreeMagic, k, s.freeHeads k, buddyNone⟩ := by
    have hk32 : k < 2 ^ 32 := lt_of_le_of_lt hk (by decide)
    rw [hm, read_setPrev (by rw [buddyNone_eq]; decide), read_setNext (h.head_lt hk),
      read_setOrder hk32,
      read_setMagic (by decide)]
  have hsame : ∀ j, ∀ c ∈ F j, read m c = read s.mem c := fun j c hc =>
    h.read_of_ne (x := (j, c)) (.inl hc) hbB (h.free_ne hc (mem_insert _ _)) hout
  have hmem : (s.pushFree k b).mem =
      if s.freeHeads k ≠ buddyNone then setPrev m (s.freeHeads k) b else m := rfl
  by_cases hnone : s.freeHeads k = buddyNone
  · rw [hmem, if_neg (not_not.mpr hnone)]
    refine ⟨hnode, fun j c hc => ?_⟩
    have hne : c ≠ s.freeHeads k := by
      rw [hnone]
      exact h.free_ne_none hc
    rw [if_neg hne, hsame j c hc]
  · obtain ⟨rest, hF, -⟩ := (h.chain k hk).exists_cons hnone
    have hhead : s.freeHeads k ∈ F k := by simp [hF]
    have hheadB : (k, s.freeHeads k) ∈ freeBlocks F ∪ insert (k, b) L := .inl hhead
    rw [hmem, if_pos hnone]
    refine ⟨?_, fun j c hc => ?_⟩
    · rw [← hnode]
      exact h.read_of_ne hbB hheadB (h.free_ne hhead (mem_insert _ _)).symm fun a ha =>
        setPrev_of_not_mem ha
    · split_ifs with hceq
      · rw [← hceq, read_setPrev (by rw [buddyNone_eq] at hblt; omega), hsame j c hc]
      · rw [← hsame j c hc]
        exact h.read_of_ne (x := (j, c)) (.inl hc) hheadB hceq fun a ha => setPrev_of_not_mem ha

/-- A push writes to nodes only. -/
lemma untouched_pushFree (hb : (k, b) ∉ L) : Untouched lo hi L s.mem (s.pushFree k b).mem := by
  have hbB : (k, b) ∈ freeBlocks F ∪ insert (k, b) L := .inr (mem_insert _ _)
  have hfirst : Untouched lo hi L s.mem
      (setPrev (setNext (setOrder (setMagic s.mem b buddyFreeMagic) b k) b (s.freeHeads k)) b
        buddyNone) := by
    refine h.untouched_node (subset_insert _ _) hbB hb fun a ha => ?_
    rw [setPrev_of_not_mem ha, setNext_of_not_mem ha, setOrder_of_not_mem ha,
      setMagic_of_not_mem ha]
  refine hfirst.trans ?_
  simp only [pushFree]
  split_ifs with hnone
  · obtain ⟨rest, hF, -⟩ := (h.chain k (h.order_le _ hbB)).exists_cons hnone
    have hhead : (k, s.freeHeads k) ∈ freeBlocks F := by simp [hF]
    exact h.untouched_node (subset_insert _ _) (.inl hhead)
      (fun hmem => h.apart _ (mem_insert_of_mem _ hmem) hhead) fun a ha => setPrev_of_not_mem ha
  · exact refl _ _ _ _

/-- A block in use is put on its list. -/
lemma push (hb : (k, b) ∉ L) : BuddyInv lo hi (s.pushFree k b) (update F k (b :: F k)) L := by
  have hbB : (k, b) ∈ freeBlocks F ∪ insert (k, b) L := .inr (mem_insert _ _)
  have hk : k ≤ maxOrder := h.order_le _ hbB
  obtain ⟨hnode, hread⟩ := h.read_pushFree
  have hchain := h.chain k hk
  have hself : (s.pushFree k b).freeHeads k = b := update_self _ _ _
  refine h.list_add hb (fun c => mem_cons) ⟨nodup_cons.mpr ⟨h.apart _ (mem_insert _ _), h.nodup k⟩,
    fun j hj => update_of_ne hj _ _, ?_, ?_, ?_, ?_⟩
  · intro j hj c hc
    rw [hread j c hc, if_neg]
    intro hceq
    -- the old head is in the list of order `k`
    have hne : s.freeHeads k ≠ buddyNone := by
      rw [← hceq]
      exact h.free_ne_none hc
    obtain ⟨rest, hF, -⟩ := hchain.exists_cons hne
    exact h.free_ne_free hj hc (show s.freeHeads k ∈ F k by simp [hF]) hceq
  · rw [hself]
    refine ⟨rfl, ne_of_lt (h.base_lt hbB), ?_⟩
    rw [nextIn, hnode]
    refine hchain.congr fun c hc => ?_
    rw [nextIn, nextIn, hread k c hc]
    split_ifs <;> rfl
  · refine ⟨by rw [prevIn, hnode], ?_⟩
    have hback := h.back k
    have hnodup := h.nodup k
    have hreadk := hread k
    cases hF : F k with
    | nil => trivial
    | cons d rest =>
      rw [hF] at hchain hback hnodup hreadk
      obtain ⟨hd, -, -⟩ := hchain
      refine ⟨by rw [prevIn, hreadk d mem_cons_self, if_pos hd.symm], ?_⟩
      refine hback.2.congr fun c hc => ?_
      have hcd : c ≠ s.freeHeads k := by
        rw [hd]
        rintro rfl
        exact (nodup_cons.mp hnodup).1 hc
      rw [prevIn, prevIn, hreadk c (mem_cons_of_mem _ hc), if_neg hcd]
  · intro c hc
    rcases mem_cons.mp hc with rfl | hc
    · rw [Tagged, hnode]
      exact ⟨rfl, rfl⟩
    · rw [Tagged, hread k c hc]
      split_ifs <;> exact h.tagged k c hc

end

/-! ## Unlinking -/

/-- What unlinking the block `b` makes of the node `c`. -/
def unlinked (mem : Memory) (b c : ℕ) : FreeBlockNode where
  magic := (read mem c).magic
  order := (read mem c).order
  next := if c = prevIn mem b then nextIn mem b else (read mem c).next
  prev := if c = nextIn mem b then prevIn mem b else (read mem c).prev

/-- The memory in which the block before `b` is linked to the one after it. -/
def bypassed (mem : Memory) (b : ℕ) : Memory :=
  if prevIn mem b = buddyNone then mem else setNext mem (prevIn mem b) (nextIn mem b)

/-- The memory in which the neighbours of the block `b` are linked to each other. -/
def relinked (mem : Memory) (b : ℕ) : Memory :=
  if nextIn mem b ≠ buddyNone then setPrev (bypassed mem b) (nextIn mem b) (prevIn mem b)
  else bypassed mem b

/-- The allocator after the block `b` was unlinked. -/
def removed (s : BuddyPageAllocator) (k b : ℕ) : BuddyPageAllocator where
  mem := setMagic (relinked s.mem b) b 0
  freeHeads := if prevIn s.mem b = buddyNone then update s.freeHeads k (nextIn s.mem b)
    else s.freeHeads
  regions := s.regions

@[simp] lemma removed_regions : (removed s k b).regions = s.regions := by
  rw [removed]

/-- The allocator after the first block of a list was taken. -/
def popped (s : BuddyPageAllocator) (k b : ℕ) : BuddyPageAllocator where
  mem := relinked (setMagic s.mem b 0) b
  freeHeads := update s.freeHeads k (nextIn s.mem b)
  regions := s.regions

lemma popped_mem : (popped s k b).mem = relinked (setMagic s.mem b 0) b := by
  rw [popped]

@[simp] lemma popped_regions : (popped s k b).regions = s.regions := by
  rw [popped]

lemma nextIn_setMagic : nextIn (setMagic mem b 0) b = nextIn mem b := by
  rw [nextIn, read_setMagic (by norm_num), nextIn]

lemma prevIn_setMagic : prevIn (setMagic mem b 0) b = prevIn mem b := by
  rw [prevIn, read_setMagic (by norm_num), prevIn]

section

variable (h : BuddyInv lo hi s F L) {x y : ℕ × ℕ}
include h

/-- Writing the forward link of one node, seen at any node. -/
lemma read_setNext_at (hx : x ∈ freeBlocks F ∪ L) (hy : y ∈ freeBlocks F ∪ L) {v : ℕ}
    (hv : v < 2 ^ 64) :
    read (setNext mem y.2 v) x.2 =
      if x.2 = y.2 then { read mem x.2 with next := v } else read mem x.2 := by
  split_ifs with heq
  · rw [heq, read_setNext hv]
  · exact h.read_of_ne hx hy heq fun a ha => setNext_of_not_mem ha

/-- Writing the back link of one node, seen at any node. -/
lemma read_setPrev_at (hx : x ∈ freeBlocks F ∪ L) (hy : y ∈ freeBlocks F ∪ L) {v : ℕ}
    (hv : v < 2 ^ 64) :
    read (setPrev mem y.2 v) x.2 =
      if x.2 = y.2 then { read mem x.2 with prev := v } else read mem x.2 := by
  split_ifs with heq
  · rw [heq, read_setPrev hv]
  · exact h.read_of_ne hx hy heq fun a ha => setPrev_of_not_mem ha

/-- A write to the node of a free block touches no block in use. -/
lemma untouched_free (hd : d ∈ F j)
    (hmem : ∀ a, (a < d ∨ d + 24 ≤ a) → mem' a = mem a) : Untouched lo hi L mem mem' :=
  h.untouched_node subset_rfl (.inl hd :
    (j, d) ∈ freeBlocks F ∪ L) (fun hmem => h.apart _ hmem hd) hmem

section

variable (hprev : prevIn mem b = buddyNone ∨ prevIn mem b ∈ F k)
include hprev

section

variable (hnext : nextIn mem b = buddyNone ∨ nextIn mem b ∈ F k)
include hnext

/-- The nodes after the neighbours are linked to each other. -/
lemma read_relinked (hc : c ∈ F j) : read (relinked mem b) c = unlinked mem b c := by
  have hc' : (j, c) ∈ freeBlocks F ∪ L := .inl hc
  have hne : c ≠ buddyNone := h.free_ne_none hc
  have hread : read (bypassed mem b) c =
      if c = prevIn mem b then { read mem c with next := nextIn mem b } else read mem c := by
    rcases hprev with heq | hin
    · rw [bypassed, if_pos heq, heq, if_neg hne]
    · have hin' : (k, prevIn mem b) ∈ freeBlocks F ∪ L := .inl hin
      rw [bypassed, if_neg (h.free_ne_none hin)]
      exact h.read_setNext_at hc' hin' next_lt
  have hread' : read (relinked mem b) c =
      if c = nextIn mem b then { read (bypassed mem b) c with prev := prevIn mem b }
      else read (bypassed mem b) c := by
    rcases hnext with heq | hin
    · rw [relinked, if_neg (not_not.mpr heq), if_neg (heq ▸ hne)]
    · have hin' : (k, nextIn mem b) ∈ freeBlocks F ∪ L := .inl hin
      rw [relinked, if_pos (h.free_ne_none hin)]
      exact h.read_setPrev_at hc' hin' prev_lt
  rw [hread', hread, unlinked]
  split_ifs <;> rfl

/-- Linking the neighbours writes to free nodes only. -/
lemma untouched_relinked : Untouched lo hi L mem (relinked mem b) := by
  have hfirst : Untouched lo hi L mem (bypassed mem b) := by
    rcases hprev with heq | hin
    · rw [bypassed, if_pos heq]
      exact refl lo hi L mem
    · rw [bypassed, if_neg (h.free_ne_none hin)]
      exact h.untouched_free hin fun a ha => setNext_of_not_mem ha
  refine hfirst.trans ?_
  rcases hnext with heq | hin
  · rw [relinked, if_neg (not_not.mpr heq)]
    exact refl lo hi L _
  · rw [relinked, if_pos (h.free_ne_none hin)]
    exact h.untouched_free hin fun a ha => setPrev_of_not_mem ha

end

end

/-- A free block is found by its tag. -/
lemma tryRemoveBuddy_eq (hb : b ∈ F k) : s.tryRemoveBuddy k b = (true, removed s k b) := by
  obtain ⟨hmagic, horder⟩ := h.tagged k b hb
  unfold tryRemoveBuddy
  simp only [hmagic, horder, ne_eq, not_true_eq_false, or_self, if_false]
  rfl

section

variable (hk : k ≤ maxOrder)
include hk

/-- A block in the middle of its list is unlinked. -/
lemma unlink (hF : F k = xs ++ b :: ys) (hheads : s'.freeHeads =
      if prevIn s.mem b = buddyNone then update s.freeHeads k (nextIn s.mem b)
      else s.freeHeads)
    (hread : ∀ j, ∀ c ∈ F j, c ≠ b → read s'.mem c = unlinked s.mem b c) :
    BuddyInv lo hi s' (update F k (xs ++ ys)) (insert (k, b) L) ∧ (k, b) ∉ L := by
  have hbF : b ∈ F k := by simp [hF]
  have hchain := h.chain k hk
  have hback := h.back k
  have hnodup := h.nodup k
  have hprev := hback.prev_mem hbF
  have hnext := hchain.next_mem hbF
  rw [hF] at hchain hback hnodup
  have hmiddle : (b :: (xs ++ ys)).Nodup := nodup_middle.mp hnodup
  have hb : b ∉ xs ++ ys := hmiddle.notMem
  have hmem : ∀ c, c ∈ F k ↔ c = b ∨ c ∈ xs ++ ys := by
    intro c
    rw [hF, ← mem_cons]
    exact perm_middle.mem_iff
  have hreadk : ∀ c ∈ xs ++ ys, read s'.mem c = unlinked s.mem b c := fun c hc =>
    hread k c ((hmem c).mpr (.inr hc)) fun heq => hb (heq ▸ hc)
  refine h.list_del hmem hb ⟨hmiddle.of_cons, ?_, ?_, ?_, ?_, ?_⟩
  · intro j hj
    rw [hheads]
    split_ifs
    · exact update_of_ne hj _ _
    · rfl
  · -- the lists of other orders have neither neighbour
    intro j hj c hc
    have hne : c ≠ buddyNone := h.free_ne_none hc
    have hcp : c ≠ prevIn s.mem b := by
      rcases hprev with heq | hin
      · rw [heq]
        exact hne
      · exact h.free_ne_free hj hc hin
    have hcn : c ≠ nextIn s.mem b := by
      rcases hnext with heq | hin
      · rw [heq]
        exact hne
      · exact h.free_ne_free hj hc hin
    rw [hread j c hc (h.free_ne_free hj hc hbF), unlinked, if_neg hcp, if_neg hcn]
  · have hhead : s'.freeHeads k =
        if prevIn s.mem b = buddyNone then nextIn s.mem b else s.freeHeads k := by
      rw [hheads]
      split_ifs
      · exact update_self _ _ _
      · rfl
    rw [hhead]
    refine hchain.remove hback hnodup fun c hc => ?_
    rw [nextIn, hreadk c hc]
    rfl
  · refine Back.remove hchain hback hnodup fun c hc => ?_
    rw [prevIn, hreadk c hc]
    rfl
  · intro c hc
    rw [Tagged, hreadk c hc]
    exact h.tagged k c ((hmem c).mpr (.inr hc))

/-- A free block is found by its tag and unlinked. -/
lemma remove (hF : F k = xs ++ b :: ys) :
    BuddyInv lo hi (removed s k b) (update F k (xs ++ ys)) (insert (k, b) L) ∧ (k, b) ∉ L ∧
      Untouched lo hi L s.mem (removed s k b).mem ∧ (read (removed s k b).mem b).magic = 0 := by
  have hbF : b ∈ F k := by simp [hF]
  have hprev : prevIn s.mem b = buddyNone ∨ prevIn s.mem b ∈ F k := (h.back k).prev_mem hbF
  have hnext : nextIn s.mem b = buddyNone ∨ nextIn s.mem b ∈ F k := (h.chain k hk).next_mem hbF
  have hread : ∀ j, ∀ c ∈ F j, c ≠ b → read (removed s k b).mem c = unlinked s.mem b c := by
    intro j c hc hcb
    rw [← h.read_relinked hprev hnext hc]
    exact h.read_of_ne (x := (j, c)) (y :=
      (k, b)) (.inl hc) (.inl hbF) hcb fun a ha => setMagic_of_not_mem ha
  have hunlink : BuddyInv lo hi (removed s k b) (update F k (xs ++ ys)) (insert (k, b) L) ∧
      (k, b) ∉ L := h.unlink hk hF (by simp only [removed]) hread
  refine ⟨hunlink.1, hunlink.2, ?_, ?_⟩
  · exact (h.untouched_relinked hprev hnext).trans
      (h.untouched_free hbF fun a ha => setMagic_of_not_mem ha)
  · rw [removed, read_setMagic (by norm_num)]

/-- The first block of a list is taken. -/
lemma popFree_eq (hF : F k = b :: ys) : s.popFree k = (some b, popped s k b) := by
  have hchain := h.chain k hk
  have hback := h.back k
  rw [hF] at hchain hback
  have hprev : prevIn (setMagic s.mem b 0) b = buddyNone := prevIn_setMagic.trans hback.1
  have hbypass : bypassed (setMagic s.mem b 0) b = setMagic s.mem b 0 := by
    rw [bypassed, if_pos hprev]
  have hnext : (read (setMagic s.mem b 0) b).next = nextIn s.mem b := nextIn_setMagic
  unfold popFree
  simp only [hchain.1, if_neg hchain.2.1, hnext, popped, relinked, hbypass, hprev, nextIn_setMagic]

/-- Taking the first block of a list unlinks it. -/
lemma pop (hF : F k = b :: ys) :
    BuddyInv lo hi (popped s k b) (update F k ys) (insert (k, b) L) ∧ (k, b) ∉ L ∧
      Untouched lo hi L s.mem (popped s k b).mem ∧ (read (popped s k b).mem b).magic = 0 := by
  have hbF : b ∈ F k := by simp [hF]
  have hbB : (k, b) ∈ freeBlocks F ∪ L := .inl hbF
  have hback := h.back k
  rw [hF] at hback
  have hnone : prevIn s.mem b = buddyNone := hback.1
  have hprev : prevIn (setMagic s.mem b 0) b = buddyNone ∨ prevIn (setMagic s.mem b 0) b ∈ F k :=
    .inl (prevIn_setMagic.trans hnone)
  have hnext : nextIn (setMagic s.mem b 0) b = buddyNone ∨ nextIn (setMagic s.mem b 0) b ∈ F k := by
    rw [nextIn_setMagic]
    exact (h.chain k hk).next_mem hbF
  have hread : ∀ j, ∀ c ∈ F j, c ≠ b → read (popped s k b).mem c = unlinked s.mem b c := by
    intro j c hc hcb
    have hsame : read (setMagic s.mem b 0) c = read s.mem c :=
      h.read_of_ne (x := (j, c)) (.inl hc) hbB hcb fun a ha => setMagic_of_not_mem ha
    rw [popped_mem, h.read_relinked hprev hnext hc, unlinked, unlinked, hsame, nextIn_setMagic,
      prevIn_setMagic]
  have hheads : (popped s k b).freeHeads =
      if prevIn s.mem b = buddyNone then update s.freeHeads k (nextIn s.mem b)
      else s.freeHeads := by
    rw [if_pos hnone, popped]
  have hunlink : BuddyInv lo hi (popped s k b) (update F k ([] ++ ys)) (insert (k, b) L) ∧
      (k, b) ∉ L := h.unlink hk hF hheads hread
  have hfirst : Untouched lo hi L s.mem (setMagic s.mem b 0) :=
    h.untouched_free hbF fun a ha => setMagic_of_not_mem ha
  -- the block is not its own neighbour
  have hself : read (relinked (setMagic s.mem b 0) b) b = unlinked (setMagic s.mem b 0) b b :=
    h.read_relinked hprev hnext hbF
  refine ⟨hunlink.1, hunlink.2, ?_, ?_⟩
  · rw [popped_mem]
    exact hfirst.trans (h.untouched_relinked hprev hnext)
  · rw [popped_mem, hself, unlinked, read_setMagic (by norm_num)]

end

/-! ## Splitting and merging blocks in use -/

/-- The blocks in use are seen differently. -/
lemma reuse {L' : Set (ℕ × ℕ)} (htiling : Tiling 12 lo hi (freeBlocks F ∪ L'))
    (horder : ∀ x ∈ L', x.1 ≤ maxOrder) (hapart : ∀ x ∈ L', x ∉ freeBlocks F) :
    BuddyInv lo hi s F L' := by
  refine ⟨h.bound, htiling, ?_, hapart, h.nodup, h.chain, h.back, h.tagged⟩
  rintro x (hx | hx)
  · exact h.order_le x (.inl hx)
  · exact horder x hx

end

/-- A block in use is split into its halves. -/
lemma split (h : BuddyInv lo hi s F (insert (k + 1, b) L)) (hb : (k + 1, b) ∉ L) :
    BuddyInv lo hi s F (insert (k, b + width 12 k) (insert (k, b) L)) ∧
      (k, b + width 12 k) ∉ insert (k, b) L ∧ (k, b) ∉ L := by
  have hx : (k + 1, b) ∈ freeBlocks F ∪ insert (k + 1, b) L := .inr (mem_insert _ _)
  have hfree : (k + 1, b) ∉ freeBlocks F := h.apart _ (mem_insert _ _)
  obtain ⟨hlower, hupper⟩ := h.tiling.halves_notMem hx
  have hpos := width_pos (e := 12) (k := k)
  have hblocks :
    {(k, b), (k, b + width 12 k)} ∪ ((freeBlocks F ∪ insert (k + 1, b) L) \ {(k + 1, b)}) =
      freeBlocks F ∪ insert (k, b + width 12 k) (insert (k, b) L) := by
    rw [union_insert, insert_sdiff_of_mem _ (mem_singleton _),
      sdiff_singleton_eq_self (by rintro (hmem | hmem); exacts [hfree hmem, hb hmem])]
    ext x
    simp only [mem_union, mem_insert_iff, mem_singleton_iff]
    tauto
  have hk : k + 1 ≤ maxOrder := h.order_le _ hx
  refine ⟨h.reuse (hblocks ▸ h.tiling.split hx) ?_ ?_, ?_, ?_⟩
  · rintro x (rfl | rfl | hmem)
    · exact (Nat.le_succ k).trans hk
    · exact (Nat.le_succ k).trans hk
    · exact h.order_le x (.inr (mem_insert_of_mem _ hmem))
  · rintro x (rfl | rfl | hmem)
    · exact fun hmem => hupper (.inl hmem)
    · exact fun hmem => hlower (.inl hmem)
    · exact h.apart x (mem_insert_of_mem _ hmem)
  · rintro (heq | hmem)
    · have := congrArg snd heq
      simp only at this
      omega
    · exact hupper (.inr (mem_insert_of_mem _ hmem))
  · exact fun hmem => hlower (.inr (mem_insert_of_mem _ hmem))

/-- Two halves in use are merged. -/
lemma merge (h : BuddyInv lo hi s F (insert (k, b + width 12 k) (insert (k, b) L)))
    (hk : k < maxOrder) (hdvd : width 12 (k + 1) ∣ b) (hlower : (k, b) ∉ L)
    (hupper : (k, b + width 12 k) ∉ L) :
    BuddyInv lo hi s F (insert (k + 1, b) L) ∧ (k + 1, b) ∉ L := by
  have hx : (k, b) ∈ freeBlocks F ∪ insert (k, b + width 12 k) (insert (k, b) L) :=
    .inr (mem_insert_of_mem _ (mem_insert _ _))
  have hy : (k, b + width 12 k) ∈ freeBlocks F ∪ insert (k, b + width 12 k) (insert (k, b) L) :=
    .inr (mem_insert _ _)
  have hparent : (k + 1, b) ∉ freeBlocks F ∪ insert (k, b + width 12 k) (insert (k, b) L) :=
    fun hmem => (h.tiling.halves_notMem hmem).1 hx
  have hfree : ∀ x ∈ insert (k, b + width 12 k) (insert (k, b) L), x ∉ freeBlocks F := h.apart
  have hblocks : {(k + 1, b)} ∪ ((freeBlocks F ∪ insert (k, b + width 12 k) (insert (k, b) L)) \
      {(k, b), (k, b + width 12 k)}) = freeBlocks F ∪ insert (k + 1, b) L := by
    ext x
    have hx1 := hfree (k, b) (mem_insert_of_mem _ (mem_insert _ _))
    have hx2 := hfree (k, b + width 12 k) (mem_insert _ _)
    simp only [mem_union, mem_insert_iff, mem_singleton_iff, mem_sdiff]
    constructor
    · tauto
    · rintro (hmem | rfl | hmem)
      · refine .inr ⟨.inl hmem, ?_⟩
        rintro (rfl | rfl)
        exacts [hx1 hmem, hx2 hmem]
      · exact .inl rfl
      · refine .inr ⟨.inr (.inr (.inr hmem)), ?_⟩
        rintro (rfl | rfl)
        exacts [hlower hmem, hupper hmem]
  refine ⟨h.reuse (hblocks ▸ h.tiling.merge hdvd hx hy) ?_ ?_, fun hmem => ?_⟩
  · rintro x (rfl | hmem)
    · exact hk
    · exact h.order_le x (.inr (mem_insert_of_mem _ (mem_insert_of_mem _ hmem)))
  · rintro x (rfl | hmem)
    · exact fun hmem => hparent (.inl hmem)
    · exact hfree x (mem_insert_of_mem _ (mem_insert_of_mem _ hmem))
  · exact hparent (.inr (mem_insert_of_mem _ (mem_insert_of_mem _ hmem)))

end BuddyInv

end CabOS.BuddyPageAllocator
