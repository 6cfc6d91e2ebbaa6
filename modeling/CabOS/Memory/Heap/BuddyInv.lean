import CabOS.Library.Dyadic
import CabOS.Library.LinkedList
import CabOS.Memory.Heap.Buddy

/-!
# The invariant of the buddy allocator

`BuddyInv lo hi s F L` says that the free blocks `F` and the blocks `L` that are in use tile the
range from `lo` to `hi`, and that the list of every order is a well-formed doubly linked list in
memory whose nodes carry the tag and the order.  Every block in flight inside an operation counts as
in use, so that each step of the code is one of a few changes: a block in use becomes free
(`BuddyInv.push`), a free block is taken (`BuddyInv.pop`, `BuddyInv.remove`), and a block in use is
split or two are merged.
-/

namespace CabOS

open DyadicBlock FreeBlockNode Function

/-! ## Nodes in memory -/

namespace FreeBlockNode

variable {mem mem' : Memory} {p v a : ℕ}

/-- A node is the same in memories that agree on its bytes. -/
lemma read_congr (h : ∀ a, p ≤ a → a < p + 24 → mem' a = mem a) : read mem' p = read mem p := by
  have hmagic : readLE mem' p 4 = readLE mem p 4 :=
    readLE_congr fun a ha ha' => h a ha (by omega)
  have horder : readLE mem' (p + 4) 4 = readLE mem (p + 4) 4 :=
    readLE_congr fun a ha ha' => h a (by omega) (by omega)
  have hnext : readLE mem' (p + 8) 8 = readLE mem (p + 8) 8 :=
    readLE_congr fun a ha ha' => h a (by omega) (by omega)
  have hprev : readLE mem' (p + 16) 8 = readLE mem (p + 16) 8 :=
    readLE_congr fun a ha ha' => h a (by omega) (by omega)
  rw [read, read, hmagic, horder, hnext, hprev]

section

variable (h : a < p ∨ p + 24 ≤ a)
include h

lemma setMagic_of_not_mem : setMagic mem p v a = mem a :=
  writeLE_of_not_mem (by omega)

lemma setOrder_of_not_mem : setOrder mem p v a = mem a :=
  writeLE_of_not_mem (by omega)

lemma setNext_of_not_mem : setNext mem p v a = mem a :=
  writeLE_of_not_mem (by omega)

lemma setPrev_of_not_mem : setPrev mem p v a = mem a :=
  writeLE_of_not_mem (by omega)

end

lemma read_setMagic (hv : v < 2 ^ 32) :
    read (setMagic mem p v) p = { read mem p with magic := v } := by
  simp only [read, setMagic]
  rw [readLE_writeLE_of_lt (by norm_num; omega)]
  iterate 3 rw [readLE_writeLE_of_disjoint (by omega)]

lemma read_setOrder (hv : v < 2 ^ 32) :
    read (setOrder mem p v) p = { read mem p with order := v } := by
  simp only [read, setOrder]
  rw [readLE_writeLE_of_lt (by norm_num; omega)]
  iterate 3 rw [readLE_writeLE_of_disjoint (by omega)]

lemma read_setNext (hv : v < 2 ^ 64) :
    read (setNext mem p v) p = { read mem p with next := v } := by
  simp only [read, setNext]
  rw [readLE_writeLE_of_lt (by norm_num; omega)]
  iterate 3 rw [readLE_writeLE_of_disjoint (by omega)]

lemma read_setPrev (hv : v < 2 ^ 64) :
    read (setPrev mem p v) p = { read mem p with prev := v } := by
  simp only [read, setPrev]
  rw [readLE_writeLE_of_lt (by norm_num; omega)]
  iterate 3 rw [readLE_writeLE_of_disjoint (by omega)]

lemma next_lt : (read mem p).next < 2 ^ 64 := readLE_lt

lemma prev_lt : (read mem p).prev < 2 ^ 64 := readLE_lt

end FreeBlockNode

/-- The forward link of the node at an address. -/
def nextIn (mem : Memory) (p : ℕ) : ℕ := (read mem p).next

/-- The back link of the node at an address. -/
def prevIn (mem : Memory) (p : ℕ) : ℕ := (read mem p).prev

/-- The block at an address carries the tag of a block that is free at the order. -/
def Tagged (mem : Memory) (p k : ℕ) : Prop :=
  (read mem p).magic = buddyFreeMagic ∧ (read mem p).order = k

instance (mem : Memory) (p k : ℕ) : Decidable (Tagged mem p k) :=
  inferInstanceAs (Decidable (_ ∧ _))

namespace BuddyPageAllocator

lemma blockSizeBytes_eq (k : ℕ) : blockSizeBytes k = width 12 k := by
  rw [blockSizeBytes, Nat.shiftLeft_eq, width, pow_add]
  rfl

lemma pageSize_eq : pageSize = width 12 0 := rfl

/-- The free blocks of the lists. -/
def freeBlocks (F : ℕ → List ℕ) : Set (ℕ × ℕ) := {x | x.2 ∈ F x.1}

@[simp] lemma mem_freeBlocks {F : ℕ → List ℕ} {k b : ℕ} : (k, b) ∈ freeBlocks F ↔ b ∈ F k := Iff.rfl

/-- The blocks tile the range, and the free lists are in memory. -/
structure BuddyInv (lo hi : ℕ) (s : BuddyPageAllocator) (F : ℕ → List ℕ)
    (L : Set (ℕ × ℕ)) : Prop where
  /-- The range is one of addresses. -/
  bound : hi < 2 ^ 64
  /-- Free blocks and blocks in use cover the range exactly. -/
  tiling : Tiling 12 lo hi (freeBlocks F ∪ L)
  /-- The orders are those of the lists. -/
  order_le : ∀ x ∈ freeBlocks F ∪ L, x.1 ≤ maxOrder
  /-- No block is both free and in use. -/
  apart : ∀ x ∈ L, x ∉ freeBlocks F
  /-- No block is listed twice. -/
  nodup : ∀ k, (F k).Nodup
  /-- The links run through the lists. -/
  chain : ∀ k ≤ maxOrder, Chain (nextIn s.mem) buddyNone (s.freeHeads k) (F k)
  /-- The back links do, too. -/
  back : ∀ k, Back (prevIn s.mem) buddyNone (F k)
  /-- The nodes are tagged. -/
  tagged : ∀ k, ∀ b ∈ F k, Tagged s.mem b k

/-- Memory outside the range and the blocks in use is as it was. -/
def Untouched (lo hi : ℕ) (L : Set (ℕ × ℕ)) (mem mem' : Memory) : Prop :=
  ∀ a, (a < lo ∨ hi ≤ a ∨ ∃ x ∈ L, a ∈ span 12 x) → mem' a = mem a

variable {lo hi k b c : ℕ} {s s' : BuddyPageAllocator} {F : ℕ → List ℕ} {L : Set (ℕ × ℕ)}
  {mem mem' mem'' : Memory} {xs ys : List ℕ}

lemma Untouched.refl (lo hi : ℕ) (L : Set (ℕ × ℕ)) (mem : Memory) : Untouched lo hi L mem mem :=
  fun _ _ => rfl

lemma Untouched.trans (h : Untouched lo hi L mem mem') (h' : Untouched lo hi L mem' mem'') :
    Untouched lo hi L mem mem'' :=
  fun a ha => (h' a ha).trans (h a ha)

namespace BuddyInv

variable {x y : ℕ × ℕ}

lemma page_dvd (h : BuddyInv lo hi s F L) (hx : x ∈ freeBlocks F ∪ L) : 4096 ∣ x.2 :=
  (width_dvd_width (Nat.zero_le x.1)).trans (h.tiling.aligned x hx)

lemma node_lt_width (k : ℕ) : 24 < width 12 k :=
  lt_of_lt_of_le (by decide) (Nat.le_of_dvd width_pos (width_dvd_width (Nat.zero_le k)))

/-- The list of the order `k` is `xs` now, and the other lists are as before. -/
structure Relisted (s s' : BuddyPageAllocator) (F : ℕ → List ℕ) (k : ℕ) (xs : List ℕ) : Prop where
  nodup : xs.Nodup
  heads : ∀ j, j ≠ k → s'.freeHeads j = s.freeHeads j
  read : ∀ j, j ≠ k → ∀ c ∈ F j, read s'.mem c = read s.mem c
  chain : Chain (nextIn s'.mem) buddyNone (s'.freeHeads k) xs
  back : Back (prevIn s'.mem) buddyNone xs
  tagged : ∀ c ∈ xs, Tagged s'.mem c k

variable {L' : Set (ℕ × ℕ)}

section

variable (h : BuddyInv lo hi s F L)
include h

section

variable (hx : x ∈ freeBlocks F ∪ L)
include hx

lemma node_apart (hy : y ∈ freeBlocks F ∪ L) (hne : x.2 ≠ y.2) :
    x.2 + 24 ≤ y.2 ∨ y.2 + 24 ≤ x.2 := by
  have hdx := h.page_dvd hx
  have hdy := h.page_dvd hy
  omega

lemma eq_of_base (hy : y ∈ freeBlocks F ∪ L) (heq : x.2 = y.2) : x = y :=
  h.tiling.disjoint x hx y hy x.2 base_mem_span (heq ▸ base_mem_span)

/-- Bases are words, and not the end mark. -/
lemma base_lt : x.2 < buddyNone := by
  have h1 := (h.tiling.inside x hx).2
  have h2 := node_lt_width x.1
  have h3 := h.bound
  rw [buddyNone_eq]
  omega

end

/-- A change of memory that spares the free nodes keeps the invariant. -/
lemma congr_mem (hmem : ∀ k, ∀ b ∈ F k, ∀ a, b ≤ a → a < b + 24 → mem' a = s.mem a) :
    BuddyInv lo hi { s with mem := mem' } F L := by
  have hread : ∀ k, ∀ b ∈ F k, read mem' b = read s.mem b :=
    fun k b hb => read_congr (hmem k b hb)
  refine ⟨h.bound, h.tiling, h.order_le, h.apart, h.nodup, fun k hk => ?_, fun k => ?_,
    fun k b hb => ?_⟩
  · exact (h.chain k hk).congr fun b hb => by rw [nextIn, nextIn, hread k b hb]
  · exact (h.back k).congr fun b hb => by rw [prevIn, prevIn, hread k b hb]
  · rw [Tagged, hread k b hb]
    exact h.tagged k b hb

/-- The list of one order is changed, and blocks move between the lists and those in use. -/
lemma relist (hblocks : freeBlocks (update F k xs) ∪ L' = freeBlocks F ∪ L)
    (hapart : ∀ x ∈ L', x ∉ freeBlocks (update F k xs)) (hxs : Relisted s s' F k xs) :
    BuddyInv lo hi s' (update F k xs) L' := by
  refine ⟨h.bound, hblocks ▸ h.tiling, hblocks ▸ h.order_le, hapart, fun j => ?_, fun j hj => ?_,
    fun j => ?_, fun j => ?_⟩
  all_goals by_cases hjk : j = k
  · rw [hjk, update_self]
    exact hxs.nodup
  · rw [update_of_ne hjk]
    exact h.nodup j
  · rw [hjk, update_self]
    exact hxs.chain
  · rw [update_of_ne hjk, hxs.heads j hjk]
    exact (h.chain j hj).congr fun c hc => by rw [nextIn, nextIn, hxs.read j hjk c hc]
  · rw [hjk, update_self]
    exact hxs.back
  · rw [update_of_ne hjk]
    exact (h.back j).congr fun c hc => by rw [prevIn, prevIn, hxs.read j hjk c hc]
  · rw [hjk, update_self]
    exact hxs.tagged
  · rw [update_of_ne hjk]
    intro c hc
    rw [Tagged, hxs.read j hjk c hc]
    exact h.tagged j c hc

end

/-- The free blocks after a list has gained the block `b`. -/
lemma freeBlocks_update (hxs : ∀ c, c ∈ xs ↔ c = b ∨ c ∈ F k) :
    freeBlocks (update F k xs) = insert (k, b) (freeBlocks F) := by
  ext ⟨j, c⟩
  by_cases hjk : j = k
  · subst hjk
    simp [hxs]
  · simp [hjk]

/-- A block in use goes to the list of its order. -/
lemma list_add (h : BuddyInv lo hi s F (insert (k, b) L)) (hb : (k, b) ∉ L)
    (hxs : ∀ c, c ∈ xs ↔ c = b ∨ c ∈ F k) (hlist : Relisted s s' F k xs) :
    BuddyInv lo hi s' (update F k xs) L := by
  refine h.relist ?_ ?_ hlist
  · rw [freeBlocks_update hxs, Set.insert_union, Set.union_insert]
  · rw [freeBlocks_update hxs]
    rintro x hx (rfl | hmem)
    · exact hb hx
    · exact h.apart x (Set.mem_insert_of_mem _ hx) hmem

lemma mem_span_of_node {a : ℕ} (ha : x.2 ≤ a) (ha' : a < x.2 + 24) : a ∈ span 12 x :=
  ⟨ha, lt_of_lt_of_le ha' (by have := node_lt_width x.1; omega)⟩

section

variable (h : BuddyInv lo hi s F L)
include h

/-- A free block leaves its list and is in use. -/
lemma list_del (hxs : ∀ c, c ∈ F k ↔ c = b ∨ c ∈ xs) (hb : b ∉ xs)
    (hlist : Relisted s s' F k xs) : BuddyInv lo hi s' (update F k xs)
    (insert (k, b) L) ∧ (k, b) ∉ L := by
  have hold : freeBlocks (update (update F k xs) k (F k)) =
    insert (k, b) (freeBlocks (update F k xs)) :=
    freeBlocks_update (by simpa using hxs)
  rw [update_idem, update_eq_self] at hold
  refine ⟨h.relist ?_ ?_ hlist, fun hmem => ?_⟩
  · rw [hold, Set.insert_union, Set.union_insert]
  · rintro x (rfl | hx) hmem
    · rw [mem_freeBlocks, update_self] at hmem
      exact hb hmem
    · exact h.apart x hx (hold ▸ Set.mem_insert_of_mem _ hmem)
  · exact h.apart _ hmem (hold ▸ Set.mem_insert _ _)

/-- The nodes of the lists that are not touched by a write to the node at `p`. -/
lemma read_of_ne (hx : x ∈ freeBlocks F ∪ L) (hy : y ∈ freeBlocks F ∪ L) (hne : x.2 ≠ y.2)
    (hmem : ∀ a, (a < y.2 ∨ y.2 + 24 ≤ a) → mem' a = mem a) : read mem' x.2 = read mem x.2 := by
  have := h.node_apart hx hy hne
  exact read_congr fun a ha ha' => hmem a (by omega)

/-- A write to the node of a block that is not one of `L` touches neither these nor what lies
outside the range. -/
lemma untouched_node (hL' : L' ⊆ L) (hy : y ∈ freeBlocks F ∪ L) (hyL : y ∉ L')
    (hmem : ∀ a, (a < y.2 ∨ y.2 + 24 ≤ a) → mem' a = mem a) : Untouched lo hi L' mem mem' := by
  intro a ha
  refine hmem a ?_
  by_contra hin
  have hspan : a ∈ span 12 y := mem_span_of_node (by omega) (by omega)
  have hrange := h.tiling.mem_range hy hspan
  rcases ha with ha | ha | ⟨x, hx, hax⟩
  · omega
  · omega
  · exact hyL (h.tiling.disjoint x (Or.inr (hL' hx)) y hy a hax hspan ▸ hx)

end

end BuddyInv

end BuddyPageAllocator

end CabOS
