import CabOS.Memory.Heap.BuddyCalls
import CabOS.Memory.Heap.SlabLists

/-!
# The invariant of the heap

`HeapInv lo hi t S B G` puts the parts of the heap together: the objects `S` of slabs and the blocks
`B` are in use by others, the slab pages are blocks of the buddy allocator, and everything else of
the range is free or lost.  A block that is on its way from one part to another counts as lost, so
that every call is a sequence of a few steps: `HeapInv.alloc` takes a block from the buddy
allocator, `HeapInv.free` gives one back, `HeapInv.grant` and `HeapInv.reclaim` exchange it with the
outside, and `HeapInv.slab_step` covers what the slabs do among themselves.
-/

namespace CabOS

open DyadicBlock BuddyPageAllocator Function Set BuddyInv FreeBlockNode

/-- How the memory of the heap is divided. -/
structure HeapShape where
  /-- The free blocks, by order. -/
  F : ℕ → List ℕ
  /-- The slab pages, with their classes. -/
  K : Set (ℕ × ℕ)
  /-- The free objects of a slab page. -/
  O : ℕ → List ℕ
  /-- The slab pages of the lists. -/
  X : Bool × ℕ → List ℕ
  /-- The blocks that are lost or on their way. -/
  D : Set (ℕ × ℕ)

/-- The slab pages as blocks. -/
def slabBlocks (K : Set (ℕ × ℕ)) : Set (ℕ × ℕ) := {x | x.1 = 0 ∧ ∃ c, (c, x.2) ∈ K}

lemma slabBlocks_insert (K : Set (ℕ × ℕ)) (c p : ℕ) :
    slabBlocks (insert (c, p) K) = insert (0, p) (slabBlocks K) := by
  ext ⟨k, q⟩
  simp only [slabBlocks, mem_ofPred_eq, mem_insert_iff, Prod.mk.injEq]
  constructor
  · rintro ⟨rfl, c', ⟨-, rfl⟩ | hq⟩
    · exact .inl ⟨rfl, rfl⟩
    · exact .inr ⟨rfl, c', hq⟩
  · rintro (⟨rfl, rfl⟩ | ⟨rfl, c', hq⟩)
    · exact ⟨rfl, c, .inl ⟨rfl, rfl⟩⟩
    · exact ⟨rfl, c', .inr hq⟩

/-- The heads of the lists of slab pages. -/
def slabHeads (ps fs : ℕ → ℕ) (k : Bool × ℕ) : ℕ := if k.1 then fs k.2 else ps k.2

variable {ps fs : ℕ → ℕ} {mem mem' : Memory} {c v : ℕ}

lemma slabHeads_partial_update : slabHeads (update ps c v) fs = update (slabHeads ps fs)
    (false, c) v := by
  funext ⟨f, c'⟩
  by_cases hc : c' = c <;> cases f <;> simp [slabHeads, hc]

lemma slabHeads_full_update : slabHeads ps (update fs c v) = update (slabHeads ps fs)
    (true, c) v := by
  funext ⟨f, c'⟩
  by_cases hc : c' = c <;> cases f <;> simp [slabHeads, hc]

/-- The heap with the objects `S` and the blocks `B` in use. -/
structure HeapInv (lo hi : ℕ) (t : HeapAllocator) (S B : Set (ℕ × ℕ)) (G : HeapShape) : Prop where
  buddy : BuddyInv lo hi t.buddy G.F (slabBlocks G.K ∪ (B ∪ G.D))
  noBuddies : NoBuddies G.F
  regions : t.buddy.regions = [⟨lo, hi⟩] ∨ lo = hi
  tagFree : TagFree t.buddy.mem (B ∪ G.D)
  behind : Behind hi t.buddy.mem
  pages : SlabPages t.buddy.mem G.K G.O S
  lists : SlabLists t.buddy.mem (slabHeads t.partialSlabs t.fullSlabs) G.X
  /-- Every slab page is on a list of its class. -/
  listed : ∀ c p, (c, p) ∈ G.K ↔ p ∈ G.X (false, c) ∨ p ∈ G.X (true, c)
  /-- The full pages are those without free objects. -/
  full : ∀ f c p, p ∈ G.X (f, c) → (G.O p = [] ↔ f = true)
  slab_apart : ∀ x ∈ slabBlocks G.K, x ∉ B ∪ G.D
  lost_apart : ∀ x ∈ B, x ∉ G.D

/-- The address belongs to an object or to a block in use. -/
def InUse (S B : Set (ℕ × ℕ)) (a : ℕ) : Prop :=
  (∃ c o, (c, o) ∈ S ∧ o ≤ a ∧ a < o + classSize c) ∨ ∃ x ∈ B, a ∈ span 12 x

/-- The bytes in use are as they were. -/
def Spared (S B : Set (ℕ × ℕ)) (mem mem' : Memory) : Prop := ∀ a, InUse S B a → mem' a = mem a

lemma Spared.refl (S B : Set (ℕ × ℕ)) (mem : Memory) : Spared S B mem mem := fun _ _ => rfl

lemma Spared.trans {S B : Set (ℕ × ℕ)} {mem'' : Memory} (h : Spared S B mem mem')
    (h' : Spared S B mem' mem'') : Spared S B mem mem'' :=
  fun a ha => (h' a ha).trans (h a ha)

lemma Spared.mono {S S' B B' : Set (ℕ × ℕ)} (h : Spared S B mem mem') (hS : S' ⊆ S)
    (hB : B' ⊆ B) : Spared S' B' mem mem' := by
  rintro a (⟨c, o, ho, ha⟩ | ⟨x, hx, ha⟩)
  · exact h a (.inl ⟨c, o, hS ho, ha⟩)
  · exact h a (.inr ⟨x, hB hx, ha⟩)

namespace HeapInv

variable {lo hi k b c p a : ℕ} {t : HeapAllocator} {S S' B : Set (ℕ × ℕ)} {G : HeapShape}
  {mem' : Memory}

lemma page_mem (hp : (c, p) ∈ G.K) : ((0, p) : ℕ × ℕ) ∈ slabBlocks G.K := ⟨rfl, c, hp⟩

lemma mem_span_page : a ∈ span 12 (0, p) ↔ p ≤ a ∧ a < p + 4096 := Iff.rfl

section

variable (h : HeapInv lo hi t S B G) {X' : Bool × ℕ → List ℕ} {O' : ℕ → List ℕ} {x : ℕ × ℕ}
include h

/-- Blocks that are free, in use or lost do not meet slab pages. -/
lemma page_apart (hp : (c, p) ∈ G.K)
    (hx : x ∈ freeBlocks G.F ∪ (B ∪ G.D)) (ha : a ∈ span 12 x) : a < p ∨ p + 4096 ≤ a := by
  by_contra hin
  have hslab : ((0, p) : ℕ × ℕ) ∈ slabBlocks G.K := page_mem hp
  have hmem : a ∈ span 12 (0, p) := mem_span_page.mpr (by omega)
  rcases hx with hx | hx
  · have heq := h.buddy.tiling.disjoint x (.inl hx) (0, p) (.inr (.inl hslab)) a ha hmem
    exact h.buddy.apart (0, p) (.inl hslab) (heq ▸ hx)
  · have heq := h.buddy.tiling.disjoint x (.inr (.inr hx)) (0, p) (.inr (.inl hslab)) a ha hmem
    exact h.slab_apart (0, p) hslab (heq ▸ hx)

lemma page_inside (hp : (c, p) ∈ G.K) : lo ≤ p ∧ p + 4096 ≤ hi :=
  h.buddy.tiling.inside (0, p) (.inr (.inl (page_mem hp)))

section

variable (hmem : ∀ a, (∀ c p, (c, p) ∈ G.K → a < p ∨ p + 4096 ≤ a) → mem' a = t.buddy.mem a)
include hmem

/-- The other parts do not notice changes of slab pages. -/
lemma of_slabs : BuddyInv lo hi { t.buddy with mem := mem' } G.F (slabBlocks G.K ∪ (B ∪ G.D)) ∧
      TagFree mem' (B ∪ G.D) ∧ Behind hi mem' := by
  have hnode : ∀ x ∈ freeBlocks G.F ∪ (B ∪ G.D), ∀ a, x.2 ≤ a → a < x.2 + 24 →
    mem' a = t.buddy.mem a := by
    intro x hx a ha ha'
    exact hmem a fun c p hp => h.page_apart hp hx (mem_span_of_node ha ha')
  refine ⟨h.buddy.congr_mem fun k b hb => hnode (k, b) (.inl hb), fun x hx k hk => ?_,
    fun k hk heq => ?_⟩
  · rw [Tagged, read_congr (hnode x (.inr hx))]
    exact h.tagFree x hx k hk
  · rw [Tagged, read_congr fun a ha _ => hmem a fun c p hp => ?_]
    · exact h.behind k hk heq
    · have := h.page_inside hp
      omega

/-- The slabs change memory in their pages only. -/
lemma slab_step (hpages : SlabPages mem' G.K O' S') (hlists : SlabLists mem' (slabHeads ps fs) X')
    (hlisted : ∀ c p, (c, p) ∈ G.K ↔ p ∈ X' (false, c) ∨ p ∈ X' (true, c))
    (hfull : ∀ f c p, p ∈ X' (f, c) → (O' p = [] ↔ f)) :
    HeapInv lo hi ⟨ps, fs, { t.buddy with mem := mem' }⟩ S' B { G with O := O', X := X' } := by
  obtain ⟨hbuddy, htag, hbehind⟩ := h.of_slabs hmem
  exact ⟨hbuddy, h.noBuddies, h.regions, htag, hbehind, hpages, hlists, hlisted, hfull,
    h.slab_apart, h.lost_apart⟩

end

/-- A slab page without objects in use is on its way to the buddy allocator. -/
lemma slab_drop (ps fs : ℕ → ℕ) (hp : (c, p) ∈ G.K)
    (hmem : ∀ a, (∀ c p, (c, p) ∈ G.K → a < p ∨ p + 4096 ≤ a) → mem' a = t.buddy.mem a)
    (hpages : SlabPages mem' (G.K \ {(c, p)}) O' S') (hlists : SlabLists mem' (slabHeads ps fs) X')
    (hlisted : ∀ c' q, (c', q) ∈ G.K \ {(c, p)} ↔ q ∈ X' (false, c') ∨ q ∈ X' (true, c'))
    (hfull : ∀ f c p, p ∈ X' (f, c) → (O' p = [] ↔ f))
    (hmagic : (SlabPageHeader.read mem' p).magic = slabPageMagic) :
    HeapInv lo hi ⟨ps, fs, { t.buddy with mem := mem' }⟩ S' B
      { G with K := G.K \ {(c, p)}, O := O', X := X', D := insert (0, p) G.D } := by
  obtain ⟨hbuddy, htag, hbehind⟩ := h.of_slabs hmem
  have hslabs : slabBlocks G.K = insert (0, p) (slabBlocks (G.K \ {(c, p)})) := by
    rw [← slabBlocks_insert, insert_sdiff_self_of_mem hp]
  refine ⟨?_, h.noBuddies, h.regions, ?_, hbehind, hpages, hlists, hlisted, hfull, ?_, ?_⟩
  · rw [hslabs, insert_union, ← union_insert, ← union_insert] at hbuddy
    exact hbuddy
  · rw [union_insert]
    rintro x (rfl | hx) k hk
    · rintro ⟨htagged, -⟩
      exact absurd (hmagic.symm.trans htagged) (by decide)
    · exact htag x hx k hk
  · rintro ⟨_, q⟩ ⟨rfl, c', hq⟩ hmem
    rw [union_insert] at hmem
    rcases hmem with heq | hmem
    · -- a page has one class
      obtain rfl : q = p := congrArg Prod.snd heq
      exact hq.2 (by rw [mem_singleton_iff, h.pages.class_unique hp hq.1])
    · exact h.slab_apart (0, q) ⟨rfl, c', hq.1⟩ hmem
  · rintro x hx (rfl | hD)
    · exact h.slab_apart _ (page_mem hp) (.inl hx)
    · exact h.lost_apart x hx hD

lemma page_of_listed {k : Bool × ℕ} (hp : p ∈ G.X k) : (k.2, p) ∈ G.K := by
  rw [h.listed]
  obtain ⟨f, c⟩ := k
  cases f
  · exact .inl hp
  · exact .inr hp

/-- The slab pages do not notice changes outside of them. -/
lemma slabs_of_untouched (hmem : Untouched lo hi (slabBlocks G.K) t.buddy.mem mem') :
    SlabPages mem' G.K G.O S ∧ SlabLists mem' (slabHeads t.partialSlabs t.fullSlabs) G.X := by
  have hin : ∀ c p, (c, p) ∈ G.K → ∀ a, p ≤ a → a < p + 4096 → mem' a = t.buddy.mem a := by
    intro c p hp a ha ha'
    exact hmem a (.inr (.inr ⟨(0, p), page_mem hp, mem_span_page.mpr ⟨ha, ha'⟩⟩))
  constructor
  · refine h.pages.congr (fun c p hp a ha ha' => hin c p hp a ha (by omega)) ?_
    intro c p hp o ho a ha ha'
    have hpage := h.pages.page c p hp
    have hfacts := hpage.free_facts ho
    have hsize := (class_facts hpage.class_lt).1
    exact hin c p hp a (by omega) (by omega)
  · refine h.lists.congr fun k p hp a ha ha' => ?_
    exact hin k.2 p (h.page_of_listed hp) a (by omega) (by omega)

/-- The addresses of an object in use are outside of a slab page, or they belong to one of its
objects. -/
lemma object_cases (hp : (c, p) ∈ G.K) {c' o : ℕ} (ho : (c', o) ∈ S) (ha : o ≤ a)
    (ha' : a < o + classSize c') :
    (a < p ∨ p + 4096 ≤ a) ∨ c' = c ∧ o ∈ slots c p ∧ p + 32 ≤ a := by
  obtain ⟨q, hq, hslot⟩ := h.pages.used c' o ho
  have hpageq := h.pages.page c' q hq
  have hfacts := slot_facts hpageq.class_lt hpageq.aligned hslot
  by_cases hqp : q = p
  · subst hqp
    obtain rfl := h.pages.class_unique hp hq
    exact .inr ⟨rfl, hslot, by omega⟩
  · have := pages_apart hpageq.aligned (h.pages.page c p hp).aligned hqp
    exact .inl (by omega)

/-- What is in use lies in a block of the buddy allocator. -/
lemma inUse_block (ha : InUse S B a) : ∃ x ∈ slabBlocks G.K ∪ B, a ∈ span 12 x := by
  rcases ha with ⟨c, o, ho, hoa, hoa'⟩ | ⟨x, hx, hax⟩
  · obtain ⟨p, hp, hslot⟩ := h.pages.used c o ho
    have hpage := h.pages.page c p hp
    have hfacts := slot_facts hpage.class_lt hpage.aligned hslot
    exact ⟨(0, p), .inl (page_mem hp), mem_span_page.mpr (by omega)⟩
  · exact ⟨x, .inr hx, hax⟩

/-- The buddy allocator does not touch what is in use. -/
lemma spared_of_untouched {L : Set (ℕ × ℕ)}
    (hunt : Untouched lo hi L mem mem') (hL : slabBlocks G.K ∪ B ⊆ L) : Spared S B mem mem' := by
  intro a ha
  obtain ⟨x, hx, hax⟩ := h.inUse_block ha
  exact hunt a (.inr (.inr ⟨x, hL hx, hax⟩))

/-- What is in use does not meet the headers. -/
lemma inUse_header (ha : InUse S B a) (hp : (c, p) ∈ G.K) : a < p ∨ p + 32 ≤ a := by
  rcases ha with ⟨c', o, ho, hoa, hoa'⟩ | ⟨x, hx, hax⟩
  · rcases h.object_cases hp ho hoa hoa' with hout | ⟨-, -, hge⟩
    · omega
    · exact .inr hge
  · have := h.page_apart hp (.inr (.inl hx)) hax
    omega

/-- What is in use does not meet the lost blocks. -/
lemma inUse_lost (ha : InUse S B a) (hx : x ∈ G.D) : a ∉ span 12 x := by
  intro hax
  obtain ⟨y, hy, hay⟩ := h.inUse_block ha
  have hlive : y ∈ slabBlocks G.K ∪ (B ∪ G.D) := hy.imp_right .inl
  have heq := h.buddy.tiling.disjoint y (.inr hlive) x (.inr (.inr (.inr hx))) a hay hax
  rcases hy with hy | hy
  · exact h.slab_apart y hy (.inr (heq ▸ hx))
  · exact h.lost_apart y hy (heq ▸ hx)

/-- An object in use does not meet the rest of what is in use. -/
lemma inUse_object {o : ℕ} (ho : (c, o) ∈ S) (ha : InUse (S \ {(c, o)}) B a) :
    a < o ∨ o + classSize c ≤ a := by
  obtain ⟨p, hp, hslot⟩ := h.pages.used c o ho
  have hpage := h.pages.page c p hp
  have hfacts := slot_facts hpage.class_lt hpage.aligned hslot
  rcases ha with ⟨c', o', ⟨ho', hne⟩, hoa, hoa'⟩ | ⟨x, hx, hax⟩
  · rcases h.object_cases hp ho' hoa hoa' with hout | ⟨rfl, hslot', -⟩
    · omega
    · have := slots_apart hpage.class_lt hpage.aligned hslot hslot' fun heq =>
        hne (by rw [heq]; rfl)
      omega
  · have := h.page_apart hp (.inr (.inl hx)) hax
    omega

/-- An address that others may write to is not one that a slab page needs. -/
lemma slab_spared (hp : (c, p) ∈ G.K) (hpa : p ≤ a) (hpa' : a < p + 4096)
    (ha : a < lo ∨ hi ≤ a ∨ (∃ x ∈ B ∪ G.D, a ∈ span 12 x) ∨ ∃ c o, (c, o) ∈ S ∧ o ≤ a ∧
      a < o + classSize c) :
    p + 32 ≤ a ∧ ∃ o ∈ slots c p, (c, o) ∈ S ∧ o ≤ a ∧ a < o + classSize c := by
  have hinside := h.page_inside hp
  rcases ha with ha | ha | ⟨x, hx, hax⟩ | ⟨c', o, ho, hoa, hoa'⟩
  · omega
  · omega
  · have := h.page_apart hp (.inr hx) hax
    omega
  · rcases h.object_cases hp ho hoa hoa' with hout | ⟨rfl, hslot, hge⟩
    · omega
    · exact ⟨hge, o, hslot, ho, hoa, hoa'⟩

/-- Others write to what they hold and outside of the range. -/
lemma write (hmem : ∀ a, mem' a ≠ t.buddy.mem a → a < lo ∨ hi ≤ a ∨ (∃ x ∈ B ∪ G.D, a ∈ span 12 x) ∨
      ∃ c o, (c, o) ∈ S ∧ o ≤ a ∧ a < o + classSize c)
    (htag : TagFree mem' (B ∪ G.D)) (hbehind : Behind hi mem') :
    HeapInv lo hi (t.withMem mem') S B G := by
  refine ⟨h.buddy.congr_mem fun k b hb a ha ha' => ?_, h.noBuddies, h.regions, htag, hbehind,
    h.pages.congr (fun c p hp a ha ha' => ?_) fun c p hp o ho a ha ha' => ?_,
    h.lists.congr fun k p hp a ha ha' => ?_, h.listed, h.full, h.slab_apart, h.lost_apart⟩
  · -- the node of a free block
    by_contra hne
    have hspan : a ∈ span 12 (k, b) := mem_span_of_node ha ha'
    have hrange := h.buddy.tiling.mem_range (.inl hb) hspan
    rcases hmem a hne with hlt | hge | ⟨x, hx, hax⟩ | ⟨c, o, ho, hoa, hoa'⟩
    · omega
    · omega
    · have heq := h.buddy.tiling.disjoint x (.inr (.inr hx)) (k, b) (.inl hb) a hax hspan
      exact h.buddy.apart x (.inr hx) (heq ▸ hb)
    · obtain ⟨p, hp, hslot⟩ := h.pages.used c o ho
      have hpage := h.pages.page c p hp
      have hfacts := slot_facts hpage.class_lt hpage.aligned hslot
      have := h.page_apart hp (.inl (show (k, b) ∈ freeBlocks G.F from hb)) hspan
      omega
  · by_contra hne
    have := (h.slab_spared hp ha (by omega) (hmem a hne)).1
    omega
  · -- the link of a free object
    by_contra hne
    have hpage := h.pages.page c p hp
    have hfacts := hpage.free_facts ho
    have hsize := (class_facts hpage.class_lt).1
    obtain ⟨-, o', hslot', hS, hoa, hoa'⟩ := h.slab_spared hp (by omega) (by omega) (hmem a hne)
    have hfree := (hpage.free o).mp ho
    have hneq : o ≠ o' := fun heq => hfree.2 (heq ▸ hS)
    have := slots_apart hpage.class_lt hpage.aligned hfree.1 hslot' hneq
    omega
  · by_contra hne
    have := (h.slab_spared (h.page_of_listed hp) (by omega) (by omega) (hmem a hne)).1
    omega

/-- A slab page does not look free. -/
lemma tagFree_slabs : TagFree t.buddy.mem (slabBlocks G.K) := by
  rintro ⟨_, p⟩ ⟨rfl, c, hp⟩ k - ⟨hmagic, -⟩
  have hslab : (read t.buddy.mem p).magic = slabPageMagic := (h.pages.page c p hp).magic
  rw [hslab] at hmagic
  exact absurd hmagic (by decide)

/-- Blocks pass between others and the way to them. -/
lemma of_union_eq {B' D' : Set (ℕ × ℕ)} (hsame : B' ∪ D' = B ∪ G.D) (hapart : ∀ x ∈ B', x ∉ D') :
    HeapInv lo hi t S B' { G with D := D' } := by
  refine ⟨?_, h.noBuddies, h.regions, ?_, h.behind, h.pages, h.lists, h.listed, h.full, ?_, hapart⟩
  · rw [hsame]
    exact h.buddy
  · rw [hsame]
    exact h.tagFree
  · rw [hsame]
    exact h.slab_apart

/-- The blocks are handed to others. -/
lemma grant (hb : (k, b) ∈ G.D) : HeapInv lo hi t S (insert (k, b) B)
    { G with D := G.D \ {(k, b)} } := by
  refine h.of_union_eq ?_ ?_
  · rw [insert_union, ← union_insert, insert_sdiff_self_of_mem hb]
  · rintro x (rfl | hx) hD
    · exact hD.2 rfl
    · exact h.lost_apart x hx hD.1

/-- A block is taken back from others. -/
lemma reclaim (hb : (k, b) ∈ B) :
    HeapInv lo hi t S (B \ {(k, b)}) { G with D := insert (k, b) G.D } := by
  refine h.of_union_eq ?_ ?_
  · rw [union_insert, ← insert_union, insert_sdiff_self_of_mem hb]
  · rintro x hx (rfl | hD)
    · exact hx.2 rfl
    · exact h.lost_apart x hx.1 hD

/-- The buddy allocator hands a block out, which is on its way then. -/
lemma alloc (order : ℕ) : t.buddy.allocPages order = (none, t.buddy) ∨
      ∃ b s' F', t.buddy.allocPages order = (some b, s') ∧
        (order, b) ∉ slabBlocks G.K ∪ (B ∪ G.D) ∧ Spared S B t.buddy.mem s'.mem ∧
        HeapInv lo hi { t with buddy := s' } S B
          { G with F := F', D := insert (order, b) G.D } := by
  rcases h.buddy.allocPages h.noBuddies order with hnone | ⟨-, b, s', F', hsome, ht⟩
  · exact .inl hnone
  have huntL : ∀ L ⊆ slabBlocks G.K ∪ (B ∪ G.D), Untouched lo hi L t.buddy.mem s'.mem :=
    fun L hL => ht.untouched.mono fun x hx => ⟨x, hL hx, subset_rfl⟩
  obtain ⟨hpages, hlists⟩ := h.slabs_of_untouched (huntL _ subset_union_left)
  refine .inr ⟨b, s', F', hsome, ht.fresh, h.spared_of_untouched ht.untouched ?_, ?_,
    ht.noBuddies, ?_, ?_,
    ht.untouched.behind h.behind, hpages, hlists, h.listed, h.full, ?_, ?_⟩
  · exact union_subset_union_right _ subset_union_left
  · rw [union_insert, union_insert]
    exact ht.inv
  · rw [ht.regions]
    exact h.regions
  · rw [union_insert]
    rintro x (rfl | hx) k hk
    · exact not_tagged_of_magic ht.magic
    · exact (huntL _ subset_union_right).tagFree h.tagFree x hx k hk
  · rintro x hx hmem
    rw [union_insert] at hmem
    rcases hmem with rfl | hmem
    · exact ht.fresh (.inl hx)
    · exact h.slab_apart x hx hmem
  · rintro x hx (rfl | hD)
    · exact ht.fresh (.inr (.inl hx))
    · exact h.lost_apart x hx hD

/-- A block on its way is given back to the buddy allocator. -/
lemma free (hb : (k, b) ∈ G.D) : Spared S B t.buddy.mem (t.buddy.freePages b k).mem ∧
      ∃ F' D', HeapInv lo hi { t with buddy := t.buddy.freePages b k } S B
        { G with F := F', D := D' } := by
  have hrest : (k, b) ∉ slabBlocks G.K ∪ (B ∪ G.D \ {(k, b)}) := by
    rintro (hmem | hmem | hmem)
    · exact h.slab_apart _ hmem (.inr hb)
    · exact h.lost_apart _ hmem hb
    · exact hmem.2 rfl
  have hinsert : slabBlocks G.K ∪ (B ∪ G.D) =
    insert (k, b) (slabBlocks G.K ∪ (B ∪ G.D \ {(k, b)})) := by
    rw [← union_insert, ← union_insert, insert_sdiff_self_of_mem hb]
  have hbuddy := h.buddy
  have htag : TagFree t.buddy.mem (slabBlocks G.K ∪ (B ∪ G.D)) := by
    rintro x (hx | hx)
    · exact h.tagFree_slabs x hx
    · exact h.tagFree x hx
  have hregions : t.buddy.regions = [⟨lo, hi⟩] := by
    refine h.regions.resolve_right fun heq => ?_
    -- an empty range has no blocks
    have := h.buddy.tiling.mem_range (.inr (.inr (.inr hb))) base_mem_span
    omega
  rw [hinsert] at hbuddy htag
  obtain ⟨F', D', hr⟩ := hbuddy.freePages hrest hregions h.noBuddies htag h.behind
  have huntL : ∀ L ⊆ slabBlocks G.K ∪ (B ∪ G.D \ {(k, b)}),
      Untouched lo hi L t.buddy.mem (t.buddy.freePages b k).mem :=
    fun L hL => hr.untouched.mono fun x hx => ⟨x, hL hx, subset_rfl⟩
  obtain ⟨hpages, hlists⟩ := h.slabs_of_untouched (huntL _ subset_union_left)
  -- what is newly lost is none of the other blocks
  have hblocks : slabBlocks G.K ∪ (B ∪ (G.D \ {(k, b)} ∪ D' \ (slabBlocks G.K ∪ B))) =
      slabBlocks G.K ∪ (B ∪ G.D \ {(k, b)}) ∪ D' := by
    ext x
    simp only [mem_union, mem_sdiff]
    tauto
  refine ⟨h.spared_of_untouched hr.untouched (union_subset_union_right _ subset_union_left), F',
    G.D \ {(k, b)} ∪ D' \ (slabBlocks G.K ∪ B), ?_, hr.noBuddies, ?_, ?_,
    hr.untouched.behind h.behind, hpages,
    hlists, h.listed, h.full, ?_, ?_⟩
  · rw [hblocks]
    exact hr.inv
  · exact .inl (hr.regions.trans hregions)
  · rintro x (hx | hx | hx) j hj
    · exact (huntL B fun y hy => .inr (.inl hy)).tagFree (h.tagFree.mono subset_union_left)
        x hx j hj
    · exact (huntL _ fun y hy => .inr (.inr hy)).tagFree
        (h.tagFree.mono fun y hy => .inr hy.1) x hx j hj
    · exact hr.tagFree x hx.1 j hj
  · rintro x hx (hB | hD | hD)
    · exact h.slab_apart x hx (.inl hB)
    · exact h.slab_apart x hx (.inr hD.1)
    · exact hD.2 (.inl hx)
  · rintro x hx (hD | hD)
    · exact h.lost_apart x hx hD.1
    · exact hD.2 (.inr hx)

end

end HeapInv

end CabOS
