import CabOS.Memory.Heap.HeapInv

/-!
# The calls of the heap

What `allocate` and `free` do to the invariant.  A request is served by an object that was not in
use (`HeapInv.allocateSmall`), by a block that was not in use (`HeapInv.allocateLarge`), or not at
all; an object or a block in use is taken back (`HeapInv.freeSmall`, `HeapInv.freeLarge`).  The
loops end: two rounds are enough for the first one, three if there is a page at address zero, and
the length of a list for the other one.
-/

namespace CabOS

open DyadicBlock BuddyPageAllocator SlabPageHeader Function SlabLists HeapAllocator Set
  List Option Nat

variable {lo hi k b c p a o : ℕ} {t : HeapAllocator} {S B : Set (ℕ × ℕ)} {G : HeapShape}
  {mem mem' : Memory}

/-! ## New slab pages -/

/-- Where the objects of a page start, and how many there are. -/
lemma slab_numbers (hc : c < numClasses) (hp : 4096 ∣ p) :
    alignUp (p + sizeOf) (max (classSize c) 8) = p + slotStart c ∧ slotStart c < 4096 ∧
      (p + pageSize - (p + slotStart c)) / classSize c = slotCount c := by
  obtain ⟨hsize, -, -, hcount, -, hend⟩ := class_facts hc
  have hlt : slotStart c < 4096 := by
    have : 0 < slotCount c * classSize c := mul_pos hcount (by omega)
    omega
  refine ⟨?_, hlt, by rw [Nat.add_sub_add_left, slotCount]⟩
  rw [max_eq_left hsize]
  obtain ⟨q, rfl⟩ := hp
  clear hend hlt hcount hsize
  simp only [numClasses] at hc
  simp only [alignUp, alignDown, SlabPageHeader.sizeOf]
  interval_cases c <;> simp only [classSize, classSizes, slotStart, List.getD_cons_zero,
    List.getD_cons_succ] <;> omega

/-- `addSlabPage` sets up a page, if there is one. -/
lemma addSlabPage_eq {s' : BuddyPageAllocator} (halloc : t.buddy.allocPages 0 = (some p, s'))
    (hc : c < numClasses) (hp : 4096 ∣ p) :
    t.addSlabPage c = (true, ⟨update t.partialSlabs c p, t.fullSlabs,
      { s' with mem := slabInit s'.mem c p (t.partialSlabs c) }⟩) := by
  obtain ⟨hstart, hlt, hcap⟩ := slab_numbers hc hp
  have hpos := (class_facts hc).2.2.2.1
  have hfit : ¬ p + slotStart c ≥ p + pageSize := by
    simp only [pageSize]
    omega
  rw [addSlabPage, halloc]
  simp only [hstart, if_neg hfit, hcap, if_neg (pos_iff_ne_zero.mp hpos)]
  rfl

namespace HeapInv

section

variable (h : HeapInv lo hi t S B G)
include h

/-- A head of a list is a word. -/
lemma head_lt {k : Bool × ℕ} (hk : k.2 < numClasses) :
    slabHeads t.partialSlabs t.fullSlabs k < 2 ^ 64 := by
  have hchain := h.lists.chain k hk
  cases hX : G.X k with
  | nil =>
    rw [hX, chain_nil] at hchain
    rw [hchain]
    exact Nat.two_pow_pos 64
  | cons p ys =>
    rw [hX] at hchain
    have hinside := h.page_inside (h.page_of_listed (p := p) (k := k) (by simp [hX]))
    have hbound := h.buddy.bound
    rw [hchain.1]
    omega

/-- A page on its way is set up. -/
lemma init_page (hp : (0, p) ∈ G.D) (hc : c < numClasses) {next : ℕ}
    (hnext : next < 2 ^ 64) : HeapInv lo hi (t.withMem (slabInit t.buddy.mem c p next)) S B G := by
  have hinside : lo ≤ p ∧ p + 4096 ≤ hi := h.buddy.tiling.inside (0, p) (.inr (.inr (.inr hp)))
  have hbound := h.buddy.bound
  have hread := read_slabInit t.buddy.mem hc (p := p) (by omega) hnext
  have hout : ∀ a, (a < p ∨ p + 4096 ≤ a) → slabInit t.buddy.mem c p next a = t.buddy.mem a :=
    fun a ha => slabInit_of_not_mem hc (by omega) ha
  refine h.write (fun a ha => .inr (.inr (.inl ⟨(0, p), .inr hp, ?_⟩))) ?_ ?_
  · by_contra hnot
    rw [mem_span_page] at hnot
    exact ha (hout a (by omega))
  · intro x hx j hj htagged
    by_cases heq : x.2 = p
    · -- the page starts with the tag of slabs
      have hmagic : (read (slabInit t.buddy.mem c p next) p).magic = buddyFreeMagic :=
        heq ▸ htagged.1
      rw [hread] at hmagic
      exact absurd hmagic (show slabPageMagic ≠ buddyFreeMagic by decide)
    · have hpage := h.buddy.page_dvd (x := x) (.inr (.inr hx))
      have hpage' := h.buddy.page_dvd (x := (0, p)) (.inr (.inr (.inr hp)))
      simp only at hpage'
      rw [Tagged, FreeBlockNode.read_congr fun a ha ha' => hout a (by omega)] at htagged
      exact h.tagFree x hx j hj htagged
  · intro j hj heq
    rw [Tagged, FreeBlockNode.read_congr fun a ha _ => hout a (by omega)]
    exact h.behind j hj heq

/-- What is in use does not change when a page on its way is set up. -/
lemma spared_slabInit (hp : (0, p) ∈ G.D) (hc : c < numClasses) (next : ℕ) :
    Spared S B t.buddy.mem (slabInit t.buddy.mem c p next) := by
  have hinside : lo ≤ p ∧ p + 4096 ≤ hi := h.buddy.tiling.inside (0, p) (.inr (.inr (.inr hp)))
  have hbound := h.buddy.bound
  intro a ha
  have hout := h.inUse_lost ha hp
  rw [mem_span_page] at hout
  exact slabInit_of_not_mem hc (by omega) (by omega)

/-- A page that was set up becomes a slab page. -/
lemma adopt (hp : (0, p) ∈ G.D) (hc : c < numClasses) (hne : p ≠ 0) :
    HeapInv lo hi ⟨update t.partialSlabs c p, t.fullSlabs,
        { t.buddy with mem := slabInit t.buddy.mem c p (t.partialSlabs c) }⟩ S B
      { G with
        K := insert (c, p) G.K
        O := update G.O p (slots c p)
        X := update G.X (false, c) (p :: G.X (false, c))
        D := G.D \ {(0, p)} } := by
  have hnext : t.partialSlabs c < 2 ^ 64 := h.head_lt (k := (false, c)) hc
  have hinit := h.init_page hp hc hnext
  have hinside : lo ≤ p ∧ p + 4096 ≤ hi := h.buddy.tiling.inside (0, p) (.inr (.inr (.inr hp)))
  have hbound := h.buddy.bound
  have hal : 4096 ∣ p := h.buddy.page_dvd (x := (0, p)) (.inr (.inr (.inr hp)))
  have hread := read_slabInit t.buddy.mem hc (p := p) (by omega) hnext
  have hfresh : ∀ c', (c', p) ∉ G.K := fun c' hmem => h.slab_apart _ (page_mem hmem) (.inr hp)
  have hunlisted : ∀ k, p ∉ G.X k := fun k hmem => hfresh k.2 (h.page_of_listed hmem)
  have hblocks : slabBlocks (insert (c, p) G.K) ∪ (B ∪ G.D \ {(0, p)}) =
    slabBlocks G.K ∪ (B ∪ G.D) := by
    rw [slabBlocks_insert, insert_union, ← union_insert, ← union_insert,
      insert_sdiff_self_of_mem hp]
  refine ⟨?_, h.noBuddies, h.regions, hinit.tagFree.mono ?_, hinit.behind, ?_, ?_, ?_, ?_, ?_, ?_⟩
  · rw [hblocks]
    exact hinit.buddy
  · exact union_subset_union_right B sdiff_subset
  · exact hinit.pages.add hal hfresh (fun hS => PageOk.init hc hal (by omega) hnext hS) hc
      fun _ _ => rfl
  · rw [slabHeads_partial_update]
    exact hinit.lists.push hc hunlisted hal hne (by rw [nextPage, hread]; rfl) fun _ _ _ => rfl
  · intro c' q
    rw [mem_insert_iff, h.listed, mem_push, mem_push]
    simp only [Prod.mk.injEq, true_and, Bool.true_eq_false, false_and, false_or]
    tauto
  · intro f c' q hq
    change update G.O p (slots c p) q = [] ↔ f
    rcases mem_push.mp hq with ⟨hkey, rfl⟩ | hq
    · rw [Prod.mk.injEq] at hkey
      have hpos := (class_facts hc).2.2.2.1
      rw [← length_slots (p := q)] at hpos
      rw [update_self, hkey.1]
      simpa using ne_nil_of_length_pos hpos
    · have hqp : q ≠ p := fun heq => hunlisted _ (heq ▸ hq)
      rw [update_of_ne hqp]
      exact h.full f c' q hq
  · intro x hx hmem
    rw [slabBlocks_insert] at hx
    rcases hx with rfl | hx
    · rcases hmem with hB | hD
      · exact h.lost_apart _ hB hp
      · exact hD.2 rfl
    · exact h.slab_apart x hx (hmem.imp_right And.left)
  · exact fun x hx hD => h.lost_apart x hx hD.1

/-- `addSlabPage` adds a slab page to the empty list of its class.  A page at address zero is lost:
its address is the end mark of the list. -/
lemma addSlabPage (hc : c < numClasses) (hhead : t.partialSlabs c = 0) :
    t.addSlabPage c = (false, t) ∨ ∃ t' G', t.addSlabPage c = (true, t') ∧ HeapInv lo hi t' S B G' ∧
      Spared S B t.buddy.mem t'.buddy.mem ∧
      (t'.partialSlabs c = 0 → (0, 0) ∉ G.D ∧ (0, 0) ∈ G'.D) := by
  rcases h.alloc 0 with hnone | ⟨p, s', F', hsome, hfresh, hspared, h'⟩
  · exact .inl (by rw [HeapAllocator.addSlabPage, hnone])
  have hp : (0, p) ∈ insert (0, p) G.D := Set.mem_insert _ _
  have hal : 4096 ∣ p := h'.buddy.page_dvd (x := (0, p)) (.inr (.inr (.inr hp)))
  have heq := addSlabPage_eq hsome hc hal
  have hspared' := hspared.trans (h'.spared_slabInit hp hc (t.partialSlabs c))
  by_cases hne : p = 0
  · subst hne
    refine .inr ⟨_, { G with F := F', D := insert (0, 0) G.D }, heq, ?_, hspared',
      fun _ => ⟨fun hD => hfresh (.inr (.inr hD)), hp⟩⟩
    have hsame : update t.partialSlabs c 0 = t.partialSlabs := by
      rw [← hhead, update_eq_self]
    rw [hsame]
    exact h'.init_page hp hc (by rw [hhead]; exact Nat.two_pow_pos 64)
  · refine .inr ⟨_, _, heq, h'.adopt hp hc hne, hspared', fun hzero => ?_⟩
    change update t.partialSlabs c p c = 0 at hzero
    rw [update_self] at hzero
    exact absurd hzero hne

end

/-! ## Taking an object -/

/-- The memory after the first free object of a page was taken. -/
def takenMem (mem : Memory) (p o : ℕ) : Memory :=
  setInUse (setFreeList mem p (linkIn mem o)) p
    ((SlabPageHeader.read (setFreeList mem p (linkIn mem o)) p).inUse + 1)

lemma read_takenMem : read (takenMem mem p o) p =
    { read mem p with
      freeList := linkIn mem o, inUse := ((read mem p).inUse + 1) % 2 ^ 16 } := by
  rw [takenMem, read_setInUse, read_setFreeList linkIn_lt]

lemma takenMem_of_not_mem (ha : a < p ∨ p + 24 ≤ a) : takenMem mem p o a = mem a := by
  rw [takenMem, setInUse_of_not_mem ha, setFreeList_of_not_mem ha]

/-- What `takeObject` does with a page whose first free object is `o`. -/
lemma takeObject_eq (hhead : (read t.buddy.mem p).freeList = o) :
    t.takeObject c p = (o, if linkIn t.buddy.mem o = 0 then
      ⟨update t.partialSlabs c (nextPage t.buddy.mem p), update t.fullSlabs c p,
        { t.buddy with mem := setNext (takenMem t.buddy.mem p o) p (t.fullSlabs c) }⟩
      else t.withMem (takenMem t.buddy.mem p o)) := by
  have hread : read (setInUse (setFreeList t.buddy.mem p (linkIn t.buddy.mem o)) p
      ((read (setFreeList t.buddy.mem p (linkIn t.buddy.mem o)) p).inUse + 1)) p = _ :=
    read_takenMem
  rw [HeapAllocator.takeObject]
  simp only [HeapAllocator.mem, hhead, hread]
  split_ifs <;> rfl

section

variable (h : HeapInv lo hi t S B G)
include h

/-- The first object of the first page of a class is taken. -/
lemma takeObject (hc : c < numClasses) (hne : t.partialSlabs c ≠ 0) :
    ∃ o t' G', t.takeObject c (t.partialSlabs c) = (o, t') ∧ (c, o) ∉ S ∧ o ≠ 0 ∧
      Spared S B t.buddy.mem t'.buddy.mem ∧ HeapInv lo hi t' (insert (c, o) S) B G' := by
  obtain ⟨p, hpdef⟩ : ∃ p, p = t.partialSlabs c := ⟨_, rfl⟩
  obtain ⟨ys, hX, -⟩ := (h.lists.chain (false, c) hc).exists_cons hne
  change G.X (false, c) = t.partialSlabs c :: ys at hX
  rw [← hpdef] at hX ⊢
  have hpX : p ∈ G.X (false, c) := by simp [hX]
  have hp : (c, p) ∈ G.K := h.page_of_listed hpX
  have hpage := h.pages.page c p hp
  -- a page of this list has a free object
  obtain ⟨o, rest, hO⟩ : ∃ o rest, G.O p = o :: rest := by
    refine exists_cons_of_ne_nil fun hnil => ?_
    have := (h.full false c p hpX).mp hnil
    simp at this
  have hchain := hpage.chain
  rw [hO] at hchain
  obtain ⟨hhead, hone, hrest⟩ := hchain
  obtain ⟨hpages, hfresh, hslot⟩ :=
    h.pages.take hp hO read_takenMem fun a ha => takenMem_of_not_mem ha
  have hlists :
    SlabLists (takenMem t.buddy.mem p o) (slabHeads t.partialSlabs t.fullSlabs) G.X := by
    refine h.lists.congr fun k q hq a ha ha' => takenMem_of_not_mem ?_
    have hqal := h.lists.aligned k q hq
    have hpal := hpage.aligned
    omega
  have hout : ∀ a, (∀ c' q, (c', q) ∈ G.K → a < q ∨ q + 4096 ≤ a) →
    takenMem t.buddy.mem p o a = t.buddy.mem a :=
    fun a ha => takenMem_of_not_mem (by have := ha c p hp; omega)
  have heq := takeObject_eq (c := c) hhead
  have hzero : o ≠ 0 := by
    have := (slot_facts hc hpage.aligned hslot).2.1
    omega
  have hfull : ∀ f c' q, q ≠ p → q ∈ G.X (f, c') → (update G.O p rest q = [] ↔ f) := by
    intro f c' q hqp hq
    rw [update_of_ne hqp]
    exact h.full f c' q hq
  by_cases hlast : linkIn t.buddy.mem o = 0
  · -- the page goes to the full ones
    obtain rfl : rest = [] := hrest.eq_nil_iff.mp hlast
    rw [if_pos hlast] at heq
    have hnext : nextPage (takenMem t.buddy.mem p o) p = nextPage t.buddy.mem p := by
      rw [nextPage, read_takenMem, nextPage]
    have hother : ∀ k q, q ∈ update G.X (false, c) ys k ↔ q ∈ G.X k ∧ q ≠ p :=
      fun k q => hlists.mem_unlink (show G.X (false, c) = [] ++ p :: ys from hX)
    have hhead' : update (slabHeads t.partialSlabs t.fullSlabs) (false, c)
        (nextPage (takenMem t.buddy.mem p o) p) (true, c) = t.fullSlabs c :=
      update_of_ne (by simp) _ _
    have hmoved := (hlists.pop hX).push_setNext (k := (true, c)) (p := p) hc
      (fun k hmem => ((hother k p).mp hmem).2 rfl) hpage.aligned (h.lists.ne_zero hpX)
      (by rw [hhead']; exact h.head_lt (k := (true, c)) hc)
    rw [hhead', hnext] at hmoved
    have hmem : ∀ a, (a < p ∨ p + 32 ≤ a) →
        setNext (takenMem t.buddy.mem p o) p (t.fullSlabs c) a = t.buddy.mem a := by
      intro a ha
      rw [setNext_of_not_mem (by omega), takenMem_of_not_mem (by omega)]
    refine ⟨o, _, _, heq, hfresh, hzero, fun a ha => hmem a (h.inUse_header ha hp),
      h.slab_step (fun a ha => ?_) (hpages.of_next fun a ha => ?_)
      (by rw [slabHeads_full_update, slabHeads_partial_update]; exact hmoved) (fun c' q => ?_) fun f
      c' q hq => ?_⟩
    · exact hmem a (by have := ha c p hp; omega)
    · exact setNext_of_not_mem (ha c p hp)
    · rw [mem_push, mem_push, hother, hother, h.listed]
      by_cases hqp : q = p
      · rw [hqp, h.lists.mem_iff hpX, h.lists.mem_iff hpX]
        simp
      · simp [hqp]
    · rcases mem_push.mp hq with ⟨hkey, rfl⟩ | hq
      · rw [Prod.mk.injEq] at hkey
        rw [update_self, hkey.1]
        simp
      · obtain ⟨hq, hqp⟩ := (hother _ q).mp hq
        exact hfull f c' q hqp hq
  · rw [if_neg hlast] at heq
    refine ⟨o, _, _, heq, hfresh, hzero, fun a ha => takenMem_of_not_mem ?_,
      h.slab_step hout hpages hlists h.listed fun f c' q hq => ?_⟩
    · have := h.inUse_header ha hp
      omega
    by_cases hqp : q = p
    · subst hqp
      obtain ⟨rfl, rfl⟩ := Prod.mk.inj (h.lists.apart _ _ q hq hpX)
      rw [update_self]
      refine iff_of_false (fun hnil => hlast ?_) (by simp)
      rw [hnil] at hrest
      exact hrest
    · exact hfull f c' q hqp hq

/-- `allocateSmall` hands out an object that was not in use, or zero. -/
lemma allocateSmall (hc : c < numClasses) {fuel : ℕ} {r : ℕ × HeapAllocator}
    (hr : allocateSmall c fuel t = some r) :
    Spared S B t.buddy.mem r.2.buddy.mem ∧ ∃ G', r.1 = 0 ∧ HeapInv lo hi r.2 S B G' ∨
      r.1 ≠ 0 ∧ (c, r.1) ∉ S ∧ HeapInv lo hi r.2 (insert (c, r.1) S) B G' := by
  induction fuel generalizing t G with
  | zero => exact absurd hr (by simp [allocateSmall])
  | succ fuel ih =>
    rw [allocateSmall] at hr
    by_cases hne : t.partialSlabs c = 0
    · rw [if_neg (not_not.mpr hne)] at hr
      rcases h.addSlabPage hc hne with hfalse | ⟨t', G', htrue, h', hspared, -⟩
      · rw [hfalse] at hr
        obtain rfl := some.inj hr
        exact ⟨.refl _ _ _, G, .inl ⟨rfl, h⟩⟩
      · rw [htrue] at hr
        exact (ih h' hr).imp_left hspared.trans
    · rw [if_pos hne] at hr
      obtain ⟨o, t', G', heq, hfresh, hzero, hspared, h'⟩ := h.takeObject hc hne
      rw [heq] at hr
      obtain rfl := some.inj hr
      exact ⟨hspared, G', .inr ⟨hzero, hfresh, h'⟩⟩

/-- Two rounds are enough, and a third one if the page at address zero is lost on the way. -/
lemma allocateSmall_returns (hc : c < numClasses) :
    ∃ r, HeapAllocator.allocateSmall c 3 t = some r := by
  have hround : ∀ {t : HeapAllocator} {fuel : ℕ}, t.partialSlabs c ≠ 0 →
      ∃ r, HeapAllocator.allocateSmall c (fuel + 1) t = some r :=
    fun hne => ⟨_, by rw [HeapAllocator.allocateSmall, if_pos hne]⟩
  by_cases hne : t.partialSlabs c = 0
  · rw [HeapAllocator.allocateSmall, if_neg (not_not.mpr hne)]
    rcases h.addSlabPage hc hne with hfalse | ⟨t₁, G₁, htrue, h₁, -, hlost⟩
    · exact ⟨_, by rw [hfalse]⟩
    · rw [htrue]
      by_cases hne₁ : t₁.partialSlabs c = 0
      · change ∃ r, HeapAllocator.allocateSmall c (1 + 1) t₁ = some r
        rw [HeapAllocator.allocateSmall, if_neg (not_not.mpr hne₁)]
        rcases h₁.addSlabPage hc hne₁ with hfalse | ⟨t₂, G₂, htrue, h₂, -, hlost₂⟩
        · exact ⟨_, by rw [hfalse]⟩
        · rw [htrue]
          exact hround fun hzero => (hlost₂ hzero).1 (hlost hne₁).2
      · exact hround hne₁
  · exact hround hne

end

/-! ## Putting an object back -/

/-- The memory after an object was put back to its page. -/
def putMem (mem : Memory) (p o : ℕ) : Memory :=
  setInUse (setFreeList (setLink mem o (SlabPageHeader.read mem p).freeList) p o) p
    ((SlabPageHeader.read (setFreeList (setLink mem o (SlabPageHeader.read mem p).freeList) p o)
      p).inUse +
      (2 ^ 16 - 1))

lemma putMem_of_not_mem (ha : a < p ∨ p + 24 ≤ a) (ha' : a < o ∨ o + 8 ≤ a) :
    putMem mem p o a = mem a := by
  rw [putMem, setInUse_of_not_mem ha, setFreeList_of_not_mem ha, setLink_of_not_mem ha']

lemma read_putMem (ho : p + 32 ≤ o) (hbound : o < 2 ^ 64) : read (putMem mem p o) p =
    { read mem p with
      freeList := o, inUse := ((read mem p).inUse + (2 ^ 16 - 1)) % 2 ^ 16 } := by
  have hlink : ∀ v, read (setLink mem o v) p = read mem p := by
    intro v
    have hnext : (read (setLink mem o v) p).next = (read mem p).next :=
      next_congr fun a _ ha => setLink_of_not_mem (by omega)
    rw [read_congr fun a _ ha => setLink_of_not_mem (by omega), hnext]
  rw [putMem, read_setInUse, read_setFreeList hbound, hlink]

lemma linkIn_putMem (ho : p + 32 ≤ o) : linkIn (putMem mem p o) o = (read mem p).freeList := by
  have hhead : ∀ a, o ≤ a → a < o + 8 →
    putMem mem p o a = setLink mem o (read mem p).freeList a := by
    intro a ha ha'
    rw [putMem, setInUse_of_not_mem (by omega), setFreeList_of_not_mem (by omega)]
  rw [linkIn_congr hhead, linkIn_setLink freeList_lt]

section

variable (h : HeapInv lo hi t S B G) {xs ys : List ℕ}
include h

/-- Nor when a page leaves its list. -/
lemma spared_unlink (hxs : ∀ q ∈ xs, (c, q) ∈ G.K)
    (hmem : ∀ a, (∀ q ∈ xs, a < q + 24 ∨ q + 32 ≤ a) → mem' a = mem a) : Spared S B mem mem' := by
  refine fun a ha => hmem a fun q hq => ?_
  have := h.inUse_header ha (hxs q hq)
  omega

section

variable (hp : (c, p) ∈ G.K)
include hp

/-- The lists and pages after an object in use was put back; the page may be on the wrong list then.
-/
lemma putObject (ho : o ∈ slots c p) (hS : (c, o) ∈ S) :
    SlabPages (putMem t.buddy.mem p o) G.K (update G.O p (o :: G.O p)) (S \ {(c, o)}) ∧
      SlabLists (putMem t.buddy.mem p o) (slabHeads t.partialSlabs t.fullSlabs) G.X ∧
      ∀ a, (∀ c p, (c, p) ∈ G.K → a < p ∨ p + 4096 ≤ a) →
      putMem t.buddy.mem p o a = t.buddy.mem a := by
  have hpage := h.pages.page c p hp
  obtain ⟨-, hlo, hend⟩ := slot_facts hpage.class_lt hpage.aligned ho
  have hsize := (class_facts hpage.class_lt).1
  have hinside := h.page_inside hp
  have hbound := h.buddy.bound
  refine ⟨h.pages.put hp ho hS (read_putMem hlo (by omega)) (linkIn_putMem hlo)
    fun a ha ha' => putMem_of_not_mem ha ha', h.lists.congr fun k q hq a ha ha' => ?_,
      fun a ha => ?_⟩
  · have hqal := h.lists.aligned k q hq
    have hpal := hpage.aligned
    exact putMem_of_not_mem (by omega) (by omega)
  · have := ha c p hp
    exact putMem_of_not_mem (by omega) (by omega)

/-- The rest of what is in use does not change when an object is put back. -/
lemma spared_putMem (hS : (c, o) ∈ S) :
    Spared (S \ {(c, o)}) B t.buddy.mem (putMem t.buddy.mem p o) := by
  have hsize := (class_facts (h.pages.page c p hp).class_lt).1
  intro a ha
  have hheader := h.inUse_header (ha.imp_left fun ⟨c', o', ho', hin⟩ => ⟨c', o', ho'.1, hin⟩) hp
  have hobject := h.inUse_object hS ha
  exact putMem_of_not_mem (by omega) (by omega)

/-- The list of a slab page. -/
lemma exists_list : ∃ f, p ∈ G.X (f, c) ∧ ((read t.buddy.mem p).freeList = 0 ↔ f) := by
  have hempty := (h.pages.page c p hp).chain.eq_nil_iff
  rcases (h.listed c p).mp hp with hX | hX
  · exact ⟨false, hX, hempty.trans (h.full false c p hX)⟩
  · exact ⟨true, hX, hempty.trans (h.full true c p hX)⟩

end

/-- A page whose last object was put back leaves its list and goes to the buddy allocator. -/
lemma drop_page {f : Bool} {ps fs : ℕ → ℕ} (hX : G.X (f, c) = xs ++ p :: ys) (ho : o ∈ slots c p)
    (hS : (c, o) ∈ S)
    (huse : (read (putMem t.buddy.mem p o) p).inUse = 0)
    (hheads : slabHeads ps fs = update (slabHeads t.partialSlabs t.fullSlabs) (f, c)
      (unlinkResult (putMem t.buddy.mem p o)
        (slabHeads t.partialSlabs t.fullSlabs (f, c)) p (xs.getLastD 0)).2) :
    ∃ t' G', t' = (⟨ps, fs, ({ t.buddy with
      mem := (unlinkResult (putMem t.buddy.mem p o) (slabHeads t.partialSlabs t.fullSlabs (f, c)) p
        (xs.getLastD 0)).1 } : BuddyPageAllocator).freePages p 0⟩ : HeapAllocator) ∧
      Spared (S \ {(c, o)}) B t.buddy.mem t'.buddy.mem ∧ HeapInv lo hi t' (S \ {(c, o)}) B G' := by
  have hp : (c, p) ∈ G.K := h.page_of_listed (k := (f, c)) (by simp [hX])
  obtain ⟨hpages, hlists, hmem⟩ := h.putObject hp ho hS
  obtain ⟨-, hlists', hmem'⟩ := hlists.unlink hX
  have hK : ∀ q ∈ xs, (c, q) ∈ G.K := fun q hq => h.page_of_listed (k := (f, c)) (by simp [hX, hq])
  have hpages' := hpages.of_next fun a ha => hmem' a fun q hq => ha c q (hK q hq)
  have huse' := (hpages'.page c p hp).inUse
  have huse'' := (hpages.page c p hp).inUse
  have hother : ∀ k q, q ∈ update G.X (f, c) (xs ++ ys) k ↔ q ∈ G.X k ∧ q ≠ p :=
    fun k q => hlists.mem_unlink hX
  have hdrop := h.slab_drop ps fs hp (fun a ha => ?_)
    (hpages'.remove hp (by omega)) (hheads ▸ hlists') (fun c' q => ?_) (fun f' c' q hq => ?_)
    (hpages'.page c p hp).magic
  · obtain ⟨hspared, F', D', hfree⟩ := hdrop.free (mem_insert _ _)
    have hunlinked :=
      (h.spared_unlink hK hmem').mono (sdiff_subset (s := S) (t := {(c, o)})) subset_rfl
    exact ⟨_, _, rfl, ((h.spared_putMem hp hS).trans hunlinked).trans hspared, hfree⟩
  · refine (hmem' a fun q hq => ?_).trans (hmem a ha)
    have := ha c q (hK q hq)
    omega
  · rw [hother, hother, mem_sdiff, mem_singleton_iff, h.listed, ← or_and_right]
    refine and_congr_right fun hq => not_congr ⟨fun heq => congrArg Prod.snd heq, fun heq => ?_⟩
    rw [heq, h.pages.class_unique hp ((h.listed c' p).mpr (heq ▸ hq))]
  · obtain ⟨hq, hqp⟩ := (hother _ q).mp hq
    rw [update_of_ne hqp]
    exact h.full f' c' q hq

/-- A full page gets its first free object and moves to the other list. -/
lemma move_page (hX : G.X (true, c) = xs ++ p :: ys) (ho : o ∈ slots c p) (hS : (c, o) ∈ S) :
    ∃ t' G', t' = (⟨update t.partialSlabs c p,
        update t.fullSlabs c (unlinkResult (putMem t.buddy.mem p o)
          (t.fullSlabs c) p (xs.getLastD 0)).2,
        { t.buddy with mem := setNext (unlinkResult (putMem t.buddy.mem p o) (t.fullSlabs c) p
          (xs.getLastD 0)).1 p (t.partialSlabs c) }⟩ : HeapAllocator) ∧
      Spared (S \ {(c, o)}) B t.buddy.mem t'.buddy.mem ∧ HeapInv lo hi t' (S \ {(c, o)}) B G' := by
  have hpX : p ∈ G.X (true, c) := by simp [hX]
  have hp : (c, p) ∈ G.K := h.page_of_listed hpX
  have hpage := h.pages.page c p hp
  obtain ⟨hpages, hlists, hmem⟩ := h.putObject hp ho hS
  obtain ⟨-, hlists', hmem'⟩ := hlists.unlink hX
  have hkey : slabHeads t.partialSlabs t.fullSlabs (true, c) = t.fullSlabs c := rfl
  rw [hkey] at hlists' hmem'
  have hK : ∀ q ∈ xs, (c, q) ∈ G.K :=
    fun q hq => h.page_of_listed (k := (true, c)) (by simp [hX, hq])
  have hother : ∀ k q, q ∈ update G.X (true, c) (xs ++ ys) k ↔ q ∈ G.X k ∧ q ≠ p :=
    fun k q => hlists.mem_unlink hX
  have hhead : update (slabHeads t.partialSlabs t.fullSlabs) (true, c)
      (unlinkResult (putMem t.buddy.mem p o) (t.fullSlabs c) p (xs.getLastD 0)).2 (false, c) =
        t.partialSlabs c :=
    update_of_ne (by simp) _ _
  have hmoved := hlists'.push_setNext (k := (false, c)) (p := p) hpage.class_lt
    (fun k hmem => ((hother k p).mp hmem).2 rfl) hpage.aligned (h.lists.ne_zero hpX)
    (by rw [← slabHeads_full_update]; exact h.head_lt (k := (false, c)) hpage.class_lt)
  rw [hhead] at hmoved
  have hpages' := hpages.of_next fun a ha => hmem' a fun q hq => ha c q (hK q hq)
  have hunlinked :=
    (h.spared_unlink hK hmem').mono (sdiff_subset (s := S) (t := {(c, o)})) subset_rfl
  refine ⟨_, _, rfl, ((h.spared_putMem hp hS).trans hunlinked).trans fun a ha => ?_,
    h.slab_step (fun a ha => ?_)
    (hpages'.of_next fun a ha => setNext_of_not_mem (ha c p hp))
    (by rw [slabHeads_partial_update, slabHeads_full_update]; exact hmoved) (fun c' q => ?_) fun f
    c' q hq => ?_⟩
  · have := h.inUse_header (ha.imp_left fun ⟨c', o', ho', hin⟩ => ⟨c', o', ho'.1, hin⟩) hp
    exact setNext_of_not_mem (by omega)
  · have hpa := ha c p hp
    rw [setNext_of_not_mem (by omega)]
    refine (hmem' a fun q hq => ?_).trans (hmem a ha)
    have := ha c q (hK q hq)
    omega
  · rw [mem_push, mem_push, hother, hother, h.listed]
    by_cases hqp : q = p
    · rw [hqp, h.lists.mem_iff hpX, h.lists.mem_iff hpX]
      simp
    · simp [hqp]
  · rcases mem_push.mp hq with ⟨hkey, rfl⟩ | hq
    · rw [Prod.mk.injEq] at hkey
      rw [update_self, hkey.1]
      simp
    · obtain ⟨hq, hqp⟩ := (hother _ q).mp hq
      rw [update_of_ne hqp]
      exact h.full f c' q hq

/-- `freeSmall` takes an object in use back, if the loop may make enough rounds. -/
lemma freeSmall (hS : (c, o) ∈ S) :
    ∃ t' G' n, (∀ fuel, freeSmall fuel o t = if n ≤ fuel then some t' else none) ∧
      Spared (S \ {(c, o)}) B t.buddy.mem t'.buddy.mem ∧ HeapInv lo hi t' (S \ {(c, o)}) B G' := by
  obtain ⟨p, hp, ho⟩ := h.pages.used c o hS
  have hpage := h.pages.page c p hp
  have hheader : alignDown o pageSize = p := alignDown_slot hpage.class_lt hpage.aligned ho
  obtain ⟨f, hpX, hwas⟩ := h.exists_list hp
  obtain ⟨xs, ys, hX⟩ := append_of_mem hpX
  obtain ⟨hpages, hlists, hmem⟩ := h.putObject hp ho hS
  have hunlink := (hlists.unlink hX).1
  have hmagic : (read t.mem p).magic = slabPageMagic := hpage.magic
  have hclass : (read t.mem p).classIndex = c := hpage.classIndex
  have hwas' : (read t.mem p).freeList = 0 ↔ f := hwas
  have hput : t.putObject o p = t.withMem (putMem t.buddy.mem p o) := rfl
  have hmem' : (t.withMem (putMem t.buddy.mem p o)).mem = putMem t.buddy.mem p o := rfl
  have hps : (t.withMem (putMem t.buddy.mem p o)).partialSlabs = t.partialSlabs := rfl
  have hfs : (t.withMem (putMem t.buddy.mem p o)).fullSlabs = t.fullSlabs := rfl
  cases f with
  | true =>
    change ∀ fuel, unlinkSlabPage p fuel (putMem t.buddy.mem p o) (t.fullSlabs c)
      (t.fullSlabs c) 0 = _
      at hunlink
    by_cases huse : (read (putMem t.buddy.mem p o) p).inUse = 0
    · obtain ⟨t', G', rfl, hspared, hdrop⟩ := h.drop_page hX ho hS huse slabHeads_full_update
      refine ⟨_, G', xs.length + 1, fun fuel => ?_, hspared, hdrop⟩
      rw [HeapAllocator.freeSmall]
      simp only [hheader, hmagic, hclass, hwas', hput, hmem', hfs, huse, hunlink, ne_eq,
        not_true_eq_false, if_false, if_true, succ_le_iff]
      split_ifs <;> rfl
    · obtain ⟨t', G', rfl, hspared, hmove⟩ := h.move_page hX ho hS
      refine ⟨_, G', xs.length + 1, fun fuel => ?_, hspared, hmove⟩
      rw [HeapAllocator.freeSmall]
      simp only [hheader, hmagic, hclass, hwas', hput, hmem', hfs, hps, huse, hunlink, ne_eq,
        not_true_eq_false, if_false, if_true, succ_le_iff]
      split_ifs <;> rfl
  | false =>
    change ∀ fuel, unlinkSlabPage p fuel (putMem t.buddy.mem p o) (t.partialSlabs c)
      (t.partialSlabs c)
      0 = _ at hunlink
    by_cases huse : (read (putMem t.buddy.mem p o) p).inUse = 0
    · obtain ⟨t', G', rfl, hspared, hdrop⟩ := h.drop_page hX ho hS huse slabHeads_partial_update
      refine ⟨_, G', xs.length + 1, fun fuel => ?_, hspared, hdrop⟩
      rw [HeapAllocator.freeSmall]
      simp only [hheader, hmagic, hclass, hwas', hput, hmem', hps, huse, hunlink, ne_eq,
        not_true_eq_false, if_false, if_true, Bool.false_eq_true, succ_le_iff]
      split_ifs <;> rfl
    · -- the page stays on its list
      refine ⟨t.withMem (putMem t.buddy.mem p o), _, 0, fun fuel => ?_, h.spared_putMem hp hS,
        h.slab_step hmem hpages hlists h.listed fun f c' q hq => ?_⟩
      · rw [HeapAllocator.freeSmall]
        simp [hheader, hmagic, hwas', hput, hmem', huse]
      · by_cases hqp : q = p
        · subst hqp
          obtain ⟨rfl, rfl⟩ := Prod.mk.inj (h.lists.apart _ _ q hq hpX)
          rw [update_self]
          simp
        · rw [update_of_ne hqp]
          exact h.full f c' q hq

end

/-! ## Whole pages -/

/-- `allocateLarge` hands out a block that was not in use, or zero. -/
lemma allocateLarge (h : HeapInv lo hi t S B G) (l : Layout) :
    Spared S B t.buddy.mem (allocateLarge l t).2.buddy.mem ∧
    ∃ G', (allocateLarge l t).1 = 0 ∧ HeapInv lo hi (allocateLarge l t).2 S B G' ∨
      ∃ k b t', allocateLarge l t = (b, t') ∧ b ≠ 0 ∧ l.align ≤ pageSize ∧
        orderForPages (pageCountFor l.size) = some k ∧ (k, b) ∉ B ∧
        HeapInv lo hi t' S (insert (k, b) B) G' := by
  unfold HeapAllocator.allocateLarge
  split_ifs with halign
  · exact ⟨.refl _ _ _, G, .inl ⟨rfl, h⟩⟩
  cases horder : orderForPages (pageCountFor l.size) with
  | none => exact ⟨.refl _ _ _, G, .inl ⟨rfl, h⟩⟩
  | some k =>
    rcases h.alloc k with hnone | ⟨b, s', F', hsome, hfresh, hspared, h'⟩
    · simp only [hnone]
      exact ⟨.refl _ _ _, G, .inl ⟨trivial, h⟩⟩
    · simp only [hsome]
      refine ⟨hspared, ?_⟩
      by_cases hb : b = 0
      · exact ⟨_, .inl ⟨hb, h'⟩⟩
      · exact ⟨_, .inr ⟨k, b, _, rfl, hb, not_lt.mp halign, rfl,
          fun hmem => hfresh (.inr (.inl hmem)), h'.grant (mem_insert _ _)⟩⟩

/-- `freeLarge` takes a block in use back. -/
lemma freeLarge (h : HeapInv lo hi t S B G) {l : Layout}
    (horder : orderForPages (pageCountFor l.size) = some k) (hb : (k, b) ∈ B) :
    Spared S (B \ {(k, b)}) t.buddy.mem (freeLarge b l t).buddy.mem ∧
      ∃ G', HeapInv lo hi (freeLarge b l t) S (B \ {(k, b)}) G' := by
  obtain ⟨hspared, F', D', hfree⟩ := (h.reclaim hb).free (mem_insert _ _)
  rw [HeapAllocator.freeLarge, horder]
  exact ⟨hspared, _, hfree⟩

end HeapInv

end CabOS
