import CabOS.Memory.Heap.GlobalAlloc
import CabOS.Memory.Heap.HeapCalls

/-!
# The invariant of the global allocator

Every allocation stands for one piece of the heap: an object of a slab, or a block of pages.  The
clients, the calls in progress and the cache hold pieces, and the invariant `Shared.Inv` says that
no piece is held twice and that the pieces which are held are those in use in the heap.  The steps
of a call move pieces around; only `HeapAllocator.allocate` and `HeapAllocator.free` add one and
remove one.
-/

namespace CabOS

open DyadicBlock BuddyPageAllocator Function Multiset Finset List Set

/-! ## Layouts -/

variable {c k p x b : ℕ} {l : Layout}

/-- The objects of a class are large enough for the layouts they serve, and aligned. -/
lemma classIndexForLayout_spec (h : classIndexForLayout l = some c) :
    c < numClasses ∧ l.size ≤ classSize c ∧ l.align ∣ classSize c := by
  unfold classIndexForLayout at h
  simp only at h
  split_ifs at h with hbig
  obtain ⟨hc, hge, -⟩ := List.findIdx?_eq_some_iff_getElem.mp h
  have hc' : c < numClasses := hc
  have hsize : classSize c = 2 ^ (c + 4) := by
    have : ∀ c < numClasses, classSize c = 2 ^ (c + 4) := by decide
    exact this c hc'
  have hget : classSizes[c] = classSize c := by
    rw [classSize, getD, getElem?_eq_getElem hc]
    rfl
  have hneeded : max (max l.size 1) l.align ≤ classSize c := by
    rw [← hget]
    exact of_decide_eq_true hge
  refine ⟨hc', by omega, ?_⟩
  have halign : l.align ≤ classSize c := by omega
  rw [hsize, Layout.align] at halign ⊢
  exact pow_dvd_pow 2 ((Nat.pow_le_pow_iff_right one_lt_two).mp halign)

/-- A block of the order for a size is large enough. -/
lemma orderForPages_spec {size : ℕ} (h : orderForPages (pageCountFor size) = some k) :
    size ≤ width 12 k := by
  unfold orderForPages at h
  simp only at h
  split_ifs at h with hzero hbig
  obtain rfl := Option.some.inj h
  have hle : pageCountFor size ≤ 2 ^ Nat.clog 2 (pageCountFor size) := Nat.le_pow_clog (by decide) _
  have hmul := Nat.mul_le_mul_right pageSize hle
  rw [two_pow_mul_pageSize] at hmul
  refine le_trans ?_ hmul
  simp only [pageCountFor, pageSize]
  omega

/-! ## Pieces -/

/-- What an allocation consists of. -/
inductive Piece where
  /-- An object of a class. -/
  | object (c o : ℕ)
  /-- A block of an order. -/
  | block (k b : ℕ)

/-- The addresses of a piece. -/
def Piece.extent : Piece → Set ℕ
  | .object c o => Set.Ico o (o + classSize c)
  | .block k b => span 12 (k, b)

/-- The piece of an allocation. -/
def pieceOf (a : Allocation) : Piece :=
  match classIndexForLayout a.2 with
  | some c => .object c a.1
  | none => .block ((orderForPages (pageCountFor a.2.size)).getD 0) a.1

/-- The heap serves the layout. -/
def Served (l : Layout) : Prop :=
  classIndexForLayout l = none →
  l.align ≤ pageSize ∧ ∃ k, orderForPages (pageCountFor l.size) = some k

lemma pieceOf_object (h : classIndexForLayout l = some c) : pieceOf (p, l) = .object c p := by
  simp only [pieceOf, h]

lemma pieceOf_block (h : classIndexForLayout l = none)
    (hk : orderForPages (pageCountFor l.size) = some k) : pieceOf (p, l) = .block k p := by
  simp only [pieceOf, h, hk, Option.getD_some]

variable {a : Allocation}

/-- The bytes of an allocation lie in its piece. -/
lemma mem_extent (hserved : Served a.2) (hx : a.1 ≤ x) (hx' : x < a.1 + a.2.size) :
    x ∈ (pieceOf a).extent := by
  obtain ⟨p, l⟩ := a
  simp only at hserved hx hx'
  cases hc : classIndexForLayout l with
  | some c =>
    have := (classIndexForLayout_spec hc).2.1
    rw [pieceOf_object hc]
    exact Set.mem_Ico.mpr ⟨hx, by omega⟩
  | none =>
    obtain ⟨-, k, hk⟩ := hserved hc
    have := orderForPages_spec hk
    rw [pieceOf_block hc hk]
    exact mem_span.mpr ⟨hx, by simp only; omega⟩

/-- An allocation starts where its piece does. -/
lemma base_mem_extent (hserved : Served a.2) : a.1 ∈ (pieceOf a).extent := by
  obtain ⟨p, l⟩ := a
  cases hc : classIndexForLayout l with
  | some c =>
    have hpos := (class_facts (classIndexForLayout_spec hc).1).1
    rw [pieceOf_object hc]
    exact Set.mem_Ico.mpr ⟨le_rfl, by omega⟩
  | none =>
    obtain ⟨-, k, hk⟩ := hserved hc
    rw [pieceOf_block hc hk]
    exact base_mem_span

/-- The objects among some pieces. -/
def objects (P : Multiset Piece) : Set (ℕ × ℕ) := {x | .object x.1 x.2 ∈ P}

/-- The blocks among some pieces. -/
def blocks (P : Multiset Piece) : Set (ℕ × ℕ) := {x | .block x.1 x.2 ∈ P}

section

variable {P : Multiset Piece} {c o k b : ℕ}

@[simp] lemma mem_objects : (c, o) ∈ objects P ↔ .object c o ∈ P := Iff.rfl

@[simp] lemma mem_blocks : (k, b) ∈ blocks P ↔ .block k b ∈ P := Iff.rfl

lemma objects_cons_object : objects (.object c o ::ₘ P) = insert (c, o) (objects P) := by
  ext ⟨c', o'⟩
  simp

lemma blocks_cons_object : blocks (.object c o ::ₘ P) = blocks P := by
  ext ⟨k', b'⟩
  simp

lemma objects_cons_block : objects (.block k b ::ₘ P) = objects P := by
  ext ⟨c', o'⟩
  simp

lemma blocks_cons_block : blocks (.block k b ::ₘ P) = insert (k, b) (blocks P) := by
  ext ⟨k', b'⟩
  simp

end

/-! ## Where pieces lie -/

namespace HeapInv

variable {lo hi c p o x : ℕ} {t : HeapAllocator} {P : Multiset Piece} {G : HeapShape} {A A' : Piece}

section

variable (h : HeapInv lo hi t (objects P) (blocks P) G)
include h

/-- An object lies behind the header of a slab page. -/
lemma object_page (hA : .object c o ∈ P) :
    ∃ p, (c, p) ∈ G.K ∧ o ∈ slots c p ∧ c < numClasses ∧ 4096 ∣ p ∧ classSize c ∣ o ∧ p + 32 ≤ o ∧
      o + classSize c ≤ p + 4096 := by
  obtain ⟨p, hp, hslot⟩ := h.pages.used c o hA
  have hpage := h.pages.page c p hp
  exact ⟨p, hp, hslot, hpage.class_lt, hpage.aligned, slot_facts hpage.class_lt hpage.aligned hslot⟩

/-- What is served is aligned. -/
lemma piece_aligned (hserved : Served a.2) (hA : pieceOf a ∈ P) : a.2.align ∣ a.1 := by
  obtain ⟨p, l⟩ := a
  cases hc : classIndexForLayout l with
  | some c =>
    rw [pieceOf_object hc] at hA
    obtain ⟨-, -, -, -, -, hdvd, -⟩ := h.object_page hA
    exact (classIndexForLayout_spec hc).2.2.trans hdvd
  | none =>
    obtain ⟨halign, k, hk⟩ := hserved hc
    rw [pieceOf_block hc hk] at hA
    have hpage : 4096 ∣ p := h.buddy.page_dvd (.inr (.inr (.inl (show (k, p) ∈ blocks P from hA))))
    refine Dvd.dvd.trans ?_ hpage
    have hle : l.align ≤ 2 ^ 12 := halign
    exact pow_dvd_pow 2 ((Nat.pow_le_pow_iff_right Nat.one_lt_two).mp hle)

/-- An object does not meet a block. -/
lemma object_block (hA : .object c o ∈ P)
    (hB : .block k b ∈ P) (hx : x ∈ (Piece.object c o).extent) : x ∉ (Piece.block k b).extent := by
  intro hx'
  obtain ⟨p, hp, -, -, -, -, hlo, hhi⟩ := h.object_page hA
  have hin : o ≤ x ∧ x < o + classSize c := hx
  have := h.page_apart hp (.inr (.inl hB)) hx'
  omega

section

variable (hA : A ∈ P)
include hA

/-- Pieces lie in the range. -/
lemma piece_inside (hx : x ∈ A.extent) : lo ≤ x ∧ x < hi := by
  cases A with
  | object c o =>
    obtain ⟨p, hp, -, -, -, -, hlo, hhi⟩ := h.object_page hA
    have hin := h.page_inside hp
    have hx' : o ≤ x ∧ x < o + classSize c := hx
    omega
  | block k b => exact h.buddy.tiling.mem_range (.inr (.inr (.inl hA))) hx

/-- Pieces do not meet headers. -/
lemma piece_header (hp : (c, p) ∈ G.K) (hx : x ∈ A.extent) : x < p ∨ p + 32 ≤ x := by
  cases A with
  | object c' o =>
    obtain ⟨hlo, hhi⟩ : o ≤ x ∧ x < o + classSize c' := hx
    rcases h.object_cases hp hA hlo hhi with hout | ⟨-, -, hge⟩ <;> omega
  | block k b =>
    have := h.page_apart hp (.inr (.inl hA)) hx
    omega

/-- Pieces do not meet free blocks. -/
lemma piece_free {y : ℕ × ℕ} (hy : y ∈ freeBlocks G.F) (hx : x ∈ A.extent) : x ∉ span 12 y := by
  intro hxy
  cases A with
  | object c o =>
    obtain ⟨p, hp, -, -, -, -, hlo, hhi⟩ := h.object_page hA
    have hx' : o ≤ x ∧ x < o + classSize c := hx
    have := h.page_apart hp (.inl hy) hxy
    omega
  | block k b =>
    have hlive : ((k, b) : ℕ × ℕ) ∈ blocks P := hA
    have heq := h.buddy.tiling.disjoint (k, b) (.inr (.inr (.inl hlive))) y (.inl hy) x hx hxy
    exact h.buddy.apart (k, b) (.inr (.inl hlive)) (heq ▸ hy)

/-- Pieces that meet are the same. -/
lemma piece_unique (hA' : A' ∈ P) (hx : x ∈ A.extent) (hx' : x ∈ A'.extent) : A = A' := by
  cases A with
  | object c o =>
    cases A' with
    | object c' o' =>
      obtain ⟨p, hp, hslot, hc, hal, -, hlo, hhi⟩ := h.object_page hA
      obtain ⟨p', hp', hslot', -, hal', -, hlo', hhi'⟩ := h.object_page hA'
      have hin : o ≤ x ∧ x < o + classSize c := hx
      have hin' : o' ≤ x ∧ x < o' + classSize c' := hx'
      obtain rfl : p = p' := by
        by_contra hne
        have := pages_apart hal hal' hne
        omega
      obtain rfl := h.pages.class_unique hp hp'
      by_contra hne
      have := slots_apart hc hal hslot hslot' fun heq => hne (by rw [heq])
      omega
    | block k b => exact absurd hx' (h.object_block hA hA' hx)
  | block k b =>
    cases A' with
    | object c o => exact absurd hx (h.object_block hA' hA hx')
    | block k' b' =>
      have hB : ((k, b) : ℕ × ℕ) ∈ blocks P := hA
      have hB' : ((k', b') : ℕ × ℕ) ∈ blocks P := hA'
      have heq := h.buddy.tiling.disjoint (k, b) (.inr (.inr (.inl hB))) (k', b')
        (.inr (.inr (.inl hB'))) x hx hx'
      rw [Prod.mk.injEq] at heq
      rw [heq.1, heq.2]

end

end

end HeapInv

/-! ## The cache -/

/-- The object in an entry of the cache. -/
def slotPiece (i : ℕ × ℕ) (v : ℕ) : Multiset Piece := if v = 0 then 0 else {.object i.2 v}

/-- The entries of the cache. -/
def cacheSlots : Finset (ℕ × ℕ) := Finset.range maxCpus ×ˢ Finset.range numClasses

/-- The objects in the cache. -/
def parked (cache : CpuCache) : Multiset Piece := ∑ i ∈ cacheSlots, slotPiece i (cache i)

/-- A swap takes the old object out and puts the new one in. -/
lemma parked_update (cache : CpuCache) {i : ℕ × ℕ} (hi : i ∈ cacheSlots) (v : ℕ) :
    parked (update cache i v) + slotPiece i (cache i) = parked cache + slotPiece i v := by
  unfold parked
  generalize cacheSlots = slots at hi
  have hrest : ∑ j ∈ slots.erase i, slotPiece j (update cache i v j) =
      ∑ j ∈ slots.erase i, slotPiece j (cache j) :=
    sum_congr rfl fun j hj => by rw [update_of_ne (ne_of_mem_erase hj)]
  rw [← add_sum_erase slots _ hi, ← add_sum_erase slots _ hi, hrest, update_self]
  abel

/-- A core with a cache has an entry for every class. -/
lemma mem_cacheSlots {preempt : Bool} {core i : ℕ} (hcpu : tryCurrentCpu preempt core = some i)
    (hc : c < numClasses) : (i, c) ∈ cacheSlots := by
  unfold tryCurrentCpu at hcpu
  split_ifs at hcpu with hpreempt hcore
  obtain rfl := Option.some.inj hcpu
  simp only [cacheSlots, Finset.mem_product, Finset.mem_range]
  exact ⟨hcore, hc⟩

/-! ## The invariant -/

/-- The pieces that are held. -/
def ownedPieces (cache : CpuCache) (held : Multiset Allocation) : Multiset Piece :=
  held.map pieceOf + parked cache

/-- The word pair of a free block is not stored at the start of a page. -/
def StoresNoTag (mem mem' : Memory) : Prop :=
  ∀ p, pageSize ∣ p → (∃ a, p ≤ a ∧ a < p + 8 ∧ mem' a ≠ mem a) → ∀ k ≤ maxOrder, ¬ Tagged mem' p k

/-- The heap and the cache, when `held` is all that clients and calls hold. -/
structure Shared.Inv (lo hi : ℕ) (s : Shared) (held : Multiset Allocation) : Prop where
  served : ∀ a ∈ held, a.1 ≠ 0 ∧ Served a.2
  /-- No piece is held twice. -/
  nodup : (ownedPieces s.cache held).Nodup
  /-- What is held is what the heap has handed out. -/
  heap : ∃ G, HeapInv lo hi s.heap (objects (ownedPieces s.cache held))
    (blocks (ownedPieces s.cache held)) G

/-- The bytes of what is held are as they were. -/
def Kept (held : Multiset Allocation) (mem mem' : Memory) : Prop :=
  ∀ a ∈ held, ∀ x, a.1 ≤ x → x < a.1 + a.2.size → mem' x = mem x

lemma Kept.refl (held : Multiset Allocation) (mem : Memory) : Kept held mem mem :=
  fun _ _ _ _ _ => rfl

variable {mem mem' : Memory}

lemma Kept.trans {held : Multiset Allocation} {mem'' : Memory} (h : Kept held mem mem')
    (h' : Kept held mem' mem'') : Kept held mem mem'' :=
  fun a ha x hx hx' => (h' a ha x hx hx').trans (h a ha x hx hx')

namespace Shared.Inv

variable {lo hi p fuel : ℕ} {s : Shared} {held held' : Multiset Allocation} {cache : CpuCache}
  {l : Layout} {a a' : Allocation}

/-- The tag is in the first eight bytes. -/
lemma tagged_congr (h : ∀ a, p ≤ a → a < p + 8 → mem' a = mem a) (htag : Tagged mem' p k) :
    Tagged mem p k := by
  obtain ⟨hmagic, horder⟩ := htag
  refine ⟨?_, ?_⟩
  · rw [← hmagic]
    exact (readLE_congr fun a ha ha' => h a ha (by omega)).symm
  · rw [← horder]
    exact (readLE_congr fun a ha ha' => h a (by omega) (by omega)).symm

/-- A page that was not tagged is not tagged by writes that store no tag. -/
lemma not_tagged_of_stores (hstores : StoresNoTag mem mem')
    (hp : pageSize ∣ p) (hk : k ≤ maxOrder) (htag : ¬ Tagged mem p k) : ¬ Tagged mem' p k := by
  by_cases hchanged : ∃ a, p ≤ a ∧ a < p + 8 ∧ mem' a ≠ mem a
  · exact hstores p hp hchanged k hk
  · push Not at hchanged
    exact fun htag' => htag (tagged_congr hchanged htag')

section

variable (h : s.Inv lo hi held)
include h

/-- What is held is in use. -/
lemma inUse (ha : a ∈ held) (hx : a.1 ≤ x) (hx' : x < a.1 + a.2.size) :
    InUse (objects (ownedPieces s.cache held)) (blocks (ownedPieces s.cache held)) x := by
  have hext := mem_extent (h.served a ha).2 hx hx'
  have hmem : pieceOf a ∈ ownedPieces s.cache held :=
    mem_add.mpr (.inl (mem_map_of_mem _ ha))
  cases hP : pieceOf a with
  | object c o =>
    rw [hP] at hext hmem
    exact .inl ⟨c, o, hmem, hext.1, hext.2⟩
  | block k b =>
    rw [hP] at hext hmem
    exact .inr ⟨(k, b), hmem, hext⟩

/-- What the heap spares is kept. -/
lemma kept (hspared : Spared (objects (ownedPieces s.cache held))
    (blocks (ownedPieces s.cache held)) mem mem') :
    Kept held mem mem' :=
  fun _ ha x hx hx' => hspared x (h.inUse ha hx hx')

/-- Pieces change hands. -/
lemma of_owned (hserved : ∀ a ∈ held', a.1 ≠ 0 ∧ Served a.2)
    (howned : ownedPieces cache held' = ownedPieces s.cache held) :
    ({ s with cache := cache } : Shared).Inv lo hi held' := by
  refine ⟨hserved, ?_, ?_⟩
  · rw [howned]
    exact h.nodup
  · rw [howned]
    exact h.heap

/-- The heap hands out a new piece, or none. -/
lemma allocate {heap : HeapAllocator} (halloc : s.heap.allocate fuel l = some (p, heap)) :
    Kept held s.heap.mem heap.mem ∧ (p = 0 ∧ ({ s with heap := heap } : Shared).Inv lo hi held ∨
      p ≠ 0 ∧ ({ s with heap := heap } : Shared).Inv lo hi ((p, l) ::ₘ held)) := by
  obtain ⟨G, hG⟩ := h.heap
  -- one more piece, which is new
  have hadd : ∀ {P : Piece}, pieceOf (p, l) = P → p ≠ 0 → Served l → P ∉ ownedPieces s.cache held →
      (∃ G', HeapInv lo hi heap (objects (P ::ₘ ownedPieces s.cache held))
        (blocks (P ::ₘ ownedPieces s.cache held)) G') →
      ({ s with heap := heap } : Shared).Inv lo hi ((p, l) ::ₘ held) := by
    rintro P rfl hp hserved hfresh hheap
    have howned : ownedPieces s.cache ((p, l) ::ₘ held) =
      pieceOf (p, l) ::ₘ ownedPieces s.cache held := by
      rw [ownedPieces, Multiset.map_cons, cons_add, ← ownedPieces]
    refine ⟨?_, ?_, ?_⟩
    · intro a ha
      rcases mem_cons.mp ha with rfl | ha
      · exact ⟨hp, hserved⟩
      · exact h.served a ha
    · rw [howned]
      exact nodup_cons.mpr ⟨hfresh, h.nodup⟩
    · rw [howned]
      exact hheap
  unfold HeapAllocator.allocate at halloc
  cases hc : classIndexForLayout l with
  | some c =>
    rw [hc] at halloc
    obtain ⟨hspared, G', hG'⟩ := hG.allocateSmall (classIndexForLayout_spec hc).1 halloc
    refine ⟨h.kept hspared, ?_⟩
    rcases hG' with ⟨hzero, hG'⟩ | ⟨hne, hfresh, hG'⟩
    · exact .inl ⟨hzero, h.served, h.nodup, G', hG'⟩
    · refine .inr ⟨hne, hadd (pieceOf_object hc) hne (fun hnone => ?_) hfresh ⟨G', ?_⟩⟩
      · rw [hc] at hnone
        exact absurd hnone (by simp)
      · rw [objects_cons_object, blocks_cons_object]
        exact hG'
  | none =>
    rw [hc] at halloc
    have hlarge : s.heap.allocateLarge l = (p, heap) := Option.some.inj halloc
    obtain ⟨hspared, G', hG'⟩ := hG.allocateLarge l
    rw [hlarge] at hspared
    refine ⟨h.kept hspared, ?_⟩
    rcases hG' with ⟨hzero, hG'⟩ | ⟨k, b, t', heq, hne, halign, hk, hfresh, hG'⟩
    · rw [hlarge] at hzero hG'
      exact .inl ⟨hzero, h.served, h.nodup, G', hG'⟩
    · obtain ⟨rfl, rfl⟩ := Prod.mk.inj (hlarge.symm.trans heq)
      refine .inr ⟨hne, hadd (pieceOf_block hc hk) hne (fun _ => ⟨halign, k, hk⟩) hfresh ⟨G', ?_⟩⟩
      rw [objects_cons_block, blocks_cons_block]
      exact hG'

/-- `allocate` returns. -/
lemma allocate_returns (l : Layout) : ∃ r, s.heap.allocate 3 l = some r := by
  obtain ⟨G, hG⟩ := h.heap
  unfold HeapAllocator.allocate
  cases hc : classIndexForLayout l with
  | some c => exact hG.allocateSmall_returns (classIndexForLayout_spec hc).1
  | none => exact ⟨_, rfl⟩

end

/-- The heap takes a piece back, if its loop may make enough rounds. -/
lemma free (h : s.Inv lo hi ((p, l) ::ₘ held)) :
    ∃ heap n, (∀ fuel, s.heap.free fuel p l = if n ≤ fuel then some heap else none) ∧
      Kept held s.heap.mem heap.mem ∧ ({ s with heap := heap } : Shared).Inv lo hi held := by
  obtain ⟨G, hG⟩ := h.heap
  obtain ⟨hne, hserved⟩ := h.served (p, l) (mem_cons_self _ _)
  have howned : ownedPieces s.cache ((p, l) ::ₘ held) =
    pieceOf (p, l) ::ₘ ownedPieces s.cache held := by
    rw [ownedPieces, Multiset.map_cons, cons_add, ← ownedPieces]
  have hnodup := h.nodup
  rw [howned] at hnodup hG
  obtain ⟨hfresh, hrest⟩ := nodup_cons.mp hnodup
  have hserved' : ∀ a ∈ held, a.1 ≠ 0 ∧ Served a.2 :=
    fun a ha => h.served a (mem_cons_of_mem ha)
  unfold HeapAllocator.free
  simp only [if_neg hne]
  cases hc : classIndexForLayout l with
  | some c =>
    rw [pieceOf_object hc, objects_cons_object, blocks_cons_object] at hG
    rw [pieceOf_object hc] at hfresh
    obtain ⟨heap, G', n, heq, hspared, hG'⟩ := hG.freeSmall (mem_insert _ _)
    rw [insert_sdiff_self_of_notMem (show (c, p) ∉ objects _ from hfresh)] at hspared hG'
    have h' : ({ s with heap := heap } : Shared).Inv lo hi held := ⟨hserved', hrest, G', hG'⟩
    exact ⟨heap, n, heq, h'.kept hspared, h'⟩
  | none =>
    obtain ⟨-, k, hk⟩ := hserved hc
    rw [pieceOf_block hc hk, objects_cons_block, blocks_cons_block] at hG
    rw [pieceOf_block hc hk] at hfresh
    obtain ⟨hspared, G', hG'⟩ := hG.freeLarge hk (mem_insert _ _)
    rw [insert_sdiff_self_of_notMem (show (k, p) ∉ blocks _ from hfresh)] at hspared hG'
    have h' : ({ s with heap := s.heap.freeLarge p l } : Shared).Inv lo hi held :=
      ⟨hserved', hrest, G', hG'⟩
    exact ⟨s.heap.freeLarge p l, 0, fun fuel => by simp, h'.kept hspared, h'⟩

section

variable (h : s.Inv lo hi held)
include h

/-- The blocks that are in use are held: the cache has objects only. -/
lemma exists_block (hb : .block k b ∈ ownedPieces s.cache held) :
    ∃ a ∈ held, pieceOf a = .block k b ∧ a.1 = b := by
  rcases mem_add.mp hb with hb | hb
  · obtain ⟨⟨q, l⟩, ha, hpiece⟩ := mem_map.mp hb
    refine ⟨(q, l), ha, hpiece, ?_⟩
    cases hc : classIndexForLayout l with
    | some c =>
      rw [pieceOf_object hc] at hpiece
      cases hpiece
    | none =>
      obtain ⟨-, j, hj⟩ := (h.served (q, l) ha).2 hc
      rw [pieceOf_block hc hj] at hpiece
      cases hpiece
      rfl
  · obtain ⟨i, -, hi⟩ := mem_sum.mp hb
    unfold slotPiece at hi
    split_ifs at hi with hv
    · exact absurd hi (notMem_zero _)
    · cases Multiset.mem_singleton.mp hi

/-- Nothing that is held starts a page with a tag: objects do not start pages, and blocks in use
have no tag. -/
lemma not_tagged (ha : a ∈ held) (hdvd : pageSize ∣ a.1) (hk : k ≤ maxOrder) :
    ¬ Tagged s.heap.mem a.1 k := by
  obtain ⟨G, hG⟩ := h.heap
  obtain ⟨q, l⟩ := a
  have hmem : pieceOf (q, l) ∈ ownedPieces s.cache held :=
    mem_add.mpr (.inl (mem_map_of_mem _ ha))
  cases hc : classIndexForLayout l with
  | some c =>
    rw [pieceOf_object hc] at hmem
    obtain ⟨p, -, -, -, hal, -, hlo, hhi⟩ := hG.object_page hmem
    have hsize := (class_facts (classIndexForLayout_spec hc).1).1
    simp only [pageSize] at hdvd
    omega
  | none =>
    obtain ⟨-, j, hj⟩ := (h.served (q, l) ha).2 hc
    rw [pieceOf_block hc hj] at hmem
    exact hG.tagFree (j, q) (.inl hmem) k hk

/-- Bytes of what is held are changed, and bytes outside the range; no block in use starts with a
tag afterwards. -/
lemma write_clean (hmem : ∀ x, mem' x ≠ s.heap.mem x → x < lo ∨ hi ≤ x ∨ ∃ a ∈ held, a.1 ≤ x ∧
    x < a.1 + a.2.size)
    (hclean : ∀ a ∈ held, pageSize ∣ a.1 → ∀ k ≤ maxOrder, ¬ Tagged mem' a.1 k)
    (hbehind : Behind hi mem') :
    ({ s with heap := s.heap.withMem mem' } : Shared).Inv lo hi held := by
  obtain ⟨G, hG⟩ := h.heap
  have huse : ∀ x, mem' x ≠ s.heap.mem x → x < lo ∨ hi ≤ x ∨
      InUse (objects (ownedPieces s.cache held)) (blocks (ownedPieces s.cache held)) x :=
    fun x hx => (hmem x hx).imp_right fun hx' => hx'.imp_right fun ⟨a, ha, hax, hax'⟩ =>
      h.inUse ha hax hax'
  refine ⟨h.served, h.nodup, G, hG.write (fun x hx => ?_) (fun y hy k hk => ?_) hbehind⟩
  · rcases huse x hx with hlt | hge | hobject | ⟨y, hy, hxy⟩
    · exact .inl hlt
    · exact .inr (.inl hge)
    · exact .inr (.inr (.inr hobject))
    · exact .inr (.inr (.inl ⟨y, .inl hy, hxy⟩))
  · have hdvd := hG.buddy.page_dvd (.inr (.inr hy))
    rcases hy with hy | hy
    · obtain ⟨a, ha, -, hbase⟩ := h.exists_block (k := y.1) (b := y.2) hy
      rw [← hbase] at hdvd ⊢
      exact hclean a ha hdvd k hk
    · -- a lost block is not written
      refine fun htag => hG.tagFree y (.inr hy) k hk (tagged_congr (fun x hx hx' => ?_) htag)
      by_contra hne
      have hspan : x ∈ span 12 y := BuddyInv.mem_span_of_node hx (by omega)
      have hrange := hG.buddy.tiling.mem_range (.inr (.inr (.inr hy))) hspan
      rcases huse x hne with hlt | hge | hin
      · omega
      · omega
      · exact hG.inUse_lost hin hy hspan

/-- Bytes of what is held are changed, and bytes outside the range, without storing a tag at the
start of a page. -/
lemma write (hhi : pageSize ∣ hi)
    (hmem : ∀ x, mem' x ≠ s.heap.mem x → x < lo ∨ hi ≤ x ∨ ∃ a ∈ held, a.1 ≤ x ∧ x < a.1 + a.2.size)
    (hstores : StoresNoTag s.heap.mem mem') :
    ({ s with heap := s.heap.withMem mem' } : Shared).Inv lo hi held := by
  obtain ⟨G, hG⟩ := h.heap
  refine h.write_clean hmem (fun a ha hdvd k hk => ?_) fun k hk heq => ?_
  · exact not_tagged_of_stores hstores hdvd hk (h.not_tagged ha hdvd hk)
  · exact not_tagged_of_stores hstores hhi hk (hG.behind k hk heq)

end

end Shared.Inv

end CabOS
