import CabOS.Library.Dyadic
import CabOS.Library.LinkedList
import CabOS.Memory.Heap.HeapAllocator

/-!
# Slab pages and their objects

`SlabPages mem K O S` describes the slab pages `K`, given with their classes: the free objects of
the page `p` are the list `O p` in memory, and its other objects are those of `S`, which are in use.
Only the first bytes of the headers and the links of free objects matter, so that changes elsewhere
keep the property (`SlabPages.congr`).  An object is taken or put back (`SlabPages.take`,
`SlabPages.put`), a page is set up, and a page without objects in use is given away.
-/

namespace CabOS

open SlabPageHeader Function List Nat Set

/-! ## Headers in memory -/

namespace SlabPageHeader

variable {mem mem' : Memory} {p v a : ℕ} {h : SlabPageHeader}

/-- What the pages need of a header, without the link to the next page. -/
lemma read_congr (h : ∀ a, p ≤ a → a < p + 24 → mem' a = mem a) :
    read mem' p = { read mem p with next := (read mem' p).next } := by
  have hsame : ∀ i n, i + n ≤ 24 → readLE mem' (p + i) n = readLE mem (p + i) n := fun i n hi =>
    readLE_congr fun a ha ha' => h a (by omega) (by omega)
  have hmagic : readLE mem' p 4 = readLE mem p 4 := hsame 0 4 (by omega)
  simp only [read, hmagic, hsame 4 2 (by omega), hsame 6 2 (by omega), hsame 8 2 (by omega),
    hsame 16 8 (by omega)]

lemma next_congr (h : ∀ a, p + 24 ≤ a → a < p + 32 → mem' a = mem a) :
    (read mem' p).next = (read mem p).next :=
  readLE_congr fun a ha ha' => h a ha (by omega)

lemma setInUse_of_not_mem (h : a < p ∨ p + 24 ≤ a) : setInUse mem p v a = mem a :=
  writeLE_of_not_mem (by omega)

lemma setFreeList_of_not_mem (h : a < p ∨ p + 24 ≤ a) : setFreeList mem p v a = mem a :=
  writeLE_of_not_mem (by omega)

lemma setNext_of_not_mem (h : a < p + 24 ∨ p + 32 ≤ a) : setNext mem p v a = mem a :=
  writeLE_of_not_mem (by omega)

lemma read_setMagic (hv : v < 2 ^ 32) :
    read (setMagic mem p v) p = { read mem p with magic := v } := by
  simp only [read, setMagic]
  rw [readLE_writeLE_of_lt (by norm_num; omega)]
  iterate 5 rw [readLE_writeLE_of_disjoint (by omega)]

lemma read_setClassIndex (hv : v < 2 ^ 16) :
    read (setClassIndex mem p v) p = { read mem p with classIndex := v } := by
  simp only [read, setClassIndex]
  rw [readLE_writeLE_of_lt (by norm_num; omega)]
  iterate 5 rw [readLE_writeLE_of_disjoint (by omega)]

lemma read_setCapacity (hv : v < 2 ^ 16) :
    read (setCapacity mem p v) p = { read mem p with capacity := v } := by
  simp only [read, setCapacity]
  rw [readLE_writeLE_of_lt (by norm_num; omega)]
  iterate 5 rw [readLE_writeLE_of_disjoint (by omega)]

lemma read_setReserved : read (setReserved mem p v) p = read mem p := by
  simp only [read, setReserved]
  iterate 6 rw [readLE_writeLE_of_disjoint (by omega)]

lemma read_setInUse : read (setInUse mem p v) p = { read mem p with inUse := v % 2 ^ 16 } := by
  simp only [read, setInUse]
  rw [readLE_writeLE_self]
  iterate 5 rw [readLE_writeLE_of_disjoint (by omega)]
  norm_num

lemma read_setFreeList (hv : v < 2 ^ 64) :
    read (setFreeList mem p v) p = { read mem p with freeList := v } := by
  simp only [read, setFreeList]
  rw [readLE_writeLE_of_lt (by norm_num; omega)]
  iterate 5 rw [readLE_writeLE_of_disjoint (by omega)]

lemma read_setNext (hv : v < 2 ^ 64) :
    read (setNext mem p v) p = { read mem p with next := v } := by
  simp only [read, setNext]
  rw [readLE_writeLE_of_lt (by norm_num; omega)]
  iterate 5 rw [readLE_writeLE_of_disjoint (by omega)]

/-- The memory with a new header. -/
def write (mem : Memory) (p : ℕ) (h : SlabPageHeader) : Memory :=
  setNext (setFreeList (setReserved (setCapacity (setInUse (setClassIndex (setMagic mem p h.magic) p
    h.classIndex) p h.inUse) p h.capacity) p 0) p h.freeList) p h.next

/-- The fields of a header fit into their bytes. -/
def Fits (h : SlabPageHeader) : Prop :=
  h.magic < 2 ^ 32 ∧ h.classIndex < 2 ^ 16 ∧ h.inUse < 2 ^ 16 ∧ h.capacity < 2 ^ 16 ∧
    h.freeList < 2 ^ 64 ∧ h.next < 2 ^ 64

lemma write_of_not_mem (ha : a < p ∨ p + 32 ≤ a) : write mem p h a = mem a := by
  simp only [write, setMagic, setClassIndex, setInUse, setCapacity, setReserved,
    setFreeList, setNext]
  iterate 7 rw [writeLE_of_not_mem (by omega)]

/-- A new header is read back. -/
lemma read_write (hfits : h.Fits) : read (write mem p h) p = h := by
  obtain ⟨hmagic, hclass, huse, hcap, hfree, hnext⟩ := hfits
  rw [write, read_setNext hnext, read_setFreeList hfree, read_setReserved, read_setCapacity hcap,
    read_setInUse, read_setClassIndex hclass, read_setMagic hmagic, mod_eq_of_lt huse]

lemma next_lt : (read mem p).next < 2 ^ 64 := readLE_lt

lemma freeList_lt : (read mem p).freeList < 2 ^ 64 := readLE_lt

end SlabPageHeader

section

variable {mem mem' : Memory} {o v a : ℕ}

lemma linkIn_congr (h : ∀ a, o ≤ a → a < o + 8 → mem' a = mem a) : linkIn mem' o = linkIn mem o :=
  readLE_congr h

lemma setLink_of_not_mem (h : a < o ∨ o + 8 ≤ a) : setLink mem o v a = mem a := writeLE_of_not_mem h

lemma linkIn_setLink (hv : v < 2 ^ 64) : linkIn (setLink mem o v) o = v :=
  readLE_writeLE_of_lt (by norm_num; omega)

lemma linkIn_lt : linkIn mem o < 2 ^ 64 := readLE_lt

end

/-! ## The objects of a page -/

/-- Where the first object of a page starts. -/
def slotStart (c : ℕ) : ℕ := max 32 (classSize c)

/-- The number of objects of a page. -/
def slotCount (c : ℕ) : ℕ := (pageSize - slotStart c) / classSize c

/-- The objects of a page. -/
def slots (c p : ℕ) : List ℕ :=
  (List.range (slotCount c)).map fun i => p + slotStart c + i * classSize c

variable {c c' p p' o o' : ℕ} {next : ℕ} {mem : Memory}

@[simp] lemma length_slots : (slots c p).length = slotCount c := by
  simp [slots]

lemma pages_apart (hp : 4096 ∣ p) (hp' : 4096 ∣ p') (hne : p ≠ p') :
    p + 4096 ≤ p' ∨ p' + 4096 ≤ p := by
  omega

section

variable (hc : c < numClasses)
include hc

/-- The numbers of a class. -/
lemma class_facts :
    8 ≤ classSize c ∧ classSize c ∣ slotStart c ∧ classSize c ∣ 4096 ∧ 0 < slotCount c ∧
      slotCount c < 2 ^ 16 ∧ slotStart c + slotCount c * classSize c ≤ 4096 := by
  simp only [numClasses] at hc
  interval_cases c <;> decide

/-- An object is aligned to its size and lies behind the header in the page. -/
lemma slot_facts (hp : 4096 ∣ p) (ho : o ∈ slots c p) :
    classSize c ∣ o ∧ p + 32 ≤ o ∧ o + classSize c ≤ p + 4096 := by
  obtain ⟨-, hstart, hpage, -, -, hend⟩ := class_facts hc
  obtain ⟨i, hi, rfl⟩ := mem_map.mp ho
  have hi' : i < slotCount c := List.mem_range.mp hi
  refine ⟨?_, ?_, ?_⟩
  · exact dvd_add (dvd_add (hpage.trans hp) hstart) (Dvd.intro_left i rfl)
  · have : 32 ≤ slotStart c := le_max_left _ _
    omega
  · have hle : (i + 1) * classSize c ≤ slotCount c * classSize c := mul_le_mul_right _ hi'
    rw [add_mul] at hle
    omega

lemma nodup_slots : (slots c p).Nodup := by
  have hsize := (class_facts hc).1
  refine List.Nodup.map ?_ nodup_range
  intro i j hij
  simp only [add_left_cancel_iff] at hij
  exact eq_of_mul_eq_mul_right (by omega) hij

/-- Different objects of a page do not meet. -/
lemma slots_apart (hp : 4096 ∣ p) (ho : o ∈ slots c p) (ho' : o' ∈ slots c p)
    (hne : o ≠ o') : o + classSize c ≤ o' ∨ o' + classSize c ≤ o := by
  have h := (slot_facts hc hp ho).1
  have h' := (slot_facts hc hp ho').1
  rcases lt_or_gt_of_ne hne with hlt | hlt
  · exact .inl (DyadicBlock.add_le_of_dvd h h' hlt)
  · exact .inr (DyadicBlock.add_le_of_dvd h' h hlt)

/-- The page of an object is found by rounding down. -/
lemma alignDown_slot (hp : 4096 ∣ p) (ho : o ∈ slots c p) : alignDown o pageSize = p := by
  obtain ⟨-, hlo, hhi⟩ := slot_facts hc hp ho
  have hsize := (class_facts hc).1
  simp only [alignDown, pageSize]
  omega

end

/-- Chaining objects in front of a list. -/
lemma linkSlots_spec {start size n prev : ℕ} {tail : List ℕ} (hsize : 8 ≤ size)
    (hstart : 0 < start) (hbound : start + n * size ≤ 2 ^ 64) (hprev : prev < 2 ^ 64)
    (htail : ∀ d ∈ tail, start + n * size ≤ d) (hchain : Chain (linkIn mem) 0 prev tail) :
    Chain (linkIn (linkSlots start size n mem prev).1) 0 (linkSlots start size n mem prev).2
        ((List.range n).map (fun i => start + i * size) ++ tail) ∧
      (linkSlots start size n mem prev).2 < 2 ^ 64 ∧
      ∀ a, (a < start ∨ start + n * size ≤ a) → (linkSlots start size n mem prev).1 a = mem a := by
  induction n generalizing mem prev tail with
  | zero => exact ⟨hchain, hprev, fun _ _ => rfl⟩
  | succ n ih =>
    rw [add_mul, one_mul] at hbound htail
    have hslot : start + n * size < 2 ^ 64 := by omega
    -- the last object goes in front of the list
    have hcons : Chain (linkIn (setLink mem (start + n * size) prev)) 0 (start + n * size)
        ((start + n * size) :: tail) := by
      refine ⟨rfl, by omega, ?_⟩
      rw [linkIn_setLink hprev]
      refine hchain.congr fun d hd => linkIn_congr fun a ha ha' => setLink_of_not_mem ?_
      have := htail d hd
      omega
    obtain ⟨hnew, hlt, hout⟩ := ih (by omega) hslot (by
      intro d hd
      rcases mem_cons.mp hd with rfl | hd
      · exact le_rfl
      · have := htail d hd
        omega) hcons
    refine ⟨?_, hlt, fun a ha => ?_⟩
    · rw [range_succ, map_append, append_assoc]
      exact hnew
    · rw [add_mul, one_mul] at ha
      rw [linkSlots, hout a (by omega), setLink_of_not_mem (by omega)]

/-! ## One page -/

/-- Chaining the objects of a page. -/
lemma linkSlots_page (mem : Memory) (hc : c < numClasses) (hbound : p + 4096 ≤ 2 ^ 64) :
    Chain (linkIn (linkSlots (p + slotStart c) (classSize c) (slotCount c) mem 0).1) 0
        (linkSlots (p + slotStart c) (classSize c) (slotCount c) mem 0).2 (slots c p) ∧
      (linkSlots (p + slotStart c) (classSize c) (slotCount c) mem 0).2 < 2 ^ 64 ∧
      ∀ a, (a < p + 32 ∨ p + 4096 ≤ a) →
        (linkSlots (p + slotStart c) (classSize c) (slotCount c) mem 0).1 a = mem a := by
  obtain ⟨hsize, -, -, -, -, hend⟩ := class_facts hc
  have hstart : 32 ≤ slotStart c := le_max_left _ _
  have hnil : Chain (linkIn mem) 0 0 [] := rfl
  obtain ⟨hchain, hhead, hout⟩ := linkSlots_spec hsize (show 0 < p + slotStart c by omega)
    (n := slotCount c) (by omega) (by norm_num) (by simp) hnil
  rw [append_nil] at hchain
  exact ⟨hchain, hhead, fun a ha => hout a (by omega)⟩

/-- The memory after a slab page was set up: the objects are chained, and then the header is
written. -/
def slabInit (mem : Memory) (c p next : ℕ) : Memory :=
  SlabPageHeader.write (linkSlots (p + slotStart c) (classSize c) (slotCount c) mem 0).1 p
    ⟨slabPageMagic, c, 0, slotCount c,
      (linkSlots (p + slotStart c) (classSize c) (slotCount c) mem 0).2, next⟩

/-- Only the page is written. -/
lemma slabInit_of_not_mem {a : ℕ} (hc : c < numClasses) (hbound : p + 4096 ≤ 2 ^ 64)
    (ha : a < p ∨ p + 4096 ≤ a) : slabInit mem c p next a = mem a := by
  rw [slabInit, write_of_not_mem (by omega), (linkSlots_page mem hc hbound).2.2 a (by omega)]

/-- The header of a page that was set up. -/
lemma read_slabInit (mem : Memory) (hc : c < numClasses) (hbound : p + 4096 ≤ 2 ^ 64)
    (hnext : next < 2 ^ 64) : read (slabInit mem c p next) p = ⟨slabPageMagic, c, 0, slotCount c,
        (linkSlots (p + slotStart c) (classSize c) (slotCount c) mem 0).2, next⟩ := by
  have hcount := (class_facts hc).2.2.2.2.1
  refine read_write ⟨?_, ?_, Nat.two_pow_pos 16, hcount, (linkSlots_page mem hc hbound).2.1, hnext⟩
  · exact show slabPageMagic < 2 ^ 32 by decide
  · simp only [numClasses] at hc
    exact show c < 2 ^ 16 by omega

/-- A slab page of the class `c` at `p`, with the free objects `fr`; the objects in use are in `S`.
-/
structure PageOk (mem : Memory) (c p : ℕ) (fr : List ℕ) (S : Set (ℕ × ℕ)) : Prop where
  class_lt : c < numClasses
  aligned : 4096 ∣ p
  magic : (read mem p).magic = slabPageMagic
  classIndex : (read mem p).classIndex = c
  /-- The counter counts the objects that are not free. -/
  inUse : (read mem p).inUse + fr.length = slotCount c
  chain : Chain (linkIn mem) 0 (read mem p).freeList fr
  nodup : fr.Nodup
  free : ∀ o, o ∈ fr ↔ o ∈ slots c p ∧ (c, o) ∉ S

namespace PageOk

variable {mem mem' : Memory} {fr rest : List ℕ} {S S' : Set (ℕ × ℕ)}

section

variable (h : PageOk mem c p fr S)
include h

/-- Only the header and the links of free objects matter. -/
lemma congr (hhead : ∀ a, p ≤ a → a < p + 24 → mem' a = mem a)
    (hlink : ∀ o ∈ fr, ∀ a, o ≤ a → a < o + 8 → mem' a = mem a) : PageOk mem' c p fr S := by
  have hread := read_congr hhead
  refine ⟨h.class_lt, h.aligned, ?_, ?_, ?_, ?_, h.nodup, h.free⟩
  · rw [hread]
    exact h.magic
  · rw [hread]
    exact h.classIndex
  · rw [hread]
    exact h.inUse
  · rw [hread]
    exact h.chain.congr fun o ho => linkIn_congr (hlink o ho)

lemma free_facts (ho : o ∈ fr) : p + 32 ≤ o ∧ o + classSize c ≤ p + 4096 :=
  (slot_facts h.class_lt h.aligned ((h.free o).mp ho).1).2

/-- A change of another page does not matter. -/
lemma of_other (hp' : 4096 ∣ p') (hne : p ≠ p')
    (hmem : ∀ a, (a < p' ∨ p' + 4096 ≤ a) → mem' a = mem a) : PageOk mem' c p fr S := by
  have hapart := pages_apart h.aligned hp' hne
  refine h.congr (fun a ha ha' => hmem a (by omega)) fun o ho a ha ha' => hmem a ?_
  have hfacts := h.free_facts ho
  have hsize := (class_facts h.class_lt).1
  omega

/-- Only the objects of the page matter. -/
lemma change_used (hS : ∀ o ∈ slots c p, (c, o) ∈ S' ↔ (c, o) ∈ S) : PageOk mem c p fr S' := by
  refine ⟨h.class_lt, h.aligned, h.magic, h.classIndex, h.inUse, h.chain, h.nodup, fun o => ?_⟩
  rw [h.free]
  exact and_congr_right fun ho => not_congr (hS o ho).symm

end

/-- The first free object is taken. -/
lemma take (h : PageOk mem c p (o :: rest) S) (hread : read mem' p = { read mem p with
      freeList := linkIn mem o, inUse := ((read mem p).inUse + 1) % 2 ^ 16 })
    (hout : ∀ a, (a < p ∨ p + 24 ≤ a) → mem' a = mem a) :
    PageOk mem' c p rest (insert (c, o) S) := by
  have hcount := (class_facts h.class_lt).2.2.2.2.1
  have huse := h.inUse
  rw [length_cons] at huse
  obtain ⟨hhead, -, htail⟩ := h.chain
  obtain ⟨hfresh, hnodup⟩ := nodup_cons.mp h.nodup
  refine ⟨h.class_lt, h.aligned, ?_, ?_, ?_, ?_, hnodup, fun d => ?_⟩
  · rw [hread]
    exact h.magic
  · rw [hread]
    exact h.classIndex
  · rw [hread]
    simp only
    rw [mod_eq_of_lt (by omega)]
    omega
  · rw [hread]
    refine htail.congr fun d hd => linkIn_congr fun a ha ha' => hout a ?_
    have := h.free_facts (mem_cons_of_mem _ hd)
    omega
  · have hd := h.free d
    rw [mem_cons] at hd
    simp only [Set.mem_insert_iff, Prod.mk.injEq, true_and, not_or]
    constructor
    · intro hmem
      exact ⟨(hd.mp (.inr hmem)).1, fun heq => hfresh (heq ▸ hmem), (hd.mp (.inr hmem)).2⟩
    · rintro ⟨hslot, hne, hS⟩
      exact (hd.mpr ⟨hslot, hS⟩).resolve_left hne

/-- An object in use is put back. -/
lemma put (h : PageOk mem c p fr S) (ho : o ∈ slots c p) (hS : (c, o) ∈ S)
    (hread : read mem' p = { read mem p with
      freeList := o, inUse := ((read mem p).inUse + (2 ^ 16 - 1)) % 2 ^ 16 })
    (hlink : linkIn mem' o = (read mem p).freeList)
    (hout : ∀ a, (a < p ∨ p + 24 ≤ a) → (a < o ∨ o + 8 ≤ a) → mem' a = mem a) :
    PageOk mem' c p (o :: fr) (S \ {(c, o)}) := by
  obtain ⟨hsize, -, -, -, hcount, -⟩ := class_facts h.class_lt
  have hfresh : o ∉ fr := fun hmem => ((h.free o).mp hmem).2 hS
  obtain ⟨-, hlo, -⟩ := slot_facts h.class_lt h.aligned ho
  -- some object is in use, so that the counter is not zero
  have hpos : fr.length < slotCount c := by
    rw [← length_slots (c := c) (p := p)]
    refine lt_of_le_of_ne ?_ fun heq => ?_
    · exact (h.nodup.subperm fun d hd => ((h.free d).mp hd).1).length_le
    · have hperm := (h.nodup.subperm fun d hd => ((h.free d).mp hd).1).perm_of_length_le heq.ge
      exact hfresh (hperm.mem_iff.mpr ho)
  have huse := h.inUse
  refine ⟨h.class_lt, h.aligned, ?_, ?_, ?_, ?_, nodup_cons.mpr ⟨hfresh, h.nodup⟩, fun d => ?_⟩
  · rw [hread]
    exact h.magic
  · rw [hread]
    exact h.classIndex
  · rw [hread, length_cons]
    simp only
    omega
  · rw [hread]
    refine ⟨rfl, by omega, ?_⟩
    rw [hlink]
    refine h.chain.congr fun d hd => linkIn_congr fun a ha ha' => hout a ?_ ?_
    · have := h.free_facts hd
      omega
    · have := slots_apart h.class_lt h.aligned ((h.free d).mp hd).1 ho fun heq => hfresh (heq ▸ hd)
      omega
  · rw [mem_cons, h.free]
    simp only [mem_sdiff, mem_singleton_iff, Prod.mk.injEq, true_and, not_and, not_not]
    constructor
    · rintro (rfl | ⟨hslot, hd⟩)
      · exact ⟨ho, fun _ => rfl⟩
      · exact ⟨hslot, fun hmem => absurd hmem hd⟩
    · rintro ⟨hslot, himp⟩
      by_cases hmem : (c, d) ∈ S
      · exact .inl (himp hmem)
      · exact .inr ⟨hslot, hmem⟩

/-- A page that was set up has no objects in use. -/
lemma init (hc : c < numClasses) (hp : 4096 ∣ p) (hbound : p + 4096 ≤ 2 ^ 64)
    (hnext : next < 2 ^ 64) (hS : ∀ o ∈ slots c p, (c, o) ∉ S) :
    PageOk (slabInit mem c p next) c p (slots c p) S := by
  have hread := read_slabInit mem hc hbound hnext
  refine ⟨hc, hp, ?_, ?_, ?_, ?_, nodup_slots hc, fun o => ?_⟩
  · rw [hread]
  · rw [hread]
  · rw [hread, length_slots, zero_add]
  · rw [hread]
    refine (linkSlots_page mem hc hbound).1.congr fun o ho => linkIn_congr fun a ha _ =>
      write_of_not_mem ?_
    have := (slot_facts hc hp ho).2.1
    omega
  · exact ⟨fun ho => ⟨ho, hS o ho⟩, And.left⟩

/-- A page whose counter is zero has no objects in use. -/
lemma unused (h : PageOk mem c p fr S) (huse : (read mem p).inUse = 0) (ho : o ∈ slots c p) :
    (c, o) ∉ S := by
  have hlen := h.inUse
  rw [huse, zero_add, ← length_slots (c := c) (p := p)] at hlen
  have hperm := (h.nodup.subperm fun d hd => ((h.free d).mp hd).1).perm_of_length_le hlen.ge
  exact ((h.free o).mp (hperm.mem_iff.mpr ho)).2

end PageOk

/-! ## All pages -/

/-- The slab pages `K` with their classes; the page `p` has the free objects `O p`, and `S` are the
objects in use with their classes. -/
structure SlabPages (mem : Memory) (K : Set (ℕ × ℕ)) (O : ℕ → List ℕ) (S : Set (ℕ × ℕ)) : Prop where
  page : ∀ c p, (c, p) ∈ K → PageOk mem c p (O p) S
  /-- An object in use is an object of a page. -/
  used : ∀ c o, (c, o) ∈ S → ∃ p, (c, p) ∈ K ∧ o ∈ slots c p

namespace SlabPages

variable {mem mem' : Memory} {K S : Set (ℕ × ℕ)} {O : ℕ → List ℕ} {rest : List ℕ}

section

variable (h : SlabPages mem K O S)
include h

lemma class_unique (hp : (c, p) ∈ K) (hp' : (c', p) ∈ K) : c = c' :=
  (h.page c p hp).classIndex.symm.trans (h.page c' p hp').classIndex

/-- An object belongs to one page. -/
lemma slot_unique (hp : (c, p) ∈ K) (hp' : (c', p') ∈ K) (ho : o ∈ slots c p)
    (ho' : o ∈ slots c' p') : p = p' :=
  (alignDown_slot (h.page c p hp).class_lt (h.page c p hp).aligned ho).symm.trans
    (alignDown_slot (h.page c' p' hp').class_lt (h.page c' p' hp').aligned ho')

/-- Only the headers and the links of free objects matter. -/
lemma congr (hhead : ∀ c p, (c, p) ∈ K → ∀ a, p ≤ a → a < p + 24 → mem' a = mem a)
    (hlink : ∀ c p, (c, p) ∈ K → ∀ o ∈ O p, ∀ a, o ≤ a → a < o + 8 → mem' a = mem a) :
    SlabPages mem' K O S :=
  ⟨fun c p hp => (h.page c p hp).congr (hhead c p hp) (hlink c p hp), h.used⟩

/-- The links to the next pages do not matter. -/
lemma of_next (hmem : ∀ a, (∀ c p, (c, p) ∈ K → a < p + 24 ∨ p + 32 ≤ a) → mem' a = mem a) :
    SlabPages mem' K O S := by
  refine h.congr (fun c p hp a ha ha' => hmem a fun c' q hq => ?_)
    fun c p hp o ho a ha ha' => hmem a fun c' q hq => ?_
  · have hpal := (h.page c p hp).aligned
    have hqal := (h.page c' q hq).aligned
    omega
  · have hpage := h.page c p hp
    have hfacts := hpage.free_facts ho
    have hsize := (class_facts hpage.class_lt).1
    have hpal := hpage.aligned
    have hqal := (h.page c' q hq).aligned
    omega

/-- One page is changed, together with its objects in use. -/
lemma change {S' : Set (ℕ × ℕ)} {fr : List ℕ} (hp : (c, p) ∈ K)
    (hpage : PageOk mem' c p fr S') (hmem : ∀ a, (a < p ∨ p + 4096 ≤ a) → mem' a = mem a)
    (hS : ∀ c' o, ¬ (c' = c ∧ o ∈ slots c p) → ((c', o) ∈ S' ↔ (c', o) ∈ S)) :
    SlabPages mem' K (update O p fr) S' := by
  refine ⟨fun c' q hq => ?_, fun c' o ho => ?_⟩
  · by_cases hqp : q = p
    · subst hqp
      obtain rfl := h.class_unique hp hq
      rw [update_self]
      exact hpage
    · rw [update_of_ne hqp]
      refine ((h.page c' q hq).of_other (h.page c p hp).aligned hqp hmem).change_used fun o ho => ?_
      refine hS c' o fun hmine => hqp ?_
      exact h.slot_unique hq hp ho hmine.2
  · by_cases hmine : c' = c ∧ o ∈ slots c p
    · exact ⟨p, hmine.1 ▸ hp, hmine.1 ▸ hmine.2⟩
    · exact h.used c' o ((hS c' o hmine).mp ho)

/-- The first free object of a page is taken. -/
lemma take (hp : (c, p) ∈ K) (hO : O p = o :: rest) (hread : read mem' p = { read mem p with
      freeList := linkIn mem o, inUse := ((read mem p).inUse + 1) % 2 ^ 16 })
    (hout : ∀ a, (a < p ∨ p + 24 ≤ a) → mem' a = mem a) :
    SlabPages mem' K (update O p rest) (insert (c, o) S) ∧ (c, o) ∉ S ∧ o ∈ slots c p := by
  have hpage := h.page c p hp
  rw [hO] at hpage
  obtain ⟨hslot, hfresh⟩ := (hpage.free o).mp mem_cons_self
  refine ⟨h.change hp (hpage.take hread hout) (fun a ha => hout a (by omega)) fun c' d hd => ?_,
    hfresh, hslot⟩
  rw [Set.mem_insert_iff, or_iff_right]
  rintro heq
  rw [Prod.mk.injEq] at heq
  exact hd ⟨heq.1, heq.2 ▸ hslot⟩

/-- An object in use is put back to its page. -/
lemma put (hp : (c, p) ∈ K) (ho : o ∈ slots c p) (hS : (c, o) ∈ S)
    (hread : read mem' p = { read mem p with
      freeList := o, inUse := ((read mem p).inUse + (2 ^ 16 - 1)) % 2 ^ 16 })
    (hlink : linkIn mem' o = (read mem p).freeList)
    (hout : ∀ a, (a < p ∨ p + 24 ≤ a) → (a < o ∨ o + 8 ≤ a) → mem' a = mem a) :
    SlabPages mem' K (update O p (o :: O p)) (S \ {(c, o)}) := by
  have hpage := h.page c p hp
  have hfacts := slot_facts hpage.class_lt hpage.aligned ho
  have hsize := (class_facts hpage.class_lt).1
  refine h.change hp (hpage.put ho hS hread hlink hout) (fun a ha => hout a (by omega) (by omega))
    fun c' d hd => ?_
  rw [mem_sdiff, and_iff_left]
  rintro heq
  rw [mem_singleton_iff, Prod.mk.injEq] at heq
  exact hd ⟨heq.1, heq.2 ▸ ho⟩

/-- A page without objects in use is given away. -/
lemma remove (hp : (c, p) ∈ K) (huse : (read mem p).inUse = 0) :
    SlabPages mem (K \ {(c, p)}) O S := by
  refine ⟨fun c' q hq => h.page c' q hq.1, fun c' o ho => ?_⟩
  obtain ⟨q, hq, hslot⟩ := h.used c' o ho
  refine ⟨q, ⟨hq, fun heq => ?_⟩, hslot⟩
  rw [mem_singleton_iff, Prod.mk.injEq] at heq
  obtain ⟨rfl, rfl⟩ := heq
  exact (h.page c' q hp).unused huse hslot ho

/-- A page is added, all of its objects being free. -/
lemma add (hp : 4096 ∣ p) (hfresh : ∀ c', (c', p) ∉ K)
    (hpage : (∀ o ∈ slots c p, (c, o) ∉ S) → PageOk mem' c p (slots c p) S)
    (hclass : c < numClasses) (hmem : ∀ a, (a < p ∨ p + 4096 ≤ a) → mem' a = mem a) :
    SlabPages mem' (insert (c, p) K) (update O p (slots c p)) S := by
  have hne : ∀ c' q, (c', q) ∈ K → q ≠ p := fun c' q hq heq => hfresh c' (heq ▸ hq)
  refine ⟨?_, fun c' o ho => ?_⟩
  · rintro c' q (heq | hq)
    · rw [Prod.mk.injEq] at heq
      obtain ⟨rfl, rfl⟩ := heq
      rw [update_self]
      refine hpage fun o ho hS => ?_
      -- an object in use is on a page that was there before
      obtain ⟨q', hq', hslot⟩ := h.used c' o hS
      refine hne c' q' hq' ?_
      rw [← alignDown_slot hclass hp ho, alignDown_slot hclass (h.page c' q' hq').aligned hslot]
    · rw [update_of_ne (hne c' q hq)]
      exact (h.page c' q hq).of_other hp (hne c' q hq) hmem
  · obtain ⟨q, hq, hslot⟩ := h.used c' o ho
    exact ⟨q, Set.mem_insert_of_mem _ hq, hslot⟩

end

end SlabPages

end CabOS
