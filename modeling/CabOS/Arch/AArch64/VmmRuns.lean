import CabOS.Arch.AArch64.VmmSpec

/-!
# Runs of the page table code

From an all-zero root, pages are mapped and unmapped in any order, and between the calls the rest of
the kernel takes frames from the free list, gives frames back and writes to its own memory.  In
every state reached the tables translate every address as the reference map from pages to frames
does, and the tables themselves are in order (`reachable_refines`).
-/

namespace CabOS.AArch64

open Function List Nat BitVec PagingOptions Option

open TableTree

/-! ## Pages and paths -/

/-- The number of the page with the given indices. -/
def pageOf (q : Path) : ℕ :=
  q.foldl (fun (n : ℕ) (i : Fin ptePerPage) => n * ptePerPage + (i : ℕ)) 0

/-- An index is a digit of the address. -/
lemma index_val (vaddr : BitVec 64) (shift : ℕ) :
    (index vaddr shift : ℕ) = vaddr.toNat / 2 ^ shift % 512 := by
  have hmask : (0x1FF#64).toNat = 2 ^ 9 - 1 := by decide
  rw [index]
  simp only [toNat_and, hmask, and_two_pow_sub_one_eq_mod, toNat_ushiftRight, shiftRight_eq_div_pow]

/-- The indices of an address are those of its page. -/
lemma pageOf_pathOf {vaddr : BitVec 64} (h : vaddr.toNat < 2 ^ 48) :
    pageOf (pathOf vaddr) = vaddr.toNat / pageSize := by
  simp only [pageOf, pathOf, index0, index1, index2, index3, foldl_cons, foldl_nil, index_val,
    ptePerPage, pageSize]
  omega

/-- A page has one path. -/
lemma pageOf_injective {q q' : Path} (hq : q.length = 4) (hq' : q'.length = 4)
    (h : pageOf q = pageOf q') : q = q' := by
  obtain ⟨a, b, c, d, rfl⟩ : ∃ a b c d, q = [a, b, c, d] := length_eq_four.mp hq
  obtain ⟨a', b', c', d', rfl⟩ : ∃ a b c d, q' = [a, b, c, d] := length_eq_four.mp hq'
  simp only [pageOf, foldl_cons, foldl_nil, ptePerPage] at h
  have := a.isLt
  have := b.isLt
  have := c.isLt
  have := d.isLt
  have := a'.isLt
  have := b'.isLt
  have := c'.isLt
  have := d'.isLt
  simp only [List.cons.injEq, Fin.ext_iff, and_true]
  omega

/-- Every path of four indices is that of an address. -/
lemma exists_pathOf {q : Path} (hq : q.length = 4) : ∃ w :
    BitVec 64, w.toNat < 2 ^ 48 ∧ pathOf w = q := by
  obtain ⟨a, b, c, d, rfl⟩ : ∃ a b c d, q = [a, b, c, d] := length_eq_four.mp hq
  have ha : (a : ℕ) < 512 := a.isLt
  have hb : (b : ℕ) < 512 := b.isLt
  have hc : (c : ℕ) < 512 := c.isLt
  have hd : (d : ℕ) < 512 := d.isLt
  have hw : (BitVec.ofNat 64 ((((a : ℕ) * 512 + b) * 512 + c) * 512 * 4096 + d * 4096)).toNat =
      (((a : ℕ) * 512 + b) * 512 + c) * 512 * 4096 + d * 4096 := by
    rw [toNat_ofNat]
    exact mod_eq_of_lt (by omega)
  refine ⟨_, by rw [hw]; omega, ?_⟩
  simp only [pathOf, index0, index1, index2, index3, cons.injEq, Fin.ext_iff,
    index_val, hw, and_true]
  omega

/-- A page-aligned address below `2 ^ 48`. -/
def PageAligned (a : BitVec 64) : Prop := a.toNat % pageSize = 0 ∧ a.toNat < 2 ^ 48

variable {a p root v : BitVec 64} {H : Set Path}

/-- Such an address fits into an entry. -/
lemma PageAligned.and_mask (h : PageAligned a) : a &&& pteAddrMask = a := by
  have hmask : ∀ i < 64, pteAddrMask.getLsbD i = decide (12 ≤ i ∧ i < 48) := by decide
  refine eq_of_getLsbD_eq fun i hi => ?_
  rw [getLsbD_and, hmask i hi]
  by_cases hbits : 12 ≤ i ∧ i < 48
  · simp [hbits]
  · -- the other bits of the address are zero
    have hzero : a.getLsbD i = false := by
      rw [getLsbD]
      rcases lt_or_ge i 12 with hlow | hhigh
      · obtain ⟨k, hk⟩ := dvd_of_mod_eq_zero h.1
        have hpow : pageSize = 2 ^ 12 := by decide
        rw [hk, hpow, testBit_two_pow_mul]
        simp [hlow]
      · refine testBit_lt_two_pow (lt_of_lt_of_le h.2 ?_)
        exact Nat.pow_le_pow_right (by decide) (by omega)
    simp [hzero]

/-- A mask of `n` bits above the offset takes the offset and the bits above the mask away. -/
lemma toNat_and_pages (a : BitVec 64) {m : BitVec 64} {n : ℕ} (hm : m.toNat = (2 ^ n - 1) <<< 12) :
    (a &&& m).toNat = a.toNat % 2 ^ (12 + n) / pageSize * pageSize := by
  have hpow : pageSize = 2 ^ 12 := by decide
  refine eq_of_testBit_eq fun i => ?_
  rw [toNat_and, testBit_and, hm, hpow, testBit_shiftLeft, testBit_two_pow_sub_one,
    mul_comm, testBit_two_pow_mul, testBit_div_two_pow, testBit_mod_two_pow]
  by_cases hi : 12 ≤ i
  · have hsub : i - 12 + 12 = i := by omega
    have hlt : (i - 12 < n) = (i < 12 + n) := by
      rw [eq_iff_iff]
      omega
    simp [hi, hsub, hlt, Bool.and_comm]
  · simp [hi]

lemma toNat_and_mask (a : BitVec 64) :
    (a &&& pteAddrMask).toNat = a.toNat % 2 ^ 48 / pageSize * pageSize :=
  toNat_and_pages a (n := 36) (by decide)

lemma toNat_and_not_offset (a : BitVec 64) :
    (a &&& ~~~0xFFF#64).toNat = a.toNat / pageSize * pageSize := by
  rw [toNat_and_pages a (n := 52) (by decide), mod_eq_of_lt a.isLt]

/-- An address and its page have the same path. -/
lemma pathOf_and_not_offset (a : BitVec 64) : pathOf (a &&& ~~~0xFFF#64) = pathOf a := by
  simp only [pathOf, index0, index1, index2, index3, List.cons.injEq, Fin.ext_iff, index_val,
    toNat_and_not_offset, pageSize, and_true]
  omega

lemma pageAligned_and_mask (a : BitVec 64) : PageAligned (a &&& pteAddrMask) := by
  rw [PageAligned, toNat_and_mask]
  simp only [pageSize]
  omega

/-- The offset is added to the frame. -/
lemma PageAligned.or_offset (h : PageAligned p) (a : BitVec 64) :
    (p ||| (a &&& 0xFFF#64)).toNat = p.toNat + a.toNat % pageSize := by
  have hmask : (0xFFF#64).toNat = 2 ^ 12 - 1 := by decide
  obtain ⟨k, hk⟩ := dvd_of_mod_eq_zero h.1
  have hpow : pageSize = 2 ^ 12 := by decide
  rw [toNat_or, toNat_and, hmask, and_two_pow_sub_one_eq_mod, hk, hpow]
  exact (two_pow_add_eq_or_of_lt (mod_lt _ (by decide)) k).symm

/-- The frame of a physical address. -/
lemma PageAligned.or_offset_frame (h : PageAligned p) (a : BitVec 64) :
    (p ||| (a &&& 0xFFF#64)) &&& ~~~0xFFF#64 = p := by
  have hpage := h.1
  refine eq_of_toNat_eq ?_
  rw [toNat_and_not_offset, h.or_offset]
  simp only [pageSize] at *
  omega

/-- The place of a physical address in its frame. -/
lemma PageAligned.or_offset_mod (h : PageAligned p) (a : BitVec 64) :
    (p ||| (a &&& 0xFFF#64)).toNat % pageSize = a.toNat % pageSize := by
  have hpage := h.1
  rw [h.or_offset]
  simp only [pageSize] at *
  omega

/-- The frame of a page fits into an entry. -/
lemma TreeInv.pageAligned {g : BitVec 64} {s : Vmm} {ref : Path → Option (BitVec 64)}
    (h : TreeInv H root s.mem s.free ref) (href : ref (pathOf a) = some g) : PageAligned g := by
  rcases h.path_cases a with ⟨hnone, -⟩ | ⟨l1, l2, l3, -, -, -, -, -, -, -, hnext⟩
  · cases hnone.symm.trans href
  · obtain ⟨-, rfl⟩ := next_eq_some.mp (hnext.symm.trans href)
    exact pageAligned_and_mask _

/-! ## Runs -/

/-- The page-aligned frames below `2 ^ 48` that the allocator can hand out; none is listed twice and
none is a table of the address space. -/
structure FramesOk (space : BitVec 64) (s : Vmm) : Prop where
  nodup : s.free.Nodup
  aligned : ∀ f ∈ s.free, PageAligned f
  unreachable : ∀ q t, q.length ≤ 3 → walk next s.mem (rootOf space) q = some t → t ∉ s.free

/-- The states that calls lead to, with the reference map from pages to frames. -/
inductive Reachable (space : BitVec 64) : Vmm → (ℕ → Option (BitVec 64)) → Prop
  /-- The root is all zero. -/
  | start {s : Vmm} (hroot : ∀ i, s.mem (rootOf space) i = 0) (hframes : FramesOk space s) :
    Reachable space s fun _ => none
  /-- A page is mapped; the allocator had the frames that were needed. -/
  | vmap {s s' : Vmm} {pages : ℕ → Option (BitVec 64)} (hs : Reachable space s pages)
      {v p : BitVec 64} {options : PagingOptions} (hv : PageAligned v) (hp : PageAligned p)
      (hpresent : hasFlags options PagingOptions.present = true)
      (e : vmap space v p options s = .ok () s') :
    Reachable space s' (update pages (v.toNat / pageSize) (some p))
  /-- A page is unmapped. -/
  | vunmap {s s' : Vmm} {pages : ℕ → Option (BitVec 64)} (hs : Reachable space s pages)
      {v : BitVec 64} (hv : PageAligned v) {r : Option (BitVec 64)}
      (e : vunmapNoDealloc space v s = .ok r s') :
    Reachable space s' (update pages (v.toNat / pageSize) none)
  /-- Others take frames, give frames back and write, but not to the tables. -/
  | other {s s' : Vmm} {pages : ℕ → Option (BitVec 64)} (hs : Reachable space s pages)
      (hmem : ∀ q t, q.length ≤ 3 → walk next s.mem (rootOf space) q = some t →
        ∀ i, s'.mem t i = s.mem t i) (hframes : FramesOk space s') :
    Reachable space s' pages

/-- The invariant of a run. -/
structure RunInv (space : BitVec 64) (s : Vmm) (pages : ℕ → Option (BitVec 64)) : Prop where
  tree : TreeInv ∅ (rootOf space) s.mem s.free fun q => pages (pageOf q)
  pool : PoolOk s.free
  aligned : ∀ n p, pages n = some p → PageAligned p

variable {free : List (BitVec 64)}

/-- The reference map matters on paths of pages only. -/
lemma TreeInv.congr_ref {mem : TableMem} {ref ref' : Path → Option (BitVec 64)}
    (h : TreeInv H root mem free ref)
    (href : ∀ q, q.length = 4 → ref' q = ref q) : TreeInv H root mem free ref' where
  distinct := h.distinct
  unfree := h.unfree
  entries := h.entries
  leaves p t i hp ht := by
    rw [href _ (by simp [hp])]
    exact h.leaves p t i hp ht
  unmapped p i hp ht := by
    rw [href _ (by simp [hp])]
    exact h.unmapped p i hp ht
  nonempty := h.nonempty

/-- Changing the reference map at a page changes it at the path of the page. -/
lemma update_pageOf {pages : ℕ → Option (BitVec 64)} (hv : PageAligned v)
    (x : Option (BitVec 64)) {q : Path} (hq : q.length = 4) :
    update pages (v.toNat / pageSize) x (pageOf q) = update (fun q => pages (pageOf q))
      (pathOf v) x q := by
  by_cases hqv : q = pathOf v
  · rw [hqv, pageOf_pathOf hv.2, update_self, update_self]
  · rw [update_of_ne hqv, update_of_ne]
    intro heq
    rw [← pageOf_pathOf hv.2] at heq
    exact hqv (pageOf_injective hq rfl heq)

variable {space : BitVec 64} {s : Vmm} {pages : ℕ → Option (BitVec 64)}

/-- The frames of the reference map stay aligned when an aligned one is entered or one is removed.
-/
lemma aligned_update (h : ∀ n f, pages n = some f → PageAligned f) {x : Option (BitVec 64)}
    (hx : ∀ f, x = some f → PageAligned f) (m : ℕ) :
    ∀ n f, update pages m x n = some f → PageAligned f := by
  intro n f hn
  by_cases hnm : n = m
  · rw [hnm, update_self] at hn
    exact hx f hn
  · rw [update_of_ne hnm] at hn
    exact h n f hn

/-- A root of zeros has no tables below it and maps no page. -/
lemma runInv_start (hroot : ∀ i, s.mem (rootOf space) i = 0) (hframes : FramesOk space s) :
    RunInv space s fun _ => none :=
  ⟨treeInv_zero hroot (hframes.unreachable [] _ (by simp) rfl),
    ⟨hframes.nodup, fun f hf => (hframes.aligned f hf).and_mask⟩, fun n p hp => by cases hp⟩

/-- Mapping a page keeps the invariant, or there are not enough frames. -/
lemma RunInv.vmap (h : RunInv space s pages) {options : PagingOptions} (hv : PageAligned v)
    (hp : PageAligned p)
    (hpresent : hasFlags options present) :
    (s.free.length < 3 ∧ ∃ s', vmap space v p options s = .error .waiting s') ∨
    ∃ s', vmap space v p options s = .ok () s' ∧
    RunInv space s' (update pages (v.toNat / pageSize) (some p)) := by
  rcases vmap_present h.tree h.pool v p hpresent with hshort | ⟨s', e, htree, hpool, -⟩
  · exact .inl hshort
  · rw [hp.and_mask] at htree
    refine .inr ⟨s', e, htree.congr_ref fun q hq => update_pageOf hv _ hq, hpool,
      aligned_update h.aligned ?_ _⟩
    rintro f ⟨⟩
    exact hp

/-- Unmapping a page returns its frame, keeps the invariant and gives back the tables that have
become empty. -/
lemma RunInv.vunmap (h : RunInv space s pages) (hv : PageAligned v) :
    ∃ s', vunmapNoDealloc space v s = .ok (pages (v.toNat / pageSize)) s' ∧
      RunInv space s' (update pages (v.toNat / pageSize) none) ∧
      Pruned (rootOf space) s s' := by
  obtain ⟨s', e, htree, hpool, hpruned, -⟩ := vunmapNoDealloc_spec h.tree h.pool v
  rw [pageOf_pathOf hv.2] at e
  refine ⟨s', e, ⟨htree.congr_ref fun q hq => update_pageOf hv _ hq, hpool,
    aligned_update h.aligned ?_ _⟩, hpruned⟩
  rintro f ⟨⟩

/-- Every state that is reached satisfies the invariant. -/
lemma Reachable.inv (hs : Reachable space s pages) : RunInv space s pages := by
  induction hs with
  | start hroot hframes => exact runInv_start hroot hframes
  | vmap _ hv hp hpresent e ih =>
    rcases ih.vmap hv hp hpresent with ⟨-, s', e'⟩ | ⟨s', e', h'⟩
    · cases e.symm.trans e'
    · cases e.symm.trans e'
      exact h'
  | vunmap _ hv e ih =>
    obtain ⟨s', e', h', -⟩ := ih.vunmap hv
    rw [e] at e'
    cases e'
    exact h'
  | @other s s' pages _ hmem hframes ih =>
    have hwalk : ∀ q : Path, q.length ≤ 3 →
      walk next s'.mem (rootOf space) q = walk next s.mem (rootOf space) q :=
      fun q hq => walk_congr_reached (n := 3) hmem (by omega)
    refine ⟨ih.tree.congr hmem fun q t hq ht => ?_,
      ⟨hframes.nodup, fun f hf => (hframes.aligned f hf).and_mask⟩, ih.aligned⟩
    exact hframes.unreachable q t hq ((hwalk q hq).trans ht)

/-- In every reachable state the tables refine the reference map: addresses are translated by it,
mapping a page succeeds, unmapping one returns what it was mapped to and gives a table back exactly
when no page below it is mapped any more; and the tables are different, not on the free list and,
except the root, not empty. -/
theorem reachable_refines (hs : Reachable space s pages) : (∀ a : BitVec 64, a.toNat < 2 ^ 48 →
      (getPhysAddr s.mem a space).map BitVec.toNat =
        (pages (a.toNat / pageSize)).map fun p => p.toNat + a.toNat % pageSize) ∧
    (∀ v p options, PageAligned v → PageAligned p →
      hasFlags options PagingOptions.present = true → 3 ≤ s.free.length →
      ∃ s', vmap space v p options s = .ok () s') ∧
    (∀ v, PageAligned v → ∃ s', vunmapNoDealloc space v s = .ok (pages (v.toNat / pageSize)) s' ∧
      (∀ f ∈ s.free, f ∈ s'.free) ∧
      (∀ f ∈ s'.free, f ∈ s.free ∨ ∃ q, q.length ≤ 3 ∧ walk next s.mem (rootOf space) q = some f) ∧
      ∀ q t, q.length ≤ 3 → q ≠ [] → walk next s.mem (rootOf space) q = some t →
        (t ∈ s'.free ↔ ∀ w : BitVec 64, w.toNat < 2 ^ 48 → q <+: pathOf w →
          update pages (v.toNat / pageSize) none (w.toNat / pageSize) = none)) ∧
    (∀ q q' t, q.length ≤ 3 → q'.length ≤ 3 → walk next s.mem (rootOf space) q = some t →
      walk next s.mem (rootOf space) q' = some t → q = q') ∧
    (∀ q t, q.length ≤ 3 → walk next s.mem (rootOf space) q = some t → t ∉ s.free) ∧
    ∀ q t, q.length ≤ 3 → q ≠ [] → walk next s.mem (rootOf space) q = some t →
    ∃ i, s.mem t i &&& 0b11 ≠ 0 := by
  have h := hs.inv
  refine ⟨?_, ?_, ?_, h.tree.distinct, h.tree.unfree, ?_⟩
  · intro a ha
    rw [getPhysAddr_eq h.tree, pageOf_pathOf ha, Option.map_map]
    cases hp : pages (a.toNat / pageSize) with
    | none => rfl
    | some p =>
      rw [map_some, map_some]
      exact congrArg some ((h.aligned _ p hp).or_offset a)
  · intro v p options hv hp hpresent hlen
    rcases h.vmap hv hp hpresent with ⟨hshort, -⟩ | ⟨s', e, -⟩
    · omega
    · exact ⟨s', e⟩
  · intro v hv
    obtain ⟨s', e, h', hpruned⟩ := h.vunmap hv
    refine ⟨s', e, hpruned.free_sub, hpruned.free_new, fun q t hq hne ht => ?_⟩
    rw [hpruned.mem_free_iff h'.tree hq hne ht]
    constructor
    · intro hnone w hw hpre
      rw [← pageOf_pathOf hw]
      exact hnone (pathOf w) rfl hpre
    · intro hnone q' hq' hpre
      obtain ⟨w, hw, rfl⟩ := exists_pathOf hq'
      have := hnone w hw hpre
      rwa [← pageOf_pathOf hw] at this
  · intro q t hq hne ht
    exact h.tree.nonempty q t hq hne (Set.notMem_empty q) ht

/-- Memory of zeros with aligned free frames is a possible start. -/
lemma reachable_zero (hnodup : free.Nodup) (haligned : ∀ f ∈ free, PageAligned f)
    (hroot : rootOf space ∉ free) :
    Reachable space ⟨fun _ _ => 0, free⟩ fun _ => none := by
  refine .start (fun _ => rfl) ⟨hnodup, haligned, ?_⟩
  intro q t _ ht
  cases q with
  | nil =>
    cases ht
    exact hroot
  | cons i q =>
    rw [walk_cons, next_zero] at ht
    cases ht

/-- Memory of zeros with eight free frames. -/
def eightFrames : Vmm :=
  ⟨fun _ _ => 0, [0x1000, 0x2000, 0x3000, 0x4000, 0x5000, 0x6000, 0x7000, 0x8000]⟩

/-- The frames can be handed out. -/
lemma poolOk_eightFrames : PoolOk eightFrames.free := by
  refine ⟨by decide, ?_⟩
  simp only [eightFrames, forall_mem_cons]
  refine ⟨?_, ?_, ?_, ?_, ?_, ?_, ?_, ?_, by simp⟩ <;> decide

/-- The memory after two neighbouring pages have been mapped. -/
def twoPages : Vmm :=
  finalState (vmap 0x10000#64 0x6000#64 0x21000#64 present)
    (finalState (vmap 0x10000#64 0x5000#64 0x20000#64 present) eightFrames)

/-- The two pages are reached from blank memory. -/
lemma reachable_twoPages : Reachable 0x10000#64 twoPages
    (update (update (fun _ => none) 5 (some 0x20000#64)) 6 (some 0x21000#64)) := by
  have hstart : Reachable 0x10000#64 eightFrames fun _ => none := by
    refine reachable_zero (by decide) ?_ (by decide)
    simp only [forall_mem_cons]
    refine ⟨?_, ?_, ?_, ?_, ?_, ?_, ?_, ?_, by simp⟩ <;> exact ⟨by decide, by decide⟩
  have e₁ : vmap 0x10000#64 0x5000#64 0x20000#64 present eightFrames = .ok () _ :=
    exec_of_returnedValue (by decide +kernel)
  have e₂ : vmap 0x10000#64 0x6000#64 0x21000#64 present _ = .ok () twoPages :=
    exec_of_returnedValue (by decide +kernel)
  have hone := Reachable.vmap hstart ⟨by decide, by decide⟩ ⟨by decide, by decide⟩ (by decide) e₁
  exact .vmap hone ⟨by decide, by decide⟩ ⟨by decide, by decide⟩ (by decide) e₂

/-- One of the pages is unmapped.  Its frame is returned and its addresses are not translated any
more; those of the other page still are. -/
theorem reachable_refines_blank :
    ∃ s', vunmapNoDealloc 0x10000#64 0x5000#64 twoPages = .ok (some 0x20000#64) s' ∧
    (getPhysAddr s'.mem 0x5123#64 0x10000#64).map BitVec.toNat = none ∧
    (getPhysAddr s'.mem 0x6123#64 0x10000#64).map BitVec.toNat = some 0x21123 := by
  obtain ⟨s', e, -⟩ := (reachable_refines reachable_twoPages).2.2.1 0x5000#64 ⟨by decide, by decide⟩
  have hs' : Reachable 0x10000#64 s' _ := .vunmap reachable_twoPages ⟨by decide, by decide⟩ e
  have htranslate := (reachable_refines hs').1
  refine ⟨s', e, ?_, ?_⟩
  · rw [htranslate 0x5123#64 (by decide)]
    rfl
  · rw [htranslate 0x6123#64 (by decide)]
    rfl

/-- A `vmap` that waits for a frame: fewer than three were free, and every address is translated as
before. -/
theorem vmap_waits {s' : Vmm} {options : PagingOptions} {err : FrameFault}
    (hs : Reachable space s pages)
    (hv : PageAligned v) (hp : PageAligned p) (hpresent : hasFlags options present)
    (e : vmap space v p options s = .error err s') :
    s.free.length < 3 ∧ ∀ a, getPhysAddr s'.mem a space = getPhysAddr s.mem a space := by
  have h := hs.inv
  refine ⟨?_, fun a => ?_⟩
  · rcases h.vmap hv hp hpresent with ⟨hshort, -⟩ | ⟨t, ht, -⟩
    · exact hshort
    · cases e.symm.trans ht
  · rcases vmap_cases (h.tree.mono (Set.subset_univ _)) h.pool v p options with
      ⟨t, ht, htree, -⟩ | ⟨t, ht, -⟩
    · cases e.symm.trans ht
      rw [getPhysAddr_eq htree, getPhysAddr_eq h.tree]
    · cases e.symm.trans ht

/-- One frame is free, which becomes a table. -/
theorem vmap_waits_one_frame :
    ∃ s', vmap 0x10000#64 0x5000#64 0x7000#64 present ⟨fun _ _ => 0, [0x1000#64]⟩ =
      .error .waiting s' ∧ getPhysAddr s'.mem 0x5123#64 0x10000#64 = none := by
  have hs : Reachable 0x10000#64 ⟨fun _ _ => 0, [0x1000#64]⟩ fun _ => none :=
    reachable_zero (by decide) (by simp [PageAligned, pageSize]) (by decide)
  have hpresent : hasFlags present present := by decide
  exact ⟨_, rfl, (vmap_waits (v := 0x5000#64) (p :=
    0x7000#64) hs ⟨by decide, by decide⟩ ⟨by decide, by decide⟩
    hpresent rfl).2 _⟩

end CabOS.AArch64
