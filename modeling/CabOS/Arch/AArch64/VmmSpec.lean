import CabOS.Arch.AArch64.VmmTree

/-!
# What the page table operations do to the tree

`vmap` enters a page into the reference map, `vunmapInternal` returns what the map has and removes
it, and `getPhysAddr` looks it up.  The tables that an unmapping gives back are those that have
become empty (`Pruned`).
-/

namespace CabOS.AArch64

open Function List Option Set

open TableTree

variable {H : Set Path} {root t u f : BitVec 64} {mem : TableMem} {free : List (BitVec 64)}
  {ref : Path → Option (BitVec 64)} {p q : Path} {i : Fin ptePerPage} {s s' s'' :
    Vmm} {e space : BitVec 64}
  {options : PagingOptions} {n : ℕ}

/-- The free frames are different page-aligned addresses below `2 ^ 48`. -/
structure PoolOk (free : List (BitVec 64)) : Prop where
  nodup : free.Nodup
  aligned : ∀ f ∈ free, f &&& pteAddrMask = f

/-- An address that fits into an entry is aligned. -/
lemma and_offset_of_mask (hf : f &&& pteAddrMask = f) : f &&& 0xFFF#64 = 0 := by
  have hmask : pteAddrMask &&& 0xFFF#64 = 0 := by decide
  rw [← hf, BitVec.and_assoc, hmask]
  exact BitVec.and_zero

/-- The frame allocator hands out the first free frame. -/
lemma frameAlloc_eq (hpool : PoolOk s.free) (hs : s.free = f :: free) :
    frameAlloc s = .ok f { s with free := free } := by
  have hf : f &&& 0xFFF#64 = 0 := and_offset_of_mask (hpool.aligned f (by simp [hs]))
  have hne : ¬ f &&& 0xFFF#64 ≠ 0 := not_not.mpr hf
  simp only [frameAlloc, exec_bind, exec_get, hs, exec_ite, if_neg hne, exec_pure, exec_set]

/-- The frame allocator takes an aligned frame back. -/
lemma frameDealloc_eq (hf : f &&& pteAddrMask = f) (s : Vmm) :
    frameDealloc f s = .ok () ⟨write s.mem f 0 (s.free.headD (BitVec.allOnes 64)),
      f :: s.free⟩ := by
  have hne : ¬ f &&& 0xFFF#64 ≠ 0 := not_not.mpr (and_offset_of_mask hf)
  simp only [frameDealloc, if_neg hne, exec_modify]

/-- A table other than the root has an address that fits into an entry. -/
lemma mask_of_walk (ht : walk next mem root (p ++ [i]) = some t) : t &&& pteAddrMask = t := by
  rw [walk_append] at ht
  cases hp : walk next mem root p with
  | none => simp [hp] at ht
  | some u =>
    rw [hp, bind_some, walk_cons] at ht
    cases he : next (mem u i) with
    | none => simp [he] at ht
    | some v =>
      rw [he] at ht
      cases ht
      obtain ⟨-, rfl⟩ := next_eq_some.mp he
      exact mask_mask _

/-- Between `s` and `s'` only tables below `root` and free frames were written to, and exchanged. -/
structure Confined (root : BitVec 64) (s s' : Vmm) : Prop where
  mem : ∀ t, t ∉ s.free → (∀ q, q.length ≤ 3 → walk next s.mem root q ≠ some t) →
    ∀ i, s'.mem t i = s.mem t i
  free : ∀ f ∈ s'.free, f ∈ s.free ∨ ∃ q, q.length ≤ 3 ∧ walk next s.mem root q = some f
  tables : ∀ q t, q.length ≤ 3 → walk next s'.mem root q = some t →
    t ∈ s.free ∨ ∃ q, q.length ≤ 3 ∧ walk next s.mem root q = some t

/-- The frame is neither a table below `root` nor free. -/
structure SpareFrame (root : BitVec 64) (s : Vmm) (f : BitVec 64) : Prop where
  unfree : f ∉ s.free
  not_table : ∀ q, q.length ≤ 3 → walk next s.mem root q ≠ some f

namespace Confined

lemma refl (root : BitVec 64) (s : Vmm) : Confined root s s :=
  ⟨fun _ _ _ _ => rfl, fun _ hf => .inl hf, fun q _ hq ht => .inr ⟨q, hq, ht⟩⟩

/-- Two changes after each other. -/
lemma trans (h : Confined root s s') (h' : Confined root s' s'') : Confined root s s'' where
  mem t hfree hnot i := by
    have hfree' : t ∉ s'.free :=
      fun hmem => (h.free t hmem).elim hfree fun ⟨q, hq, hw⟩ => hnot q hq hw
    have hnot' : ∀ q, q.length ≤ 3 → walk next s'.mem root q ≠ some t := fun q hq hw =>
      (h.tables q t hq hw).elim hfree fun ⟨q, hq, hw⟩ => hnot q hq hw
    rw [h'.mem t hfree' hnot' i, h.mem t hfree hnot i]
  free f hf := by
    rcases h'.free f hf with hf' | ⟨q, hq, hw⟩
    · exact h.free f hf'
    · exact h.tables q f hq hw
  tables q t hq ht := by
    rcases h'.tables q t hq ht with hf' | ⟨q, hq, hw⟩
    · exact h.free t hf'
    · exact h.tables q t hq hw

/-- An entry of a table is written, and the tree stays as it is. -/
lemma write_entry (hp : p.length ≤ 3) (ht : walk next s.mem root p = some t)
    (hwalk : ∀ q, q.length ≤ 3 → walk next (write s.mem t i e) root q = walk next s.mem root q) :
    Confined root s ⟨write s.mem t i e, s.free⟩ where
  mem _ _ hnot _ := write_of_ne (.inl fun heq => hnot p hp (heq ▸ ht))
  free _ hf := .inl hf
  tables q _ hq hv := .inr ⟨q, hq, hwalk q hq ▸ hv⟩

/-- Frames that are neither tables nor free stay so and keep what they hold. -/
lemma spare (h : Confined root s s') (hf : SpareFrame root s f) :
    SpareFrame root s' f ∧ s'.mem f = s.mem f := by
  refine ⟨⟨fun hfree => ?_, fun q hq ht => ?_⟩, funext (h.mem f hf.unfree hf.not_table)⟩
  · rcases h.free f hfree with hold | ⟨q, hq, ht⟩
    · exact hf.unfree hold
    · exact hf.not_table q hq ht
  · rcases h.tables q f hq ht with hold | ⟨q', hq', ht'⟩
    · exact hf.unfree hold
    · exact hf.not_table q' hq' ht'

end Confined

/-! ## Mapping -/

section

variable (h : TreeInv (insert p H) root s.mem s.free ref)
include h

/-- One level of a mapping: the table at `p ++ [i]` exists afterwards, and it may be empty instead
of the one at `p`; or there is no frame for it. -/
lemma ensureNextTable_cases (hpool : PoolOk s.free)
    (hp : p.length ≤ 2) (ht : walk next s.mem root p = some t) (i : Fin ptePerPage) :
    (s.free = [] ∧ ensureNextTable t i s = .error .waiting s) ∨
      ∃ u s', ensureNextTable t i s = .ok u s' ∧
      TreeInv (insert (p ++ [i]) H) root s'.mem s'.free ref ∧
        PoolOk s'.free ∧ walk next s'.mem root (p ++ [i]) = some u ∧
        s.free.length ≤ s'.free.length + 1 ∧ Confined root s s' := by
  rcases h.entries p t i hp ht with hinvalid | hvalid
  · cases hs : s.free with
    | nil =>
      refine .inl ⟨rfl, ?_⟩
      simp only [ensureNextTable, frameAlloc, exec_bind, exec_get, exec_ite, if_pos hinvalid,
        hs, exec_throw]
    | cons f free =>
      refine .inr ?_
      have hf : f &&& pteAddrMask = f := hpool.aligned f (by simp [hs])
      have hnd := hpool.nodup
      rw [hs, nodup_cons] at hnd
      have hfresh : ∀ q, q.length ≤ 3 → walk next s.mem root q ≠ some f := by
        intro q hq hqf
        exact h.unfree q f hq hqf (by simp [hs])
      have h' : TreeInv (insert p H) root s.mem free ref := by
        refine h.congr (fun _ _ _ _ _ => rfl) fun q u hq hu hmem => ?_
        exact h.unfree q u hq hu (by simp [hs, hmem])
      obtain ⟨hattach, hwalk⟩ := h'.attach hp ht hinvalid hf hnd.1 hfresh
      have hH : insert (p ++ [i]) (insert p H \ {p}) ⊆ insert (p ++ [i]) H := by
        refine insert_subset_insert fun q hq => ?_
        exact hq.1.resolve_left hq.2
      refine ⟨f, ⟨write (fill s.mem f 0) t i ((f &&& pteAddrMask) ||| 0b11), free⟩, ?_,
        hattach.mono hH,
        ⟨hnd.2, fun g hg => hpool.aligned g (by simp [hs, hg])⟩, ?_, by simp, ?_⟩
      · have hentry : ((f &&& pteAddrMask) ||| 0b11) &&& pteAddrMask = f := by
          rw [entry_and_mask (by decide), hf]
        simp only [ensureNextTable, exec_bind, exec_get, exec_ite, if_pos hinvalid,
          frameAlloc_eq hpool hs, zeroTable, writeEntry, exec_modify, exec_pure, write_self, hentry]
      · rw [hwalk _ (by simp; omega), if_pos rfl]
      · refine ⟨fun v hvfree hnot j => ?_, fun g hg => .inl (by simp [hs, hg]), fun q v hq hv => ?_⟩
        · have hvt : v ≠ t := fun heq => hnot p (by omega) (heq ▸ ht)
          have hvf : v ≠ f := fun heq => hvfree (by simp [hs, heq])
          exact (write_of_ne (.inl hvt)).trans (fill_of_ne hvf)
        · rw [hwalk q hq] at hv
          split_ifs at hv with e
          · cases hv
            exact .inl (by simp [hs])
          · exact .inr ⟨q, hq, hv⟩
  · have hne : ¬ s.mem t i &&& 0b11 = 0 := by
      rw [hvalid]
      decide
    refine .inr ⟨s.mem t i &&& pteAddrMask, s, ?_, ?_, hpool, ?_, by omega, Confined.refl root s⟩
    · simp only [ensureNextTable, exec_bind, exec_get, exec_ite, if_neg hne, exec_pure]
    · -- the table has a valid entry, so no exception is needed
      refine h.restrict fun q u hq _ hqH hqp hu => ?_
      obtain rfl : q = p := hqp.resolve_right fun hmem => hqH (mem_insert_of_mem _ hmem)
      rw [ht] at hu
      cases hu
      exact ⟨i, hne⟩
    · rw [walk_concat ht]
      exact next_eq_some.mpr ⟨hvalid, rfl⟩

end

/-- The indices of an address. -/
def pathOf (vaddr : BitVec 64) : Path := [index0 vaddr, index1 vaddr, index2 vaddr, index3 vaddr]

/-- The attributes lie outside the address bits. -/
lemma attributes_and_mask (options : PagingOptions) :
    createAarch64Attributes options &&& pteAddrMask = 0 := by
  unfold createAarch64Attributes
  split_ifs <;> decide

/-- The attributes of a present page make an entry valid. -/
lemma attributes_and_flags (h : hasFlags options PagingOptions.present) :
    createAarch64Attributes options &&& 0b11 = 0b11 := by
  unfold createAarch64Attributes
  simp only [h, if_true]
  split_ifs <;> decide

/-- The entry of a present page leads to the page. -/
lemma next_entry (h : hasFlags options PagingOptions.present) (paddr : BitVec 64) :
    next ((paddr &&& pteAddrMask) ||| createAarch64Attributes options) =
      some (paddr &&& pteAddrMask) := by
  rw [next_eq_some, entry_and_flags, attributes_and_flags h,
    entry_and_mask (attributes_and_mask options)]
  exact ⟨rfl, rfl⟩

/-- The flags of the attributes are those of a page or of an invalid entry. -/
lemma attributes_flags (options : PagingOptions) :
    createAarch64Attributes options &&& 0b11 = 0 ∨
    createAarch64Attributes options &&& 0b11 = 0b11 := by
  unfold createAarch64Attributes
  split_ifs <;> decide

section

variable (h : TreeInv univ (rootOf space) s.mem s.free ref)
include h

/-- What mapping a page can do: there is no frame for a table, and no page has changed, or the page
is entered.  Both are confined to the tree. -/
lemma vmap_cases (hpool : PoolOk s.free) (vaddr paddr : BitVec 64) (options : PagingOptions) :
    (∃ s', vmap space vaddr paddr options s = .error .waiting s' ∧
      TreeInv univ (rootOf space) s'.mem s'.free ref ∧ PoolOk s'.free ∧
      Confined (rootOf space) s s') ∨
    (∃ s', vmap space vaddr paddr options s = .ok () s' ∧
      TreeInv univ (rootOf space) s'.mem s'.free (update ref (pathOf vaddr)
        (next ((paddr &&& pteAddrMask) ||| createAarch64Attributes options))) ∧
      PoolOk s'.free ∧ Confined (rootOf space) s s') := by
  have h0 := h.mono (subset_insert [] univ)
  rcases ensureNextTable_cases h0 hpool (by simp) walk_nil (index0 vaddr) with
    ⟨-, e1⟩ | ⟨l1, s1, e1, h1, hpool1, hw1, -, hcon1⟩
  · refine .inl ⟨s, ?_, h, hpool, Confined.refl _ _⟩
    simp [vmap, e1]
  rcases ensureNextTable_cases h1 hpool1 (by simp) hw1 (index1 vaddr) with
    ⟨-, e2⟩ | ⟨l2, s2, e2, h2, hpool2, hw2, -, hcon2⟩
  · refine .inl ⟨s1, ?_, h1.mono (subset_univ _), hpool1, hcon1⟩
    simp [vmap, e1, e2]
  rcases ensureNextTable_cases h2 hpool2 (by simp) hw2 (index2 vaddr) with
    ⟨-, e3⟩ | ⟨l3, s3, e3, h3, hpool3, hw3, -, hcon3⟩
  · refine .inl ⟨s2, ?_, h2.mono (subset_univ _), hpool2, hcon1.trans hcon2⟩
    simp [vmap, e1, e2, e3]
  have hflags : ((paddr &&& pteAddrMask) ||| createAarch64Attributes options) &&& 0b11 = 0 ∨
      ((paddr &&& pteAddrMask) ||| createAarch64Attributes options) &&& 0b11 = 0b11 := by
    rw [entry_and_flags]
    exact attributes_flags options
  obtain ⟨h4, hwalk⟩ := h3.writeLeaf (i := index3 vaddr) (by simp) hw3 hflags
  refine .inr ⟨⟨write s3.mem l3 (index3 vaddr)
    ((paddr &&& pteAddrMask) ||| createAarch64Attributes options), s3.free⟩, ?_,
    h4.mono (subset_univ _), hpool3,
    ((hcon1.trans hcon2).trans hcon3).trans (Confined.write_entry (by simp) hw3 hwalk)⟩
  simp [vmap, e1, e2, e3, writeEntry]

/-- Mapping a page is confined to the tree and changes no other page, also if it has to wait for a
frame. -/
lemma vmap_confined (hpool : PoolOk s.free) (vaddr paddr : BitVec 64) (options : PagingOptions) :
    Confined (rootOf space) s (finalState (vmap space vaddr paddr options) s) ∧
      (∃ ref', TreeInv univ (rootOf space) (finalState (vmap space vaddr paddr options) s).mem
        (finalState (vmap space vaddr paddr options) s).free ref' ∧
        ∀ q, q ≠ pathOf vaddr → ref' q = ref q) ∧
      PoolOk (finalState (vmap space vaddr paddr options) s).free := by
  rcases vmap_cases h hpool vaddr paddr options with
    ⟨s', heq, htree, hpool', hcon⟩ | ⟨s', heq, htree, hpool', hcon⟩
  · rw [finalState_of_error heq]
    exact ⟨hcon, ⟨ref, htree, fun _ _ => rfl⟩, hpool'⟩
  · rw [finalState_of_ok heq]
    exact ⟨hcon, ⟨_, htree, fun _ hq => update_of_ne hq _ _⟩, hpool'⟩

end

/-- Between `s` and `s'` some tables were taken out of the tree and put on the free list, and
nothing else happened to the tree and the list. -/
structure Pruned (root : BitVec 64) (s s' : Vmm) : Prop where
  walk_or : ∀ q, q.length ≤ 3 → walk next s'.mem root q = walk next s.mem root q ∨
    (walk next s'.mem root q = none ∧ ∀ u, walk next s.mem root q = some u → u ∈ s'.free)
  free_sub : ∀ f ∈ s.free, f ∈ s'.free
  free_new : ∀ f ∈ s'.free, f ∈ s.free ∨ ∃ q, q.length ≤ 3 ∧ walk next s.mem root q = some f

/-- Nothing happened. -/
lemma Pruned.refl (hwalk : ∀ q, q.length ≤ 3 → walk next s'.mem root q = walk next s.mem root q)
    (hfree : s'.free = s.free) : Pruned root s s' where
  walk_or q hq := .inl (hwalk q hq)
  free_sub _ hf := hfree ▸ hf
  free_new _ hf := .inl (hfree ▸ hf)

/-- Two prunings after each other. -/
lemma Pruned.trans (h : Pruned root s s') (h' : Pruned root s' s'') : Pruned root s s'' where
  walk_or q hq := by
    rcases h.walk_or q hq with hsame | ⟨hnone, hfreed⟩
    · rw [← hsame]
      exact h'.walk_or q hq
    · rcases h'.walk_or q hq with hsame' | ⟨hnone', -⟩
      · exact .inr ⟨hsame'.trans hnone, fun u hu => h'.free_sub u (hfreed u hu)⟩
      · exact .inr ⟨hnone', fun u hu => h'.free_sub u (hfreed u hu)⟩
  free_sub f hf := h'.free_sub f (h.free_sub f hf)
  free_new f hf := by
    rcases h'.free_new f hf with hf' | ⟨q, hq, hw⟩
    · exact h.free_new f hf'
    · rcases h.walk_or q hq with hsame | ⟨hnone, -⟩
      · exact .inr ⟨q, hq, hsame ▸ hw⟩
      · rw [hnone] at hw
        cases hw

/-- One level of the pruning: the empty table at `p ++ [i]` is detached and given back. -/
lemma detachTable_spec (h : TreeInv (insert (p ++ [i]) H) root s.mem s.free ref)
    (hpool : PoolOk s.free)
    (hp : p.length ≤ 2) (ht : walk next s.mem root p = some t)
    (hc : walk next s.mem root (p ++ [i]) = some u) (hempty : ¬ inUse s.mem u) :
    ∃ s', detachTable t i u s = .ok () s' ∧
      TreeInv (insert p H) root s'.mem s'.free ref ∧ PoolOk s'.free ∧ Pruned root s s' ∧
      Confined root s s' ∧
      ∀ q, q.length ≤ 3 → q ≠ p ++ [i] → walk next s'.mem root q = walk next s.mem root q := by
  have hinvalid : ∀ j, s.mem u j &&& 0b11 = 0 := by
    simpa [inUse] using hempty
  have hu := mask_of_walk hc
  have hplen : (p ++ [i]).length ≤ 3 := by
    simp
    omega
  have hufree := h.unfree _ u hplen hc
  obtain ⟨hdetach', hwalk⟩ := h.detach hp ht hc hinvalid
  have hdetach : TreeInv (insert p H) root (write s.mem t i 0) s.free ref := by
    refine hdetach'.mono (insert_subset_insert fun q hq => ?_)
    exact hq.1.resolve_left hq.2
  -- the detached table is no longer reachable, so its first word and the list may change
  have hgone : ∀ q, q.length ≤ 3 → walk next (write s.mem t i 0) root q ≠ some u := by
    intro q hq hqu
    rw [hwalk q hq] at hqu
    split_ifs at hqu with e
    exact e (h.distinct q (p ++ [i]) u hq hplen hqu hc)
  set link := s.free.headD (BitVec.allOnes 64) with hlink
  have hsame : ∀ q v, q.length ≤ 3 → walk next (write s.mem t i 0) root q = some v →
      ∀ j, write (write s.mem t i 0) u 0 link v j = write s.mem t i 0 v j := by
    intro q v hq hv j
    refine write_of_ne (.inl ?_)
    rintro rfl
    exact hgone q hq hv
  have hwalk' : ∀ q : Path, q.length ≤ 3 → walk next (write (write s.mem t i 0) u 0 link) root q =
        if q = p ++ [i] then none else walk next s.mem root q := by
    intro q hq
    rw [walk_congr_reached (n := 3) hsame (by omega), hwalk q hq]
  have hfreed : ∀ g ∈ u :: s.free, g ∈ s.free ∨ ∃ q, q.length ≤ 3 ∧
    walk next s.mem root q = some g := by
    intro g hg
    rcases mem_cons.mp hg with rfl | hg
    · exact .inr ⟨p ++ [i], hplen, hc⟩
    · exact .inl hg
  refine ⟨⟨write (write s.mem t i 0) u 0 link, u :: s.free⟩, ?_, ?_, ?_, ?_, ?_,
    fun q hq hne => by rw [hwalk' q hq, if_neg hne]⟩
  · simp only [detachTable, exec_bind, writeEntry, exec_modify, frameDealloc_eq hu, ← hlink]
  · refine hdetach.congr hsame fun q v hq hv => ?_
    rw [mem_cons, not_or]
    exact ⟨fun e => hgone q hq (e ▸ hv), hdetach.unfree q v hq hv⟩
  · refine ⟨nodup_cons.mpr ⟨hufree, hpool.nodup⟩, ?_⟩
    intro g hg
    rcases mem_cons.mp hg with rfl | hg
    · exact hu
    · exact hpool.aligned g hg
  · refine ⟨fun q hq => ?_, fun g hg => mem_cons_of_mem _ hg, hfreed⟩
    rw [hwalk' q hq]
    split_ifs with e
    · refine .inr ⟨rfl, fun v hv => ?_⟩
      rw [e, hc] at hv
      cases hv
      exact mem_cons_self
    · exact .inl rfl
  · refine ⟨fun v _ hnot j => ?_, hfreed, fun q v hq hv => ?_⟩
    · have hvt : v ≠ t := fun heq => hnot p (by omega) (heq ▸ ht)
      have hvu : v ≠ u := fun heq => hnot (p ++ [i]) hplen (heq ▸ hc)
      exact (write_of_ne (.inl hvu)).trans (write_of_ne (.inl hvt))
    · rw [hwalk' q hq] at hv
      split_ifs at hv
      exact .inr ⟨q, hq, hv⟩

/-- A table that is in use needs no exception. -/
lemma TreeInv.of_inUse (h : TreeInv (insert p H) root mem free ref)
    (hu : walk next mem root p = some u)
    (hin : inUse mem u) : TreeInv H root mem free ref := by
  refine h.restrict fun q v hq _ hqH hqp hv => ?_
  rw [hqp.resolve_right hqH, hu] at hv
  cases hv
  simpa [inUse] using hin

/-- After an unmapping the tables that have become empty are given back. -/
lemma freeUnusedTables_spec {vaddr l0 l1 l2 l3 : BitVec 64}
    (h : TreeInv (insert [index0 vaddr, index1 vaddr, index2 vaddr] H) l0 s.mem s.free ref)
    (hpool : PoolOk s.free) (hw1 : walk next s.mem l0 [index0 vaddr] = some l1)
    (hw2 : walk next s.mem l0 [index0 vaddr, index1 vaddr] = some l2)
    (hw3 : walk next s.mem l0 [index0 vaddr, index1 vaddr, index2 vaddr] = some l3) :
    ∃ s', freeUnusedTables vaddr l0 l1 l2 l3 s = .ok () s' ∧
      TreeInv H l0 s'.mem s'.free ref ∧ PoolOk s'.free ∧ Pruned l0 s s' ∧ Confined l0 s s' := by
  by_cases hin3 : inUse s.mem l3
  · refine ⟨s, ?_, h.of_inUse hw3 hin3, hpool, Pruned.refl (fun _ _ => rfl) rfl, Confined.refl l0 s⟩
    simp [freeUnusedTables, if_pos hin3]
  obtain ⟨s1, e1, h1, hpool1, hpr1, hcon1, hsame1⟩ :=
    detachTable_spec (p := [index0 vaddr, index1 vaddr]) h hpool (by simp) hw2 hw3 hin3
  have hw2' : walk next s1.mem l0 [index0 vaddr, index1 vaddr] = some l2 := by
    rw [hsame1 _ (by simp) (by simp), hw2]
  have hw1' : walk next s1.mem l0 [index0 vaddr] = some l1 := by
    rw [hsame1 _ (by simp) (by simp), hw1]
  by_cases hin2 : inUse s1.mem l2
  · refine ⟨s1, ?_, h1.of_inUse hw2' hin2, hpool1, hpr1, hcon1⟩
    simp [freeUnusedTables, if_neg hin3, e1, if_pos hin2]
  obtain ⟨s2, e2, h2, hpool2, hpr2, hcon2, hsame2⟩ :=
    detachTable_spec (p := [index0 vaddr]) h1 hpool1 (by simp) hw1' hw2' hin2
  have hw1'' : walk next s2.mem l0 [index0 vaddr] = some l1 := by
    rw [hsame2 _ (by simp) (by simp), hw1']
  by_cases hin1 : inUse s2.mem l1
  · refine ⟨s2, ?_, h2.of_inUse hw1'' hin1, hpool2, hpr1.trans hpr2, hcon1.trans hcon2⟩
    simp [freeUnusedTables, if_neg hin3, e1, if_neg hin2, e2, if_pos hin1]
  obtain ⟨s3, e3, h3, hpool3, hpr3, hcon3, -⟩ :=
    detachTable_spec (p := []) h2 hpool2 (by simp) walk_nil hw1'' hin1
  refine ⟨s3, ?_, ?_, hpool3, (hpr1.trans hpr2).trans hpr3, (hcon1.trans hcon2).trans hcon3⟩
  · simp [freeUnusedTables, if_neg hin3, e1, if_neg hin2, e2, if_neg hin1, e3]
  · -- the root may be empty
    exact h3.restrict fun q u _ hne hqH hq _ => absurd (hq.resolve_right hqH) hne

/-- The first bit decides whether an entry is valid. -/
lemma valid_bit (h : e &&& 0b11 = 0 ∨ e &&& 0b11 = 0b11) : e &&& 0b1 = 0 ↔ e &&& 0b11 = 0 := by
  have hbit : e &&& 0b1 = (e &&& 0b11) &&& 0b1 := by
    rw [BitVec.and_assoc]
    rfl
  rw [hbit]
  rcases h with h | h <;> rw [h] <;> decide

/-- What the code reads along the path of an address. -/
lemma TreeInv.path_cases (h : TreeInv H root s.mem s.free ref) (vaddr : BitVec 64) :
    (ref (pathOf vaddr) = none ∧
      (s.mem root (index0 vaddr) &&& 0b11 ≠ 0b11 ∨
        (∃ l1, next (s.mem root (index0 vaddr)) = some l1 ∧
          (s.mem l1 (index1 vaddr) &&& 0b11 ≠ 0b11 ∨
            ∃ l2, next (s.mem l1 (index1 vaddr)) = some l2 ∧
            s.mem l2 (index2 vaddr) &&& 0b11 ≠ 0b11)))) ∨
    ∃ l1 l2 l3, next (s.mem root (index0 vaddr)) = some l1 ∧
      next (s.mem l1 (index1 vaddr)) = some l2 ∧ next (s.mem l2 (index2 vaddr)) = some l3 ∧
      walk next s.mem root [index0 vaddr] = some l1 ∧
      walk next s.mem root [index0 vaddr, index1 vaddr] = some l2 ∧
      walk next s.mem root [index0 vaddr, index1 vaddr, index2 vaddr] = some l3 ∧
      (s.mem l3 (index3 vaddr) &&& 0b11 = 0 ∨ s.mem l3 (index3 vaddr) &&& 0b11 = 0b11) ∧
      ref (pathOf vaddr) = next (s.mem l3 (index3 vaddr)) := by
  have hnone : walk next s.mem root [index0 vaddr, index1 vaddr, index2 vaddr] = none →
    ref (pathOf vaddr) = none :=
    fun hw => h.unmapped [index0 vaddr, index1 vaddr, index2 vaddr] (index3 vaddr) rfl hw
  cases e1 : next (s.mem root (index0 vaddr)) with
  | none => exact .inl ⟨hnone (by simp [walk_cons, e1]), .inl (next_eq_none.mp e1)⟩
  | some l1 =>
    cases e2 : next (s.mem l1 (index1 vaddr)) with
    | none =>
      exact .inl ⟨hnone (by simp [walk_cons, e1, e2]),
        .inr ⟨l1, rfl, .inl (next_eq_none.mp e2)⟩⟩
    | some l2 =>
      cases e3 : next (s.mem l2 (index2 vaddr)) with
      | none =>
        exact .inl ⟨hnone (by simp [walk_cons, e1, e2, e3]),
          .inr ⟨l1, rfl, .inr ⟨l2, e2, next_eq_none.mp e3⟩⟩⟩
      | some l3 =>
        have hw3 : walk next s.mem root [index0 vaddr, index1 vaddr, index2 vaddr] = some l3 := by
          simp [walk_cons, e1, e2, e3]
        obtain ⟨hflags, href⟩ := h.leaves _ l3 (index3 vaddr) rfl hw3
        exact .inr ⟨l1, l2, l3, rfl, e2, e3,
          by simp [walk_cons, e1], by simp [walk_cons, e1, e2], hw3, hflags, href⟩

section

variable (h : TreeInv H (rootOf space) s.mem s.free ref)
include h

/-- Mapping a page that is present enters it into the reference map and takes at most three frames,
or there are not enough frames. -/
lemma vmap_present (hpool : PoolOk s.free) (vaddr paddr : BitVec 64)
    (hpresent : hasFlags options PagingOptions.present) :
    (s.free.length < 3 ∧ ∃ s', vmap space vaddr paddr options s = .error .waiting s') ∨
    ∃ s', vmap space vaddr paddr options s = .ok () s' ∧
      TreeInv H (rootOf space) s'.mem s'.free (update ref (pathOf vaddr)
        (some (paddr &&& pteAddrMask))) ∧
      PoolOk s'.free ∧ s.free.length ≤ s'.free.length + 3 ∧ Confined (rootOf space) s s' := by
  have h0 : TreeInv (insert [] H) (rootOf space) s.mem s.free ref := h.mono (subset_insert _ _)
  rcases ensureNextTable_cases h0 hpool (by simp) walk_nil (index0 vaddr) with
    ⟨hnil, e1⟩ | ⟨l1, s1, e1, h1, hpool1, hw1, hn1, hcon1⟩
  · refine .inl ⟨by simp [hnil], s, ?_⟩
    simp [vmap, e1]
  rcases ensureNextTable_cases h1 hpool1 (by simp) hw1 (index1 vaddr) with
    ⟨hnil, e2⟩ | ⟨l2, s2, e2, h2, hpool2, hw2, hn2, hcon2⟩
  · rw [hnil, length_nil] at hn1
    refine .inl ⟨by omega, s1, ?_⟩
    simp [vmap, e1, e2]
  rcases ensureNextTable_cases h2 hpool2 (by simp) hw2 (index2 vaddr) with
    ⟨hnil, e3⟩ | ⟨l3, s3, e3, h3, hpool3, hw3, hn3, hcon3⟩
  · rw [hnil, length_nil] at hn2
    refine .inl ⟨by omega, s2, ?_⟩
    simp [vmap, e1, e2, e3]
  have hflags : ((paddr &&& pteAddrMask) ||| createAarch64Attributes options) &&& 0b11 = 0b11 := by
    rw [entry_and_flags, attributes_and_flags hpresent]
  obtain ⟨h4, hwalk⟩ := h3.writeLeaf (i := index3 vaddr) (by simp) hw3 (.inr hflags)
  refine .inr ⟨⟨write s3.mem l3 (index3 vaddr)
    ((paddr &&& pteAddrMask) ||| createAarch64Attributes options), s3.free⟩, ?_, ?_, hpool3, by
    simp; omega,
    ((hcon1.trans hcon2).trans hcon3).trans (Confined.write_entry (by simp) hw3 hwalk)⟩
  · simp [vmap, e1, e2, e3, writeEntry]
  · rw [next_entry hpresent] at h4
    -- the table of the last level now has a valid entry
    refine h4.restrict fun q u hq _ hqH hqp hu => ?_
    have hq3 : q = [] ++ [index0 vaddr] ++ [index1 vaddr] ++ [index2 vaddr] := by
      rcases hqp with rfl | hqp
      · rfl
      · rcases hqp with rfl | hqp
        · rfl
        · exact absurd hqp hqH
    rw [hwalk q hq, hq3, hw3] at hu
    cases hu
    refine ⟨index3 vaddr, ?_⟩
    rw [write_self, hflags]
    decide

/-- Mapping a page enters it into the reference map.  It takes at most three frames. -/
lemma vmap_spec (hpool : PoolOk s.free) (hlen : n + 3 ≤ s.free.length) (vaddr paddr : BitVec 64)
    (hpresent : hasFlags options PagingOptions.present) :
    ∃ s', vmap space vaddr paddr options s = .ok () s' ∧
      TreeInv H (rootOf space) s'.mem s'.free (update ref (pathOf vaddr)
        (some (paddr &&& pteAddrMask))) ∧
      PoolOk s'.free ∧ n ≤ s'.free.length ∧ Confined (rootOf space) s s' := by
  rcases vmap_present h hpool vaddr paddr hpresent with
    ⟨hshort, -⟩ | ⟨s', e, htree, hpool', hlen', hcon⟩
  · omega
  · exact ⟨s', e, htree, hpool', by omega, hcon⟩

/-! ## Unmapping -/

/-- The translation of an address is that of the reference map. -/
lemma getPhysAddr_eq (vaddr : BitVec 64) :
    getPhysAddr s.mem vaddr space = (ref (pathOf vaddr)).map fun paddr =>
    paddr ||| (vaddr &&& 0xFFF#64) := by
  rcases h.path_cases vaddr with ⟨href, hmiss⟩ | ⟨l1, l2, l3, e1, e2, e3, -, -, -, hflags, href⟩
  · rw [href, map_none]
    rcases hmiss with h0 | ⟨l1, e1, hmiss⟩
    · simp only [getPhysAddr, if_pos h0]
    · obtain ⟨f1, rfl⟩ := next_eq_some.mp e1
      rcases hmiss with h1 | ⟨l2, e2, h2⟩
      · simp only [getPhysAddr, f1, ne_eq, not_true_eq_false, if_false, if_pos h1]
      · obtain ⟨f2, rfl⟩ := next_eq_some.mp e2
        simp only [getPhysAddr, f1, f2, ne_eq, not_true_eq_false, if_false, if_pos h2]
  · obtain ⟨f1, rfl⟩ := next_eq_some.mp e1
    obtain ⟨f2, rfl⟩ := next_eq_some.mp e2
    obtain ⟨f3, rfl⟩ := next_eq_some.mp e3
    have hbit := valid_bit hflags
    rw [href]
    rcases hflags with hinvalid | hvalid
    · simp only [getPhysAddr, f1, f2, f3, ne_eq, not_true_eq_false, if_false,
        if_pos (hbit.mpr hinvalid), next_of_invalid hinvalid, map_none]
    · have hne : ¬ s.mem (s.mem (s.mem (s.mem (rootOf space) (index0 vaddr) &&& pteAddrMask)
          (index1 vaddr) &&& pteAddrMask) (index2 vaddr) &&& pteAddrMask) (index3 vaddr) &&& 0b1 =
          0 := by
        rw [hbit, hvalid]
        decide
      rw [next_eq_some.mpr ⟨hvalid, rfl⟩]
      simp only [getPhysAddr, f1, f2, f3, ne_eq, not_true_eq_false, if_false, if_neg hne, map_some]

/-- Unmapping a page returns what it was mapped to and removes it from the reference map.  Tables
that have become empty are given back, and no others. -/
lemma vunmapNoDealloc_spec (hpool : PoolOk s.free) (vaddr : BitVec 64) :
    ∃ s', vunmapNoDealloc space vaddr s = .ok (ref (pathOf vaddr)) s' ∧
      TreeInv H (rootOf space) s'.mem s'.free (update ref (pathOf vaddr) none) ∧
      PoolOk s'.free ∧ Pruned (rootOf space) s s' ∧ Confined (rootOf space) s s' := by
  -- a page that is not mapped changes nothing
  have hsame : ref (pathOf vaddr) = none → TreeInv H (rootOf space) s.mem s.free
      (update ref (pathOf vaddr) none) ∧ PoolOk s.free ∧ Pruned (rootOf space) s s ∧
      Confined (rootOf space) s s := by
    intro href
    refine ⟨?_, hpool, Pruned.refl (fun _ _ => rfl) rfl, Confined.refl _ s⟩
    rwa [← href, update_eq_self]
  rcases h.path_cases vaddr with
    ⟨href, hmiss⟩ | ⟨l1, l2, l3, e1, e2, e3, hw1, hw2, hw3, hflags, href⟩
  · refine ⟨s, ?_, hsame href⟩
    rw [href]
    rcases hmiss with h0 | ⟨l1, e1, hmiss⟩
    · simp only [vunmapNoDealloc, vunmapInternal, exec_bind, exec_get, exec_ite,
        if_pos h0, exec_pure]
    · obtain ⟨f1, rfl⟩ := next_eq_some.mp e1
      rcases hmiss with h1 | ⟨l2, e2, h2⟩
      · simp only [vunmapNoDealloc, vunmapInternal, exec_bind, exec_get, exec_ite, f1, ne_eq,
          not_true_eq_false, if_false, if_pos h1, exec_pure]
      · obtain ⟨f2, rfl⟩ := next_eq_some.mp e2
        simp only [vunmapNoDealloc, vunmapInternal, exec_bind, exec_get, exec_ite, f1, f2, ne_eq,
          not_true_eq_false, if_false, if_pos h2, exec_pure]
  · obtain ⟨f1, m1⟩ := next_eq_some.mp e1
    obtain ⟨f2, m2⟩ := next_eq_some.mp e2
    obtain ⟨f3, m3⟩ := next_eq_some.mp e3
    rcases hflags with hinvalid | hvalid
    · have hnone : ref (pathOf vaddr) = none := by
        rw [href, next_of_invalid hinvalid]
      refine ⟨s, ?_, hsame hnone⟩
      rw [hnone]
      simp only [vunmapNoDealloc, vunmapInternal, exec_bind, exec_get, exec_ite, f1, m1, f2, m2, f3,
        m3, ne_eq, not_true_eq_false, if_false, if_pos hinvalid, exec_pure]
    · have hne : ¬ s.mem l3 (index3 vaddr) &&& 0b11 = 0 := by
        rw [hvalid]
        decide
      obtain ⟨hleaf, hwalk⟩ := h.writeLeaf (i := index3 vaddr) (e := 0) rfl hw3 (.inl (by decide))
      rw [next_zero] at hleaf
      obtain ⟨s', es, htree, hpool', hpruned, hcon⟩ :=
        freeUnusedTables_spec (s := ⟨write s.mem l3 (index3 vaddr) 0, s.free⟩) hleaf hpool
          (by rw [hwalk _ (by simp), hw1]) (by rw [hwalk _ (by simp), hw2])
          (by rw [hwalk _ (by simp), hw3])
      refine ⟨s', ?_, htree, hpool', ?_, (Confined.write_entry (by simp) hw3 hwalk).trans hcon⟩
      · rw [href, next_eq_some.mpr ⟨hvalid, rfl⟩]
        simp only [vunmapNoDealloc, vunmapInternal, exec_bind, exec_get, exec_ite, f1, m1, f2, m2,
          f3, m3, ne_eq, not_true_eq_false, if_false, if_neg hne, writeEntry, exec_modify, es,
          exec_pure, Bool.false_eq_true]
      · have hcleared : Pruned (rootOf space) s ⟨write s.mem l3 (index3 vaddr) 0, s.free⟩ :=
          Pruned.refl hwalk rfl
        exact hcleared.trans hpruned

end

/-- A page that is not mapped is not taken out. -/
lemma vunmapNoDealloc_none {space a : BitVec 64} {s s' : Vmm}
    (h : vunmapNoDealloc space a s = .ok none s') :
    s' = s := by
  simp only [vunmapNoDealloc, vunmapInternal, exec_bind, exec_get, exec_ite, Bool.false_eq_true,
    if_false] at h
  split_ifs at h
  · cases h
    rfl
  · cases h
    rfl
  · cases h
    rfl
  · cases h
    rfl
  · -- a page that was mapped is returned
    split at h
    · split at h <;> cases h
    · cases h

/-- Below every table but the root some page is mapped. -/
lemma TreeInv.exists_mapped (h : TreeInv ∅ root mem free ref) (hp : p.length ≤ 3) (hne : p ≠ [])
    (ht : walk next mem root p = some t) : ∃ q, q.length = 4 ∧ p <+: q ∧ ref q ≠ none := by
  obtain ⟨n, hn⟩ : ∃ n, p.length + n = 3 := ⟨3 - p.length, by omega⟩
  -- descend along valid entries, by induction on the number of levels that remain
  induction n generalizing p t with
  | zero =>
    obtain ⟨i, hi⟩ := h.nonempty p t hp hne (notMem_empty p) ht
    obtain ⟨hflags, href⟩ := h.leaves p t i (by omega) ht
    have hvalid := hflags.resolve_left hi
    refine ⟨p ++ [i], by simp; omega, prefix_append p [i], ?_⟩
    rw [href, next_eq_some.mpr ⟨hvalid, rfl⟩]
    simp
  | succ n ih =>
    obtain ⟨i, hi⟩ := h.nonempty p t hp hne (notMem_empty p) ht
    have hvalid := (h.entries p t i (by omega) ht).resolve_left hi
    have hchild : walk next mem root (p ++ [i]) = some (mem t i &&& pteAddrMask) := by
      rw [walk_concat ht]
      exact next_eq_some.mpr ⟨hvalid, rfl⟩
    obtain ⟨q, hq, hpq, href⟩ := ih (by simp; omega) (by simp) hchild (by simp; omega)
    exact ⟨q, hq, (prefix_append p [i]).trans hpq, href⟩

/-- A table of the tree before an unmapping is given back exactly if no page below it is mapped any
more. -/
lemma Pruned.mem_free_iff (hpr : Pruned root s s') (h : TreeInv ∅ root s'.mem s'.free ref)
    (hp : p.length ≤ 3) (hne : p ≠ []) (ht : walk next s.mem root p = some t) :
    t ∈ s'.free ↔ ∀ q, q.length = 4 → p <+: q → ref q = none := by
  constructor
  · intro hfree q hq hpq
    have hgone : walk next s'.mem root p = none := by
      rcases hpr.walk_or p hp with hsame | ⟨hnone, -⟩
      · exact absurd hfree (h.unfree p t hp (hsame.trans ht))
      · exact hnone
    -- the walk to the table of the last level goes through `p`
    obtain ⟨q', i, rfl⟩ : ∃ q' i, q = q' ++ [i] :=
      ⟨q.dropLast, q.getLast (by rintro rfl; simp at hq), (dropLast_append_getLast _).symm⟩
    have hq' : q'.length = 3 := by simpa using hq
    refine h.unmapped q' i hq' ?_
    have hpq' : p <+: q' := prefix_of_prefix_length_le hpq (prefix_append _ _) (by omega)
    obtain ⟨r, rfl⟩ := hpq'
    rw [walk_append, hgone]
    rfl
  · intro hnone
    rcases hpr.walk_or p hp with hsame | ⟨-, hfreed⟩
    · obtain ⟨q, hq, hpq, href⟩ := h.exists_mapped hp hne (hsame.trans ht)
      exact absurd (hnone q hq hpq) href
    · exact hfreed t ht

/-- Unmapping a page with its frame is unmapping it and giving the frame back. -/
lemma vunmap_eq (space vaddr : BitVec 64) (s : Vmm) : vunmap space vaddr s =
      match vunmapNoDealloc space vaddr s with
      | .ok (some paddr) t =>
        match frameDealloc paddr t with
        | .ok _ t' => .ok (some paddr) t'
        | .error e t' => .error e t'
      | .ok none t => .ok none t
      | .error e t => .error e t := by
  simp only [vunmap, vunmapNoDealloc, vunmapInternal, exec_bind, exec_get, exec_ite, exec_pure,
    writeEntry, exec_modify, Bool.false_eq_true, if_true, if_false]
  split_ifs with h0 h1 h2 h3
  · rfl
  · rfl
  · rfl
  · rfl
  · generalize freeUnusedTables vaddr _ _ _ _ _ = r
    cases r with
    | error e t => rfl
    | ok _ t =>
      simp only
      generalize frameDealloc _ t = r'
      cases r' <;> rfl

end CabOS.AArch64
