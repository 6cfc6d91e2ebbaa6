import CabOS.Memory.PageFaultRuns

/-!
# Pages of the user window in the page table

The user window has addresses of 63 bits, and the page table is indexed by bits 12 to 47 of an
address. Mapping a page therefore leaves the translation of every page alone whose address differs
from it in the lower 48 bits, and pages that differ in these bits have entries of their own
(`vmap_other_page`).  Pages that are a multiple of `2 ^ 48` apart have the same entry, and both can
be mapped (`vmap_page_above`).
-/

namespace CabOS

namespace AArch64

open TableTree

variable {s : Vmm} {space u v : BitVec 64} {ref : Path → Option (BitVec 64)}

/-- The table of the last level that the walk of an address leads to, and the index of the entry
there. -/
def leafEntry (mem : TableMem) (space vaddr : BitVec 64) : Option (BitVec 64 × Fin ptePerPage) :=
  (walk next mem (rootOf space) [index0 vaddr, index1 vaddr, index2 vaddr]).map fun t =>
  (t, index3 vaddr)

/-- Two pages have the same indices if their addresses agree in the lower 48 bits. -/
lemma pathOf_eq_iff (hu : u.toNat % pageSize = 0) (hv : v.toNat % pageSize = 0) :
    pathOf u = pathOf v ↔ u.toNat % 2 ^ 48 = v.toNat % 2 ^ 48 := by
  simp only [pathOf, index0, index1, index2, index3, List.cons.injEq, Fin.ext_iff,
    index_val, and_true]
  simp only [pageSize] at hu hv
  omega

/-- Pages with different indices have different entries. -/
lemma leafEntry_ne (h : TreeInv Set.univ (rootOf space) s.mem s.free ref)
    (hne : pathOf u ≠ pathOf v)
    {e e' : BitVec 64 × Fin ptePerPage} (he : leafEntry s.mem space u = some e)
    (he' : leafEntry s.mem space v = some e') : e ≠ e' := by
  obtain ⟨t, ht, rfl⟩ := Option.map_eq_some_iff.mp he
  obtain ⟨t', ht', rfl⟩ := Option.map_eq_some_iff.mp he'
  intro heq
  obtain ⟨rfl, hindex⟩ := Prod.mk.injEq .. ▸ heq
  have hpath := h.distinct _ _ _ (by simp) (by simp) ht ht'
  simp only [List.cons.injEq, and_true] at hpath
  refine hne ?_
  simp only [pathOf, List.cons.injEq, and_true]
  exact ⟨hpath.1, hpath.2.1, hpath.2.2, hindex⟩

/-- Mapping a page leaves the translation of every page alone whose address differs in the lower 48
bits, whatever is mapped and with which attributes, and also if there is no frame for a table.  The
two pages have different entries before and after the call. -/
theorem vmap_other_page (h : TreeInv Set.univ (rootOf space) s.mem s.free ref)
    (hpool : PoolOk s.free)
    (hu : u.toNat % pageSize = 0) (hv : v.toNat % pageSize = 0)
    (huv : u.toNat % 2 ^ 48 ≠ v.toNat % 2 ^ 48) (paddr : BitVec 64) (options : PagingOptions) :
    getPhysAddr (finalState (vmap space u paddr options) s).mem v space =
      getPhysAddr s.mem v space ∧
      ∀ mem ∈ [s.mem, (finalState (vmap space u paddr options) s).mem], ∀ e e',
        leafEntry mem space u = some e → leafEntry mem space v = some e' → e ≠ e' := by
  have hne : pathOf u ≠ pathOf v := fun heq => huv ((pathOf_eq_iff hu hv).mp heq)
  obtain ⟨-, ⟨ref', h', href'⟩, -⟩ := vmap_confined h hpool u paddr options
  refine ⟨?_, ?_⟩
  · rw [getPhysAddr_eq h', getPhysAddr_eq h, href' _ hne.symm]
  · simp only [List.forall_mem_cons]
    exact ⟨fun e e' => leafEntry_ne h hne, fun e e' => leafEntry_ne h' hne, by simp⟩

end AArch64

open AArch64

/-- Two pages are mapped.  Mapping the first one to another frame leaves the second one where it is.
-/
theorem vmap_other_page_next :
    getPhysAddr
      (finalState (vmap 0x10000#64 0x5000#64 0x30000#64 PagingOptions.present) twoPages).mem
        0x6000#64 0x10000#64 = some 0x21000#64 := by
  have hinv := reachable_twoPages.inv
  refine (vmap_other_page (hinv.tree.mono (Set.subset_univ _)) hinv.pool (by decide)
    (by decide) (by decide)
    0x30000#64 PagingOptions.present).1.trans ?_
  decide +kernel

/-- A process gets a page at `0x20000` and one at `2 ^ 48 + 0x20000`.  When the first one is mapped,
the second one is translated to the same frame, through the same entry. -/
theorem vmap_page_above : Process.sysMmap (onePage 0x1000000020000#64) (onePageProcess 0x20000#64) =
      .ok 0x1000000020000#64 ((onePageProcess 0x20000#64).after (onePage 0x1000000020000#64)) ∧
    (((onePageProcess 0x20000#64).after
      (onePage 0x1000000020000#64)).virtualMemory.activeSet.toList.map
      fun m => (m.base, m.length)) = [(0x20000, pageSize), (0x1000000020000, pageSize)] ∧
    PoolOk eightFrames.free ∧
    getPhysAddr eightFrames.mem 0x1000000020000#64 0x10000#64 = none ∧
    getPhysAddr (finalState (vmap 0x10000#64 0x20000#64 0x5000#64 PagingOptions.present)
      eightFrames).mem
      0x1000000020000#64 0x10000#64 = some 0x5000#64 ∧
    ∀ mem, leafEntry mem 0x10000#64 0x1000000020000#64 = leafEntry mem 0x10000#64 0x20000#64 := by
  refine ⟨rfl, rfl, poolOk_eightFrames, rfl, ?_, fun mem => rfl⟩
  decide +kernel

end CabOS
