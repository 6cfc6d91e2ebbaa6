import CabOS.Arch.AArch64.VmmRuns
import CabOS.Library.Run

/-!
# Address spaces of processes

Every process has a page table of its own, which starts as a copy of the boot table.  Pages are
mapped and unmapped in any of them, in any order, and frames that one process gives back as tables
are handed out as tables to another one.  The trees of tables of different processes have no frame
in common, and so no process can change how the addresses of another one are translated
(`processes_isolated`).

The boot table is treated as the table of one more process, to which nothing happens.
-/

namespace CabOS.AArch64

open Function List Set PagingOptions

open TableTree

/-- Make the page table of a new process, a copy of the boot table. -/
def newPageTable (boot : BitVec 64) : EStateM FrameFault Vmm (BitVec 64) := do
  let pageTable ← frameAlloc
  modify fun s => { s with mem := update s.mem pageTable (s.mem boot) }
  pure pageTable

/-- The memory with the page tables of the processes, in the order of their creation. -/
structure Processes where
  vmm : Vmm
  roots : List (BitVec 64)

/-- What can happen to page tables. -/
inductive SpaceOp where
  /-- A process is created. -/
  | new
  | vmap (process : ℕ) (vaddr paddr : BitVec 64) (options : PagingOptions)
  | vunmapNoDealloc (process : ℕ) (vaddr : BitVec 64)
  /-- Others take frames, give frames back and write. -/
  | other (vmm : Vmm)

namespace SpaceOp

/-- The process whose page table is changed. -/
def process : SpaceOp → Option ℕ
  | .vmap i _ _ _ => some i
  | .vunmapNoDealloc i _ => some i
  | _ => none

end SpaceOp

/-- The frames that can be handed out are page-aligned, different and not in use as tables. -/
structure FramesUnused (roots : List (BitVec 64)) (s : Vmm) : Prop where
  nodup : s.free.Nodup
  aligned : ∀ f ∈ s.free, PageAligned f
  unused : ∀ r ∈ roots, ∀ q t, q.length ≤ 3 → walk next s.mem r q = some t → t ∉ s.free

namespace Processes

/-- Run one operation.  A call that waits for a frame stays where it is. -/
def step (boot : BitVec 64) (m : Processes) : SpaceOp → Processes
  | .new =>
    match newPageTable boot m.vmm with
    | .ok root s => ⟨s, m.roots ++ [root]⟩
    | .error _ s => ⟨s, m.roots⟩
  | .vmap i vaddr paddr options =>
    match m.roots[i]? with
    | none => m
    | some space => ⟨finalState (AArch64.vmap space vaddr paddr options) m.vmm, m.roots⟩
  | .vunmapNoDealloc i vaddr =>
    match m.roots[i]? with
    | none => m
    | some space => ⟨finalState (AArch64.vunmapNoDealloc space vaddr) m.vmm, m.roots⟩
  | .other vmm => ⟨vmm, m.roots⟩

/-- Run several operations. -/
def run (boot : BitVec 64) (s : Vmm) (ops : List SpaceOp) : Processes :=
  ops.foldl (step boot) ⟨s, []⟩

/-- Others do not write to tables, and they do not free them. -/
def Allowed (boot : BitVec 64) (m : Processes) : SpaceOp → Prop
  | .other vmm =>
    (∀ r ∈ boot :: m.roots, ∀ q t, q.length ≤ 3 → walk next m.vmm.mem r q = some t →
      ∀ i, vmm.mem t i = m.vmm.mem t i) ∧ FramesUnused (boot :: m.roots) vmm
  | _ => True

/-! ## The invariant -/

/-- The trees of tables are well-formed and have no frame in common. -/
structure Separate (roots : List (BitVec 64)) (s : Vmm) : Prop where
  nodup : roots.Nodup
  tree : ∀ r ∈ roots, ∃ ref, TreeInv Set.univ r s.mem s.free ref
  apart : ∀ r ∈ roots, ∀ r' ∈ roots, ∀ q q' t, q.length ≤ 3 → q'.length ≤ 3 →
    walk next s.mem r q = some t → walk next s.mem r' q' = some t → r = r'
  pool : PoolOk s.free

variable {roots : List (BitVec 64)} {s s' : Vmm} {root boot : BitVec 64} {m : Processes}
  {f r : BitVec 64}
  {ref : Path → Option (BitVec 64)} {space : BitVec 64}

/-- A table that fits into an entry is the root of its own address. -/
lemma rootOf_of_mask (hf : f &&& pteAddrMask = f) : rootOf f = f := by
  have hmask : pteAddrMask &&& ~~~0xFFF#64 = pteAddrMask := by decide
  rw [rootOf, ← hf, BitVec.and_assoc, hmask]

/-- As long as the tables of a tree stay as they are, its addresses are translated as before. -/
lemma getPhysAddr_congr {H : Set Path} (htree : TreeInv H r s.mem s.free ref) (hroot : rootOf r = r)
    (hmem : ∀ q t, q.length ≤ 3 → walk next s.mem r q = some t → ∀ i, s'.mem t i = s.mem t i)
    (a : BitVec 64) : getPhysAddr s'.mem a r = getPhysAddr s.mem a r := by
  have hold : TreeInv H (rootOf r) s.mem s.free ref := hroot.symm ▸ htree
  have hnew : TreeInv H (rootOf r) (⟨s'.mem, s.free⟩ : Vmm).mem s.free ref :=
    hroot.symm ▸ htree.congr hmem htree.unfree
  rw [getPhysAddr_eq hold]
  exact getPhysAddr_eq (s := ⟨s'.mem, s.free⟩) hnew a

/-- Unmapping a page is confined to the tree. -/
lemma vunmapNoDealloc_confined
    (h : TreeInv univ (rootOf space) s.mem s.free ref) (hpool : PoolOk s.free) (vaddr : BitVec 64) :
    Confined (rootOf space) s (finalState (vunmapNoDealloc space vaddr) s) ∧
      (∃ ref', TreeInv univ (rootOf space) (finalState (vunmapNoDealloc space vaddr) s).mem
        (finalState (vunmapNoDealloc space vaddr) s).free ref') ∧
      PoolOk (finalState (vunmapNoDealloc space vaddr) s).free := by
  obtain ⟨s', e, htree, hpool', -, hcon⟩ := vunmapNoDealloc_spec h hpool vaddr
  rw [finalState_of_ok e]
  exact ⟨hcon, ⟨_, htree⟩, hpool'⟩

section

variable (h : Separate roots s)
include h

/-- What happens to one tree leaves the tables of the others alone. -/
lemma Separate.mem_of_confined (hroot : root ∈ roots) (hcon : Confined root s s') (hr : r ∈ roots)
    (hne : r ≠ root) :
    ∀ q t, q.length ≤ 3 → walk next s.mem r q = some t → ∀ i, s'.mem t i = s.mem t i := by
  intro q t hq ht
  obtain ⟨ref, href⟩ := h.tree r hr
  refine hcon.mem t (href.unfree q t hq ht) fun q' hq' ht' => hne ?_
  exact h.apart r hr root hroot q q' t hq hq' ht ht'

/-- A change that is confined to one tree keeps the trees separate. -/
lemma Separate.of_confined (hroot : root ∈ roots) (hcon : Confined root s s')
    (htree : ∃ ref, TreeInv univ root s'.mem s'.free ref) (hpool : PoolOk s'.free) :
    Separate roots s' := by
  have hwalk : ∀ r ∈ roots, r ≠ root → ∀ q, q.length ≤ 3 →
      walk next s'.mem r q = walk next s.mem r q := fun r hr hne q hq =>
    walk_congr_reached (n := 3) (h.mem_of_confined hroot hcon hr hne) (by omega)
  -- the changed tree has only tables that were its own or free
  have hchanged : ∀ r ∈ roots, ∀ q q' t, q.length ≤ 3 → q'.length ≤ 3 →
      walk next s'.mem root q = some t → walk next s'.mem r q' = some t → r = root := by
    intro r hr q q' t hq hq' ht ht'
    by_contra hne
    rw [hwalk r hr hne q' hq'] at ht'
    rcases hcon.tables q t hq ht with hfree | ⟨q₀, hq₀, ht₀⟩
    · obtain ⟨ref, href⟩ := h.tree r hr
      exact href.unfree q' t hq' ht' hfree
    · exact hne (h.apart r hr root hroot q' q₀ t hq' hq₀ ht' ht₀)
  refine ⟨h.nodup, fun r hr => ?_, fun r hr r' hr' q q' t hq hq' ht ht' => ?_, hpool⟩
  · by_cases hne : r = root
    · rw [hne]
      exact htree
    · obtain ⟨ref, href⟩ := h.tree r hr
      refine ⟨ref, href.congr (h.mem_of_confined hroot hcon hr hne) fun q t hq ht hfree => ?_⟩
      rcases hcon.free t hfree with hold | ⟨q', hq', ht'⟩
      · exact href.unfree q t hq ht hold
      · exact hne (h.apart r hr root hroot q q' t hq hq' ht ht')
  · by_cases hne : r = root
    · subst hne
      exact (hchanged r' hr' q q' t hq hq' ht ht').symm
    · by_cases hne' : r' = root
      · subst hne'
        exact hchanged r hr q' q t hq' hq ht' ht
      · rw [hwalk r hr hne q hq] at ht
        rw [hwalk r' hr' hne' q' hq'] at ht'
        exact h.apart r hr r' hr' q q' t hq hq' ht ht'

/-! ## The operations -/

/-- A free frame that is filled with zeros becomes one more tree. -/
lemma Separate.add {free : List (BitVec 64)} (hs : s.free = f :: free)
    (hfree : s'.free = free) (hmem : ∀ t, t ≠ f → ∀ i, s'.mem t i = s.mem t i)
    (hzero : ∀ i, s'.mem f i = 0) :
    Separate (roots ++ [f]) s' := by
  have hnd := h.pool.nodup
  rw [hs, nodup_cons] at hnd
  -- no tree contains the frame, and so none changes
  have hout : ∀ r ∈ roots, ∀ q t, q.length ≤ 3 → walk next s.mem r q = some t → t ≠ f := by
    rintro r hr q t hq ht rfl
    obtain ⟨ref, href⟩ := h.tree r hr
    exact href.unfree q t hq ht (by simp [hs])
  have hwalk : ∀ r ∈ roots, ∀ q, q.length ≤ 3 → walk next s'.mem r q = walk next s.mem r q :=
    fun r hr q hq => walk_congr_reached (n :=
      3) (fun q t hq ht => hmem t (hout r hr q t hq ht)) (by omega)
  have hnew := treeInv_zero (H := univ) hzero (show f ∉ s'.free by rw [hfree]; exact hnd.1)
  have halone : ∀ q t, walk next s'.mem f q = some t → t = f := fun q t ht => (walk_zero hzero ht).2
  have hfresh : f ∉ roots := fun hmem => hout f hmem [] f (by simp) rfl rfl
  refine ⟨?_, fun r hr => ?_, fun r hr r' hr' q q' t hq hq' ht ht' => ?_, ?_⟩
  · rw [nodup_append]
    refine ⟨h.nodup, nodup_singleton f, ?_⟩
    rintro a ha b hb rfl
    exact hfresh (mem_singleton.mp hb ▸ ha)
  · rcases mem_append.mp hr with hr | hr
    · obtain ⟨ref, href⟩ := h.tree r hr
      refine ⟨ref, href.congr (fun q t hq ht => hmem t (hout r hr q t hq ht)) fun q t
        hq ht hin => ?_⟩
      rw [hfree] at hin
      exact href.unfree q t hq ht (by simp [hs, hin])
    · rw [mem_singleton.mp hr]
      exact ⟨_, hnew⟩
  · rcases mem_append.mp hr with hr | hr <;> rcases mem_append.mp hr' with hr' | hr'
    · rw [hwalk r hr q hq] at ht
      rw [hwalk r' hr' q' hq'] at ht'
      exact h.apart r hr r' hr' q q' t hq hq' ht ht'
    · rw [hwalk r hr q hq] at ht
      rw [mem_singleton.mp hr'] at ht'
      exact absurd (halone q' t ht') (hout r hr q t hq ht)
    · rw [hwalk r' hr' q' hq'] at ht'
      rw [mem_singleton.mp hr] at ht
      exact absurd (halone q t ht) (hout r' hr' q' t hq' ht')
    · rw [mem_singleton.mp hr, mem_singleton.mp hr']
  · rw [hfree]
    exact ⟨hnd.2, fun g hg => h.pool.aligned g (by simp [hs, hg])⟩

end

/-- What holds in every state of a run. -/
structure Inv (boot : BitVec 64) (m : Processes) : Prop where
  separate : Separate (boot :: m.roots) m.vmm
  zero : ∀ i, m.vmm.mem boot i = 0
  rooted : ∀ r ∈ m.roots, rootOf r = r

section

variable (h : m.Inv boot)
include h

/-- A change that is confined to the table of a process keeps the invariant. -/
lemma Inv.of_confined (hroot : root ∈ m.roots)
    (hcon : Confined root m.vmm s') (htree : ∃ ref, TreeInv univ root s'.mem s'.free ref)
    (hpool : PoolOk s'.free) : Inv boot ⟨s', m.roots⟩ := by
  refine ⟨h.separate.of_confined (mem_cons_of_mem _ hroot) hcon htree hpool, fun i => ?_, h.rooted⟩
  have hboot : boot ∈ boot :: m.roots := mem_cons_self
  have hne : boot ≠ root := fun heq => (nodup_cons.mp h.separate.nodup).1 (heq ▸ hroot)
  obtain ⟨ref, href⟩ := h.separate.tree boot hboot
  rw [hcon.mem boot (href.unfree [] boot (by simp) rfl) fun q hq ht => hne ?_]
  · exact h.zero i
  · exact h.separate.apart boot hboot root (mem_cons_of_mem _ hroot) [] q boot (by simp) hq rfl ht

/-- A new process has a page table of its own, and nothing changes for the others. -/
lemma Inv.new : (m.step boot .new).Inv boot ∧ ∀ r ∈ m.roots, ∀ a,
      getPhysAddr (m.step boot .new).vmm.mem a r = getPhysAddr m.vmm.mem a r := by
  cases hs : m.vmm.free with
  | nil =>
    have herr : newPageTable boot m.vmm = .error .waiting m.vmm := by
      simp [newPageTable, frameAlloc, hs]
    rw [step, herr]
    exact ⟨h, fun _ _ _ => rfl⟩
  | cons f free =>
    have hok : newPageTable boot m.vmm =
        .ok f ⟨update m.vmm.mem f (m.vmm.mem boot), free⟩ := by
      simp only [newPageTable, exec_bind, frameAlloc_eq h.separate.pool hs, exec_modify, exec_pure]
    rw [step, hok]
    have hmem : ∀ t, t ≠ f → ∀ i, update m.vmm.mem f (m.vmm.mem boot) t i = m.vmm.mem t i :=
      fun t hne i => by rw [update_of_ne hne]
    have hcopy : ∀ i, update m.vmm.mem f (m.vmm.mem boot) f i = 0 := by
      intro i
      rw [update_self]
      exact h.zero i
    have hunfree : ∀ r ∈ boot :: m.roots, ∀ q t, q.length ≤ 3 →
      walk next m.vmm.mem r q = some t → t ≠ f := by
      rintro r hr q t hq ht rfl
      obtain ⟨ref, href⟩ := h.separate.tree r hr
      exact href.unfree q t hq ht (by simp [hs])
    refine ⟨⟨h.separate.add hs rfl hmem hcopy, fun i => ?_, fun r hr => ?_⟩, fun r hr a => ?_⟩
    · exact (hmem boot (hunfree boot mem_cons_self [] boot (by simp) rfl) i).trans (h.zero i)
    · rcases mem_append.mp hr with hr | hr
      · exact h.rooted r hr
      · rw [mem_singleton.mp hr]
        exact rootOf_of_mask (h.separate.pool.aligned f (by simp [hs]))
    · obtain ⟨ref, href⟩ := h.separate.tree r (mem_cons_of_mem _ hr)
      exact getPhysAddr_congr href (h.rooted r hr)
        (fun q t hq ht => hmem t (hunfree r (mem_cons_of_mem _ hr) q t hq ht)) a

/-- Others keep the invariant, and nothing changes for the processes. -/
lemma Inv.other {vmm : Vmm} (hvmm : m.Allowed boot (.other vmm)) :
    (m.step boot (.other vmm)).Inv boot ∧ ∀ r ∈ m.roots, ∀ a,
      getPhysAddr (m.step boot (.other vmm)).vmm.mem a r = getPhysAddr m.vmm.mem a r := by
  obtain ⟨hmem, hframes⟩ := hvmm
  have hwalk : ∀ r ∈ boot :: m.roots, ∀ q, q.length ≤ 3 →
    walk next vmm.mem r q = walk next m.vmm.mem r q :=
    fun r hr q hq => walk_congr_reached (n := 3) (hmem r hr) (by omega)
  refine ⟨⟨⟨h.separate.nodup, fun r hr => ?_, fun r hr r' hr' q q' t hq hq' ht ht' => ?_, ?_⟩,
    fun i => ?_, h.rooted⟩, fun r hr a => ?_⟩
  · obtain ⟨ref, href⟩ := h.separate.tree r hr
    refine ⟨ref, href.congr (hmem r hr) fun q t hq ht => ?_⟩
    exact hframes.unused r hr q t hq ((hwalk r hr q hq).trans ht)
  · rw [step, hwalk r hr q hq] at ht
    rw [step, hwalk r' hr' q' hq'] at ht'
    exact h.separate.apart r hr r' hr' q q' t hq hq' ht ht'
  · exact ⟨hframes.nodup, fun f hf => (hframes.aligned f hf).and_mask⟩
  · exact (hmem boot mem_cons_self [] boot (by simp) rfl i).trans (h.zero i)
  · obtain ⟨ref, href⟩ := h.separate.tree r (mem_cons_of_mem _ hr)
    exact getPhysAddr_congr href (h.rooted r hr) (hmem r (mem_cons_of_mem _ hr)) a

/-- An operation that is confined to the table of a process keeps the invariant, and nothing changes
for the other processes. -/
lemma Inv.confined (hroot : root ∈ m.roots)
    (hop : Confined root m.vmm s' ∧ (∃ ref, TreeInv univ root s'.mem s'.free ref) ∧
      PoolOk s'.free) :
    Inv boot ⟨s', m.roots⟩ ∧ ∀ r ∈ m.roots, r ≠ root →
    ∀ a, getPhysAddr s'.mem a r = getPhysAddr m.vmm.mem a r := by
  refine ⟨h.of_confined hroot hop.1 hop.2.1 hop.2.2, fun r hr hne a => ?_⟩
  obtain ⟨ref, href⟩ := h.separate.tree r (mem_cons_of_mem _ hr)
  exact getPhysAddr_congr href (h.rooted r hr) (h.separate.mem_of_confined (mem_cons_of_mem _ hroot)
    hop.1 (mem_cons_of_mem _ hr) hne) a

/-- So does an operation of a process: processes have different tables. -/
lemma Inv.own {i : ℕ} (hspace : m.roots[i]? = some space)
    (hop : Confined space m.vmm s' ∧ (∃ ref, TreeInv univ space s'.mem s'.free ref) ∧
      PoolOk s'.free) :
    Inv boot ⟨s', m.roots⟩ ∧ ∀ (j : ℕ) r, some i ≠ some j → m.roots[j]? = some r → ∀ a,
      getPhysAddr s'.mem a r = getPhysAddr m.vmm.mem a r := by
  obtain ⟨hinv, hsame⟩ := h.confined (mem_of_getElem? hspace) hop
  refine ⟨hinv, fun j r hj hr => hsame r (mem_of_getElem? hr) ?_⟩
  rintro rfl
  have hnodup := (nodup_cons.mp h.separate.nodup).2
  exact hj (congrArg some ((getElem?_inj (List.getElem?_eq_some_iff.mp hspace).1 hnodup).mp
    (hspace.trans hr.symm)))

/-- Every operation keeps the invariant, and nothing changes for the processes it is not about. -/
lemma Inv.step {op : SpaceOp} (hop : m.Allowed boot op) :
    (m.step boot op).Inv boot ∧ ∀ (j : ℕ) r, op.process ≠ some j → m.roots[j]? = some r → ∀ a,
      getPhysAddr (m.step boot op).vmm.mem a r = getPhysAddr m.vmm.mem a r := by
  cases op with
  | new => exact ⟨h.new.1, fun j r _ hr => h.new.2 r (mem_of_getElem? hr)⟩
  | other vmm => exact ⟨(h.other hop).1, fun j r _ hr => (h.other hop).2 r (mem_of_getElem? hr)⟩
  | vmap i vaddr paddr options =>
    rw [Processes.step]
    cases hspace : m.roots[i]? with
    | none => exact ⟨h, fun _ _ _ _ _ => rfl⟩
    | some space =>
      obtain ⟨ref, href⟩ := h.separate.tree space (mem_cons_of_mem _ (mem_of_getElem? hspace))
      have hroot := h.rooted space (mem_of_getElem? hspace)
      obtain ⟨hconf, ⟨ref', href', -⟩, hpool'⟩ :=
        vmap_confined (hroot.symm ▸ href) h.separate.pool vaddr paddr options
      rw [hroot] at hconf href'
      exact h.own hspace ⟨hconf, ⟨ref', href'⟩, hpool'⟩
  | vunmapNoDealloc i vaddr =>
    rw [Processes.step]
    cases hspace : m.roots[i]? with
    | none => exact ⟨h, fun _ _ _ _ _ => rfl⟩
    | some space =>
      obtain ⟨ref, href⟩ := h.separate.tree space (mem_cons_of_mem _ (mem_of_getElem? hspace))
      have hroot := h.rooted space (mem_of_getElem? hspace)
      have hconf := vunmapNoDealloc_confined (hroot.symm ▸ href) h.separate.pool vaddr
      rw [hroot] at hconf
      exact h.own hspace hconf

end

/-- Before a process is created there is only the boot table. -/
lemma Inv.start (hboot : ∀ i, s.mem boot i = 0) (hframes : FramesUnused [boot] s) :
    Inv boot ⟨s, []⟩ := by
  have hfree : boot ∉ s.free := hframes.unused boot mem_cons_self [] boot (by simp) rfl
  refine ⟨⟨nodup_singleton boot, fun r hr => ?_, fun r hr r' hr' _ _ _ _ _ _ _ => ?_, ?_⟩, hboot,
    fun r hr => absurd hr (by simp)⟩
  · rw [mem_singleton.mp hr]
    exact ⟨_, treeInv_zero hboot hfree⟩
  · rw [mem_singleton.mp hr, mem_singleton.mp hr']
  · exact ⟨hframes.nodup, fun f hf => (hframes.aligned f hf).and_mask⟩

end Processes

/-- From a boot table of zeros, processes are created and pages are mapped and unmapped in their
page tables, in any order.  In every state the page tables of different processes have no frame in
common, and an operation on the page table of one process does not change how another one translates
addresses. -/
theorem processes_isolated (boot : BitVec 64) (s : Vmm) (ops : List SpaceOp)
    (hboot : ∀ i, s.mem boot i = 0)
    (hframes : FramesUnused [boot] s)
    (hops : AlongRun (Processes.step boot) (Processes.Allowed boot) ⟨s, []⟩ ops) :
    (∀ (i j : ℕ) r r', i ≠ j → (Processes.run boot s ops).roots[i]? = some r →
      (Processes.run boot s ops).roots[j]? = some r' → ∀ q q' t t', q.length ≤ 3 → q'.length ≤ 3 →
        walk next (Processes.run boot s ops).vmm.mem (rootOf r) q = some t →
        walk next (Processes.run boot s ops).vmm.mem (rootOf r') q' = some t' → t ≠ t') ∧
    ∀ op (j : ℕ) r, (Processes.run boot s ops).Allowed boot op → op.process ≠ some j →
      (Processes.run boot s ops).roots[j]? = some r → ∀ a : BitVec 64, a.toNat < 2 ^ 48 →
        getPhysAddr ((Processes.run boot s ops).step boot op).vmm.mem a r =
          getPhysAddr (Processes.run boot s ops).vmm.mem a r := by
  have hinv : (Processes.run boot s ops).Inv boot :=
    hops.invariant (fun m op h hop => (h.step hop).1) (Processes.Inv.start hboot hframes)
  refine ⟨fun i j r r' hij hi hj q q' t t' hq hq' ht ht' heq => ?_,
    fun op j r hop hj hr a _ => (hinv.step hop).2 j r hj hr a⟩
  have hr := mem_of_getElem? hi
  have hr' := mem_of_getElem? hj
  rw [hinv.rooted r hr] at ht
  rw [hinv.rooted r' hr', ← heq] at ht'
  obtain rfl :=
    hinv.separate.apart r (mem_cons_of_mem _ hr) r' (mem_cons_of_mem _ hr') q q' t hq hq' ht ht'
  have hnodup := (nodup_cons.mp hinv.separate.nodup).2
  exact hij ((getElem?_inj (List.getElem?_eq_some_iff.mp hi).1 hnodup).mp (hi.trans hj.symm))

/-- Two processes are created, and the second one maps a page. -/
def twoSpaces : List SpaceOp := [.new, .new, .vmap 1 0x5000#64 0x9000#64 PagingOptions.present]

/-- The first of two processes maps the same page to another frame; the second one still has its
own. -/
theorem processes_isolated_two :
    (Processes.run 0x10000#64 eightFrames twoSpaces).roots = [0x1000#64, 0x2000#64] ∧
    getPhysAddr ((Processes.run 0x10000#64 eightFrames twoSpaces).step 0x10000#64
        (.vmap 0 0x5000#64 0xA000#64 PagingOptions.present)).vmm.mem 0x5123#64 0x2000#64 =
      some 0x9123#64 := by
  refine ⟨by decide +kernel, ?_⟩
  have hframes : FramesUnused [0x10000#64] eightFrames := by
    refine ⟨by decide, ?_, fun r hr q t _ ht => ?_⟩
    · simp only [eightFrames, forall_mem_cons]
      refine ⟨?_, ?_, ?_, ?_, ?_, ?_, ?_, ?_, by simp⟩ <;> exact ⟨by decide, by decide⟩
    · rw [mem_singleton.mp hr] at ht
      cases q with
      | nil =>
        cases ht
        decide
      | cons i q =>
        rw [walk_cons, eightFrames, next_zero] at ht
        cases ht
  have hops : AlongRun (Processes.step 0x10000#64) (Processes.Allowed 0x10000#64) ⟨eightFrames, []⟩
      twoSpaces := ⟨trivial, trivial, trivial, trivial⟩
  rw [(processes_isolated 0x10000#64 eightFrames twoSpaces (fun _ => rfl) hframes hops).2
    (.vmap 0 0x5000#64 0xA000#64 present) 1 0x2000#64 trivial (by decide)
    (by decide +kernel) 0x5123#64 (by decide)]
  decide +kernel

end CabOS.AArch64
