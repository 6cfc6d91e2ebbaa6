import CabOS.Arch.AArch64.Isolation
import CabOS.Library.Triple
import CabOS.Memory.LazyPages
import CabOS.Memory.PageAliases

/-!
# Shared mappings of files

Processes that map a page of a file as shared memory get the frame that the page cache has for it.
The key of the page is computed from the base of the mapping, the page of the fault and the offset
in the file, and a frame is taken when no process has used the page before.  So in whatever order
the processes touch their mappings, two addresses have the same frame if and only if they belong to
the same page of the same file, and a byte that is stored at one of them is read at the other one
(`shared_pages_agree`).

The page cache is behind a lock and every process works on a page table of its own; a page fault is
one step.
-/

namespace CabOS

open AArch64 TableTree AArch64.Processes Function List Triple PagingOptions VirtualMemory

/-! ## Trees of tables and other frames -/

namespace AArch64.Processes

variable {roots : List (BitVec 64)} {s s' : Vmm} {r f : BitVec 64}

/-- The trees are separate as long as their tables stay as they are and no frame is given back. -/
lemma Separate.of_mem (h : Separate roots s)
    (hmem : ∀ r ∈ roots, ∀ q t, q.length ≤ 3 → walk next s.mem r q = some t → ∀ i,
      s'.mem t i = s.mem t i)
    (hfree : ∀ f ∈ s'.free, f ∈ s.free) (hpool : PoolOk s'.free) : Separate roots s' := by
  have hwalk : ∀ r ∈ roots, ∀ q, q.length ≤ 3 → walk next s'.mem r q = walk next s.mem r q :=
    fun r hr q hq => walk_congr_reached (n := 3) (hmem r hr) (by omega)
  refine ⟨h.nodup, fun r hr => ?_, fun r hr r' hr' q q' t hq hq' ht ht' => ?_, hpool⟩
  · obtain ⟨ref, href⟩ := h.tree r hr
    exact ⟨ref, href.congr (hmem r hr) fun q t hq ht hin => href.unfree q t hq ht (hfree t hin)⟩
  · rw [hwalk r hr q hq] at ht
    rw [hwalk r' hr' q' hq'] at ht'
    exact h.apart r hr r' hr' q q' t hq hq' ht ht'

/-- The frame is not free and not a table of any tree, and its address fits into an entry. -/
structure DataFrame (roots : List (BitVec 64)) (s : Vmm) (f : BitVec 64) : Prop where
  unfree : f ∉ s.free
  aligned : f &&& pteAddrMask = f
  not_table : ∀ r ∈ roots, ∀ q, q.length ≤ 3 → walk next s.mem r q ≠ some f

/-- Writing to such a frame leaves the tables alone. -/
lemma DataFrame.mem_update (hf : DataFrame roots s f) (page : Fin ptePerPage → BitVec 64) :
    ∀ r ∈ roots, ∀ q t, q.length ≤ 3 → walk next s.mem r q = some t →
    ∀ i, update s.mem f page t i = s.mem t i := by
  intro r hr q t hq ht i
  rw [update_of_ne]
  rintro rfl
  exact hf.not_table r hr q hq ht

/-- A frame stays such a frame as long as the tables stay as they are and no frame is given back. -/
lemma DataFrame.of_mem (hf : DataFrame roots s f)
    (hmem : ∀ r ∈ roots, ∀ q t, q.length ≤ 3 → walk next s.mem r q = some t → ∀ i,
      s'.mem t i = s.mem t i)
    (hfree : ∀ f ∈ s'.free, f ∈ s.free) : DataFrame roots s' f where
  unfree hin := hf.unfree (hfree f hin)
  aligned := hf.aligned
  not_table r hr q hq ht := by
    rw [walk_congr_reached (n := 3) (hmem r hr) (by omega)] at ht
    exact hf.not_table r hr q hq ht

/-- Work on one tree leaves such a frame alone. -/
lemma DataFrame.of_confined (h : Separate roots s) (hr : r ∈ roots) (hcon : Confined r s s')
    (hf : DataFrame roots s f) : DataFrame roots s' f := by
  obtain ⟨hspare, -⟩ := hcon.spare ⟨hf.unfree, hf.not_table r hr⟩
  refine ⟨hspare.unfree, hf.aligned, fun r' hr' q hq ht => ?_⟩
  by_cases hne : r' = r
  · rw [hne] at ht
    exact hspare.not_table q hq ht
  · rw [walk_congr_reached (n := 3) (h.mem_of_confined hr hcon hr' hne) (by omega)] at ht
    exact hf.not_table r' hr' q hq ht

end AArch64.Processes

/-! ## The processes -/

/-- Processes with their mappings and page tables, the physical memory and the page cache. -/
structure SharedFiles (n : ℕ) (V : Type) where
  virtualMemory : Fin n → VirtualMemory V
  pageTable : Fin n → BitVec 64
  vmm : Vmm
  pageCache : PageKey → Option (BitVec 64)

namespace SharedFiles

/-- What can happen. -/
inductive Step (n : ℕ) where
  /-- A page fault of a process at an address. -/
  | fault (i : Fin n) (cause : BitVec 64) (a : ℕ)
  /-- A process stores a byte. -/
  | store (i : Fin n) (a : ℕ) (b : UInt8)

variable {n : ℕ} {V : Type}

/-- What a page fault of a process works on. -/
def context (s : SharedFiles n V) (i : Fin n) : FaultContext V :=
  ⟨s.virtualMemory i, s.pageTable i, s.vmm, s.pageCache⟩

/-- The physical memory and the page cache are taken from a context. -/
def withContext (s : SharedFiles n V) (c : FaultContext V) : SharedFiles n V :=
  { s with vmm := c.vmm, pageCache := c.pageCache }

/-- The frame of an address of a process. -/
def frame (s : SharedFiles n V) (i : Fin n) (a : ℕ) : Option (BitVec 64) :=
  frameAt s.vmm.mem (s.pageTable i) (BitVec.ofNat 64 a)

/-- The byte at an address of a process. -/
def load (s : SharedFiles n V) (i : Fin n) (a : ℕ) : Option UInt8 :=
  (s.frame i a).map fun f => pageByte (s.vmm.mem f) (a % pageSize)

/-- Store a byte at an address of a process. -/
def store (s : SharedFiles n V) (i : Fin n) (a : ℕ) (b : UInt8) : SharedFiles n V :=
  match s.frame i a with
  | none => s
  | some f =>
    { s with vmm := ⟨update s.vmm.mem f (setPageByte (s.vmm.mem f) (a % pageSize) b), s.vmm.free⟩ }

section

variable [ReadableVNode V]

/-- A page fault, whether it is served or not. -/
def fault (s : SharedFiles n V) (i : Fin n) (cause : BitVec 64) (a : ℕ) : SharedFiles n V :=
  s.withContext (finalState (FaultContext.handlePageFault cause a) (s.context i))

/-- One step. -/
def step (s : SharedFiles n V) : Step n → SharedFiles n V
  | .fault i cause a => s.fault i cause a
  | .store i a b => s.store i a b

/-- The steps of a run. -/
def run (s : SharedFiles n V) (es : List (Step n)) : SharedFiles n V := es.foldl step s

end

/-- The address of a process belongs to a shared mapping of a file. -/
structure Shared (s : SharedFiles n V) (i : Fin n) (a : ℕ) (m : Mapping V)
    (fm : FileMapping V) : Prop where
  mem : m ∈ (s.virtualMemory i).activeSet
  shared : m.shared = true
  file : m.backing = .file fm
  low : m.base ≤ a
  high : a < m.base + m.length
  canonical : a < 2 ^ 48

/-- The page of the file that is at an address of a mapping: offsets in a file have 64 bits. -/
def filePage (m : Mapping V) (fm : FileMapping V) (a : ℕ) : ℕ :=
  (a - m.base + fm.fileOffset) % usizeBound / pageSize

/-- The key of this page in the page cache. -/
def pageKey (key : INodeKey) (m : Mapping V) (fm : FileMapping V) (a : ℕ) : PageKey :=
  ⟨key, wadd (wsub (a - a % pageSize) m.base) fm.fileOffset⟩

/-- The steps are page faults on pages that are not present, and stores, in shared mappings of
files. -/
def InShared (s : SharedFiles n V) : Step n → Prop
  | .fault i cause a => hasFlags cause PageFaultConditions.present = false ∧
    ∃ m fm, s.Shared i a m fm
  | .store i a _ => ∃ m fm, s.Shared i a m fm

/-- The mappings of the processes are disjoint and of whole pages, also of the files. -/
structure Mapped (s : SharedFiles n V) : Prop where
  paged : ∀ i, (s.virtualMemory i).Paged
  offset : ∀ i m fm, m ∈ (s.virtualMemory i).activeSet → m.backing = .file fm →
    fm.fileOffset % pageSize = 0

/-- The roots of the page tables. -/
def roots (s : SharedFiles n V) : List (BitVec 64) := ofFn fun i => rootOf (s.pageTable i)

/-- Before the first page fault: every process has a tree of tables of its own, without the pages of
its shared mappings, and the page cache is empty. -/
structure Untouched (s : SharedFiles n V) : Prop extends s.Mapped where
  separate : Separate s.roots s.vmm
  absent : ∀ i a m fm, s.Shared i a m fm → s.frame i a = none
  empty : ∀ key, s.pageCache key = none

/-! ## What every step keeps -/

variable {s t : SharedFiles n V} {i j : Fin n} {a b : ℕ} {m m' : Mapping V} {fm fm' : FileMapping V}
  {f g : BitVec 64}
  {key key' : INodeKey}

lemma mem_roots (s : SharedFiles n V) (i : Fin n) : rootOf (s.pageTable i) ∈ s.roots :=
  mem_ofFn.mpr ⟨i, rfl⟩

lemma root_ne (h : Separate s.roots s.vmm) (hij : i ≠ j) :
    rootOf (s.pageTable i) ≠ rootOf (s.pageTable j) := fun heq =>
  hij (nodup_ofFn.mp h.nodup heq)

/-- The frames of a process stay as long as its tables do. -/
lemma frame_congr (h : Separate s.roots s.vmm) (htable : t.pageTable i = s.pageTable i)
    (hmem : ∀ q u, q.length ≤ 3 → walk next s.vmm.mem (rootOf (s.pageTable i)) q = some u →
      ∀ k, t.vmm.mem u k = s.vmm.mem u k) (a : ℕ) : t.frame i a = s.frame i a := by
  obtain ⟨ref, href⟩ := h.tree _ (s.mem_roots i)
  have hnew : TreeInv Set.univ (rootOf (s.pageTable i)) (⟨t.vmm.mem, s.vmm.free⟩ :
    Vmm).mem s.vmm.free ref :=
    href.congr hmem href.unfree
  rw [frame, frame, htable, frameAt_eq href]
  exact frameAt_eq (s := ⟨t.vmm.mem, s.vmm.free⟩) hnew _

/-- Mapped addresses on one page belong to one mapping. -/
lemma Shared.eq_of_page (hs : s.Mapped) (ha : s.Shared i a m fm) (hb : s.Shared i b m' fm')
    (hpage : a - a % pageSize = b - b % pageSize) : m = m' ∧ fm = fm' := by
  have hm := (hs.paged i).upperBound_eq ha.mem ha.low ha.high
  have hm' := (hs.paged i).upperBound_eq hb.mem hb.low hb.high
  rw [hpage, hm'] at hm
  cases hm
  have hfile := ha.file.symm.trans hb.file
  cases hfile
  exact ⟨rfl, rfl⟩

/-- Canonical addresses with one path are on one page. -/
lemma page_eq_of_path (ha : a < 2 ^ 48) (hb : b < 2 ^ 48)
    (hpath : pathOf (BitVec.ofNat 64 a) = pathOf (BitVec.ofNat 64 b)) :
    a - a % pageSize = b - b % pageSize := by
  rw [← FaultContext.pathOf_page a, ← FaultContext.pathOf_page b] at hpath
  have hval : ∀ x < 2 ^ 48, (BitVec.ofNat 64 (x - x % pageSize)).toNat = x - x % pageSize := by
    intro x hx
    rw [BitVec.toNat_ofNat]
    exact Nat.mod_eq_of_lt (by omega)
  have haligned : ∀ x < 2 ^ 48, (BitVec.ofNat 64 (x - x % pageSize)).toNat % pageSize = 0 := by
    intro x hx
    rw [hval x hx]
    simp only [pageSize]
    omega
  have heq := (pathOf_eq_iff (haligned a ha) (haligned b hb)).mp hpath
  rw [hval a ha, hval b hb] at heq
  omega

/-- The offset in the key is where the page of the file starts. -/
lemma pageKey_offset (hs : s.Mapped) (ha : s.Shared i a m fm) (key : INodeKey) :
    (pageKey key m fm a).offset = filePage m fm a * pageSize := by
  obtain ⟨hbase, -, -⟩ := (hs.paged i).mapping_paged m ha.mem
  have hoffset := hs.offset i m fm ha.mem ha.file
  have hcanonical := ha.canonical
  have hlow := ha.low
  simp only [pageKey, filePage]
  have hsub : wsub (a - a % pageSize) m.base = a - a % pageSize - m.base := by
    refine wsub_eq ?_ ?_
    · simp only [usizeBound]
      omega
    · simp only [pageSize] at *
      omega
  rw [hsub, wadd]
  simp only [pageSize, usizeBound] at *
  omega

/-- Pages have one key if they are the same page of the same file. -/
lemma pageKey_eq_iff (hs : s.Mapped) (ha : s.Shared i a m fm) (hb : s.Shared j b m' fm') :
    pageKey key m fm a = pageKey key' m' fm' b ↔
    key = key' ∧ filePage m fm a = filePage m' fm' b := by
  have hoffset := pageKey_offset hs ha key
  have hoffset' := pageKey_offset hs hb key'
  constructor
  · intro heq
    refine ⟨congrArg PageKey.inodeKey heq, ?_⟩
    rw [heq, hoffset'] at hoffset
    simp only [pageSize] at hoffset
    omega
  · rintro ⟨rfl, hpage⟩
    rw [← hpage, ← hoffset] at hoffset'
    exact congrArg (PageKey.mk key) hoffset'.symm

section

variable [ReadableVNode V]

/-- The trees are separate, every page in the page cache has a frame of its own that is not used for
anything else, and the pages of shared mappings have the frames of the page cache. -/
structure Inv (s : SharedFiles n V) : Prop extends s.Mapped where
  separate : Separate s.roots s.vmm
  cached : ∀ key f, s.pageCache key = some f → DataFrame s.roots s.vmm f
  injective : ∀ key key' f, s.pageCache key = some f → s.pageCache key' = some f → key = key'
  entered : ∀ i a m fm f, s.Shared i a m fm → s.frame i a = some f →
    ∃ key, ReadableVNode.getInodeKey fm.vnode = .ok key ∧ s.pageCache (pageKey key m fm a) = some f

/-- A frame that is not used for anything. -/
structure Unused (s : SharedFiles n V) (f : BitVec 64) : Prop where
  data : DataFrame s.roots s.vmm f
  uncached : ∀ key, s.pageCache key ≠ some f

lemma Untouched.inv (h : s.Untouched) : s.Inv where
  toMapped := h.toMapped
  separate := h.separate
  cached key f hf := by
    rw [h.empty] at hf
    cases hf
  injective key key' f hf := by
    rw [h.empty] at hf
    cases hf
  entered i a m fm f ha hf := by
    rw [h.absent i a m fm ha] at hf
    cases hf

section

omit [ReadableVNode V]

/-- The frame that is written stays unused. -/
lemma Unused.write (hf : s.Unused f) (page : Fin ptePerPage → BitVec 64) :
    Unused { s with vmm := ⟨update s.vmm.mem f page, s.vmm.free⟩ } f :=
  ⟨hf.data.of_mem (hf.data.mem_update page) fun _ hg => hg, hf.uncached⟩

/-- An entry of a map to which one entry was added. -/
lemma update_eq_some {c : PageKey → Option (BitVec 64)} {key k : PageKey}
    (h : update c key (some f) k = some g) : (k = key ∧ f = g) ∨ (k ≠ key ∧ c k = some g) := by
  rcases eq_or_ne k key with rfl | hne
  · rw [update_self] at h
    exact .inl ⟨rfl, Option.some.inj h⟩
  · rw [update_of_ne hne] at h
    exact .inr ⟨hne, h⟩

end

section

variable (h : s.Inv) {vmm : Vmm}
include h

/-- Memory that is not used for tables changes, and no frame is given back. -/
lemma Inv.of_mem
    (hmem : ∀ r ∈ s.roots, ∀ q t, q.length ≤ 3 → walk next s.vmm.mem r q = some t → ∀ k,
      vmm.mem t k = s.vmm.mem t k)
    (hfree : ∀ f ∈ vmm.free, f ∈ s.vmm.free) (hpool : PoolOk vmm.free) :
    Inv { s with vmm := vmm } where
  toMapped := ⟨h.paged, h.offset⟩
  separate := h.separate.of_mem hmem hfree hpool
  cached key f hf := (h.cached key f hf).of_mem hmem hfree
  injective := h.injective
  entered i a m fm f ha hf := by
    rw [frame_congr (t := { s with vmm := vmm }) h.separate rfl (hmem _ (s.mem_roots i))] at hf
    exact h.entered i a m fm f ⟨ha.mem, ha.shared, ha.file, ha.low, ha.high, ha.canonical⟩ hf

/-- A frame is taken. -/
lemma Inv.take {free : List (BitVec 64)} (hs : s.vmm.free = f :: free) :
    Inv { s with vmm := ⟨s.vmm.mem, free⟩ } ∧ Unused { s with vmm := ⟨s.vmm.mem, free⟩ } f := by
  have hnodup := h.separate.pool.nodup
  rw [hs, nodup_cons] at hnodup
  have hfree : ∀ g ∈ free, g ∈ s.vmm.free := fun g hg => by simp [hs, hg]
  have hin : f ∈ s.vmm.free := by simp [hs]
  refine ⟨h.of_mem (fun _ _ _ _ _ _ _ => rfl) hfree ⟨hnodup.2,
    fun g hg => h.separate.pool.aligned g (hfree g hg)⟩,
    ⟨hnodup.1, h.separate.pool.aligned f hin, fun r hr q hq ht => ?_⟩, fun key hkey => ?_⟩
  · obtain ⟨ref, href⟩ := h.separate.tree r hr
    exact href.unfree q f hq ht hin
  · exact (h.cached key f hkey).unfree hin

/-- A frame without a table is written. -/
lemma Inv.write (hf : DataFrame s.roots s.vmm f) (page : Fin ptePerPage → BitVec 64) :
    Inv { s with vmm := ⟨update s.vmm.mem f page, s.vmm.free⟩ } :=
  h.of_mem (hf.mem_update page) (fun _ hg => hg) h.separate.pool

/-- A page that is not in the page cache gets an unused frame. -/
lemma Inv.cache (hf : s.Unused f) {key : PageKey} (hkey : s.pageCache key = none) :
    Inv { s with pageCache := update s.pageCache key (some f) } where
  toMapped := ⟨h.paged, h.offset⟩
  separate := h.separate
  cached key' g hg := by
    rcases update_eq_some hg with ⟨-, rfl⟩ | ⟨-, hold⟩
    · exact hf.data
    · exact h.cached key' g hold
  injective k k' g hg hg' := by
    rcases update_eq_some hg with ⟨rfl, rfl⟩ | ⟨-, hold⟩
    · rcases update_eq_some hg' with ⟨rfl, -⟩ | ⟨-, hold'⟩
      · rfl
      · exact absurd hold' (hf.uncached k')
    · rcases update_eq_some hg' with ⟨-, rfl⟩ | ⟨-, hold'⟩
      · exact absurd hold (hf.uncached k)
      · exact h.injective k k' g hold hold'
  entered i a m fm g ha hg := by
    obtain ⟨inode, hinode, hold⟩ :=
      h.entered i a m fm g ⟨ha.mem, ha.shared, ha.file, ha.low, ha.high, ha.canonical⟩ hg
    have hne : pageKey inode m fm a ≠ key := by
      intro heq
      rw [heq, hkey] at hold
      cases hold
    exact ⟨inode, hinode, (update_of_ne hne ..).trans hold⟩

/-- Work on the page table of a process that leaves its pages as they are, up to the one at an
address, which gets the frame of the page cache. -/
lemma Inv.confined (hcon : Confined (rootOf (s.pageTable i)) s.vmm vmm)
    {ref ref' : Path → Option (BitVec 64)}
    (hold : TreeInv Set.univ (rootOf (s.pageTable i)) s.vmm.mem s.vmm.free ref)
    (hnew : TreeInv Set.univ (rootOf (s.pageTable i)) vmm.mem vmm.free ref')
    (hpool : PoolOk vmm.free)
    (ha : s.Shared i a m fm) (hkey : ReadableVNode.getInodeKey fm.vnode = .ok key)
    (hcache : s.pageCache (pageKey key m fm a) = some f)
    (hpages : ∀ q, ref' q = ref q ∨ (q = pathOf (BitVec.ofNat 64 a) ∧ ref' q = some f)) :
    Inv { s with vmm := vmm } where
  toMapped := ⟨h.paged, h.offset⟩
  separate := h.separate.of_confined (s.mem_roots i) hcon ⟨ref', hnew⟩ hpool
  cached key' g hg := (h.cached key' g hg).of_confined h.separate (s.mem_roots i) hcon
  injective := h.injective
  entered j b m' fm' g hb hg := by
    replace hb : s.Shared j b m' fm' := ⟨hb.mem, hb.shared, hb.file, hb.low, hb.high, hb.canonical⟩
    rcases eq_or_ne j i with rfl | hne
    · have hframe : ref' (pathOf (BitVec.ofNat 64 b)) = some g := (frameAt_eq hnew _).symm.trans hg
      rcases hpages (pathOf (BitVec.ofNat 64 b)) with hsame | ⟨hpath, hval⟩
      · refine h.entered j b m' fm' g hb ?_
        rw [frame, frameAt_eq hold, ← hsame, hframe]
      · -- the address is on the page of the fault
        have hpage := page_eq_of_path ha.canonical hb.canonical hpath.symm
        obtain ⟨rfl, rfl⟩ := Shared.eq_of_page h.toMapped ha hb hpage
        cases hval.symm.trans hframe
        refine ⟨key, hkey, ?_⟩
        simp only [pageKey, ← hpage] at hcache ⊢
        exact hcache
    · refine h.entered j b m' fm' g hb ?_
      rw [← hg]
      exact (frame_congr (t := { s with vmm := vmm }) h.separate rfl
        (h.separate.mem_of_confined (s.mem_roots i) hcon (s.mem_roots j) (root_ne h.separate hne))
        b).symm

end

/-! ## The handler -/

/-- In the state `s` the handler of a process has come to a context. -/
structure During (s : SharedFiles n V) (i : Fin n) (c : FaultContext V) : Prop where
  virtualMemory : c.virtualMemory = s.virtualMemory i
  pageTable : c.pageTable = s.pageTable i
  inv : (s.withContext c).Inv

open FaultContext

/-- A frame is taken. -/
lemma frameAlloc_during : Triple (s.During i) (onVmm frameAlloc)
    (fun f c => s.During i c ∧ (s.withContext c).Unused f) (s.During i) := by
  refine ⟨fun c h => ?_⟩
  cases hfree : c.vmm.free with
  | nil =>
    have herr : onVmm frameAlloc c = .error (.frame .waiting) c := by
      simp [onVmm, frameAlloc, hfree]
    rw [herr]
    exact h
  | cons f free =>
    have hok : onVmm frameAlloc c = .ok f { c with vmm := ⟨c.vmm.mem, free⟩ } := by
      have hpool : PoolOk c.vmm.free := h.inv.separate.pool
      simp only [onVmm, frameAlloc_eq hpool hfree]
    rw [hok]
    obtain ⟨hinv, hunused⟩ := h.inv.take hfree
    exact ⟨⟨h.virtualMemory, h.pageTable, hinv⟩, hunused⟩

/-- A page of a file is read into an unused frame. -/
lemma readPage_during (file : V) (offset : ℕ) {key : PageKey} :
    Triple (fun c => (s.During i c ∧ (s.withContext c).Unused f) ∧ c.pageCache key = none)
    (readPage file f offset)
      (fun _ c => (s.During i c ∧ (s.withContext c).Unused f) ∧ c.pageCache key = none)
      (s.During i) := by
  unfold readPage
  cases ReadableVNode.readPage file offset with
  | error e => exact throw _ fun _ h => h.1.1
  | ok bytes =>
    refine modifyState fun c h => ?_
    obtain ⟨⟨hduring, hunused⟩, hkey⟩ := h
    exact ⟨⟨⟨hduring.virtualMemory, hduring.pageTable, hduring.inv.write hunused.data _⟩,
      hunused.write _⟩, hkey⟩

/-- A page that is not in the page cache is put into it. -/
lemma getFilePage_during (key : PageKey) : Triple (fun c => s.During i c ∧ c.pageCache key = none)
    (getFilePage key)
      (fun paddr c => s.During i c ∧ c.pageCache key = some paddr) (s.During i) := by
  have halloc : Triple (fun c => s.During i c ∧ c.pageCache key = none) (onVmm frameAlloc)
      (fun f c => (s.During i c ∧ (s.withContext c).Unused f) ∧
        c.pageCache key = none) (s.During i) := by
    refine of_cases (fun c f c' h e => ⟨frameAlloc_during.of_ok h.1 e, ?_⟩)
      fun c e c' h herr => frameAlloc_during.of_error h.1 herr
    have hcache : c'.pageCache = c.pageCache := by
      simp only [onVmm] at e
      split at e
      · cases e
        rfl
      · cases e
    rw [hcache]
    exact h.2
  refine bind halloc fun f => ?_
  cases (ReadableVNode.getInode key.inodeKey : Except FsError V) with
  | error e => exact throw _ fun _ h => h.1.1
  | ok file =>
    refine bind (readPage_during file key.offset) fun _ => ?_
    refine bind (Q := fun _ c => s.During i c ∧ c.pageCache key = some f)
      (modifyState fun c h => ?_) fun _ => pure fun _ h => h
    obtain ⟨⟨hduring, hunused⟩, hkey⟩ := h
    exact ⟨⟨hduring.virtualMemory, hduring.pageTable, hduring.inv.cache hunused hkey⟩,
      update_self ..⟩

/-- The frame of a page of a file is the one in the page cache. -/
lemma getPage_during (key : PageKey) : Triple (s.During i) (getPage key)
    (fun paddr c => s.During i c ∧ c.pageCache key = some paddr) (s.During i) := by
  refine ⟨fun c h => ?_⟩
  cases hcache : c.pageCache key with
  | some paddr =>
    have hok : getPage key c = .ok paddr c := by
      simp [getPage, hcache]
    rw [hok]
    exact ⟨h, hcache⟩
  | none =>
    have hgo : getPage key c = getFilePage key c := by
      simp [getPage, hcache]
    rw [hgo]
    exact (getFilePage_during key).run c ⟨h, hcache⟩

/-- The page is entered with the frame from the page cache. -/
lemma virtualMap_during (ha : s.Shared i a m fm)
    (hkey : ReadableVNode.getInodeKey fm.vnode = .ok key)
    {permissions : PagingOptions} (hpresent : hasFlags permissions PagingOptions.present) :
    Triple (fun c => s.During i c ∧ c.pageCache (pageKey key m fm a) = some f)
      (virtualMap (a - a % pageSize) f permissions)
      (fun _ c => s.During i c ∧ (s.withContext c).frame i a = some f) (s.During i) := by
  refine ⟨fun c ⟨h, hcache⟩ => ?_⟩
  replace ha : (s.withContext c).Shared i a m fm :=
    ⟨ha.mem, ha.shared, ha.file, ha.low, ha.high, ha.canonical⟩
  obtain ⟨ref, href⟩ := h.inv.separate.tree _ ((s.withContext c).mem_roots i)
  rcases vmap_cases href h.inv.separate.pool (BitVec.ofNat 64 (a - a % pageSize)) f permissions with
    ⟨vmm, heq, hnew, hpool, hcon⟩ | ⟨vmm, heq, hnew, hpool, hcon⟩
  · have herr : virtualMap (a - a % pageSize) f permissions c =
      .error (.frame .waiting) { c with vmm := vmm } := by
      simp only [virtualMap, exec_bind, exec_get, onVmm, h.pageTable]
      rw [show vmap (s.pageTable i) _ f permissions c.vmm = _ from heq]
    rw [herr]
    exact ⟨h.virtualMemory, h.pageTable,
      h.inv.confined hcon href hnew hpool ha hkey hcache fun q => .inl rfl⟩
  · have hok : virtualMap (a - a % pageSize) f permissions c = .ok () { c with vmm := vmm } := by
      simp only [virtualMap, exec_bind, exec_get, onVmm, h.pageTable]
      rw [show vmap (s.pageTable i) _ f permissions c.vmm = _ from heq]
    have haligned : f &&& pteAddrMask = f := (h.inv.cached _ f hcache).aligned
    rw [next_entry hpresent, haligned, pathOf_page] at hnew
    rw [hok]
    refine ⟨⟨h.virtualMemory, h.pageTable,
      h.inv.confined hcon href hnew hpool ha hkey hcache fun q => ?_⟩, ?_⟩
    · rcases eq_or_ne q (pathOf (BitVec.ofNat 64 a)) with rfl | hne
      · exact .inr ⟨rfl, update_self ..⟩
      · exact .inl (update_of_ne hne ..)
    · exact (frameAt_eq hnew _).trans (update_self ..)

/-- The mappings are not changed. -/
lemma virtualMemory_step (s : SharedFiles n V) (e : Step n) :
    (s.step e).virtualMemory = s.virtualMemory := by
  cases e with
  | fault i cause a => rfl
  | store i a b =>
    simp only [step, store]
    split <;> rfl

lemma virtualMemory_run (s : SharedFiles n V) (es : List (Step n)) :
    (s.run es).virtualMemory = s.virtualMemory := by
  unfold run
  induction es generalizing s with
  | nil => rfl
  | cons e es ih => exact (ih (s.step e)).trans (s.virtualMemory_step e)

section

variable (h : s.Inv) {cause : BitVec 64}
include h

section

variable (hcause : hasFlags cause PageFaultConditions.present = false)
include hcause

/-- A page fault in a shared mapping of a file that is served gives the address a frame. -/
lemma handlePageFault_during (ha : s.Shared i a m fm) :
    Triple (· = s.context i) (handlePageFault cause a)
      (fun _ c => s.During i c ∧ (s.withContext c).frame i a ≠ none) (s.During i) := by
  have hstart : s.During i (s.context i) := ⟨rfl, rfl, h⟩
  have hpaged := h.paged i
  have hfound := hpaged.upperBound_eq ha.mem ha.low ha.high
  have hend : wadd m.base m.length = m.base + m.length := by
    have hinside := (hpaged.inside m ha.mem).2
    simp only [userspaceEnd] at hinside
    exact wadd_eq (by simp only [usizeBound]; omega)
  have hlt : a - a % pageSize < wadd m.base m.length := by
    have hhigh := ha.high
    omega
  have hshared : Triple (s.During i) (handleMappingShared (a - a % pageSize) m)
      (fun _ c => s.During i c ∧ (s.withContext c).frame i a ≠ none) (s.During i) := by
    unfold handleMappingShared
    refine guard _ (fun _ h => h) fun _ => ?_
    simp only [ha.file]
    cases hkey : ReadableVNode.getInodeKey fm.vnode with
    | error e => exact throw _ fun _ h => h
    | ok key =>
      refine bind (getPage_during (pageKey key m fm a)) fun f => ?_
      refine (virtualMap_during ha hkey (privatePermissions_present m)).weaken (fun _ h => h) fun _
        c h => ⟨h.1, ?_⟩
      rw [h.2]
      exact Option.some_ne_none f
  refine ⟨fun c hc => ?_⟩
  subst hc
  rw [handlePageFault_eq (c := s.context i) hcause hfound hlt, if_pos ha.shared]
  exact hshared.run _ hstart

/-- The mappings stay what they are. -/
lemma Inv.fault (ha : s.Shared i a m fm) : (s.fault i cause a).Inv :=
  (((handlePageFault_during h hcause ha).weaken (fun _ h => h) fun _ _ h => h.1).finalState rfl).inv

end

section

variable (ha : s.Shared i a m fm)
include ha

/-- A store goes to a frame of the page cache. -/
lemma Inv.store (b : UInt8) : (s.store i a b).Inv := by
  unfold SharedFiles.store
  cases hf : s.frame i a with
  | none => exact h
  | some f =>
    obtain ⟨key, -, hcache⟩ := h.entered i a m fm f ha hf
    exact h.write (h.cached _ f hcache) _

/-! ## Frames and bytes -/

/-- Two addresses have the same frame if they belong to the same page of the same file. -/
lemma Inv.frame_eq_iff (hb : s.Shared j b m' fm')
    (hkey : ReadableVNode.getInodeKey fm.vnode = .ok key)
    (hkey' : ReadableVNode.getInodeKey fm'.vnode = .ok key')
    (hf : s.frame i a = some f) (hg : s.frame j b = some g) :
    f = g ↔ key = key' ∧ filePage m fm a = filePage m' fm' b := by
  obtain ⟨k, hk, hcache⟩ := h.entered i a m fm f ha hf
  obtain ⟨k', hk', hcache'⟩ := h.entered j b m' fm' g hb hg
  cases hkey.symm.trans hk
  cases hkey'.symm.trans hk'
  rw [← pageKey_eq_iff h.toMapped ha hb]
  constructor
  · rintro rfl
    exact h.injective _ _ f hcache hcache'
  · intro heq
    rw [heq, hcache'] at hcache
    exact (Option.some.inj hcache).symm

/-- What is read after a store. -/
lemma Inv.load_store (hf : s.frame i a = some f) (hg : s.frame j b = some g)
    (byte : UInt8) : (s.store i a byte).load j b =
      if f = g ∧ a % pageSize = b % pageSize then some byte else s.load j b := by
  obtain ⟨key, -, hcache⟩ := h.entered i a m fm f ha hf
  have hdata := h.cached _ f hcache
  have hframe : (s.store i a byte).frame j b = s.frame j b := by
    simp only [SharedFiles.store, hf]
    exact frame_congr (t := { s with vmm := ⟨update s.vmm.mem f _, s.vmm.free⟩ }) h.separate rfl
      (hdata.mem_update _ _ (s.mem_roots j)) b
  have hlt : b % pageSize < pageSize := Nat.mod_lt b (by decide)
  simp only [load, hframe, hg, Option.map_some]
  simp only [SharedFiles.store, hf]
  rcases eq_or_ne g f with rfl | hne
  · rw [update_self, KernelCores.pageByte_setPageByte _ _ _ hlt]
    by_cases hoffset : b % pageSize = a % pageSize
    · simp [hoffset]
    · simp [hoffset, Ne.symm hoffset]
  · rw [update_of_ne hne]
    simp [Ne.symm hne]

end

/-- Every step keeps the invariant. -/
lemma Inv.step {e : Step n} (he : s.InShared e) : (s.step e).Inv := by
  cases e with
  | fault i cause a =>
    obtain ⟨hcause, m, fm, ha⟩ := he
    exact h.fault hcause ha
  | store i a b =>
    obtain ⟨m, fm, ha⟩ := he
    exact h.store ha b

end

/-- Shared mappings are those of the first state. -/
lemma Shared.run (ha : s.Shared i a m fm) (es : List (Step n)) : (s.run es).Shared i a m fm :=
  ⟨by rw [virtualMemory_run]; exact ha.mem, ha.shared, ha.file, ha.low, ha.high, ha.canonical⟩

/-- After any page faults and stores in shared mappings, two addresses that have frames have the
same one, at the same offset, if and only if they are at the same offset of the same page of the
same file.  A byte that is stored at one of them is what is read at the other one in this case, and
it is not seen there otherwise.  An address has a frame as soon as a page fault at it is served. -/
theorem shared_pages_agree (s : SharedFiles n V) (hs : s.Untouched) (es : List (Step n))
    (hes : AlongRun step InShared s es) :
    (∀ i j a b m m' fm fm' key key' f g, s.Shared i a m fm → s.Shared j b m' fm' →
      ReadableVNode.getInodeKey fm.vnode = .ok key →
      ReadableVNode.getInodeKey fm'.vnode = .ok key' →
      (s.run es).frame i a = some f → (s.run es).frame j b = some g →
      ((f = g ∧ a % pageSize = b % pageSize) ↔
          ((key = key' ∧ filePage m fm a = filePage m' fm' b) ∧ a % pageSize = b % pageSize)) ∧
        ∀ byte, ((s.run es).store i a byte).load j b =
          if (key = key' ∧ filePage m fm a = filePage m' fm' b) ∧
          a % pageSize = b % pageSize then some byte
          else (s.run es).load j b) ∧
    ∀ i cause a m fm c, hasFlags cause PageFaultConditions.present = false → s.Shared i a m fm →
      handlePageFault cause a ((s.run es).context i) = .ok () c →
      ((s.run es).fault i cause a).frame i a ≠ none := by
  have h : (s.run es).Inv := hes.invariant (fun s e hs he => hs.step he) hs.inv
  refine ⟨fun i j a b m m' fm fm' key key' f g ha hb hkey hkey' hf hg => ?_,
    fun i cause a m fm c hcause ha hc => ?_⟩
  · have hiff := h.frame_eq_iff (ha.run es) (hb.run es) hkey hkey' hf hg
    refine ⟨and_congr_left fun _ => hiff, fun byte => ?_⟩
    rw [h.load_store (ha.run es) hf hg byte]
    simp only [hiff]
  · rw [fault, finalState_of_ok hc]
    exact ((handlePageFault_during h hcause (ha.run es)).of_ok rfl hc).2

end

/-! ## Two processes and a file -/

instance : ReadableVNode OrdinaryFile where
  readUnaligned _ _ len := .ok (replicate len 0)
  readPage _ _ := .ok fun _ => 0
  getInodeKey file := .ok ⟨0, file.inumber⟩
  getInode key := .ok ⟨key.inumber⟩

/-- The request for a shared page of a file at a fixed base. -/
def sharedPage (base : ℕ) : MmapRequest OrdinaryFile :=
  ⟨some ⟨⟨7⟩, 0, none⟩, 4096, PagingOptions.writable, true, some base⟩

/-- Two processes have mapped the same page of a file, at different addresses. -/
def twoProcesses : SharedFiles 2 OrdinaryFile where
  virtualMemory i :=
    VirtualMemory.new.afterRequest (sharedPage (if i.val = 0 then 0x20000 else 0x40000))
  pageTable i := if i.val = 0 then 0x10000#64 else 0x11000#64
  vmm := eightFrames
  pageCache _ := none

/-- The mapping of a process. -/
def sharedMapping (base : ℕ) : Mapping OrdinaryFile :=
  ⟨.file ⟨⟨7⟩, 0, none⟩, 4096, PagingOptions.writable, true, base⟩

lemma activeSet_sharedPage (i : Fin 2) :
    (twoProcesses.virtualMemory i).activeSet.toList =
      [sharedMapping (if i.val = 0 then 0x20000 else 0x40000)] := by
  fin_cases i
  · rfl
  · rfl

/-- The addresses of the processes in the mapped page. -/
lemma shared_twoProcesses (i : Fin 2) (hlow : (if i.val = 0 then 0x20000 else 0x40000) ≤ a)
    (hhigh : a < (if i.val = 0 then 0x20000 else 0x40000) + 4096) :
    twoProcesses.Shared i a (sharedMapping (if i.val = 0 then 0x20000 else 0x40000)) ⟨⟨7⟩,
      0, none⟩ where
  mem := by
    rw [SortedTree.mem_def, activeSet_sharedPage]
    exact mem_singleton_self _
  shared := rfl
  file := rfl
  low := hlow
  high := hhigh
  canonical := by split_ifs at hhigh <;> omega

/-- The first state of the two processes. -/
lemma untouched_twoProcesses : twoProcesses.Untouched where
  paged i := by
    refine paged_new.afterRequest ⟨show 0 < 4096 by decide, fun a ha => ?_⟩
    cases ha
    fin_cases i
    · exact ⟨by decide, by decide⟩
    · exact ⟨by decide, by decide⟩
  offset i m fm hm hfile := by
    rw [SortedTree.mem_def, activeSet_sharedPage, mem_singleton] at hm
    rw [hm] at hfile
    cases hfile
    rfl
  separate := by
    have hfree : ∀ r ∈ twoProcesses.roots, r ∉ eightFrames.free := by
      intro r hr
      obtain ⟨i, rfl⟩ := mem_ofFn.mp hr
      fin_cases i <;> decide
    refine ⟨nodup_ofFn.mpr (by decide), fun r hr => ⟨_, treeInv_zero (fun _ => rfl) (hfree r hr)⟩,
      fun r hr r' hr' q q' t _ _ ht ht' => ?_, poolOk_eightFrames⟩
    rw [← (walk_zero (fun _ => rfl) ht).2, ← (walk_zero (fun _ => rfl) ht').2]
  absent i a m fm _ := by
    have htree : TreeInv Set.univ (rootOf (twoProcesses.pageTable i)) eightFrames.mem
      eightFrames.free fun _ => none :=
      treeInv_zero (fun _ => rfl) (by fin_cases i <;> decide)
    exact frameAt_eq (s := eightFrames) htree _
  empty _ := rfl

/-- Both processes touch their page, and a byte that one of them stores is read by the other one. -/
theorem shared_pages_agree_two :
    ((twoProcesses.run [.fault 0 0#64 0x20123, .fault 1 0#64 0x40456]).store 0 0x20123 98).load 1
    0x40123 =
      some 98 := by
  have hes : AlongRun step InShared twoProcesses [.fault 0 0#64 0x20123, .fault 1 0#64 0x40456] :=
    ⟨⟨by decide, _, _, shared_twoProcesses 0 (by decide) (by decide)⟩,
      ⟨by decide, _, _,
        (shared_twoProcesses 1 (by decide) (by decide)).run [.fault 0 0#64 0x20123]⟩, trivial⟩
  have hagree :=
    (shared_pages_agree twoProcesses untouched_twoProcesses _ hes).1 0 1 0x20123 0x40123 _ _ _ _
    ⟨0, 7⟩ ⟨0, 7⟩ 0x1000#64 0x1000#64 (shared_twoProcesses 0 (by decide) (by decide))
    (shared_twoProcesses 1 (by decide) (by decide)) rfl rfl (by decide +kernel) (by decide +kernel)
  exact (hagree.2 98).trans (if_pos (by decide))

end SharedFiles

end CabOS
