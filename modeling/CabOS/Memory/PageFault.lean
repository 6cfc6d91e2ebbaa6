import CabOS.Arch.AArch64.VmmRuns
import CabOS.Fs.Vfs
import CabOS.Library.LittleEndian

/-!
# Page faults of user programs

Memory that a program has mapped gets its pages when they are used for the first time.
`FaultContext.handlePageFault` looks up the mapping of an address, takes a frame, fills it from the
file or with zeros and enters it into the page table of the process; the pages of shared files come
from the page cache.

Frames with tables and frames with bytes lie in the same physical memory.  `FaultContext.Ready` says
that the page table is well-formed and how many frames are free, and `FaultContext.Spare` that a
frame is neither a table nor free: such a frame keeps its bytes in a page fault.
-/

namespace CabOS

open AArch64 TableTree Function PagingOptions ReadableVNode

/-! ## Bytes of frames -/

/-- The words of a frame that holds the given bytes. -/
def packPage (bytes : ℕ → UInt8) : Fin ptePerPage → BitVec 64 :=
  fun i => BitVec.ofNat 64 (readLE bytes (8 * i) 8)

/-- A byte of a frame. -/
def pageByte (page : Fin ptePerPage → BitVec 64) (k : ℕ) : UInt8 :=
  UInt8.ofNat ((page (Fin.ofNat ptePerPage (k / 8))).toNat / 256 ^ (k % 8))

/-- The bytes of a frame are read back. -/
lemma pageByte_packPage (bytes : ℕ → UInt8) {k : ℕ} (hk : k < pageSize) :
    pageByte (packPage bytes) k = bytes k := by
  have hdiv : k / 8 < ptePerPage := by
    simp only [pageSize, ptePerPage] at *
    omega
  have hword : readLE bytes (8 * (k / 8)) 8 < 2 ^ 64 := lt_of_lt_of_eq readLE_lt (by norm_num)
  rw [pageByte, packPage, Fin.val_ofNat, Nat.mod_eq_of_lt hdiv, BitVec.toNat_ofNat,
    Nat.mod_eq_of_lt hword,
    readLE_byte (Nat.mod_lt k (by decide)), Nat.div_add_mod]

/-! ## The handler -/

namespace PageFaultConditions

/-- The page is present. -/
def present : BitVec 64 := 1#64 <<< 0

end PageFaultConditions

/-- The ways a page fault is not served. -/
inductive PageFaultError where
  | err (message : String)
  | panic
  /-- The frame allocator does not return. -/
  | frame (fault : FrameFault)
  deriving DecidableEq, Repr

/-- A page of a file. -/
structure PageKey where
  inodeKey : INodeKey
  offset : ℕ
  deriving DecidableEq, Repr

/-- What a page fault works on: the mappings of the process and its page table, the physical memory
and the page cache. -/
structure FaultContext (V : Type) where
  virtualMemory : VirtualMemory V
  pageTable : BitVec 64
  vmm : Vmm
  pageCache : PageKey → Option (BitVec 64)

namespace FaultContext

variable {V : Type}

/-- Run a computation on the physical memory. -/
def onVmm {α : Type} (x : EStateM FrameFault Vmm α) : EStateM PageFaultError (FaultContext V) α :=
  fun c =>
  match x c.vmm with
  | .ok a t => .ok a { c with vmm := t }
  | .error e t => .error (.frame e) { c with vmm := t }

/-- Fill a frame. -/
def storePage (frame : BitVec 64) (bytes : ℕ → UInt8) :
    EStateM PageFaultError (FaultContext V) Unit :=
  modify fun c => { c with vmm := ⟨update c.vmm.mem frame (packPage bytes), c.vmm.free⟩ }

/-- Enter a page into the page table of the process. -/
def virtualMap (vaddr : ℕ) (paddr : BitVec 64) (permissions : PagingOptions) :
    EStateM PageFaultError (FaultContext V) Unit := do
  let c ← get
  onVmm (vmap c.pageTable (BitVec.ofNat 64 vaddr) paddr permissions)

/-- Take a page out of the page table of the process. -/
def invlpg (vaddr : ℕ) : EStateM PageFaultError (FaultContext V) Unit := do
  let c ← get
  let _ ← onVmm (vunmapNoDealloc c.pageTable (BitVec.ofNat 64 vaddr))

variable [ReadableVNode V]

/-- Read a page of a file into a frame. -/
def readPage (file : V) (frame : BitVec 64) (offset : ℕ) :
    EStateM PageFaultError (FaultContext V) Unit :=
  match ReadableVNode.readPage file offset with
  | .ok bytes => storePage frame bytes
  | .error _ => throw (.err "could not read from file")

/-- Put a page of a file into the page cache. -/
def getFilePage (key : PageKey) : EStateM PageFaultError (FaultContext V) (BitVec 64) := do
  let paddr ← onVmm frameAlloc
  match (ReadableVNode.getInode key.inodeKey : Except FsError V) with
  | .error _ => throw (.err "could not get inode")
  | .ok file =>
    readPage file paddr key.offset
    modify fun c => { c with pageCache := update c.pageCache key (some paddr) }
    pure paddr

/-- The frame with a page of a file, from the page cache. -/
def getPage (key : PageKey) : EStateM PageFaultError (FaultContext V) (BitVec 64) := do
  let c ← get
  match c.pageCache key with
  | some paddr => pure paddr
  | none => getFilePage key

/-- Enter the page of a shared mapping. -/
def handleMappingShared (vaddr : ℕ) (mapping : Mapping V) :
    EStateM PageFaultError (FaultContext V) Unit := do
  if vaddr % pageSize ≠ 0 then throw .panic
  match mapping.backing with
  | .file fm =>
    match ReadableVNode.getInodeKey fm.vnode with
    | .error _ => throw (.err "could not get inode key")
    | .ok inodeKey =>
      let paddr ← getPage ⟨inodeKey, wadd (wsub vaddr mapping.base) fm.fileOffset⟩
      virtualMap vaddr paddr (PagingOptions.present ||| cacheable |||
        userAccessible ||| mapping.prot)
  | .device paddr memoryInfo =>
    virtualMap vaddr (BitVec.ofNat 64 (wadd paddr (wsub vaddr mapping.base)))
      (PagingOptions.present ||| userAccessible ||| mapping.prot ||| memoryInfo)
  | .anonymous => throw (.err "shared anonymous mappings not implemented")

/-- The attributes of a page of a private mapping. -/
def privatePermissions (mapping : Mapping V) : PagingOptions :=
  PagingOptions.present ||| cacheable ||| userAccessible ||| mapping.prot

/-- The bytes of a page that come from the file; from `fileBytes` on the frame keeps what it has, or
the file fills the page up. -/
def fillPartial (fm : FileMapping V) (frame : BitVec 64) (pageOffset fileBytes : ℕ) :
    EStateM PageFaultError (FaultContext V) Unit := do
  if fileBytes > 0 then
    match ReadableVNode.getInodeKey fm.vnode with
    | .error _ => throw (.err "could not get inode key")
    | .ok inodeKey =>
      let c ← get
      match c.pageCache ⟨inodeKey, wadd pageOffset fm.fileOffset⟩ with
      | some filePaddr =>
        storePage frame fun k =>
          if k < fileBytes then pageByte (c.vmm.mem filePaddr) k else pageByte (c.vmm.mem frame) k
      | none => readPage fm.vnode frame (wadd pageOffset fm.fileOffset)

/-- Enter a page that does not come from the file as a whole.  The result says whether the page is
of this kind. -/
def handleMappingPrivatePartial (vaddr : ℕ) (mapping : Mapping V) (fileLength : ℕ) :
    EStateM PageFaultError (FaultContext V) Bool := do
  let pageOffset := wsub vaddr mapping.base
  if wadd pageOffset pageSize ≤ fileLength then
    pure false
  else
    match mapping.backing with
    | .file fm =>
      let privatePaddr ← onVmm frameAlloc
      let fileBytes := fileLength - pageOffset
      fillPartial fm privatePaddr pageOffset fileBytes
      let c ← get
      storePage privatePaddr fun k =>
        if k < fileBytes then pageByte (c.vmm.mem privatePaddr) k else 0
      virtualMap vaddr privatePaddr (privatePermissions mapping)
      pure true
    | _ => throw (.err "partial file mapping has non-file backing")

/-- Enter the page of a private mapping. -/
def handleMappingPrivate (vaddr : ℕ) (mapping : Mapping V) :
    EStateM PageFaultError (FaultContext V) Unit := do
  if vaddr % pageSize ≠ 0 then throw .panic
  match mapping.backing with
  | .file fm =>
    let done ← match fm.fileLength with
      | some fileLength => handleMappingPrivatePartial vaddr mapping fileLength
      | none => pure false
    if !done then
      let paddr ← onVmm frameAlloc
      virtualMap vaddr paddr (privatePermissions mapping)
      readPage fm.vnode paddr (wadd (wsub vaddr mapping.base) fm.fileOffset)
  | .device _ _ => throw (.err "Private device mappings are not supported")
  | .anonymous =>
    let paddr ← onVmm frameAlloc
    virtualMap vaddr paddr (privatePermissions mapping)
    storePage paddr fun _ => 0

/-- Serve a page fault at an address of the process. -/
def handlePageFault (cause : BitVec 64) (address : ℕ) :
    EStateM PageFaultError (FaultContext V) Unit := do
  let vaddr := address - address % pageSize
  let c ← get
  match c.virtualMemory.activeSet.upperBound vaddr with
  | none => throw (.err "nothing is mapped")
  | some mapping =>
    if wadd mapping.base mapping.length ≤ vaddr then throw (.err "out of mapped range")
    if hasFlags cause PageFaultConditions.present then invlpg vaddr
    if mapping.shared then handleMappingShared vaddr mapping else handleMappingPrivate vaddr mapping

/-- Serve a page fault at a user address; an error stops the kernel. -/
def handleUserPageFault (cause : BitVec 64) (address : ℕ) :
    EStateM PageFaultError (FaultContext V) Unit :=
  fun c =>
    match handlePageFault cause address c with
    | .ok _ c' => .ok () c'
    | .error (.err _) c' => .error .panic c'
    | .error e c' => .error e c'

/-! ## Frames and tables -/

/-- The page table is well-formed and maps the pages of `ref`, and at least `n` frames are free. -/
structure Ready (c : FaultContext V) (ref : Path → Option (BitVec 64)) (n : ℕ) : Prop where
  tree : TreeInv Set.univ (rootOf c.pageTable) c.vmm.mem c.vmm.free ref
  pool : PoolOk c.vmm.free
  frames : n ≤ c.vmm.free.length

/-- The frame is neither a table of the process nor free. -/
structure Spare (c : FaultContext V) (frame : BitVec 64) : Prop where
  unfree : frame ∉ c.vmm.free
  not_table : ∀ q, q.length ≤ 3 → walk next c.vmm.mem (rootOf c.pageTable) q ≠ some frame

/-- Mappings, page table and spare frames stay as they are. -/
structure Keeps (c c' : FaultContext V) : Prop where
  virtualMemory : c'.virtualMemory = c.virtualMemory
  pageTable : c'.pageTable = c.pageTable
  spare : ∀ frame, c.Spare frame → c'.Spare frame ∧ c'.vmm.mem frame = c.vmm.mem frame

variable {c c' c'' : FaultContext V} {ref : Path → Option (BitVec 64)} {n vaddr : ℕ}
  {f : BitVec 64} {file : V}
  {offset : ℕ}

section

omit [ReadableVNode V]

lemma Keeps.refl (c : FaultContext V) : c.Keeps c := ⟨rfl, rfl, fun _ h => ⟨h, rfl⟩⟩

lemma Keeps.trans (h : c.Keeps c') (h' : c'.Keeps c'') : c.Keeps c'' := by
  refine ⟨h'.virtualMemory.trans h.virtualMemory, h'.pageTable.trans h.pageTable,
    fun frame hf => ?_⟩
  obtain ⟨hf', hmem⟩ := h.spare frame hf
  obtain ⟨hf'', hmem'⟩ := h'.spare frame hf'
  exact ⟨hf'', hmem'.trans hmem⟩

lemma Ready.mono {m : ℕ} (h : c.Ready ref n) (hm : m ≤ n) : c.Ready ref m :=
  ⟨h.tree, h.pool, hm.trans h.frames⟩

/-- A frame that was free is handed out. -/
lemma Ready.frameAlloc (h : c.Ready ref (n + 1)) :
    ∃ f c', onVmm AArch64.frameAlloc c = .ok f c' ∧ c'.Ready ref n ∧ c'.Spare f ∧ c.Keeps c' ∧
      ¬ c.Spare f ∧ f &&& pteAddrMask = f ∧ c'.pageCache = c.pageCache := by
  cases hs : c.vmm.free with
  | nil =>
    have hframes := h.frames
    simp [hs] at hframes
  | cons f free =>
    have hmem : f ∈ c.vmm.free := by simp [hs]
    have hnd := h.pool.nodup
    have hframes := h.frames
    rw [hs, List.nodup_cons] at hnd
    rw [hs, List.length_cons] at hframes
    have hsub : ∀ g ∈ free, g ∈ c.vmm.free := fun g hg => by simp [hs, hg]
    refine ⟨f, { c with vmm :=
      ⟨c.vmm.mem, free⟩ }, ?_, ⟨?_, ⟨hnd.2, ?_⟩, Nat.le_of_succ_le_succ hframes⟩, ⟨hnd.1, ?_⟩,
      ⟨rfl, rfl, fun g hg => ⟨⟨fun hfree => hg.unfree (hsub g hfree), hg.not_table⟩, rfl⟩⟩,
      fun hspare => hspare.unfree hmem, h.pool.aligned f hmem, rfl⟩
    · simp only [onVmm, frameAlloc_eq h.pool hs]
    · exact h.tree.congr (fun _ _ _ _ _ => rfl) fun q t hq ht hfree =>
        h.tree.unfree q t hq ht (hsub t hfree)
    · exact fun g hg => h.pool.aligned g (hsub g hg)
    · exact fun q hq ht => h.tree.unfree q f hq ht hmem

/-- Only the bytes of the frame `f` have changed. -/
structure Fills (c c' : FaultContext V) (f : BitVec 64) : Prop where
  virtualMemory : c'.virtualMemory = c.virtualMemory
  pageTable : c'.pageTable = c.pageTable
  pageCache : c'.pageCache = c.pageCache
  spare : ∀ g, c.Spare g → c'.Spare g ∧ (g ≠ f → c'.vmm.mem g = c.vmm.mem g)

lemma Fills.refl (c : FaultContext V) (f : BitVec 64) : c.Fills c f :=
  ⟨rfl, rfl, rfl, fun _ hg => ⟨hg, fun _ => rfl⟩⟩

lemma Fills.trans (h : c.Fills c' f) (h' : c'.Fills c'' f) : c.Fills c'' f := by
  refine ⟨h'.virtualMemory.trans h.virtualMemory, h'.pageTable.trans h.pageTable,
    h'.pageCache.trans h.pageCache, fun g hg => ?_⟩
  obtain ⟨hg', hmem⟩ := h.spare g hg
  obtain ⟨hg'', hmem'⟩ := h'.spare g hg'
  exact ⟨hg'', fun hne => (hmem' hne).trans (hmem hne)⟩

/-- Filling a frame that was free before keeps the spare frames. -/
lemma Keeps.fills (h : c.Keeps c') (hf : ¬ c.Spare f) (h' : c'.Fills c'' f) : c.Keeps c'' := by
  refine ⟨h'.virtualMemory.trans h.virtualMemory, h'.pageTable.trans h.pageTable, fun g hg => ?_⟩
  obtain ⟨hg', hmem⟩ := h.spare g hg
  obtain ⟨hg'', hmem'⟩ := h'.spare g hg'
  exact ⟨hg'', (hmem' fun heq => hf (heq ▸ hg)).trans hmem⟩

/-- A spare frame is filled. -/
lemma Ready.storePage (h : c.Ready ref n) (hf : c.Spare f) (bytes : ℕ → UInt8) :
    ∃ c', storePage f bytes c = .ok () c' ∧ c'.Ready ref n ∧ c.Fills c' f ∧
      ∀ k < pageSize, pageByte (c'.vmm.mem f) k = bytes k := by
  have hsame : ∀ q t, q.length ≤ 3 → walk next c.vmm.mem (rootOf c.pageTable) q = some t →
      ∀ i, update c.vmm.mem f (packPage bytes) t i = c.vmm.mem t i := by
    intro q t hq ht i
    have hne : t ≠ f := fun heq => hf.not_table q hq (heq ▸ ht)
    rw [update_of_ne hne]
  have hwalk : ∀ q : Path, q.length ≤ 3 →
    walk next (update c.vmm.mem f (packPage bytes)) (rootOf c.pageTable) q =
        walk next c.vmm.mem (rootOf c.pageTable) q :=
    fun q hq => walk_congr_reached (n := 3) hsame (by omega)
  refine ⟨_, rfl, ⟨h.tree.congr hsame h.tree.unfree, h.pool, h.frames⟩,
    ⟨rfl, rfl, rfl, fun g hg => ⟨⟨hg.unfree, fun q hq ht => ?_⟩, fun hne => ?_⟩⟩, fun k hk => ?_⟩
  · exact hg.not_table q hq ((hwalk q hq).symm.trans ht)
  · exact update_of_ne hne ..
  · rw [← pageByte_packPage bytes hk]
    exact congrArg (pageByte · k) (update_self ..)

/-- Work that is confined to the page table keeps the spare frames. -/
lemma Keeps.of_confined {s' : Vmm} (hcon : Confined (rootOf c.pageTable) c.vmm s') :
    c.Keeps { c with vmm := s' } := by
  refine ⟨rfl, rfl, fun g hg => ?_⟩
  obtain ⟨hspare, hmem⟩ := hcon.spare ⟨hg.unfree, hg.not_table⟩
  exact ⟨⟨hspare.unfree, hspare.not_table⟩, hmem⟩

/-- A page is entered into the page table, which takes at most three frames. -/
lemma Ready.virtualMap (h : c.Ready ref (n + 3)) (vaddr : ℕ) (paddr : BitVec 64)
    {permissions : PagingOptions} (hpresent : hasFlags permissions present) :
    ∃ c', virtualMap vaddr paddr permissions c = .ok () c' ∧
      c'.Ready (update ref (pathOf (BitVec.ofNat 64 vaddr)) (some (paddr &&& pteAddrMask))) n ∧
      c.Keeps c' ∧ c'.pageCache = c.pageCache := by
  obtain ⟨s', e, htree, hpool, hlen, hcon⟩ :=
    vmap_spec h.tree h.pool h.frames (BitVec.ofNat 64 vaddr) paddr hpresent
  refine ⟨{ c with vmm := s' }, ?_, ⟨htree, hpool, hlen⟩, .of_confined hcon, rfl⟩
  simp [FaultContext.virtualMap, onVmm, e]

/-! ## Private mappings -/

/-- The page at `vaddr` is entered with the frame `f`, which was free before. -/
structure Enters (c c' : FaultContext V) (ref : Path → Option (BitVec 64)) (n vaddr : ℕ)
    (f : BitVec 64) : Prop where
  ready : c'.Ready (update ref (pathOf (BitVec.ofNat 64 vaddr)) (some f)) n
  keeps : c.Keeps c'
  spare : c'.Spare f
  fresh : ¬ c.Spare f
  aligned : f &&& pteAddrMask = f
  pageCache : c'.pageCache = c.pageCache

lemma privatePermissions_present (mapping : Mapping V) :
    hasFlags (privatePermissions mapping) present :=
  hasFlags_or (hasFlags_or (hasFlags_or (by decide) _) _) _

end

/-- A page of a file is read into a spare frame. -/
lemma Ready.readPage (h : c.Ready ref n) (hf : c.Spare f) {bytes : ℕ → UInt8}
    (hread : ReadableVNode.readPage file offset = .ok bytes) :
    ∃ c', readPage file f offset c = .ok () c' ∧ c'.Ready ref n ∧ c.Fills c' f ∧
      ∀ k < pageSize, pageByte (c'.vmm.mem f) k = bytes k := by
  rw [FaultContext.readPage, hread]
  exact h.storePage hf bytes

/-- A byte of a page of a private mapping of a file, when the page of the file has the given bytes.
-/
def privateByte (fileLength : Option ℕ) (pageOffset : ℕ) (bytes : ℕ → UInt8) (k : ℕ) : UInt8 :=
  match fileLength with
  | some fileLength =>
    if wadd pageOffset pageSize ≤ fileLength ∨ k < fileLength - pageOffset then bytes k else 0
  | none => bytes k

variable {mapping : Mapping V} {fm : FileMapping V} {key : INodeKey} {pageOffset : ℕ}
  {bytes : ℕ → UInt8}

/-- No page of the file is in the page cache. -/
def Uncached (c : FaultContext V) (file : V) : Prop :=
  ∀ key, ReadableVNode.getInodeKey file = .ok key → ∀ offset, c.pageCache ⟨key, offset⟩ = none

/-- The page of the file from an offset on has the given bytes in the page cache, if it is there, in
a frame that is in use. -/
def CacheAgrees (c : FaultContext V) (file : V) (offset : ℕ) (bytes : ℕ → UInt8) : Prop :=
  ∀ key, ReadableVNode.getInodeKey file = .ok key →
  ∀ paddr, c.pageCache ⟨key, offset⟩ = some paddr →
    c.Spare paddr ∧ ∀ k < pageSize, pageByte (c.vmm.mem paddr) k = bytes k

/-- A page that is not in the cache has no wrong bytes there. -/
lemma Uncached.agrees (h : c.Uncached file) (offset : ℕ) (bytes : ℕ → UInt8) :
    c.CacheAgrees file offset bytes := by
  intro key hkey paddr hpaddr
  rw [h key hkey] at hpaddr
  cases hpaddr

/-- Frames of the page cache keep their bytes while the handler works. -/
lemma CacheAgrees.keeps (h : c.CacheAgrees file offset bytes) (hkeeps : c.Keeps c')
    (hcache : c'.pageCache = c.pageCache) : c'.CacheAgrees file offset bytes := by
  intro key hkey paddr hpaddr
  rw [hcache] at hpaddr
  obtain ⟨hspare, hbytes⟩ := h key hkey paddr hpaddr
  obtain ⟨hspare', hmem⟩ := hkeeps.spare paddr hspare
  refine ⟨hspare', fun k hk => ?_⟩
  rw [hmem]
  exact hbytes k hk

/-- The handler stops because the file has no key. -/
def Keyless {α : Type} (file : V) (r : EStateM.Result PageFaultError (FaultContext V) α) : Prop :=
  (∃ e, ReadableVNode.getInodeKey file = .error e) ∧
  ∃ c, r = .error (.err "could not get inode key") c

/-- The bytes that come from the file. -/
lemma Ready.fillPartial (h : c.Ready ref n) (hf : c.Spare f) (fileBytes : ℕ)
    (hread : ReadableVNode.readPage fm.vnode (wadd pageOffset fm.fileOffset) = .ok bytes) :
    (∃ c', fillPartial fm f pageOffset fileBytes c = .ok () c' ∧ c'.Ready ref n ∧
      c.Fills c' f ∧ (c.CacheAgrees fm.vnode (wadd pageOffset fm.fileOffset) bytes →
        ∀ k < pageSize, k < fileBytes → pageByte (c'.vmm.mem f) k = bytes k)) ∨
    Keyless fm.vnode (fillPartial fm f pageOffset fileBytes c) := by
  unfold FaultContext.fillPartial
  by_cases hpos : fileBytes > 0
  · cases hkey : getInodeKey fm.vnode with
    | error e =>
      refine .inr ⟨⟨e, hkey⟩, c, ?_⟩
      simp [if_pos hpos]
    | ok key =>
      refine .inl ?_
      simp only [if_pos hpos, exec_bind, exec_get]
      cases hcache : c.pageCache ⟨key, wadd pageOffset fm.fileOffset⟩ with
      | none =>
        obtain ⟨c', e, hready, hfills, hbytes⟩ := h.readPage hf hread
        exact ⟨c', e, hready, hfills, fun _ k hk _ => hbytes k hk⟩
      | some filePaddr =>
        obtain ⟨c', e, hready, hfills, hstored⟩ := h.storePage hf fun k =>
          if k < fileBytes then pageByte (c.vmm.mem filePaddr) k else pageByte (c.vmm.mem f) k
        refine ⟨c', e, hready, hfills, fun hagrees k hk hlt => ?_⟩
        rw [hstored k hk, if_pos hlt]
        exact (hagrees key hkey filePaddr hcache).2 k hk
  · rw [if_neg hpos]
    exact .inl ⟨c, rfl, h, .refl c f, fun _ k _ hk => absurd hk (by omega)⟩

section

variable (h : c.Ready ref (n + 4))
include h

/-- A page that is only in part in the file, or behind its end. -/
lemma Ready.handleMappingPrivatePartial (hbacking : mapping.backing = .file fm) {fileLength : ℕ}
    (hread : ReadableVNode.readPage fm.vnode
      (wadd (wsub vaddr mapping.base) fm.fileOffset) = .ok bytes)
    (hpart : ¬ wadd (wsub vaddr mapping.base) pageSize ≤ fileLength) :
    (∃ c' f, handleMappingPrivatePartial vaddr mapping fileLength c = .ok true c' ∧
      c.Enters c' ref n vaddr f ∧
      (c.CacheAgrees fm.vnode (wadd (wsub vaddr mapping.base) fm.fileOffset) bytes →
        ∀ k < pageSize, pageByte (c'.vmm.mem f) k =
          if k < fileLength - wsub vaddr mapping.base then bytes k else 0)) ∨
    Keyless fm.vnode (handleMappingPrivatePartial vaddr mapping fileLength c) := by
  obtain ⟨f, c₁, e₁, h₁, hf₁, hkeeps₁, hfresh, hmask, hcache₁⟩ := Ready.frameAlloc (n := n + 3) h
  rcases h₁.fillPartial hf₁ (fileLength - wsub vaddr mapping.base) hread with
    ⟨c₂, e₂, h₂, hfills₂, hbytes₂⟩ | ⟨hkey, c₂, e₂⟩
  · have hf₂ := (hfills₂.spare f hf₁).1
    obtain ⟨c₃, e₃, h₃, hfills₃, hbytes₃⟩ := h₂.storePage hf₂ fun k =>
      if k < fileLength - wsub vaddr mapping.base then pageByte (c₂.vmm.mem f) k else 0
    have hf₃ := (hfills₃.spare f hf₂).1
    obtain ⟨c₄, e₄, h₄, hkeeps₄, hcache₄⟩ :=
      h₃.virtualMap vaddr f (privatePermissions_present mapping)
    obtain ⟨hf₄, hmem₄⟩ := hkeeps₄.spare f hf₃
    rw [hmask] at h₄
    refine .inl ⟨c₄, f, ?_,
      ⟨h₄, (hkeeps₁.fills hfresh (hfills₂.trans hfills₃)).trans hkeeps₄, hf₄, hfresh, hmask, ?_⟩,
      fun hagrees k hk => ?_⟩
    · simp only [FaultContext.handleMappingPrivatePartial, if_neg hpart, hbacking,
        exec_bind, e₁, e₂,
        exec_get, e₃, e₄, exec_pure]
    · rw [hcache₄, hfills₃.pageCache, hfills₂.pageCache, hcache₁]
    · rw [hmem₄, hbytes₃ k hk]
      split_ifs with hlt
      · exact hbytes₂ (hagrees.keeps hkeeps₁ hcache₁) k hk hlt
      · rfl
  · refine .inr ⟨hkey, c₂, ?_⟩
    simp [FaultContext.handleMappingPrivatePartial, if_neg hpart, hbacking, e₁, e₂]

/-- A frame is entered and then filled from the file. -/
lemma Ready.enterFilePage (mapping : Mapping V)
    (hread : ReadableVNode.readPage fm.vnode
      (wadd (wsub vaddr mapping.base) fm.fileOffset) = .ok bytes) :
    ∃ c' f, (do
        let paddr ← onVmm AArch64.frameAlloc
        FaultContext.virtualMap vaddr paddr (privatePermissions mapping)
        FaultContext.readPage fm.vnode paddr (wadd (wsub vaddr mapping.base) fm.fileOffset) :
        EStateM PageFaultError (FaultContext V) Unit) c = .ok () c' ∧ c.Enters c' ref n vaddr f ∧
      ∀ k < pageSize, pageByte (c'.vmm.mem f) k = bytes k := by
  obtain ⟨f, c₁, e₁, h₁, hf₁, hkeeps₁, hfresh, hmask, hcache₁⟩ := Ready.frameAlloc (n := n + 3) h
  obtain ⟨c₂, e₂, h₂, hkeeps₂, hcache₂⟩ :=
    h₁.virtualMap vaddr f (privatePermissions_present mapping)
  have hf₂ := (hkeeps₂.spare f hf₁).1
  obtain ⟨c₃, e₃, h₃, hfills₃, hbytes₃⟩ := h₂.readPage hf₂ hread
  rw [hmask] at h₃
  refine ⟨c₃, f, ?_, ⟨h₃, (hkeeps₁.trans hkeeps₂).fills hfresh hfills₃, (hfills₃.spare f hf₂).1,
    hfresh, hmask, ?_⟩,
    hbytes₃⟩
  · simp [e₁, e₂, e₃]
  · rw [hfills₃.pageCache, hcache₂, hcache₁]

/-- The page of a private mapping of a file. -/
lemma Ready.handleMappingPrivate_file (hvaddr : vaddr % pageSize = 0)
    (hbacking : mapping.backing = .file fm)
    (hread : ReadableVNode.readPage fm.vnode
      (wadd (wsub vaddr mapping.base) fm.fileOffset) = .ok bytes) :
    (∃ c' f, FaultContext.handleMappingPrivate vaddr mapping c = .ok () c' ∧
      c.Enters c' ref n vaddr f ∧
      (c.CacheAgrees fm.vnode (wadd (wsub vaddr mapping.base) fm.fileOffset) bytes →
        ∀ k < pageSize, pageByte (c'.vmm.mem f) k =
          privateByte fm.fileLength (wsub vaddr mapping.base) bytes k)) ∨
    fm.fileLength.isSome ∧ Keyless fm.vnode (handleMappingPrivate vaddr mapping c) := by
  obtain ⟨c', f, e, henters, hbytes⟩ := h.enterFilePage mapping hread
  have hwhole : ¬ vaddr % pageSize ≠ 0 := not_not_intro hvaddr
  cases hlen : fm.fileLength with
  | none =>
    refine .inl ⟨c', f, ?_, henters, fun _ => hbytes⟩
    simp only [FaultContext.handleMappingPrivate, if_neg hwhole, hbacking, hlen, pure_bind,
      Bool.not_false,
      if_true, e]
  | some fileLength =>
    by_cases hpart : wadd (wsub vaddr mapping.base) pageSize ≤ fileLength
    · refine .inl ⟨c', f, ?_, henters, fun _ k hk => ?_⟩
      · simp only [FaultContext.handleMappingPrivate, if_neg hwhole, hbacking, hlen,
          FaultContext.handleMappingPrivatePartial, if_pos hpart, pure_bind,
          Bool.not_false, if_true, e]
      · rw [hbytes k hk, privateByte, if_pos (.inl hpart)]
    · rcases h.handleMappingPrivatePartial hbacking hread hpart with
        ⟨c', f, e, henters, hbytes⟩ | ⟨hkey, c', e⟩
      · refine .inl ⟨c', f, ?_, henters, fun hagrees k hk => ?_⟩
        · simp [handleMappingPrivate, if_neg hwhole, hbacking, hlen, e]
        · rw [hbytes hagrees k hk, privateByte]
          simp [hpart]
      · refine .inr ⟨rfl, hkey, c', ?_⟩
        simp [handleMappingPrivate, if_neg hwhole, hbacking, hlen, e]

/-- The page of a private mapping without a file. -/
lemma Ready.handleMappingPrivate_anonymous (hvaddr : vaddr % pageSize = 0)
    (hbacking : mapping.backing = .anonymous) :
    ∃ c' f, handleMappingPrivate vaddr mapping c = .ok () c' ∧ c.Enters c' ref n vaddr f := by
  have hwhole : ¬ vaddr % pageSize ≠ 0 := not_not_intro hvaddr
  obtain ⟨f, c₁, e₁, h₁, hf₁, hkeeps₁, hfresh, hmask, hcache₁⟩ := Ready.frameAlloc (n := n + 3) h
  obtain ⟨c₂, e₂, h₂, hkeeps₂, hcache₂⟩ :=
    h₁.virtualMap vaddr f (privatePermissions_present mapping)
  have hf₂ := (hkeeps₂.spare f hf₁).1
  obtain ⟨c₃, e₃, h₃, hfills₃, -⟩ := h₂.storePage hf₂ fun _ => 0
  rw [hmask] at h₃
  refine ⟨c₃, f, ?_, h₃, (hkeeps₁.trans hkeeps₂).fills hfresh hfills₃, (hfills₃.spare f hf₂).1,
    hfresh, hmask, ?_⟩
  · simp [handleMappingPrivate, if_neg hwhole, hbacking, e₁, e₂, e₃]
  · rw [hfills₃.pageCache, hcache₂, hcache₁]

end

/-! ## Shared mappings -/

/-- The frame of a page of a file that the file system knows. -/
lemma Ready.getPage (h : c.Ready ref (n + 1)) (hfile : getInode key = .ok file)
    (hread : ReadableVNode.readPage file offset = .ok bytes) :
    ∃ c' paddr, getPage ⟨key, offset⟩ c = .ok paddr c' ∧ c'.Ready ref n ∧
      c'.virtualMemory = c.virtualMemory ∧ c'.pageTable = c.pageTable := by
  cases hcache : c.pageCache ⟨key, offset⟩ with
  | some paddr =>
    refine ⟨c, paddr, ?_, h.mono (Nat.le_succ n), rfl, rfl⟩
    simp only [FaultContext.getPage, exec_bind, exec_get, hcache, exec_pure]
  | none =>
    obtain ⟨f, c₁, e₁, h₁, hf₁, hkeeps₁, -⟩ := Ready.frameAlloc (n := n) h
    obtain ⟨c₂, e₂, h₂, hfills₂, -⟩ := h₁.readPage hf₁ hread
    refine ⟨{ c₂ with pageCache := update c₂.pageCache ⟨key, offset⟩ (some f) }, f, ?_,
      ⟨h₂.tree, h₂.pool, h₂.frames⟩, hfills₂.virtualMemory.trans hkeeps₁.virtualMemory,
      hfills₂.pageTable.trans hkeeps₁.pageTable⟩
    simp only [FaultContext.getPage, exec_bind, exec_get, hcache, FaultContext.getFilePage,
      e₁, hfile, e₂,
      exec_modify, exec_pure]

/-- The page of a shared mapping of a file that the file system knows. -/
lemma Ready.handleMappingShared_file (h : c.Ready ref (n + 4)) (hvaddr : vaddr % pageSize = 0)
    (hbacking : mapping.backing = .file fm) (hkey : getInodeKey fm.vnode = .ok key)
    (hfile : getInode key = .ok file)
    (hread : ReadableVNode.readPage file
      (wadd (wsub vaddr mapping.base) fm.fileOffset) = .ok bytes) :
    ∃ c' paddr, handleMappingShared vaddr mapping c = .ok () c' ∧ c'.pageTable = c.pageTable ∧
      c'.Ready (update ref (pathOf (BitVec.ofNat 64 vaddr)) (some paddr)) n := by
  have hwhole : ¬ vaddr % pageSize ≠ 0 := not_not_intro hvaddr
  obtain ⟨c₁, paddr, e₁, h₁, -, htable⟩ := Ready.getPage (n := n + 3) h hfile hread
  have hpresent : hasFlags (present ||| cacheable ||| userAccessible ||| mapping.prot) present :=
    privatePermissions_present mapping
  obtain ⟨c₂, e₂, h₂, hkeeps, -⟩ := h₁.virtualMap vaddr paddr hpresent
  refine ⟨c₂, _, ?_, hkeeps.pageTable.trans htable, h₂⟩
  simp [handleMappingShared, if_neg hwhole, hbacking, hkey, e₁, e₂]

/-- The page of a shared mapping of a device. -/
lemma Ready.handleMappingShared_device (h : c.Ready ref (n + 3)) (hvaddr : vaddr % pageSize = 0)
    {base : ℕ} {memoryInfo : PagingOptions} (hbacking : mapping.backing = .device base memoryInfo) :
    ∃ c' paddr, handleMappingShared vaddr mapping c = .ok () c' ∧ c'.pageTable = c.pageTable ∧
      c'.Ready (update ref (pathOf (BitVec.ofNat 64 vaddr)) (some paddr)) n := by
  have hwhole : ¬ vaddr % pageSize ≠ 0 := not_not_intro hvaddr
  have hpresent : hasFlags (present ||| userAccessible ||| mapping.prot ||| memoryInfo) present :=
    hasFlags_or (hasFlags_or (hasFlags_or (by decide) _) _) _
  obtain ⟨c', e, hready, hkeeps, -⟩ :=
    h.virtualMap vaddr (BitVec.ofNat 64 (wadd base (wsub vaddr mapping.base))) hpresent
  refine ⟨c', _, ?_, hkeeps.pageTable, hready⟩
  simp only [handleMappingShared, if_neg hwhole, hbacking, e]

end FaultContext

end CabOS
