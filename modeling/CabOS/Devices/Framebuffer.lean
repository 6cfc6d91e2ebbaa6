import CabOS.Memory.PageFaultEffects
import CabOS.Memory.PageFaultRuns

/-!
# The framebuffer in user space

The framebuffer is a character device of the device file system, and a program can map it.  The
device checks the offset of a mapping but not its end, and `mmap` does not know how long the device
is: a mapping that is longer than the framebuffer shows the physical pages behind it
(`framebuffer_fault_behind`).  A shared mapping shows pages of the framebuffer only exactly if it
ends with the last one of them or before (`framebuffer_fault_inside`); no page of a private mapping
of a device is ever entered.
-/

namespace CabOS

open AArch64 VirtualMemory VNode FaultContext SortedTree Nat PagingOptions

variable {V : Type} {length base : ℕ} {shared : Bool} {backing : MapBacking V} {fm : FileMapping V}

/-! ## Devices -/

/-- Errors of character devices. -/
inductive CharDeviceError where
  | readError
  | writeError
  | other (message : String)
  deriving DecidableEq, Repr

/-- The framebuffer: the physical address that the kernel translates its address to, if there is
one, and the number of its bytes. -/
structure LimineFramebuffer where
  paddr : Option (BitVec 64)
  length : ℕ
  deriving DecidableEq, Repr

namespace LimineFramebuffer

/-- The framebuffer at an address of the kernel. -/
def new (mem : TableMem) (kernelSpace addr : BitVec 64) (height pitch : ℕ) : LimineFramebuffer :=
  ⟨getPhysAddr mem addr kernelSpace, wmul height pitch⟩

/-- The backing of a mapping of the framebuffer. -/
def prepareMmap (fb : LimineFramebuffer) (offset : ℕ) : Except CharDeviceError (MapBacking V) :=
  match fb.paddr with
  | none => .error (.other "Could not get physical address")
  | some paddr =>
    if offset ≥ fb.length then .error (.other "Offset out of bounds")
    else .ok (.device (wadd paddr.toNat offset) 0)

end LimineFramebuffer

/-- Character devices: the framebuffer, and those that cannot be mapped. -/
inductive CharDevice where
  | limineFramebuffer (fb : LimineFramebuffer)
  | stream
  deriving DecidableEq, Repr

/-- The backing of a mapping of a character device. -/
def CharDevice.prepareMmap (offset : ℕ) : CharDevice → Except CharDeviceError (MapBacking V)
  | .limineFramebuffer fb => fb.prepareMmap offset
  | .stream => .error (.other "Nothing to prepare")

/-- The device behind a node. -/
inductive DeviceBackend where
  | block
  | char (device : CharDevice)
  deriving DecidableEq, Repr

/-- A node of the device file system. -/
structure DevINode where
  inumber : ℕ
  /-- The device; the root has none. -/
  device : Option DeviceBackend
  /-- The number of the file system, if it is registered. -/
  fsId : Option ℕ
  deriving DecidableEq, Repr

namespace DevINode

/-- The backing of a mapping of a device file. -/
def prepareMmap (node : DevINode) (offset : ℕ) : Except FsError (MapBacking V) :=
  match node.device with
  | some (.char device) => (device.prepareMmap offset).mapError fun _ => .invalidOperation
  | _ => .error .notImplemented

/-- The key of a node whose file system is registered. -/
def getInodeKey (node : DevINode) : Except FsError INodeKey :=
  match node.fsId with
  | some id => .ok ⟨id, node.inumber⟩
  | none => .error .readError

end DevINode

/-- A device file has no pages that can be read.  The bytes of the devices are not modelled: reads
fail. -/
instance : ReadableVNode DevINode where
  prepareMmap := DevINode.prepareMmap
  readUnaligned _ _ _ := .error .readError
  readPage _ _ := .error .notImplemented
  getInodeKey := DevINode.getInodeKey
  getInode _ := .error .notFound

/-- The file is a device file. -/
def IsDevice [VNode V] (v : V) (node : DevINode) : Prop :=
  ∀ offset, VNode.prepareMmap v offset = node.prepareMmap offset

/-! ## Page faults in a mapping of the framebuffer -/

/-- The page of `p` has an address of `[start, start + length)`. -/
def OnPageOf (start length p : ℕ) : Prop :=
  start / pageSize ≤ p / pageSize ∧ p / pageSize * pageSize < start + length

/-- The number of bytes of the pages of `[start, start + length)`. -/
def pagesLength (start length : ℕ) : ℕ :=
  (start + length + (pageSize - 1)) / pageSize * pageSize - start / pageSize * pageSize

/-- The bytes from the start of the first page of the range to the end of the last page that a
mapping enters.  If neither the range nor the mapping starts with a page, the pages that are entered
can be those behind. -/
def mappedLength (start base offset len : ℕ) : ℕ :=
  offset + len + if 0 < base % pageSize ∧ base % pageSize ≤ start % pageSize then pageSize else 0

/-- A page of a mapping that ends with the last page of the range is a page of the range. -/
lemma onPageOf_of_fits {start offset len vaddr : ℕ} (hoffset : offset % pageSize = 0)
    (hlen : len % pageSize = 0)
    (hfits : mappedLength start base offset len ≤ pagesLength start length)
    (hvaddr : vaddr % pageSize = 0) (hlo : base ≤ vaddr) (hhi : vaddr < base + len)
    (hend : start + length + 2 * pageSize ≤ 2 ^ 48) :
    start + offset + (vaddr - base) < 2 ^ 48 ∧
    OnPageOf start length (start + offset + (vaddr - base)) := by
  rw [mappedLength] at hfits
  split_ifs at hfits with hshift
  all_goals
    simp only [OnPageOf, pagesLength, pageSize] at *
    omega

/-- A longer mapping has a page that is the first one behind the range. -/
lemma exists_page_behind {start offset len : ℕ} (hoffset : offset % pageSize = 0)
    (hlen : len % pageSize = 0)
    (hpos : 0 < len) (hinside : offset < length)
    (hlong : ¬mappedLength start base offset len ≤ pagesLength start length)
    (hend : start + length + 2 * pageSize ≤ 2 ^ 48) :
    ∃ vaddr, vaddr % pageSize = 0 ∧ base ≤ vaddr ∧ vaddr < base + len ∧
      start + offset + (vaddr - base) < 2 ^ 48 ∧
      ¬OnPageOf start length (start + offset + (vaddr - base)) := by
  refine ⟨(base + 4095) / 4096 * 4096 + ((start + length + 4095) / 4096 -
    (start + offset + ((base + 4095) / 4096 * 4096 - base)) / 4096) * 4096, ?_⟩
  rw [mappedLength] at hlong
  split_ifs at hlong with hshift
  all_goals
    simp only [OnPageOf, pagesLength, pageSize] at *
    omega

/-- Whether the page of an address belongs to a range depends on the page only. -/
lemma onPageOf_congr {start p q : ℕ} (h : p / pageSize = q / pageSize) :
    OnPageOf start length p ↔ OnPageOf start length q := by
  rw [OnPageOf, OnPageOf, h]

/-- A served page fault found its address below the end of the mapping. -/
lemma FaultContext.lt_of_handlePageFault [ReadableVNode V] {c c' : FaultContext V} {m : Mapping V}
    {cause : BitVec 64} {a : ℕ}
    (hfound : c.virtualMemory.activeSet.upperBound (a - a % pageSize) = some m)
    (h : handlePageFault cause a c = .ok () c') : a - a % pageSize < wadd m.base m.length := by
  by_contra hge
  rw [not_lt] at hge
  simp only [handlePageFault, exec_bind, exec_get, hfound, if_pos hge, exec_throw] at h
  cases h

/-- A call that maps memory returned: the mapping has the backing that was prepared for it. -/
lemma VirtualMemory.mem_of_mmap_ok [VNode V] {vm vm' : VirtualMemory V}
    {file : Option (FileMapping V)}
    {prot : PagingOptions} {preferredBase : Option ℕ}
    (hok : mmap file length prot shared preferredBase vm = .ok base vm') :
    ∃ backing, prepareBacking file length shared = .ok backing ∧
      (⟨backing, length, prot, shared, base⟩ : Mapping V) ∈ vm'.activeSet := by
  unfold mmap at hok
  cases hprep : prepareBacking file length shared with
  | error e =>
    simp only [hprep, exec_throw] at hok
    cases hok
  | ok backing =>
    simp only [hprep] at hok
    obtain ⟨base', vm₁, -, hrest⟩ := exec_bind_eq_ok.mp hok
    simp only [exec_bind, exec_modify, exec_pure] at hrest
    cases hrest
    exact ⟨backing, rfl, mem_insert.mpr (Or.inl rfl)⟩

/-- An accepted offset is a multiple of the page size. -/
lemma VirtualMemory.offset_of_prepareBacking [VNode V]
    (h : prepareBacking (some fm) length shared = .ok backing) :
    fm.fileOffset % pageSize = 0 := by
  have hlength : ¬ length % pageSize ≠ 0 := not_not_intro (length_of_prepareBacking h)
  by_contra hne
  simp only [prepareBacking, if_neg hlength,
    if_pos (show fm.fileOffset % pageSize ≠ 0 from hne)] at h
  cases h

/-- The backing of a mapping of the framebuffer is the device at the offset, which is in the
framebuffer. -/
lemma prepareBacking_framebuffer [VNode V] {node : DevINode} {fb : LimineFramebuffer}
    (hdev : IsDevice fm.vnode node) (hnode : node.device = some (.char (.limineFramebuffer fb)))
    {start : BitVec 64} (hstart : fb.paddr = some start)
    (h : prepareBacking (some fm) length shared = .ok backing) :
    backing = .device (wadd start.toNat fm.fileOffset) 0 ∧ fm.fileOffset < fb.length := by
  have hlength : ¬ length % pageSize ≠ 0 := not_not_intro (length_of_prepareBacking h)
  have hoffset : ¬ fm.fileOffset % pageSize ≠ 0 :=
    not_not_intro (offset_of_prepareBacking h)
  have hprepare : prepareMmap fm.vnode fm.fileOffset =
      if fm.fileOffset ≥ fb.length then .error .invalidOperation
      else .ok (.device (wadd start.toNat fm.fileOffset) 0) := by
    rw [hdev]
    simp only [DevINode.prepareMmap, hnode, CharDevice.prepareMmap,
      LimineFramebuffer.prepareMmap, hstart]
    split_ifs <;> rfl
  simp only [prepareBacking, if_neg hlength, if_neg hoffset, hprepare] at h
  split_ifs at h with hbound
  · cases h
  · cases h
    exact ⟨rfl, not_le.mp hbound⟩

/-- A page fault that is served in a mapping of a device: the mapping is shared, and the page is the
one that the mapping names. -/
lemma FaultContext.served_device [ReadableVNode V] {c c' : FaultContext V}
    {ref : Path → Option (BitVec 64)}
    (hready : c.Ready ref 0) {cause : BitVec 64} {a paddr : ℕ} {memoryInfo prot : PagingOptions}
    (hfound : c.virtualMemory.activeSet.upperBound (a - a % pageSize) =
      some ⟨.device paddr memoryInfo, length, prot, shared, base⟩)
    (hserved : handlePageFault cause a c = .ok () c') :
    shared = true ∧ ∃ q, getPhysAddr c'.vmm.mem (BitVec.ofNat 64 a) c'.pageTable = some q ∧
      (wadd paddr (wsub (a - a % pageSize) base) < 2 ^ 48 →
        q.toNat / pageSize = wadd paddr (wsub (a - a % pageSize) base) / pageSize) := by
  -- the handler is done, so the page has the frame that the mapping names
  have hdone := (handlePageFault_triple hready cause hfound).of_ok rfl hserved
  obtain ⟨ref', hready', -, -, hpresent⟩ := hdone.ready
  obtain ⟨f, hf, hsource⟩ := hpresent trivial
  obtain ⟨hshared, hknown⟩ := hsource.resolve_right fun h => h.1 _ _ rfl
  refine ⟨hshared, f ||| (BitVec.ofNat 64 a &&& 0xFFF#64), ?_, fun hbound => ?_⟩
  · rw [pathOf_page] at hf
    rw [getPhysAddr_eq hready'.tree, hf, Option.map_some]
  · simp only [knownFrame, Option.some.injEq] at hknown
    rw [← hknown, (pageAligned_and_mask _).or_offset, toNat_and_mask, BitVec.toNat_ofNat,
      mod_eq_of_lt (lt_trans hbound (by norm_num : 2 ^ 48 < 2 ^ 64)), mod_eq_of_lt hbound]
    simp only [pageSize]
    omega

open FaultContext in
/-- Let the framebuffer be mapped, with any request that is accepted.  Every page fault that is then
served in this mapping, whatever else is mapped and present, enters a page of the framebuffer
exactly if the mapping is private, or no page of it can be used, or it ends with the last page of
the framebuffer or before. -/
theorem framebuffer_fault_inside [ReadableVNode V] (mem : TableMem)
    (kernelSpace addr start : BitVec 64)
    (height pitch : ℕ) (hstart : getPhysAddr mem addr kernelSpace = some start)
    (hend : start.toNat + height * pitch + 2 * pageSize ≤ 2 ^ 48) (node : DevINode)
    (hnode :
      node.device = some (.char (.limineFramebuffer (.new mem kernelSpace addr height pitch))))
    (rq : MmapRequest V) (hlength : rq.length < usizeBound) (fm : FileMapping V)
    (hfm : rq.file = some fm)
    (hdev : IsDevice fm.vnode node) (base : ℕ) (vm₀ vm : VirtualMemory V)
    (hok : mmap rq.file rq.length rq.pageFlags rq.shared rq.addr vm₀ = .ok base vm) :
    ∃ backing, prepareBacking rq.file rq.length rq.shared = .ok backing ∧
      (⟨backing, rq.length, rq.pageFlags, rq.shared, base⟩ : Mapping V) ∈ vm.activeSet ∧
      ((∀ (c : FaultContext V) (ref : Path → Option (BitVec 64)) (cause : BitVec 64) (a : ℕ)
        (c' : FaultContext V), a < usizeBound → c.Ready ref 0 →
        c.virtualMemory.activeSet.upperBound (a - a % pageSize) =
          some ⟨backing, rq.length, rq.pageFlags, rq.shared, base⟩ →
        handlePageFault cause a c = .ok () c' →
        ∃ q, getPhysAddr c'.vmm.mem (BitVec.ofNat 64 a) c'.pageTable = some q ∧
          OnPageOf start.toNat (height * pitch) q.toNat) ↔
      (rq.shared = true → 0 < rq.length → base + rq.length < usizeBound →
        mappedLength start.toNat base fm.fileOffset rq.length ≤
          pagesLength start.toNat (height * pitch))) := by
  obtain ⟨backing, hprep, hmem⟩ := mem_of_mmap_ok hok
  rw [hfm] at hprep ⊢
  obtain ⟨rfl, hinside⟩ := prepareBacking_framebuffer hdev hnode hstart hprep
  have hinside' : fm.fileOffset < height * pitch := hinside.trans_le (mod_le _ _)
  have hoffset := offset_of_prepareBacking hprep
  have hpages := length_of_prepareBacking hprep
  -- the page that the mapping names, without a wrap
  have hnamed : ∀ vaddr, base ≤ vaddr → vaddr < usizeBound →
      start.toNat + fm.fileOffset + (vaddr - base) < 2 ^ 48 →
      wadd (wadd start.toNat fm.fileOffset) (wsub vaddr base) = start.toNat + fm.fileOffset +
        (vaddr - base) := by
    intro vaddr hlo hvaddr hbound
    have hsum : start.toNat + fm.fileOffset < usizeBound := by
      simp only [usizeBound]
      omega
    rw [wsub_eq hvaddr hlo, wadd_eq hsum, wadd_eq (by simp only [usizeBound]; omega)]
  refine ⟨_, hprep, hmem, fun hall hshared hpos hwrap => ?_,
    fun hfits c ref cause a c' ha hready hfound hserved => ?_⟩
  · by_contra hlong
    obtain ⟨vaddr, hvaddr, hlo, hhi, hbound, hout⟩ :=
      exists_page_behind hoffset hpages hpos hinside' hlong hend
    -- a process with this mapping alone uses the page behind the framebuffer
    set m : Mapping V :=
      ⟨.device (wadd start.toNat fm.fileOffset) 0, rq.length, rq.pageFlags, rq.shared, base⟩
    have hpage : vaddr - vaddr % pageSize = vaddr := by rw [hvaddr, Nat.sub_zero]
    have hfound :
      (eightFrameContext ⟨FreeSet.new,
        SortedTree.empty.insert m⟩).virtualMemory.activeSet.upperBound
        (vaddr - vaddr % pageSize) = some m := by
      rw [hpage]
      simp [eightFrameContext, SortedTree.upperBound, SortedTree.insert, SortedTree.empty,
        insertList, m, hlo]
    have hready := ready_eightFrameContext ⟨FreeSet.new, SortedTree.empty.insert m⟩
    obtain ⟨c', paddr, hserved, -⟩ :=
      (hready.mono (by decide : 3 ≤ 8)).handleMappingShared_device (n := 0)
      hvaddr (rfl : m.backing = _)
    have hserved' :
      handlePageFault 0#64 vaddr (eightFrameContext ⟨FreeSet.new, SortedTree.empty.insert m⟩) =
        .ok () c' := by
      have hlt : vaddr - vaddr % pageSize < wadd m.base m.length := by
        rw [hpage, wadd_eq hwrap]
        exact hhi
      rw [handlePageFault_eq (by decide) hfound hlt, if_pos hshared, hpage, hserved]
    have hsmall : vaddr < usizeBound := hhi.trans hwrap
    obtain ⟨q, hq, hon⟩ := hall _ _ 0#64 vaddr c' hsmall (hready.mono (zero_le _)) hfound hserved'
    obtain ⟨-, q', hq', hpageOf⟩ := served_device (hready.mono (zero_le _)) hfound hserved'
    rw [hpage, hnamed vaddr hlo hsmall hbound] at hpageOf
    cases hq.symm.trans hq'
    exact hout ((onPageOf_congr (hpageOf hbound)).mp hon)
  · obtain ⟨hshared, q, hq, hpageOf⟩ := served_device hready hfound hserved
    have hlo := (upperBound_eq_some hfound).2.1
    have hlt := lt_of_handlePageFault hfound hserved
    have hhi := lt_of_lt_of_le hlt (mod_le _ _)
    simp only at hlo hhi hlt
    have hvaddr : (a - a % pageSize) % pageSize = 0 := by
      simp only [pageSize]
      omega
    have hwrap : base + rq.length < usizeBound := by
      by_contra hge
      have hsmall : wadd base rq.length = base + rq.length - usizeBound := by
        rw [wadd, Nat.mod_eq_sub_mod (not_lt.mp hge), mod_eq_of_lt (by omega)]
      omega
    obtain ⟨hbound, hon⟩ :=
      onPageOf_of_fits hoffset hpages (hfits hshared (by omega) hwrap) hvaddr hlo hhi hend
    rw [hnamed _ hlo (lt_of_le_of_lt (sub_le _ _) ha) hbound] at hpageOf
    exact ⟨q, hq, (onPageOf_congr (hpageOf hbound)).mpr hon⟩

/-- Eight frames, three of which hold the tables of the kernel: the page at `0xFFFF8000FD000000` is
the framebuffer. -/
def screenVmm : Vmm :=
  finalState (vmap 0x20000#64 0xFFFF8000FD000000#64 0xFD000000#64 PagingOptions.present) eightFrames

/-- The file of a framebuffer of one page. -/
def screenFile : DevINode :=
  ⟨1,
    some (.char (.limineFramebuffer (.new screenVmm.mem 0x20000#64 0xFFFF8000FD000000#64 1 4096))),
    none⟩

/-- A new process that has opened the framebuffer. -/
def screenProcess : Process DevINode :=
  Process.new fun fd => if fd = 3 then some ⟨screenFile⟩ else none

/-- The arguments for a shared mapping of the framebuffer at `0x20000`. -/
def screenArgs (length : BitVec 64) : MmapArgs := ⟨0x20000#64, length, 3#32, 0x11#32, 3, 0#64⟩

/-- The memory in which the process has mapped the framebuffer and used nothing of it. -/
def screenContext (length : BitVec 64) : FaultContext DevINode :=
  ⟨(screenProcess.after (screenArgs length)).virtualMemory, 0x10000#64, screenVmm, fun _ => none⟩

/-- The frames can be used. -/
lemma ready_screenContext (length : BitVec 64) :
    (screenContext length).Ready (fun _ => none) 0 := by
  have htree : TreeInv Set.univ (rootOf 0x20000#64) eightFrames.mem eightFrames.free fun _ =>
    none :=
    treeInv_zero (fun _ => rfl) (by decide)
  obtain ⟨hcon, -, hpool⟩ :=
    vmap_confined htree poolOk_eightFrames 0xFFFF8000FD000000#64 0xFD000000#64 present
  have hwalk : ∀ q : Path, q.length ≤ 3 →
      TableTree.walk next eightFrames.mem (rootOf 0x20000#64) q ≠ some (rootOf 0x10000#64) := by
    intro q _ hq
    have := (walk_zero (fun _ => rfl) hq).2
    revert this
    decide
  refine ⟨treeInv_zero (fun i => ?_) fun hfree => ?_, hpool, zero_le _⟩
  · exact hcon.mem _ (by decide) hwalk i
  · rcases hcon.free _ hfree with hold | ⟨q, hq, ht⟩
    · exact absurd hold (show rootOf 0x10000#64 ∉ eightFrames.free by decide)
    · exact hwalk q hq ht

/-- A process maps the page of the framebuffer, and its first access enters it. -/
theorem framebuffer_fault_inside_page :
    ∃ c', FaultContext.handlePageFault 0#64 0x20123 (screenContext 4096#64) = .ok () c' ∧
      ∃ q, getPhysAddr c'.vmm.mem 0x20123#64 c'.pageTable = some q ∧
      OnPageOf 0xFD000000 4096 q.toNat := by
  have e : FaultContext.handlePageFault 0#64 0x20123 (screenContext 4096#64) = .ok () _ :=
    exec_of_returnedValue (by decide +kernel)
  obtain ⟨backing, hprep, -, hserves⟩ :=
    framebuffer_fault_inside (V := DevINode) screenVmm.mem 0x20000#64
    0xFFFF8000FD000000#64 0xFD000000#64 1 4096 (by decide +kernel) (by decide) screenFile rfl
    ⟨some ⟨screenFile, 0, none⟩, 4096, PagingOptions.writable, true, some 0x20000⟩ (by decide)
    ⟨screenFile, 0, none⟩ rfl (fun _ => rfl) 0x20000 screenProcess.virtualMemory
    (screenContext 4096#64).virtualMemory rfl
  cases hprep
  exact ⟨_, e, hserves.mpr (fun _ _ _ => by decide) _ _ 0#64 0x20123 _ (by decide)
    (ready_screenContext _) rfl e⟩

/-- A process maps two pages of a framebuffer of one page.  When it uses the second one, it gets the
physical page behind the framebuffer. -/
theorem framebuffer_fault_behind : Process.sysMmap (screenArgs 8192#64) screenProcess =
      .ok 0x20000#64 (screenProcess.after (screenArgs 8192#64)) ∧
    getPhysAddr screenVmm.mem 0xFFFF8000FD000000#64 0x20000#64 = some 0xFD000000#64 ∧
    (screenContext 8192#64).Ready (fun _ => none) 0 ∧
    ∃ c', FaultContext.handlePageFault 0#64 0x21000 (screenContext 8192#64) = .ok () c' ∧
      getPhysAddr c'.vmm.mem 0x21000#64 c'.pageTable = some 0xFD001000#64 ∧
      ¬ OnPageOf 0xFD000000 4096 0xFD001000 := by
  refine ⟨rfl,
    by decide +kernel, ready_screenContext _, _, exec_of_returnedValue (by decide +kernel), ?_, ?_⟩
  · decide +kernel
  · unfold OnPageOf
    decide

end CabOS
