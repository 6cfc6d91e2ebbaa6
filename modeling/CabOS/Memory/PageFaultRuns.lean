import CabOS.Fs.Ramfs
import CabOS.Memory.PageFault
import CabOS.Process

/-!
# Every accepted mapping can be used

What `mmap` accepts and what the page fault handler can serve are decided in different places.  A
fixed base need not be a multiple of the page size, and then no page fault in the first page finds
the mapping (`mmap_unaligned_fault`).  Along runs of calls with aligned bases and positive lengths
that do not wrap, every page fault inside a mapping finds this mapping, and it is served if the
handler knows the kind of mapping (`mapped_fault_served`).
-/

namespace CabOS

open AArch64 SortedTree List

variable {V : Type} {rq : MmapRequest V} {a base : ℕ}

/-! ## Runs of `mmap` -/

/-- The request is for at least one byte, and a fixed range starts on a page and ends below `2 ^
64`. -/
def MmapRequest.Plain (rq : MmapRequest V) : Prop :=
  0 < rq.length ∧ ∀ a, rq.addr = some a → a % pageSize = 0 ∧ a + rq.length < usizeBound

/-- The ways to map memory: a call from the kernel and the system call. -/
inductive MmapCall (V : Type) where
  | mmap (rq : MmapRequest V)
  | sysMmap (args : MmapArgs)

/-- What a call asks the address space for, if anything. -/
def MmapCall.request (fdTable : Int32 → Option (File V)) : MmapCall V → Except (BitVec 64)
    (MmapRequest V)
  | .mmap rq => .ok rq
  | .sysMmap args => args.request fdTable

namespace VirtualMemory

/-- The address space after a request. -/
def afterRequest [VNode V] (vm : VirtualMemory V) (rq : MmapRequest V) : VirtualMemory V :=
  finalState (mmap rq.file rq.length rq.pageFlags rq.shared rq.addr) vm

/-- The window is divided into mappings and free ranges of whole pages. -/
structure Paged (vm : VirtualMemory V) : Prop extends vm.Inv where
  mapping_paged : ∀ m ∈ vm.activeSet, m.base % pageSize = 0 ∧ m.length % pageSize = 0 ∧ 0 < m.length
  free_paged : ∀ f ∈ vm.freeSet.baseSet, f.base % pageSize = 0 ∧ f.length % pageSize = 0

variable {vm : VirtualMemory V} {m : Mapping V}

/-- An accepted length is a multiple of the page size. -/
lemma length_of_prepareBacking [VNode V] {file : Option (FileMapping V)} {length : ℕ}
    {shared : Bool}
    {backing : MapBacking V} (h : prepareBacking file length shared = .ok backing) :
    length % pageSize = 0 := by
  by_contra hne
  simp only [prepareBacking, if_pos (show length % pageSize ≠ 0 from hne)] at h
  cases h

/-- A new address space has no mappings. -/
lemma paged_new : (new : VirtualMemory V).Paged := by
  refine ⟨inv_new, fun m hm => absurd hm (not_mem_empty m), fun f hf => ?_⟩
  have hlist : (new : VirtualMemory V).freeSet.baseSet.toList =
      [⟨userspaceStart, userspaceEnd - userspaceStart⟩] := rfl
  rw [mem_def, hlist, mem_singleton] at hf
  rw [hf]
  decide

/-- A mapping of whole pages is cut out of a free range. -/
lemma Paged.mapIn (h : vm.Paged) {f : Free} (hf : f ∈ vm.freeSet.baseSet)
    (hbase : f.base ≤ m.base) (hend : m.base + m.length ≤ f.base + f.length)
    (hm : m.base % pageSize = 0 ∧ m.length % pageSize = 0 ∧ 0 < m.length) :
    (vm.mapIn f m).Paged := by
  refine ⟨h.toInv.mapIn hf hbase hend, fun m' hm' => ?_, fun g hg => ?_⟩
  · rcases mem_insert.mp hm' with rfl | hm'
    · exact hm
    · exact h.mapping_paged m' hm'
  · have hfree := h.free_paged f hf
    simp only [pageSize] at *
    rcases FreeSet.mem_cut hg with rfl | rfl | hg
    · simp only
      omega
    · simp only
      omega
    · exact h.free_paged g hg

variable [VNode V]

/-- A plain request keeps the division into whole pages. -/
lemma Paged.afterRequest (h : vm.Paged) (hrq : rq.Plain) : (vm.afterRequest rq).Paged := by
  rcases h.toInv.mmap_cases rq.file rq.length rq.pageFlags rq.shared fun a ha => (hrq.2 a ha).2 with
    ⟨f, hf, backing, m, hbase, hend, e, hprep, rfl⟩ | ⟨m, e⟩
  · rw [VirtualMemory.afterRequest, finalState_of_ok e]
    refine h.mapIn hf hbase hend ⟨?_, length_of_prepareBacking hprep, hrq.1⟩
    cases haddr : rq.addr with
    | none => exact (h.free_paged f hf).1
    | some a => exact (hrq.2 a haddr).1
  · rw [VirtualMemory.afterRequest, finalState_of_error e]
    exact h

omit [VNode V] in
/-- The handler finds the mapping of an address. -/
lemma Paged.upperBound_eq (h : vm.Paged) (hm : m ∈ vm.activeSet) (hlo : m.base ≤ a)
    (hhi : a < m.base + m.length) :
    vm.activeSet.upperBound (a - a % pageSize) = some m := by
  have hpaged := h.mapping_paged m hm
  have hle : m.base ≤ a - a % pageSize := by
    simp only [pageSize] at *
    omega
  cases hub : vm.activeSet.upperBound (a - a % pageSize) with
  | none =>
    have := upperBound_eq_none.mp hub m hm
    omega
  | some m' =>
    obtain ⟨hm', hle', hmax⟩ := upperBound_eq_some hub
    have hpaged' := h.mapping_paged m' hm'
    have hge := hmax m hm hle
    refine congrArg some ?_
    by_contra hne
    -- the two mappings would have the base of the found one in common
    have : Std.Symm fun m n : Mapping V => Disjoint m.range n.range := ⟨fun _ _ hd => hd.symm⟩
    have hdisj : Disjoint m.range m'.range := h.active.forall hm hm' fun heq => hne heq.symm
    exact Set.disjoint_left.mp hdisj (show m'.base ∈ m.range from ⟨hge, by omega⟩)
      (show m'.base ∈ m'.range from ⟨le_rfl, by omega⟩)

/-- A request whose end does not wrap keeps the division of the window. -/
lemma Inv.afterRequest (h : vm.Inv)
    (hrq : ∀ a, rq.addr = some a → a + rq.length < usizeBound) : (vm.afterRequest rq).Inv := by
  rcases h.mmap_cases rq.file rq.length rq.pageFlags rq.shared hrq with
    ⟨f, hf, backing, m, hbase, hend, e, -⟩ | ⟨m, e⟩
  · rw [VirtualMemory.afterRequest, finalState_of_ok e]
    exact h.mapIn hf hbase hend
  · rwa [VirtualMemory.afterRequest, finalState_of_error e]

/-- Mappings stay. -/
lemma Inv.mem_afterRequest (h : vm.Inv) (hrq : ∀ a, rq.addr = some a → a + rq.length < usizeBound)
    (hm : m ∈ vm.activeSet) : m ∈ (vm.afterRequest rq).activeSet := by
  rcases h.mmap_cases rq.file rq.length rq.pageFlags rq.shared hrq with
    ⟨f, hf, backing, m', hbase, hend, e, -⟩ | ⟨m', e⟩
  · rw [VirtualMemory.afterRequest, finalState_of_ok e]
    exact mem_insert.mpr (Or.inr hm)
  · rwa [VirtualMemory.afterRequest, finalState_of_error e]

/-- An accepted request enters its mapping. -/
lemma Inv.mem_of_mmap (h : vm.Inv) (hrq : ∀ a, rq.addr = some a → a + rq.length < usizeBound)
    {vm' : VirtualMemory V}
    (hok : mmap rq.file rq.length rq.pageFlags rq.shared rq.addr vm = .ok base vm') :
    (∀ a, rq.addr = some a → base = a) ∧
    ∃ backing, prepareBacking rq.file rq.length rq.shared = .ok backing ∧
        (⟨backing, rq.length, rq.pageFlags, rq.shared, base⟩ : Mapping V) ∈ vm'.activeSet := by
  rcases h.mmap_cases rq.file rq.length rq.pageFlags rq.shared hrq with
    ⟨f, hf, backing, m, hbase, hend, e, hprep, rfl⟩ | ⟨m, e⟩
  · cases e.symm.trans hok
    refine ⟨fun a ha => ?_, backing, hprep, mem_insert.mpr (Or.inl rfl)⟩
    rw [ha]
    rfl
  · cases e.symm.trans hok

end VirtualMemory

namespace Process

variable [VNode V] {p : Process V}

/-- The process after a call that maps memory. -/
def afterCall (p : Process V) : MmapCall V → Process V
  | .mmap rq => { p with virtualMemory := p.virtualMemory.afterRequest rq }
  | .sysMmap args => p.after args

/-- A system call does what it asks for. -/
lemma afterCall_eq (p : Process V) (call : MmapCall V) :
    p.afterCall call = match call.request p.fdTable with
      | .ok rq => { p with virtualMemory := p.virtualMemory.afterRequest rq }
      | .error _ => p := by
  cases call with
  | mmap rq => rfl
  | sysMmap args =>
    simp only [afterCall, MmapCall.request, after]
    cases hrq : args.request p.fdTable with
    | error r => simp only [finalState, sysMmap, hrq]
    | ok rq =>
      simp only [finalState, sysMmap, hrq, VirtualMemory.afterRequest]
      rcases VirtualMemory.mmap rq.file rq.length rq.pageFlags rq.shared rq.addr
        p.virtualMemory with
        ⟨base, vm⟩ | ⟨e | -, vm⟩ <;> rfl

/-- Along a run of plain calls the window is divided into pages, and a mapping stays. -/
lemma paged_run (h : p.virtualMemory.Paged) (calls : List (MmapCall V))
    (hcalls : ∀ call ∈ calls, ∀ rq, call.request p.fdTable = .ok rq → rq.Plain) :
    (calls.foldl afterCall p).fdTable = p.fdTable ∧ (calls.foldl afterCall p).virtualMemory.Paged ∧
      ∀ m ∈ p.virtualMemory.activeSet, m ∈ (calls.foldl afterCall p).virtualMemory.activeSet := by
  induction calls generalizing p with
  | nil => exact ⟨rfl, h, fun m hm => hm⟩
  | cons call calls ih =>
    have hstep : (p.afterCall call).fdTable = p.fdTable ∧ (p.afterCall call).virtualMemory.Paged ∧
        ∀ m ∈ p.virtualMemory.activeSet, m ∈ (p.afterCall call).virtualMemory.activeSet := by
      rw [afterCall_eq]
      cases hrq : call.request p.fdTable with
      | error r => exact ⟨rfl, h, fun m hm => hm⟩
      | ok rq =>
        have hplain := hcalls call mem_cons_self rq hrq
        exact ⟨rfl, h.afterRequest hplain,
          fun m hm => h.toInv.mem_afterRequest (fun a ha => (hplain.2 a ha).2) hm⟩
    obtain ⟨hfd, hpaged, hmem⟩ := hstep
    obtain ⟨hfd', hpaged', hmem'⟩ := ih hpaged fun call' hcall' => by
      rw [hfd]
      exact hcalls call' (mem_cons_of_mem call hcall')
    exact ⟨hfd'.trans hfd, hpaged', fun m hm => hmem' m (hmem m hm)⟩

/-- A mapping that was accepted in a run of plain calls is there at the end of the run. -/
lemma accepted_mapping (fdTable : Int32 → Option (File V)) {before after : List (MmapCall V)}
    {call : MmapCall V}
    (hcalls : ∀ call' ∈ before ++ call :: after, ∀ rq, call'.request fdTable = .ok rq → rq.Plain)
    (hrq : call.request fdTable = .ok rq) {vm : VirtualMemory V}
    (hok : VirtualMemory.mmap rq.file rq.length rq.pageFlags rq.shared rq.addr
      (before.foldl afterCall (new fdTable)).virtualMemory = .ok base vm) :
    ((before ++ call :: after).foldl afterCall (new fdTable)).virtualMemory.Paged ∧
    ∃ backing, VirtualMemory.prepareBacking rq.file rq.length rq.shared = .ok backing ∧
      (⟨backing, rq.length, rq.pageFlags, rq.shared, base⟩ : Mapping V) ∈
        ((before ++ call :: after).foldl afterCall (new fdTable)).virtualMemory.activeSet := by
  obtain ⟨hfd, hpaged, -⟩ := paged_run (p := new fdTable) VirtualMemory.paged_new before
    fun call' hcall' => hcalls call' (mem_append_left _ hcall')
  have hplain : rq.Plain := hcalls call (by simp) rq hrq
  have hcall : (before.foldl afterCall (new fdTable)).afterCall call =
      { before.foldl afterCall (new fdTable) with virtualMemory := vm } := by
    have hrq' : call.request (before.foldl afterCall (new fdTable)).fdTable = .ok rq := by
      rw [hfd]
      exact hrq
    simp only [afterCall_eq, hrq', VirtualMemory.afterRequest, finalState_of_ok hok]
  rw [foldl_append, foldl_cons, hcall]
  obtain ⟨-, hend, hmem⟩ :=
    paged_run (p := { before.foldl afterCall (new fdTable) with virtualMemory := vm })
      (by rw [← finalState_of_ok hok]; exact hpaged.afterRequest hplain) after
    (by rw [hfd]; exact fun call' hcall' => hcalls call' (by simp [hcall']))
  obtain ⟨-, backing, hprep, hm⟩ := hpaged.toInv.mem_of_mmap (fun a ha => (hplain.2 a ha).2) hok
  exact ⟨hend, backing, hprep, hmem _ hm⟩

end Process

/-! ## Page faults in mappings -/

section

variable [ReadableVNode V]

/-- The handler serves page faults in mappings of this kind: anonymous memory is private, a device
is shared, and the pages of a file can be read. -/
def MapBacking.Served (backing : MapBacking V) (shared : Bool) : Prop :=
  match backing with
  | .anonymous => shared = false
  | .device _ _ => shared = true
  | .file fm =>
    if shared then
      ∃ key, ReadableVNode.getInodeKey fm.vnode = .ok key ∧ ∃ file :
      V, ReadableVNode.getInode key = .ok file ∧
          ∀ offset, ∃ bytes, ReadableVNode.readPage file offset = .ok bytes
    else
      (fm.fileLength.isSome → ∃ key, ReadableVNode.getInodeKey fm.vnode = .ok key) ∧
        ∀ offset, ∃ bytes, ReadableVNode.readPage fm.vnode offset = .ok bytes

namespace FaultContext

variable {c c' : FaultContext V} {ref : Path → Option (BitVec 64)} {vaddr : ℕ} {m : Mapping V}
  {cause : BitVec 64}

/-- The page at `vaddr` is entered with some frame. -/
def Mapped (c c' : FaultContext V) (ref : Path → Option (BitVec 64)) (vaddr : ℕ) : Prop :=
  c'.pageTable = c.pageTable ∧
  ∃ paddr, c'.Ready (Function.update ref (pathOf (BitVec.ofNat 64 vaddr)) (some paddr)) 0

/-- A page of a shared mapping that the handler serves. -/
lemma Ready.handleMappingShared (h : c.Ready ref 4) (hvaddr : vaddr % pageSize = 0)
    (hserved : m.backing.Served true) :
    ∃ c', handleMappingShared vaddr m c = .ok () c' ∧ c.Mapped c' ref vaddr := by
  cases hbacking : m.backing with
  | anonymous => simp [MapBacking.Served, hbacking] at hserved
  | device base memoryInfo =>
    obtain ⟨c', paddr, e, htable, hready⟩ :=
      Ready.handleMappingShared_device (n := 0) (h.mono (by decide)) hvaddr hbacking
    exact ⟨c', e, htable, paddr, hready⟩
  | file fm =>
    rw [hbacking] at hserved
    obtain ⟨key, hkey, file, hfile, hread⟩ := hserved
    obtain ⟨bytes, hbytes⟩ := hread (wadd (wsub vaddr m.base) fm.fileOffset)
    obtain ⟨c', paddr, e, htable, hready⟩ :=
      Ready.handleMappingShared_file (n := 0) h hvaddr hbacking hkey hfile hbytes
    exact ⟨c', e, htable, paddr, hready⟩

/-- A page of a private mapping that the handler serves. -/
lemma Ready.handleMappingPrivate (h : c.Ready ref 4) (hvaddr : vaddr % pageSize = 0)
    (hserved : m.backing.Served false) :
    ∃ c', handleMappingPrivate vaddr m c = .ok () c' ∧ c.Mapped c' ref vaddr := by
  cases hbacking : m.backing with
  | anonymous =>
    obtain ⟨c', f, e, henters⟩ := Ready.handleMappingPrivate_anonymous (n := 0) h hvaddr hbacking
    exact ⟨c', e, henters.keeps.pageTable, f, henters.ready⟩
  | device base memoryInfo => simp [MapBacking.Served, hbacking] at hserved
  | file fm =>
    rw [hbacking] at hserved
    obtain ⟨hkey, hread⟩ := hserved
    obtain ⟨bytes, hbytes⟩ := hread (wadd (wsub vaddr m.base) fm.fileOffset)
    rcases Ready.handleMappingPrivate_file (n := 0) h hvaddr hbacking hbytes with
      ⟨c', f, e, henters, -⟩ | ⟨hsome, ⟨e, hnokey⟩, -⟩
    · exact ⟨c', e, henters.keeps.pageTable, f, henters.ready⟩
    · obtain ⟨key, hkey'⟩ := hkey hsome
      cases hkey'.symm.trans hnokey

/-- A page fault on a page that is not present is left to the mapping that is found. -/
lemma handlePageFault_eq (hcause : hasFlags cause PageFaultConditions.present = false)
    (hfound : c.virtualMemory.activeSet.upperBound (a - a % pageSize) = some m)
    (hlt : a - a % pageSize < wadd m.base m.length) :
    handlePageFault cause a c =
      if m.shared then handleMappingShared (a - a % pageSize) m c
      else handleMappingPrivate (a - a % pageSize) m c := by
  simp [handlePageFault, hfound, if_neg (not_le.mpr hlt), hcause]

/-- A page fault on a page that is not present is served by the mapping that is found. -/
lemma Ready.handlePageFault (h : c.Ready ref 4)
    (hcause : hasFlags cause PageFaultConditions.present = false)
    (hfound : c.virtualMemory.activeSet.upperBound (a - a % pageSize) = some m)
    (hlt : a - a % pageSize < wadd m.base m.length) (hserved : m.backing.Served m.shared) :
    ∃ c', handlePageFault cause a c = .ok () c' ∧ c.Mapped c' ref (a - a % pageSize) := by
  have hvaddr : (a - a % pageSize) % pageSize = 0 := by
    simp only [pageSize]
    omega
  rw [handlePageFault_eq hcause hfound hlt]
  split_ifs with hshared
  · rw [hshared] at hserved
    exact h.handleMappingShared hvaddr hserved
  · rw [Bool.not_eq_true] at hshared
    rw [hshared] at hserved
    exact h.handleMappingPrivate hvaddr hserved

/-- An address and its page have the same path. -/
lemma pathOf_page (a : ℕ) :
    pathOf (BitVec.ofNat 64 (a - a % pageSize)) = pathOf (BitVec.ofNat 64 a) := by
  simp only [pathOf, index0, index1, index2, index3, cons.injEq, Fin.ext_iff, index_val,
    BitVec.toNat_ofNat, pageSize, and_true]
  omega

end FaultContext

end

open FaultContext in
/-- In a process whose calls that map memory are plain, let one of them be accepted.  Whatever calls
follow, a page fault at an address of the mapping finds this mapping, and if the handler serves
mappings of this kind and four frames are free, the fault is served and the page is present
afterwards. -/
theorem mapped_fault_served [ReadableVNode V] (fdTable : Int32 → Option (File V))
    (before after : List (MmapCall V)) (call : MmapCall V)
    (hcalls : ∀ call' ∈ before ++ call :: after, ∀ rq, call'.request fdTable = .ok rq → rq.Plain)
    (rq : MmapRequest V) (hrq : call.request fdTable = .ok rq) (base : ℕ) {vm : VirtualMemory V}
    (hok : VirtualMemory.mmap rq.file rq.length rq.pageFlags rq.shared rq.addr
      (before.foldl Process.afterCall (Process.new fdTable)).virtualMemory = .ok base vm) :
    ∃ backing, VirtualMemory.prepareBacking rq.file rq.length rq.shared = .ok backing ∧
      ∀ (c : FaultContext V) (ref : Path → Option (BitVec 64)) (cause : BitVec 64) (a : ℕ),
        c.virtualMemory =
          ((before ++ call :: after).foldl Process.afterCall (Process.new fdTable)).virtualMemory →
        hasFlags cause PageFaultConditions.present = false → base ≤ a → a < base + rq.length →
        c.virtualMemory.activeSet.upperBound (a - a % pageSize) =
            some ⟨backing, rq.length, rq.pageFlags, rq.shared, base⟩ ∧
          (backing.Served rq.shared → c.Ready ref 4 →
            ∃ c', handlePageFault cause a c = .ok () c' ∧
            handleUserPageFault cause a c = .ok () c' ∧
              (getPhysAddr c'.vmm.mem (BitVec.ofNat 64 a) c'.pageTable).isSome ∧
              c'.pageTable = c.pageTable) := by
  obtain ⟨hpaged, backing, hprep, hm⟩ := Process.accepted_mapping fdTable hcalls hrq hok
  refine ⟨backing, hprep, fun c ref cause a hc hcause hlo hhi => ?_⟩
  rw [← hc] at hpaged hm
  have hfound := hpaged.upperBound_eq hm hlo hhi
  refine ⟨hfound, fun hserved hready => ?_⟩
  have hend : wadd base rq.length = base + rq.length := by
    have hinside := (hpaged.inside _ hm).2
    simp only [userspaceEnd] at hinside
    exact wadd_eq (by simp only [usizeBound]; omega)
  obtain ⟨c', e, htable, paddr, hready'⟩ :=
    hready.handlePageFault hcause hfound (by rw [hend]; omega) hserved
  refine ⟨c', e, ?_, ?_, htable⟩
  · simp only [handleUserPageFault, e]
  · rw [pathOf_page] at hready'
    rw [getPhysAddr_eq hready'.tree, Function.update_self]
    rfl

/-- Memory of zeros with a root table at `0x10000` and eight free frames. -/
def eightFrameContext (vm : VirtualMemory V) : FaultContext V :=
  ⟨vm, 0x10000#64, eightFrames, fun _ => none⟩

/-- The frames can be used. -/
lemma ready_eightFrameContext (vm : VirtualMemory V) :
    (eightFrameContext vm).Ready (fun _ => none) 8 where
  tree := treeInv_zero (fun _ => rfl) (show rootOf 0x10000#64 ∉ eightFrames.free by decide)
  pool := poolOk_eightFrames
  frames := le_rfl

/-- The arguments for one private anonymous page at the given address. -/
def onePage (addr : BitVec 64) : MmapArgs := ⟨addr, 4096#64, 3#32, 0x32#32, 0, 0#64⟩

/-- The process that has mapped one page at the given address. -/
def onePageProcess (addr : BitVec 64) : Process RamInode :=
  (Process.new fun _ => none).after (onePage addr)

/-- A process maps two pages, and the first access to the first one is served. -/
theorem mapped_fault_served_two : ∃ c', FaultContext.handlePageFault 0#64 0x20123
        (eightFrameContext ((onePageProcess 0x20000#64).after (onePage 0x40000#64)).virtualMemory) =
          .ok () c' ∧
      (getPhysAddr c'.vmm.mem 0x20123#64 c'.pageTable).isSome := by
  have hcalls : ∀ call ∈ [MmapCall.sysMmap (onePage 0x20000#64), .sysMmap (onePage 0x40000#64)],
      ∀ rq : MmapRequest RamInode, call.request (fun _ => none) = .ok rq → rq.Plain := by
    simp only [List.forall_mem_cons]
    refine ⟨?_, ?_, by simp⟩
    all_goals
      rintro rq ⟨⟩
      refine ⟨by decide, ?_⟩
      rintro a ⟨⟩
      exact ⟨by decide, by decide⟩
  obtain ⟨backing, hprep, hserves⟩ := mapped_fault_served (V := RamInode) (fun _ => none) []
    [.sysMmap (onePage 0x40000#64)] (.sysMmap (onePage 0x20000#64)) hcalls
    ⟨none, 4096, PagingOptions.writable, false, some 0x20000⟩ rfl 0x20000 rfl
  cases hprep
  obtain ⟨c', e, -, hpresent, -⟩ := (hserves (eightFrameContext _) (fun _ => none) 0#64 0x20123 rfl
    (by decide) (by decide) (by decide)).2 rfl ((ready_eightFrameContext _).mono (by decide))
  exact ⟨c', e, hpresent⟩

/-- A new process gets a page at an address that is not a multiple of the page size, and the first
access to the page stops the kernel. -/
theorem mmap_unaligned_fault : Process.sysMmap (onePage 0x20001#64) (Process.new fun _ => none) =
      .ok 0x20001#64 (onePageProcess 0x20001#64) ∧
    (eightFrameContext (onePageProcess 0x20001#64).virtualMemory).Ready (fun _ => none) 8 ∧
    hasFlags 0#64 PageFaultConditions.present = false ∧
    FaultContext.handlePageFault 0#64 0x20001
      (eightFrameContext (onePageProcess 0x20001#64).virtualMemory) =
        .error (.err "nothing is mapped")
        (eightFrameContext (onePageProcess 0x20001#64).virtualMemory) ∧
    FaultContext.handleUserPageFault 0#64 0x20001
      (eightFrameContext (onePageProcess 0x20001#64).virtualMemory) =
        .error .panic (eightFrameContext (onePageProcess 0x20001#64).virtualMemory) :=
  ⟨rfl, ready_eightFrameContext _, by decide, rfl, rfl⟩

end CabOS
