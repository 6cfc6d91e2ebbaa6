import CabOS.Memory.PageFaultRuns

/-!
# The program loader

`ElfLoader.load` reads the ELF header and the program headers of a file and maps each segment of the
type `PT_LOAD` at its address.  Sizes are added and rounded up modulo `2 ^ 64`, so a segment near
the end of the address space can be accepted with a mapping that does not cover it
(`ElfLoader.load_wrapped`).  An accepted program is placed as its headers say if and only if no
segment reaches into the last page (`ElfLoader.load_places_iff`).
-/

namespace CabOS

variable {V : Type}

/-! ## Headers -/

namespace EhConstants

def eiMag : List UInt8 := [0x7F, 0x45, 0x4C, 0x46]

/-- Programs with 64-bit addresses. -/
def eiClass64 : UInt8 := 2

/-- Numbers are little-endian. -/
def eiData : UInt8 := 1

def eiVersion : UInt8 := 1

def eiOsabiSystemV : UInt8 := 0

def eTypeExecutable : ℕ := 2

/-- The number of the architecture. -/
def eMachine : ℕ := 0xB7

def eFlags : ℕ := 0

def eVersion : ℕ := 1

/-- The size of an ELF header. -/
def eEhsize : ℕ := 64

/-- The size of a program header. -/
def ePhentsize : ℕ := 56

end EhConstants

namespace PhConstants

def ptLoad : ℕ := 1

def ptNote : ℕ := 4

def ptTls : ℕ := 7

def ptGnuEhFrame : ℕ := 0x6474E550

def ptGnuStack : ℕ := 0x6474E551

def ptGnuRelro : ℕ := 0x6474E552

def ptGnuProperty : ℕ := 0x6474E553

/-- The types of segments for which nothing is done. -/
def ignored : List ℕ := [ptNote, ptGnuEhFrame, ptGnuStack, ptGnuRelro, ptGnuProperty, ptTls]

end PhConstants

namespace PhPagePermissions

def pfR : BitVec 32 := 0b100#32

def pfW : BitVec 32 := 0b010#32

def pfX : BitVec 32 := 0b001#32

/-- All flags. -/
def all : BitVec 32 := pfR ||| pfW ||| pfX

end PhPagePermissions

/-- The reasons to refuse a program. -/
inductive ElfError where
  | ehFileReadError
  | ehInvalidMagic
  | ehUnsupportedClass
  | ehUnsupportedDataEncoding
  | ehUnsupportedVersion
  | ehUnsupportedOsAbi
  | ehUnsupportedType
  | ehUnsupportedMachine
  | ehInvalidElfHeaderSize
  | ehInvalidProgramHeaderSize
  | ehInvalidProgramHeader
  | ehInvalidFlags
  | phFileReadError
  | phInvalidMemSize
  | phUnsupportedType
  | mmapError
  | inodeKeyError
  deriving DecidableEq, Repr

/-- The ELF header. -/
structure ElfHeader where
  eiMag : List UInt8
  eiClass : UInt8
  eiData : UInt8
  eiVersion : UInt8
  eiOsabi : UInt8
  eType : ℕ
  eMachine : ℕ
  eVersion : ℕ
  eEntry : ℕ
  ePhoff : ℕ
  eFlags : ℕ
  eEhsize : ℕ
  ePhentsize : ℕ
  ePhnum : ℕ
  deriving DecidableEq, Repr

/-- A program header. -/
structure ProgramHeader where
  pType : ℕ
  pFlags : ℕ
  pOffset : ℕ
  pVaddr : ℕ
  pFilesz : ℕ
  pMemsz : ℕ
  deriving DecidableEq, Repr

/-- A buffer as memory. -/
def bufferMem (buffer : List UInt8) : Memory := fun i => buffer[i]?.getD 0

/-- The fields of an ELF header. -/
def ElfHeader.parse (buffer : List UInt8) : ElfHeader where
  eiMag := (List.range 4).map (bufferMem buffer)
  eiClass := bufferMem buffer 4
  eiData := bufferMem buffer 5
  eiVersion := bufferMem buffer 6
  eiOsabi := bufferMem buffer 7
  eType := readLE (bufferMem buffer) 16 2
  eMachine := readLE (bufferMem buffer) 18 2
  eVersion := readLE (bufferMem buffer) 20 4
  eEntry := readLE (bufferMem buffer) 24 8
  ePhoff := readLE (bufferMem buffer) 32 8
  eFlags := readLE (bufferMem buffer) 48 4
  eEhsize := readLE (bufferMem buffer) 52 2
  ePhentsize := readLE (bufferMem buffer) 54 2
  ePhnum := readLE (bufferMem buffer) 56 2

/-- The fields of a program header. -/
def ProgramHeader.parse (buffer : List UInt8) (offset : ℕ) : ProgramHeader where
  pType := readLE (bufferMem buffer) offset 4
  pFlags := readLE (bufferMem buffer) (offset + 4) 4
  pOffset := readLE (bufferMem buffer) (offset + 8) 8
  pVaddr := readLE (bufferMem buffer) (offset + 16) 8
  pFilesz := readLE (bufferMem buffer) (offset + 32) 8
  pMemsz := readLE (bufferMem buffer) (offset + 40) 8

/-- The segment ends at or before the last page of the address space. -/
def ProgramHeader.Fits (ph : ProgramHeader) : Prop :=
  ph.pVaddr + ph.pMemsz ≤ usizeBound - pageSize

/-! ## The loader -/

namespace ElfLoader

/-- Check that the kernel can run the program. -/
def validateElfHeader (header : ElfHeader) : Except ElfError Unit := do
  if header.eiMag ≠ EhConstants.eiMag then throw .ehInvalidMagic
  if header.eiClass ≠ EhConstants.eiClass64 then throw .ehUnsupportedClass
  if header.eiData ≠ EhConstants.eiData then throw .ehUnsupportedDataEncoding
  if header.eiVersion ≠ EhConstants.eiVersion then throw .ehUnsupportedVersion
  if header.eiOsabi ≠ EhConstants.eiOsabiSystemV then throw .ehUnsupportedOsAbi
  if header.eType ≠ EhConstants.eTypeExecutable then throw .ehUnsupportedType
  if header.eMachine ≠ EhConstants.eMachine then throw .ehUnsupportedMachine
  if header.eVersion ≠ EhConstants.eVersion then throw .ehUnsupportedVersion
  if header.eEhsize ≠ EhConstants.eEhsize then throw .ehInvalidElfHeaderSize
  if header.ePhentsize ≠ EhConstants.ePhentsize then throw .ehInvalidProgramHeaderSize
  if header.eFlags ≠ EhConstants.eFlags then throw .ehInvalidFlags

/-- The attributes of the pages of a segment. -/
def pageFlags (pagePermissions : BitVec 32) : PagingOptions :=
  (if hasFlags pagePermissions PhPagePermissions.pfW then PagingOptions.writable else 0) |||
    (if hasFlags pagePermissions PhPagePermissions.pfX then PagingOptions.executable else 0)

/-- The mapping that a segment asks for. -/
def segmentRequest (file : V) (ph : ProgramHeader) : Except ElfError (MmapRequest V) := do
  let pagePermissions ← match fromBits PhPagePermissions.all (BitVec.ofNat 32 ph.pFlags) with
    | some pagePermissions => pure pagePermissions
    | none => throw .ehInvalidProgramHeader
  if ph.pVaddr % pageSize ≠ ph.pOffset % pageSize then throw .ehInvalidProgramHeader
  if ph.pMemsz < ph.pFilesz then throw .phInvalidMemSize
  let vaddrRounded := ph.pVaddr - ph.pVaddr % pageSize
  let offsetRounded := ph.pOffset - ph.pOffset % pageSize
  let padding := ph.pOffset - offsetRounded
  let mapSize := wadd ph.pMemsz padding
  let fm : FileMapping V := ⟨file, offsetRounded, some (wadd ph.pFilesz padding)⟩
  return ⟨some fm, (mapSize + pageSize - 1) / pageSize * pageSize % usizeBound,
    pageFlags pagePermissions, false, some vaddrRounded⟩

variable [ReadableVNode V]

/-- Read the ELF header. -/
def readElfHeader (file : V) : Except ElfError ElfHeader :=
  match ReadableVNode.readUnaligned file 0 EhConstants.eEhsize with
  | .error _ => .error .ehFileReadError
  | .ok buffer =>
    if buffer.length < EhConstants.eEhsize then .error .ehFileReadError
    else .ok (ElfHeader.parse buffer)

/-- Read a program header. -/
def readProgramHeader (file : V) (phoff i : ℕ) : Except ElfError ProgramHeader :=
  match ReadableVNode.readUnaligned file (wadd phoff (i * EhConstants.ePhentsize))
      EhConstants.ePhentsize with
  | .error _ => .error .phFileReadError
  | .ok buffer =>
    if buffer.length < EhConstants.ePhentsize then .error .phFileReadError
    else .ok (ProgramHeader.parse buffer 0)

/-- A check that refuses the program. -/
def check {α : Type} (x : Except ElfError α) : EStateM (Fault ElfError) (VirtualMemory V) α :=
  match x with
  | .ok a => pure a
  | .error e => throw (.err e)

/-- Map a segment. -/
def mapSegment (rq : MmapRequest V) : EStateM (Fault ElfError) (VirtualMemory V) Unit := fun vm =>
  match VirtualMemory.mmap rq.file rq.length rq.pageFlags rq.shared rq.addr vm with
  | .ok _ vm' => .ok () vm'
  | .error (.err _) vm' => .error (.err .mmapError) vm'
  | .error .panic vm' => .error .panic vm'

/-- Do what a program header asks for. -/
def loadHeader (file : V) (phoff i : ℕ) : EStateM (Fault ElfError) (VirtualMemory V) Unit := do
  let ph ← check (readProgramHeader file phoff i)
  if ph.pType = PhConstants.ptLoad then
    let rq ← check (segmentRequest file ph)
    mapSegment rq
  else if ph.pType ∈ PhConstants.ignored then
    pure ()
  else
    throw (.err .phUnsupportedType)

/-- Map the segments of a program and return where it starts. -/
def load (file : V) : EStateM (Fault ElfError) (VirtualMemory V) ℕ := do
  let header ← check (readElfHeader file)
  check (validateElfHeader header)
  (List.range header.ePhnum).forM (loadHeader file header.ePhoff)
  return header.eEntry

/-! ## What is mapped -/

variable {file : V} {ph : ProgramHeader} {rq : MmapRequest V} {vm vm' : VirtualMemory V} {phoff : ℕ}

section

omit [ReadableVNode V]

/-- A check that passes changes nothing. -/
lemma check_eq_ok {α : Type} {x : Except ElfError α} {a : α} : check x vm = .ok a vm' ↔
    x = .ok a ∧ vm' = vm := by
  cases x with
  | error e => simp [check]
  | ok b =>
    simp only [check, exec_pure, EStateM.Result.ok.injEq, Except.ok.injEq]
    exact and_congr_right fun _ => eq_comm

/-- The request for a segment whose header is accepted. -/
lemma segmentRequest_eq (h : segmentRequest file ph = .ok rq) :
    ph.pVaddr % pageSize = ph.pOffset % pageSize ∧ ph.pFilesz ≤ ph.pMemsz ∧ ∃ flags, rq =
      ⟨some ⟨file, ph.pOffset - ph.pOffset % pageSize,
        some (wadd ph.pFilesz (ph.pVaddr % pageSize))⟩,
        (wadd ph.pMemsz (ph.pVaddr % pageSize) + pageSize - 1) / pageSize * pageSize % usizeBound,
        flags, false, some (ph.pVaddr - ph.pVaddr % pageSize)⟩ := by
  have hpadding : ph.pOffset - (ph.pOffset - ph.pOffset % pageSize) = ph.pOffset % pageSize :=
    Nat.sub_sub_self (Nat.mod_le ..)
  unfold segmentRequest at h
  cases hflags : fromBits PhPagePermissions.all (BitVec.ofNat 32 ph.pFlags) with
  | none =>
    rw [hflags] at h
    cases h
  | some flags =>
    by_cases hmod : ph.pVaddr % pageSize ≠ ph.pOffset % pageSize
    · simp only [hflags, pure_bind, if_pos hmod] at h
      cases h
    · by_cases hsize : ph.pMemsz < ph.pFilesz
      · simp only [hflags, pure_bind, if_neg hmod, if_pos hsize] at h
        cases h
      · simp only [hflags, pure_bind, if_neg hmod, if_neg hsize, hpadding] at h
        refine ⟨not_not.mp hmod, not_lt.mp hsize, pageFlags flags, ?_⟩
        rw [← Except.ok.inj h, not_not.mp hmod]

end

/-- The mapping of a segment is there. -/
def Mapped (file : V) (ph : ProgramHeader) (vm : VirtualMemory V) : Prop :=
  ∃ rq base backing, segmentRequest file ph = .ok rq ∧ rq.addr = some base ∧
    VirtualMemory.prepareBacking rq.file rq.length rq.shared = .ok backing ∧
    (⟨backing, rq.length, rq.pageFlags, rq.shared, base⟩ : Mapping V) ∈ vm.activeSet

section

variable {I : VirtualMemory V → Prop} {Q : MmapRequest V → Prop} (hI : ∀ vm, I vm → vm.Inv)
  (hstep : ∀ vm rq, I vm → Q rq → I (vm.afterRequest rq))
  (hQ : ∀ rq, Q rq → ∀ a, rq.addr = some a → a + rq.length < usizeBound)
include hI hstep hQ

/-- One program header: an invariant that the request of the segment keeps. -/
lemma loadHeader_ok {i : ℕ} (h : I vm) (hok : loadHeader file phoff i vm = .ok () vm')
    (hrq : ∀ ph rq, readProgramHeader file phoff i = .ok ph → ph.pType = PhConstants.ptLoad →
      segmentRequest file ph = .ok rq → Q rq) :
    I vm' ∧ (∀ m ∈ vm.activeSet, m ∈ vm'.activeSet) ∧
    ∃ ph, readProgramHeader file phoff i = .ok ph ∧
      (ph.pType = PhConstants.ptLoad → Mapped file ph vm') := by
  unfold loadHeader at hok
  obtain ⟨ph, vm₁, hcheck, hrun⟩ := exec_bind_eq_ok.mp hok
  obtain ⟨hread, rfl⟩ := check_eq_ok.mp hcheck
  by_cases htype : ph.pType = PhConstants.ptLoad
  · rw [if_pos htype] at hrun
    obtain ⟨rq, vm₂, hcheck', hmap⟩ := exec_bind_eq_ok.mp hrun
    obtain ⟨hreq, rfl⟩ := check_eq_ok.mp hcheck'
    have hq := hrq ph rq hread htype hreq
    cases hmmap : VirtualMemory.mmap rq.file rq.length rq.pageFlags rq.shared rq.addr vm₂ with
    | error e t => cases e <;> simp [mapSegment, hmmap] at hmap
    | ok base t =>
      simp only [mapSegment, hmmap, EStateM.Result.ok.injEq, true_and] at hmap
      subst hmap
      have hafter : vm₂.afterRequest rq = t := finalState_of_ok hmmap
      obtain ⟨hbase, backing, hprep, hm⟩ := (hI _ h).mem_of_mmap (hQ rq hq) hmmap
      rw [← hafter]
      refine ⟨hstep _ _ h hq, fun m hm => (hI _ h).mem_afterRequest (hQ rq hq) hm, ph,
        hread, fun _ => ?_⟩
      obtain ⟨-, -, flags, hflags⟩ := segmentRequest_eq hreq
      have haddr : rq.addr = some (ph.pVaddr - ph.pVaddr % pageSize) := by rw [hflags]
      refine ⟨rq, base, backing, hreq, ?_, hprep, ?_⟩
      · rw [hbase _ haddr, haddr]
      · rwa [hafter]
  · rw [if_neg htype] at hrun
    have hvm : vm' = vm₁ := by
      split_ifs at hrun
      · cases hrun
        rfl
      · cases hrun
    rw [hvm]
    exact ⟨h, fun m hm => hm, ph, hread, fun hload => absurd hload htype⟩

/-- All program headers. -/
lemma loadHeaders_ok {is : List ℕ} (h : I vm)
    (hok : is.forM (loadHeader file phoff) vm = .ok () vm')
    (hrq : ∀ i ∈ is, ∀ ph rq, readProgramHeader file phoff i = .ok ph →
      ph.pType = PhConstants.ptLoad → segmentRequest file ph = .ok rq → Q rq) :
    I vm' ∧ (∀ m ∈ vm.activeSet, m ∈ vm'.activeSet) ∧ ∀ i ∈ is, ∃ ph,
      readProgramHeader file phoff i = .ok ph ∧
      (ph.pType = PhConstants.ptLoad → Mapped file ph vm') := by
  induction is generalizing vm with
  | nil =>
    cases hok
    exact ⟨h, fun m hm => hm, fun i hi => absurd hi List.not_mem_nil⟩
  | cons i is ih =>
    obtain ⟨_, vm₁, hok₁, hok₂⟩ := exec_bind_eq_ok.mp hok
    obtain ⟨h₁, hmem₁, ph, hread, hmapped⟩ :=
      loadHeader_ok hI hstep hQ h hok₁ (hrq i List.mem_cons_self)
    obtain ⟨h', hmem, hrest⟩ := ih h₁ hok₂ fun j hj => hrq j (List.mem_cons_of_mem i hj)
    refine ⟨h', fun m hm => hmem m (hmem₁ m hm), fun j hj => ?_⟩
    rcases List.mem_cons.mp hj with rfl | hj
    · refine ⟨ph, hread, fun htype => ?_⟩
      obtain ⟨rq, base, backing, hreq, haddr, hprep, hm⟩ := hmapped htype
      exact ⟨rq, base, backing, hreq, haddr, hprep, hmem _ hm⟩
    · exact hrest j hj

/-- A whole program. -/
lemma load_ok {entry : ℕ} (h : I vm) (hok : load file vm = .ok entry vm')
    (hrq : ∀ header, readElfHeader file = .ok header → ∀ i < header.ePhnum, ∀ ph rq,
      readProgramHeader file header.ePhoff i = .ok ph → ph.pType = PhConstants.ptLoad →
      segmentRequest file ph = .ok rq → Q rq) :
    I vm' ∧ ∃ header, readElfHeader file = .ok header ∧ ∀ i < header.ePhnum, ∃ ph,
      readProgramHeader file header.ePhoff i = .ok ph ∧
      (ph.pType = PhConstants.ptLoad → Mapped file ph vm') := by
  unfold load at hok
  obtain ⟨header, vm₁, hcheck, hrun⟩ := exec_bind_eq_ok.mp hok
  obtain ⟨hread, rfl⟩ := check_eq_ok.mp hcheck
  obtain ⟨_, vm₂, hcheck', hrun'⟩ := exec_bind_eq_ok.mp hrun
  obtain ⟨-, rfl⟩ := check_eq_ok.mp hcheck'
  obtain ⟨_, vm₃, hload, hreturn⟩ := exec_bind_eq_ok.mp hrun'
  cases hreturn
  obtain ⟨h', -, hmapped⟩ :=
    loadHeaders_ok hI hstep hQ h hload fun i hi => hrq header hread i (List.mem_range.mp hi)
  exact ⟨h', header, hread, fun i hi => hmapped i (List.mem_range.mpr hi)⟩

end

/-! ## Segments and their mappings -/

/-- The segment lies in the user window, and a mapping made for it covers it and has room for the
bytes that are asked from the file. -/
def Placed (file : V) (ph : ProgramHeader) (vm : VirtualMemory V) : Prop :=
  userspaceStart ≤ ph.pVaddr ∧ ph.pVaddr + ph.pMemsz ≤ userspaceEnd ∧
    ∃ m ∈ vm.activeSet, m.base = ph.pVaddr - ph.pVaddr % pageSize ∧
    ph.pVaddr + ph.pMemsz ≤ m.base + m.length ∧
      VirtualMemory.prepareBacking (some ⟨file, ph.pOffset - ph.pOffset % pageSize,
        some (ph.pFilesz + ph.pVaddr % pageSize)⟩) m.length m.shared = .ok m.backing ∧
      ph.pFilesz + ph.pVaddr % pageSize ≤ m.length

section

omit [ReadableVNode V]

/-- Nothing wraps in the request for a segment that fits. -/
lemma segmentRequest_of_fits (h : segmentRequest file ph = .ok rq) (hfits : ph.Fits) :
    ph.pVaddr % pageSize = ph.pOffset % pageSize ∧ ph.pFilesz ≤ ph.pMemsz ∧ ∃ flags, rq =
      ⟨some ⟨file, ph.pOffset - ph.pOffset % pageSize, some (ph.pFilesz + ph.pVaddr % pageSize)⟩,
        (ph.pMemsz + ph.pVaddr % pageSize + pageSize - 1) / pageSize * pageSize,
        flags, false, some (ph.pVaddr - ph.pVaddr % pageSize)⟩ := by
  obtain ⟨hmod, hsize, flags, hrq⟩ := segmentRequest_eq h
  have hpage : ph.pVaddr % pageSize < pageSize := Nat.mod_lt _ (by decide)
  have hle : ph.pVaddr % pageSize ≤ ph.pVaddr := Nat.mod_le ..
  have hsum : ph.pMemsz + ph.pVaddr % pageSize < usizeBound - pageSize + 1 := by
    simp only [ProgramHeader.Fits] at hfits
    omega
  have hround : (ph.pMemsz + ph.pVaddr % pageSize + pageSize - 1) / pageSize * pageSize <
    usizeBound := by
    simp only [usizeBound, pageSize] at *
    omega
  have hmem : wadd ph.pMemsz (ph.pVaddr % pageSize) = ph.pMemsz + ph.pVaddr % pageSize :=
    wadd_eq (by simp only [usizeBound, pageSize] at *; omega)
  have hfile : wadd ph.pFilesz (ph.pVaddr % pageSize) = ph.pFilesz + ph.pVaddr % pageSize :=
    wadd_eq (by simp only [usizeBound, pageSize] at *; omega)
  rw [hmem, hfile, Nat.mod_eq_of_lt hround] at hrq
  exact ⟨hmod, hsize, flags, hrq⟩

/-- The mapping of a segment that fits ends below `2 ^ 64`. -/
lemma bounded_of_fits (h : segmentRequest file ph = .ok rq) (hfits : ph.Fits) :
    ∀ a, rq.addr = some a → a + rq.length < usizeBound := by
  obtain ⟨-, -, flags, rfl⟩ := segmentRequest_of_fits h hfits
  rintro a ⟨⟩
  simp only [ProgramHeader.Fits, usizeBound, pageSize] at *
  omega

end

/-- The mapping of a segment that fits covers it. -/
lemma Mapped.placed (h : Mapped file ph vm) (hvm : vm.Inv) (hfits : ph.Fits) :
    Placed file ph vm := by
  obtain ⟨rq, base, backing, hreq, haddr, hprep, hm⟩ := h
  obtain ⟨hmod, hsize, flags, rfl⟩ := segmentRequest_of_fits hreq hfits
  cases haddr
  obtain ⟨hlo, hhi⟩ := hvm.inside _ hm
  simp only at hlo hhi
  refine ⟨by omega, ?_, _, hm, rfl, ?_, hprep, ?_⟩
  all_goals simp only [ProgramHeader.Fits, pageSize] at *
  all_goals omega

/-- Let a program be accepted.  Every segment lies in the user window and is covered by a mapping
that was made for it and has room for the bytes from the file, if and only if every segment ends at
or before the last page of the address space. -/
theorem load_places_iff (file : V) {vm vm' : VirtualMemory V} (h : vm.Inv) {entry : ℕ}
    (hok : load file vm = .ok entry vm') :
    ∃ header, readElfHeader file = .ok header ∧
      ((∀ i < header.ePhnum, ∃ ph, readProgramHeader file header.ePhoff i = .ok ph ∧
          (ph.pType = PhConstants.ptLoad → Placed file ph vm')) ↔
        ∀ i < header.ePhnum, ∀ ph, readProgramHeader file header.ePhoff i = .ok ph →
          ph.pType = PhConstants.ptLoad → ph.Fits) := by
  obtain ⟨header, hread⟩ : ∃ header, readElfHeader file = .ok header := by
    rw [load] at hok
    obtain ⟨header, _, hcheck, -⟩ := exec_bind_eq_ok.mp hok
    exact ⟨header, (check_eq_ok.mp hcheck).1⟩
  refine ⟨header, hread, fun hplaced i hi ph hph htype => ?_, fun hfits => ?_⟩
  · obtain ⟨ph', hph', hplaced'⟩ := hplaced i hi
    cases hph.symm.trans hph'
    have hend := (hplaced' htype).2.1
    simp only [ProgramHeader.Fits, userspaceEnd, usizeBound, pageSize] at *
    omega
  · obtain ⟨hvm', header', hread', hmapped⟩ := load_ok (I := VirtualMemory.Inv)
      (Q := fun rq => ∀ a, rq.addr = some a → a + rq.length < usizeBound) (fun _ h => h)
      (fun vm rq h hrq => h.afterRequest hrq) (fun _ h => h) h hok (by
        intro header' hread' i hi ph rq hph htype hreq
        cases hread.symm.trans hread'
        exact bounded_of_fits hreq (hfits i hi ph hph htype))
    cases hread.symm.trans hread'
    intro i hi
    obtain ⟨ph, hph, hmap⟩ := hmapped i hi
    exact ⟨ph, hph, fun htype => (hmap htype).placed hvm' (hfits i hi ph hph htype)⟩

/-- A number as bytes, the least significant one first. -/
def leBytes (n v : ℕ) : List UInt8 := (List.range n).map fun k => UInt8.ofNat (v / 256 ^ k)

/-- A program whose only segment has the given address and sizes and starts with the file. -/
def oneSegment (vaddr filesz memsz : ℕ) : RamInode where
  number := 1
  kind := .file <| EhConstants.eiMag ++ [2, 1, 1, 0, 0, 0, 0, 0, 0, 0, 0, 0] ++ leBytes 2 2 ++
    leBytes 2 0xB7 ++
      leBytes 4 1 ++ leBytes 8 vaddr ++ leBytes 8 64 ++ leBytes 8 0 ++ leBytes 4 0 ++
        leBytes 2 64 ++
      leBytes 2 56 ++ leBytes 2 1 ++ leBytes 6 0 ++
      leBytes 4 1 ++ leBytes 4 6 ++ leBytes 8 0 ++ leBytes 8 vaddr ++ leBytes 8 0 ++
      leBytes 8 filesz ++ leBytes 8 memsz ++ leBytes 8 4096
  fsId := some 0

/-- The ELF header of `oneSegment`. -/
def oneSegmentHeader (vaddr : ℕ) : ElfHeader :=
  ⟨EhConstants.eiMag, 2, 1, 1, 0, 2, 0xB7, 1, vaddr, 64, 0, 64, 56, 1⟩

/-- The address space into which `oneSegment` was loaded. -/
def oneSegmentMemory (vaddr filesz memsz : ℕ) : VirtualMemory RamInode :=
  finalState (load (oneSegment vaddr filesz memsz)) VirtualMemory.new

/-- A program with one segment of two pages is placed. -/
theorem load_places_two_pages :
    load (oneSegment 0x40000 120 0x2000) VirtualMemory.new =
      .ok 0x40000 (oneSegmentMemory 0x40000 120 0x2000) ∧
    Placed (oneSegment 0x40000 120 0x2000) ⟨1, 6, 0, 0x40000, 120, 0x2000⟩
      (oneSegmentMemory 0x40000 120 0x2000) := by
  have hok : load (oneSegment 0x40000 120 0x2000) VirtualMemory.new =
      .ok 0x40000 (oneSegmentMemory 0x40000 120 0x2000) :=
    exec_of_returnedValue (by decide +kernel)
  have hheader : readElfHeader (oneSegment 0x40000 120 0x2000) =
    .ok (oneSegmentHeader 0x40000) := by
    decide +kernel
  have hph : readProgramHeader (oneSegment 0x40000 120 0x2000) 64 0 =
    .ok ⟨1, 6, 0, 0x40000, 120, 0x2000⟩ := by
    decide +kernel
  obtain ⟨header, hread, hiff⟩ :=
    load_places_iff (oneSegment 0x40000 120 0x2000) VirtualMemory.inv_new hok
  cases hread.symm.trans hheader
  obtain ⟨ph, hph', hplaced⟩ := hiff.mpr (by
    intro i hi ph hph' _
    obtain rfl : i = 0 := Nat.lt_one_iff.mp hi
    cases hph'.symm.trans hph
    exact show 0x40000 + 0x2000 ≤ usizeBound - pageSize by decide) 0 Nat.zero_lt_one
  cases hph'.symm.trans hph
  exact ⟨hok, hplaced rfl⟩

/-- A segment of two pages at the last page of the address space is accepted, although it ends
behind the address space. -/
theorem load_wrapped : load (oneSegment 0xFFFFFFFFFFFFF000 0 0x2000) VirtualMemory.new =
      .ok 0xFFFFFFFFFFFFF000 (oneSegmentMemory 0xFFFFFFFFFFFFF000 0 0x2000) ∧
    readElfHeader (oneSegment 0xFFFFFFFFFFFFF000 0 0x2000) =
      .ok (oneSegmentHeader 0xFFFFFFFFFFFFF000) ∧
    readProgramHeader (oneSegment 0xFFFFFFFFFFFFF000 0 0x2000) 64 0 =
      .ok ⟨1, 6, 0, 0xFFFFFFFFFFFFF000, 0, 0x2000⟩ ∧
    ¬ Placed (oneSegment 0xFFFFFFFFFFFFF000 0 0x2000) ⟨1, 6, 0, 0xFFFFFFFFFFFFF000, 0, 0x2000⟩
      (oneSegmentMemory 0xFFFFFFFFFFFFF000 0 0x2000) := by
  refine ⟨exec_of_returnedValue (by decide +kernel), by decide +kernel, by decide +kernel, ?_⟩
  rintro ⟨-, hend, -⟩
  exact absurd hend (by decide)

end ElfLoader

end CabOS
