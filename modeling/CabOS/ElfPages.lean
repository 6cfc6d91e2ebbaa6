import CabOS.Elf

/-!
# What a program sees of its file

The pages of a segment are made when they are used for the first time, from whole pages of the file,
from the last page of the file part with zeros behind it, or from zeros alone.
`ElfLoader.load_shows_segments` says that after any page faults in the segments of a program, every
byte of the pages that were used is the byte of the file or zero, as the program header says.
-/

namespace CabOS

open AArch64 Function Nat Mapping PageFaultConditions ReadableVNode List VirtualMemory

variable {V : Type} [ReadableVNode V] {fm : FileMapping V}

/-! ## Private mappings of a file -/

/-- The byte that a private mapping of a file with the contents `data` has at an address. -/
def Mapping.fileByte (data : List UInt8) (m : Mapping V) (a : ℕ) : UInt8 :=
  match m.backing with
  | .file fm =>
    match fm.fileLength with
    | some fileLength =>
      if a - m.base < fileLength then data[fm.fileOffset + (a - m.base)]?.getD 0 else 0
    | none => data[fm.fileOffset + (a - m.base)]?.getD 0
  | _ => 0

/-- A private mapping of the file, at offsets below `2 ^ 64`. -/
def Mapping.OfFile (m : Mapping V) (file : V) : Prop :=
  m.shared = false ∧ ∃ fm, m.backing = .file fm ∧ fm.vnode = file ∧
  fm.fileOffset + m.length < usizeBound + pageSize

namespace FaultContext

variable {c c' : FaultContext V} {ref : Path → Option (BitVec 64)} {n a vaddr : ℕ} {b : UInt8}
  {f : BitVec 64} {file : V} {data : List UInt8} {m : Mapping V}

omit [ReadableVNode V] in
/-- The byte that the program sees at an address. -/
def userByte (c : FaultContext V) (a : ℕ) : Option UInt8 :=
  (getPhysAddr c.vmm.mem (BitVec.ofNat 64 a) c.pageTable).map fun paddr =>
    pageByte (c.vmm.mem (paddr &&& ~~~0xFFF#64)) (paddr.toNat % pageSize)

/-- Serve page faults one after the other. -/
def faultAll : List (BitVec 64 × ℕ) → EStateM PageFaultError (FaultContext V) Unit
  | [] => pure ()
  | x :: faults => do
    handlePageFault x.1 x.2
    faultAll faults

/-- The page of the address is entered with a frame of its own, which has the byte at this place. -/
def Shows (c : FaultContext V) (ref : Path → Option (BitVec 64)) (a : ℕ) (b : UInt8) : Prop :=
  ∃ f, ref (pathOf (BitVec.ofNat 64 a)) = some f ∧ f &&& pteAddrMask = f ∧ c.Spare f ∧
    pageByte (c.vmm.mem f) (a % pageSize) = b

section

omit [ReadableVNode V]

/-- The program sees the byte. -/
lemma Shows.userByte (h : c.Shows ref a b) (hready : c.Ready ref n) : c.userByte a = some b := by
  obtain ⟨f, href, -, -, hbyte⟩ := h
  have haligned := hready.tree.pageAligned href
  have hoffset : (BitVec.ofNat 64 a).toNat % pageSize = a % pageSize := by
    rw [BitVec.toNat_ofNat]
    exact mod_mod_of_dvd a (by decide)
  rw [FaultContext.userByte, getPhysAddr_eq hready.tree, href, Option.map_some, Option.map_some,
    haligned.or_offset_frame, haligned.or_offset_mod, hoffset, hbyte]

/-- A page fault leaves the other pages alone. -/
lemma Enters.shows (h : c.Enters c' ref n vaddr f) (hshows : c.Shows ref a b)
    (hne : pathOf (BitVec.ofNat 64 a) ≠ pathOf (BitVec.ofNat 64 vaddr)) :
    c'.Shows (update ref (pathOf (BitVec.ofNat 64 vaddr)) (some f)) a b := by
  obtain ⟨g, href, hmask, hspare, hbyte⟩ := hshows
  obtain ⟨hspare', hmem⟩ := h.keeps.spare g hspare
  refine ⟨g, ?_, hmask, hspare', ?_⟩
  · rw [update_of_ne hne, href]
  · rw [hmem, hbyte]

/-- The bytes of a page of a private mapping are those of the file. -/
lemma privateByte_eq_fileByte {bytes : ℕ → UInt8} {k : ℕ}
    (hbacking : m.backing = .file fm) (hvaddr : vaddr < usizeBound) (hbase : m.base ≤ vaddr)
    (hlt : vaddr - m.base + pageSize < usizeBound) (hk : k < pageSize)
    (hbytes : bytes k = data[vaddr - m.base + fm.fileOffset + k]?.getD 0) :
    privateByte fm.fileLength (wsub vaddr m.base) bytes k = m.fileByte data (vaddr + k) := by
  have hoffset : fm.fileOffset + (vaddr + k - m.base) = vaddr - m.base + fm.fileOffset + k := by
    omega
  simp only [wsub_eq hvaddr hbase, fileByte, hbacking]
  cases fm.fileLength with
  | none => rw [privateByte, hbytes, hoffset]
  | some fileLength =>
    simp only [privateByte, hbytes, hoffset]
    refine if_congr ?_ rfl rfl
    rw [wadd_eq hlt]
    omega

end

/-- A page fault in a private mapping of a file. -/
lemma Ready.fault_file (h : c.Ready ref (n + 4)) (hdata : HasContents file data)
    (hpaged : c.virtualMemory.Paged) (hcache : c.Uncached file) (hm : m ∈ c.virtualMemory.activeSet)
    (hfile : m.OfFile file) {x : BitVec 64 × ℕ} (hcause : hasFlags x.1 present = false)
    (hx : x.2 ∈ m.range) :
    (∃ c' f, FaultContext.handlePageFault x.1 x.2 c = .ok () c' ∧
      c.Enters c' ref n (x.2 - x.2 % pageSize) f ∧
      ∀ k < pageSize, pageByte (c'.vmm.mem f) k = m.fileByte data (x.2 - x.2 % pageSize + k)) ∨
    Keyless file (FaultContext.handlePageFault x.1 x.2 c) := by
  obtain ⟨hshared, fm, hbacking, rfl, hoffset⟩ := hfile
  obtain ⟨hlo, hhi⟩ := hx
  have hinside := hpaged.inside m hm
  have hpages := hpaged.mapping_paged m hm
  have hfound := hpaged.upperBound_eq hm hlo hhi
  obtain ⟨hvaddr, hbase, hend⟩ : (x.2 - x.2 % pageSize) % pageSize = 0 ∧
      m.base ≤ x.2 - x.2 % pageSize ∧ x.2 - x.2 % pageSize + pageSize ≤ m.base + m.length := by
    simp only [pageSize] at *
    omega
  have hwindow : m.base + m.length < usizeBound := by
    simp only [userspaceEnd, usizeBound] at *
    omega
  have hle : x.2 - x.2 % pageSize < m.base + m.length := by omega
  have hadd : wadd (wsub (x.2 - x.2 % pageSize) m.base) fm.fileOffset =
      x.2 - x.2 % pageSize - m.base + fm.fileOffset := by
    rw [wsub_eq (by omega) hbase]
    exact wadd_eq (by omega)
  obtain ⟨bytes, hread, hbytes⟩ := hdata.readPage (x.2 - x.2 % pageSize - m.base + fm.fileOffset)
  rw [← hadd] at hread
  rw [handlePageFault_eq hcause hfound (by rwa [wadd_eq hwindow]), hshared]
  rcases h.handleMappingPrivate_file hvaddr hbacking hread with
    ⟨c', f, e, henters, hpage⟩ | ⟨-, hkey⟩
  · refine Or.inl ⟨c', f, e, henters, fun k hk => ?_⟩
    rw [hpage (hcache.agrees _ _) k hk]
    exact privateByte_eq_fileByte hbacking (by omega) hbase (by omega) hk (hbytes k hk)
  · exact Or.inr hkey

section

omit [ReadableVNode V]

/-- Addresses on different pages have different paths. -/
lemma pathOf_ne_of_page_ne {a b : ℕ} (ha : a < 2 ^ 48) (hb : b < 2 ^ 48)
    (hne : a / pageSize ≠ b / pageSize) :
    pathOf (BitVec.ofNat 64 a) ≠ pathOf (BitVec.ofNat 64 b) := by
  have hbits : ∀ x < 2 ^ 48, (BitVec.ofNat 64 x).toNat = x := by
    intro x hx
    rw [BitVec.toNat_ofNat]
    exact mod_eq_of_lt (by omega)
  intro heq
  have hpage := congrArg pageOf heq
  rw [pageOf_pathOf (by rwa [hbits a ha]), pageOf_pathOf (by rwa [hbits b hb]), hbits a ha,
    hbits b hb] at hpage
  exact hne hpage

/-- The page that was entered shows the file. -/
lemma Enters.shows_page {x : ℕ} (h : c.Enters c' ref n (x - x % pageSize) f)
    (hpaged : c.virtualMemory.Paged) (hm : m ∈ c.virtualMemory.activeSet) (hx : x ∈ m.range)
    (hbytes : ∀ k < pageSize, pageByte (c'.vmm.mem f) k = m.fileByte data (x - x % pageSize + k))
    {m' : Mapping V} (hm' : m' ∈ c.virtualMemory.activeSet) (ha : a ∈ m'.range)
    (hpage : a / pageSize = x / pageSize) :
    c'.Shows (update ref (pathOf (BitVec.ofNat 64 (x - x % pageSize)))
      (some f)) a (m'.fileByte data a) := by
  have hsame : a - a % pageSize = x - x % pageSize := by
    simp only [pageSize] at *
    omega
  have hmapping : m' = m := by
    have hfound := hpaged.upperBound_eq hm' ha.1 ha.2
    rw [hsame, hpaged.upperBound_eq hm hx.1 hx.2] at hfound
    exact (Option.some.inj hfound).symm
  refine ⟨f, ?_, h.aligned, h.spare, ?_⟩
  · rw [← hsame, pathOf_page, update_self]
  · rw [hbytes _ (mod_lt a (by decide)), ← hsame, Nat.sub_add_cancel (mod_le ..), hmapping]

end

/-- Page faults in private mappings of a file.  They are served if the file has a key; and when they
have been served, the pages show the bytes of the file. -/
lemma Ready.faultAll (hdata : HasContents file data) {faults : List (BitVec 64 × ℕ)}
    (h : c.Ready ref (4 * faults.length)) (hpaged : c.virtualMemory.Paged)
    (hcache : c.Uncached file)
    (hfaults : ∀ x ∈ faults, hasFlags x.1 present = false ∧ x.2 < 2 ^ 48 ∧
      ∃ m ∈ c.virtualMemory.activeSet, m.OfFile file ∧ x.2 ∈ m.range) :
    ((∃ key, getInodeKey file = .ok key) → ∃ c', faultAll faults c = .ok () c') ∧
    ∀ c', faultAll faults c = .ok () c' → ∃ ref', c'.Ready ref' 0 ∧
      (∀ a < 2 ^ 48, ∀ b, c.Shows ref a b → (∀ x ∈ faults, a / pageSize ≠ x.2 / pageSize) →
        c'.Shows ref' a b) ∧
      ∀ x ∈ faults, ∀ m ∈ c.virtualMemory.activeSet, ∀ a ∈ m.range, a < 2 ^ 48 →
        a / pageSize = x.2 / pageSize → c'.Shows ref' a (m.fileByte data a) := by
  induction faults generalizing c ref with
  | nil =>
    refine ⟨fun _ => ⟨c, rfl⟩, fun c' hc' => ?_⟩
    cases hc'
    exact ⟨ref, h, fun a _ b hshows _ => hshows, fun x hx => absurd hx not_mem_nil⟩
  | cons x faults ih =>
    obtain ⟨hcause, hlow, m, hm, hfile, hrange⟩ := hfaults x mem_cons_self
    rw [List.length_cons, mul_succ] at h
    rcases h.fault_file hdata hpaged hcache hm hfile hcause hrange with
      ⟨c₁, f, e, henters, hbytes⟩ | ⟨⟨e, hnokey⟩, c₁, e₁⟩
    · have hvm := henters.keeps.virtualMemory
      obtain ⟨hserved, hshown⟩ := ih henters.ready (by rwa [hvm])
        (fun key hkey offset => by rw [henters.pageCache]; exact hcache key hkey offset)
        (fun y hy => by rw [hvm]; exact hfaults y (mem_cons_of_mem x hy))
      have hrun : faultAll (x :: faults) c = faultAll faults c₁ := by
        rw [faultAll, exec_bind, e]
      rw [hrun]
      refine ⟨hserved, fun c' hc' => ?_⟩
      obtain ⟨ref', hready, hold, hnew⟩ := hshown c' hc'
      rw [hvm] at hnew
      refine ⟨ref', hready, fun a ha b hshows hne => ?_, fun y hy m' hm' a ha hlow' hpage => ?_⟩
      · obtain ⟨hx, hrest⟩ := forall_mem_cons.mp hne
        refine hold a ha b (henters.shows hshows ?_) hrest
        rw [pathOf_page]
        exact pathOf_ne_of_page_ne ha hlow hx
      · by_cases hlater : ∃ z ∈ faults, a / pageSize = z.2 / pageSize
        · -- the page is made once more
          obtain ⟨z, hz, hpage'⟩ := hlater
          exact hnew z hz m' hm' a ha hlow' hpage'
        · push Not at hlater
          rcases mem_cons.mp hy with rfl | hy
          · exact hold a hlow' _ (henters.shows_page hpaged hm hrange hbytes hm' ha hpage) hlater
          · exact absurd hpage (hlater y hy)
    · have hrun : faultAll (x :: faults) c = .error (.err "could not get inode key") c₁ := by
        rw [faultAll, exec_bind, e₁]
      rw [hrun]
      refine ⟨?_, fun c' hc' => nomatch hc'⟩
      rintro ⟨key, hkey⟩
      cases hkey.symm.trans hnokey

end FaultContext

/-! ## Segments -/

namespace ElfLoader

open FaultContext

/-- A segment of the program. -/
def IsSegment (file : V) (ph : ProgramHeader) : Prop :=
  ∃ header i, readElfHeader file = .ok header ∧ i < header.ePhnum ∧
    readProgramHeader file header.ePhoff i = .ok ph ∧ ph.pType = PhConstants.ptLoad

/-- A byte of a segment: it comes from the file with the contents `data` or is zero. -/
def segmentByte (data : List UInt8) (ph : ProgramHeader) (i : ℕ) : UInt8 :=
  if i < ph.pFilesz then data[ph.pOffset + i]?.getD 0 else 0

/-- The backing of a mapping of an ordinary file is the file. -/
lemma backing_of_ordinary {length : ℕ} {shared : Bool} {backing : MapBacking V}
    (hordinary : VNode.prepareMmap fm.vnode fm.fileOffset = .error .notImplemented)
    (h : prepareBacking (some fm) length shared = .ok backing) : backing = .file fm := by
  unfold prepareBacking at h
  simp only [hordinary, pure_bind] at h
  cases hlen : fm.fileLength with
  | none =>
    simp only [hlen] at h
    split_ifs at h <;> cases h
    rfl
  | some fileLength =>
    simp only [hlen] at h
    split_ifs at h <;> cases h
    rfl

/-- The mapping of a segment of an ordinary file shows the segment. -/
lemma Mapped.shows {file : V} {data : List UInt8} {ph : ProgramHeader} {vm : VirtualMemory V}
    (h : Mapped file ph vm) (hdata : HasContents file data) (hfits : ph.Fits)
    (hoffset : ph.pOffset + ph.pMemsz < usizeBound) :
    ∃ m ∈ vm.activeSet, m.OfFile file ∧
      ∀ i < ph.pMemsz, ph.pVaddr + i ∈ m.range ∧
      m.fileByte data (ph.pVaddr + i) = segmentByte data ph i := by
  obtain ⟨rq, base, backing, hreq, haddr, hprep, hm⟩ := h
  obtain ⟨hmod, hsize, flags, rfl⟩ := segmentRequest_of_fits hreq hfits
  cases haddr
  obtain rfl := backing_of_ordinary (hdata.prepareMmap _) hprep
  refine ⟨_, hm, ⟨rfl, _, rfl, rfl, ?_⟩, fun i hi => ⟨⟨?_, ?_⟩, ?_⟩⟩
  · simp only [pageSize] at *
    omega
  · simp only
    omega
  · simp only [pageSize] at *
    omega
  · have hplace : ph.pVaddr + i - (ph.pVaddr - ph.pVaddr % pageSize) =
      ph.pVaddr % pageSize + i := by
      have := mod_le ph.pVaddr pageSize
      omega
    have hindex : ph.pOffset - ph.pOffset % pageSize + (ph.pVaddr % pageSize + i) =
      ph.pOffset + i := by
      have := mod_le ph.pOffset pageSize
      omega
    simp only [fileByte, segmentByte, hplace, hindex]
    refine if_congr ?_ rfl rfl
    omega

/-- Let a program be loaded into a new process, with segments of at least one byte that end below `2
^ 47` and whose bytes lie below `2 ^ 64` in the file, and let no page of the file be in the page
cache.  Page faults on any addresses of segments are served if the file has a key, and when they
have been served, every byte of a segment on one of these pages is the byte of the file or, from
`pFilesz` on, zero. -/
theorem load_shows_segments (file : V) (data : List UInt8)
    (hdata : HasContents file data) {entry : ℕ}
    {vm : VirtualMemory V} (hok : load file VirtualMemory.new = .ok entry vm)
    (hsegments : ∀ ph, IsSegment file ph →
      0 < ph.pMemsz ∧ ph.pVaddr + ph.pMemsz ≤ 2 ^ 47 ∧ ph.pOffset + ph.pMemsz < usizeBound)
    (c : FaultContext V) (hvm : c.virtualMemory = vm) (hcache : c.Uncached file)
    (faults : List (BitVec 64 × ℕ)) {ref : Path → Option (BitVec 64)}
    (hready : c.Ready ref (4 * faults.length))
    (hfaults : ∀ x ∈ faults, hasFlags x.1 PageFaultConditions.present = false ∧
      ∃ ph, IsSegment file ph ∧ ph.pVaddr ≤ x.2 ∧ x.2 < ph.pVaddr + ph.pMemsz) :
    ((∃ key, ReadableVNode.getInodeKey file = .ok key) → ∃ c', faultAll faults c = .ok () c') ∧
    ∀ c', faultAll faults c = .ok () c' → ∀ x ∈ faults, ∀ ph, IsSegment file ph → ∀ i < ph.pMemsz,
      (ph.pVaddr + i) / pageSize = x.2 / pageSize →
      c'.userByte (ph.pVaddr + i) = some (segmentByte data ph i) := by
  have hfits : ∀ ph, IsSegment file ph → ph.Fits := by
    intro ph hph
    have hend := (hsegments ph hph).2.1
    simp only [ProgramHeader.Fits, usizeBound, pageSize]
    omega
  obtain ⟨hpaged, header, hread, hmapped⟩ :=
    load_ok (I := VirtualMemory.Paged) (Q := MmapRequest.Plain)
      (fun _ h => h.toInv) (fun _ _ h hrq => h.afterRequest hrq) (fun _ hrq a ha => (hrq.2 a ha).2)
    paged_new hok (by
      intro header hread i hi ph rq hph htype hreq
      have hseg : IsSegment file ph := ⟨header, i, hread, hi, hph, htype⟩
      have hpos := (hsegments ph hseg).1
      refine ⟨?_, fun a ha => ⟨?_, bounded_of_fits hreq (hfits ph hseg) a ha⟩⟩
      all_goals obtain ⟨-, -, flags, rfl⟩ := segmentRequest_of_fits hreq (hfits ph hseg)
      · simp only [pageSize]
        omega
      · cases ha
        simp only [pageSize]
        omega)
  rw [← hvm] at hpaged hmapped
  -- every segment has a mapping that shows it
  have hshow : ∀ ph, IsSegment file ph → ∃ m ∈ c.virtualMemory.activeSet, m.OfFile file ∧
      ∀ i < ph.pMemsz, ph.pVaddr + i ∈ m.range ∧
      m.fileByte data (ph.pVaddr + i) = segmentByte data ph i := by
    rintro ph ⟨header', i, hread', hi, hph, htype⟩
    cases hread.symm.trans hread'
    obtain ⟨ph', hph', hmap⟩ := hmapped i hi
    cases hph.symm.trans hph'
    have hseg : IsSegment file ph := ⟨header, i, hread, hi, hph, htype⟩
    exact (hmap htype).shows hdata (hfits ph hseg) (hsegments ph hseg).2.2
  obtain ⟨hserved, hshown⟩ := hready.faultAll hdata hpaged hcache (by
    intro x hx
    obtain ⟨hcause, ph, hseg, hlo, hhi⟩ := hfaults x hx
    obtain ⟨m, hm, hfile, hbytes⟩ := hshow ph hseg
    have hend := (hsegments ph hseg).2.1
    refine ⟨hcause, by omega, m, hm, hfile, ?_⟩
    have := (hbytes (x.2 - ph.pVaddr) (by omega)).1
    rwa [Nat.add_sub_cancel' hlo] at this)
  refine ⟨hserved, fun c' hc' x hx ph hseg i hi hpage => ?_⟩
  obtain ⟨ref', hready', -, hnew⟩ := hshown c' hc'
  obtain ⟨m, hm, -, hbytes⟩ := hshow ph hseg
  have hend := (hsegments ph hseg).2.1
  rw [← (hbytes i hi).2]
  exact (hnew x hx m hm _ (hbytes i hi).1 (by omega) hpage).userByte hready'

/-- The first page of a program is used: the program sees the letter `E` of its own ELF header, and
zeros behind the part that comes from the file. -/
theorem load_shows_own_header :
    ∃ c', faultAll [(0#64, 0x40010)]
      (eightFrameContext (oneSegmentMemory 0x40000 120 0x2000)) = .ok () c' ∧
        c'.userByte 0x40001 = some 0x45 ∧ c'.userByte 0x40078 = some 0 := by
  have hok : load (oneSegment 0x40000 120 0x2000) new =
      .ok 0x40000 (oneSegmentMemory 0x40000 120 0x2000) :=
    exec_of_returnedValue (by decide +kernel)
  have hheader : readElfHeader (oneSegment 0x40000 120 0x2000) =
    .ok (oneSegmentHeader 0x40000) := by
    decide +kernel
  have hph : readProgramHeader (oneSegment 0x40000 120 0x2000) 64 0 =
      .ok ⟨1, 6, 0, 0x40000, 120, 0x2000⟩ := by
    decide +kernel
  have hseg : IsSegment (oneSegment 0x40000 120 0x2000) ⟨1, 6, 0, 0x40000, 120, 0x2000⟩ :=
    ⟨_, 0, hheader, zero_lt_one, hph, rfl⟩
  have honly : ∀ ph, IsSegment (oneSegment 0x40000 120 0x2000) ph →
    ph = ⟨1, 6, 0, 0x40000, 120, 0x2000⟩ := by
    rintro ph ⟨header, i, hread, hi, hph', -⟩
    cases hread.symm.trans hheader
    obtain rfl : i = 0 := lt_one_iff.mp hi
    cases hph'.symm.trans hph
    rfl
  have hvm : ∀ vm : VirtualMemory RamInode, (eightFrameContext vm).virtualMemory = vm :=
    fun _ => rfl
  obtain ⟨hserved, hshown⟩ := load_shows_segments (oneSegment 0x40000 120 0x2000) _
    (RamInode.hasContents 1 (some 0)) hok
    (fun ph hph' => by rw [honly ph hph']; exact ⟨by decide, by decide, by decide⟩)
    (eightFrameContext (oneSegmentMemory 0x40000 120 0x2000)) (hvm _) (fun _ _ _ => rfl)
    [(0#64, 0x40010)] ((ready_eightFrameContext _).mono (by decide)) (by
      intro x hx
      rw [mem_singleton.mp hx]
      exact ⟨by decide, _, hseg, by decide, by decide⟩)
  obtain ⟨c', hc'⟩ := hserved ⟨⟨0, 1⟩, rfl⟩
  have hbyte := hshown c' hc' _ (mem_singleton.mpr rfl) _ hseg
  refine ⟨c', hc', (hbyte 1 (by decide) (by decide)).trans ?_,
    (hbyte 0x78 (by decide) (by decide)).trans ?_⟩
  · decide +kernel
  · decide +kernel

end ElfLoader

end CabOS
