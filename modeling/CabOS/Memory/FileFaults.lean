import CabOS.ElfPages
import CabOS.Memory.PageFaultEffects
import CabOS.Memory.SharedFiles

/-!
# Page faults on files

A private page comes from the file as a whole, or, where the file part of the mapping ends, from the
page cache if the page is there.  So two private mappings of which one shows a whole page and the
other a part of it show the same byte exactly if the cached page has the byte of the file
(`private_mappings_agree`); a page that was written through a shared mapping is seen by the one kind
of mapping and not by the other (`private_mappings_differ`).

A page fault that fails before it has taken a frame leaves everything as it was, unless it has taken
a page out of the page table.  Behind that point nothing is undone.  `failed_fault_unchanged` says
exactly when a page fault that fails changes nothing; a file that cannot be read leaves its page in
the page table, with a frame that nobody has filled (`failed_fault_leaves_page`).
-/

namespace CabOS.FaultContext

open AArch64 Function Triple PagingOptions VirtualMemory ReadableVNode RaisesOnly EStateM.Result

variable {V : Type} [ReadableVNode V] {file : V} {fileLength : ℕ} (word : BitVec 64)

/-! ## Private pages -/

section

variable {ref : Path → Option (BitVec 64)} {f : BitVec 64} {P : (ℕ → UInt8) → Prop}
  {c c' : FaultContext V}
  {m : Mapping V} {fm : FileMapping V} {vaddr offset : ℕ} {bytes : ℕ → UInt8} {address : ℕ}

/-- The handler has taken a frame, whose bytes are as `P` says. -/
structure Holding (ref : Path → Option (BitVec 64)) (f : BitVec 64) (P : (ℕ → UInt8) → Prop)
    (c : FaultContext V) :
    Prop where
  ready : c.Ready ref 0
  spare : c.Spare f
  aligned : f &&& pteAddrMask = f
  bytes : P (pageByte (c.vmm.mem f))

/-- The page cache has a copy of the page of the file. -/
def HasCopy (c : FaultContext V) (file : V) (offset : ℕ) : Prop :=
  ∃ key paddr, ReadableVNode.getInodeKey file = .ok key ∧ c.pageCache ⟨key, offset⟩ = some paddr

/-- The bytes are those of the cached copy of the page, or those that are read in the file if there
is none. -/
def Supplies (c : FaultContext V) (file : V) (offset : ℕ) (bytes : ℕ → UInt8) : Prop :=
  c.CacheAgrees file offset bytes ∧
    (¬c.HasCopy file offset → ∀ bytes', ReadableVNode.readPage file offset = .ok bytes' →
      bytes' = bytes)

/-- The page cache is not touched, and its frames keep their bytes. -/
lemma Supplies.keeps (h : c.Supplies file offset bytes) (hkeeps : c.Keeps c')
    (hcache : c'.pageCache = c.pageCache) :
    c'.Supplies file offset bytes := by
  refine ⟨h.1.keeps hkeeps hcache, fun hnone => h.2 ?_⟩
  rwa [HasCopy, ← hcache]

omit [ReadableVNode V] in
/-- A frame is taken; what `I` says about the page cache is as it was. -/
lemma frameAlloc_holding {I : FaultContext V → Prop}
    (hI : ∀ {c c'}, I c → c.Keeps c' → c'.pageCache = c.pageCache → I c') :
    Triple (fun c : FaultContext V => c.Ready ref 0 ∧ I c) (onVmm frameAlloc)
      (fun f c => c.Holding ref f (fun _ => True) ∧ I c) fun _ => True := by
  refine of_cases (fun c f c' h e => ?_) fun _ _ _ _ _ => trivial
  obtain ⟨hready, hcopy⟩ := h
  cases hfree : c.vmm.free with
  | nil => simp [onVmm, frameAlloc, hfree] at e
  | cons g free =>
    obtain ⟨g, c₁, e₁, hready', hspare, hkeeps, -, hmask, hcache⟩ := Ready.frameAlloc (n := 0)
      (⟨hready.tree, hready.pool, by rw [hfree]; simp⟩ : c.Ready ref 1)
    cases e₁.symm.trans e
    exact ⟨⟨hready', hspare, hmask, trivial⟩, hI hcopy hkeeps hcache⟩

section

omit [ReadableVNode V]

/-- The frame is filled. -/
lemma storePage_holding (content : ℕ → UInt8) : Triple (Holding (V := V) ref f P)
    (storePage f content)
      (fun _ => Holding ref f fun b => ∀ k < pageSize, b k = content k) fun _ => True := by
  refine ⟨fun c h => ?_⟩
  obtain ⟨c', e, hready, hfills, hbytes⟩ := h.ready.storePage h.spare content
  rw [e]
  exact ⟨hready, (hfills.spare f h.spare).1, h.aligned, hbytes⟩

/-- The page is entered, and the frame keeps its bytes. -/
lemma virtualMap_holding : Triple (Holding (V := V) ref f P)
    (virtualMap vaddr f (privatePermissions m))
      (fun _ => Holding (update ref (pathOf (BitVec.ofNat 64 vaddr)) (some f)) f P) fun _ =>
      True := by
  refine Triple.of_cases (fun c _ c' h e => ?_) fun _ _ _ _ _ => trivial
  rcases vmap_cases h.ready.tree h.ready.pool (BitVec.ofNat 64 vaddr) f (privatePermissions m) with
    ⟨s', heq, -⟩ | ⟨s', heq, htree, hpool, hcon⟩
  · simp only [virtualMap, exec_bind, exec_get, onVmm, heq] at e
    cases e
  · simp only [virtualMap, exec_bind, exec_get, onVmm, heq] at e
    cases e
    rw [next_entry (privatePermissions_present m), h.aligned] at htree
    obtain ⟨hspare, hmem⟩ := (Keeps.of_confined hcon).spare f h.spare
    refine ⟨⟨htree, hpool, Nat.zero_le _⟩, hspare, h.aligned, ?_⟩
    rw [hmem]
    exact h.bytes

end

/-- The bytes that come from the page cache, or from the file. -/
lemma fillPartial_holding (pageOffset fileBytes : ℕ) :
    Triple (fun c => Holding ref f P c ∧ c.Supplies fm.vnode (wadd pageOffset fm.fileOffset) bytes)
      (fillPartial fm f pageOffset fileBytes)
      (fun _ => Holding ref f fun b => ∀ k < pageSize, k < fileBytes → b k = bytes k) fun _ =>
      True := by
  refine of_cases (fun c _ c' h e => ?_) fun _ _ _ _ _ => trivial
  obtain ⟨h, hagrees, hread⟩ := h
  unfold fillPartial at e
  split_ifs at e with hpos
  · cases hkey : getInodeKey fm.vnode with
    | error err =>
      simp only [hkey] at e
      cases e
    | ok key =>
      simp only [hkey, exec_bind, exec_get] at e
      cases hcache : c.pageCache ⟨key, wadd pageOffset fm.fileOffset⟩ with
      | none =>
        have hnone : ¬c.HasCopy fm.vnode (wadd pageOffset fm.fileOffset) := by
          rintro ⟨key', paddr, hkey', hpaddr⟩
          cases hkey.symm.trans hkey'
          rw [hcache] at hpaddr
          cases hpaddr
        cases hbytes : ReadableVNode.readPage fm.vnode (wadd pageOffset fm.fileOffset) with
        | error err =>
          simp only [hcache, readPage, hbytes] at e
          cases e
        | ok bytes' =>
          obtain rfl := hread hnone bytes' hbytes
          simp only [hcache, readPage, hbytes] at e
          have hfilled := (storePage_holding _).of_ok h e
          exact ⟨hfilled.ready, hfilled.spare, hfilled.aligned, fun k hk _ => hfilled.bytes k hk⟩
      | some paddr =>
        simp only [hcache] at e
        have hfilled := (storePage_holding _).of_ok h e
        refine ⟨hfilled.ready, hfilled.spare, hfilled.aligned, fun k hk hlt => ?_⟩
        rw [hfilled.bytes k hk, if_pos hlt]
        exact (hagrees key hkey paddr hcache).2 k hk
  · cases e
    exact ⟨h.ready, h.spare, h.aligned, fun k _ hk => absurd hk (by omega)⟩

/-- A page that does not come from the file as a whole shows the cached copy or the file up to the
end of the file part, and zeros behind it. -/
lemma handleMappingPrivatePartial_holding (hbacking : m.backing = .file fm)
    (hpart : ¬wadd (wsub vaddr m.base) pageSize ≤ fileLength) :
    Triple (fun c => c.Ready ref 0 ∧
      c.Supplies fm.vnode (wadd (wsub vaddr m.base) fm.fileOffset) bytes)
      (handleMappingPrivatePartial vaddr m fileLength)
      (fun done c => done ∧ ∃ f, Holding (update ref (pathOf (BitVec.ofNat 64 vaddr)) (some f)) f
        (fun b => ∀ k < pageSize,
          b k = if k < fileLength - wsub vaddr m.base then bytes k else 0) c)
      fun _ => True := by
  simp only [handleMappingPrivatePartial, if_neg hpart, hbacking]
  refine bind (frameAlloc_holding Supplies.keeps) fun f => ?_
  refine bind (fillPartial_holding _ _) fun _ => ?_
  refine bind (Q := fun c c' => c = c' ∧ Holding ref f
    (fun b => ∀ k < pageSize, k < fileLength - wsub vaddr m.base →
      b k = bytes k) c') (get fun _ h => ⟨rfl, h⟩)
    fun c => ?_
  refine bind (Q := fun _ => Holding ref f fun b => ∀ k < pageSize,
    b k = if k < fileLength - wsub vaddr m.base then bytes k else 0) ⟨?_⟩ fun _ => ?_
  · -- the bytes of the file stay, so they are the ones that were there when the zeros were written
    rintro c' ⟨rfl, h⟩
    obtain ⟨c₁, e, hready, hfills, hbytes⟩ := h.ready.storePage h.spare fun k =>
      if k < fileLength - wsub vaddr m.base then pageByte (c.vmm.mem f) k else 0
    rw [e]
    refine ⟨hready, (hfills.spare f h.spare).1, h.aligned, fun k hk => ?_⟩
    rw [hbytes k hk]
    split_ifs with hlt
    · exact h.bytes k hk hlt
    · rfl
  · refine bind virtualMap_holding fun _ => ?_
    exact pure fun c h => ⟨rfl, f, h⟩

/-- A page that comes from the file as a whole. -/
lemma enterFilePage_holding :
    Triple (fun c : FaultContext V => c.Ready ref 0) (do
        let paddr ← onVmm frameAlloc
        virtualMap vaddr paddr (privatePermissions m)
        readPage fm.vnode paddr offset)
      (fun _ c => ∃ bytes, ReadableVNode.readPage fm.vnode offset = .ok bytes ∧
        ∃ f, Holding (update ref (pathOf (BitVec.ofNat 64 vaddr))
          (some f)) f (fun b => ∀ k < pageSize, b k = bytes k) c)
      fun _ => True := by
  refine bind ((frameAlloc_holding (I := fun _ => True) fun _ _ _ => trivial).weaken
    (fun _ h => ⟨h, trivial⟩)
    fun _ _ h => h.1) fun f => ?_
  refine bind virtualMap_holding fun _ => ?_
  cases hread : ReadableVNode.readPage fm.vnode offset with
  | error err =>
    refine of_cases (fun _ _ _ _ e => ?_) fun _ _ _ _ _ => trivial
    simp only [readPage, hread] at e
    cases e
  | ok bytes =>
    rw [readPage, hread]
    exact (storePage_holding bytes).weaken (fun _ h => h) fun _ _ h => ⟨bytes, rfl, f, h⟩

/-- The page comes from the file as a whole. -/
def Whole (m : Mapping V) (fm : FileMapping V) (vaddr : ℕ) : Prop :=
  ∀ fileLength ∈ fm.fileLength, wadd (wsub vaddr m.base) pageSize ≤ fileLength

/-- A whole page of a private mapping shows the file. -/
lemma handleMappingPrivate_whole (hbacking : m.backing = .file fm) (hwhole : Whole m fm vaddr) :
    Triple (fun c => c.Ready ref 0) (handleMappingPrivate vaddr m)
      (fun _ c => ∃ bytes, ReadableVNode.readPage fm.vnode
        (wadd (wsub vaddr m.base) fm.fileOffset) = .ok bytes ∧
        ∃ f, Holding (update ref (pathOf (BitVec.ofNat 64 vaddr))
          (some f)) f (fun b => ∀ k < pageSize, b k = bytes k) c)
      fun _ => True := by
  unfold handleMappingPrivate
  refine guard _ (fun _ _ => trivial) fun _ => ?_
  simp only [hbacking]
  cases hlength : fm.fileLength with
  | none =>
    simp only [pure_bind, Bool.not_false, if_true]
    exact enterFilePage_holding
  | some fileLength =>
    simp only [handleMappingPrivatePartial, pure_bind, Bool.not_false, if_true,
      hwhole fileLength hlength]
    exact enterFilePage_holding

/-- A part of a page of a private mapping shows the cached copy, or the file if there is none. -/
lemma handleMappingPrivate_part (hbacking : m.backing = .file fm)
    (hlength : fm.fileLength = some fileLength)
    (hpart : ¬wadd (wsub vaddr m.base) pageSize ≤ fileLength) :
    Triple (fun c => c.Ready ref 0 ∧
      c.Supplies fm.vnode (wadd (wsub vaddr m.base) fm.fileOffset) bytes)
      (handleMappingPrivate vaddr m)
      (fun _ c => ∃ f, Holding (update ref (pathOf (BitVec.ofNat 64 vaddr)) (some f)) f
        (fun b => ∀ k < pageSize,
          b k = if k < fileLength - wsub vaddr m.base then bytes k else 0) c)
      fun _ => True := by
  unfold handleMappingPrivate
  refine guard _ (fun _ _ => trivial) fun _ => ?_
  simp only [hbacking, hlength]
  refine bind (handleMappingPrivatePartial_holding hbacking hpart) fun done => ⟨?_⟩
  rintro c ⟨rfl, hc⟩
  simpa only [Bool.not_true, Bool.false_eq_true, if_false, exec_pure] using hc

/-- The first access to a page of a private mapping of a file, where the page starts at the given
offset of the file. -/
structure FirstFault (c : FaultContext V) (cause : BitVec 64) (address : ℕ) (m : Mapping V)
    (fm : FileMapping V)
    (file : V) (offset : ℕ) : Prop where
  cause : hasFlags cause PageFaultConditions.present = false
  found : c.virtualMemory.activeSet.upperBound (address - address % pageSize) = some m
  inside : address - address % pageSize < wadd m.base m.length
  not_shared : m.shared = false
  backing : m.backing = .file fm
  vnode : fm.vnode = file
  offset : wadd (wsub (address - address % pageSize) m.base) fm.fileOffset = offset

/-- The byte at an address belongs to the file part of the mapping. -/
def Covers (m : Mapping V) (fm : FileMapping V) (address : ℕ) : Prop :=
  ∀ fileLength ∈ fm.fileLength,
  wsub (address - address % pageSize) m.base + address % pageSize < fileLength

section

variable {cause : BitVec 64} (h : c.FirstFault cause address m fm file offset)
  (hready : c.Ready ref 0)
  (hc : handlePageFault cause address c = .ok () c')
include h hready hc

/-- After the first access to a whole page, the program sees the file. -/
lemma FirstFault.userByte_whole (hwhole : Whole m fm (address - address % pageSize)) :
    ∃ bytes, ReadableVNode.readPage file offset = .ok bytes ∧
    c'.userByte address = some (bytes (address % pageSize)) := by
  obtain ⟨hcause, hfound, hinside, hshared, hbacking, rfl, rfl⟩ := h
  rw [handlePageFault_eq hcause hfound hinside, hshared] at hc
  obtain ⟨bytes, hread, f, hf⟩ := (handleMappingPrivate_whole hbacking hwhole).of_ok hready hc
  refine ⟨bytes, hread, Shows.userByte ⟨f, ?_, hf.aligned, hf.spare, ?_⟩ hf.ready⟩
  · rw [pathOf_page, update_self]
  · exact hf.bytes _ (Nat.mod_lt address (by decide))

/-- After the first access to a part of a page, the program sees the cached copy, or the file if
there is none. -/
lemma FirstFault.userByte_part (hpart : ¬Whole m fm (address - address % pageSize))
    (hcovers : Covers m fm address)
    {bytes : ℕ → UInt8} (hsupplies : c.Supplies file offset bytes) :
    c'.userByte address = some (bytes (address % pageSize)) := by
  obtain ⟨hcause, hfound, hinside, hshared, hbacking, rfl, rfl⟩ := h
  rw [handlePageFault_eq hcause hfound hinside, hshared] at hc
  obtain ⟨fileLength, hlength, hpart⟩ : ∃ fileLength ∈ fm.fileLength,
      ¬wadd (wsub (address - address % pageSize) m.base) pageSize ≤ fileLength := by
    unfold Whole at hpart
    push Not at hpart
    simpa only [not_le] using hpart
  obtain ⟨f, hf⟩ := (handleMappingPrivate_part hbacking hlength hpart).of_ok ⟨hready, hsupplies⟩ hc
  refine Shows.userByte ⟨f, ?_, hf.aligned, hf.spare, ?_⟩ hf.ready
  · rw [pathOf_page, update_self]
  · have hlt := hcovers fileLength hlength
    rw [hf.bytes _ (Nat.mod_lt address (by decide)), if_pos (by omega)]

/-- A part of a page without a cached copy shows the file. -/
lemma FirstFault.userByte_uncached (hpart : ¬Whole m fm (address - address % pageSize))
    (hcovers : Covers m fm address)
    (hnone : ¬c.HasCopy file offset) :
    ∃ bytes, ReadableVNode.readPage file offset = .ok bytes ∧
    c'.userByte address = some (bytes (address % pageSize)) := by
  have hagrees : ∀ bytes, c.CacheAgrees file offset bytes := fun bytes key hkey paddr hpaddr =>
    absurd ⟨key, paddr, hkey, hpaddr⟩ hnone
  have hshown := fun bytes hread => h.userByte_part hready hc hpart hcovers ⟨hagrees bytes, hread⟩
  cases hread : ReadableVNode.readPage file offset with
  | ok bytes =>
    exact ⟨bytes, rfl, hshown bytes fun _ bytes' hread' => Except.ok.inj (hread'.symm.trans hread)⟩
  | error err =>
    -- the handler has returned, so the file was read
    have hany : ∀ bytes : ℕ → UInt8, c'.userByte address = some (bytes (address % pageSize)) :=
      fun bytes =>
      hshown bytes fun _ _ hread' => absurd (hread.symm.trans hread') (by simp)
    have hzero := (hany fun _ => 0).symm.trans (hany fun _ => 1)
    simp at hzero

/-- What the program sees after the first access: the cached copy in a part of a page, and the file
otherwise. -/
lemma FirstFault.userByte_cases (hcovers : Covers m fm address) {cached : ℕ → UInt8}
    (hcached : c.CacheAgrees file offset cached) :
    (¬Whole m fm (address - address % pageSize) ∧ c.HasCopy file offset ∧
      c'.userByte address = some (cached (address % pageSize))) ∨
    ((Whole m fm (address - address % pageSize) ∨ ¬c.HasCopy file offset) ∧ ∃ bytes,
      ReadableVNode.readPage file offset = .ok bytes ∧
      c'.userByte address = some (bytes (address % pageSize))) := by
  by_cases hwhole : Whole m fm (address - address % pageSize)
  · exact .inr ⟨.inl hwhole, h.userByte_whole hready hc hwhole⟩
  · by_cases hcopy : c.HasCopy file offset
    · exact .inl ⟨hwhole, hcopy, h.userByte_part hready hc hwhole hcovers
        ⟨hcached, fun hnone => absurd hcopy hnone⟩⟩
    · exact .inr ⟨.inr hcopy, h.userByte_uncached hready hc hwhole hcovers hcopy⟩

end

end

/-- Two private mappings of a file are accessed for the first time at the same byte of the file,
with the same page cache.  They show the same byte exactly if both show a whole page, or both a part
of one, or if the cached copy of the page, if there is one, has the byte of the file there. -/
theorem private_mappings_agree {c₁ c₁' c₂ c₂' : FaultContext V}
    {ref₁ ref₂ : Path → Option (BitVec 64)}
    {cause₁ cause₂ : BitVec 64} {address₁ address₂ : ℕ} {m₁ m₂ : Mapping V}
    {fm₁ fm₂ : FileMapping V} {file : V}
    {offset : ℕ} {cached : ℕ → UInt8} (hready₁ : c₁.Ready ref₁ 0) (hready₂ : c₂.Ready ref₂ 0)
    (hcache : c₁.pageCache = c₂.pageCache) (hcached₁ : c₁.CacheAgrees file offset cached)
    (hcached₂ : c₂.CacheAgrees file offset cached)
    (h₁ : c₁.FirstFault cause₁ address₁ m₁ fm₁ file offset)
    (h₂ : c₂.FirstFault cause₂ address₂ m₂ fm₂ file offset)
    (hc₁ : handlePageFault cause₁ address₁ c₁ = .ok () c₁')
    (hc₂ : handlePageFault cause₂ address₂ c₂ = .ok () c₂')
    (hcovers₁ : Covers m₁ fm₁ address₁) (hcovers₂ : Covers m₂ fm₂ address₂)
    (hsame : address₁ % pageSize = address₂ % pageSize) :
    (c₁'.userByte address₁).isSome ∧ (c₁'.userByte address₁ = c₂'.userByte address₂ ↔
      (Whole m₁ fm₁ (address₁ - address₁ % pageSize) ↔
        Whole m₂ fm₂ (address₂ - address₂ % pageSize)) ∨
        ∀ bytes, c₁.HasCopy file offset → ReadableVNode.readPage file offset = .ok bytes →
          cached (address₁ % pageSize) = bytes (address₁ % pageSize)) := by
  have hcopy : c₂.HasCopy file offset ↔ c₁.HasCopy file offset := by
    rw [HasCopy, HasCopy, hcache]
  have hshown₁ := h₁.userByte_cases hready₁ hc₁ hcovers₁ hcached₁
  have hshown₂ := h₂.userByte_cases hready₂ hc₂ hcovers₂ hcached₂
  rw [hcopy] at hshown₂
  rcases hshown₁ with ⟨hpart₁, hcopy₁, hbyte₁⟩ | ⟨hfile₁, bytes₁, hread₁, hbyte₁⟩ <;>
    rcases hshown₂ with ⟨hpart₂, hcopy₂, hbyte₂⟩ | ⟨hfile₂, bytes₂, hread₂, hbyte₂⟩ <;>
      rw [← hsame] at hbyte₂ <;> rw [hbyte₁, hbyte₂]
  · exact ⟨rfl, iff_of_true rfl (.inl (iff_of_false hpart₁ hpart₂))⟩
  · have hwhole₂ := hfile₂.resolve_right (not_not.mpr hcopy₁)
    refine ⟨rfl, fun heq => .inr fun bytes _ hread => ?_, fun h => congrArg some ?_⟩
    · cases hread₂.symm.trans hread
      exact Option.some.inj heq
    · exact h.resolve_left (fun hiff => hpart₁ (hiff.mpr hwhole₂)) bytes₂ hcopy₁ hread₂
  · have hwhole₁ := hfile₁.resolve_right (not_not.mpr hcopy₂)
    refine ⟨rfl, fun heq => .inr fun bytes _ hread => ?_, fun h => congrArg some ?_⟩
    · cases hread₁.symm.trans hread
      exact (Option.some.inj heq).symm
    · exact (h.resolve_left (fun hiff => hpart₂ (hiff.mp hwhole₁)) bytes₁ hcopy₂ hread₁).symm
  · cases hread₁.symm.trans hread₂
    refine ⟨rfl, iff_of_true rfl ?_⟩
    by_cases hcopy₁ : c₁.HasCopy file offset
    · exact .inl (iff_of_true (hfile₁.resolve_right (not_not.mpr hcopy₁))
        (hfile₂.resolve_right (not_not.mpr hcopy₁)))
    · exact .inr fun _ h => absurd h hcopy₁

/-- The request for a private page of a file whose file part has the given length. -/
def privatePage (fileLength base : ℕ) : MmapRequest OrdinaryFile :=
  ⟨some ⟨⟨7⟩, 0, some fileLength⟩, 4096, PagingOptions.writable, false, some base⟩

/-- The mapping that this request makes. -/
def privateMapping (fileLength base : ℕ) : Mapping OrdinaryFile :=
  ⟨.file ⟨⟨7⟩, 0, some fileLength⟩, 4096, PagingOptions.writable, false, base⟩

/-- A process with two private mappings of a page of zeros, which the page cache has with the given
words. -/
def cachedPage (word : BitVec 64) : FaultContext OrdinaryFile where
  virtualMemory :=
    (VirtualMemory.new.afterRequest (privatePage 4096 0x20000)).afterRequest
    (privatePage 2048 0x40000)
  pageTable := 0x10000#64
  vmm := ⟨fun f _ => if f = 0x9000#64 then word else 0, eightFrames.free⟩
  pageCache key := if key = ⟨⟨0, 7⟩, 0⟩ then some 0x9000#64 else none

lemma root_cachedPage (i : Fin ptePerPage) :
    (cachedPage word).vmm.mem (rootOf (cachedPage word).pageTable) i = 0 :=
  if_neg (show rootOf 0x10000#64 ≠ 0x9000#64 by decide)

lemma ready_cachedPage : (cachedPage word).Ready (fun _ => none) 0 where
  tree := treeInv_zero (root_cachedPage word) (show rootOf 0x10000#64 ∉ eightFrames.free by decide)
  pool := poolOk_eightFrames
  frames := Nat.zero_le _

/-- The first access to the mapping with a whole page of the file. -/
lemma firstFault_whole : (cachedPage word).FirstFault 0#64 0x20000 (privateMapping 4096 0x20000)
    ⟨⟨7⟩, 0, some 4096⟩ ⟨7⟩ 0 :=
  ⟨by decide, rfl, by decide, rfl, rfl, rfl, by decide⟩

/-- The first access to the mapping with half a page of the file. -/
lemma firstFault_part : (cachedPage word).FirstFault 0#64 0x40000 (privateMapping 2048 0x40000)
    ⟨⟨7⟩, 0, some 2048⟩ ⟨7⟩ 0 :=
  ⟨by decide, rfl, by decide, rfl, rfl, rfl, by decide⟩

lemma covers_privateMapping {base : ℕ} (hbase : base % pageSize = 0) (hbound : base < usizeBound)
    (hlt : 0 < fileLength) :
    Covers (privateMapping fileLength base) ⟨⟨7⟩, 0, some fileLength⟩ base := by
  rintro _ ⟨⟩
  rw [hbase, Nat.sub_zero, privateMapping, wsub_eq hbound le_rfl, Nat.sub_self]
  exact hlt

/-- A whole and a half page of a file with a cached copy. -/
theorem private_mappings_agree_half_page :
    (finalState (handlePageFault 0#64 0x20000) (cachedPage 0)).userByte 0x20000 =
      (finalState (handlePageFault 0#64 0x40000) (cachedPage 0)).userByte 0x40000 := by
  have hagrees : (cachedPage 0).CacheAgrees (⟨7⟩ : OrdinaryFile) 0 fun _ => 0 := by
    rintro key ⟨⟩ paddr ⟨⟩
    refine ⟨⟨by decide, fun q _ ht => ?_⟩, fun k _ => ?_⟩
    · exact absurd (walk_zero (root_cachedPage 0) ht).2
        (show (0x9000#64 : BitVec 64) ≠ rootOf 0x10000#64 by decide)
    · simp [cachedPage, pageByte]
  refine (private_mappings_agree (ready_cachedPage 0) (ready_cachedPage 0) rfl hagrees hagrees
    (firstFault_whole 0)
    (firstFault_part 0) (exec_of_returnedValue (by decide +kernel))
    (exec_of_returnedValue (by decide +kernel))
    (covers_privateMapping rfl (by decide) (by decide))
    (covers_privateMapping rfl (by decide) (by decide))
    rfl).2.mpr (.inr fun bytes _ hread => ?_)
  cases hread
  rfl

/-- The page was written through a shared mapping, so that the page cache has ones where the file
has zeros.  The mapping with a whole page shows the zeros, and the one with half a page shows the
ones. -/
theorem private_mappings_differ : (cachedPage 1).Ready (fun _ => none) 0 ∧
      (cachedPage 1).FirstFault 0#64 0x20000 (privateMapping 4096 0x20000) ⟨⟨7⟩, 0,
        some 4096⟩ ⟨7⟩ 0 ∧
      (cachedPage 1).FirstFault 0#64 0x40000 (privateMapping 2048 0x40000) ⟨⟨7⟩, 0,
        some 2048⟩ ⟨7⟩ 0 ∧
      Covers (privateMapping 4096 0x20000) ⟨⟨7⟩, 0, some 4096⟩ 0x20000 ∧
      Covers (privateMapping 2048 0x40000) ⟨⟨7⟩, 0, some 2048⟩ 0x40000 ∧
      (finalState (handlePageFault 0#64 0x20000) (cachedPage 1)).userByte 0x20000 = some 0 ∧
      (finalState (handlePageFault 0#64 0x40000) (cachedPage 1)).userByte 0x40000 = some 1 :=
  ⟨ready_cachedPage 1, firstFault_whole 1, firstFault_part 1,
    covers_privateMapping rfl (by decide) (by decide),
    covers_privateMapping rfl (by decide) (by decide), by decide +kernel, by decide +kernel⟩

/-! ## Page faults that fail -/

section

variable {c c' : FaultContext V} {m : Mapping V} {message : String} {vaddr : ℕ} {fm : FileMapping V}
  {ref : Path → Option (BitVec 64)} {f : BitVec 64}

/-- There are no pages for such a mapping, and no frame is taken. -/
def Refuses (m : Mapping V) : Prop :=
  match m.backing with
  | .file fm => m.shared = true ∧ ∃ e, ReadableVNode.getInodeKey fm.vnode = .error e
  | .device _ _ => m.shared = false
  | .anonymous => m.shared = true

/-- The page has to be read in a file, and this fails when a frame has been taken.  A shared page
comes from the page cache, and so do the bytes of a private page that is only in part in the file
part of the mapping. -/
def Unreadable (c : FaultContext V) (vaddr : ℕ) (m : Mapping V) : Prop :=
  ∃ fm, m.backing = .file fm ∧
    (m.shared = true → ∃ key, ReadableVNode.getInodeKey fm.vnode = .ok key ∧
      c.pageCache ⟨key, wadd (wsub vaddr m.base) fm.fileOffset⟩ = none ∧
      ∀ file : V, ReadableVNode.getInode key = .ok file →
        ∀ bytes, ReadableVNode.readPage file (wadd (wsub vaddr m.base) fm.fileOffset) ≠ .ok bytes) ∧
    (m.shared = false → Whole m fm vaddr →
      ∀ bytes, ReadableVNode.readPage fm.vnode (wadd (wsub vaddr m.base) fm.fileOffset) ≠
        .ok bytes) ∧
    (m.shared = false → ¬Whole m fm vaddr →
      (∃ fileLength ∈ fm.fileLength, wsub vaddr m.base < fileLength) ∧
        ∀ key, ReadableVNode.getInodeKey fm.vnode = .ok key →
          c.pageCache ⟨key, wadd (wsub vaddr m.base) fm.fileOffset⟩ = none ∧
          ∀ bytes, ReadableVNode.readPage fm.vnode (wadd (wsub vaddr m.base) fm.fileOffset) ≠
            .ok bytes)

/-- Only the page cache decides whether a page can be read. -/
lemma unreadable_congr (hcache : c'.pageCache = c.pageCache) : c'.Unreadable vaddr m ↔
    c.Unreadable vaddr m := by
  rw [Unreadable, Unreadable, hcache]

/-! ### What fails before and after a frame is taken -/

/-- The call does not end with an error value: the kernel stopped, or it waits for a frame. -/
def Stuck (e : PageFaultError) : Prop := ∀ message, e ≠ .err message

lemma not_stuck_err : ¬Stuck (.err message) := fun h => h message rfl

section

omit [ReadableVNode V]

lemma onVmm_stuck {α : Type} (x : EStateM FrameFault Vmm α) :
    RaisesOnly Stuck (onVmm (V := V) x) := by
  intro c e c' h message he
  unfold onVmm at h
  cases hx : x c.vmm with
  | ok a t =>
    rw [hx] at h
    cases h
  | error fault t =>
    rw [hx, he] at h
    cases h

/-- Work on the physical memory leaves the page cache alone. -/
lemma pageCache_onVmm {α : Type} {x : EStateM FrameFault Vmm α} {r : α} (h : onVmm x c = .ok r c') :
    c'.pageCache = c.pageCache := by
  unfold onVmm at h
  cases hx : x c.vmm with
  | ok a t =>
    rw [hx] at h
    cases h
    rfl
  | error fault t =>
    rw [hx] at h
    cases h

lemma storePage_stuck (frame : BitVec 64) (bytes : ℕ → UInt8) :
    RaisesOnly Stuck (storePage (V := V) frame bytes) :=
  modifyState _

lemma virtualMap_stuck (paddr : BitVec 64) (permissions : PagingOptions) :
    RaisesOnly Stuck (virtualMap (V := V) vaddr paddr permissions) :=
  get.bind fun _ => onVmm_stuck _

end

/-- A page that cannot be read fails at once. -/
lemma readPage_eq_error {frame : BitVec 64} {offset : ℕ}
    (h : ∀ bytes, ReadableVNode.readPage file offset ≠ .ok bytes) :
    readPage file frame offset c = .error (.err "could not read from file") c := by
  rw [readPage]
  cases hread : ReadableVNode.readPage file offset with
  | ok bytes => exact absurd hread (h bytes)
  | error e => rfl

/-- Only a page that cannot be read gives an error value. -/
lemma readPage_ne_ok {frame : BitVec 64} {offset : ℕ}
    (hc : readPage file frame offset c = .error (.err message) c') :
    ∀ bytes, ReadableVNode.readPage file offset ≠ .ok bytes := by
  intro bytes hread
  rw [readPage, hread] at hc
  exact not_stuck_err (storePage_stuck _ _ _ _ _ hc)

/-- The part of a page that comes from the file is there if the page cache or the file has it. -/
lemma fillPartial_err {frame : BitVec 64} {pageOffset fileBytes : ℕ}
    (hc : fillPartial fm frame pageOffset fileBytes c = .error (.err message) c') :
    0 < fileBytes ∧ ∀ key, ReadableVNode.getInodeKey fm.vnode = .ok key →
      c.pageCache ⟨key, wadd pageOffset fm.fileOffset⟩ = none ∧
      ∀ bytes, ReadableVNode.readPage fm.vnode (wadd pageOffset fm.fileOffset) ≠ .ok bytes := by
  unfold fillPartial at hc
  split_ifs at hc with hpos
  · refine ⟨hpos, fun key hkey => ?_⟩
    simp only [hkey, exec_bind, exec_get] at hc
    cases hpage : c.pageCache ⟨key, wadd pageOffset fm.fileOffset⟩ with
    | none =>
      simp only [hpage] at hc
      exact ⟨rfl, readPage_ne_ok hc⟩
    | some filePaddr =>
      simp only [hpage] at hc
      exact absurd (storePage_stuck _ _ _ _ _ hc) not_stuck_err
  · cases hc

/-- The converse: the part of the page is not there. -/
lemma fillPartial_eq_error (frame : BitVec 64) {pageOffset fileBytes : ℕ} (hpos : 0 < fileBytes)
    (h : ∀ key, ReadableVNode.getInodeKey fm.vnode = .ok key →
      c.pageCache ⟨key, wadd pageOffset fm.fileOffset⟩ = none ∧
      ∀ bytes, ReadableVNode.readPage fm.vnode (wadd pageOffset fm.fileOffset) ≠ .ok bytes) :
    ∃ message, fillPartial fm frame pageOffset fileBytes c = .error (.err message) c := by
  unfold fillPartial
  rw [if_pos hpos]
  cases hkey : ReadableVNode.getInodeKey fm.vnode with
  | error e => exact ⟨_, rfl⟩
  | ok key =>
    obtain ⟨hpage, hread⟩ := h key hkey
    simp only [exec_bind, exec_get, hpage]
    exact ⟨_, readPage_eq_error hread⟩

/-- A part of a page fails with an error value only if the file cannot be read. -/
lemma handleMappingPrivatePartial_err (hbacking : m.backing = .file fm) {fileLength : ℕ}
    (hc : handleMappingPrivatePartial vaddr m fileLength c = .error (.err message) c') :
    ¬wadd (wsub vaddr m.base) pageSize ≤ fileLength ∧ wsub vaddr m.base < fileLength ∧
      ∀ key, ReadableVNode.getInodeKey fm.vnode = .ok key →
        c.pageCache ⟨key, wadd (wsub vaddr m.base) fm.fileOffset⟩ = none ∧
        ∀ bytes, ReadableVNode.readPage fm.vnode (wadd (wsub vaddr m.base) fm.fileOffset) ≠
          .ok bytes := by
  unfold handleMappingPrivatePartial at hc
  simp only [hbacking] at hc
  split_ifs at hc with hpart
  · cases hc
  · refine ⟨hpart, ?_⟩
    rw [exec_bind] at hc
    cases hframe : onVmm frameAlloc c with
    | error e c₁ =>
      rw [hframe] at hc
      cases hc
      exact absurd (onVmm_stuck _ _ _ _ hframe) not_stuck_err
    | ok frame c₁ =>
      rw [hframe] at hc
      rw [← pageCache_onVmm hframe]
      simp only [exec_bind] at hc
      cases hfill :
        fillPartial fm frame (wsub vaddr m.base) (fileLength - wsub vaddr m.base) c₁ with
      | error e c₂ =>
        rw [hfill] at hc
        cases hc
        obtain ⟨hpos, hkeys⟩ := fillPartial_err hfill
        exact ⟨by omega, hkeys⟩
      | ok u c₂ =>
        rw [hfill] at hc
        have hrest : RaisesOnly Stuck (do
            let c ← get
            storePage frame fun k =>
              if k < fileLength - wsub vaddr m.base then pageByte (c.vmm.mem frame) k else 0
            virtualMap vaddr frame (privatePermissions m)
            return true : EStateM PageFaultError (FaultContext V) Bool) := by
          refine get.bind fun c => (storePage_stuck _ _).bind fun _ => ?_
          exact (virtualMap_stuck _ _).bind fun _ => pure _
        exact absurd (hrest _ _ _ hc) not_stuck_err

/-- A whole page gets its frame before it is read. -/
lemma handleMappingPrivate_eq_whole (halign : vaddr % pageSize = 0)
    (hbacking : m.backing = .file fm)
    (hwhole : Whole m fm vaddr) : handleMappingPrivate vaddr m c = (do
      let paddr ← onVmm frameAlloc
      virtualMap vaddr paddr (privatePermissions m)
      readPage fm.vnode paddr (wadd (wsub vaddr m.base) fm.fileOffset) :
      EStateM PageFaultError (FaultContext V) Unit) c := by
  simp only [handleMappingPrivate, if_neg (not_not_intro halign), hbacking]
  cases hlength : fm.fileLength with
  | none => simp only [pure_bind, Bool.not_false, if_true]
  | some fileLength =>
    have hle : wadd (wsub vaddr m.base) pageSize ≤ fileLength := hwhole fileLength hlength
    simp only [handleMappingPrivatePartial, if_pos hle, pure_bind, Bool.not_false, if_true]

/-- A page that is not whole is served as a part of one, or fails as such. -/
lemma handleMappingPrivate_eq_part (halign : vaddr % pageSize = 0) (hbacking : m.backing = .file fm)
    {fileLength : ℕ}
    (hlength : fm.fileLength = some fileLength)
    (hpart : ¬wadd (wsub vaddr m.base) pageSize ≤ fileLength)
    {e : PageFaultError} : handleMappingPrivate vaddr m c = .error e c' ↔
      handleMappingPrivatePartial vaddr m fileLength c = .error e c' := by
  simp only [handleMappingPrivate, if_neg (not_not_intro halign), hbacking, hlength, exec_bind]
  cases hpage : handleMappingPrivatePartial vaddr m fileLength c with
  | error e₁ c₁ => simp
  | ok done c₁ =>
    have hdone : done = true := by
      simp only [handleMappingPrivatePartial, if_neg hpart, hbacking] at hpage
      obtain ⟨_, _, -, hpage⟩ := exec_bind_eq_ok.mp hpage
      obtain ⟨_, _, -, hpage⟩ := exec_bind_eq_ok.mp hpage
      obtain ⟨_, _, -, hpage⟩ := exec_bind_eq_ok.mp hpage
      obtain ⟨_, _, -, hpage⟩ := exec_bind_eq_ok.mp hpage
      obtain ⟨_, _, -, hpage⟩ := exec_bind_eq_ok.mp hpage
      cases hpage
      rfl
    simp [hdone]

omit [ReadableVNode V] in
/-- A page that is not whole has a file part that ends before its end. -/
lemma exists_of_not_whole (hpart : ¬Whole m fm vaddr) :
    ∃ fileLength, fm.fileLength = some fileLength ∧
    ¬wadd (wsub vaddr m.base) pageSize ≤ fileLength := by
  unfold Whole at hpart
  push Not at hpart
  obtain ⟨fileLength, hlength, hlt⟩ := hpart
  exact ⟨fileLength, hlength, not_le.mpr hlt⟩

/-- A private mapping fails with an error value if there are no pages for it, or if its file cannot
be read. -/
lemma handleMappingPrivate_err (halign : vaddr % pageSize = 0) (hshared : m.shared = false)
    (hc : handleMappingPrivate vaddr m c = .error (.err message) c') :
    (Refuses m ∧ c' = c) ∨ c.Unreadable vaddr m := by
  cases hbacking : m.backing with
  | device paddr info =>
    simp only [handleMappingPrivate, if_neg (not_not_intro halign), hbacking] at hc
    refine .inl ⟨?_, (error.inj hc).2.symm⟩
    simp only [Refuses, hbacking, hshared]
  | anonymous =>
    simp only [handleMappingPrivate, if_neg (not_not_intro halign), hbacking] at hc
    refine absurd (bind (onVmm_stuck _) (fun paddr => (virtualMap_stuck _ _).bind fun _ => ?_) _ _ _
      hc) not_stuck_err
    exact storePage_stuck _ _
  | file fm =>
    refine .inr ⟨fm, hbacking, fun h => ?_, fun _ hwhole bytes hread => ?_, fun _ hpart => ?_⟩
    · rw [hshared] at h
      cases h
    · rw [handleMappingPrivate_eq_whole halign hbacking hwhole] at hc
      refine not_stuck_err (bind (onVmm_stuck _)
        (fun paddr => (virtualMap_stuck _ _).bind fun _ => ?_) _ _ _ hc)
      rw [readPage, hread]
      exact storePage_stuck _ _
    · obtain ⟨fileLength, hlength, hpart⟩ := exists_of_not_whole hpart
      rw [handleMappingPrivate_eq_part halign hbacking hlength hpart] at hc
      obtain ⟨-, hlt, hkeys⟩ := handleMappingPrivatePartial_err hbacking hc
      exact ⟨⟨fileLength, hlength, hlt⟩, hkeys⟩

/-- The page cache gives an error value only for a page that cannot be read. -/
lemma getPage_err {key : PageKey} (hc : getPage key c = .error (.err message) c') :
    c.pageCache key = none ∧ ∀ file : V, ReadableVNode.getInode key.inodeKey = .ok file →
      ∀ bytes, ReadableVNode.readPage file key.offset ≠ .ok bytes := by
  rw [getPage, exec_bind, exec_get] at hc
  cases hpage : c.pageCache key with
  | some paddr =>
    simp only [hpage] at hc
    cases hc
  | none =>
    refine ⟨rfl, fun file hfile bytes hbytes => ?_⟩
    simp only [hpage, getFilePage, hfile, readPage, hbytes] at hc
    refine not_stuck_err (bind (onVmm_stuck _)
      (fun paddr => (storePage_stuck _ _).bind fun _ => ?_) _ _ _ hc)
    exact (RaisesOnly.modifyState _).bind fun _ => RaisesOnly.pure _

/-- A shared mapping fails with an error value if there are no pages for it, or if its file cannot
be read. -/
lemma handleMappingShared_err (halign : vaddr % pageSize = 0) (hshared : m.shared = true)
    (hc : handleMappingShared vaddr m c = .error (.err message) c') :
    (Refuses m ∧ c' = c) ∨ c.Unreadable vaddr m := by
  cases hbacking : m.backing with
  | device paddr info =>
    simp only [handleMappingShared, if_neg (not_not_intro halign), hbacking] at hc
    exact absurd (virtualMap_stuck _ _ _ _ _ hc) not_stuck_err
  | anonymous =>
    simp only [handleMappingShared, if_neg (not_not_intro halign), hbacking] at hc
    refine .inl ⟨?_, (error.inj hc).2.symm⟩
    simp only [Refuses, hbacking, hshared]
  | file fm =>
    simp only [handleMappingShared, if_neg (not_not_intro halign), hbacking] at hc
    cases hkey : getInodeKey fm.vnode with
    | error err =>
      simp only [hkey] at hc
      refine .inl ⟨?_, (error.inj hc).2.symm⟩
      simp only [Refuses, hbacking, hshared, hkey, true_and]
      exact ⟨err, rfl⟩
    | ok key =>
      simp only [hkey, exec_bind] at hc
      cases hpage : getPage ⟨key, wadd (wsub vaddr m.base) fm.fileOffset⟩ c with
      | ok paddr c₁ =>
        rw [hpage] at hc
        exact absurd (virtualMap_stuck _ _ _ _ _ hc) not_stuck_err
      | error err c₁ =>
        rw [hpage] at hc
        cases hc
        obtain ⟨hcache, hread⟩ := getPage_err hpage
        refine .inr ⟨fm, hbacking, fun _ => ⟨key, hkey, hcache, hread⟩, fun h => ?_, fun h => ?_⟩
        all_goals
          rw [hshared] at h
          cases h

/-- Serve a page fault by its mapping. -/
def handleMapping (vaddr : ℕ) (m : Mapping V) : EStateM PageFaultError (FaultContext V) Unit :=
  if m.shared then handleMappingShared vaddr m else handleMappingPrivate vaddr m

/-- A mapping fails with an error value if there are no pages for it, or if its file cannot be read.
-/
lemma handleMapping_err (halign : vaddr % pageSize = 0)
    (hc : handleMapping vaddr m c = .error (.err message) c') :
    (Refuses m ∧ c' = c) ∨ c.Unreadable vaddr m := by
  unfold handleMapping at hc
  split_ifs at hc with hshared
  · exact handleMappingShared_err halign hshared hc
  · exact handleMappingPrivate_err halign (Bool.eq_false_iff.mpr hshared) hc

/-- Where there are no pages for a mapping, it fails at once. -/
lemma handleMapping_of_refuses (halign : vaddr % pageSize = 0) (h : Refuses m) :
    ∃ message, handleMapping vaddr m c = .error (.err message) c := by
  unfold Refuses at h
  cases hbacking : m.backing with
  | device paddr info =>
    rw [hbacking] at h
    simp only [handleMapping, h, handleMappingPrivate, if_neg (not_not_intro halign), hbacking]
    exact ⟨_, rfl⟩
  | anonymous =>
    rw [hbacking] at h
    simp only [handleMapping, h, handleMappingShared, if_neg (not_not_intro halign), hbacking]
    exact ⟨_, rfl⟩
  | file fm =>
    rw [hbacking] at h
    obtain ⟨hshared, e, hkey⟩ := h
    simp only [handleMapping, hshared, handleMappingShared, if_neg (not_not_intro halign),
      hbacking, hkey]
    exact ⟨_, rfl⟩

/-- Where the file cannot be read, a frame that was free has been taken when the mapping fails. -/
lemma handleMapping_of_unreadable (hready : c.Ready ref 4) (halign : vaddr % pageSize = 0)
    (h : c.Unreadable vaddr m) :
    ∃ message c' f, handleMapping vaddr m c = .error (.err message) c' ∧
      ¬c.Spare f ∧ c'.Spare f := by
  obtain ⟨fm, hbacking, hshared, hwhole, hpart⟩ := h
  obtain ⟨f, c₁, e₁, h₁, hf₁, -, hfresh, -, hcache⟩ := Ready.frameAlloc (n := 3) hready
  cases hs : m.shared with
  | true =>
    obtain ⟨key, hkey, hnone, hread⟩ := hshared hs
    have hfail : ∃ message, getPage ⟨key, wadd (wsub vaddr m.base) fm.fileOffset⟩ c =
      .error (.err message) c₁ := by
      simp only [getPage, exec_bind, exec_get, hnone, getFilePage, e₁]
      cases hfile : (ReadableVNode.getInode key : Except FsError V) with
      | error e => exact ⟨_, rfl⟩
      | ok file =>
        refine ⟨"could not read from file", ?_⟩
        simp only [exec_bind, readPage_eq_error (hread file hfile)]
    obtain ⟨message, hfail⟩ := hfail
    refine ⟨message, c₁, f, ?_, hfresh, hf₁⟩
    simp only [handleMapping, hs, if_true, handleMappingShared, if_neg (not_not_intro halign),
      hbacking, hkey,
      exec_bind, hfail]
  | false =>
    simp only [handleMapping, hs, Bool.false_eq_true, if_false]
    by_cases hfull : Whole m fm vaddr
    · obtain ⟨c₂, e₂, -, hkeeps₂, -⟩ :=
        Ready.virtualMap (n := 0) h₁ vaddr f (privatePermissions_present m)
      refine ⟨"could not read from file", c₂, f, ?_, hfresh, (hkeeps₂.spare f hf₁).1⟩
      simp only [handleMappingPrivate_eq_whole halign hbacking hfull, exec_bind, e₁, e₂,
        readPage_eq_error (hwhole hs hfull)]
    · obtain ⟨⟨fileLength, hlength, hlt⟩, hkeys⟩ := hpart hs hfull
      obtain ⟨fileLength', hlength', hlong⟩ := exists_of_not_whole hfull
      obtain rfl : fileLength' = fileLength := Option.some.inj (hlength'.symm.trans hlength)
      rw [← hcache] at hkeys
      obtain ⟨message, hfill⟩ := fillPartial_eq_error f (Nat.sub_pos_of_lt hlt) hkeys
      refine ⟨message, c₁, f, ?_, hfresh, hf₁⟩
      rw [handleMappingPrivate_eq_part halign hbacking hlength' hlong]
      simp only [handleMappingPrivatePartial, if_neg hlong, hbacking, exec_bind, e₁, hfill]

/-! ### Whole page faults -/

section

omit [ReadableVNode V]

/-- The page table, the page cache and the free frames are the same. -/
structure Unchanged (c c' : FaultContext V) : Prop where
  pageTable : c'.pageTable = c.pageTable
  tables : ∀ q t, q.length ≤ 3 → TableTree.walk next c.vmm.mem (rootOf c.pageTable) q = some t →
    ∀ i, c'.vmm.mem t i = c.vmm.mem t i
  free : c'.vmm.free = c.vmm.free
  pageCache : c'.pageCache = c.pageCache

/-- Then the same frames are free or tables. -/
lemma Unchanged.spare (h : c.Unchanged c') (hf : c'.Spare f) : c.Spare f := by
  refine ⟨h.free ▸ hf.unfree, fun q hq ht => hf.not_table q hq ?_⟩
  rw [h.pageTable, TableTree.walk_congr_reached (n := 3) h.tables (by omega), ht]

/-- Then the same pages are mapped. -/
lemma Unchanged.ref_eq (h : c.Unchanged c') (hready : c.Ready ref 0)
    {ref' : Path → Option (BitVec 64)}
    (hready' : c'.Ready ref' 0) (a : BitVec 64) (hnone : ref' (pathOf a) = none) :
    ref (pathOf a) = none := by
  have htree : TreeInv Set.univ (rootOf c'.pageTable) c'.vmm.mem c'.vmm.free ref := by
    rw [h.pageTable]
    exact hready.tree.congr h.tables fun q t hq ht => h.free ▸ hready.tree.unfree q t hq ht
  have heq :=
    (getPhysAddr_eq (s := c'.vmm) htree a).symm.trans (getPhysAddr_eq (s := c'.vmm) hready'.tree a)
  rwa [hnone, Option.map_none, Option.map_eq_none_iff] at heq

/-- What is left when the page has been taken out of the page table. -/
lemma Ready.invlpg {n : ℕ} (h : c.Ready ref n) (vaddr : ℕ) :
    ∃ c', FaultContext.invlpg vaddr c = .ok () c' ∧
    c'.Ready (update ref (pathOf (BitVec.ofNat 64 vaddr)) none) n ∧ c.Keeps c' ∧
    c'.pageCache = c.pageCache ∧
    (ref (pathOf (BitVec.ofNat 64 vaddr)) = none → c' = c) := by
  obtain ⟨s', heq, htree, hpool, hpruned, hcon⟩ :=
    vunmapNoDealloc_spec h.tree h.pool (BitVec.ofNat 64 vaddr)
  have hlength : c.vmm.free.length ≤ s'.free.length :=
    (h.pool.nodup.subperm hpruned.free_sub).length_le
  refine ⟨{ c with vmm := s' }, ?_, ⟨htree, hpool, h.frames.trans hlength⟩, .of_confined hcon, rfl,
    fun hnone => ?_⟩
  · simp only [FaultContext.invlpg, exec_bind, exec_get, onVmm, heq, exec_pure]
  · rw [hnone] at heq
    rw [vunmapNoDealloc_none heq]

end

/-- A page fault in a mapping is served by the mapping, when the page has been taken out if it is
present. -/
lemma Ready.handlePageFault_mapped {n : ℕ} (h : c.Ready ref n) (cause : BitVec 64) {address : ℕ}
    (hfound : c.virtualMemory.activeSet.upperBound (address - address % pageSize) = some m)
    (hinside : address - address % pageSize < wadd m.base m.length) :
    ∃ c₁ ref₁, FaultContext.handlePageFault cause address c =
      handleMapping (address - address % pageSize) m c₁ ∧
      c₁.Ready ref₁ n ∧ c.Keeps c₁ ∧ c₁.pageCache = c.pageCache ∧
      (ref (pathOf (BitVec.ofNat 64 (address - address % pageSize))) = none → c₁ = c) ∧
      (hasFlags cause PageFaultConditions.present = true →
        ref₁ (pathOf (BitVec.ofNat 64 (address - address % pageSize))) = none) ∧
      (hasFlags cause PageFaultConditions.present = false → c₁ = c) := by
  cases hcause : hasFlags cause PageFaultConditions.present with
  | false =>
    refine ⟨c, ref, ?_, h, .refl c, rfl, fun _ => rfl, nofun, fun _ => rfl⟩
    rw [handlePageFault_eq hcause hfound hinside, handleMapping]
    split_ifs <;> rfl
  | true =>
    obtain ⟨c₁, e₁, h₁, hkeeps, hcache, hsame⟩ := h.invlpg (address - address % pageSize)
    refine ⟨c₁, _, ?_, h₁, hkeeps, hcache, hsame, fun _ => update_self .., nofun⟩
    simp only [FaultContext.handlePageFault, exec_bind, exec_get, hfound,
      if_neg (not_le.mpr hinside), hcause, if_true,
      e₁, handleMapping]

/-- A page fault that fails changes nothing: where the address is mapped, its file can be read if
this is needed, and a page for which there is no mapping is not present. -/
def Recovers (c : FaultContext V) (cause : BitVec 64) (vaddr : ℕ) : Prop :=
  ∀ m, c.virtualMemory.activeSet.upperBound vaddr = some m → vaddr < wadd m.base m.length →
    ¬c.Unreadable vaddr m ∧ (hasFlags cause PageFaultConditions.present = true → Refuses m →
      getPhysAddr c.vmm.mem (BitVec.ofNat 64 vaddr) c.pageTable = none)

end

/-- A page fault that returns an error leaves the whole state as it was if the address is not
mapped, or the file can be read where this is needed and no page was present that cannot be
replaced.  Otherwise, if there are frames, it returns an error and has changed the page table, the
page cache or the free frames. -/
theorem failed_fault_unchanged (cause : BitVec 64) (address : ℕ) (c : FaultContext V)
    (ref : Path → Option (BitVec 64)) (hready : c.Ready ref 0) :
    (c.Recovers cause (address - address % pageSize) → ∀ message c',
      handlePageFault cause address c = .error (.err message) c' → c' = c) ∧
    (4 ≤ c.vmm.free.length → ¬c.Recovers cause (address - address % pageSize) → ∃ message c',
      handlePageFault cause address c = .error (.err message) c' ∧ ¬c.Unchanged c') := by
  have halign : (address - address % pageSize) % pageSize = 0 :=
    Nat.sub_mod_eq_zero_of_mod_eq (Nat.mod_mod address pageSize).symm
  have hphys := getPhysAddr_eq (s :=
    c.vmm) hready.tree (BitVec.ofNat 64 (address - address % pageSize))
  constructor
  · intro hrecovers message c' hc
    cases hfound : c.virtualMemory.activeSet.upperBound (address - address % pageSize) with
    | none =>
      simp only [handlePageFault, exec_bind, exec_get, hfound] at hc
      exact (error.inj hc).2.symm
    | some m =>
      by_cases hinside : address - address % pageSize < wadd m.base m.length
      · obtain ⟨hreadable, hpage⟩ := hrecovers m hfound hinside
        obtain ⟨c₁, ref₁, heq, -, -, hcache, hsame, -, hfresh⟩ :=
          hready.handlePageFault_mapped cause hfound hinside
        rw [heq] at hc
        rcases handleMapping_err halign hc with ⟨hrefuses, rfl⟩ | hunreadable
        · -- nothing but the page itself can have changed
          cases hcause : hasFlags cause PageFaultConditions.present with
          | false => exact hfresh hcause
          | true =>
            refine hsame ?_
            rw [hpage hcause hrefuses] at hphys
            exact Option.map_eq_none_iff.mp hphys.symm
        · exact absurd ((unreadable_congr hcache).mp hunreadable) hreadable
      · simp only [handlePageFault, exec_bind, exec_get, hfound, if_pos (not_lt.mp hinside)] at hc
        exact (error.inj hc).2.symm
  · intro hframes hlost
    have hready4 : c.Ready ref 4 := ⟨hready.tree, hready.pool, hframes⟩
    unfold Recovers at hlost
    push Not at hlost
    obtain ⟨m, hfound, hinside, hlost⟩ := hlost
    obtain ⟨c₁, ref₁, heq, hready₁, hkeeps, hcache, -, hgone, -⟩ :=
      hready4.handlePageFault_mapped cause hfound hinside
    rw [heq]
    by_cases hunreadable : c.Unreadable (address - address % pageSize) m
    · obtain ⟨message, c', f, hfail, hfresh, hspare⟩ :=
        handleMapping_of_unreadable hready₁ halign ((unreadable_congr hcache).mpr hunreadable)
      exact ⟨message, c', hfail, fun h => hfresh (hkeeps.spare f (h.spare hspare)).1⟩
    · obtain ⟨hcause, hrefuses, hmapped⟩ := hlost hunreadable
      obtain ⟨message, hfail⟩ := handleMapping_of_refuses (c := c₁) halign hrefuses
      refine ⟨message, c₁, hfail, fun h => hmapped ?_⟩
      rw [hphys, h.ref_eq hready (hready₁.mono (Nat.zero_le 4)) _ (hgone hcause), Option.map_none]

/-- A process with a page of a node of the in-memory file system. -/
def ramPage (kind : RamInodeKind) (shared : Bool) : FaultContext RamInode :=
  eightFrameContext (VirtualMemory.new.afterRequest
    ⟨some ⟨⟨1, kind, none⟩, 0, none⟩, 4096, PagingOptions.writable, shared, some 0x20000⟩)

/-- A shared page of a file without a key, which nobody has used. -/
theorem failed_fault_unchanged_keyless :
    finalState (handlePageFault 1#64 0x20123)
      (ramPage (.file []) true) = ramPage (.file []) true := by
  refine (failed_fault_unchanged 1#64 0x20123 _ _
    ((ready_eightFrameContext _).mono (Nat.zero_le 8))).1 ?_
    "could not get inode key" _ (exec_of_raisedError (by decide +kernel))
  rintro m ⟨⟩ -
  refine ⟨?_, fun _ _ => by decide +kernel⟩
  rintro ⟨fm, ⟨⟩, hshared, -⟩
  obtain ⟨key, ⟨⟩, -⟩ := hshared rfl

/-- A program touches a private page of a directory, which cannot be read.  The call returns an
error, the page has been entered into the page table, and four frames are gone. -/
theorem failed_fault_leaves_page :
    raisedError (handlePageFault 0#64 0x20123)
      (ramPage .dir false) = some (.err "could not read from file") ∧
        (ramPage .dir false).userByte 0x20123 = none ∧
        ((finalState (handlePageFault 0#64 0x20123) (ramPage .dir false)).userByte 0x20123).isSome ∧
        (ramPage .dir false).vmm.free.length = 8 ∧
        (finalState (handlePageFault 0#64 0x20123) (ramPage .dir false)).vmm.free.length = 4 := by
  refine ⟨?_, ?_, ?_, ?_, ?_⟩ <;> decide +kernel

end CabOS.FaultContext
