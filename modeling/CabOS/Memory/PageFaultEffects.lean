import CabOS.Library.Triple
import CabOS.Memory.PageFault

/-!
# What a page fault changes

A page fault can be served, be refused, or stop because there is no frame.  In all cases it changes
at most one page of the process, and a frame that is in use keeps its bytes: only frames that were
free are written to.  `FaultContext.Serving` says this of a context that the handler reaches, with
the frames that it has taken so far; there is one triple for each part of the handler, and
`FaultContext.handlePageFault_serves` follows its text.  `FaultContext.Handling` is what remains
when the frames are forgotten.
-/

namespace CabOS.FaultContext

open AArch64 Function ReadableVNode Set Triple

variable {V : Type}

/-- A frame that the handler has taken. -/
structure Taken (c₀ c : FaultContext V) (f : BitVec 64) : Prop where
  spare : c.Spare f
  fresh : ¬ c₀.Spare f
  aligned : f &&& pteAddrMask = f

/-- From the context `c₀`, whose pages are those of `ref₀`, a handler has come to `c`.  At most the
page at `vaddr` has changed, to a frame of `Source`; if the handler is done, the page has such a
frame.  Spare frames have their bytes, the page cache has grown by frames that were not spare, and
the handler has taken the frames `F`. -/
structure Handling (c₀ : FaultContext V) (ref₀ : Path → Option (BitVec 64)) (vaddr : ℕ)
    (Source : BitVec 64 → Prop) (F : Set (BitVec 64)) (done : Prop)
    (c : FaultContext V) : Prop where
  ready : ∃ ref, c.Ready ref 0 ∧ (∀ q, q ≠ pathOf (BitVec.ofNat 64 vaddr) → ref q = ref₀ q) ∧
    (∀ f, ref (pathOf (BitVec.ofNat 64 vaddr)) = some f →
      ref₀ (pathOf (BitVec.ofNat 64 vaddr)) = some f ∨ Source f) ∧
    (done → ∃ f, ref (pathOf (BitVec.ofNat 64 vaddr)) = some f ∧ Source f)
  keeps : c₀.Keeps c
  cached : ∀ key f, c₀.pageCache key = some f → c.pageCache key = some f
  newly : ∀ key f, c.pageCache key = some f →
    c₀.pageCache key = some f ∨ (¬ c₀.Spare f ∧ f &&& pteAddrMask = f)
  taken : ∀ f ∈ F, c₀.Taken c f

variable {c₀ c : FaultContext V} {ref₀ : Path → Option (BitVec 64)} {vaddr : ℕ}
  {Source : BitVec 64 → Prop}
  {F : Set (BitVec 64)} {done : Prop} {f : BitVec 64}

/-! ## The frames that a page can get -/

variable [ReadableVNode V]

/-- The frame of a page of a mapping, if it is known before the page is used: the page of a device,
or the frame in the page cache. -/
def knownFrame (c : FaultContext V) (m : Mapping V) (vaddr : ℕ) : Option (BitVec 64) :=
  match m.backing with
  | .device paddr _ => some (BitVec.ofNat 64 (wadd paddr (wsub vaddr m.base)) &&& pteAddrMask)
  | .file fm =>
    match ReadableVNode.getInodeKey fm.vnode with
    | .ok key =>
      (c.pageCache ⟨key, wadd (wsub vaddr m.base) fm.fileOffset⟩).map fun paddr =>
      paddr &&& pteAddrMask
    | .error _ => none
  | .anonymous => none

/-- The frames that the page of a mapping can get: a private page has a frame that was not spare, a
page of a device is the one of the device, and a shared page of a file can have either a frame from
the page cache or one that was not spare. -/
def MayEnter (c : FaultContext V) (m : Mapping V) (vaddr : ℕ) (f : BitVec 64) : Prop :=
  (m.shared = true ∧ c.knownFrame m vaddr = some f) ∨
    ((∀ paddr memoryInfo, m.backing ≠ .device paddr memoryInfo) ∧ ¬ c.Spare f)

/-- From the context `c₀`, whose pages are those of `ref₀`, a handler for a page of the mapping `m`
has come to `c` and has taken the frames `F` on its way.  At most the page at `vaddr` has changed,
to the frame that was known for it or to one of `F`; if the handler is done, the page has such a
frame.  Spare frames have their bytes, and the page cache has grown by frames of `F`. -/
structure Serving (c₀ : FaultContext V) (ref₀ : Path → Option (BitVec 64))
    (m : Mapping V) (vaddr : ℕ)
    (F : Set (BitVec 64)) (done : Prop) (c : FaultContext V) : Prop where
  ready : ∃ ref, c.Ready ref 0 ∧ (∀ q, q ≠ pathOf (BitVec.ofNat 64 vaddr) → ref q = ref₀ q) ∧
    (∀ f, ref (pathOf (BitVec.ofNat 64 vaddr)) = some f →
      ref₀ (pathOf (BitVec.ofNat 64 vaddr)) = some f ∨
      (m.shared = true ∧ c₀.knownFrame m vaddr = some f) ∨ f ∈ F) ∧
    (done → ∃ f, ref (pathOf (BitVec.ofNat 64 vaddr)) = some f ∧
      ((m.shared = true ∧ c₀.knownFrame m vaddr = some f) ∨ f ∈ F))
  keeps : c₀.Keeps c
  cached : ∀ key f, c₀.pageCache key = some f → c.pageCache key = some f
  newly : ∀ key f, c.pageCache key = some f → c₀.pageCache key = some f ∨ f ∈ F
  taken : ∀ f ∈ F, c₀.Taken c f
  /-- No frame is taken for a page of a device. -/
  for_memory : F.Nonempty → ∀ paddr memoryInfo, m.backing ≠ .device paddr memoryInfo

/-- The handler has come to `c` with some frames. -/
def Served (c₀ : FaultContext V) (ref₀ : Path → Option (BitVec 64)) (m : Mapping V)
    (vaddr : ℕ) (done : Prop)
    (c : FaultContext V) : Prop :=
  ∃ F, c₀.Serving ref₀ m vaddr F done c

variable {m : Mapping V} {done' : Prop} {a : ℕ}

/-- The handler starts. -/
lemma Serving.refl (h : c₀.Ready ref₀ 0) (m : Mapping V) (vaddr : ℕ) :
    c₀.Serving ref₀ m vaddr ∅ False c₀ where
  ready := ⟨ref₀, h, fun _ _ => rfl, fun _ hf => .inl hf, False.elim⟩
  keeps := .refl c₀
  cached _ _ hf := hf
  newly _ _ hf := .inl hf
  taken _ hf := hf.elim
  for_memory h := absurd h Set.not_nonempty_empty

/-- It can be forgotten that the handler is done. -/
lemma Serving.mono (h : c₀.Serving ref₀ m vaddr F done c) (hdone : done' → done) :
    c₀.Serving ref₀ m vaddr F done' c := by
  obtain ⟨ref, hready, hsame, hpage, hpresent⟩ := h.ready
  exact ⟨⟨ref, hready, hsame, hpage, fun hd => hpresent (hdone hd)⟩, h.keeps, h.cached,
    h.newly, h.taken,
    h.for_memory⟩

section

variable (h : c₀.Serving ref₀ m vaddr F done c)
include h

lemma Serving.stopped : c₀.Served ref₀ m vaddr False c :=
  ⟨F, h.mono False.elim⟩

/-- Work on the page table that is confined to it. -/
lemma Serving.confined {s' : Vmm} (hcon : Confined (rootOf c.pageTable) c.vmm s')
    {ref : Path → Option (BitVec 64)}
    (hready : ({ c with vmm := s' } : FaultContext V).Ready ref 0)
    (hsame : ∀ q, q ≠ pathOf (BitVec.ofNat 64 vaddr) → ref q = ref₀ q)
    (hpage : ∀ f, ref (pathOf (BitVec.ofNat 64 vaddr)) = some f →
      ref₀ (pathOf (BitVec.ofNat 64 vaddr)) = some f ∨
      (m.shared ∧ c₀.knownFrame m vaddr = some f) ∨ f ∈ F)
    (hdone : done' → ∃ f, ref (pathOf (BitVec.ofNat 64 vaddr)) = some f ∧
      ((m.shared ∧ c₀.knownFrame m vaddr = some f) ∨ f ∈ F)) :
    c₀.Serving ref₀ m vaddr F done' { c with vmm := s' } := by
  have hkeeps := Keeps.of_confined hcon
  exact ⟨⟨ref, hready, hsame, hpage, hdone⟩, h.keeps.trans hkeeps, h.cached, h.newly, fun g hg =>
    ⟨(hkeeps.spare g (h.taken g hg).spare).1, (h.taken g hg).fresh, (h.taken g hg).aligned⟩,
    h.for_memory⟩

end

/-- Without the frames that were taken. -/
lemma Served.handling (h : c₀.Served ref₀ m vaddr done c) :
    c₀.Handling ref₀ vaddr (c₀.MayEnter m vaddr) ∅ done c := by
  obtain ⟨F, h⟩ := h
  have hsource : ∀ f, (m.shared ∧ c₀.knownFrame m vaddr = some f) ∨ f ∈ F →
    c₀.MayEnter m vaddr f := by
    rintro f (hknown | hf)
    · exact .inl hknown
    · exact .inr ⟨h.for_memory ⟨f, hf⟩, (h.taken f hf).fresh⟩
  obtain ⟨ref, hready, hsame, hpage, hpresent⟩ := h.ready
  refine ⟨⟨ref, hready, hsame, fun f hf => (hpage f hf).imp_right (hsource f), fun hd => ?_⟩,
    h.keeps, h.cached,
    fun key f hf => (h.newly key f hf).imp_right fun hf =>
      ⟨(h.taken f hf).fresh, (h.taken f hf).aligned⟩,
    fun f hf => hf.elim⟩
  obtain ⟨f, hf, hknown⟩ := hpresent hd
  exact ⟨f, hf, hsource f hknown⟩

/-- A frame is taken. -/
lemma frameAlloc_triple (hm : ∀ paddr memoryInfo, m.backing ≠ .device paddr memoryInfo) :
    Triple (c₀.Serving ref₀ m vaddr F done) (onVmm AArch64.frameAlloc)
      (fun f => c₀.Serving ref₀ m vaddr (insert f F) done) (c₀.Served ref₀ m vaddr False) := by
  refine ⟨fun c h => ?_⟩
  obtain ⟨ref, hready, hsame, hpage, hdone⟩ := h.ready
  cases hfree : c.vmm.free with
  | nil =>
    have herr : onVmm AArch64.frameAlloc c = .error (.frame .waiting) c := by
      simp [onVmm, AArch64.frameAlloc, hfree]
    rw [herr]
    exact h.stopped
  | cons f free =>
    obtain ⟨f, c', e, hready', hspare, hkeeps, hfresh, hmask, hcache⟩ := Ready.frameAlloc (n := 0)
      (⟨hready.tree, hready.pool, by rw [hfree]; simp⟩ : c.Ready ref 1)
    have hmem : ∀ g, g ∈ F → g ∈ insert f F := fun g hg => mem_insert_of_mem f hg
    rw [e]
    refine ⟨⟨ref, hready', hsame, fun g hg => (hpage g hg).imp_right (Or.imp_right (hmem g)),
      fun hd => ?_⟩,
      h.keeps.trans hkeeps, ?_, ?_, ?_, fun _ => hm⟩
    · obtain ⟨g, hg, hknown⟩ := hdone hd
      exact ⟨g, hg, hknown.imp_right (hmem g)⟩
    · rw [hcache]
      exact h.cached
    · rw [hcache]
      exact fun key g hg => (h.newly key g hg).imp_right (hmem g)
    · rintro g (rfl | hg)
      · exact ⟨hspare, fun hs => hfresh (h.keeps.spare g hs).1, hmask⟩
      · exact ⟨(hkeeps.spare g (h.taken g hg).spare).1, (h.taken g hg).fresh,
          (h.taken g hg).aligned⟩

/-- A frame that the handler has taken is filled. -/
lemma storePage_triple (hf : f ∈ F) (bytes : ℕ → UInt8) : Triple (c₀.Serving ref₀ m vaddr F done)
    (storePage f bytes)
      (fun _ => c₀.Serving ref₀ m vaddr F done) (c₀.Served ref₀ m vaddr False) := by
  refine ⟨fun c h => ?_⟩
  obtain ⟨ref, hready, hpages⟩ := h.ready
  obtain ⟨hspare, hfresh, -⟩ := h.taken f hf
  obtain ⟨c', e, hready', hfills, -⟩ := hready.storePage hspare bytes
  rw [e]
  refine ⟨⟨ref, hready', hpages⟩, h.keeps.fills hfresh hfills, ?_, ?_, fun g hg => ?_, h.for_memory⟩
  · rw [hfills.pageCache]
    exact h.cached
  · rw [hfills.pageCache]
    exact h.newly
  · exact ⟨(hfills.spare g (h.taken g hg).spare).1, (h.taken g hg).fresh, (h.taken g hg).aligned⟩

/-- The page is entered. -/
lemma virtualMap_triple {paddr : BitVec 64}
    (hsource : (m.shared ∧ c₀.knownFrame m vaddr = some (paddr &&& pteAddrMask)) ∨
      paddr &&& pteAddrMask ∈ F)
    {permissions : PagingOptions} (hpresent : hasFlags permissions PagingOptions.present) :
    Triple (c₀.Serving ref₀ m vaddr F done) (virtualMap vaddr paddr permissions)
      (fun _ => c₀.Serving ref₀ m vaddr F True) (c₀.Served ref₀ m vaddr False) := by
  refine ⟨fun c h => ?_⟩
  obtain ⟨ref, hready, hsame, hpage, hdone⟩ := h.ready
  rcases vmap_cases hready.tree hready.pool (BitVec.ofNat 64 vaddr) paddr permissions with
    ⟨s', heq, htree, hpool, hcon⟩ | ⟨s', heq, htree, hpool, hcon⟩
  · have herr : virtualMap vaddr paddr permissions c =
      .error (.frame .waiting) { c with vmm := s' } := by
      simp [virtualMap, onVmm, heq]
    rw [herr]
    exact ⟨F, h.confined hcon ⟨htree, hpool, Nat.zero_le _⟩ hsame hpage False.elim⟩
  · have hok : virtualMap vaddr paddr permissions c = .ok () { c with vmm := s' } := by
      simp [virtualMap, onVmm, heq]
    rw [hok]
    rw [next_entry hpresent] at htree
    refine h.confined hcon ⟨htree, hpool, Nat.zero_le _⟩ (fun q hq => ?_) (fun f hf => ?_) fun _ =>
      ?_
    · rw [update_of_ne hq, hsame q hq]
    · rw [update_self] at hf
      cases hf
      exact .inr hsource
    · exact ⟨_, update_self .., hsource⟩

/-- The page is taken out of the page table. -/
lemma invlpg_triple : Triple (c₀.Serving ref₀ m vaddr ∅ False) (invlpg vaddr)
    (fun _ => c₀.Serving ref₀ m vaddr ∅ False) (c₀.Served ref₀ m vaddr False) := by
  refine ⟨fun c h => ?_⟩
  obtain ⟨ref, hready, hsame, hpage, -⟩ := h.ready
  obtain ⟨s', heq, htree, hpool, -, hcon⟩ :=
    vunmapNoDealloc_spec hready.tree hready.pool (BitVec.ofNat 64 vaddr)
  have hok : invlpg vaddr c = .ok () { c with vmm := s' } := by
    simp only [invlpg, exec_bind, exec_get, onVmm, heq, exec_pure]
  rw [hok]
  refine h.confined hcon ⟨htree, hpool, Nat.zero_le _⟩ (fun q hq => ?_) (fun f hf => ?_) False.elim
  · rw [update_of_ne hq, hsame q hq]
  · rw [update_self] at hf
    cases hf

/-- A page of a file is read into a frame that the handler has taken. -/
lemma readPage_triple (hf : f ∈ F) (file : V) (offset : ℕ) :
    Triple (c₀.Serving ref₀ m vaddr F done) (readPage file f offset)
      (fun _ => c₀.Serving ref₀ m vaddr F done) (c₀.Served ref₀ m vaddr False) := by
  unfold readPage
  cases ReadableVNode.readPage file offset with
  | ok bytes => exact storePage_triple hf bytes
  | error e => exact throw _ fun _ h => h.stopped

/-- A page that is not in the page cache is put into it. -/
lemma getFilePage_triple {key : PageKey} (hkey : c₀.pageCache key = none)
    (hm : ∀ paddr memoryInfo, m.backing ≠ .device paddr memoryInfo) :
    Triple (c₀.Serving ref₀ m vaddr F done) (getFilePage key)
      (fun paddr => c₀.Serving ref₀ m vaddr (insert paddr F) done)
      (c₀.Served ref₀ m vaddr False) := by
  refine bind (frameAlloc_triple hm) fun f => ?_
  have hmem : f ∈ insert f F := Set.mem_insert f F
  cases (getInode key.inodeKey : Except FsError V) with
  | error e => exact throw _ fun _ h => h.stopped
  | ok file =>
    refine bind (readPage_triple hmem file key.offset) fun _ => ?_
    refine bind (Q := fun _ => c₀.Serving ref₀ m vaddr (insert f F) done)
      (modifyState fun c h => ?_) fun _ => pure fun _ h => h
    obtain ⟨ref, hready, hpages⟩ := h.ready
    refine ⟨⟨ref, ⟨hready.tree, hready.pool, hready.frames⟩, hpages⟩,
      ⟨h.keeps.virtualMemory, h.keeps.pageTable, fun g hg => ?_⟩, fun key' g hg => ?_,
      fun key' g hg => ?_,
      fun g hg => ?_, h.for_memory⟩
    · obtain ⟨hspare, hbytes⟩ := h.keeps.spare g hg
      exact ⟨⟨hspare.unfree, hspare.not_table⟩, hbytes⟩
    · have hne : key' ≠ key := by
        rintro rfl
        rw [hkey] at hg
        cases hg
      exact (update_of_ne hne ..).trans (h.cached key' g hg)
    · by_cases hne : key' = key
      · subst hne
        have hval := hg.symm.trans (update_self ..)
        cases hval
        exact .inr hmem
      · exact h.newly key' g ((update_of_ne hne ..).symm.trans hg)
    · obtain ⟨hspare, hfresh, haligned⟩ := h.taken g hg
      exact ⟨⟨hspare.unfree, hspare.not_table⟩, hfresh, haligned⟩

/-- The frame of a page of a file was in the page cache, or it has been taken. -/
lemma getPage_triple (key : PageKey)
    (hm : ∀ paddr memoryInfo, m.backing ≠ .device paddr memoryInfo) :
    Triple (c₀.Serving ref₀ m vaddr ∅ done) (getPage key)
      (fun paddr c => ∃ F, c₀.Serving ref₀ m vaddr F done c ∧
          (c₀.pageCache key = some paddr ∨ (paddr ∈ F ∧ paddr &&& pteAddrMask = paddr)))
        (c₀.Served ref₀ m vaddr False) := by
  refine ⟨fun c h => ?_⟩
  cases hcache : c.pageCache key with
  | some paddr =>
    have hok : getPage key c = .ok paddr c := by
      simp [getPage, hcache]
    rw [hok]
    exact ⟨∅, h, .inl ((h.newly key paddr hcache).resolve_right id)⟩
  | none =>
    have hnone : c₀.pageCache key = none := by
      cases hkey : c₀.pageCache key with
      | none => rfl
      | some g => cases hcache.symm.trans (h.cached key g hkey)
    have hgo : getPage key c = getFilePage key c := by
      simp [getPage, hcache]
    rw [hgo]
    refine ((getFilePage_triple hnone hm).weaken (fun _ h => h) fun paddr c' h' => ?_).run c h
    have hmem : paddr ∈ insert paddr (∅ : Set (BitVec 64)) := mem_insert _ _
    exact ⟨_, h', .inr ⟨hmem, (h'.taken paddr hmem).aligned⟩⟩

/-! ## The handler -/

/-- A page of a shared mapping. -/
lemma handleMappingShared_triple (hshared : m.shared) :
    Triple (c₀.Serving ref₀ m vaddr ∅ False) (handleMappingShared vaddr m)
      (fun _ => c₀.Served ref₀ m vaddr True) (c₀.Served ref₀ m vaddr False) := by
  unfold handleMappingShared
  refine guard _ (fun _ h => h.stopped) fun _ => ?_
  cases hbacking : m.backing with
  | anonymous => exact throw _ fun _ h => h.stopped
  | device paddr memoryInfo =>
    refine (virtualMap_triple (.inl ⟨hshared, ?_⟩)
      (hasFlags_or (hasFlags_or (hasFlags_or (by decide) _) _) _)).weaken (fun _ h => h)
      fun _ _ h => ⟨∅, h⟩
    simp only [knownFrame, hbacking]
  | file fm =>
    cases hkey : getInodeKey fm.vnode with
    | error e =>
      simp only [hkey]
      exact throw _ fun _ h => h.stopped
    | ok inodeKey =>
      simp only [hkey]
      refine bind (getPage_triple _ fun _ _ => by simp [hbacking]) fun paddr => ⟨fun c h => ?_⟩
      obtain ⟨F, h, hpaddr⟩ := h
      refine ((virtualMap_triple (F := F) ?_ (privatePermissions_present m)).weaken (fun _ h => h)
        fun _ _ h => ⟨F, h⟩).run c h
      rcases hpaddr with hcache | ⟨hmem, hmask⟩
      · refine .inl ⟨hshared, ?_⟩
        simp [knownFrame, hbacking, hkey, hcache]
      · rw [hmask]
        exact .inr hmem

/-- A frame that the handler has taken is entered. -/
lemma enterPrivate_triple : Triple (c₀.Serving ref₀ m vaddr {f} False)
    (virtualMap vaddr f (privatePermissions m)) (fun _ => c₀.Serving ref₀ m vaddr {f} True)
    (c₀.Served ref₀ m vaddr False) :=
  ⟨fun c h => by
    refine (virtualMap_triple (.inr ?_) (privatePermissions_present m)).run c h
    rw [(h.taken f (Set.mem_singleton f)).aligned]
    exact Set.mem_singleton f⟩

/-- The bytes that come from the file are put into a frame that the handler has taken. -/
lemma fillPartial_triple (hf : f ∈ F) (fm : FileMapping V) (pageOffset fileBytes : ℕ) :
    Triple (c₀.Serving ref₀ m vaddr F done) (fillPartial fm f pageOffset fileBytes)
      (fun _ => c₀.Serving ref₀ m vaddr F done) (c₀.Served ref₀ m vaddr False) := by
  unfold fillPartial
  refine ite (fun _ => ?_) fun _ => pure fun _ h => h
  cases getInodeKey fm.vnode with
  | error e => exact throw _ fun _ h => h.stopped
  | ok inodeKey =>
    refine bind (Q := fun _ => c₀.Serving ref₀ m vaddr F done) (get fun _ h => h) fun c => ?_
    cases c.pageCache ⟨inodeKey, wadd pageOffset fm.fileOffset⟩ with
    | some filePaddr => exact storePage_triple hf _
    | none => exact readPage_triple hf fm.vnode _

/-- A page that does not come from the file as a whole; otherwise nothing is done. -/
lemma handleMappingPrivatePartial_triple (fileLength : ℕ) :
    Triple (c₀.Serving ref₀ m vaddr ∅ False) (handleMappingPrivatePartial vaddr m fileLength)
      (fun done c => if done = true then c₀.Served ref₀ m vaddr True c else c₀.Serving ref₀ m
        vaddr ∅ False c)
      (c₀.Served ref₀ m vaddr False) := by
  by_cases hwhole : wadd (wsub vaddr m.base) pageSize ≤ fileLength
  · simp only [handleMappingPrivatePartial, if_pos hwhole]
    exact pure fun _ h => h
  · simp only [handleMappingPrivatePartial, if_neg hwhole]
    cases hbacking : m.backing with
    | anonymous => exact throw _ fun _ h => h.stopped
    | device paddr memoryInfo => exact throw _ fun _ h => h.stopped
    | file fm =>
      refine bind (frameAlloc_triple fun _ _ => by simp [hbacking]) fun f => ?_
      rw [insert_empty_eq]
      refine bind (fillPartial_triple (mem_singleton f) fm _ _) fun _ => ?_
      refine bind (Q := fun _ => c₀.Serving ref₀ m vaddr {f} False) (get fun _ h => h) fun c => ?_
      refine bind (storePage_triple (mem_singleton f) _) fun _ => ?_
      refine bind enterPrivate_triple fun _ => ?_
      exact pure fun _ h => ⟨{f}, h⟩

/-- A page of a private mapping. -/
lemma handleMappingPrivate_triple : Triple (c₀.Serving ref₀ m vaddr ∅ False)
    (handleMappingPrivate vaddr m)
      (fun _ => c₀.Served ref₀ m vaddr True) (c₀.Served ref₀ m vaddr False) := by
  unfold handleMappingPrivate
  refine guard _ (fun _ h => h.stopped) fun _ => ?_
  cases hbacking : m.backing with
  | anonymous =>
    refine bind (frameAlloc_triple fun _ _ => by simp [hbacking]) fun f => ?_
    rw [insert_empty_eq]
    refine bind enterPrivate_triple fun _ => ?_
    exact (storePage_triple (Set.mem_singleton f) _).weaken (fun _ h => h) fun _ _ h => ⟨{f}, h⟩
  | device paddr memoryInfo => exact throw _ fun _ h => h.stopped
  | file fm =>
    have hrest : ∀ partly : Bool,
      Triple (fun c => if partly = true then c₀.Served ref₀ m vaddr True c
            else c₀.Serving ref₀ m vaddr ∅ False c)
          (if (!partly) = true then do
            let paddr ← onVmm frameAlloc
            virtualMap vaddr paddr (privatePermissions m)
            readPage fm.vnode paddr (wadd (wsub vaddr m.base) fm.fileOffset)
          else pure ())
          (fun _ => c₀.Served ref₀ m vaddr True) (c₀.Served ref₀ m vaddr False) := by
      intro partly
      cases partly with
      | true => exact pure fun _ h => h
      | false =>
        refine bind (frameAlloc_triple fun _ _ => by simp [hbacking]) fun f => ?_
        rw [insert_empty_eq]
        refine bind enterPrivate_triple fun _ => ?_
        exact (readPage_triple (mem_singleton f) fm.vnode _).weaken (fun _ h => h) fun _ _ h =>
          ⟨{f}, h⟩
    cases hlength : fm.fileLength with
    | some fileLength =>
      simp only [hlength]
      exact bind (handleMappingPrivatePartial_triple fileLength) hrest
    | none =>
      simp only [hlength]
      exact bind (pure fun _ h => h) hrest

/-- A page fault that finds a mapping. -/
lemma handlePageFault_serves (hready : c₀.Ready ref₀ 0) (cause : BitVec 64)
    (hfound : c₀.virtualMemory.activeSet.upperBound (a - a % pageSize) = some m) :
    Triple (· = c₀) (handlePageFault cause a) (fun _ => c₀.Served ref₀ m (a - a % pageSize) True)
      (c₀.Served ref₀ m (a - a % pageSize) False) := by
  refine bind (Q := fun c c' => c = c₀ ∧ c' = c₀) (get fun c h => ⟨h, h⟩) fun c => ⟨?_⟩
  rintro c' ⟨rfl, rfl⟩
  simp only [hfound]
  refine run (P := c'.Serving ref₀ m (a - a % pageSize) ∅ False) ?_ c' (.refl hready m _)
  have hrest : Triple (c'.Serving ref₀ m (a - a % pageSize) ∅ False)
      (if m.shared = true then handleMappingShared (a - a % pageSize) m
        else handleMappingPrivate (a - a % pageSize) m)
      (fun _ => c'.Served ref₀ m (a - a % pageSize) True)
      (c'.Served ref₀ m (a - a % pageSize) False) :=
    ite (fun hshared => handleMappingShared_triple hshared) fun _ => handleMappingPrivate_triple
  refine guard _ (fun _ h => h.stopped) fun _ => ?_
  exact ite (fun _ => bind invlpg_triple fun _ => hrest) fun _ => hrest

/-- A page fault that finds a mapping, without the frames that were taken. -/
lemma handlePageFault_triple (hready : c₀.Ready ref₀ 0) (cause : BitVec 64)
    (hfound : c₀.virtualMemory.activeSet.upperBound (a - a % pageSize) = some m) :
    Triple (· = c₀) (handlePageFault cause a)
      (fun _ => c₀.Handling ref₀ (a - a % pageSize) (c₀.MayEnter m (a - a % pageSize)) ∅ True)
      (c₀.Handling ref₀ (a - a % pageSize) (c₀.MayEnter m (a - a % pageSize)) ∅ False) :=
  of_cases (fun _ _ _ hs e => ((handlePageFault_serves hready cause hfound).of_ok hs e).handling)
    fun _ _ _ hs e => ((handlePageFault_serves hready cause hfound).of_error hs e).handling

end CabOS.FaultContext
