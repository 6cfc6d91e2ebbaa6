import CabOS.Memory.Shootdown

/-!
# Pages that are mapped on first use

The handler of a page fault gives the lock back before it takes a frame, and it does not look
whether the page has been mapped meanwhile.  Two cores that touch a page at the same time both map a
frame, and what was written to the first one is lost (`lazy_page_twice`).  In runs in which no core
touches the page without a frame while another core is in the handler, the page is mapped once, with
one frame, and what is written to it is read back by all cores (`KernelCores.lazy_page_once`).
-/

namespace CabOS

open AArch64 TableTree Function List Option

/-- The number of frames that were handed out for a page. -/
def handOuts (page : Path) (log : List PageEvent) : ℕ :=
  log.countP fun
    | .handedOut q _ => q = page
    | _ => false

/-- How often a page was mapped. -/
def mappings (page : Path) (log : List PageEvent) : ℕ :=
  log.countP fun
    | .mapped q => q = page
    | _ => false

/-- The byte that was written last at an offset of a page. -/
def lastWritten (page : Path) (offset : ℕ) : List PageEvent → Option UInt8
  | [] => none
  | .written q j b :: log => if q = page ∧ j = offset then some b else lastWritten page offset log
  | _ :: log => lastWritten page offset log

/-- The address is on the page. -/
def OnPage (p a : BitVec 64) : Prop := a &&& ~~~0xFFF#64 = p

namespace KernelCores

variable {k : KernelConfig} {p : BitVec 64} {s s' : KernelCores} {core : ℕ}

/-- The steps of threads that use one page, and of the handlers that serve them. -/
def Touches (p : BitVec 64) : KernelStep → Prop
  | .access _ a => OnPage p a
  | .write _ a _ => OnPage p a
  | .evict _ _ => True
  | .lookup _ => True
  | .frameAlloc _ => True
  | .virtualMap _ => True
  | _ => False

/-- If a running core uses an address whose page has no frame, no core is in the handler. -/
def Alone (k : KernelConfig) (s : KernelCores) : KernelStep → Prop
  | .access core a => s.translate k core a = none → ∀ c, s.activity c = .running
  | .write core a _ => s.translate k core a = none → ∀ c, s.activity c = .running
  | _ => True

/-- Every address of the page belongs to an allocation. -/
def Allocated (p : BitVec 64) (vmes : VirtualMemoryEntryContainer) : Prop :=
  ∀ a, OnPage p a → userspaceEnd ≤ a.toNat ∧
    ∃ e, vmes.active.upperBound a.toNat = some e ∧ a.toNat < wadd e.base e.length

/-- How far a page is. -/
inductive Stage (k : KernelConfig) (p : BitVec 64) (s : KernelCores)
    (frame : Option (BitVec 64)) : Prop
  /-- No core has touched it. -/
  | unused (hframe : frame = none) (hrunning : ∀ c, s.activity c = .running) (hlog : s.log = [])
  /-- One core is in the handler. -/
  | looking (core : ℕ) (a : BitVec 64) (hframe : frame = none) (ha : OnPage p a)
      (hcore : s.activity core = .faulted a ∨ s.activity core = .located a)
      (hrunning : ∀ c, c ≠ core → s.activity c = .running) (hlog : s.log = [])
  /-- One core has a frame for the page. -/
  | holding (core : ℕ) (a f : BitVec 64) (hframe : frame = none) (ha : OnPage p a)
      (hcore : s.activity core = .allocated a f)
      (hrunning : ∀ c, c ≠ core → s.activity c = .running)
      (hspare : SpareFrame (rootOf k.space) s.vmm f) (hmask : f &&& pteAddrMask = f)
      (hlog : s.log = [.handedOut (pathOf p) f])
  /-- The page has a frame, which holds what was written to the page. -/
  | used (f : BitVec 64) (hframe : frame = some f) (hrunning : ∀ c, s.activity c = .running)
      (hspare : SpareFrame (rootOf k.space) s.vmm f) (writes : List PageEvent)
      (hwrites : ∀ e ∈ writes, ∃ q j b, e = .written q j b)
      (hlog : s.log = writes ++ [.mapped (pathOf p), .handedOut (pathOf p) f])
      (hbytes : ∀ offset < pageSize, ∀ b, lastWritten (pathOf p) offset s.log = some b →
        pageByte (s.vmm.mem f) offset = b)

/-- The page table is well-formed, cached translations of the page are those of the page table, and
the page has come to a stage. -/
structure Tended (k : KernelConfig) (p : BitVec 64) (s : KernelCores)
    (ref : Path → Option (BitVec 64)) :
    Prop where
  allocated : Allocated p s.vmes
  tree : TreeInv Set.univ (rootOf k.space) s.vmm.mem s.vmm.free ref
  pool : PoolOk s.vmm.free
  cached : ∀ core, ∀ f, (pathOf p, f) ∈ s.tlb core → ref (pathOf p) = some f
  stage : Stage k p s (ref (pathOf p))

variable {ref : Path → Option (BitVec 64)} {a : BitVec 64} {frame : Option (BitVec 64)} {c : ℕ}

/-- Addresses of the page have its path. -/
lemma pathOf_of_onPage (h : OnPage p a) : pathOf a = pathOf p := by
  rw [← pathOf_and_not_offset a, h]

/-- The stage depends on what the cores do, on the log and on the memory. -/
lemma Stage.congr (h : Stage k p s frame) (hactivity : s'.activity = s.activity)
    (hlog : s'.log = s.log) (hvmm : s'.vmm = s.vmm) : Stage k p s' frame := by
  cases h with
  | unused hframe hrunning hlog' => exact .unused hframe (hactivity ▸ hrunning) (hlog.trans hlog')
  | looking core a hframe ha hcore hrunning hlog' =>
    exact .looking core a hframe ha (hactivity ▸ hcore) (hactivity ▸ hrunning) (hlog.trans hlog')
  | holding core a f hframe ha hcore hrunning hspare hmask hlog' =>
    exact .holding core a f hframe ha (hactivity ▸ hcore) (hactivity ▸ hrunning)
      (hvmm ▸ hspare) hmask
      (hlog.trans hlog')
  | used f hframe hrunning hspare writes hwrites hlog' hbytes =>
    refine .used f hframe (hactivity ▸ hrunning) (hvmm ▸ hspare) writes hwrites
      (hlog.trans hlog') ?_
    rw [hlog, hvmm]
    exact hbytes

/-- If all cores run and the page has no frame, it is unused. -/
lemma Stage.log_eq_nil (h : Stage k p s none) (hrunning : ∀ c, s.activity c = .running) :
    s.log = [] := by
  cases h with
  | unused _ _ hlog => exact hlog
  | looking _ _ _ _ _ _ hlog => exact hlog
  | holding core a f _ _ hcore => cases (hrunning core).symm.trans hcore
  | used f hframe => cases hframe

/-- A byte of a page with one byte replaced. -/
lemma pageByte_setPageByte (page : Fin ptePerPage → BitVec 64) (j : ℕ) (b : UInt8) {i : ℕ}
    (hi : i < pageSize) :
    pageByte (setPageByte page j b) i = if i = j then b else pageByte page i :=
  pageByte_packPage _ hi

section

variable (h : Tended k p s ref)
include h

section

variable (ha : OnPage p a)
include ha

/-- All cores translate an address of the page as the page table does. -/
lemma Tended.translate_eq (core : ℕ) : s.translate k core a = ref (pathOf p) := by
  unfold translate cachedFrame
  rw [pathOf_of_onPage ha]
  cases hcached : (s.tlb core).lookup (pathOf p) with
  | some f =>
    obtain ⟨l, l', hl, -⟩ := lookup_eq_some_iff.mp hcached
    exact (h.cached core f (by simp [hl])).symm
  | none => rw [frameAt_eq h.tree, pathOf_of_onPage ha]

/-- An address of the page is used by a running core. -/
lemma Tended.access (hcore : s.activity core = .running)
    (halone : s.translate k core a = none → ∀ c, s.activity c = .running) :
    Tended k p (s.access k core a) ref := by
  have htranslate := h.translate_eq ha core
  have hframe := frameAt_eq h.tree a
  rw [pathOf_of_onPage ha] at hframe
  cases href : ref (pathOf p) with
  | none =>
    -- the core is the first one and goes to the handler
    rw [href] at htranslate hframe
    have hrunning := halone htranslate
    have hlog := (href ▸ h.stage).log_eq_nil hrunning
    have hnone : s.cachedFrame core a = none := by
      cases hcached : s.cachedFrame core a with
      | none => rfl
      | some f =>
        unfold translate at htranslate
        rw [hcached] at htranslate
        cases htranslate
    have haccess : s.access k core a = s.setActivity core (.faulted a) := by
      simp only [KernelCores.access, hnone, hframe]
    rw [haccess]
    refine ⟨h.allocated, h.tree, h.pool, h.cached,
      .looking core a href ha (.inl ?_) (fun c hc => ?_) hlog⟩
    · exact update_self ..
    · exact (update_of_ne hc ..).trans (hrunning c)
  | some f =>
    rw [href] at hframe
    unfold KernelCores.access
    cases s.cachedFrame core a with
    | some g => exact h
    | none =>
      simp only [hframe]
      refine ⟨h.allocated, h.tree, h.pool, fun c g hg => ?_, h.stage.congr rfl rfl rfl⟩
      by_cases hc : c = core
      · subst hc
        simp only [update_self, mem_cons, Prod.mk.injEq] at hg
        rcases hg with ⟨-, rfl⟩ | hg
        · exact href
        · exact h.cached c g hg
      · simp only [update_of_ne hc] at hg
        exact h.cached c g hg

/-- A byte is written to the frame of the page. -/
lemma Tended.store {f : BitVec 64} (href : ref (pathOf p) = some f) (b : UInt8) :
    Tended k p { s with
      vmm := ⟨update s.vmm.mem f (setPageByte (s.vmm.mem f) (a.toNat % pageSize) b), s.vmm.free⟩
      log := .written (pathOf a) (a.toNat % pageSize) b :: s.log } ref := by
  have hstage := h.stage
  rw [href] at hstage
  cases hstage with
  | unused hframe => cases hframe
  | looking _ _ hframe => cases hframe
  | holding _ _ _ hframe => cases hframe
  | used f' hframe hrunning hspare writes hwrites hlog hbytes =>
    cases hframe
    obtain ⟨htree, hkeep⟩ :=
      h.tree.updateSpare hspare (setPageByte (s.vmm.mem f) (a.toNat % pageSize) b)
    refine ⟨h.allocated, htree, h.pool, h.cached, ?_⟩
    rw [href]
    refine .used f rfl hrunning (hkeep f hspare)
      (.written (pathOf a) (a.toNat % pageSize) b :: writes) ?_ ?_ ?_
    · intro e he
      rcases mem_cons.mp he with rfl | he
      · exact ⟨_, _, _, rfl⟩
      · exact hwrites e he
    · rw [hlog, cons_append]
    · intro offset hoffset byte hlast
      simp only [update_self]
      rw [pageByte_setPageByte _ _ _ hoffset]
      simp only [lastWritten, pathOf_of_onPage ha, true_and] at hlast
      by_cases heq : offset = a.toNat % pageSize
      · rw [if_pos heq.symm, some.injEq] at hlast
        rw [if_pos heq, hlast]
      · rw [if_neg fun h => heq h.symm] at hlast
        rw [if_neg heq, hbytes offset hoffset byte hlast]

/-- A byte of the page is written by a running core. -/
lemma Tended.write (hcore : s.activity core = .running)
    (halone : s.translate k core a = none → ∀ c, s.activity c = .running) (b : UInt8) :
    Tended k p (s.write k core a b) ref := by
  have haccess := h.access ha hcore halone
  have htranslate := h.translate_eq ha core
  unfold KernelCores.write
  cases href : ref (pathOf p) with
  | none =>
    rw [htranslate, href]
    exact haccess
  | some f =>
    have hstore := haccess.store ha href b
    rw [access_vmm, access_log] at hstore
    rw [htranslate, href]
    exact hstore

end

/-- A core forgets a translation. -/
lemma Tended.forget (core : ℕ) (page : Path) : Tended k p (s.forget core page) ref := by
  refine ⟨h.allocated, h.tree, h.pool, fun c f hf => ?_, h.stage.congr rfl rfl rfl⟩
  by_cases hc : c = core
  · subst hc
    simp only [KernelCores.forget, update_self] at hf
    exact h.cached c f (mem_of_mem_filter hf)
  · simp only [KernelCores.forget, update_of_ne hc] at hf
    exact h.cached c f hf

end

/-- Only one core is in the handler. -/
lemma eq_of_handler (hrunning : ∀ d, d ≠ c → s.activity d = .running)
    (hcore : s.activity core ≠ .running) :
    core = c := by
  by_contra hne
  exact hcore (hrunning core hne)

/-- What a core that has no frame yet says about the stage. -/
lemma Stage.of_looking (h : Stage k p s frame)
    (hcore : s.activity core = .faulted a ∨ s.activity core = .located a) :
    frame = none ∧ OnPage p a ∧ (∀ c, c ≠ core → s.activity c = .running) ∧ s.log = [] := by
  have hhandler : s.activity core ≠ .running := by rcases hcore with e | e <;> simp [e]
  cases h with
  | unused _ hrunning => exact absurd (hrunning core) hhandler
  | looking c a' hframe ha hc hrunning hlog =>
    obtain rfl := eq_of_handler hrunning hhandler
    obtain rfl : a' = a := by
      rcases hcore with e | e <;> simpa [e, eq_comm] using hc
    exact ⟨hframe, ha, hrunning, hlog⟩
  | holding c a' f hframe ha hc hrunning =>
    obtain rfl := eq_of_handler hrunning hhandler
    simp [hc] at hcore
  | used f _ hrunning => exact absurd (hrunning core) hhandler

/-- What a core with a frame says about the stage. -/
lemma Stage.of_holding {a f : BitVec 64} (h : Stage k p s frame)
    (hcore : s.activity core = .allocated a f) :
    frame = none ∧ OnPage p a ∧ (∀ c, c ≠ core → s.activity c = .running) ∧
    SpareFrame (rootOf k.space) s.vmm f ∧
      f &&& pteAddrMask = f ∧ s.log = [.handedOut (pathOf p) f] := by
  have hhandler : s.activity core ≠ .running := by simp [hcore]
  cases h with
  | unused _ hrunning => exact absurd (hrunning core) hhandler
  | looking c a' hframe ha hc hrunning =>
    obtain rfl := eq_of_handler hrunning hhandler
    simp [hcore] at hc
  | holding c a' f' hframe ha hc hrunning hspare hmask hlog =>
    obtain rfl := eq_of_handler hrunning hhandler
    rw [hcore] at hc
    cases hc
    exact ⟨hframe, ha, hrunning, hspare, hmask, hlog⟩
  | used f _ hrunning => exact absurd (hrunning core) hhandler

/-- The other cores run on. -/
lemma running_update (hrunning : ∀ c, c ≠ core → s.activity c = .running) (activity : Activity)
    (hc : c ≠ core) : update s.activity core activity c = .running :=
  (update_of_ne hc ..).trans (hrunning c hc)

section

variable (h : Tended k p s ref)
include h

/-- The handler finds the allocation. -/
lemma Tended.lookup (hcore : s.activity core = .faulted a) : Tended k p (s.lookup core a) ref := by
  obtain ⟨hframe, ha, hrunning, hlog⟩ := h.stage.of_looking (.inl hcore)
  obtain ⟨huser, e, hfound, hlt⟩ := h.allocated a ha
  have hlookup : s.lookup core a = s.setActivity core (.located a) := by
    simp only [KernelCores.lookup, if_neg (not_lt.mpr huser), hfound, if_pos hlt]
  rw [hlookup]
  exact ⟨h.allocated, h.tree, h.pool, h.cached, .looking core a hframe ha
    (.inr (update_self ..)) (fun c hc => running_update hrunning _ hc) hlog⟩

/-- The handler takes a frame. -/
lemma Tended.frameAlloc (hcore : s.activity core = .located a) :
    Tended k p (s.frameAlloc core a) ref := by
  obtain ⟨hframe, ha, hrunning, hlog⟩ := h.stage.of_looking (.inr hcore)
  unfold KernelCores.frameAlloc
  rcases h.tree.frameAlloc_cases h.pool with e | ⟨f, t, e, -, htree, hpool, -, hspare, hmask, -⟩
  · rw [e]
    exact h
  · rw [e]
    refine ⟨h.allocated, htree, hpool, h.cached, .holding core a f hframe ha (update_self ..)
      (fun c hc => running_update hrunning _ hc) hspare hmask ?_⟩
    simp only [hlog, pathOf_of_onPage ha]

/-- The handler maps the frame. -/
lemma Tended.virtualMap {a f : BitVec 64} (hcore : s.activity core = .allocated a f) :
    ∃ ref', Tended k p (s.virtualMap k core a f) ref' := by
  obtain ⟨hframe, ha, hrunning, hspare, hmask, hlog⟩ := h.stage.of_holding hcore
  unfold KernelCores.virtualMap
  rcases vmap_cases h.tree h.pool (a &&& ~~~0xFFF#64) f kernelPage with
    ⟨t, heq, htree, hpool, hcon⟩ | ⟨t, heq, htree, hpool, hcon⟩
  · rw [heq]
    exact ⟨ref, h.allocated, htree, hpool, h.cached, .holding core a f hframe ha hcore hrunning
      (hcon.spare hspare).1 hmask hlog⟩
  · rw [heq]
    rw [next_entry (by decide), hmask, pathOf_and_not_offset, pathOf_of_onPage ha] at htree
    refine ⟨_, h.allocated, htree, hpool, fun c g hg => ?_, .used f (update_self ..) (fun c => ?_)
      (hcon.spare hspare).1 [] (by simp) ?_ ?_⟩
    · have hold := h.cached c g hg
      rw [hframe] at hold
      cases hold
    · by_cases hc : c = core
      · rw [hc]
        exact update_self ..
      · exact running_update hrunning _ hc
    · simp only [hlog, pathOf_of_onPage ha, nil_append]
    · intro offset _ b hlast
      simp only [hlog, lastWritten] at hlast
      cases hlast

/-- A step on the page that meets the condition. -/
lemma Tended.step (i : KernelStep) (hi : Touches p i ∧ Alone k s i) :
    ∃ ref', Tended k p (s.step k i) ref' := by
  obtain ⟨htouches, halone⟩ := hi
  cases i with
  | access core a =>
    rw [KernelCores.step]
    split_ifs with hcore
    · exact ⟨ref, h.access htouches hcore halone⟩
    · exact ⟨ref, h⟩
  | write core a b =>
    rw [KernelCores.step]
    split_ifs with hcore
    · exact ⟨ref, h.write htouches hcore halone b⟩
    · exact ⟨ref, h⟩
  | evict core page => exact ⟨ref, h.forget core page⟩
  | lookup core =>
    rw [KernelCores.step]
    split
    next a hcore => exact ⟨ref, h.lookup hcore⟩
    next => exact ⟨ref, h⟩
  | frameAlloc core =>
    rw [KernelCores.step]
    split
    next a hcore => exact ⟨ref, h.frameAlloc hcore⟩
    next => exact ⟨ref, h⟩
  | virtualMap core =>
    rw [KernelCores.step]
    split
    next a f hcore => exact h.virtualMap hcore
    next => exact ⟨ref, h⟩
  | create core start length options => exact htouches.elim
  | drop core a => exact htouches.elim
  | unmap core => exact htouches.elim
  | shootdownTlbs core => exact htouches.elim
  | popEvent core => exact htouches.elim
  | invalidate core => exact htouches.elim
  | release core => exact htouches.elim
  | take => exact htouches.elim
  | giveBack frame => exact htouches.elim

end

/-- Writes are neither frames that are handed out nor mappings. -/
lemma counts_append {writes : List PageEvent} (hwrites : ∀ e ∈ writes, ∃ q j b, e = .written q j b)
    (page : Path) (log : List PageEvent) :
    handOuts page (writes ++ log) = handOuts page log ∧
    mappings page (writes ++ log) = mappings page log := by
  have hzero : ∀ P : PageEvent → Bool, (∀ q j b, P (.written q j b) = false) →
    writes.countP P = 0 := by
    intro P hP
    rw [countP_eq_zero]
    intro e he
    obtain ⟨q, j, b, rfl⟩ := hwrites e he
    simp [hP]
  constructor
  · rw [handOuts, countP_append, hzero _ fun _ _ _ => rfl, zero_add, handOuts]
  · rw [mappings, countP_append, hzero _ fun _ _ _ => rfl, zero_add, mappings]

/-- What each stage says about the page. -/
lemma Tended.once (h : Tended k p s ref) :
    handOuts (pathOf p) s.log ≤ 1 ∧ mappings (pathOf p) s.log ≤ 1 ∧
      (frameAt s.vmm.mem k.space p ≠ none → handOuts (pathOf p) s.log = 1 ∧
        mappings (pathOf p) s.log = 1) ∧
      ∀ core a b, OnPage p a → lastWritten (pathOf p) (a.toNat % pageSize) s.log = some b →
        s.load k core a = some b := by
  rw [frameAt_eq h.tree]
  have hstage := h.stage
  cases hstage with
  | unused hframe _ hlog =>
    simp [hlog, hframe, handOuts, mappings, lastWritten]
  | looking core a hframe _ _ _ hlog =>
    simp [hlog, hframe, handOuts, mappings, lastWritten]
  | holding core a f hframe _ _ _ _ _ hlog =>
    simp [hlog, hframe, handOuts, mappings, lastWritten]
  | used f hframe _ _ writes hwrites hlog hbytes =>
    obtain ⟨hhand, hmap⟩ :=
      counts_append hwrites (pathOf p) [.mapped (pathOf p), .handedOut (pathOf p) f]
    have hone : handOuts (pathOf p) s.log = 1 ∧ mappings (pathOf p) s.log = 1 := by
      rw [hlog, hhand, hmap]
      simp [handOuts, mappings]
    refine ⟨hone.1.le, hone.2.le, fun _ => hone, fun core a b ha hlast => ?_⟩
    have hoffset : a.toNat % pageSize < pageSize := Nat.mod_lt _ (by decide)
    rw [load, h.translate_eq ha core, hframe, map_some, hbytes _ hoffset b hlast]

/-- Any number of cores use a page that is allocated and has no frame.  Along every run in which no
core touches the page without a frame while another core is in the handler, the page is mapped at
most once and with one frame, exactly once as soon as it has a frame, and every core reads the byte
that was written last at an address of the page. -/
theorem lazy_page_once (k : KernelConfig) (p : BitVec 64)
    (vmes : VirtualMemoryEntryContainer) (vmm : Vmm)
    (ref : Path → Option (BitVec 64)) (hallocated : Allocated p vmes)
    (htree : TreeInv Set.univ (rootOf k.space) vmm.mem vmm.free ref) (hpool : PoolOk vmm.free)
    (hunmapped : ref (pathOf p) = none) (steps : List KernelStep)
    (hsteps : AlongRun (step k) (fun s i => Touches p i ∧ Alone k s i) (start vmes vmm) steps) :
    handOuts (pathOf p) ((start vmes vmm).run k steps).log ≤ 1 ∧
      mappings (pathOf p) ((start vmes vmm).run k steps).log ≤ 1 ∧
      (frameAt ((start vmes vmm).run k steps).vmm.mem k.space p ≠ none →
        handOuts (pathOf p) ((start vmes vmm).run k steps).log = 1 ∧
          mappings (pathOf p) ((start vmes vmm).run k steps).log = 1) ∧
      ∀ core a b, OnPage p a →
        lastWritten (pathOf p) (a.toNat % pageSize) ((start vmes vmm).run k steps).log = some b →
        ((start vmes vmm).run k steps).load k core a = some b := by
  have hstart : Tended k p (start vmes vmm) ref :=
    ⟨hallocated, htree, hpool, fun _ _ hf => (not_mem_nil hf).elim,
      .unused hunmapped (fun _ => rfl) rfl⟩
  have hinv : ∃ ref', Tended k p ((start vmes vmm).run k steps) ref' :=
    hsteps.invariant (I := fun s => ∃ ref', Tended k p s ref')
      (fun s i h hi => h.elim fun ref' h => h.step i hi) ⟨ref, hstart⟩
  obtain ⟨ref', h⟩ := hinv
  exact h.once

/-- One page of kernel memory is allocated. -/
def onePageEntries : VirtualMemoryEntryContainer :=
  finalState (VirtualMemoryAllocation.new none 4096 kernelPage)
    (VirtualMemoryEntryContainer.new 0xFFFF800000000000 0xFFFFFFFFFFFFF000)

/-- Its addresses belong to the allocation. -/
lemma allocated_onePage : Allocated 0xFFFF800000000000#64 onePageEntries := by
  intro a ha
  have hpage : a.toNat / pageSize * pageSize = 0xFFFF800000000000 := by
    rw [← toNat_and_not_offset, ha]
    rfl
  have hbounds : 0xFFFF800000000000 ≤ a.toNat ∧ a.toNat < 0xFFFF800000001000 := by
    simp only [pageSize] at hpage
    omega
  have hlist : onePageEntries.active.toList = [⟨0xFFFF800000000000, 4096, kernelPage⟩] := by
    decide +kernel
  refine ⟨le_trans (by decide) hbounds.1, ⟨0xFFFF800000000000, 4096, kernelPage⟩, ?_, ?_⟩
  · simp [SortedTree.upperBound, hlist, hbounds.1]
  · exact lt_of_lt_of_eq hbounds.2 (by decide)

/-- The first core uses the page alone, writes to it, and then the second core uses it. -/
def useInTurn : List KernelStep :=
  [.write 0 0xFFFF800000000123#64 7, .lookup 0, .frameAlloc 0, .virtualMap 0,
    .write 0 0xFFFF800000000123#64 7, .access 1 0xFFFF800000000000#64]

/-- The second core reads what the first one has written. -/
theorem lazy_page_once_in_turn :
    ((start onePageEntries eightFrames).run (twoCores .aarch64) useInTurn).load
    (twoCores .aarch64) 1
      0xFFFF800000000123#64 = some 7 := by
  have hsteps : AlongRun (step (twoCores .aarch64))
      (fun s i => Touches 0xFFFF800000000000#64 i ∧ Alone (twoCores .aarch64) s i)
      (start onePageEntries eightFrames) useInTurn := by
    refine ⟨⟨rfl, fun _ _ => rfl⟩, ⟨trivial, trivial⟩, ⟨trivial, trivial⟩, ⟨trivial, trivial⟩,
      ⟨rfl, fun h => ?_⟩,
      ⟨rfl, fun h => ?_⟩, trivial⟩
    · exact absurd h (by decide +kernel)
    · exact absurd h (by decide +kernel)
  exact (lazy_page_once (twoCores .aarch64) 0xFFFF800000000000#64 onePageEntries eightFrames
    (fun _ => none)
    allocated_onePage (treeInv_zero (fun _ => rfl)
      (show rootOf 0x10000#64 ∉ eightFrames.free by decide))
    poolOk_eightFrames rfl useInTurn hsteps).2.2.2 1 0xFFFF800000000123#64 7 rfl (by decide +kernel)

/-- Both cores touch the page before one of them has mapped it. -/
def useAtOnce : List KernelStep :=
  [.write 0 0xFFFF800000000123#64 7, .access 1 0xFFFF800000000123#64, .lookup 0, .lookup 1,
    .frameAlloc 0,
    .virtualMap 0, .write 0 0xFFFF800000000123#64 7, .frameAlloc 1, .virtualMap 1]

/-- Two cores touch a page at the same time.  Both handlers map a frame, and the second core does
not read what the first one has written after its fault was handled. -/
theorem lazy_page_twice : Allocated 0xFFFF800000000000#64 onePageEntries ∧
      (∀ i ∈ useAtOnce, Touches 0xFFFF800000000000#64 i) ∧
      handOuts (pathOf 0xFFFF800000000000#64)
        ((start onePageEntries eightFrames).run (twoCores .aarch64) useAtOnce).log = 2 ∧
      mappings (pathOf 0xFFFF800000000000#64)
        ((start onePageEntries eightFrames).run (twoCores .aarch64) useAtOnce).log = 2 ∧
      lastWritten (pathOf 0xFFFF800000000000#64) 0x123
        ((start onePageEntries eightFrames).run (twoCores .aarch64) useAtOnce).log = some 7 ∧
      ((start onePageEntries eightFrames).run (twoCores .aarch64) useAtOnce).load
      (twoCores .aarch64) 1
        0xFFFF800000000123#64 = some 0 := by
  refine ⟨allocated_onePage, ?_, by decide +kernel⟩
  simp only [useAtOnce, forall_mem_cons]
  exact ⟨rfl, rfl, trivial, trivial, trivial, trivial, rfl, trivial, trivial, by simp⟩

end KernelCores

end CabOS
