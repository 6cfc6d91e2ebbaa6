import CabOS.Arch.AArch64.VmmFrames
import CabOS.Library.Run
import CabOS.Memory.KernelCores

/-!
# Cached translations of dropped memory

When an allocation is dropped, each page is unmapped and its frame is given back before the cores
are told to forget the page.  Until then a core that has cached the translation uses a frame that is
free, or that has been handed out again (`dropped_frame_cached`).  In runs in which no core has
cached a page at the moment it is unmapped, every cached translation leads to the frame that was
handed out for its page (`KernelCores.safe_run`), on both processors and whatever the cores do
besides.
-/

namespace CabOS

open AArch64 TableTree Function List

/-- The page for which a frame is in use: the one for which it was handed out last, unless it has
been given back since. -/
def ownerOf : List PageEvent → BitVec 64 → Option Path
  | [], _ => none
  | .handedOut page frame :: log, f => if f = frame then some page else ownerOf log f
  | .released frame :: log, f => if f = frame then none else ownerOf log f
  | .mapped _ :: log, f => ownerOf log f
  | .written _ _ _ :: log, f => ownerOf log f

/-- The page table of the kernel gives the frame of a page. -/
lemma frameAt_eq {H : Set Path} {space : BitVec 64} {s : Vmm} {ref : Path → Option (BitVec 64)}
    (h : TreeInv H (rootOf space) s.mem s.free ref) (a : BitVec 64) :
    frameAt s.mem space a = ref (pathOf a) := by
  have hzero : a &&& ~~~0xFFF#64 &&& 0xFFF#64 = 0 := by
    rw [BitVec.and_assoc, BitVec.not_and_self]
    exact BitVec.and_zero
  rw [frameAt, getPhysAddr_eq h, pathOf_and_not_offset, hzero]
  simp only [show (0 : BitVec 64) = 0#64 from rfl, BitVec.or_zero, Option.map_id']

namespace KernelCores

variable {k : KernelConfig} {s s' : KernelCores} {ref : Path → Option (BitVec 64)} {core : ℕ}
  (target : Target)

/-- Every cached translation leads to a frame that is not free, not a table and not in the hands of
other code, and that was handed out for the page. -/
def Safe (k : KernelConfig) (s : KernelCores) : Prop :=
  ∀ core, ∀ e ∈ s.tlb core, SpareFrame (rootOf k.space) s.vmm e.2 ∧ e.2 ∉ s.lent ∧
  ownerOf s.log e.2 = some e.1

/-- If the step unmaps a page, no core has cached it; on x86 the core that unmaps it may have. -/
def Forgotten (k : KernelConfig) (s : KernelCores) : KernelStep → Prop
  | .unmap core =>
    match s.activity core with
    | .unmapping a length => 0 < length → ∀ c, (k.target = .x86_64 → c ≠ core) → ∀ e ∈ s.tlb c,
        e.1 ≠ pathOf (BitVec.ofNat 64 (wadd a.base (length - pageSize)))
    | _ => True
  | _ => True

/-- The page table is well-formed, frames that are mapped, cached or on their way to be mapped are
in use for the page, and frames in use are neither free nor tables nor in other hands. -/
structure Guarded (k : KernelConfig) (s : KernelCores)
    (ref : Path → Option (BitVec 64)) : Prop where
  tree : TreeInv Set.univ (rootOf k.space) s.vmm.mem s.vmm.free ref
  pool : PoolOk s.vmm.free
  owned : ∀ f page, ownerOf s.log f = some page →
    SpareFrame (rootOf k.space) s.vmm f ∧ f ∉ s.lent ∧ f &&& pteAddrMask = f
  cached : ∀ core, ∀ e ∈ s.tlb core, ownerOf s.log e.2 = some e.1
  mapped : ∀ page f, ref page = some f → ownerOf s.log f = some page
  held : ∀ core a f, s.activity core = .allocated a f →
    ownerOf s.log f = some (pathOf a) ∧ ∀ page, ref page ≠ some f
  held_once : ∀ core core' a a' f, s.activity core = .allocated a f →
    s.activity core' = .allocated a' f → core = core'
  lent : ∀ f ∈ s.lent, SpareFrame (rootOf k.space) s.vmm f ∧ f &&& pteAddrMask = f
  lent_nodup : s.lent.Nodup

/-- Using an address does not write to memory. -/
lemma access_vmm (k : KernelConfig) (s : KernelCores) (core : ℕ) (a : BitVec 64) :
    (s.access k core a).vmm = s.vmm := by
  unfold access
  cases s.cachedFrame core a with
  | some f => rfl
  | none => cases frameAt s.vmm.mem k.space a <;> rfl

/-- Using an address is not recorded. -/
lemma access_log (k : KernelConfig) (s : KernelCores) (core : ℕ) (a : BitVec 64) :
    (s.access k core a).log = s.log := by
  unfold access
  cases s.cachedFrame core a with
  | some f => rfl
  | none => cases frameAt s.vmm.mem k.space a <;> rfl

namespace Guarded

section

variable (h : Guarded k s ref)
include h

lemma safe : Safe k s := by
  intro core e he
  obtain ⟨hspare, hlent, -⟩ := h.owned e.2 e.1 (h.cached core e he)
  exact ⟨hspare, hlent, h.cached core e he⟩

/-- Steps that forget translations and go on with something other than mapping a frame. -/
lemma shrink (hvmm : s'.vmm = s.vmm) (hlog : s'.log = s.log) (hlent : s'.lent = s.lent)
    (htlb : ∀ core, ∀ e ∈ s'.tlb core, e ∈ s.tlb core)
    (hactivity : ∀ core a f, s'.activity core = .allocated a f → s.activity core = .allocated a f) :
    Guarded k s' ref where
  tree := by
    rw [hvmm]
    exact h.tree
  pool := by
    rw [hvmm]
    exact h.pool
  owned := by
    rw [hlog, hvmm, hlent]
    exact h.owned
  cached core e he := by
    rw [hlog]
    exact h.cached core e (htlb core e he)
  mapped := by
    rw [hlog]
    exact h.mapped
  held core a f ha := by
    rw [hlog]
    exact h.held core a f (hactivity core a f ha)
  held_once core core' a a' f ha ha' :=
    h.held_once core core' a a' f (hactivity core a f ha) (hactivity core' a' f ha')
  lent := by
    rw [hlent, hvmm]
    exact h.lent
  lent_nodup := by
    rw [hlent]
    exact h.lent_nodup

/-- Steps that have nothing to do with frames and translations. -/
lemma idle {vmes : VirtualMemoryEntryContainer} {live : List VirtualMemoryAllocation}
    {activity : ℕ → Activity} {queue : ℕ → List Shootdown} {handling : ℕ → Option Shootdown}
    {latch : ℕ → ℕ}
    (hactivity : ∀ core a f, activity core = .allocated a f → s.activity core = .allocated a f) :
    Guarded k ⟨vmes, s.vmm, live, s.lent, activity, s.tlb, queue, handling, latch, s.log⟩ ref :=
  h.shrink rfl rfl rfl (fun _ _ he => he) hactivity

end

variable {a f : BitVec 64} {activity : Activity}

/-- A core that goes on with something else than mapping a frame. -/
lemma activity_update (hactivity : ∀ a f, activity ≠ .allocated a f) {c : ℕ}
    (h : update s.activity core activity c = .allocated a f) :
    s.activity c = .allocated a f := by
  by_cases hc : c = core
  · rw [hc, update_self] at h
    exact absurd h (hactivity a f)
  · rwa [update_of_ne hc] at h

section

variable (h : Guarded k s ref)
include h

/-- The core goes on with something else. -/
lemma setActivity (hactivity : ∀ a f, activity ≠ .allocated a f) :
    Guarded k (s.setActivity core activity) ref :=
  h.shrink rfl rfl rfl (fun _ _ he => he) fun _ _ _ ha => activity_update hactivity ha

/-- A core forgets a page. -/
lemma forget (core : ℕ) (page : Path) : Guarded k (s.forget core page) ref := by
  refine h.shrink rfl rfl rfl (fun c e he => ?_) fun _ _ _ ha => ha
  by_cases hc : c = core
  · subst hc
    simp only [KernelCores.forget, update_self] at he
    exact List.mem_of_mem_filter he
  · simpa only [KernelCores.forget, update_of_ne hc] using he

lemma forgetAll (page : Path) : Guarded k (s.forgetAll page) ref :=
  h.shrink rfl rfl rfl (fun _ _ he => mem_of_mem_filter he) fun _ _ _ ha => ha

/-- What a core uses for an address is in use for its page. -/
lemma translate (hf : s.translate k core a = some f) : ownerOf s.log f = some (pathOf a) := by
  unfold KernelCores.translate at hf
  cases hcached : s.cachedFrame core a with
  | some g =>
    rw [hcached] at hf
    cases hf
    obtain ⟨l, l', hl, -⟩ := lookup_eq_some_iff.mp hcached
    exact h.cached core (pathOf a, f) (by simp [hl])
  | none =>
    rw [hcached] at hf
    simp only [frameAt_eq h.tree] at hf
    exact h.mapped _ f hf

/-- An address is used. -/
lemma access (core : ℕ) (a : BitVec 64) : Guarded k (s.access k core a) ref := by
  unfold KernelCores.access
  cases s.cachedFrame core a with
  | some g => exact h
  | none =>
    cases hframe : frameAt s.vmm.mem k.space a with
    | none => exact h.setActivity (by simp)
    | some f =>
      rw [frameAt_eq h.tree] at hframe
      refine { h with cached := fun c e he => ?_ }
      by_cases hc : c = core
      · subst hc
        simp only [update_self, mem_cons] at he
        rcases he with rfl | he
        · exact h.mapped _ f hframe
        · exact h.cached c e he
      · simp only [update_of_ne hc] at he
        exact h.cached c e he

/-- A spare frame is written to. -/
lemma store (hf : SpareFrame (rootOf k.space) s.vmm f)
    (data : Fin ptePerPage → BitVec 64) (page : Path) (offset : ℕ) (byte : UInt8) :
    Guarded k { s with
      vmm := ⟨update s.vmm.mem f data, s.vmm.free⟩
      log := .written page offset byte :: s.log } ref := by
  obtain ⟨htree, hspare⟩ := h.tree.updateSpare hf data
  refine { h with tree := htree, owned := fun g page hg => ?_, lent := fun g hg => ?_ }
  · obtain ⟨hg, hlent, hmask⟩ := h.owned g page hg
    exact ⟨hspare g hg, hlent, hmask⟩
  · obtain ⟨hg, hmask⟩ := h.lent g hg
    exact ⟨hspare g hg, hmask⟩

/-- A byte is written. -/
lemma write (core : ℕ) (a : BitVec 64) (b : UInt8) : Guarded k (s.write k core a b) ref := by
  unfold KernelCores.write
  cases hf : s.translate k core a with
  | none => exact h.access core a
  | some f =>
    obtain ⟨hspare, -⟩ := h.owned f _ (h.translate hf)
    have hstore := (h.access core a).store (f := f) (by rw [access_vmm]; exact hspare)
      (setPageByte (s.vmm.mem f) (a.toNat % pageSize) b) (pathOf a) (a.toNat % pageSize) b
    rw [access_vmm, access_log] at hstore
    exact hstore

/-- A frame that is in use is not free. -/
lemma ownerOf_of_free (hf : f ∈ s.vmm.free) : ownerOf s.log f = none := by
  cases howner : ownerOf s.log f with
  | none => rfl
  | some page => exact absurd hf (h.owned f page howner).1.unfree

/-- The handler takes a frame. -/
lemma frameAlloc (core : ℕ) (a : BitVec 64) : Guarded k (s.frameAlloc core a) ref := by
  unfold KernelCores.frameAlloc
  rcases h.tree.frameAlloc_cases h.pool with
    e | ⟨f, t, e, -, htree, hpool, hfree, hspare, hmask, hkeep⟩
  · rw [e]
    exact h
  · have hnone := h.ownerOf_of_free hfree
    have hne : ∀ g page, ownerOf s.log g = some page → g ≠ f := by
      rintro g page hg rfl
      rw [hnone] at hg
      cases hg
    -- what was in use stays in use for the same page
    have hold : ∀ g page, ownerOf s.log g = some page →
      ownerOf (.handedOut (pathOf a) f :: s.log) g = some page := by
      intro g page hg
      rw [ownerOf, if_neg (hne g page hg), hg]
    have hself : ownerOf (.handedOut (pathOf a) f :: s.log) f = some (pathOf a) := by
      rw [ownerOf, if_pos rfl]
    have hactivity : ∀ c a' f', update s.activity core (.allocated a f) c = .allocated a' f' →
        (c = core ∧ a' = a ∧ f' = f) ∨ (c ≠ core ∧ s.activity c = .allocated a' f') := by
      intro c a' f' hc
      by_cases heq : c = core
      · rw [heq, update_self] at hc
        cases hc
        exact Or.inl ⟨heq, rfl, rfl⟩
      · rw [update_of_ne heq] at hc
        exact Or.inr ⟨heq, hc⟩
    rw [e]
    refine ⟨htree, hpool, fun g page hg => ?_, fun c x hx => hold _ _ (h.cached c x hx),
      fun page g hg => hold g page (h.mapped page g hg), fun c a' f' hc => ?_,
        fun c c' a' a'' f' hc hc' => ?_,
      fun g hg => ⟨hkeep g (h.lent g hg).1, (h.lent g hg).2⟩, h.lent_nodup⟩
    · by_cases hgf : g = f
      · subst hgf
        exact ⟨hspare, fun hlent => (h.lent g hlent).1.unfree hfree, hmask⟩
      · simp only [ownerOf, if_neg hgf] at hg
        obtain ⟨hg, hlent, hmask⟩ := h.owned g page hg
        exact ⟨hkeep g hg, hlent, hmask⟩
    · rcases hactivity c a' f' hc with ⟨-, rfl, rfl⟩ | ⟨-, hc⟩
      · refine ⟨hself, fun page hpage => ?_⟩
        have := h.mapped page f' hpage
        rw [hnone] at this
        cases this
      · obtain ⟨howner, hpages⟩ := h.held c a' f' hc
        exact ⟨hold _ _ howner, hpages⟩
    · rcases hactivity c a' f' hc with ⟨hcore, -, hf⟩ | ⟨-, hold₁⟩
      · rcases hactivity c' a'' f' hc' with ⟨hcore', -, -⟩ | ⟨-, hold₂⟩
        · rw [hcore, hcore']
        · exact absurd hf (hne f' _ (h.held c' a'' f' hold₂).1)
      · rcases hactivity c' a'' f' hc' with ⟨-, -, hf⟩ | ⟨-, hold₂⟩
        · exact absurd hf (hne f' _ (h.held c a' f' hold₁).1)
        · exact h.held_once c c' a' a'' f' hold₁ hold₂

/-- Work on the page table that is confined to it and changes no page. -/
lemma confined {t : Vmm} (htree : TreeInv Set.univ (rootOf k.space) t.mem t.free ref)
    (hpool : PoolOk t.free) (hcon : Confined (rootOf k.space) s.vmm t) :
    Guarded k { s with vmm := t } ref := by
  refine { h with tree := htree, pool := hpool, owned := fun g page hg => ?_, lent :=
    fun g hg => ?_ }
  · obtain ⟨hg, hlent, hmask⟩ := h.owned g page hg
    exact ⟨(hcon.spare hg).1, hlent, hmask⟩
  · obtain ⟨hg, hmask⟩ := h.lent g hg
    exact ⟨(hcon.spare hg).1, hmask⟩

/-- The handler maps its frame. -/
lemma virtualMap (hcore : s.activity core = .allocated a f) :
    ∃ ref', Guarded k (s.virtualMap k core a f) ref' := by
  unfold KernelCores.virtualMap
  obtain ⟨howner, hpages⟩ := h.held core a f hcore
  obtain ⟨hspare, hlent, hmask⟩ := h.owned f _ howner
  rcases vmap_cases h.tree h.pool (a &&& ~~~0xFFF#64) f kernelPage with
    ⟨t, heq, htree, hpool, hcon⟩ | ⟨t, heq, htree, hpool, hcon⟩
  · rw [heq]
    exact ⟨ref, h.confined htree hpool hcon⟩
  · rw [heq]
    rw [next_entry (by decide), hmask, pathOf_and_not_offset] at htree
    refine ⟨_, htree, hpool, fun g page hg => ?_, h.cached, fun page g hg => ?_,
      fun c a' f' hc => ?_,
      fun c c' a' a'' f' hc hc' => h.held_once c c' a' a'' f' (activity_update (by simp) hc)
        (activity_update (by simp) hc'), fun g hg => ?_, h.lent_nodup⟩
    · obtain ⟨hg, hlent, hmask⟩ := h.owned g page hg
      exact ⟨(hcon.spare hg).1, hlent, hmask⟩
    · by_cases hpage : page = pathOf a
      · rw [hpage, update_self] at hg
        cases hg
        rw [hpage]
        exact howner
      · rw [update_of_ne hpage] at hg
        exact h.mapped page g hg
    · have hne : c ≠ core := by
        rintro rfl
        simp only [KernelCores.setActivity, update_self] at hc
        cases hc
      have hold := activity_update (by simp) hc
      obtain ⟨howner', hpages'⟩ := h.held c a' f' hold
      refine ⟨howner', fun page hpage => ?_⟩
      by_cases heq' : page = pathOf a
      · rw [heq', update_self] at hpage
        cases hpage
        exact hne (h.held_once c core a' a f hold hcore)
      · rw [update_of_ne heq'] at hpage
        exact hpages' page hpage
    · obtain ⟨hg, hmask⟩ := h.lent g hg
      exact ⟨(hcon.spare hg).1, hmask⟩

/-- A page that no core has cached is unmapped. -/
lemma vunmap {vaddr : BitVec 64} (hcache : ∀ c, ∀ e ∈ s.tlb c, e.1 ≠ pathOf vaddr)
    (hactivity : ∀ a f, activity ≠ .allocated a f) (core : ℕ) :
    ∃ ref', Guarded k (match vunmap k.space vaddr s.vmm with
      | .ok (some f) t => { s.setActivity core activity with vmm := t, log := .released f :: s.log }
      | .ok none t => { s.setActivity core activity with vmm := t }
      | .error _ t => { s.setActivity core .panicked with vmm := t }) ref' := by
  obtain ⟨t, heq, htree, hpool, -, hcon⟩ := vunmapNoDealloc_spec h.tree h.pool vaddr
  rw [vunmap_eq, heq]
  have hmapped : ∀ page g, update ref (pathOf vaddr) none page = some g →
      page ≠ pathOf vaddr ∧ ref page = some g := by
    intro page g hg
    by_cases hpage : page = pathOf vaddr
    · rw [hpage, update_self] at hg
      cases hg
    · rw [update_of_ne hpage] at hg
      exact ⟨hpage, hg⟩
  cases hframe : ref (pathOf vaddr) with
  | none =>
    rw [← hframe, update_eq_self] at htree
    exact ⟨ref, (h.confined htree hpool hcon).setActivity hactivity⟩
  | some f =>
    have howner := h.mapped _ f hframe
    obtain ⟨hspare, hlent, hmask⟩ := h.owned f _ howner
    obtain ⟨t', hdealloc, htree', hpool', -, hkeep⟩ :=
      htree.frameDealloc hpool (hcon.spare hspare).1 hmask
    have hold : ∀ g page, ownerOf s.log g = some page → page ≠ pathOf vaddr →
        ownerOf (.released f :: s.log) g = some page := by
      intro g page hg hne
      rw [ownerOf, if_neg, hg]
      rintro rfl
      rw [howner] at hg
      cases hg
      exact hne rfl
    have hspares : ∀ g, g ≠ f → SpareFrame (rootOf k.space) s.vmm g →
      SpareFrame (rootOf k.space) t' g :=
      fun g hne hg => hkeep g hne (hcon.spare hg).1
    simp only [hdealloc]
    refine ⟨_, htree', hpool', fun g page hg => ?_, fun c e he => ?_, fun page g hg => ?_,
      fun c a' f' hc => ?_, fun c c' a' a'' f' hc hc' => ?_, fun g hg => ?_, h.lent_nodup⟩
    · have hne : g ≠ f := by
        rintro rfl
        rw [ownerOf, if_pos rfl] at hg
        cases hg
      rw [ownerOf, if_neg hne] at hg
      obtain ⟨hg, hlent, hmask⟩ := h.owned g page hg
      exact ⟨hspares g hne hg, hlent, hmask⟩
    · exact hold _ _ (h.cached c e he) (hcache c e he)
    · obtain ⟨hpage, hg⟩ := hmapped page g hg
      exact hold g page (h.mapped page g hg) hpage
    · obtain ⟨howner', hpages⟩ := h.held c a' f' (activity_update hactivity hc)
      refine ⟨?_, fun page hpage => hpages page (hmapped page f' hpage).2⟩
      have hne : f' ≠ f := by
        rintro rfl
        exact hpages _ hframe
      rw [ownerOf, if_neg hne, howner']
    · exact h.held_once c c' a' a'' f' (activity_update hactivity hc)
        (activity_update hactivity hc')
    · obtain ⟨hg', hmask⟩ := h.lent g hg
      refine ⟨hspares g ?_ hg', hmask⟩
      rintro rfl
      exact hlent hg

/-- The next page of a dropped allocation is unmapped. -/
lemma unmap {a : VirtualMemoryAllocation} {length : ℕ}
    (hcache : 0 < length → ∀ c, (k.target = .x86_64 → c ≠ core) → ∀ e ∈ s.tlb c,
      e.1 ≠ pathOf (BitVec.ofNat 64 (wadd a.base (length - pageSize)))) :
    ∃ ref', Guarded k (s.unmap k core a length) ref' := by
  unfold KernelCores.unmap
  split_ifs with hlength
  · cases htarget : k.target with
    | aarch64 => exact h.vunmap (hcache hlength · (by simp [htarget])) (by simp) core
    | x86_64 =>
      refine (h.forget core _).vunmap (fun c e he => ?_) (by simp) core
      by_cases hc : c = core
      · subst hc
        simp only [KernelCores.forget, update_self, List.mem_filter, decide_eq_true_eq] at he
        exact he.2
      · simp only [KernelCores.forget, update_of_ne hc] at he
        exact hcache hlength c (fun _ => hc) e he
  · exact ⟨ref, h.setActivity (by simp)⟩

/-- The cores forget a page, or they are asked to do so. -/
lemma flush (core : ℕ) (a : VirtualMemoryAllocation) (page : ℕ) :
    Guarded k (s.flush k core a page) ref := by
  unfold KernelCores.flush
  cases k.target with
  | aarch64 =>
    simp only
    split_ifs
    · exact (h.forgetAll _).setActivity (by simp)
    · exact h.setActivity (by simp)
  | x86_64 => exact h.idle fun _ _ _ ha => activity_update (by simp) ha

/-- Other code takes a frame. -/
lemma take : Guarded k (s.step k .take) ref := by
  unfold step
  rcases h.tree.frameAlloc_cases h.pool with
    e | ⟨f, t, e, -, htree, hpool, hfree, hspare, hmask, hkeep⟩
  · simp only [e]
    exact h
  · simp only [e]
    refine { h with
      tree := htree, pool := hpool, owned := fun g page hg => ?_, lent :=
        fun g hg => ?_, lent_nodup := ?_ }
    · obtain ⟨hg, hlent, hmask⟩ := h.owned g page hg
      refine ⟨hkeep g hg, ?_, hmask⟩
      rw [List.mem_cons, not_or]
      exact ⟨fun heq => hg.unfree (heq ▸ hfree), hlent⟩
    · rcases mem_cons.mp hg with rfl | hg
      · exact ⟨hspare, hmask⟩
      · exact ⟨hkeep g (h.lent g hg).1, (h.lent g hg).2⟩
    · exact nodup_cons.mpr ⟨fun hlent => (h.lent f hlent).1.unfree hfree, h.lent_nodup⟩

/-- Other code gives a frame back. -/
lemma giveBack (frame : BitVec 64) : Guarded k (s.step k (.giveBack frame)) ref := by
  rw [step]
  split_ifs with hframe
  · obtain ⟨hspare, hmask⟩ := h.lent frame hframe
    obtain ⟨t, e, htree, hpool, -, hkeep⟩ := h.tree.frameDealloc h.pool hspare hmask
    simp only [finalState_of_ok e]
    refine { h with
      tree := htree, pool := hpool, owned := fun g page hg => ?_, lent := fun g hg => ?_
      lent_nodup := h.lent_nodup.erase frame }
    · obtain ⟨hg, hlent, hmask⟩ := h.owned g page hg
      exact ⟨hkeep g (fun heq => hlent (heq ▸ hframe)) hg,
        fun hmem => hlent (mem_of_mem_erase hmem), hmask⟩
    · obtain ⟨hne, hg⟩ := (h.lent_nodup.mem_erase_iff).mp hg
      exact ⟨hkeep g hne (h.lent g hg).1, (h.lent g hg).2⟩
  · exact h

/-- A step that unmaps no page which is cached keeps the invariant. -/
lemma step (i : KernelStep) (hi : Forgotten k s i) : ∃ ref', Guarded k (s.step k i) ref' := by
  cases i with
  | take => exact ⟨ref, h.take⟩
  | giveBack frame => exact ⟨ref, h.giveBack frame⟩
  | access core a =>
    rw [KernelCores.step]
    split_ifs
    · exact ⟨ref, h.access core a⟩
    · exact ⟨ref, h⟩
  | write core a b =>
    rw [KernelCores.step]
    split_ifs
    · exact ⟨ref, h.write core a b⟩
    · exact ⟨ref, h⟩
  | evict core page => exact ⟨ref, h.forget core page⟩
  | lookup core =>
    rw [KernelCores.step]
    split
    · unfold lookup
      split_ifs
      · exact ⟨ref, h.setActivity (by simp)⟩
      · split
        · split_ifs <;> exact ⟨ref, h.setActivity (by simp)⟩
        · exact ⟨ref, h.setActivity (by simp)⟩
    · exact ⟨ref, h⟩
  | frameAlloc core =>
    rw [KernelCores.step]
    split
    · exact ⟨ref, h.frameAlloc core _⟩
    · exact ⟨ref, h⟩
  | virtualMap core =>
    rw [KernelCores.step]
    split
    · exact h.virtualMap ‹_›
    · exact ⟨ref, h⟩
  | create core start length options =>
    rw [KernelCores.step]
    split_ifs
    · unfold create
      split
      · exact ⟨ref, h.idle fun _ _ _ ha => ha⟩
      · exact ⟨ref, h.idle fun _ _ _ ha => ha⟩
      · exact ⟨ref, h.idle fun _ _ _ ha => activity_update (by simp) ha⟩
    · exact ⟨ref, h⟩
  | drop core a =>
    rw [KernelCores.step]
    split_ifs
    · exact ⟨ref, h.idle fun _ _ _ ha => activity_update (by simp) ha⟩
    · exact ⟨ref, h⟩
  | unmap core =>
    rw [KernelCores.step]
    split
    next a length hactivity =>
      simp only [Forgotten, hactivity] at hi
      exact h.unmap hi
    next => exact ⟨ref, h⟩
  | shootdownTlbs core =>
    rw [KernelCores.step]
    split
    · exact ⟨ref, h.flush core _ _⟩
    · split_ifs
      · exact ⟨ref, h.setActivity (by simp)⟩
      · exact ⟨ref, h⟩
    · exact ⟨ref, h⟩
  | popEvent core =>
    rw [KernelCores.step]
    split
    · exact ⟨ref, h.idle fun _ _ _ ha => ha⟩
    · exact ⟨ref, h⟩
  | invalidate core =>
    rw [KernelCores.step]
    split
    · unfold invalidate
      split_ifs
      · exact ⟨ref, (h.forget core _).idle fun _ _ _ ha => ha⟩
      · exact ⟨ref, h.idle fun _ _ _ ha => ha⟩
    · exact ⟨ref, h⟩
  | release core =>
    rw [KernelCores.step]
    split
    · unfold release
      split <;> exact ⟨ref, h.idle fun _ _ _ ha => activity_update (by simp) ha⟩
    · exact ⟨ref, h⟩

end

end Guarded

/-- Before any page is used the invariant holds. -/
lemma guarded_start (vmes : VirtualMemoryEntryContainer) {vmm : Vmm}
    (hroot : ∀ i, vmm.mem (rootOf k.space) i = 0) (hfree : rootOf k.space ∉ vmm.free)
    (hpool : PoolOk vmm.free) :
    Guarded k (start vmes vmm) fun _ => none where
  tree := treeInv_zero hroot hfree
  pool := hpool
  owned _ _ hf := by cases hf
  cached _ _ he := by cases he
  mapped _ _ hf := by cases hf
  held _ _ _ ha := by cases ha
  held_once _ _ _ _ _ ha := by cases ha
  lent _ hf := by cases hf
  lent_nodup := nodup_nil

/-- Along every run in which a page that is unmapped is cached by no core (on x86: by no other
core), every cached translation leads to a frame that is neither free nor handed out again for
something else. -/
theorem safe_run (k : KernelConfig) (vmes : VirtualMemoryEntryContainer) (vmm : Vmm)
    (hroot : ∀ i, vmm.mem (rootOf k.space) i = 0) (hfree : rootOf k.space ∉ vmm.free)
    (hpool : PoolOk vmm.free)
    (steps : List KernelStep) (hsteps : AlongRun (step k) (Forgotten k) (start vmes vmm) steps) :
    Safe k ((start vmes vmm).run k steps) := by
  have hinv : ∃ ref, Guarded k ((start vmes vmm).run k steps) ref :=
    hsteps.invariant (I := fun s => ∃ ref, Guarded k s ref)
    (fun s i h hi => h.elim fun ref h => h.step i hi)
      ⟨_, guarded_start vmes hroot hfree hpool⟩
  obtain ⟨ref, h⟩ := hinv
  exact h.safe

/-- Two cores of the given kind. -/
def twoCores (target : Target) : KernelConfig := ⟨target, 2, 0x10000#64⟩

/-- The two cores before any page is used: all addresses are free and so are eight frames. -/
def twoCoresStart : KernelCores :=
  start (VirtualMemoryEntryContainer.new 0xFFFF800000000000 0xFFFFFFFFFFFFF000) eightFrames

/-- The first core allocates a page, which the second one uses; then the first core drops it. -/
def dropUsed : List KernelStep :=
  [.create 0 none 4096 kernelPage, .access 1 0xFFFF800000000000#64, .lookup 1, .frameAlloc 1,
    .virtualMap 1,
    .access 1 0xFFFF800000000000#64, .drop 0 ⟨0xFFFF800000000000, 4096⟩]

/-- In between, the second core loses its translation. -/
def dropEvicted : List KernelStep := dropUsed ++ [KernelStep.evict 1 (pathOf 0xFFFF800000000000#64)]

/-- If the second core loses its translation in time, the page can be unmapped. -/
theorem safe_run_evicted :
    Safe (twoCores .aarch64) (twoCoresStart.run (twoCores .aarch64)
      (dropEvicted ++ [KernelStep.unmap 0])) := by
  refine safe_run (twoCores .aarch64) _ _ (fun _ => rfl)
    (show rootOf 0x10000#64 ∉ eightFrames.free by decide)
    poolOk_eightFrames _ ?_
  rw [alongRun_append]
  refine ⟨⟨trivial, trivial, trivial, trivial, trivial, trivial, trivial, trivial, trivial⟩, ?_,
    trivial⟩
  have htlb : ∀ c, (twoCoresStart.run (twoCores .aarch64) dropEvicted).tlb c = [] := by
    intro c
    rcases c with _ | _ | c
    · decide +kernel
    · decide +kernel
    · rfl
  change Forgotten _ (twoCoresStart.run (twoCores .aarch64) dropEvicted) _
  simp only [Forgotten]
  split
  · intro _ c _ e he
    rw [htlb c] at he
    cases he
  · trivial

/-- The page is unmapped without that. -/
def dropUnmapped : List KernelStep := dropUsed ++ [KernelStep.unmap 0]

/-- Then other code takes a frame. -/
def dropTaken : List KernelStep := dropUnmapped ++ [KernelStep.take]

/-- When the first core unmaps the page, its frame is on the free list while the second core still
has the translation. -/
lemma free_of_dropUnmapped :
    (pathOf 0xFFFF800000000000#64, 0x1000#64) ∈
      (twoCoresStart.run (twoCores target) dropUnmapped).tlb 1 ∧
      0x1000#64 ∈ (twoCoresStart.run (twoCores target) dropUnmapped).vmm.free := by
  cases target <;> decide +kernel

/-- Other code is then given the frame. -/
lemma lent_of_dropTaken :
    (pathOf 0xFFFF800000000000#64, 0x1000#64) ∈
      (twoCoresStart.run (twoCores target) dropTaken).tlb 1 ∧
      0x1000#64 ∈ (twoCoresStart.run (twoCores target) dropTaken).lent := by
  cases target <;> decide +kernel

/-- On both processors the first core releases the frame of the page while the second core still has
the translation, and other code can be given the frame. -/
theorem dropped_frame_cached : ¬ Safe (twoCores .aarch64)
    (twoCoresStart.run (twoCores .aarch64) dropUnmapped) ∧
      ¬ Safe (twoCores .x86_64) (twoCoresStart.run (twoCores .x86_64) dropUnmapped) ∧
      ((pathOf 0xFFFF800000000000#64, 0x1000#64) ∈
        (twoCoresStart.run (twoCores .aarch64) dropTaken).tlb 1 ∧
        0x1000#64 ∈ (twoCoresStart.run (twoCores .aarch64) dropTaken).lent) ∧
      (pathOf 0xFFFF800000000000#64, 0x1000#64) ∈
        (twoCoresStart.run (twoCores .x86_64) dropTaken).tlb 1 ∧
        0x1000#64 ∈ (twoCoresStart.run (twoCores .x86_64) dropTaken).lent := by
  have hreleased : ∀ target,
    ¬ Safe (twoCores target) (twoCoresStart.run (twoCores target) dropUnmapped) := by
    intro target hsafe
    obtain ⟨hcached, hfree⟩ := free_of_dropUnmapped target
    exact (hsafe 1 _ hcached).1.unfree hfree
  exact ⟨hreleased _, hreleased _, lent_of_dropTaken _, lent_of_dropTaken _⟩

end KernelCores

end CabOS
