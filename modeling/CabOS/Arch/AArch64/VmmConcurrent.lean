import CabOS.Arch.AArch64.VmmRuns
import CabOS.Arch.AArch64.VmmSolo
import CabOS.Arch.AArch64.VmmUnmapThread

/-!
# Two cores in the page tables

One core maps a page while another one maps or unmaps a different page of the same address space.
Since the lock is dropped at once, the outcome is that of the two calls only if the tables that both
paths go through are there before and stay: `cores_settle`.  Otherwise both cores may populate the
same missing entry, and a table with a mapping in it is lost: `cores_lose_table`.
-/

namespace CabOS.AArch64

open Function List Option MapPc PagingOptions UnmapPc Cores

open TableTree

variable {root : BitVec 64} {s₀ s s' : Vmm} {H H' : Set Path} {L L' : List (BitVec 64)}
  {ref : Path → Option (BitVec 64)} {v w u paddr paddr' : BitVec 64}
  {options options' : PagingOptions}

/-! ## What both cores share -/

/-- The shared invariant, and no frame that was accounted for in `s₀` is lost; the first core holds
the frames `L` and the second one the frames `L'`. -/
structure Joint (root : BitVec 64) (known : Set (BitVec 64)) (H H' : Set Path)
    (L L' : List (BitVec 64)) (s : Vmm) (ref : Path → Option (BitVec 64)) : Prop where
  base : Base (H ∪ H') (L ++ L') root s ref
  kept : ∀ f ∈ known, Accounted root s (L ++ L') f

variable {known : Set (BitVec 64)} {r : Option Path} {q : Path}

/-- It does not matter which core is called the first. -/
lemma Joint.symm (h : Joint root known H H' L L' s ref) : Joint root known H' H L' L s ref := by
  have hperm : (s.free ++ (L' ++ L)).Perm (s.free ++ (L ++ L')) :=
    perm_append_comm.append_left s.free
  refine ⟨⟨?_, h.base.loose.perm hperm⟩, fun f hf => ?_⟩
  · rw [Set.union_comm]
    exact h.base.tree
  · exact (h.kept f hf).imp_right hperm.mem_iff.mpr

/-- A step of the first core. -/
lemma Joint.step {H₁ : Set Path} {L₁ : List (BitVec 64)}
    {ref₁ : Path → Option (BitVec 64)} (h : Joint root known H H' L L' s ref)
    (hok : StepOk r root L L₁ L' s s') (hb : Base (H₁ ∪ H') (L₁ ++ L') root s' ref₁) :
    Joint root known H₁ H' L₁ L' s' ref₁ :=
  ⟨hb, fun f hf => hok.kept f (h.kept f hf)⟩

/-- Effects on different pages can be exchanged. -/
lemma MapPc.effect_update (hq : pathOf v ≠ q) (pc : MapPc) (x : Option (BitVec 64)) :
    pc.effect v paddr (update ref q x) = update (pc.effect v paddr ref) q x := by
  cases pc with
  | done => exact update_comm hq.symm _ _ _
  | _ => rfl

lemma MapPc.effect_of_ne (pc : MapPc) (hq : q ≠ pathOf v) : pc.effect v paddr ref q = ref q := by
  cases pc with
  | done => exact update_of_ne hq _ _
  | _ => rfl

/-- The effects of the two calls can be exchanged. -/
lemma UnmapPc.effect_comm (hvu : pathOf v ≠ pathOf u) {pc : MapPc} (pcu : UnmapPc) :
    pc.effect v paddr (pcu.effect u ref) = pcu.effect u (pc.effect v paddr ref) := by
  cases pcu with
  | check | follow | checkLeaf | readLeaf | clear => rfl
  | scan | cut | dealloc | finish | done => exact effect_update hvu pc none

/-! ## Two cores that map pages -/

/-- The invariant of two calls of `vmap`: the tables that both paths go through exist. -/
structure MapMapInv (root : BitVec 64) (known : Set (BitVec 64)) (v w paddr paddr' : BitVec 64)
    (ref : Path → Option (BitVec 64)) (s : Vmm) (pc pc' : MapPc) : Prop where
  joint : Joint root known (pc.exempt v) (pc'.exempt w) pc.held pc'.held s
    (pc.effect v paddr (pc'.effect w paddr' ref))
  loc : MapLoc root v s pc
  loc' : MapLoc root w s pc'
  shared : ∀ k ≤ 3, (pathOf v).take k = (pathOf w).take k →
    ∃ t, walk next s.mem root ((pathOf v).take k) = some t

variable {pc pc' pc₁ : MapPc}

/-- The two calls can be exchanged. -/
lemma MapMapInv.symm (hvw : pathOf v ≠ pathOf w)
    (h : MapMapInv root known v w paddr paddr' ref s pc pc') :
    MapMapInv root known w v paddr' paddr ref s pc' pc where
  joint := by
    have hcomm : pc'.effect w paddr' (pc.effect v paddr ref) =
      pc.effect v paddr (pc'.effect w paddr' ref) := by
      cases pc' with
      | done => exact (effect_update hvw pc _).symm
      | _ => rfl
    rw [hcomm]
    exact h.joint.symm
  loc := h.loc'
  loc' := h.loc
  shared k hk heq := by
    rw [heq]
    exact h.shared k hk heq.symm

/-- An entry that `vmap` alters is not on the path of the other page, if the shared tables exist. -/
lemma MapAlters.ne_take (ha : MapAlters root v s s' r) (hvw : pathOf v ≠ pathOf w)
    (hshared : ∀ k ≤ 3, (pathOf v).take k = (pathOf w).take k →
      ∃ t, walk next s.mem root ((pathOf v).take k) = some t) :
    ∀ m ≤ 4, r ≠ some ((pathOf w).take m) := by
  intro m hm
  rcases ha with rfl | ⟨k, hk, rfl, hnone⟩ | ⟨rfl, -⟩
  · simp
  · intro heq
    have heq' : (pathOf v).take (k + 1) = (pathOf w).take m := some.inj heq
    have hmk : k + 1 = m := by
      have := congrArg length heq'
      rwa [length_take_pathOf v (by omega), length_take_pathOf w hm] at this
    obtain ⟨t, ht⟩ := hshared (k + 1) (by omega) (by rw [heq', hmk])
    rw [hnone] at ht
    cases ht
  · intro heq
    have heq' : pathOf v = (pathOf w).take m := some.inj heq
    have hm4 : m = 4 := by
      have := congrArg length heq'
      rw [length_pathOf, length_take_pathOf w hm] at this
      exact this.symm
    rw [hm4] at heq'
    exact hvw heq'

/-- A step of the first core keeps the invariant. -/
lemma MapMapInv.step (hvw : pathOf v ≠ pathOf w) (hpresent : hasFlags options present)
    (h : MapMapInv root known v w paddr paddr' ref s pc pc')
    (hstep : mapStep v paddr options pc s = some (pc₁, s')) :
    MapMapInv root known v w paddr paddr' ref s' pc₁ pc' := by
  obtain ⟨r, hok, ha, hb, hloc⟩ := mapStep_spec hpresent h.joint.base h.loc hstep
  refine ⟨h.joint.step hok hb, hloc, ?_, fun k hk heq => ?_⟩
  · exact h.loc'.stable hok.alters (ha.ne_take hvw h.shared) hok.others
  · obtain ⟨t, ht⟩ := h.shared k hk heq
    refine ⟨t, ha.walk_eq hok.alters ?_ ht⟩
    rw [length_take_pathOf v (by omega)]
    exact hk

/-! ## A core that maps and a core that unmaps -/

/-- The invariant of a call of `vmap` and a call of `vunmap_internal`: below the level of the guard
the paths have parted. -/
structure MapUnmapInv (root : BitVec 64) (known : Set (BitVec 64)) (v u paddr : BitVec 64)
    (data : List (BitVec 64)) (P : Option (BitVec 64)) (D : ℕ) (g : Fin ptePerPage)
    (ref : Path → Option (BitVec 64)) (s : Vmm) (pc : MapPc) (pc' : UnmapPc) : Prop where
  joint : Joint root known (pc.exempt v) (pc'.exempt u) pc.held (pc'.held data) s
    (pc.effect v paddr (pc'.effect u ref))
  loc : MapLoc root v s pc
  loc' : UnmapLoc root u P D g s pc'
  guard : GuardOk root u D g s

variable {data : List (BitVec 64)} {P : Option (BitVec 64)} {D : ℕ} {g : Fin ptePerPage}
  {pcu pcu₁ : UnmapPc} {a b : BitVec 64} {freeFrame : Bool} {c : Cores}

/-- The paths of the two pages have parted below the level of the guard, unless nothing is unmapped.
-/
def Parted (v u : BitVec 64) (P : Option (BitVec 64)) (D : ℕ) : Prop :=
  P ≠ none → ∀ d, 1 ≤ d → d ≤ 3 → D < d → (pathOf v).take d ≠ (pathOf u).take d

/-- An entry that `vunmap_internal` alters is not on the path of the other page. -/
lemma UnmapAlters.ne_take (ha : UnmapAlters u P D r) (hvu : pathOf v ≠ pathOf u)
    (hparted : Parted v u P D) : ∀ m ≤ 4, r ≠ some ((pathOf v).take m) := by
  intro m hm
  rcases ha with rfl | ⟨hP, rfl | ⟨d, h1, h3, hDd, rfl⟩⟩
  · simp
  · intro heq
    have heq' : pathOf u = (pathOf v).take m := some.inj heq
    have hm4 : m = 4 := by
      have := congrArg length heq'
      rw [length_pathOf, length_take_pathOf v hm] at this
      exact this.symm
    rw [hm4] at heq'
    exact hvu heq'.symm
  · intro heq
    have heq' : (pathOf u).take d = (pathOf v).take m := some.inj heq
    have hmd : d = m := by
      have := congrArg length heq'
      rwa [length_take_pathOf u (by omega), length_take_pathOf v hm] at this
    rw [← hmd] at heq'
    exact hparted hP d h1 h3 hDd heq'.symm

/-- The guard survives the steps of a core that maps: an entry that is populated was invalid before,
and the entry of a page is valid afterwards. -/
lemma GuardOk.step_map (h : GuardOk root u D g s)
    (htree : TreeInv H root s.mem s.free ref) (ha : MapAlters root v s s' r)
    (halt : Alters r root s s') (hD : D ≤ 3) : GuardOk root u D g s' := by
  intro h1
  obtain ⟨t, ht, hvalid⟩ := h h1
  have hlen := length_take_pathOf u (show D ≤ 4 by omega)
  refine ⟨t, ha.walk_eq halt (by omega) ht, ?_⟩
  by_cases hr : r = some ((pathOf u).take D ++ [g])
  · rcases ha with rfl | ⟨k, hk, hx, hnone⟩ | ⟨hx, hnew⟩
    · cases hr
    · rw [hx] at hr
      have hr' := some.inj hr
      have hD2 : D ≤ 2 := by
        have := congrArg length hr'
        rw [length_take_pathOf v (by omega), length_append, hlen, length_singleton] at this
        omega
      rw [hr', walk_concat ht, next_eq_none] at hnone
      exact absurd ((htree.entries _ t g (by omega) ht).resolve_left hvalid) hnone
    · rw [hx] at hr
      have hr' := some.inj hr
      rw [pathOf_eq_concat] at hr'
      obtain ⟨htake, hlast⟩ := append_inj' hr' rfl
      cases hlast
      rw [hnew t (by rw [htake, ht])]
      decide
  · rwa [halt _ t g (by omega) ht hr]

/-- The guard survives the steps of the core that unmaps: what that core alters lies below. -/
lemma GuardOk.step_unmap (h : GuardOk root u D g s) (ha : UnmapAlters u P D r)
    (halt : Alters r root s s') (hD : D ≤ 3) (hg : g ≠ indexAt u D) : GuardOk root u D g s' := by
  have hbelow : r = none ∨ ∃ d, d ≤ 4 ∧ D < d ∧ r = some ((pathOf u).take d) := by
    rcases ha with rfl | ⟨-, rfl | ⟨d, -, h3, hDd, rfl⟩⟩
    · exact .inl rfl
    · exact .inr ⟨4, le_rfl, by omega, rfl⟩
    · exact .inr ⟨d, by omega, hDd, rfl⟩
  rcases hbelow with rfl | ⟨d, hd, hDd, rfl⟩
  · exact h.stable halt hD (by simp) (by simp)
  · refine h.stable halt hD (fun m hm heq => ?_) fun heq => ?_
    · exact take_pathOf_ne hd (by omega) (by omega) (some.inj heq)
    · have heq' := some.inj heq
      have hdD : d = D + 1 := by
        have := congrArg length heq'
        rwa [length_take_pathOf u hd, length_append, length_take_pathOf u (by omega),
          length_singleton] at this
      rw [hdD, take_succ_pathOf u hD] at heq'
      exact hg (singleton_inj.mp (append_cancel_left heq')).symm

/-- What every step keeps holds after every schedule. -/
lemma Cores.run_inv {I : Cores → Prop} (hstep : ∀ c b, I c → I (c.step b)) (hc : I c)
    (schedule : List Bool) : I (c.run schedule) := by
  induction schedule generalizing c with
  | nil => exact hc
  | cons b schedule ih => exact ih (hstep c b hc)

/-- The two cores are inside calls of `vmap`. -/
def MapMapCores (root : BitVec 64) (known : Set (BitVec 64)) (v w paddr paddr' : BitVec 64)
    (options options' : PagingOptions) (ref : Path → Option (BitVec 64)) (c : Cores) : Prop :=
  ∃ pc pc', c.first = .map v paddr options pc ∧ c.second = .map w paddr' options' pc' ∧
    MapMapInv root known v w paddr paddr' ref c.vmm pc pc'

/-- Every step of two cores that map pages keeps the invariant. -/
lemma MapMapCores.step (hvw : pathOf v ≠ pathOf w) (hpresent : hasFlags options present)
    (hpresent' : hasFlags options' present) (c : Cores) (b : Bool)
    (h : MapMapCores root known v w paddr paddr' options options' ref c) :
    MapMapCores root known v w paddr paddr' options options' ref (c.step b) := by
  obtain ⟨s, first, second⟩ := c
  obtain ⟨pc, pc', rfl, rfl, hinv⟩ := h
  cases b with
  | false =>
    cases hm : mapStep v paddr options pc s with
    | none =>
      simp only [Cores.step, Thread.step, hm, map_none]
      exact ⟨pc, pc', rfl, rfl, hinv⟩
    | some x =>
      simp only [Cores.step, Thread.step, hm, map_some]
      exact ⟨x.1, pc', rfl, rfl, hinv.step hvw hpresent hm⟩
  | true =>
    cases hm : mapStep w paddr' options' pc' s with
    | none =>
      simp only [Cores.step, Thread.step, hm, map_none]
      exact ⟨pc, pc', rfl, rfl, hinv⟩
    | some x =>
      simp only [Cores.step, Thread.step, hm, map_some]
      exact ⟨pc, x.1, rfl, rfl, ((hinv.symm hvw).step hvw.symm hpresent' hm).symm hvw.symm⟩

/-- The first core is inside `vmap` and the second one inside `vunmap_internal`. -/
def MapUnmapCores (root : BitVec 64) (known : Set (BitVec 64)) (v u paddr : BitVec 64)
    (options : PagingOptions) (freeFrame : Bool) (data : List (BitVec 64)) (P : Option (BitVec 64))
    (D : ℕ) (g : Fin ptePerPage) (ref : Path → Option (BitVec 64)) (c : Cores) : Prop :=
  ∃ pc pcu, c.first = .map v paddr options pc ∧ c.second = .unmap u freeFrame pcu ∧
    MapUnmapInv root known v u paddr data P D g ref c.vmm pc pcu

section

variable (hvu : pathOf v ≠ pathOf u)
include hvu

/-- A step of the core that maps keeps the invariant. -/
lemma MapUnmapInv.step_map (hD : D ≤ 3) (hparted : Parted v u P D)
    (hpresent : hasFlags options present)
    (h : MapUnmapInv root known v u paddr data P D g ref s pc pcu)
    (hstep : mapStep v paddr options pc s = some (pc₁, s')) :
    MapUnmapInv root known v u paddr data P D g ref s' pc₁ pcu := by
  obtain ⟨r, hok, ha, hb, hloc⟩ := mapStep_spec hpresent h.joint.base h.loc hstep
  have hsome : ∀ q t, q.length ≤ 3 → walk next s.mem root q = some t →
      walk next s'.mem root q = some t := fun q t hq ht => ha.walk_eq hok.alters hq ht
  refine ⟨h.joint.step hok hb, hloc, ?_, ?_⟩
  · refine h.loc'.stable hok.alters hsome ?_ ?_
    · rcases ha with rfl | ⟨k, hk, rfl, -⟩ | ⟨rfl, -⟩
      · simp
      · intro heq
        have := congrArg length (some.inj heq)
        rw [length_take_pathOf v (by omega), length_pathOf] at this
        omega
      · exact fun heq => hvu (some.inj heq)
    · -- an altered entry of the table at level `d` would make the paths agree down to it
      intro hP d j h1 h3 hDd heq
      refine hparted hP d h1 h3 hDd ?_
      have hpre : ∀ {x : Path}, r = some x → x <+: pathOf v := by
        rintro x rfl
        rcases ha with h0 | ⟨k, hk, hx, -⟩ | ⟨hx, -⟩
        · cases h0
        · cases hx
          exact take_prefix _ _
        · cases hx
          exact prefix_refl _
      have hpre' := (prefix_append _ _).trans (hpre heq)
      have := prefix_iff_eq_take.mp hpre'
      rw [length_take_pathOf u (by omega)] at this
      exact this.symm
  · exact h.guard.step_map h.joint.base.tree ha hok.alters hD

/-- A step of the core that unmaps keeps the invariant. -/
lemma MapUnmapInv.step_unmap (hD : D ≤ 3) (hg : g ≠ indexAt u D)
    (hparted : Parted v u P D) (href : ref (pathOf u) = P)
    (hdata : data = if freeFrame then P.toList else [])
    (h : MapUnmapInv root known v u paddr data P D g ref s pc pcu)
    (hstep : unmapStep u freeFrame pcu s = some (pcu₁, s')) :
    MapUnmapInv root known v u paddr data P D g ref s' pc pcu₁ := by
  have hjoint := h.joint.symm
  rw [effect_comm hvu] at hjoint
  have href' : pc.effect v paddr ref (pathOf u) = P := (pc.effect_of_ne hvu.symm).trans href
  obtain ⟨r, hok, ha, hb, hloc⟩ := unmapStep_spec hD href' hdata hjoint.base h.loc' h.guard hstep
  have hjoint' := (hjoint.step hok hb).symm
  rw [← effect_comm hvu] at hjoint'
  exact ⟨hjoint', h.loc.stable hok.alters (ha.ne_take hvu hparted) hok.others, hloc,
    h.guard.step_unmap ha hok.alters hD hg⟩

/-! ## Runs -/

/-- Every step of a core that maps and a core that unmaps keeps the invariant. -/
lemma MapUnmapCores.step (hD : D ≤ 3) (hg : g ≠ indexAt u D) (hparted : Parted v u P D)
    (href : ref (pathOf u) = P) (hdata : data = if freeFrame then P.toList else [])
    (hpresent : hasFlags options present) (c : Cores) (b : Bool)
    (h : MapUnmapCores root known v u paddr options freeFrame data P D g ref c) :
    MapUnmapCores root known v u paddr options freeFrame data P D g ref (c.step b) := by
  obtain ⟨s, first, second⟩ := c
  obtain ⟨pc, pcu, rfl, rfl, hinv⟩ := h
  cases b with
  | false =>
    cases hm : mapStep v paddr options pc s with
    | none =>
      simp only [Cores.step, Thread.step, hm, map_none]
      exact ⟨pc, pcu, rfl, rfl, hinv⟩
    | some x =>
      simp only [Cores.step, Thread.step, hm, map_some]
      exact ⟨x.1, pcu, rfl, rfl, hinv.step_map hvu hD hparted hpresent hm⟩
  | true =>
    cases hm : unmapStep u freeFrame pcu s with
    | none =>
      simp only [Cores.step, Thread.step, hm, map_none]
      exact ⟨pc, pcu, rfl, rfl, hinv⟩
    | some x =>
      simp only [Cores.step, Thread.step, hm, map_some]
      exact ⟨pc, x.1, rfl, rfl, hinv.step_unmap hvu hD hg hparted href hdata hm⟩

end

/-! ## The tables on the way to a page -/

/-- Different paths part at some level. -/
lemma exists_parting (h : pathOf a ≠ pathOf b) :
    ∃ d ≤ 3, (pathOf a).take d = (pathOf b).take d ∧ indexAt a d ≠ indexAt b d := by
  by_contra hno
  push Not at hno
  -- then the paths agree level by level
  have hall : ∀ d ≤ 4, (pathOf a).take d = (pathOf b).take d := by
    intro d
    induction d with
    | zero => exact fun _ => rfl
    | succ d ih =>
      intro hd
      rw [take_succ_pathOf a (by omega), take_succ_pathOf b (by omega), ih (by omega),
        hno d (by omega) (ih (by omega))]
  exact h (hall 4 le_rfl)

/-- The paths are different below the level where they part. -/
lemma take_ne_of_parting {d m : ℕ} (hd : d ≤ 3) (hne : indexAt a d ≠ indexAt b d)
    (hdm : d < m) : (pathOf a).take m ≠ (pathOf b).take m := by
  intro heq
  have hsucc : (pathOf a).take (d + 1) = (pathOf b).take (d + 1) := by
    have := congrArg (take (d + 1)) heq
    rwa [take_take, take_take, min_eq_left hdm] at this
  rw [take_succ_pathOf a hd, take_succ_pathOf b hd] at hsucc
  exact hne (singleton_inj.mp (append_inj' hsucc rfl).2)

/-- On the way to a mapped page all tables exist and all entries are valid. -/
lemma TreeInv.entry_of_mapped (h : TreeInv H root s.mem s.free ref)
    (ha : ref (pathOf a) ≠ none) {d : ℕ} (hd : d ≤ 3) :
    ∃ t, walk next s.mem root ((pathOf a).take d) = some t ∧
    s.mem t (indexAt a d) &&& 0b11 ≠ 0 := by
  have hlen := length_take_pathOf a (show 3 ≤ 4 by omega)
  rw [pathOf_eq_concat] at ha
  cases hw3 : walk next s.mem root ((pathOf a).take 3) with
  | none => exact absurd (h.unmapped _ _ hlen hw3) ha
  | some t3 =>
    rcases lt_or_eq_of_le hd with hlt | rfl
    · cases hw : walk next s.mem root ((pathOf a).take (d + 1)) with
      | none =>
        rw [walk_eq_none_of_shorter ( take_prefix_take_left (by omega)) hw] at hw3
        cases hw3
      | some t' =>
        rw [take_succ_pathOf a hd, walk_append] at hw
        cases hwd : walk next s.mem root ((pathOf a).take d) with
        | none => simp [hwd] at hw
        | some t =>
          refine ⟨t, rfl, fun hinvalid => ?_⟩
          rw [hwd, bind_some, walk_cons, next_of_invalid hinvalid] at hw
          cases hw
    · refine ⟨t3, hw3, fun hinvalid => ha ?_⟩
      rw [(h.leaves _ t3 _ hlen hw3).2]
      exact next_of_invalid hinvalid

/-! ## The outcome of two calls -/

/-- The call that the second core makes while the first one maps a page. -/
inductive Call where
  | vmap (vaddr paddr : BitVec 64) (options : PagingOptions)
  | vunmap (vaddr : BitVec 64) (freeFrame : Bool)

namespace Call

/-- The address that the call is about. -/
def vaddr : Call → BitVec 64
  | vmap w _ _ => w
  | vunmap u _ => u

/-- The core at the start of the call. -/
def thread (space : BitVec 64) : Call → Thread
  | vmap w paddr options => Thread.vmap space w paddr options
  | vunmap u freeFrame => Thread.vunmap space u freeFrame

/-- The reference map after the call. -/
def apply (pages : ℕ → Option (BitVec 64)) : Call → ℕ → Option (BitVec 64)
  | vmap w paddr _ => update pages (w.toNat / pageSize) (some paddr)
  | vunmap u _ => update pages (u.toNat / pageSize) none

/-- The arguments are as for a call on its own.  If the frame of the page is to be given back, it is
neither free nor a table. -/
def Valid (space : BitVec 64) (s : Vmm) (pages : ℕ → Option (BitVec 64)) : Call → Prop
  | vmap w paddr options =>
    PageAligned w ∧ PageAligned paddr ∧ hasFlags options PagingOptions.present = true
  | vunmap u freeFrame => PageAligned u ∧
      (freeFrame = true → ∀ f, pages (u.toNat / pageSize) = some f → f ∉ s.free ∧
        ¬ IsTable (rootOf space) s f)

/-- Every table below the root that the call shares with the way to `v` is there because of a page
that is mapped before and that the call does not unmap.  Nothing is asked of a call that unmaps a
page that is not mapped. -/
def SharedStay (v : BitVec 64) (pages : ℕ → Option (BitVec 64)) : Call → Prop
  | vmap w _ _ => ∀ k, 1 ≤ k → k ≤ 3 → (pathOf v).take k = (pathOf w).take k →
      ∃ a : BitVec 64, a.toNat < 2 ^ 48 ∧ (pathOf a).take k = (pathOf w).take k ∧
      pages (a.toNat / pageSize) ≠ none
  | vunmap u _ => pages (u.toNat / pageSize) ≠ none → ∀ k, 1 ≤ k → k ≤ 3 →
    (pathOf v).take k = (pathOf u).take k →
          ∃ a : BitVec 64, a.toNat < 2 ^ 48 ∧ (pathOf a).take k = (pathOf u).take k ∧
            a.toNat / pageSize ≠ u.toNat / pageSize ∧ pages (a.toNat / pageSize) ≠ none

end Call

variable {space : BitVec 64} {pages : ℕ → Option (BitVec 64)}

/-- Addresses in different pages have different paths. -/
lemma pathOf_ne (ha : a.toNat < 2 ^ 48) (hb : b.toNat < 2 ^ 48)
    (hne : a.toNat / pageSize ≠ b.toNat / pageSize) : pathOf a ≠ pathOf b := by
  intro heq
  rw [← pageOf_pathOf ha, ← pageOf_pathOf hb, heq] at hne
  exact hne rfl

/-- The frames that are tables or free at the start. -/
def startFrames (space : BitVec 64) (s : Vmm) : Set (BitVec 64) :=
  {f | IsTable (rootOf space) s f ∨ f ∈ s.free}

/-- At the start the cores share the tables and the first one has nothing in its hands. -/
lemma RunInv.joint (h : RunInv space s pages) (hdata : ∀ f ∈ data, PageAligned f ∧ f ∉ s.free ∧
      ¬ IsTable (rootOf space) s f) (hnodup : data.Nodup) :
    Joint (rootOf space) (startFrames space s) {[]} H [] data s fun q => pages (pageOf q) := by
  refine ⟨⟨h.tree.mono (Set.empty_subset _), ?_⟩, fun f hf => ?_⟩
  · rw [nil_append]
    refine ⟨nodup_append.mpr ⟨h.pool.nodup, hnodup, ?_⟩, fun f hf => ?_, fun f hf q hq hw => ?_⟩
    · rintro f hf g hg rfl
      exact (hdata f hg).2.1 hf
    · rcases mem_append.mp hf with hf | hf
      · exact h.pool.aligned f hf
      · exact (hdata f hf).1.and_mask
    · rcases mem_append.mp hf with hf | hf
      · exact h.tree.unfree q f hq hw hf
      · exact (hdata f hf).2.2 ⟨q, hq, hw⟩
  · exact hf.imp_right (mem_append_left _)

/-- When both cores have returned, the reference map is in force and no frame is lost. -/
lemma Joint.outcome {pages' : ℕ → Option (BitVec 64)}
    (h : Joint (rootOf space) known ∅ ∅ [] [] s ref)
    (href : ∀ q, q.length = 4 → pages' (pageOf q) = ref q)
    (haligned : ∀ n f, pages' n = some f → PageAligned f) :
    (∀ a : BitVec 64, a.toNat < 2 ^ 48 → (getPhysAddr s.mem a space).map BitVec.toNat =
      (pages' (a.toNat / pageSize)).map fun f => f.toNat + a.toNat % pageSize) ∧
    ∀ f ∈ known, IsTable (rootOf space) s f ∨ f ∈ s.free := by
  refine ⟨fun a ha => ?_, fun f hf => ?_⟩
  · have htree : TreeInv ∅ (rootOf space) s.mem s.free ref := by
      have := h.base.tree
      rwa [Set.union_empty] at this
    rw [getPhysAddr_eq htree, ← href _ rfl, pageOf_pathOf ha, Option.map_map]
    cases hp : pages' (a.toNat / pageSize) with
    | none => rfl
    | some f =>
      rw [map_some, map_some]
      exact congrArg some ((haligned _ f hp).or_offset a)
  · have := h.kept f hf
    rwa [Accounted, append_nil, append_nil] at this

/-- Changing the reference map at two pages changes it at the paths of the pages. -/
lemma update_update_pageOf (ha : PageAligned a) (hb : PageAligned b)
    (hne : a.toNat / pageSize ≠ b.toNat / pageSize) (x y : Option (BitVec 64)) (hq : q.length = 4) :
    update (update pages (a.toNat / pageSize) x) (b.toNat / pageSize) y (pageOf q) =
      update (update (fun q => pages (pageOf q)) (pathOf b) y) (pathOf a) x q := by
  rw [update_comm hne, update_pageOf ha x hq]
  by_cases hqa : q = pathOf a
  · rw [hqa, update_self, update_self]
  · rw [update_of_ne hqa, update_of_ne hqa, update_pageOf hb y hq]

section

variable (hs : RunInv space s pages)
include hs

section

variable (hv : PageAligned v) {schedule : List Bool}
include hv

/-- Two cores that map pages. -/
lemma mapMap_outcome (hp : PageAligned paddr) (hpresent : hasFlags options present)
    (hw : PageAligned w)
    (hp' : PageAligned paddr') (hpresent' : hasFlags options' present)
    (hne : v.toNat / pageSize ≠ w.toNat / pageSize)
    (hstay : (Call.vmap w paddr' options').SharedStay v pages)
    (hc : c = Cores.run ⟨s, Thread.vmap space v paddr options,
      Thread.vmap space w paddr' options'⟩ schedule) (hfin : c.Finished) :
    ∃ ref, Joint (rootOf space) (startFrames space s) ∅ ∅ [] [] c.vmm ref ∧
      ∀ q, q.length = 4 → update (update pages (v.toNat / pageSize) (some paddr))
        (w.toNat / pageSize) (some paddr') (pageOf q) = ref q := by
  have hvw := pathOf_ne hv.2 hw.2 hne
  have hstart : MapMapCores (rootOf space) (startFrames space s) v w paddr paddr' options options'
      (fun q => pages (pageOf q))
      ⟨s, Thread.vmap space v paddr options, Thread.vmap space w paddr' options'⟩ := by
    refine ⟨.check 0 (rootOf space), .check 0 (rootOf space), rfl, rfl,
      hs.joint (fun _ hf => nomatch hf) nodup_nil, ⟨by omega, rfl⟩, ⟨by omega, rfl⟩,
      fun k hk heq => ?_⟩
    rcases eq_zero_or_pos k with rfl | hpos
    · exact ⟨rootOf space, rfl⟩
    · obtain ⟨a, ha, hpre, hmapped⟩ := hstay k hpos hk heq
      rw [← pageOf_pathOf ha] at hmapped
      obtain ⟨t, ht, -⟩ := hs.tree.entry_of_mapped hmapped hk
      exact ⟨t, by rw [heq, ← hpre, ht]⟩
  have hend := run_inv (MapMapCores.step hvw hpresent hpresent') hstart schedule
  rw [← hc] at hend
  obtain ⟨pc, pc', e, e', hinv⟩ := hend
  rw [Cores.Finished, e, e'] at hfin
  obtain ⟨hdone, hdone'⟩ := hfin
  cases pc with
  | done =>
    cases pc' with
    | done =>
      refine ⟨_, hinv.joint, fun q hq => ?_⟩
      rw [update_update_pageOf hv hw hne _ _ hq]
      simp only [MapPc.effect, hp.and_mask, hp'.and_mask]
    | _ => cases hdone'
  | _ => cases hdone

/-- The tables that stay on the way to the page that is unmapped have an entry beside the way. -/
lemma exists_guard (hu : PageAligned u) (hne : v.toNat / pageSize ≠ u.toNat / pageSize)
    (hstay : (Call.vunmap u freeFrame).SharedStay v pages) :
    ∃ D g, D ≤ 3 ∧ g ≠ indexAt u D ∧ GuardOk (rootOf space) u D g s ∧
    Parted v u (pages (u.toNat / pageSize)) D := by
  obtain ⟨d, hd, heq, hidx⟩ := exists_parting (pathOf_ne hv.2 hu.2 hne)
  by_cases hmapped : pages (u.toNat / pageSize) = none
  · obtain ⟨g, hg⟩ : ∃ g : Fin ptePerPage, g ≠ indexAt u 0 := exists_ne _
    exact ⟨0, g, by omega, hg, fun h1 => absurd h1 (by omega), fun h => absurd hmapped h⟩
  · rcases eq_zero_or_pos d with rfl | hpos
    · exact ⟨0, indexAt v 0, by omega, hidx, fun h1 => absurd h1 (by omega),
        fun _ m _ _ hm => take_ne_of_parting hd hidx hm⟩
    · -- another mapped page keeps the last shared table; its way parts from that of `u` further
      -- down
      obtain ⟨a, ha, hpre, hau, hamapped⟩ := hstay hmapped d hpos hd heq
      obtain ⟨D, hD, heq', hidx'⟩ := exists_parting (pathOf_ne ha hu.2 hau)
      have hdD : d ≤ D := by
        by_contra hlt
        exact take_ne_of_parting hD hidx' (by omega) hpre
      rw [← pageOf_pathOf ha] at hamapped
      obtain ⟨t, ht, hvalid⟩ := hs.tree.entry_of_mapped hamapped hD
      exact ⟨D, indexAt a D, hD, hidx', fun _ => ⟨t, by rw [← heq', ht], hvalid⟩,
        fun _ m _ _ hm => take_ne_of_parting hd hidx (by omega)⟩

/-- A core that maps a page and a core that unmaps one. -/
lemma mapUnmap_outcome (hp : PageAligned paddr) (hpresent : hasFlags options present)
    (hvalid : (Call.vunmap u freeFrame).Valid space s pages)
    (hne : v.toNat / pageSize ≠ u.toNat / pageSize)
    (hstay : (Call.vunmap u freeFrame).SharedStay v pages)
    (hc : c = Cores.run ⟨s, Thread.vmap space v paddr options,
      Thread.vunmap space u freeFrame⟩ schedule) (hfin : c.Finished) :
    ∃ ref, Joint (rootOf space) (startFrames space s) ∅ ∅ [] [] c.vmm ref ∧
      ∀ q, q.length = 4 → update (update pages (v.toNat / pageSize) (some paddr))
        (u.toNat / pageSize) none (pageOf q) = ref q := by
  obtain ⟨hu, hframe⟩ := hvalid
  have hvu := pathOf_ne hv.2 hu.2 hne
  obtain ⟨D, g, hD, hg, hguard, hparted⟩ := exists_guard hs hv hu hne hstay
  set P := pages (u.toNat / pageSize) with hP
  set data := if freeFrame then P.toList else [] with hdata
  have hdataOk : ∀ f ∈ data, PageAligned f ∧ f ∉ s.free ∧ ¬ IsTable (rootOf space) s f := by
    intro f hf
    cases hff : freeFrame with
    | false => simp [hdata, hff] at hf
    | true =>
      have hPf : P = some f := by simpa [hdata, hff] using hf
      exact ⟨hs.aligned _ f hPf, hframe hff f hPf⟩
  have hnodup : data.Nodup := by
    have hoption : ∀ x : Option (BitVec 64), x.toList.Nodup := by
      intro x
      cases x <;> simp
    rw [hdata]
    split_ifs
    · exact hoption P
    · exact nodup_nil
  have href : (fun q => pages (pageOf q)) (pathOf u) = P := by
    simp only [pageOf_pathOf hu.2, hP]
  have hstart : MapUnmapCores (rootOf space) (startFrames space s) v u paddr options
    freeFrame data P
      D g (fun q => pages (pageOf q))
      ⟨s, Thread.vmap space v paddr options, Thread.vunmap space u freeFrame⟩ := by
    refine ⟨.check 0 (rootOf space), .check 0 fun _ => rootOf space, rfl, rfl,
      hs.joint hdataOk hnodup, ⟨by omega, rfl⟩, ⟨by omega, fun m hm => ?_⟩, hguard⟩
    rw [Nat.le_zero.mp hm]
    rfl
  have hend := run_inv (MapUnmapCores.step hvu hD hg hparted href hdata hpresent) hstart schedule
  rw [← hc] at hend
  obtain ⟨pc, pcu, e, e', hinv⟩ := hend
  rw [Cores.Finished, e, e'] at hfin
  obtain ⟨hdone, hdone'⟩ := hfin
  cases pc with
  | done =>
    cases pcu with
    | done result =>
      refine ⟨_, hinv.joint, fun q hq => ?_⟩
      rw [update_update_pageOf hv hu hne _ _ hq]
      simp only [MapPc.effect, UnmapPc.effect, hp.and_mask]
    | _ => cases hdone'
  | _ => cases hdone

end

end

/-- One core maps a page while another one maps or unmaps a different page, with any interleaving of
their reads and writes.  If the tables that both ways share stay because of other pages, then after
both calls the tables translate every address as the reference map after both calls does, and every
frame that was a table or free before is one of them still. -/
theorem cores_settle (hs : Reachable space s pages) (hv : PageAligned v) (hp : PageAligned paddr)
    (hpresent : hasFlags options PagingOptions.present = true) (call : Call)
    (hvalid : call.Valid space s pages)
    (hne : v.toNat / pageSize ≠ call.vaddr.toNat / pageSize) (hstay : call.SharedStay v pages)
    (schedule : List Bool) {c : Cores}
    (hc : c = Cores.run ⟨s, Thread.vmap space v paddr options, call.thread space⟩ schedule)
    (hfin : c.Finished) :
    (∀ a : BitVec 64, a.toNat < 2 ^ 48 → (getPhysAddr c.vmm.mem a space).map BitVec.toNat =
      (call.apply (update pages (v.toNat / pageSize) (some paddr))
        (a.toNat / pageSize)).map fun f => f.toNat + a.toNat % pageSize) ∧
    ∀ f, IsTable (rootOf space) s f ∨ f ∈ s.free →
    IsTable (rootOf space) c.vmm f ∨ f ∈ c.vmm.free := by
  have hinv := hs.inv
  have haligned : ∀ n f, update pages (v.toNat / pageSize) (some paddr) n = some f →
    PageAligned f := by
    refine aligned_update hinv.aligned ?_ _
    rintro f ⟨⟩
    exact hp
  cases call with
  | vmap w paddr' options' =>
    obtain ⟨hw, hp', hpresent'⟩ := hvalid
    obtain ⟨ref, hjoint, href⟩ :=
      mapMap_outcome hinv hv hp hpresent hw hp' hpresent' hne hstay hc hfin
    refine hjoint.outcome href (aligned_update haligned ?_ _)
    rintro f ⟨⟩
    exact hp'
  | vunmap u freeFrame =>
    obtain ⟨ref, hjoint, href⟩ := mapUnmap_outcome hinv hv hp hpresent hvalid hne hstay hc hfin
    refine hjoint.outcome href (aligned_update haligned ?_ _)
    rintro f ⟨⟩

/-- Memory of zeros with six free frames. -/
def sixFrames : Vmm :=
  ⟨fun _ _ => 0, [0x1000#64, 0x2000#64, 0x3000#64, 0x4000#64, 0x5000#64, 0x6000#64]⟩

lemma reachable_sixFrames : Reachable 0x10000#64 sixFrames fun _ => none := by
  refine reachable_zero (by decide) ?_ (by decide)
  simp only [forall_mem_cons]
  exact ⟨⟨by decide, by decide⟩, ⟨by decide, by decide⟩, ⟨by decide, by decide⟩,
    ⟨by decide, by decide⟩, ⟨by decide, by decide⟩, ⟨by decide, by decide⟩, by simp⟩

/-- The memory after one page has been mapped. -/
def onePage : Vmm :=
  finalState (vmap 0x10000#64 0x5000#64 0x20000#64 PagingOptions.present) sixFrames

/-- Next to a mapped page two cores map two more pages; their tables are there already. -/
theorem cores_settle_neighbours :
    Reachable 0x10000#64 onePage (update (fun _ => none) 5 (some 0x20000#64)) ∧
    ∃ schedule c, c = Cores.run ⟨onePage,
      Thread.vmap 0x10000#64 0x7000#64 0x21000#64 PagingOptions.present,
        Thread.vmap 0x10000#64 0x8000#64 0x22000#64 PagingOptions.present⟩ schedule ∧
      c.Finished ∧ (getPhysAddr c.vmm.mem 0x7123#64 0x10000#64).map BitVec.toNat =
        some 0x21123 := by
  have hreach : Reachable 0x10000#64 onePage (update (fun _ => none) 5 (some 0x20000#64)) :=
    .vmap reachable_sixFrames ⟨by decide, by decide⟩ ⟨by decide, by decide⟩ (by decide)
      (exec_eq_ok_finalState ⟨_, rfl⟩)
  -- with the tables there, a core tests and reads three entries and writes one
  have hfin :
    (Cores.run ⟨onePage, Thread.vmap 0x10000#64 0x7000#64 0x21000#64 PagingOptions.present,
      Thread.vmap 0x10000#64 0x8000#64 0x22000#64 PagingOptions.present⟩
      (replicate 7 false ++ replicate 7 true)).Finished := ⟨trivial, trivial⟩
  refine ⟨hreach, _, _, rfl, hfin, ?_⟩
  -- the page that is mapped already keeps every table that the two ways share
  have hstay : (Call.vmap 0x8000#64 0x22000#64 PagingOptions.present).SharedStay 0x7000#64
      (update (fun _ => none) 5 (some 0x20000#64)) := by
    intro k h1 h3 _
    refine ⟨0x5000#64, by decide, ?_, by decide⟩
    obtain rfl | rfl | rfl : k = 1 ∨ k = 2 ∨ k = 3 := by omega
    all_goals decide
  have hv : PageAligned 0x7000#64 := ⟨by decide, by decide⟩
  have hp : PageAligned 0x21000#64 := ⟨by decide, by decide⟩
  have hpresent : hasFlags PagingOptions.present PagingOptions.present = true := by decide
  have hsettle := cores_settle hreach hv hp hpresent (.vmap 0x8000#64 0x22000#64 present)
    ⟨⟨by decide, by decide⟩, ⟨by decide, by decide⟩, by decide⟩ (by decide) hstay _ rfl hfin
  exact (hsettle.1 0x7123#64 (by decide)).trans rfl

/-- The memory after a core has populated the root with the frame `f` and mapped its page below. -/
def populated (mem : TableMem) (f : BitVec 64) (free : List (BitVec 64))
    (v paddr : BitVec 64) : Vmm :=
  finalState (vmapBelow (f &&& pteAddrMask) v paddr PagingOptions.present)
    ⟨write (fill mem f 0) 0x10000#64 (index0 v) ((f &&& pteAddrMask) ||| 0b11), free⟩

/-- The memory after a first core that maps a page of the blank address space. -/
def afterFirst : Vmm :=
  populated sixFrames.mem 0x1000#64 [0x2000#64, 0x3000#64, 0x4000#64, 0x5000#64, 0x6000#64]
  0x7000#64 0x20000#64

/-- The memory after a second core that had found the address space blank as well. -/
def afterBoth : Vmm :=
  populated afterFirst.mem 0x4000#64 [0x5000#64, 0x6000#64] 0x8000#64 0x21000#64

/-- Two neighbouring pages are mapped when there are no tables yet.  Both cores find the entry of
the root invalid and populate it, one after the other; the mapping of the first core is lost. -/
theorem cores_lose_table : Reachable 0x10000#64 sixFrames (fun _ => none) ∧ ∃ schedule,
      (Cores.run ⟨sixFrames, Thread.vmap 0x10000#64 0x7000#64 0x20000#64 PagingOptions.present,
        Thread.vmap 0x10000#64 0x8000#64 0x21000#64 PagingOptions.present⟩ schedule).Finished ∧
      getPhysAddr (Cores.run ⟨sixFrames,
        Thread.vmap 0x10000#64 0x7000#64 0x20000#64 PagingOptions.present,
          Thread.vmap 0x10000#64 0x8000#64 0x21000#64 PagingOptions.present⟩ schedule).vmm.mem
        0x7000#64 0x10000#64 = none := by
  -- both cores test the entry, then the first one runs to its end, then the second one
  have h₁ := @populate_steps sixFrames ⟨sixFrames.mem, sixFrames.free.tail⟩ 0x7000#64 0x20000#64
    0x10000#64 0x1000#64
    present rfl ⟨_, rfl⟩
  have h₂ := @populate_steps afterFirst ⟨afterFirst.mem, afterFirst.free.tail⟩ 0x8000#64
    0x21000#64 0x10000#64
    0x4000#64 present rfl ⟨_, rfl⟩
  obtain ⟨schedule, hrun⟩ := exists_run (c := ⟨sixFrames,
    .map 0x7000#64 0x20000#64 present (.alloc 0 0x10000#64),
    .map 0x8000#64 0x21000#64 present (.alloc 0 0x10000#64)⟩) h₁ h₂
  have hrun' :
    Cores.run ⟨sixFrames, Thread.vmap 0x10000#64 0x7000#64 0x20000#64 PagingOptions.present,
      Thread.vmap 0x10000#64 0x8000#64 0x21000#64 PagingOptions.present⟩
      (false :: true :: schedule) = ⟨afterBoth,
        .map 0x7000#64 0x20000#64 present .done,
        .map 0x8000#64 0x21000#64 present .done⟩ := hrun
  refine ⟨reachable_sixFrames, false :: true :: schedule, ?_, ?_⟩
  · rw [hrun']
    exact ⟨trivial, trivial⟩
  · rw [hrun']
    rfl

end CabOS.AArch64
