import CabOS.Arch.AArch64.VmmInterference

/-!
# What a core knows inside `vmap`

For every place inside `vmap`, `MapLoc` says what the core knows there about the tables on its path.
A step of the core keeps this and the shared invariant and alters at most one entry on the path
(`mapStep_spec`), and a step of another core keeps it as long as it stays off the path
(`MapLoc.stable`).
-/

namespace CabOS.AArch64

open TableTree List Function Vmm PagingOptions Set Base

variable {H : Set Path} {root t u f : BitVec 64} {s s' : Vmm} {G L L' : List (BitVec 64)}
  {ref : Path → Option (BitVec 64)} {p q : Path} {r : Option Path} {i : Fin ptePerPage}
  {e : BitVec 64} {v : BitVec 64} {options : PagingOptions} {k : ℕ}

/-- What a step of one core does, seen by the others, who hold the frames `G`: at most the entry at
`r` has changed, the frames of the others are as they were, and no frame is lost. -/
structure StepOk (r : Option Path) (root : BitVec 64) (L L' G : List (BitVec 64)) (s s' : Vmm) :
    Prop where
  alters : Alters r root s s'
  others : ∀ g ∈ G, ∀ j, s'.mem g j = s.mem g j
  kept : ∀ f, Accounted root s (L ++ G) f → Accounted root s' (L' ++ G) f

lemma StepOk.refl (L G : List (BitVec 64)) (s : Vmm) : StepOk none root L L G s s where
  alters _ _ _ _ _ _ := rfl
  others _ _ _ := rfl
  kept _ hf := hf

/-- Tables stay tables where the tree is not altered. -/
lemma Alters.isTable (h : Alters none root s s') (hf : IsTable root s f) : IsTable root s' f := by
  obtain ⟨q, hq, hw⟩ := hf
  exact ⟨q, hq, by rw [h.walk_eq (by omega) (by simp), hw]⟩

/-! ## Places inside the call -/

namespace MapPc

/-- The frames in the hands of the core. -/
def held : MapPc → List (BitVec 64)
  | zero _ _ f _ => [f]
  | attach _ _ f => [f]
  | _ => []

/-- The table that may be empty because the core is filling it. -/
def exempt (v : BitVec 64) : MapPc → Set Path
  | check k _ => {(pathOf v).take k}
  | alloc k _ => {(pathOf v).take k}
  | zero k _ _ _ => {(pathOf v).take k}
  | attach k _ _ => {(pathOf v).take k}
  | reread k _ => {(pathOf v).take (k + 1)}
  | leaf _ => {(pathOf v).take 3}
  | done => ∅

/-- What the call has done to the pages so far. -/
def effect (v paddr : BitVec 64) (ref : Path → Option (BitVec 64)) :
    MapPc → Path → Option (BitVec 64)
  | done => Function.update ref (pathOf v) (some (paddr &&& pteAddrMask))
  | _ => ref

end MapPc

/-- The core is at level `k` of the path of `v`, in the table `t`. -/
def AtLevel (root v : BitVec 64) (s : Vmm) (k : ℕ) (t : BitVec 64) : Prop :=
  k ≤ 2 ∧ walk next s.mem root ((pathOf v).take k) = some t

/-- What a core inside `vmap` knows. -/
def MapLoc (root v : BitVec 64) (s : Vmm) : MapPc → Prop
  | .check k t => AtLevel root v s k t
  | .alloc k t => AtLevel root v s k t ∧ s.mem t (indexAt v k) &&& 0b11 = 0
  | .zero k t f j => AtLevel root v s k t ∧ s.mem t (indexAt v k) &&& 0b11 = 0 ∧
    ∀ j' < j, s.mem f j' = 0
  | .attach k t f => AtLevel root v s k t ∧ s.mem t (indexAt v k) &&& 0b11 = 0 ∧ ∀ j, s.mem f j = 0
  | .reread k t => AtLevel root v s k t ∧ s.mem t (indexAt v k) &&& 0b11 = 0b11
  | .leaf t => walk next s.mem root ((pathOf v).take 3) = some t
  | .done => True

/-- The entry that a step of `vmap` alters: none, or an invalid entry above the last level, or the
entry of the page, which is then valid. -/
def MapAlters (root v : BitVec 64) (s s' : Vmm) (r : Option Path) : Prop :=
  r = none ∨ (∃ k ≤ 2, r = some ((pathOf v).take (k + 1)) ∧
    walk next s.mem root ((pathOf v).take (k + 1)) = none) ∨
    r = some (pathOf v) ∧ ∀ t, walk next s.mem root ((pathOf v).take 3) = some t →
    s'.mem t (index3 v) &&& 0b11 = 0b11

/-- A path that is no part of the path of `v` is not on the way to its tables. -/
lemma not_prefix_take (hk : k ≤ 4) (hr : ∀ m ≤ k, r ≠ some ((pathOf v).take m)) :
    ∀ r', r = some r' → ¬ r' <+: (pathOf v).take k := by
  rintro r' rfl hpre
  refine hr r'.length ?_ ?_
  · have := hpre.length_le
    rwa [length_take_pathOf v hk] at this
  · rw [← prefix_iff_eq_take.mp (hpre.trans ( take_prefix _ _))]

/-- What is known about the entry at level `k` survives steps that leave the path alone. -/
lemma AtLevel.stable (h : AtLevel root v s k t) (ha : Alters r root s s')
    (hr : ∀ m ≤ 4, r ≠ some ((pathOf v).take m)) :
    AtLevel root v s' k t ∧ s'.mem t (indexAt v k) = s.mem t (indexAt v k) := by
  obtain ⟨hk, ht⟩ := h
  have hlen := length_take_pathOf v (show k ≤ 4 by omega)
  refine ⟨⟨hk, ?_⟩, ?_⟩
  · rw [ha.walk_eq (by omega) (not_prefix_take (by omega) fun m hm => hr m (by omega)), ht]
  · refine ha _ t _ (by omega) ht ?_
    rw [← take_succ_pathOf v (by omega)]
    exact hr (k + 1) (by omega)

/-- What a core inside `vmap` knows survives steps that leave its path and its frames alone. -/
lemma MapLoc.stable {pc : MapPc} (h : MapLoc root v s pc) (ha : Alters r root s s')
    (hr : ∀ m ≤ 4, r ≠ some ((pathOf v).take m))
    (hheld : ∀ g ∈ pc.held, ∀ j, s'.mem g j = s.mem g j) : MapLoc root v s' pc := by
  cases pc with
  | check k t => exact (AtLevel.stable h ha hr).1
  | alloc k t =>
    obtain ⟨h1, e1⟩ := AtLevel.stable h.1 ha hr
    exact ⟨h1, by rw [e1, h.2]⟩
  | zero k t f j =>
    obtain ⟨h1, e1⟩ := AtLevel.stable h.1 ha hr
    refine ⟨h1, by rw [e1, h.2.1], fun j' hj' => ?_⟩
    rw [hheld f (by simp [MapPc.held]), h.2.2 j' hj']
  | attach k t f =>
    obtain ⟨h1, e1⟩ := AtLevel.stable h.1 ha hr
    refine ⟨h1, by rw [e1, h.2.1], fun j' => ?_⟩
    rw [hheld f (by simp [MapPc.held]), h.2.2 j']
  | reread k t =>
    obtain ⟨h1, e1⟩ := AtLevel.stable h.1 ha hr
    exact ⟨h1, by rw [e1, h.2]⟩
  | leaf t =>
    have hlen := length_take_pathOf v (show 3 ≤ 4 by omega)
    rw [MapLoc, ha.walk_eq (by omega) (not_prefix_take (by omega) fun m hm => hr m (by omega)), h]
  | done => trivial

/-- A step of `vmap` leaves the tables that exist where they are. -/
lemma MapAlters.walk_eq (h : MapAlters root v s s' r) (ha : Alters r root s s')
    (hq : q.length ≤ 3) (hsome : walk next s.mem root q = some t) :
    walk next s'.mem root q = some t := by
  rw [ha.walk_eq (by omega), hsome]
  rintro r' rfl hpre
  rcases h with h | ⟨k, -, h, hnone⟩ | ⟨h, -⟩
  · cases h
  · cases h
    rw [walk_eq_none_of_shorter hpre hnone] at hsome
    cases hsome
  · cases h
    have := hpre.length_le
    rw [length_pathOf] at this
    omega

/-! ## The steps of the core itself -/

/-- Writing an entry of a table of the tree does not touch the frames in hand. -/
lemma Base.put_others (h : Base H L root s ref) (hp : p.length ≤ 3)
    (ht : walk next s.mem root p = some t) : ∀ g ∈ L, ∀ j, (s.put t i e).mem g j = s.mem g j :=
  fun _ hg _ => write_of_ne (.inl (h.ne_of_mem hg hp ht))

/-- The step from an invalid entry at level `k`: the entry is altered, and the new table is in its
place. -/
lemma Base.attach_step (h : Base ({(pathOf v).take k} ∪ H) (f :: G) root s ref)
    (hl : AtLevel root v s k t)
    (hinvalid : s.mem t (indexAt v k) &&& 0b11 = 0) (hzero : ∀ j, s.mem f j = 0) :
    StepOk (some ((pathOf v).take (k + 1))) root [f]
    [] G s (s.put t (indexAt v k) ((f &&& pteAddrMask) ||| 0b11)) ∧
      walk next s.mem root ((pathOf v).take (k + 1)) = none ∧
      Base ({(pathOf v).take (k + 1)} ∪ H) G root (s.put t (indexAt v k)
        ((f &&& pteAddrMask) ||| 0b11)) ref ∧
      MapLoc root v (s.put t (indexAt v k) ((f &&& pteAddrMask) ||| 0b11)) (.reread k t) := by
  obtain ⟨hk, ht⟩ := hl
  have hlen := length_take_pathOf v (show k ≤ 4 by omega)
  obtain ⟨hb, ha, hw⟩ := h.attach hzero (by omega) ht hinvalid
  rw [← take_succ_pathOf v (by omega)] at hb ha hw
  have hnone : walk next s.mem root ((pathOf v).take (k + 1)) = none := by
    rw [take_succ_pathOf v (by omega), walk_concat ht, next_of_invalid hinvalid]
  have hne : (pathOf v).take k ≠ (pathOf v).take (k + 1) := by
    intro heq
    have := congrArg length heq
    rw [hlen, length_take_pathOf v (by omega)] at this
    omega
  refine ⟨⟨ha, fun g hg => ?_, fun g hg => ?_⟩, hnone, hb.mono ?_, ⟨hk, ?_⟩, ?_⟩
  · exact h.put_others (by omega) ht g (mem_cons_of_mem f hg)
  · rcases hg with ⟨q, hq, hqg⟩ | hg
    · refine .inl ⟨q, hq, ?_⟩
      rw [hw q hq, if_neg, hqg]
      rintro rfl
      rw [hnone] at hqg
      cases hqg
    · rw [singleton_append, mem_append, mem_cons] at hg
      rcases hg with hg | rfl | hg
      · exact .inr (mem_append_left _ hg)
      · refine .inl ⟨(pathOf v).take (k + 1), ?_, ?_⟩
        · rw [length_take_pathOf v (by omega)]
          omega
        · rw [hw _ (by rw [length_take_pathOf v (by omega)]; omega), if_pos rfl]
      · exact .inr (mem_append_right _ hg)
  · rintro q (rfl | ⟨rfl | hq, hqne⟩)
    · exact .inl rfl
    · exact absurd rfl hqne
    · exact .inr hq
  · rw [hw _ (by omega), if_neg hne, ht]
  · rw [put_self, entry_and_flags]
    decide

/-- The step that writes the entry of the page. -/
lemma Base.leaf_step (paddr : BitVec 64) (h : Base ({(pathOf v).take 3} ∪ H) G root s ref)
    (hpresent : hasFlags options present) (ht : walk next s.mem root ((pathOf v).take 3) = some t) :
    StepOk (some (pathOf v)) root [] [] G s (s.put t (index3 v)
        ((paddr &&& pteAddrMask) ||| createAarch64Attributes options)) ∧
      Base (∅ ∪ H) G root (s.put t (index3 v)
        ((paddr &&& pteAddrMask) ||| createAarch64Attributes options))
        (update ref (pathOf v) (some (paddr &&& pteAddrMask))) ∧
      (s.put t (index3 v) ((paddr &&& pteAddrMask) ||| createAarch64Attributes options)).mem
        t (index3 v) &&& 0b11 = 0b11 := by
  set e := (paddr &&& pteAddrMask) ||| createAarch64Attributes options with he
  have hlen := length_take_pathOf v (show 3 ≤ 4 by omega)
  have hflags : e &&& 0b11 = 0b11 := by
    rw [he, entry_and_flags, attributes_and_flags hpresent]
  have hnext : next e = some (paddr &&& pteAddrMask) := next_entry hpresent paddr
  obtain ⟨hb, ha, hw⟩ := h.putLeaf (i := index3 v) hlen ht (.inr hflags)
  rw [← pathOf_eq_concat, hnext] at hb
  rw [← pathOf_eq_concat] at ha
  have hvalid : (s.put t (index3 v) e).mem t (index3 v) &&& 0b11 = 0b11 := by
    rw [put_self, hflags]
  refine ⟨⟨ha, h.put_others (by omega) ht, ?_⟩, ?_, hvalid⟩
  · rintro g (⟨q, hq, hqg⟩ | hg)
    · exact .inl ⟨q, hq, by rw [hw q hq, hqg]⟩
    · exact .inr hg
  · rw [singleton_union, insert_idem] at hb
    rw [empty_union]
    exact hb.release (by rw [hw _ (by omega), ht]) (by rw [hvalid]; decide)

/-- A step of `vmap` keeps the shared invariant and what the core knows, and alters at most one
entry on its path. -/
lemma mapStep_spec {paddr : BitVec 64} {pc pc' : MapPc} (hpresent : hasFlags options present)
    (h : Base (pc.exempt v ∪ H) (pc.held ++ G) root s (pc.effect v paddr ref))
    (hl : MapLoc root v s pc)
    (hstep : mapStep v paddr options pc s = some (pc', s')) :
    ∃ r, StepOk r root pc.held pc'.held G s s' ∧ MapAlters root v s s' r ∧
      Base (pc'.exempt v ∪ H) (pc'.held ++ G) root s' (pc'.effect v paddr ref) ∧
      MapLoc root v s' pc' := by
  cases pc with
  | check k t =>
    cases hstep
    obtain ⟨hk, ht⟩ := hl
    have hlen := length_take_pathOf v (show k ≤ 4 by omega)
    rcases h.tree.entries _ t (indexAt v k) (by omega) ht with hinvalid | hvalid
    · rw [if_pos hinvalid]
      exact ⟨none, StepOk.refl _ _ _, .inl rfl, h, ⟨hk, ht⟩, hinvalid⟩
    · have hne : s.mem t (indexAt v k) &&& 0b11 ≠ 0 := by
        rw [hvalid]
        decide
      rw [if_neg hne]
      refine ⟨none, StepOk.refl _ _ _, .inl rfl, ?_, ⟨hk, ht⟩, hvalid⟩
      exact (release h ht hne).mono subset_union_right
  | alloc k t =>
    unfold mapStep at hstep
    cases hf : frameAlloc s with
    | error e s₁ => simp [hf] at hstep
    | ok f s₁ =>
      simp only [hf] at hstep
      cases hstep
      obtain ⟨hmem, hfree, hb⟩ := pop h hf
      refine ⟨none, ⟨fun _ _ _ _ _ _ => by rw [hmem], fun _ _ _ => by rw [hmem], ?_⟩, .inl rfl, hb,
        ⟨hl.1.1, ?_⟩, ?_, fun j' hj' => absurd hj' (Nat.not_lt_zero _)⟩
      · rintro g (⟨q, hq, hqg⟩ | hg)
        · exact .inl ⟨q, hq, by rw [hmem, hqg]⟩
        · rw [hfree] at hg
          exact .inr (perm_middle.mem_iff.mpr hg)
      · rw [hmem, hl.1.2]
      · rw [hmem, hl.2]
  | zero k t f j =>
    cases hstep
    have hfG : f ∈ [f] ++ G := by simp
    obtain ⟨hat, hinvalid, hzero⟩ := hl
    have hk := hat.1
    have hlen := length_take_pathOf v (show k ≤ 4 by omega)
    have hft : t ≠ f := (h.ne_of_mem hfG (by omega) hat.2).symm
    obtain ⟨hb, ha⟩ := h.putLoose (i := j) (e := 0) hfG
    have hnd : f ∉ G := by
      have := (nodup_append.mp h.loose.nodup).2.1
      exact (nodup_cons.mp this).1
    have hok : StepOk none root [f] [f] G s (s.put f j 0) := by
      refine ⟨ha, fun g hg j' => put_of_ne (.inl ?_), ?_⟩
      · rintro rfl
        exact hnd hg
      · rintro g (hg | hg)
        · exact .inl (ha.isTable hg)
        · exact .inr hg
    have hat' : AtLevel root v (s.put f j 0) k t :=
      ⟨hat.1, by rw [ha.walk_eq (by omega) (by simp), hat.2]⟩
    have hinvalid' : (s.put f j 0).mem t (indexAt v k) &&& 0b11 = 0 := by
      rw [put_of_ne (.inl hft), hinvalid]
    have hzero' := put_zero_upto hzero
    by_cases hj : j = lastIndex
    · rw [if_pos hj]
      exact ⟨none, hok, .inl rfl, hb, hat', hinvalid', fun j' => hzero' j' (hj ▸ le_lastIndex j')⟩
    · rw [if_neg hj]
      exact ⟨none, hok, .inl rfl, hb, hat', hinvalid',
        fun j' hj' => hzero' j' (le_of_lt_succ_index hj hj')⟩
  | attach k t f =>
    cases hstep
    obtain ⟨hok, hnone, hb, hloc⟩ := attach_step h hl.1 hl.2.1 hl.2.2
    exact ⟨_, hok, .inr (.inl ⟨k, hl.1.1, rfl, hnone⟩), hb, hloc⟩
  | reread k t =>
    cases hstep
    obtain ⟨⟨hk, ht⟩, hvalid⟩ := hl
    have hw : walk next s.mem root ((pathOf v).take (k + 1)) =
      some (s.mem t (indexAt v k) &&& pteAddrMask) := by
      rw [take_succ_pathOf v (by omega), walk_concat ht, next_eq_some]
      exact ⟨hvalid, rfl⟩
    by_cases hk2 : k < 2
    · rw [if_pos hk2]
      exact ⟨none, StepOk.refl _ _ _, .inl rfl, h, by omega, hw⟩
    · rw [if_neg hk2]
      obtain rfl : k = 2 := by omega
      exact ⟨none, StepOk.refl _ _ _, .inl rfl, h, hw⟩
  | leaf t =>
    cases hstep
    obtain ⟨hok, hb, hvalid⟩ := leaf_step paddr h hpresent hl
    refine ⟨_, hok, .inr (.inr ⟨rfl, fun u hu => ?_⟩), hb, trivial⟩
    rw [hl] at hu
    cases hu
    exact hvalid
  | done => cases hstep

end CabOS.AArch64
