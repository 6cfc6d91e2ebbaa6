import CabOS.Arch.AArch64.VmmMapThread

/-!
# What a core knows inside `vunmap_internal`

The core walks down to the entry of the page, clears it, and then goes up again and takes out every
table that has become empty.  It stops at the latest at a table of level `D` that has a valid entry
`g` beside the path (`GuardOk`); then it has altered no entry above that level.  As for `vmap`, a
step of the core keeps what it knows (`unmapStep_spec`), and so do the steps of a core that maps
another page, as long as the two paths have parted below the level `D` (`UnmapLoc.stable`).
-/

namespace CabOS.AArch64

open Function List Base StepOk

open TableTree

variable {H : Set Path} {root u f : BitVec 64} {s s' : Vmm} {G data : List (BitVec 64)}
  {ref : Path → Option (BitVec 64)} {p q : Path} {r : Option Path} {P : Option (BitVec 64)}
  {D : ℕ} {g : Fin ptePerPage} {l : ℕ → BitVec 64} {k d : ℕ}

/-! ## Places inside the call -/

namespace UnmapPc

/-- The frames in the hands of the core; `data` is the frame of the page, if the call gives it back.
-/
def held (data : List (BitVec 64)) : UnmapPc → List (BitVec 64)
  | dealloc d l _ => l d :: data
  | done _ => []
  | _ => data

/-- The table that may be empty because the core is looking at it. -/
def exempt (u : BitVec 64) : UnmapPc → Set Path
  | scan d _ _ _ => {(pathOf u).take d}
  | cut d _ _ => {(pathOf u).take d}
  | dealloc d _ _ => {(pathOf u).take (d - 1)}
  | _ => ∅

/-- What the call has done to the pages so far. -/
def effect (u : BitVec 64) (ref : Path → Option (BitVec 64)) : UnmapPc → Path → Option (BitVec 64)
  | check _ _ => ref
  | follow _ _ => ref
  | checkLeaf _ => ref
  | readLeaf _ => ref
  | clear _ _ => ref
  | _ => update ref (pathOf u) none

end UnmapPc

/-- The tables down to level `k` of the path of `u` are those that the core has found. -/
def Walks (root u : BitVec 64) (s : Vmm) (l : ℕ → BitVec 64) (k : ℕ) : Prop :=
  ∀ m ≤ k, walk next s.mem root ((pathOf u).take m) = some (l m)

/-- What a core inside `vunmap_internal` knows; `P` is the frame of the page at the start. -/
def UnmapLoc (root u : BitVec 64) (P : Option (BitVec 64)) (D : ℕ) (g : Fin ptePerPage) (s : Vmm) :
    UnmapPc → Prop
  | .check k l => k ≤ 2 ∧ Walks root u s l k
  | .follow k l => k ≤ 2 ∧ Walks root u s l k ∧ s.mem (l k) (indexAt u k) &&& 0b11 = 0b11
  | .checkLeaf l => Walks root u s l 3
  | .readLeaf l => Walks root u s l 3 ∧ s.mem (l 3) (index3 u) &&& 0b11 = 0b11
  | .clear l a => Walks root u s l 3 ∧ P = some a
  | .scan d j l a => P = some a ∧ (1 ≤ d ∧ d ≤ 3 ∧ D ≤ d) ∧ Walks root u s l d ∧
      (D < d → ∀ j' < j, s.mem (l d) j' &&& 0b11 = 0) ∧ (d = D → j ≤ g)
  | .cut d l a => P = some a ∧ (1 ≤ d ∧ d ≤ 3 ∧ D < d) ∧ Walks root u s l d ∧
    ∀ j, s.mem (l d) j &&& 0b11 = 0
  | .dealloc d l a => P = some a ∧ (1 ≤ d ∧ d ≤ 3 ∧ D < d) ∧ Walks root u s l (d - 1)
  | .finish a => P = some a
  | .done result => result = P

/-- The table at level `D` of the path has a valid entry `g`, unless it is the root. -/
def GuardOk (root u : BitVec 64) (D : ℕ) (g : Fin ptePerPage) (s : Vmm) : Prop :=
  1 ≤ D → ∃ t, walk next s.mem root ((pathOf u).take D) = some t ∧ s.mem t g &&& 0b11 ≠ 0

/-- The entry that a step of `vunmap_internal` alters: none, or the one of the page, or one that
points to a table below the level `D`. -/
def UnmapAlters (u : BitVec 64) (P : Option (BitVec 64)) (D : ℕ) (r : Option Path) : Prop :=
  r = none ∨ P ≠ none ∧ (r = some (pathOf u) ∨ ∃ d, 1 ≤ d ∧ d ≤ 3 ∧ D < d ∧
    r = some ((pathOf u).take d))

/-! ## The steps of the other core -/

section

variable (h : Walks root u s l k)
include h

/-- The tables on the path stay where they are if existing tables do. -/
lemma Walks.stable (hk : k ≤ 3)
    (hsome : ∀ q t, q.length ≤ 3 → walk next s.mem root q = some t →
      walk next s'.mem root q = some t) :
    Walks root u s' l k := by
  intro m hm
  refine hsome _ _ ?_ (h m hm)
  rw [length_take_pathOf u (by omega)]
  omega

/-! ## The steps of the core itself -/

/-- The core goes down one level. -/
lemma Walks.follow (hk : k ≤ 2) (hvalid : s.mem (l k) (indexAt u k) &&& 0b11 = 0b11) :
    Walks root u s (update l (k + 1) (s.mem (l k) (indexAt u k) &&& pteAddrMask)) (k + 1) := by
  intro m hm
  rcases Nat.lt_succ_iff_lt_or_eq.mp (Nat.lt_succ_of_le hm) with hlt | rfl
  · rw [update_of_ne (by omega), h m (by omega)]
  · rw [update_self, take_succ_pathOf u (by omega), walk_concat (h k le_rfl), next_eq_some]
    exact ⟨hvalid, rfl⟩

/-- A missing entry on the way means that the page is not mapped. -/
lemma Walks.unmapped (ht : TreeInv H root s.mem s.free ref) (hk : k ≤ 2)
    (hinvalid : s.mem (l k) (indexAt u k) &&& 0b11 ≠ 0b11) : ref (pathOf u) = none := by
  have hnone : walk next s.mem root ((pathOf u).take (k + 1)) = none := by
    rw [take_succ_pathOf u (by omega), walk_concat (h k le_rfl), next_eq_none]
    exact hinvalid
  rw [pathOf_eq_concat]
  refine ht.unmapped _ _ (length_take_pathOf u (by omega)) (walk_eq_none_of_shorter ?_ hnone)
  exact take_prefix_take_left (by omega)

end

/-- What a core inside `vunmap_internal` knows survives steps that leave the tables where they are
and do not alter the entry of the page or the tables below the level `D`. -/
lemma UnmapLoc.stable {pc : UnmapPc} (h : UnmapLoc root u P D g s pc) (ha : Alters r root s s')
    (hsome : ∀ q t, q.length ≤ 3 → walk next s.mem root q = some t →
      walk next s'.mem root q = some t)
    (hleaf : r ≠ some (pathOf u))
    (hbelow : P ≠ none → ∀ d j, 1 ≤ d → d ≤ 3 → D < d → r ≠ some ((pathOf u).take d ++ [j])) :
    UnmapLoc root u P D g s' pc := by
  have hsame : ∀ d j l a, P = some a → 1 ≤ d → d ≤ 3 → D < d → Walks root u s l d →
      s'.mem (l d) j = s.mem (l d) j := by
    intro d j l a hP h1 h3 hD hw
    refine ha _ _ j ?_ (hw d le_rfl) (hbelow (by simp [hP]) d j h1 h3 hD)
    rw [length_take_pathOf u (by omega)]
    omega
  cases pc with
  | check k l => exact ⟨h.1, h.2.stable (by have := h.1; omega) hsome⟩
  | follow k l =>
    obtain ⟨hk, hw, hvalid⟩ := h
    have hw' := hw.stable (by omega) hsome
    refine ⟨hk, hw', ?_⟩
    -- the entry points to a table, which stays where it is
    have hnext : walk next s.mem root ((pathOf u).take (k + 1)) =
        some (s.mem (l k) (indexAt u k) &&& pteAddrMask) := by
      rw [take_succ_pathOf u (by omega), walk_concat (hw k le_rfl), next_eq_some]
      exact ⟨hvalid, rfl⟩
    have hnext' := hsome _ _ (by rw [length_take_pathOf u (by omega)]; omega) hnext
    rw [take_succ_pathOf u (by omega), walk_concat (hw' k le_rfl), next_eq_some] at hnext'
    exact hnext'.1
  | checkLeaf l => exact Walks.stable h le_rfl hsome
  | readLeaf l =>
    refine ⟨h.1.stable le_rfl hsome, ?_⟩
    rw [ha _ _ _ (by rw [length_take_pathOf u (by omega)]) (h.1 3 le_rfl), h.2]
    exact hleaf
  | clear l a => exact ⟨h.1.stable le_rfl hsome, h.2⟩
  | scan d j l a =>
    obtain ⟨hP, ⟨h1, h3, hD⟩, hw, hbefore, hg⟩ := h
    refine ⟨hP, ⟨h1, h3, hD⟩, hw.stable h3 hsome, fun hlt j' hj' => ?_, hg⟩
    rw [hsame d j' l a hP h1 h3 hlt hw, hbefore hlt j' hj']
  | cut d l a =>
    obtain ⟨hP, ⟨h1, h3, hD⟩, hw, hempty⟩ := h
    refine ⟨hP, ⟨h1, h3, hD⟩, hw.stable h3 hsome, fun j => ?_⟩
    rw [hsame d j l a hP h1 h3 hD hw, hempty j]
  | dealloc d l a =>
    obtain ⟨hP, hd, hw⟩ := h
    exact ⟨hP, hd, hw.stable (by omega) hsome⟩
  | finish a => exact h
  | done result => exact h

/-- The guard stays if its table does and its entry is not altered. -/
lemma GuardOk.stable (h : GuardOk root u D g s) (ha : Alters r root s s') (hD : D ≤ 3)
    (hsome : ∀ m ≤ D, r ≠ some ((pathOf u).take m)) (hg : r ≠ some ((pathOf u).take D ++ [g])) :
    GuardOk root u D g s' := by
  intro h1
  obtain ⟨t, ht, hvalid⟩ := h h1
  have hlen := length_take_pathOf u (show D ≤ 4 by omega)
  refine ⟨t, ?_, ?_⟩
  · rw [ha.walk_eq (by omega) (not_prefix_take (by omega) hsome), ht]
  · rwa [ha _ t g (by omega) ht hg]

/-- Prefixes of the path of different lengths are different. -/
lemma take_pathOf_ne {m : ℕ} (hm : m ≤ 4) (hd : d ≤ 4) (hne : m ≠ d) :
    (pathOf u).take m ≠ (pathOf u).take d := by
  intro heq
  have := congrArg length heq
  rw [length_take_pathOf u hm, length_take_pathOf u hd] at this
  exact hne this

/-- The entry of the page holds what the reference map says. -/
lemma Walks.leaf (h : Walks root u s l 3) (ht : TreeInv H root s.mem s.free ref) :
    (s.mem (l 3) (index3 u) &&& 0b11 = 0 ∨ s.mem (l 3) (index3 u) &&& 0b11 = 0b11) ∧
      ref (pathOf u) = next (s.mem (l 3) (index3 u)) := by
  rw [pathOf_eq_concat]
  exact ht.leaves _ _ _ (length_take_pathOf u (by omega)) (h 3 le_rfl)

/-- The step that clears the entry of the page. -/
lemma Base.clear_step (h : Base (∅ ∪ H) (data ++ G) root s ref) (hw : Walks root u s l 3) :
    StepOk (some (pathOf u)) root data data G s (s.put (l 3) (index3 u) 0) ∧
      Base ({(pathOf u).take 3} ∪ H) (data ++ G) root (s.put (l 3) (index3 u) 0)
        (update ref (pathOf u) none) ∧
      Walks root u (s.put (l 3) (index3 u) 0) l 3 := by
  have hlen := length_take_pathOf u (show 3 ≤ 4 by omega)
  obtain ⟨hb, ha, hwalk⟩ := h.putLeaf (i := index3 u) (e := 0) hlen (hw 3 le_rfl) (.inl (by decide))
  rw [← pathOf_eq_concat] at hb ha
  rw [next_zero, Set.empty_union] at hb
  refine ⟨⟨ha, fun g hg => ?_, ?_⟩, hb, ?_⟩
  · exact h.put_others (by omega) (hw 3 le_rfl) g (mem_append_right _ hg)
  · rintro g (⟨q, hq, hqg⟩ | hg)
    · exact .inl ⟨q, hq, by rw [hwalk q hq, hqg]⟩
    · exact .inr hg
  · exact hw.stable le_rfl fun q t hq ht => by rw [hwalk q hq, ht]

/-- The step that takes the empty table of level `d` out of the tree. -/
lemma Base.cut_step (h : Base ({(pathOf u).take d} ∪ H) (data ++ G) root s ref) (h1 : 1 ≤ d)
    (h3 : d ≤ 3) (hw : Walks root u s l d) (hempty : ∀ j, s.mem (l d) j &&& 0b11 = 0) :
    StepOk (some ((pathOf u).take d)) root data (l d :: data) G s (s.put (l (d - 1))
      (indexAt u (d - 1)) 0) ∧
      Base ({(pathOf u).take (d - 1)} ∪ H)
        (l d :: data ++ G) root (s.put (l (d - 1)) (indexAt u (d - 1)) 0) ref ∧
      Walks root u (s.put (l (d - 1)) (indexAt u (d - 1)) 0) l (d - 1) := by
  obtain ⟨d, rfl⟩ : ∃ n, d = n + 1 := ⟨d - 1, by omega⟩
  rw [Nat.add_sub_cancel]
  have hlen := length_take_pathOf u (show d ≤ 4 by omega)
  have hsplit := take_succ_pathOf u (show d ≤ 3 by omega)
  have ht := hw d (by omega)
  have hc := hw (d + 1) le_rfl
  rw [hsplit] at hc
  obtain ⟨hb, ha, hwalk⟩ := h.cut (by omega) ht hc hempty
  rw [← hsplit] at hb ha hwalk
  refine ⟨⟨ha, fun g hg => ?_, ?_⟩, hb.mono ?_, ?_⟩
  · exact h.put_others (by omega) ht g (mem_append_right _ hg)
  · rintro g (⟨q, hq, hqg⟩ | hg)
    · by_cases hqd : q = (pathOf u).take (d + 1)
      · rw [hqd, hw (d + 1) le_rfl] at hqg
        cases hqg
        exact .inr (mem_append_right _ mem_cons_self)
      · exact .inl ⟨q, hq, by rw [hwalk q hq, if_neg hqd, hqg]⟩
    · refine .inr ?_
      rw [cons_append]
      exact perm_middle.mem_iff.mpr (mem_cons_of_mem _ hg)
  · rintro q (rfl | ⟨rfl | hq, hne⟩)
    · exact .inl rfl
    · exact absurd rfl hne
    · exact .inr hq
  · intro m hm
    rw [hwalk _ (by rw [length_take_pathOf u (by omega)]; omega),
      if_neg (take_pathOf_ne (by omega) (by omega) (by omega)), hw m (by omega)]

/-- The step that gives a frame in hand back. -/
lemma Base.push_step (h : Base H (f :: data ++ G) root s ref) :
    ∃ s', frameDealloc f s = .ok () s' ∧ StepOk none root (f :: data) data G s s' ∧
    Base H (data ++ G) root s' ref ∧
      ∀ q t, q.length ≤ 3 → walk next s.mem root q = some t → walk next s'.mem root q = some t := by
  obtain ⟨s', hs', hb, ha, hfree, hother⟩ := push h
  have hnd := (nodup_append.mp h.loose.nodup).2.1
  rw [cons_append, nodup_cons, mem_append, not_or] at hnd
  refine ⟨s', hs', ⟨ha, fun g hg j => hother g ?_ j, ?_⟩, hb, fun q t hq ht => ?_⟩
  · rintro rfl
    exact hnd.1.2 hg
  · rintro g (hg | hg)
    · exact .inl (ha.isTable hg)
    · refine .inr ?_
      rw [hfree]
      exact perm_middle.mem_iff.mp hg
  · rw [ha.walk_eq (by omega) (by simp), ht]

/-- A step of the scan: either a valid entry is found, or the table turns out empty, which cannot
happen where the guard is, or the scan goes on. -/
lemma UnmapLoc.scan_step {j : Fin ptePerPage} {a : BitVec 64}
    (h : UnmapLoc root u P D g s (.scan d j l a)) (hg : GuardOk root u D g s)
    (hinvalid : s.mem (l d) j &&& 0b11 = 0) :
    UnmapLoc root u P D g s (if j = lastIndex then .cut d l a else .scan d (j + 1) l a) := by
  obtain ⟨hP, ⟨h1, h3, hD⟩, hw, hbefore, hguard⟩ := h
  have hne : d = D → j ≠ g := by
    rintro rfl rfl
    obtain ⟨t, ht, hvalid⟩ := hg h1
    rw [hw d le_rfl] at ht
    cases ht
    exact hvalid hinvalid
  have hupto : D < d → ∀ j' ≤ j, s.mem (l d) j' &&& 0b11 = 0 := by
    intro hlt j' hj'
    rcases eq_or_lt_of_le hj' with rfl | hlt'
    · exact hinvalid
    · exact hbefore hlt j' hlt'
  by_cases hj : j = lastIndex
  · rw [if_pos hj]
    have hlt : D < d := by
      refine lt_of_le_of_ne hD fun heq => hne heq.symm ?_
      have hle : j ≤ g := hguard heq.symm
      exact le_antisymm hle (hj ▸ le_lastIndex g)
    exact ⟨hP, ⟨h1, h3, hlt⟩, hw, fun j' => hupto hlt j' (hj ▸ le_lastIndex j')⟩
  · rw [if_neg hj]
    refine ⟨hP, ⟨h1, h3, hD⟩, hw, fun hlt j' hj' => hupto hlt j' (le_of_lt_succ_index hj hj'),
      fun heq => ?_⟩
    have hlt : j < g := lt_of_le_of_ne (hguard heq) (hne heq)
    rw [Fin.lt_def] at hlt
    rw [Fin.le_def, val_succ_index hj]
    omega

/-- A step of `vunmap_internal` keeps the shared invariant and what the core knows, and alters at
most one entry on its path. -/
lemma unmapStep_spec {freeFrame : Bool} {pc pc' : UnmapPc} (hD : D ≤ 3) (href : ref (pathOf u) = P)
    (hdata : data = if freeFrame then P.toList else [])
    (h : Base (pc.exempt u ∪ H) (pc.held data ++ G) root s (pc.effect u ref))
    (hl : UnmapLoc root u P D g s pc) (hg : GuardOk root u D g s)
    (hstep : unmapStep u freeFrame pc s = some (pc', s')) :
    ∃ r, StepOk r root (pc.held data) (pc'.held data) G s s' ∧ UnmapAlters u P D r ∧
      Base (pc'.exempt u ∪ H) (pc'.held data ++ G) root s' (pc'.effect u ref) ∧
      UnmapLoc root u P D g s' pc' := by
  -- a call for a page that is not mapped returns without having changed anything
  have hreturn : P = none → Base (∅ ∪ H) (data ++ G) root s ref →
      StepOk none root data [] G s s ∧
      Base (∅ ∪ H) ([] ++ G) root s (update ref (pathOf u) none) := by
    intro hP hb
    have hnil : data = [] := by simp [hdata, hP]
    have hupd : update ref (pathOf u) none = ref := by
      rw [← hP, ← href, update_eq_self]
    rw [hnil] at hb ⊢
    rw [hupd]
    exact ⟨refl _ _ _, hb⟩
  cases pc with
  | check k l =>
    cases hstep
    obtain ⟨hk, hw⟩ := hl
    by_cases hvalid : s.mem (l k) (indexAt u k) &&& 0b11 = 0b11
    · rw [if_neg (not_not.mpr hvalid)]
      exact ⟨none, refl _ _ _, .inl rfl, h, hk, hw, hvalid⟩
    · rw [if_pos hvalid]
      have hP : P = none := href.symm.trans (hw.unmapped h.tree hk hvalid)
      obtain ⟨hok, hb⟩ := hreturn hP h
      exact ⟨none, hok, .inl rfl, hb, hP.symm⟩
  | follow k l =>
    cases hstep
    obtain ⟨hk, hw, hvalid⟩ := hl
    have hw' := hw.follow hk hvalid
    by_cases hk2 : k < 2
    · rw [if_pos hk2]
      exact ⟨none, refl _ _ _, .inl rfl, h, by omega, hw'⟩
    · rw [if_neg hk2]
      obtain rfl : k = 2 := by omega
      exact ⟨none, refl _ _ _, .inl rfl, h, hw'⟩
  | checkLeaf l =>
    cases hstep
    obtain ⟨hflags, hnext⟩ := Walks.leaf hl h.tree
    by_cases hinvalid : s.mem (l 3) (index3 u) &&& 0b11 = 0
    · rw [if_pos hinvalid]
      have hP : P = none := href.symm.trans (hnext.trans (next_of_invalid hinvalid))
      obtain ⟨hok, hb⟩ := hreturn hP h
      exact ⟨none, hok, .inl rfl, hb, hP.symm⟩
    · rw [if_neg hinvalid]
      exact ⟨none, refl _ _ _, .inl rfl, h, hl, hflags.resolve_left hinvalid⟩
  | readLeaf l =>
    cases hstep
    obtain ⟨-, hnext⟩ := hl.1.leaf h.tree
    exact ⟨none, refl _ _ _, .inl rfl, h, hl.1,
      href.symm.trans (hnext.trans (next_eq_some.mpr ⟨hl.2, rfl⟩))⟩
  | clear l a =>
    cases hstep
    obtain ⟨hw, hP⟩ := hl
    obtain ⟨hok, hb, hw'⟩ := clear_step h hw
    refine ⟨_, hok, .inr ⟨by simp [hP], .inl rfl⟩, hb, hP, ⟨by omega, le_rfl, hD⟩, hw',
      fun _ j' hj' => absurd hj' (Nat.not_lt_zero _), fun _ => Nat.zero_le _⟩
  | scan d j l a =>
    cases hstep
    by_cases hinvalid : s.mem (l d) j &&& 0b11 = 0
    · rw [if_neg (not_not.mpr hinvalid)]
      have hloc := hl.scan_step hg hinvalid
      by_cases hj : j = lastIndex
      · rw [if_pos hj] at hloc ⊢
        exact ⟨none, refl _ _ _, .inl rfl, h, hloc⟩
      · rw [if_neg hj] at hloc ⊢
        exact ⟨none, refl _ _ _, .inl rfl, h, hloc⟩
    · rw [if_pos hinvalid]
      obtain ⟨hP, -, hw, -⟩ := hl
      exact ⟨none, refl _ _ _, .inl rfl,
        (release h (hw d le_rfl) hinvalid).mono Set.subset_union_right, hP⟩
  | cut d l a =>
    cases hstep
    obtain ⟨hP, ⟨h1, h3, hDd⟩, hw, hempty⟩ := hl
    obtain ⟨hok, hb, hw'⟩ := cut_step h h1 h3 hw hempty
    exact ⟨_, hok, .inr ⟨by simp [hP], .inr ⟨d, h1, h3, hDd, rfl⟩⟩, hb, hP, ⟨h1, h3, hDd⟩, hw'⟩
  | dealloc d l a =>
    obtain ⟨hP, ⟨h1, h3, hDd⟩, hw⟩ := hl
    obtain ⟨s₁, hs₁, hok, hb, hsome⟩ := push_step h
    simp only [unmapStep, hs₁] at hstep
    cases hstep
    by_cases hd : d = 1
    · rw [if_pos hd]
      refine ⟨none, hok, .inl rfl, ?_, hP⟩
      refine ⟨hb.tree.restrict fun q t _ hne hq hq' _ => ?_, hb.loose⟩
      rw [UnmapPc.exempt, hd] at hq'
      exact absurd (hq'.resolve_right fun hqH => hq (.inr hqH)) hne
    · rw [if_neg hd]
      refine ⟨none, hok, .inl rfl, hb, hP, ⟨by omega, by omega, by omega⟩,
        hw.stable (by omega) hsome, fun _ j' hj' => absurd hj' (Nat.not_lt_zero _),
        fun _ => Nat.zero_le _⟩
  | finish a =>
    have hP : P = some a := hl
    cases hf : freeFrame with
    | false =>
      simp only [unmapStep, hf, Bool.false_eq_true, if_false] at hstep
      cases hstep
      have hnil : data = [] := by simp [hdata, hf]
      subst hnil
      exact ⟨none, refl _ _ _, .inl rfl, h, hP.symm⟩
    | true =>
      have hcons : data = [a] := by simp [hdata, hf, hP]
      subst hcons
      obtain ⟨s₁, hs₁, hok, hb, -⟩ := push_step h
      simp only [unmapStep, hf, if_true, hs₁] at hstep
      cases hstep
      exact ⟨none, hok, .inl rfl, hb, hP.symm⟩
  | done result => cases hstep

end CabOS.AArch64
