import CabOS.Library.Tiling
import CabOS.Memory.VirtualMemoryInv

/-!
# Kernel ranges at a fixed base

A request for a fixed base looks for the free entry between the active entries around the base.  If
the base is in the range of the container and not inside of an active entry, a request that is
granted gets the range that it has asked for, which was free, and active and free entries divide the
range again.  If not, a granted request has got something else, so that the condition is exact
(`new_fixed_iff`): a base inside of an active entry is moved behind that entry (`fixed_base_moved`).
-/

namespace CabOS

open VirtualMemoryAllocation List Option

namespace VirtualMemoryEntry

/-- The first address and the length of an entry. -/
def tile (e : VirtualMemoryEntry) : ℕ × ℕ := (e.base, e.length)

end VirtualMemoryEntry

namespace VirtualMemoryEntryContainer

variable {c c' : VirtualMemoryEntryContainer} {base length : ℕ} {e f : VirtualMemoryEntry}
  {options : PagingOptions}
  {a : VirtualMemoryAllocation}

/-- The active and the free entries, as intervals. -/
def tiles (c : VirtualMemoryEntryContainer) : List (ℕ × ℕ) :=
  c.active.toList.map VirtualMemoryEntry.tile ++ c.free.toList.map VirtualMemoryEntry.tile

/-- Active and free entries divide the range. -/
def TilesRange (c : VirtualMemoryEntryContainer) : Prop := IsTiling (Set.Ico c.low c.high) c.tiles

/-- The addresses that are not in use. -/
def freeAddresses (c : VirtualMemoryEntryContainer) : Set ℕ := {x | ∃ f ∈ c.free, x ∈ f.range}

/-- A base in the range that is not inside of an active entry. -/
structure FixedOk (c : VirtualMemoryEntryContainer) (base : ℕ) : Prop where
  low : c.low ≤ base
  high : base ≤ c.high
  outside : ∀ a ∈ c.active, base ≤ a.base ∨ a.base + a.length ≤ base

section

variable (hc : c.TilesRange)
include hc

/-- The entries are in the range. -/
lemma TilesRange.entry_in (he : e ∈ c.active ∨ e ∈ c.free) :
    0 < e.length ∧ c.low ≤ e.base ∧ e.base + e.length ≤ c.high := by
  have hmem : e.tile ∈ c.tiles :=
    mem_append.mpr (he.imp (fun h => List.mem_map_of_mem h) fun h => List.mem_map_of_mem h)
  have hpos : 0 < e.length := hc.pos _ hmem
  have hfirst :=
    hc.subset hmem (show e.base ∈ interval e.tile from ⟨le_rfl, Nat.lt_add_of_pos_right hpos⟩)
  have hlast := hc.subset hmem
    (show e.base + e.length - 1 ∈
      interval e.tile by simp only [interval, VirtualMemoryEntry.tile, Set.mem_Ico]; omega)
  rw [Set.mem_Ico] at hfirst hlast
  omega

/-- A free address is in the range and in no active entry. -/
lemma TilesRange.not_active_of_free {x : ℕ} (hx : x ∈ c.freeAddresses) {a : VirtualMemoryEntry}
    (ha : a ∈ c.active) :
    x ∉ a.range := by
  obtain ⟨f, hf, hxf⟩ := hx
  have hdisjoint := (pairwise_append.mp hc.disjoint).2.2 a.tile (List.mem_map_of_mem ha) f.tile
    (List.mem_map_of_mem hf)
  exact Set.disjoint_right.mp hdisjoint hxf

/-- A base that is free is one that can be asked for. -/
lemma TilesRange.fixedOk_of_free (hbase : base ∈ c.freeAddresses) : c.FixedOk base := by
  obtain ⟨f, hf, hlow, hhigh⟩ := id hbase
  have hin := hc.entry_in (.inr hf)
  refine ⟨by omega, by omega, fun a ha => ?_⟩
  have hout := hc.not_active_of_free hbase ha
  rw [VirtualMemoryEntry.range, Set.mem_Ico] at hout
  omega

end

/-- The container after a free entry was cut at a base and the part from the base on was taken out.
-/
def cutAt (c : VirtualMemoryEntryContainer) (f : VirtualMemoryEntry) (base : ℕ) :
    VirtualMemoryEntryContainer :=
  if f.base < base then { c with free := (c.free.erase f).insert ⟨f.base, base - f.base, 0⟩ }
  else { c with free := c.free.erase f }

/-- The end of the active entry below a base. -/
def bottomOf (c : VirtualMemoryEntryContainer) (base : ℕ) : ℕ :=
  (c.active.below base).elim c.low fun entry => wadd entry.base entry.length

/-- The start of the active entry above a base. -/
def topOf (c : VirtualMemoryEntryContainer) (base : ℕ) : ℕ :=
  (c.active.lowerBound base).elim c.high VirtualMemoryEntry.base

/-- What is taken out is the free entry between the two active ones, without its part below the
base. -/
lemma takeFixed_run : takeFixed base c =
      (c.free.find (toLex (wsub (c.topOf base) (c.bottomOf base), c.bottomOf base))).elim
        (.error "fixed mapping attempted at unavailable base" c) fun f =>
          if f.base < base then
            .ok ⟨base, wsub f.length (wsub base f.base), f.options⟩
              { c with free := (c.free.erase f).insert ⟨f.base, wsub base f.base, 0⟩ }
          else .ok f { c with free := c.free.erase f } := by
  unfold bottomOf topOf
  cases hbelow : c.active.below base <;> cases habove : c.active.lowerBound base
  all_goals
    simp only [takeFixed, exec_bind, exec_get, hbelow, habove, elim_none, elim_some]
    generalize c.free.find (toLex (_, _)) = found
    cases found with
    | none => rfl
    | some f => simp only [exec_ite, exec_bind, exec_set, exec_pure, elim_some]

/-- The tiles without a free entry that was erased. -/
lemma tiles_erase_perm (hf : f ∈ c.free) :
    c.tiles.Perm (f.tile :: { c with free := c.free.erase f }.tiles) := by
  have hfree : (c.free.toList.map VirtualMemoryEntry.tile).Perm
      (f.tile :: (c.free.toList.erase f).map VirtualMemoryEntry.tile) :=
    (perm_cons_erase hf).map VirtualMemoryEntry.tile
  exact (hfree.append_left _).trans perm_middle

/-- The tiles with a new free entry. -/
lemma tiles_insert_free_perm (e : VirtualMemoryEntry) :
    (e.tile :: c.tiles).Perm { c with free := c.free.insert e }.tiles := by
  have hfree : (e.tile :: c.free.toList.map VirtualMemoryEntry.tile).Perm
      ((c.free.insert e).toList.map VirtualMemoryEntry.tile) :=
    ((c.free.toList_insert_perm e).map VirtualMemoryEntry.tile).symm
  exact perm_middle.symm.trans (hfree.append_left _)

/-- The tiles with a new active entry. -/
lemma tiles_insert_active_perm (e : VirtualMemoryEntry) :
    (e.tile :: c.tiles).Perm { c with active := c.active.insert e }.tiles := by
  have hactive : (e.tile :: c.active.toList.map VirtualMemoryEntry.tile).Perm
      ((c.active.insert e).toList.map VirtualMemoryEntry.tile) :=
    ((c.active.toList_insert_perm e).map VirtualMemoryEntry.tile).symm
  exact hactive.append_right _

section

variable (hc : c.TilesRange)
include hc

/-- The active entry below the base ends at the base or before it. -/
lemma TilesRange.bottomOf_le (hhigh : c.high < usizeBound) (hok : c.FixedOk base) :
    c.bottomOf base ≤ base := by
  unfold bottomOf
  cases hbelow : c.active.below base with
  | none => exact hok.low
  | some a =>
    obtain ⟨ha, hlt, -⟩ := SortedTree.below_eq_some hbelow
    have hin := hc.entry_in (.inl ha)
    have hend : wadd a.base a.length = a.base + a.length := wadd_eq (by omega)
    rw [elim_some, hend]
    exact (hok.outside a ha).resolve_left (by omega)

/-- The active entry above the base starts at the base or behind it, below the end of the range. -/
lemma TilesRange.le_topOf (hok : c.FixedOk base) : base ≤ c.topOf base ∧ c.topOf base ≤ c.high := by
  unfold topOf
  cases habove : c.active.lowerBound base with
  | none => exact ⟨hok.high, le_rfl⟩
  | some a =>
    obtain ⟨ha, hle, -⟩ := SortedTree.lowerBound_eq_some habove
    have hin := hc.entry_in (.inl ha)
    exact ⟨hle, by rw [elim_some]; omega⟩

/-- The free entry that is taken out contains the base, or ends there. -/
lemma takeFixed_eq (hhigh : c.high < usizeBound) (hok : c.FixedOk base)
    (h : takeFixed base c = .ok e c') :
    ∃ f ∈ c.free, f.base ≤ base ∧ base ≤ f.base + f.length ∧ e.base = base ∧
    e.length = f.base + f.length - base ∧
      c' = c.cutAt f base := by
  have hbottom := hc.bottomOf_le hhigh hok
  obtain ⟨htop, hend⟩ := hc.le_topOf hok
  have hlength : wsub (c.topOf base) (c.bottomOf base) = c.topOf base - c.bottomOf base :=
    wsub_eq (by omega) (by omega)
  rw [takeFixed_run] at h
  cases hfind : c.free.find (toLex (wsub (c.topOf base) (c.bottomOf base), c.bottomOf base)) with
  | none =>
    rw [hfind] at h
    cases h
  | some f =>
    obtain ⟨hf, hkey⟩ := SortedTree.find_eq_some hfind
    rw [VirtualMemoryEntry.freeKey, toLex_inj, Prod.mk.injEq, hlength] at hkey
    obtain ⟨hflength, hfbase⟩ := hkey
    rw [hfind, elim_some] at h
    refine ⟨f, hf, by omega, by omega, ?_⟩
    by_cases hcut : f.base < base
    · have hsub : wsub base f.base = base - f.base := wsub_eq (by omega) hcut.le
      have hrest : wsub f.length (base - f.base) = f.length - (base - f.base) :=
        wsub_eq (by omega) (by omega)
      rw [if_pos hcut, hsub, hrest] at h
      cases h
      exact ⟨rfl, by dsimp only; omega, by rw [cutAt, if_pos hcut]⟩
    · rw [if_neg hcut] at h
      cases h
      exact ⟨by omega, by omega, by rw [cutAt, if_neg hcut]⟩

/-- A free entry is cut at the base: its upper part is a tile of its own. -/
lemma TilesRange.cutAt (hf : f ∈ c.free) (hlow : f.base ≤ base) (hhigh : base < f.base + f.length) :
    IsTiling (Set.Ico c.low c.high)
      ((base, f.base + f.length - base) :: (c.cutAt f base).tiles) := by
  have hout : IsTiling (Set.Ico c.low c.high)
      ((f.base, f.length) :: { c with free := c.free.erase f }.tiles) :=
    hc.perm (tiles_erase_perm hf)
  unfold VirtualMemoryEntryContainer.cutAt
  split_ifs with hcut
  · have htwo := hout.cut (k := base - f.base) (by omega) (by omega)
    have hbase : f.base + (base - f.base) = base := by omega
    have hlength : f.length - (base - f.base) = f.base + f.length - base := by omega
    rw [hbase, hlength] at htwo
    have hback := tiles_insert_free_perm (c :=
      { c with free := c.free.erase f }) ⟨f.base, base - f.base, 0⟩
    exact htwo.perm ((List.Perm.swap _ _ _).trans (hback.cons _))
  · have hbase : f.base = base := by omega
    have hlength : f.base + f.length - base = f.length := by omega
    rw [hlength, ← hbase]
    exact hout

end

/-- What a request that is granted does with the entry that was taken out. -/
lemma placeIn_eq (h : placeIn e length options c = .ok (some a) c') :
    length ≤ e.length ∧ a = ⟨e.base, length⟩ ∧ c' = { c with
        active := c.active.insert ⟨e.base, length, options⟩
        free :=
          if e.length ≠ length then c.free.insert ⟨wadd e.base length,
            wsub e.length length, e.options⟩
          else c.free } := by
  simp only [placeIn, exec_bind, exec_ite, exec_throw, exec_modify, exec_pure] at h
  by_cases hlength : e.length < length
  · rw [if_pos hlength] at h
    cases h
  · rw [if_neg hlength] at h
    split_ifs at h with hrest
    · cases h
    · cases h
      exact ⟨by omega, rfl, by rw [if_pos hrest]⟩
    · cases h
    · cases h
      exact ⟨by omega, rfl, by rw [if_neg hrest]⟩

/-- An entry that was taken out is divided into the new active entry and what goes back. -/
lemma tiling_placeIn {S : Set ℕ} (hlength : 0 < length)
    (hle : length ≤ e.length) (hend : e.base + e.length < usizeBound)
    (h : IsTiling S ((e.base, e.length) :: c.tiles)) :
    IsTiling S ({ c with
      active := c.active.insert ⟨e.base, length, options⟩
      free :=
        if e.length ≠ length then c.free.insert ⟨wadd e.base length,
          wsub e.length length, e.options⟩
        else c.free } : VirtualMemoryEntryContainer).tiles := by
  have hbase : wadd e.base length = e.base + length := wadd_eq (by omega)
  have hrest : wsub e.length length = e.length - length := wsub_eq (by omega) hle
  rw [hbase, hrest]
  split_ifs with hcut
  · have htwo := h.cut hlength (lt_of_le_of_ne hle (Ne.symm hcut))
    have hfree := tiles_insert_free_perm (c := c) ⟨e.base + length, e.length - length, e.options⟩
    have hactive := tiles_insert_active_perm
      (c := { c with free := c.free.insert ⟨e.base + length, e.length - length, e.options⟩ })
      ⟨e.base, length, options⟩
    exact htwo.perm ((hfree.cons _).trans hactive)
  · rw [not_not.mp hcut] at h
    exact h.perm (tiles_insert_active_perm ⟨e.base, length, options⟩)

/-- A request for a fixed base that is granted takes an entry out and allocates from it. -/
lemma new_fixed_eq (h : VirtualMemoryAllocation.new (some base) length options c =
    .ok (some a) c') :
    ∃ e c₁, takeFixed base c = .ok e c₁ ∧ placeIn e length options c₁ = .ok (some a) c' := by
  simp only [VirtualMemoryAllocation.new, exec_bind, exec_ite, exec_throw, exec_get, exec_pure] at h
  split_ifs at h
  · cases h
  · cases htake : takeFixed base c with
    | error err c₁ =>
      rw [htake] at h
      cases h
    | ok e c₁ =>
      rw [htake] at h
      exact ⟨e, c₁, rfl, h⟩

/-- **Requests for a fixed base.**  A request that is granted has got its range at its base, all of
which was free, and the entries divide the range of the container again, if and only if the base is
in that range and not inside of an active entry. -/
theorem new_fixed_iff (c : VirtualMemoryEntryContainer) (hc : c.TilesRange)
    (hhigh : c.high < usizeBound)
    (base length : ℕ) (hlength : 0 < length) (options : PagingOptions) (a : VirtualMemoryAllocation)
    (c' : VirtualMemoryEntryContainer)
    (h : VirtualMemoryAllocation.new (some base) length options c = .ok (some a) c') :
    (a.base = base ∧ a.length = length ∧ interval (base, length) ⊆ c.freeAddresses ∧
      c'.TilesRange) ↔
      c.FixedOk base := by
  refine ⟨fun hgot => hc.fixedOk_of_free (hgot.2.2.1 ⟨le_rfl, Nat.lt_add_of_pos_right hlength⟩),
    fun hok => ?_⟩
  obtain ⟨e, c₁, htake, hplace⟩ := new_fixed_eq h
  obtain ⟨f, hf, hlow, hend, hebase, helength, rfl⟩ := takeFixed_eq hc hhigh hok htake
  obtain ⟨hle, rfl, rfl⟩ := placeIn_eq hplace
  have hin := hc.entry_in (.inr hf)
  refine ⟨hebase, rfl, fun x hx => ⟨f, hf, ?_⟩, ?_⟩
  · obtain ⟨hx1, hx2⟩ := hx
    dsimp only at hx1 hx2
    exact ⟨by omega, by omega⟩
  · have htiles := hc.cutAt hf hlow (by omega)
    rw [← helength, ← hebase] at htiles
    have hlow' : (c.cutAt f base).low = c.low := by
      unfold cutAt
      split_ifs <;> rfl
    have hhigh' : (c.cutAt f base).high = c.high := by
      unfold cutAt
      split_ifs <;> rfl
    rw [TilesRange, hlow', hhigh']
    refine tiling_placeIn hlength hle (by omega) ?_
    rw [hebase] at htiles ⊢
    exact htiles

/-- One active entry, and free entries on both sides. -/
def oneActive : VirtualMemoryEntryContainer where
  low := 0
  high := 0x10000
  active := SortedTree.empty.insert ⟨0x2000, 0x2000, 0⟩
  free := (SortedTree.empty.insert ⟨0, 0x2000, 0⟩).insert ⟨0x4000, 0xC000, 0⟩

lemma tilesRange_oneActive : oneActive.TilesRange := by
  have htiles : oneActive.tiles = [(0x2000, 0x2000), (0, 0x2000), (0x4000, 0xC000)] := by decide
  rw [TilesRange, htiles]
  refine ⟨by decide, ?_, fun x => ?_⟩
  · simp only [pairwise_cons, mem_cons, not_mem_nil, or_false, forall_eq_or_imp, forall_eq,
      Set.disjoint_left, interval, Set.mem_Ico]
    refine ⟨⟨fun x hx hx' => ?_, fun x hx hx' => ?_⟩, fun x hx hx' => ?_, by simp⟩ <;> omega
  · simp only [mem_cons, not_mem_nil, or_false, exists_eq_or_imp, exists_eq_left, interval,
      Set.mem_Ico, oneActive]
    omega

/-- A page at a free base is granted there. -/
theorem new_fixed_iff_free_base :
    ∃ c', VirtualMemoryAllocation.new (some 0x5000) 0x1000 0 oneActive =
      .ok (some ⟨0x5000, 0x1000⟩) c' ∧
      c'.TilesRange := by
  refine ⟨_, rfl, ?_⟩
  refine ((new_fixed_iff oneActive tilesRange_oneActive (by decide) 0x5000 0x1000 (by decide) 0
    ⟨0x5000, 0x1000⟩ _
    rfl).mpr ⟨by decide, by decide, by decide⟩).2.2.2

/-- A page inside of the active entry is granted behind that entry. -/
theorem fixed_base_moved : oneActive.TilesRange ∧
      returnedValue (VirtualMemoryAllocation.new (some 0x3000) 0x1000 0) oneActive =
        some (some ⟨0x4000, 0x1000⟩) :=
  ⟨tilesRange_oneActive, by decide⟩

end VirtualMemoryEntryContainer

end CabOS
