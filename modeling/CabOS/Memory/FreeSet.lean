import CabOS.Library.Exec
import CabOS.Library.Word
import CabOS.Library.SortedTree

/-!
# The set of free address ranges

`FreeSet` keeps the free ranges of an address space in two search trees, one ordered by base and one
by length.  `addRange` merges a new range with its neighbours, `removeRangeByBase` cuts a given
range out of the one that contains it, and `removeRangeByLength` cuts a range of a given length off
a shortest one that is long enough.

`FreeSet.Inv d` is the invariant: both trees hold the same ranges, which are not empty, end below
`2 ^ 64` and are at least `d` apart; `d = 0` says that they are disjoint and `d = 1` that they are
maximal.  Each operation is described by its effect on `FreeSet.addrs`, the set of free addresses.
-/

namespace CabOS

open SortedTree List.Pairwise

/-- The free range `[base, base + length)`. -/
structure Free where
  /-- The lowest address. -/
  base : ℕ
  /-- The number of addresses. -/
  length : ℕ
  deriving DecidableEq, Repr

/-- The free ranges, by base and by length. -/
structure FreeSet where
  /-- The ranges ordered by base. -/
  baseSet : SortedTree Free.base
  /-- The same ranges ordered by length. -/
  lengthSet : SortedTree Free.length

namespace FreeSet

/-- A set without free ranges. -/
def new : FreeSet := ⟨SortedTree.empty, SortedTree.empty⟩

/-- Enter a range into both trees. -/
def addToSets (base length : ℕ) : EStateM (Fault String) FreeSet Unit :=
  modify fun s =>
    ⟨s.baseSet.insert ⟨base, length⟩, s.lengthSet.insert ⟨base, length⟩⟩

/-- Remove the range with the given base from both trees; there must be one. -/
def removeFromSets (base : ℕ) : EStateM (Fault String) FreeSet Unit := do
  let s ← get
  match s.baseSet.find base with
  | some free => set (FreeSet.mk (s.baseSet.erase free) (s.lengthSet.erase free))
  | none => throw .panic

/-- The range below that a new range at `base` is merged with, if any. -/
def coalesceLeft (s : FreeSet) (base : ℕ) : Except String (Option Free) :=
  match s.baseSet.upperBound base with
  | none => .ok none
  | some free =>
    if wadd free.base free.length > base then
      .error "added range conflicts with upper part of existing range"
    else if wadd free.base free.length = base then .ok (some free)
    else .ok none

/-- The range above that a new range `[base, base + length)` is merged with, if any. -/
def coalesceRight (s : FreeSet) (base length : ℕ) : Except String (Option Free) :=
  match s.baseSet.lowerBound base with
  | none => .ok none
  | some free =>
    if wadd base length > free.base then
      .error "added range conflicts with lower part of existing range"
    else if wadd base length = free.base then .ok (some free)
    else .ok none

/-- Take the range below out of the trees and return the merged range. -/
def takeLeft (base length : ℕ) : Option Free → EStateM (Fault String) FreeSet (ℕ × ℕ)
  | some free => do
    removeFromSets free.base
    pure (free.base, wadd length free.length)
  | none => pure (base, length)

/-- Take the range above out of the trees and return the merged length. -/
def takeRight (length : ℕ) : Option Free → EStateM (Fault String) FreeSet ℕ
  | some free => do
    removeFromSets free.base
    pure (wadd length free.length)
  | none => pure length

/-- Make `[base, base + length)` free. -/
def addRange (base length : ℕ) : EStateM (Fault String) FreeSet Unit := do
  if length = 0 then
    throw (.err "trying to add an empty range")
  else
    let s ← get
    match s.coalesceLeft base with
    | .error e => throw (.err e)
    | .ok left =>
      match s.coalesceRight base length with
      | .error e => throw (.err e)
      | .ok right => do
        let merged ← takeLeft base length left
        let coalescedLength ← takeRight merged.2 right
        addToSets merged.1 coalescedLength

/-- Cut `[cutBase, cutBase + cutLength)` out of the free range `[wholeBase, wholeBase +
wholeLength)` without looking whether it lies inside. -/
def removeRangeByBaseUnchecked (cutBase cutLength wholeBase wholeLength : ℕ) :
    EStateM (Fault String) FreeSet Unit := do
  removeFromSets wholeBase
  if wholeBase < cutBase then
    addToSets wholeBase (wsub cutBase wholeBase)
  if wadd cutBase cutLength < wadd wholeLength wholeBase then
    addToSets (wadd cutBase cutLength) (wsub (wadd wholeLength wholeBase) (wadd cutBase cutLength))

/-- Make `[base, base + length)` used. -/
def removeRangeByBase (base length : ℕ) : EStateM (Fault String) FreeSet Unit := do
  let s ← get
  match s.baseSet.upperBound base with
  | some free =>
    if wadd free.base free.length < wadd base length then
      throw (.err "range can't be cleanly removed")
    else removeRangeByBaseUnchecked base length free.base free.length
  | none => throw (.err "there is no free range <= base")

/-- Make some range of the given length used and return its base. -/
def removeRangeByLength (length : ℕ) : EStateM (Fault String) FreeSet ℕ := do
  let s ← get
  match s.lengthSet.lowerBound length with
  | some free => do
    removeRangeByBaseUnchecked free.base length free.base free.length
    pure free.base
  | none => throw (.err "there is no free range big enough")

/-! ## The invariant -/

/-- The free addresses. -/
def addrs (s : FreeSet) : Set ℕ := {a | ∃ f ∈ s.baseSet, f.base ≤ a ∧ a < f.base + f.length}

/-- Both trees hold the same non-empty ranges, which end below `2 ^ 64` and are at least `d` apart.
-/
structure Inv (d : ℕ) (s : FreeSet) : Prop where
  perm : s.lengthSet.toList.Perm s.baseSet.toList
  pos : ∀ f ∈ s.baseSet, 0 < f.length
  bound : ∀ f ∈ s.baseSet, f.base + f.length < usizeBound
  sep : s.baseSet.toList.Pairwise fun f g => f.base + f.length + d ≤ g.base

variable {d : ℕ} {s : FreeSet} {base length : ℕ} {g : Free} {f : Free}

lemma inv_new (d : ℕ) : new.Inv d where
  perm := List.Perm.refl _
  pos := by simp [new]
  bound := by simp [new]
  sep := nil

section

variable (h : s.Inv d)
include h

/-- Two ranges in the order of their bases are `d` apart. -/
lemma Inv.sep_of_lt (hf : f ∈ s.baseSet) (hg : g ∈ s.baseSet)
    (hlt : f.base < g.base) : f.base + f.length + d ≤ g.base :=
  rel_of_pairwise h.sep hf hg hlt

/-- The bases increase strictly. -/
lemma Inv.base_lt : s.baseSet.toList.Pairwise fun f g => f.base < g.base := by
  refine (and_mem.mp h.sep).imp ?_
  rintro f g ⟨hf, -, hfg⟩
  have := h.pos f hf
  omega

lemma Inv.nodup : s.baseSet.toList.Nodup :=
  h.base_lt.imp fun hlt heq => hlt.ne (congrArg Free.base heq)

lemma Inv.eq_of_base (hf : f ∈ s.baseSet) (hg : g ∈ s.baseSet) (heq : f.base = g.base) : f = g :=
  eq_of_key_eq h.base_lt hf hg heq

/-- The range found at a base is the one with this base. -/
lemma Inv.find_eq (hf : f ∈ s.baseSet) : s.baseSet.find f.base = some f := by
  cases hfind : s.baseSet.find f.base with
  | none => exact absurd rfl (find_eq_none.mp hfind f hf)
  | some g =>
    obtain ⟨hg, hgf⟩ := find_eq_some hfind
    rw [h.eq_of_base hg hf hgf]

/-- Two ranges that share an address are the same. -/
lemma Inv.eq_of_mem (hf : f ∈ s.baseSet) (hg : g ∈ s.baseSet) {a : ℕ}
    (hfa : f.base ≤ a ∧ a < f.base + f.length) (hga : g.base ≤ a ∧ a < g.base + g.length) :
    f = g := by
  rcases lt_trichotomy f.base g.base with hlt | heq | hgt
  · have := h.sep_of_lt hf hg hlt
    omega
  · exact h.eq_of_base hf hg heq
  · have := h.sep_of_lt hg hf hgt
    omega

end

/-! ## Removing and entering ranges -/

/-- The set without the range `f`. -/
def without (s : FreeSet) (f : Free) : FreeSet := ⟨s.baseSet.erase f, s.lengthSet.erase f⟩

/-- The set with the range `f` entered. -/
def entered (s : FreeSet) (f : Free) : FreeSet := ⟨s.baseSet.insert f, s.lengthSet.insert f⟩

@[simp] lemma addToSets_eq (base length : ℕ) (s : FreeSet) :
    addToSets base length s = .ok () (s.entered ⟨base, length⟩) := rfl

@[simp] lemma mem_entered : g ∈ (s.entered f).baseSet ↔ g = f ∨ g ∈ s.baseSet :=
  mem_insert

section

variable (h : s.Inv d)
include h

/-- Removing a listed range succeeds. -/
lemma Inv.removeFromSets_eq (hf : f ∈ s.baseSet) : removeFromSets f.base s = .ok ()
    (s.without f) := by
  simp only [removeFromSets, exec_bind, exec_get, h.find_eq hf, exec_set]
  rfl

lemma Inv.mem_without : g ∈ (s.without f).baseSet ↔ g ≠ f ∧ g ∈ s.baseSet :=
  mem_erase h.nodup

/-- Removing a range keeps the invariant. -/
lemma Inv.without (f : Free) : (s.without f).Inv d where
  perm := h.perm.erase f
  pos g hg := h.pos g (h.mem_without.mp hg).2
  bound g hg := h.bound g (h.mem_without.mp hg).2
  sep := pairwise_erase h.sep f

/-- Entering a non-empty range that is `d` apart from all others keeps the invariant. -/
lemma Inv.entered (hpos : 0 < f.length) (hbound : f.base + f.length < usizeBound)
    (hsep : ∀ g ∈ s.baseSet, g.base + g.length + d ≤ f.base ∨ f.base + f.length + d ≤ g.base) :
    (s.entered f).Inv d where
  perm := ((toList_insert_perm _ _).trans (h.perm.cons f)).trans (toList_insert_perm _ _).symm
  pos g hg := by
    rcases mem_entered.mp hg with rfl | hg
    · exact hpos
    · exact h.pos g hg
  bound g hg := by
    rcases mem_entered.mp hg with rfl | hg
    · exact hbound
    · exact h.bound g hg
  sep := by
    refine pairwise_insert h.sep ?_ ?_
    · intro g hg hle
      rcases hsep g hg with hl | hr
      · exact hl
      · omega
    · intro g hg hlt
      have := h.pos g hg
      rcases hsep g hg with hl | hr
      · omega
      · exact hr

/-- The addresses after removing a listed range. -/
lemma Inv.addrs_without (hf : f ∈ s.baseSet) :
    (s.without f).addrs = s.addrs \ Set.Ico f.base (f.base + f.length) := by
  ext a
  simp only [addrs, Set.mem_ofPred_eq, Set.mem_sdiff, Set.mem_Ico]
  constructor
  · rintro ⟨g, hg, hga⟩
    obtain ⟨hne, hg⟩ := h.mem_without.mp hg
    exact ⟨⟨g, hg, hga⟩, fun hfa => hne (h.eq_of_mem hg hf hga hfa)⟩
  · rintro ⟨⟨g, hg, hga⟩, hnot⟩
    refine ⟨g, h.mem_without.mpr ⟨?_, hg⟩, hga⟩
    rintro rfl
    exact hnot hga

end

/-- The addresses after entering a range. -/
lemma addrs_entered (s : FreeSet) (f : Free) :
    (s.entered f).addrs = s.addrs ∪ Set.Ico f.base (f.base + f.length) := by
  ext a
  simp only [addrs, Set.mem_ofPred_eq, Set.mem_union, Set.mem_Ico, mem_entered]
  constructor
  · rintro ⟨g, rfl | hg, hga⟩
    · exact .inr hga
    · exact .inl ⟨g, hg, hga⟩
  · rintro (⟨g, hg, hga⟩ | hfa)
    · exact ⟨g, .inr hg, hga⟩
    · exact ⟨f, .inl rfl, hfa⟩

/-! ## Cutting a range out of a free one -/

/-- The set after cutting `[c, c + n)` out of its range `f`. -/
def cut (s : FreeSet) (f : Free) (c n : ℕ) : FreeSet :=
  let below := if f.base < c then (s.without f).entered ⟨f.base, c - f.base⟩ else s.without f
  if c + n < f.base + f.length then below.entered ⟨c + n, f.base + f.length - (c + n)⟩ else below

/-- After a cut the ranges are the old ones and what is left of the range that was cut. -/
lemma mem_cut {c n : ℕ} (hg : g ∈ (s.cut f c n).baseSet) :
    g = ⟨f.base, c - f.base⟩ ∨ g = ⟨c + n, f.base + f.length - (c + n)⟩ ∨ g ∈ s.baseSet := by
  have hold : ∀ g ∈ (s.without f).baseSet, g ∈ s.baseSet := fun g hg => List.mem_of_mem_erase hg
  unfold cut at hg
  simp only at hg
  split_ifs at hg
  · rcases mem_entered.mp hg with rfl | hg
    · exact .inr (.inl rfl)
    · rcases mem_entered.mp hg with rfl | hg
      · exact .inl rfl
      · exact .inr (.inr (hold g hg))
  · rcases mem_entered.mp hg with rfl | hg
    · exact .inr (.inl rfl)
    · exact .inr (.inr (hold g hg))
  · rcases mem_entered.mp hg with rfl | hg
    · exact .inl rfl
    · exact .inr (.inr (hold g hg))
  · exact .inr (.inr (hold g hg))

section

variable {f : Free} {c n : ℕ} (h : s.Inv d) (hf : f ∈ s.baseSet) (hc : f.base ≤ c)
  (hn : c + n ≤ f.base + f.length)

include h hf hc hn

/-- Cutting inside a listed range succeeds. -/
lemma Inv.removeRangeByBaseUnchecked_eq :
    removeRangeByBaseUnchecked c n f.base f.length s = .ok () (s.cut f c n) := by
  have hb := h.bound f hf
  have h1 : wsub c f.base = c - f.base := wsub_eq (by omega) hc
  have h2 : wadd c n = c + n := wadd_eq (by omega)
  have h3 : wadd f.length f.base = f.base + f.length := by
    rw [wadd_eq (by omega), add_comm]
  have h4 : wsub (f.base + f.length) (c + n) = f.base + f.length - (c + n) := wsub_eq hb hn
  simp only [removeRangeByBaseUnchecked, exec_bind, h.removeFromSets_eq hf, h1, h2, h3, h4, cut]
  split_ifs <;> simp

omit hc hn in
/-- A listed range is `d` apart from the other ones. -/
lemma Inv.sep_without (hg : g ∈ (s.without f).baseSet) :
    g.base + g.length + d ≤ f.base ∨ f.base + f.length + d ≤ g.base := by
  obtain ⟨hne, hg⟩ := h.mem_without.mp hg
  rcases lt_trichotomy g.base f.base with hlt | heq | hgt
  · exact .inl (h.sep_of_lt hg hf hlt)
  · exact absurd (h.eq_of_base hg hf heq) hne
  · exact .inr (h.sep_of_lt hf hg hgt)

/-- Cutting at least `d` addresses keeps the ranges `d` apart. -/
lemma Inv.cut (hd : d ≤ n) : (s.cut f c n).Inv d := by
  have hb := h.bound f hf
  have hw := h.without f
  have hsep : ∀ g ∈ (s.without f).baseSet, g.base + g.length + d ≤ f.base ∨
    f.base + f.length + d ≤ g.base :=
    fun g hg => h.sep_without hf hg
  have hbelow : (if f.base < c then (s.without f).entered ⟨f.base, c - f.base⟩
      else s.without f).Inv d := by
    split_ifs with hlt
    · refine hw.entered (by simp only; omega) (by simp only; omega) ?_
      intro g hg
      have := hsep g hg
      simp only
      omega
    · exact hw
  simp only [FreeSet.cut]
  split_ifs with htop hlt hlt
  · rw [if_pos hlt] at hbelow
    refine hbelow.entered (by simp only; omega) (by simp only; omega) ?_
    intro g hg
    rcases mem_entered.mp hg with rfl | hg
    · simp only
      omega
    · have := hsep g hg
      simp only
      omega
  · rw [if_neg hlt] at hbelow
    refine hbelow.entered (by simp only; omega) (by simp only; omega) ?_
    intro g hg
    have := hsep g hg
    simp only
    omega
  · rwa [if_pos hlt] at hbelow
  · rwa [if_neg hlt] at hbelow

/-- Cutting removes exactly the addresses of the cut. -/
lemma Inv.addrs_cut : (s.cut f c n).addrs = s.addrs \ Set.Ico c (c + n) := by
  ext a
  by_cases ha : a ∈ Set.Ico f.base (f.base + f.length)
  · -- inside the range that was cut
    have hmem : a ∈ s.addrs := ⟨f, hf, ha.1, ha.2⟩
    rw [Set.mem_Ico] at ha
    simp only [FreeSet.cut]
    split_ifs <;>
      simp only [addrs_entered, h.addrs_without hf, Set.mem_union, Set.mem_sdiff, Set.mem_Ico,
        hmem, true_and] <;>
      omega
  · -- outside of it nothing changes
    rw [Set.mem_Ico] at ha
    have hbelow : ¬ (f.base ≤ a ∧ a < f.base + (c - f.base)) := by omega
    have htop : ¬ (c + n ≤ a ∧ a < c + n + (f.base + f.length - (c + n))) := by omega
    have hcut : ¬ (c ≤ a ∧ a < c + n) := by omega
    simp only [FreeSet.cut]
    split_ifs <;>
      simp [addrs_entered, h.addrs_without hf, ha, hbelow, htop, hcut]

end

/-! ## What each operation does -/

/-- Entering the merged range after its neighbours were taken out: the invariant holds and exactly
the new range is added. -/
lemma Inv.add_merged {t : FreeSet} (ht : t.Inv d) {lo hi : ℕ} {A : Set ℕ}
    (hpos : 0 < length) (hlo : lo ≤ base) (hhi : base + length ≤ hi) (hbound : hi < usizeBound)
    (hsep : ∀ g ∈ t.baseSet, g.base + g.length + d ≤ lo ∨ hi + d ≤ g.base)
    (haddrs : t.addrs = A \ (Set.Ico lo base ∪ Set.Ico (base + length) hi))
    (hsub : Set.Ico lo base ∪ Set.Ico (base + length) hi ⊆ A) :
    (t.entered ⟨lo, hi - lo⟩).Inv d ∧
    (t.entered ⟨lo, hi - lo⟩).addrs = A ∪ Set.Ico base (base + length) := by
  refine ⟨ht.entered (by simp only; omega) (by simp only; omega) ?_, ?_⟩
  · intro g hg
    have := hsep g hg
    simp only
    omega
  · rw [addrs_entered, haddrs]
    ext a
    have := @hsub a
    simp only [Set.mem_union, Set.mem_sdiff, Set.mem_Ico] at this ⊢
    by_cases ha : a ∈ A
    · simp only [ha, true_and, true_or, iff_true]
      omega
    · simp only [ha, false_and, false_or, imp_false] at this ⊢
      omega

section

variable (h : s.Inv d)
include h

/-- Removing a range by its base: it is cut out of the listed range that contains it, or there is
none and the set is unchanged. -/
lemma Inv.removeRangeByBase_cases (hb : base + length < usizeBound) :
    (∃ f ∈ s.baseSet, f.base ≤ base ∧ base + length ≤ f.base + f.length ∧
      removeRangeByBase base length s = .ok () (s.cut f base length)) ∨
    (∃ e, removeRangeByBase base length s = .error (.err e) s ∧
      ∀ f ∈ s.baseSet, f.base ≤ base → f.base + f.length < base + length) := by
  cases hub : s.baseSet.upperBound base with
  | none =>
    refine .inr ⟨"there is no free range <= base",
      by simp only [removeRangeByBase, exec_bind, exec_get, hub, exec_throw], ?_⟩
    intro f hf hle
    exact absurd (upperBound_eq_none.mp hub f hf) (not_lt.mpr hle)
  | some f =>
    obtain ⟨hf, hle, hmax⟩ := upperBound_eq_some hub
    have h1 : wadd f.base f.length = f.base + f.length := wadd_eq (h.bound f hf)
    have h2 : wadd base length = base + length := wadd_eq hb
    by_cases hlt : f.base + f.length < base + length
    · right
      refine ⟨"range can't be cleanly removed", by
        simp only [removeRangeByBase, exec_bind, exec_get, hub, h1, h2, if_pos hlt, exec_throw], ?_⟩
      intro g hg hgle
      rcases (hmax g hg hgle).lt_or_eq with hltg | heq
      · -- a range further below ends before `f` starts
        have := h.sep_of_lt hg hf hltg
        have := h.pos f hf
        omega
      · rwa [h.eq_of_base hg hf heq]
    · left
      refine ⟨f, hf, hle, by omega, ?_⟩
      simp only [removeRangeByBase, exec_bind, exec_get, hub, h1, h2, if_neg hlt]
      exact h.removeRangeByBaseUnchecked_eq hf hle (by omega)

/-- Removing a range by its length: it is cut off the start of a shortest listed range that is long
enough, or there is none and the set is unchanged. -/
lemma Inv.removeRangeByLength_cases (length : ℕ) : (∃ f ∈ s.baseSet, length ≤ f.length ∧
      (∀ g ∈ s.baseSet, length ≤ g.length → f.length ≤ g.length) ∧
      removeRangeByLength length s = .ok f.base (s.cut f f.base length)) ∨
    (∃ e, removeRangeByLength length s = .error (.err e) s ∧
      ∀ f ∈ s.baseSet, f.length < length) := by
  have hmem : ∀ f, f ∈ s.lengthSet ↔ f ∈ s.baseSet := fun f => h.perm.mem_iff
  cases hlb : s.lengthSet.lowerBound length with
  | none =>
    refine .inr ⟨"there is no free range big enough",
      by simp only [removeRangeByLength, exec_bind, exec_get, hlb, exec_throw], ?_⟩
    intro f hf
    exact lowerBound_eq_none.mp hlb f ((hmem f).mpr hf)
  | some f =>
    obtain ⟨hf, hle, hmin⟩ := lowerBound_eq_some hlb
    have hf' := (hmem f).mp hf
    have hrun : removeRangeByBaseUnchecked f.base length f.base f.length s =
        .ok () (s.cut f f.base length) :=
      h.removeRangeByBaseUnchecked_eq hf' le_rfl (by omega)
    refine .inl ⟨f, hf', hle, fun g hg => hmin g ((hmem g).mpr hg), ?_⟩
    simp only [removeRangeByLength, exec_bind, exec_get, hlb, hrun, exec_pure]

/-- Merging with the range below: afterwards the new range starts at `lo`, the addresses up to its
base are taken out of the set, and the ranges left below end before `lo`; or the new range starts
inside a listed one. -/
lemma Inv.left_cases (hd : d ≤ 1) (hb : base + length < usizeBound) :
    (∃ left lo t, s.coalesceLeft base = .ok left ∧
      takeLeft base length left s = .ok (lo, base + length - lo) t ∧ t.Inv d ∧ lo ≤ base ∧
      t.addrs = s.addrs \ Set.Ico lo base ∧ Set.Ico lo base ⊆ s.addrs ∧
      (∀ g ∈ t.baseSet, g ∈ s.baseSet ∧ (g.base ≤ base → g.base + g.length + d ≤ lo)) ∧
      (∀ g ∈ s.baseSet, base ≤ g.base → g ∈ t.baseSet)) ∨
    (∃ e, s.coalesceLeft base = .error e ∧ base ∈ s.addrs) := by
  cases hub : s.baseSet.upperBound base with
  | none =>
    refine .inl ⟨none, base, s, by simp only [coalesceLeft, hub], ?_, h, le_rfl, by simp,
      by simp, ?_, fun g hg _ => hg⟩
    · simp [takeLeft]
    · intro g hg
      refine ⟨hg, fun hle => ?_⟩
      exact absurd (upperBound_eq_none.mp hub g hg) (not_lt.mpr hle)
  | some f =>
    obtain ⟨hf, hle, hmax⟩ := upperBound_eq_some hub
    have h1 : wadd f.base f.length = f.base + f.length := wadd_eq (h.bound f hf)
    have hbelow : ∀ g ∈ s.baseSet, g.base ≤ base → g ≠ f → g.base + g.length + d ≤ f.base := by
      intro g hg hgle hne
      exact h.sep_of_lt hg hf (lt_of_le_of_ne (hmax g hg hgle) fun hb =>
        hne (h.eq_of_base hg hf hb))
    rcases lt_trichotomy (f.base + f.length) base with hlt | heq | hgt
    · refine .inl ⟨none, base, s, ?_,
        by simp [takeLeft], h, le_rfl, by simp, by simp, ?_, fun g hg _ => hg⟩
      · simp [coalesceLeft, hub, h1, if_neg (not_lt.mpr hlt.le), if_neg hlt.ne]
      · intro g hg
        refine ⟨hg, fun hgle => ?_⟩
        by_cases hgf : g = f
        · subst hgf
          omega
        · have := hbelow g hg hgle hgf
          omega
    · have hpos := h.pos f hf
      have hlen : wadd length f.length = base + length - f.base := by
        rw [wadd_eq (by omega)]
        omega
      refine .inl ⟨some f, f.base, s.without f, by simp [coalesceLeft, hub, h1, heq], ?_,
        h.without f, by omega, ?_, ?_, ?_, ?_⟩
      · simp [takeLeft, h.removeFromSets_eq hf, hlen]
      · rw [h.addrs_without hf, heq]
      · rw [← heq]
        exact fun a ha => ⟨f, hf, ha⟩
      · intro g hg
        obtain ⟨hne, hg⟩ := h.mem_without.mp hg
        exact ⟨hg, fun hgle => hbelow g hg hgle hne⟩
      · intro g hg hge
        refine h.mem_without.mpr ⟨?_, hg⟩
        rintro rfl
        omega
    · exact .inr ⟨"added range conflicts with upper part of existing range",
        by simp only [coalesceLeft, hub, h1, gt_iff_lt, if_pos hgt], ⟨f, hf, hle, hgt⟩⟩

/-- Merging with the range above, from any set `t` that still has the ranges of `s` from `base` on:
afterwards the new range ends at `hi`, the addresses from its end on are taken out of the set, and
the ranges left above start after `hi`; or a listed range starts inside the new one. -/
lemma Inv.right_cases (hd : d ≤ 1) (hpos : 0 < length) (hb : base + length < usizeBound) :
    (∃ right hi, s.coalesceRight base length = .ok right ∧ base + length ≤ hi ∧
      hi < usizeBound ∧ Set.Ico (base + length) hi ⊆ s.addrs ∧
      (∀ g ∈ s.baseSet, base ≤ g.base → base + length ≤ g.base) ∧
      ∀ t : FreeSet, t.Inv d → (∀ g ∈ s.baseSet, base ≤ g.base → g ∈ t.baseSet) →
        (∀ g ∈ t.baseSet, base ≤ g.base → g ∈ s.baseSet) → ∀ lo ≤ base,
        ∃ t', takeRight (base + length - lo) right t = .ok (hi - lo) t' ∧ t'.Inv d ∧
          t'.addrs = t.addrs \ Set.Ico (base + length) hi ∧
          ∀ g ∈ t'.baseSet, g ∈ t.baseSet ∧ (base ≤ g.base → hi + d ≤ g.base)) ∨
    (∃ e, s.coalesceRight base length = .error e ∧ ∃ f ∈ s.baseSet, base ≤ f.base ∧
      f.base < base + length) := by
  have h1 : wadd base length = base + length := wadd_eq hb
  cases hlb : s.baseSet.lowerBound base with
  | none =>
    have hnone := lowerBound_eq_none.mp hlb
    refine .inl ⟨none, base + length, by simp only [coalesceRight, hlb], le_rfl, hb, by simp,
      fun g hg hge => absurd (hnone g hg) (not_lt.mpr hge), ?_⟩
    intro t ht _ hts lo _
    refine ⟨t, rfl, ht, by simp, fun g hg => ⟨hg, fun hge => ?_⟩⟩
    exact absurd (hnone g (hts g hg hge)) (not_lt.mpr hge)
  | some f =>
    obtain ⟨hf, hle, hmin⟩ := lowerBound_eq_some hlb
    rcases lt_trichotomy (base + length) f.base with hlt | heq | hgt
    · have hrest : ∀ g ∈ s.baseSet, base ≤ g.base → base + length + d ≤ g.base := by
        intro g hg hge
        have := hmin g hg hge
        omega
      refine .inl ⟨none, base + length, ?_, le_rfl, hb, by simp, ?_, ?_⟩
      · simp [coalesceRight, hlb, h1, if_neg (not_lt.mpr hlt.le), if_neg hlt.ne]
      · intro g hg hge
        have := hrest g hg hge
        omega
      · intro t ht _ hts lo _
        exact ⟨t, rfl, ht, by simp, fun g hg => ⟨hg, fun hge => hrest g (hts g hg hge) hge⟩⟩
    · have hbound := h.bound f hf
      refine .inl ⟨some f, f.base + f.length,
        by simp [coalesceRight, hlb, h1, heq], by omega, hbound, ?_, ?_, ?_⟩
      · rw [heq]
        exact fun a ha => ⟨f, hf, ha⟩
      · intro g hg hge
        have := hmin g hg hge
        omega
      · intro t ht hst hts lo hlo
        have hft := hst f hf hle
        have hlen : wadd (base + length - lo) f.length = f.base + f.length - lo := by
          rw [wadd_eq (by omega)]
          omega
        refine ⟨t.without f, ?_, ht.without f, ?_, ?_⟩
        · simp [takeRight, ht.removeFromSets_eq hft, hlen]
        · rw [ht.addrs_without hft, heq]
        · intro g hg
          obtain ⟨hne, hg⟩ := ht.mem_without.mp hg
          refine ⟨hg, fun hge => ?_⟩
          have hle' := hmin g (hts g hg hge) hge
          exact ht.sep_of_lt hft hg
            (lt_of_le_of_ne hle' fun hb => hne (ht.eq_of_base hft hg hb).symm)
    · exact .inr ⟨"added range conflicts with lower part of existing range",
        by simp only [coalesceRight, hlb, h1, gt_iff_lt, if_pos hgt], ⟨f, hf, hle, hgt⟩⟩

/-- Adding a range: it is merged with its neighbours if it shares no address with the set, and
otherwise the set is unchanged. -/
lemma Inv.addRange_cases (hd : d ≤ 1) (hpos : 0 < length) (hb : base + length < usizeBound) :
    (∃ s', addRange base length s = .ok () s' ∧ s'.Inv d ∧
      s'.addrs = s.addrs ∪ Set.Ico base (base + length) ∧
      Disjoint s.addrs (Set.Ico base (base + length))) ∨
    (∃ e, addRange base length s = .error (.err e) s ∧
      ¬ Disjoint s.addrs (Set.Ico base (base + length))) := by
  have hne : ¬ length = 0 := by omega
  rcases h.left_cases hd hb with
    ⟨left, lo, t, el, et, ht, hlo, hta, hsub, htbelow, hst⟩ | ⟨e, el, hin⟩
  · rcases h.right_cases hd hpos hb with
      ⟨right, hi, er, hhi, hbound, hsub', hsabove, hright⟩ | ⟨e, er, f, hf, hge, hlt⟩
    · left
      obtain ⟨t', et', ht', hta', hrest⟩ :=
        hright t ht hst (fun g hg _ => (htbelow g hg).1) lo hlo
      obtain ⟨hinv, haddrs⟩ := ht'.add_merged (A := s.addrs) hpos hlo hhi hbound (by
          intro g hg
          obtain ⟨hg, hgabove⟩ := hrest g hg
          rcases le_total g.base base with hle | hge
          · exact .inl ((htbelow g hg).2 hle)
          · exact .inr (hgabove hge))
        (by
          rw [hta', hta, sdiff_sdiff]
          rfl)
        (Set.union_subset hsub hsub')
      refine ⟨_, ?_, hinv, haddrs, ?_⟩
      · simp [addRange, if_neg hne, el, er, et, et', addToSets_eq]
      · rw [Set.disjoint_left]
        rintro a ⟨g, hg, hga⟩ ha
        rw [Set.mem_Ico] at ha
        rcases lt_or_ge g.base base with hlt | hge
        · -- `g` would contain `base`, but what is left below ends before `lo`
          have hbase : base ∈ t.addrs := by
            rw [hta]
            exact ⟨⟨g, hg, by omega, by omega⟩, by simp⟩
          obtain ⟨g', hg', h1, h2⟩ := hbase
          have := (htbelow g' hg').2 h1
          omega
        · have := hsabove g hg hge
          omega
    · refine .inr ⟨e, ?_, ?_⟩
      · simp [addRange, if_neg hne, el, er]
      · rw [Set.not_disjoint_iff]
        exact ⟨f.base, ⟨f, hf, le_rfl, by have := h.pos f hf; omega⟩, hge, hlt⟩
  · refine .inr ⟨e, ?_, ?_⟩
    · simp [addRange, if_neg hne, el]
    · rw [Set.not_disjoint_iff]
      exact ⟨base, hin, le_rfl, by omega⟩

end

end FreeSet

end CabOS
