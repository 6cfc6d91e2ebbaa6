import CabOS.Arch.AArch64.Vmm

/-!
# The tree of page tables

The tables of an address space form a tree of depth three below the root, whose leaves are the
entries of the last level.  `TreeInv H root mem free ref` says that this tree is well-formed and
holds exactly the pages of the reference map `ref`: different paths lead to different tables, no
table is on the free list, and no table is empty, except the root and the tables at the paths in
`H`.

The three changes that the code makes are described by what they do to the invariant: a fresh table
is attached (`TreeInv.attach`), an empty one is detached (`TreeInv.detach`), and an entry of the
last level is written (`TreeInv.writeLeaf`).
-/

namespace CabOS.AArch64

open Function List Set

open TableTree

/-- A path of indices from the root. -/
abbrev Path := List (Fin ptePerPage)

/-- The table that an entry points to. -/
def next (e : BitVec 64) : Option (BitVec 64) :=
  if e &&& 0b11 = 0b11 then some (e &&& pteAddrMask) else none

lemma next_eq_some {e t : BitVec 64} : next e = some t ↔
    e &&& 0b11 = 0b11 ∧ e &&& pteAddrMask = t := by
  simp [next]

lemma next_eq_none {e : BitVec 64} : next e = none ↔ e &&& 0b11 ≠ 0b11 := by
  simp [next]

@[simp] lemma next_zero : next 0 = none := by decide

lemma next_of_invalid {e : BitVec 64} (h : e &&& 0b11 = 0) : next e = none := by
  rw [next_eq_none, h]
  decide

lemma mask_mask (e : BitVec 64) : e &&& pteAddrMask &&& pteAddrMask = e &&& pteAddrMask := by
  rw [BitVec.and_assoc, BitVec.and_self]

/-- An entry that is put together from an address and flags outside the address. -/
lemma entry_and_mask {f attr : BitVec 64} (hattr : attr &&& pteAddrMask = 0) :
    ((f &&& pteAddrMask) ||| attr) &&& pteAddrMask = f &&& pteAddrMask := by
  rw [BitVec.and_comm, BitVec.and_or_distrib_left, BitVec.and_comm pteAddrMask attr, hattr,
    BitVec.and_comm pteAddrMask, mask_mask]
  exact BitVec.or_zero

/-- The flag bits of such an entry. -/
lemma entry_and_flags (f attr : BitVec 64) :
    ((f &&& pteAddrMask) ||| attr) &&& 0b11 = attr &&& 0b11 := by
  have hmask : pteAddrMask &&& 0b11 = 0 := by decide
  have hf : f &&& pteAddrMask &&& 0b11 = 0#64 := by
    rw [BitVec.and_assoc, hmask]
    exact BitVec.and_zero
  rw [BitVec.and_comm, BitVec.and_or_distrib_left, BitVec.and_comm (0b11 : BitVec 64), hf,
    BitVec.zero_or, BitVec.and_comm]

/-- The descriptor of a table points to it. -/
lemma next_table {f : BitVec 64} (hf : f &&& pteAddrMask = f) :
    next ((f &&& pteAddrMask) ||| 0b11) = some f := by
  rw [next_eq_some, entry_and_flags, entry_and_mask (by decide)]
  exact ⟨by decide, hf⟩

/-- The tree below `root` is well-formed and holds the pages of `ref`; tables at paths in `H` may be
empty. -/
structure TreeInv (H : Set Path) (root : BitVec 64) (mem : TableMem) (free : List (BitVec 64))
    (ref : Path → Option (BitVec 64)) : Prop where
  /-- Different paths lead to different tables. -/
  distinct : Distinct next mem root 3
  /-- No table is on the free list. -/
  unfree : ∀ p t, p.length ≤ 3 → walk next mem root p = some t → t ∉ free
  /-- Above the last level an entry is invalid or points to a table. -/
  entries : ∀ p t i, p.length ≤ 2 → walk next mem root p = some t →
    mem t i &&& 0b11 = 0 ∨ mem t i &&& 0b11 = 0b11
  /-- On the last level an entry is invalid or points to the page of the reference map. -/
  leaves : ∀ p t i, p.length = 3 → walk next mem root p = some t →
    (mem t i &&& 0b11 = 0 ∨ mem t i &&& 0b11 = 0b11) ∧ ref (p ++ [i]) = next (mem t i)
  /-- Pages without a table of the last level are not mapped. -/
  unmapped : ∀ p i, p.length = 3 → walk next mem root p = none → ref (p ++ [i]) = none
  /-- Tables are not empty. -/
  nonempty : ∀ p t, p.length ≤ 3 → p ≠ [] → p ∉ H → walk next mem root p = some t →
    ∃ i, mem t i &&& 0b11 ≠ 0

variable {H : Set Path} {root t u f : BitVec 64} {mem mem' : TableMem} {free : List (BitVec 64)}
  {ref : Path → Option (BitVec 64)} {p q : Path} {i : Fin ptePerPage} {e : BitVec 64}

section

variable (h : TreeInv H root mem free ref) {H' : Set Path}
include h

/-- Fewer exceptions are needed if the other tables are not empty. -/
lemma TreeInv.restrict (hH :
    ∀ p t, p.length ≤ 3 → p ≠ [] → p ∉ H' → p ∈ H → walk next mem root p = some t →
      ∃ i, mem t i &&& 0b11 ≠ 0) : TreeInv H' root mem free ref where
  distinct := h.distinct
  unfree := h.unfree
  entries := h.entries
  leaves := h.leaves
  unmapped := h.unmapped
  nonempty := by
    intro p t hlen hne hp ht
    by_cases hpH : p ∈ H
    · exact hH p t hlen hne hp hpH ht
    · exact h.nonempty p t hlen hne hpH ht

/-- More exceptions are harmless. -/
lemma TreeInv.mono (hH : H ⊆ H') : TreeInv H' root mem free ref :=
  h.restrict fun _ _ _ _ hp hpH _ => absurd (hH hpH) hp

/-- Memory outside the tree does not matter, nor does the free list as long as it avoids the tree.
-/
lemma TreeInv.congr {free' : List (BitVec 64)}
    (hmem : ∀ p t, p.length ≤ 3 → walk next mem root p = some t → ∀ i, mem' t i = mem t i)
    (hfree : ∀ p t, p.length ≤ 3 → walk next mem root p = some t → t ∉ free') :
    TreeInv H root mem' free' ref := by
  have hwalk : ∀ p : Path, p.length ≤ 3 → walk next mem' root p = walk next mem root p :=
    fun p hp => walk_congr_reached (n := 3) hmem (by omega)
  refine ⟨?_, ?_, ?_, ?_, ?_, ?_⟩
  · intro p q t hp hq h1 h2
    rw [hwalk p hp] at h1
    rw [hwalk q hq] at h2
    exact h.distinct p q t hp hq h1 h2
  · intro p t hp ht
    rw [hwalk p hp] at ht
    exact hfree p t hp ht
  · intro p t i hp ht
    rw [hwalk p (by omega)] at ht
    rw [hmem p t (by omega) ht]
    exact h.entries p t i hp ht
  · intro p t i hp ht
    rw [hwalk p (by omega)] at ht
    rw [hmem p t (by omega) ht]
    exact h.leaves p t i hp ht
  · intro p i hp ht
    rw [hwalk p (by omega)] at ht
    exact h.unmapped p i hp ht
  · intro p t hp hne hpH ht
    rw [hwalk p hp] at ht
    obtain ⟨i, hi⟩ := h.nonempty p t hp hne hpH ht
    exact ⟨i, by rwa [hmem p t hp ht]⟩

end

/-- Below a table of zeros there is nothing. -/
lemma walk_zero (hzero : ∀ i, mem root i = 0) (ht : walk next mem root p = some t) :
    p = [] ∧ t = root := by
  cases p with
  | nil =>
    cases ht
    exact ⟨rfl, rfl⟩
  | cons i p =>
    rw [walk_cons, hzero, next_zero] at ht
    cases ht

/-- A table of zeros is a tree without pages. -/
lemma treeInv_zero (hzero : ∀ i, mem root i = 0) (hfree : root ∉ free) :
    TreeInv H root mem free fun _ => none := by
  refine ⟨fun p q t _ _ h1 h2 => ?_, fun p t _ ht => ?_, fun p t i _ ht => ?_,
    fun p t i hp ht => ?_,
    fun _ _ _ _ => rfl, fun p t _ hne _ ht => absurd (walk_zero hzero ht).1 hne⟩
  · rw [(walk_zero hzero h1).1, (walk_zero hzero h2).1]
  · rw [(walk_zero hzero ht).2]
    exact hfree
  · rw [(walk_zero hzero ht).2, hzero]
    exact .inl (by decide)
  · rw [(walk_zero hzero ht).1] at hp
    simp at hp

/-! ## Attaching, detaching and writing -/

/-- Nothing lies below an empty table. -/
lemma TreeInv.walk_below_empty (hc : walk next mem root p = some u)
    (hempty : ∀ j, mem u j &&& 0b11 = 0) (hpq : p <+: q) (hne : q ≠ p) :
    walk next mem root q = none := by
  obtain ⟨q', rfl⟩ := hpq
  cases q' with
  | nil => exact absurd (append_nil p) hne
  | cons j q' =>
    rw [walk_append, hc, Option.bind_some, walk_cons, next_of_invalid (hempty j)]
    rfl

section

variable (h : TreeInv H root mem free ref)
include h

/-- A fresh table is attached at an invalid entry of the table at `p`.  Now `p` is not empty, but
the new table is. -/
lemma TreeInv.attach (hp : p.length ≤ 2) (ht : walk next mem root p = some t)
    (hinvalid : mem t i &&& 0b11 = 0)
    (hf : f &&& pteAddrMask = f) (hfree : f ∉ free)
    (hfresh : ∀ q, q.length ≤ 3 → walk next mem root q ≠ some f) :
    TreeInv (insert (p ++ [i])
      (H \ {p})) root (write (fill mem f 0) t i ((f &&& pteAddrMask) ||| 0b11)) free ref ∧
      ∀ q, q.length ≤ 3 →
      walk next (write (fill mem f 0) t i ((f &&& pteAddrMask) ||| 0b11)) root q =
          if q = p ++ [i] then some f else walk next mem root q := by
  set mem' := write (fill mem f 0) t i ((f &&& pteAddrMask) ||| 0b11) with hmem'
  have hd2 : Distinct next mem root 2 :=
    fun p q t hp hq => h.distinct p q t (by omega) (by omega)
  have hwalk : ∀ q : Path, q.length ≤ 3 →
      walk next mem' root q = if q = p ++ [i] then some f else walk next mem root q :=
    fun q hq => walk_attach hd2 hp ht (next_of_invalid hinvalid) (next_table hf) next_zero
      (fun q hq => hfresh q (by omega)) hq
  have hchild : walk next mem root (p ++ [i]) = none := by
    rw [walk_concat ht, next_of_invalid hinvalid]
  -- a table of the old tree keeps its entries, except the one that was written
  have hother : ∀ q u, q.length ≤ 3 → walk next mem root q = some u → ∀ j, (u ≠ t ∨ j ≠ i) →
    mem' u j = mem u j := by
    intro q u hq hu j hj
    have huf : u ≠ f := by
      rintro rfl
      exact hfresh q hq hu
    rw [hmem', write_of_ne hj, fill_of_ne huf]
  have hnew : ∀ j, mem' f j = 0 := by
    intro j
    have hft : f ≠ t := by
      rintro rfl
      exact hfresh p (by omega) ht
    rw [hmem', write_of_ne (.inl hft), fill_self]
  have hwritten : mem' t i = (f &&& pteAddrMask) ||| 0b11 := write_self
  have hflags : mem' t i &&& 0b11 = 0b11 := by
    rw [hwritten, entry_and_flags]
    decide
  refine ⟨⟨?_, ?_, ?_, ?_, ?_, ?_⟩, hwalk⟩
  · intro q₁ q₂ u h₁ h₂ hu₁ hu₂
    rw [hwalk q₁ h₁] at hu₁
    rw [hwalk q₂ h₂] at hu₂
    split_ifs at hu₁ hu₂ with e₁ e₂ e₂
    · rw [e₁, e₂]
    · cases hu₁
      exact absurd hu₂ (hfresh q₂ h₂)
    · cases hu₂
      exact absurd hu₁ (hfresh q₁ h₁)
    · exact h.distinct q₁ q₂ u h₁ h₂ hu₁ hu₂
  · intro q u hq hu
    rw [hwalk q hq] at hu
    split_ifs at hu with e
    · cases hu
      exact hfree
    · exact h.unfree q u hq hu
  · intro q u j hq hu
    rw [hwalk q (by omega)] at hu
    split_ifs at hu with e
    · cases hu
      rw [hnew]
      exact .inl (by decide)
    · by_cases hj : u ≠ t ∨ j ≠ i
      · rw [hother q u (by omega) hu j hj]
        exact h.entries q u j hq hu
      · push Not at hj
        obtain ⟨rfl, rfl⟩ := hj
        exact .inr hflags
  · intro q u j hq hu
    rw [hwalk q (by omega)] at hu
    split_ifs at hu with e
    · cases hu
      rw [hnew]
      refine ⟨.inl (by decide), ?_⟩
      rw [h.unmapped q j hq (by rw [e, hchild]), next_zero]
    · -- the changed table is not of the last level
      have hut : u ≠ t := by
        rintro rfl
        have := h.distinct q p u (by omega) (by omega) hu ht
        rw [this] at hq
        omega
      rw [hother q u (by omega) hu j (.inl hut)]
      exact h.leaves q u j hq hu
  · intro q j hq hu
    rw [hwalk q (by omega)] at hu
    split_ifs at hu with e
    exact h.unmapped q j hq hu
  · intro q u hq hne hqH hu
    rw [hwalk q hq] at hu
    have hqne : q ≠ p ++ [i] := fun e => hqH (e ▸ mem_insert _ _)
    rw [if_neg hqne] at hu
    by_cases hqp : q = p
    · -- the table that was written to has a valid entry
      subst hqp
      rw [ht] at hu
      cases hu
      refine ⟨i, ?_⟩
      rw [hflags]
      decide
    · have hqH' : q ∉ H := fun hmem => hqH (mem_insert_of_mem _ ⟨hmem, hqp⟩)
      obtain ⟨j, hj⟩ := h.nonempty q u hq hne hqH' hu
      have hut : u ≠ t := by
        rintro rfl
        exact hqp (h.distinct q p u hq (by omega) hu ht)
      exact ⟨j, by rwa [hother q u hq hu j (.inl hut)]⟩

/-- An empty table is detached from the table at `p`, which may then be empty. -/
lemma TreeInv.detach (hp : p.length ≤ 2)
    (ht : walk next mem root p = some t) (hc : walk next mem root (p ++ [i]) = some u)
    (hempty : ∀ j, mem u j &&& 0b11 = 0) :
    TreeInv (insert p (H \ {p ++ [i]})) root (write mem t i 0) free ref ∧
      ∀ q, q.length ≤ 3 → walk next (write mem t i 0) root q =
        if q = p ++ [i] then none else walk next mem root q := by
  have hd2 : Distinct next mem root 2 :=
    fun p q t hp hq => h.distinct p q t (by omega) (by omega)
  have hwalk : ∀ q : Path, q.length ≤ 3 → walk next (write mem t i 0) root q =
      if q = p ++ [i] then none else walk next mem root q := by
    intro q hq
    rw [walk_detach hd2 hp ht next_zero hq]
    by_cases hpre : p ++ [i] <+: q
    · rw [if_pos hpre]
      split_ifs with e
      · rfl
      · exact (TreeInv.walk_below_empty hc hempty hpre e).symm
    · rw [if_neg hpre, if_neg]
      rintro rfl
      exact hpre (prefix_refl _)
  have hother : ∀ q v, q.length ≤ 3 → walk next mem root q = some v → q ≠ p →
    ∀ j, write mem t i 0 v j = mem v j := by
    intro q v hq hv hqp j
    refine write_of_ne (.inl ?_)
    rintro rfl
    exact hqp (h.distinct q p v hq (by omega) hv ht)
  refine ⟨⟨?_, ?_, ?_, ?_, ?_, ?_⟩, hwalk⟩
  · intro q₁ q₂ v h₁ h₂ hv₁ hv₂
    rw [hwalk q₁ h₁] at hv₁
    rw [hwalk q₂ h₂] at hv₂
    split_ifs at hv₁ hv₂
    exact h.distinct q₁ q₂ v h₁ h₂ hv₁ hv₂
  · intro q v hq hv
    rw [hwalk q hq] at hv
    split_ifs at hv
    exact h.unfree q v hq hv
  · intro q v j hq hv
    rw [hwalk q (by omega)] at hv
    split_ifs at hv
    by_cases hqp : q = p
    · subst hqp
      rw [ht] at hv
      cases hv
      by_cases hj : j = i
      · subst hj
        rw [write_self]
        exact .inl (by decide)
      · rw [write_of_ne (.inr hj)]
        exact h.entries q t j hq ht
    · rw [hother q v (by omega) hv hqp]
      exact h.entries q v j hq hv
  · intro q v j hq hv
    rw [hwalk q (by omega)] at hv
    split_ifs at hv
    have hqp : q ≠ p := by
      rintro rfl
      omega
    rw [hother q v (by omega) hv hqp]
    exact h.leaves q v j hq hv
  · intro q j hq hv
    rw [hwalk q (by omega)] at hv
    split_ifs at hv with e
    · -- the detached table was one of the last level, and empty
      rw [e] at hq ⊢
      rw [(h.leaves (p ++ [i]) u j hq hc).2, next_of_invalid (hempty j)]
    · exact h.unmapped q j hq hv
  · intro q v hq hne hqH hv
    rw [hwalk q hq] at hv
    split_ifs at hv with e
    have hqp : q ≠ p := fun e => hqH (e ▸ mem_insert _ _)
    have hqH' : q ∉ H := fun hmem => hqH (mem_insert_of_mem _ ⟨hmem, e⟩)
    obtain ⟨j, hj⟩ := h.nonempty q v hq hne hqH' hv
    exact ⟨j, by rwa [hother q v hq hv hqp]⟩

/-- An entry of the last level is written. -/
lemma TreeInv.writeLeaf (hp : p.length = 3)
    (ht : walk next mem root p = some t) (he : e &&& 0b11 = 0 ∨ e &&& 0b11 = 0b11) :
    TreeInv (insert p H) root (write mem t i e) free (update ref (p ++ [i]) (next e)) ∧
      ∀ q, q.length ≤ 3 → walk next (write mem t i e) root q = walk next mem root q := by
  have hwalk : ∀ q : Path, q.length ≤ 3 →
    walk next (write mem t i e) root q = walk next mem root q := by
    intro q hq
    refine walk_write_off_path h.distinct (by omega) ht (by omega) fun hpre => ?_
    have := hpre.length_le
    simp at this
    omega
  have hother : ∀ q v, q.length ≤ 3 → walk next mem root q = some v → q ≠ p →
    ∀ j, write mem t i e v j = mem v j := by
    intro q v hq hv hqp j
    refine write_of_ne (.inl ?_)
    rintro rfl
    exact hqp (h.distinct q p v hq (by omega) hv ht)
  have hrefne : ∀ q j, q ≠ p → update ref (p ++ [i]) (next e) (q ++ [j]) = ref (q ++ [j]) := by
    intro q j hqp
    refine update_of_ne (fun heq => hqp ?_) _ _
    exact (append_inj' heq rfl).1
  refine ⟨⟨?_, ?_, ?_, ?_, ?_, ?_⟩, hwalk⟩
  · intro q₁ q₂ v h₁ h₂ hv₁ hv₂
    rw [hwalk q₁ h₁] at hv₁
    rw [hwalk q₂ h₂] at hv₂
    exact h.distinct q₁ q₂ v h₁ h₂ hv₁ hv₂
  · intro q v hq hv
    rw [hwalk q hq] at hv
    exact h.unfree q v hq hv
  · intro q v j hq hv
    rw [hwalk q (by omega)] at hv
    have hqp : q ≠ p := by
      rintro rfl
      omega
    rw [hother q v (by omega) hv hqp]
    exact h.entries q v j hq hv
  · intro q v j hq hv
    rw [hwalk q (by omega)] at hv
    by_cases hqp : q = p
    · subst hqp
      rw [ht] at hv
      cases hv
      by_cases hj : j = i
      · subst hj
        rw [write_self, update_self]
        exact ⟨he, rfl⟩
      · rw [write_of_ne (.inr hj), update_of_ne]
        · exact h.leaves q t j hq ht
        · intro heq
          exact hj (by simpa using heq)
    · rw [hother q v (by omega) hv hqp, hrefne q j hqp]
      exact h.leaves q v j hq hv
  · intro q j hq hv
    rw [hwalk q (by omega)] at hv
    have hqp : q ≠ p := by
      rintro rfl
      rw [ht] at hv
      cases hv
    rw [hrefne q j hqp]
    exact h.unmapped q j hq hv
  · intro q v hq hne hqH hv
    rw [hwalk q hq] at hv
    have hqp : q ≠ p := fun e => hqH (e ▸ mem_insert _ _)
    obtain ⟨j, hj⟩ := h.nonempty q v hq hne (fun hm => hqH (mem_insert_of_mem _ hm)) hv
    exact ⟨j, by rwa [hother q v hq hv hqp]⟩

end

end CabOS.AArch64
