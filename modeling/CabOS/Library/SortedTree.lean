import Mathlib

/-!
# Search trees as sorted lists

A search tree with a key function, seen from outside, is the list of its elements in key order.
`SortedTree key` carries that order as a field, so an unsorted tree cannot be built.  The operations
are those of an intrusive red-black tree: `insert` puts a new element after all elements with the
same key, `find` returns an element with a given key, `lowerBound` and `upperBound` the first
element with a key at least, and the last one with a key at most, a given bound, `below` the last
one with a key below it, `front` and `back` the ends, and `erase` removes one element.

The lemmas describe every operation by the elements of the tree, and `pairwise_insert` is the rule
by which a relation between the elements in order survives an insertion.
-/

namespace CabOS

open List

variable {α κ : Type*} [LinearOrder κ]

/-- A tree of elements of `α` in the order of their keys. -/
structure SortedTree (key : α → κ) where
  /-- The elements in key order. -/
  toList : List α
  /-- The keys never decrease. -/
  sorted : toList.Pairwise fun a b => key a ≤ key b

namespace SortedTree

variable {key : α → κ} {R : α → α → Prop} {t : SortedTree key} {k : κ} {x y : α} {l : List α}
  {p : α → Bool}

/-- Insertion into a list, after all elements whose key is not larger. -/
def insertList (key : α → κ) (x : α) : List α → List α
  | [] => [x]
  | y :: ys => if key y ≤ key x then y :: insertList key x ys else x :: y :: ys

/-- Insertion adds one element. -/
lemma insertList_perm (key : α → κ) (x : α) (l : List α) : (insertList key x l).Perm (x :: l) := by
  induction l with
  | nil => exact List.Perm.refl _
  | cons y ys ih =>
    rw [insertList]
    split_ifs
    · exact (ih.cons y).trans (List.Perm.swap x y ys)
    · exact List.Perm.refl _

/-- A relation between the elements in order survives an insertion if the new element is related to
the elements on its left and on its right. -/
lemma pairwise_insertList (hl : l.Pairwise R) (hsorted : l.Pairwise fun a b => key a ≤ key b)
    (hleft : ∀ y ∈ l, key y ≤ key x → R y x) (hright : ∀ y ∈ l, key x < key y → R x y) :
    (insertList key x l).Pairwise R := by
  induction l with
  | nil => simp [insertList]
  | cons y ys ih =>
    rw [pairwise_cons] at hl hsorted
    rw [insertList]
    split_ifs with hyx
    · refine pairwise_cons.mpr ⟨?_, ?_⟩
      · intro z hz
        rcases mem_cons.mp ((insertList_perm key x ys).mem_iff.mp hz) with rfl | hz
        · exact hleft y (by simp) hyx
        · exact hl.1 z hz
      · exact ih hl.2 hsorted.2 (fun z hz => hleft z (by simp [hz]))
          (fun z hz => hright z (by simp [hz]))
    · have hxy : key x < key y := lt_of_not_ge hyx
      refine pairwise_cons.mpr ⟨?_, pairwise_cons.mpr hl⟩
      intro z hz
      rcases mem_cons.mp hz with rfl | hz'
      · exact hright z (by simp) hxy
      · exact hright z hz (lt_of_lt_of_le hxy (hsorted.1 z hz'))

instance : Membership α (SortedTree key) := ⟨fun t x => x ∈ t.toList⟩

instance [DecidableEq α] (x : α) (t : SortedTree key) : Decidable (x ∈ t) :=
  inferInstanceAs (Decidable (x ∈ t.toList))

lemma mem_def : x ∈ t ↔ x ∈ t.toList := Iff.rfl

/-- The tree without elements. -/
def empty : SortedTree key := ⟨[], List.Pairwise.nil⟩

@[simp] lemma not_mem_empty (x : α) : x ∉ (empty : SortedTree key) := not_mem_nil

/-- Add an element. -/
def insert (t : SortedTree key) (x : α) : SortedTree key :=
  ⟨insertList key x t.toList,
    pairwise_insertList t.sorted t.sorted (fun _ _ h => h) (fun _ _ h => h.le)⟩

lemma toList_insert_perm (t : SortedTree key) (x : α) : (t.insert x).toList.Perm (x :: t.toList) :=
  insertList_perm key x t.toList

@[simp] lemma mem_insert : y ∈ t.insert x ↔ y = x ∨ y ∈ t := by
  rw [mem_def, (t.toList_insert_perm x).mem_iff, mem_cons]
  rfl

/-- A relation between the elements in order survives an insertion if the new element is related to
the elements on its left and on its right. -/
lemma pairwise_insert (ht : t.toList.Pairwise R)
    (hleft : ∀ y ∈ t, key y ≤ key x → R y x) (hright : ∀ y ∈ t, key x < key y → R x y) :
    (t.insert x).toList.Pairwise R :=
  pairwise_insertList ht t.sorted hleft hright

/-- Elements of a tree whose keys differ are related in the order of their keys. -/
lemma rel_of_pairwise (ht : t.toList.Pairwise R) {x y : α} (hx : x ∈ t) (hy : y ∈ t)
    (hlt : key x < key y) :
    R x y := by
  have hboth : t.toList.Pairwise fun a b => key a ≤ key b ∧ R a b := t.sorted.and ht
  rw [mem_def] at hx hy
  generalize t.toList = l at hx hy hboth
  induction l with
  | nil => simp at hx
  | cons z l ih =>
    rw [pairwise_cons] at hboth
    rcases mem_cons.mp hx with rfl | hxl
    · rcases mem_cons.mp hy with rfl | hyl
      · exact absurd hlt (lt_irrefl _)
      · exact (hboth.1 y hyl).2
    · rcases mem_cons.mp hy with rfl | hyl
      · exact absurd (hboth.1 x hxl).1 (not_le.mpr hlt)
      · exact ih hxl hyl hboth.2

/-- In a tree whose keys increase strictly a key belongs to one element only. -/
lemma eq_of_key_eq (ht : t.toList.Pairwise fun a b => key a < key b)
    (hx : x ∈ t) (hy : y ∈ t) (heq : key x = key y) : x = y := by
  have hnd : (t.toList.map key).Nodup := pairwise_map.mpr (ht.imp fun h => h.ne)
  exact inj_on_of_nodup_map hnd hx hy heq

section

variable [DecidableEq α]

/-- Remove one element. -/
def erase (t : SortedTree key) (x : α) : SortedTree key :=
  ⟨t.toList.erase x, t.sorted.sublist erase_sublist⟩

@[simp] lemma toList_erase (t : SortedTree key) (x : α) : (t.erase x).toList = t.toList.erase x :=
  rfl

lemma pairwise_erase (ht : t.toList.Pairwise R) (x : α) : (t.erase x).toList.Pairwise R :=
  ht.sublist erase_sublist

lemma mem_erase (hnd : t.toList.Nodup) : y ∈ t.erase x ↔ y ≠ x ∧ y ∈ t := by
  rw [mem_def, toList_erase, hnd.mem_erase_iff]
  rfl

lemma mem_erase_of_ne (hy : y ∈ t) (hne : y ≠ x) : y ∈ t.erase x :=
  (List.mem_erase_of_ne hne).mpr hy

end

/-- The element with a given key. -/
def find (t : SortedTree key) (k : κ) : Option α := t.toList.find? fun x => key x = k

/-- The first element with a key at least `k`. -/
def lowerBound (t : SortedTree key) (k : κ) : Option α := t.toList.find? fun x => k ≤ key x

/-- The last element with a key at most `k`. -/
def upperBound (t : SortedTree key) (k : κ) : Option α :=
  (t.toList.filter fun x => key x ≤ k).getLast?

/-- The last element with a key below `k`. -/
def below (t : SortedTree key) (k : κ) : Option α :=
  (t.toList.filter fun x => key x < k).getLast?

/-- The element with the smallest key. -/
def front (t : SortedTree key) : Option α := t.toList.head?

/-- The element with the largest key. -/
def back (t : SortedTree key) : Option α := t.toList.getLast?

/-- In a sorted list the first element that satisfies a predicate has the smallest key of all that
do. -/
lemma find?_min (hl : l.Pairwise fun a b => key a ≤ key b)
    (h : l.find? p = some x) : x ∈ l ∧ p x ∧ ∀ y ∈ l, p y → key x ≤ key y := by
  refine ⟨mem_of_find?_eq_some h, find?_some h, ?_⟩
  induction l with
  | nil => simp at h
  | cons z l ih =>
    rw [pairwise_cons] at hl
    intro y hy hpy
    rw [find?_cons] at h
    cases hz : p z with
    | true =>
      simp only [hz, Option.some.injEq] at h
      subst h
      rcases mem_cons.mp hy with rfl | hy
      · exact le_rfl
      · exact hl.1 y hy
    | false =>
      simp only [hz] at h
      rcases mem_cons.mp hy with rfl | hy
      · rw [hz] at hpy
        exact absurd hpy (by simp)
      · exact ih hl.2 h y hy hpy

/-- In a sorted list the last element has the largest key. -/
lemma getLast?_max (hl : l.Pairwise fun a b => key a ≤ key b)
    (h : l.getLast? = some x) : x ∈ l ∧ ∀ y ∈ l, key y ≤ key x := by
  refine ⟨mem_of_getLast? h, ?_⟩
  obtain ⟨l', rfl⟩ := getLast?_eq_some_iff.mp h
  intro y hy
  rcases mem_append.mp hy with hy | hy
  · exact (pairwise_append.mp hl).2.2 y hy x (by simp)
  · rw [mem_singleton.mp hy]

/-- The last element of a tree that satisfies a predicate has the largest key of all that do. -/
lemma getLast?_filter_max (h : (t.toList.filter p).getLast? = some x) :
    x ∈ t ∧ p x ∧ ∀ y ∈ t, p y → key y ≤ key x := by
  obtain ⟨hmem, hmax⟩ := getLast?_max (t.sorted.sublist filter_sublist) h
  rw [mem_filter] at hmem
  exact ⟨hmem.1, hmem.2, fun y hy hp => hmax y (mem_filter.mpr ⟨hy, hp⟩)⟩

lemma find_eq_some (h : t.find k = some x) : x ∈ t ∧ key x = k := by
  have := find?_min t.sorted h
  exact ⟨this.1, by simpa using this.2.1⟩

lemma find_eq_none : t.find k = none ↔ ∀ x ∈ t, key x ≠ k := by
  simp [find, mem_def]

lemma lowerBound_eq_some (h : t.lowerBound k = some x) : x ∈ t ∧ k ≤ key x ∧ ∀ y ∈ t, k ≤ key y →
    key x ≤ key y := by
  obtain ⟨h1, h2, h3⟩ := find?_min t.sorted h
  exact ⟨h1, by simpa using h2, fun y hy hk => h3 y hy (by simpa using hk)⟩

lemma lowerBound_eq_none : t.lowerBound k = none ↔ ∀ x ∈ t, key x < k := by
  simp [lowerBound, mem_def]

lemma upperBound_eq_some (h : t.upperBound k = some x) : x ∈ t ∧ key x ≤ k ∧ ∀ y ∈ t, key y ≤ k →
    key y ≤ key x := by
  simpa using getLast?_filter_max h

lemma upperBound_eq_none : t.upperBound k = none ↔ ∀ x ∈ t, k < key x := by
  rw [upperBound, getLast?_eq_none_iff, filter_eq_nil_iff]
  simp [mem_def]

lemma below_eq_some (h : t.below k = some x) : x ∈ t ∧ key x < k ∧ ∀ y ∈ t, key y < k →
    key y ≤ key x := by
  simpa using getLast?_filter_max h

lemma below_eq_none : t.below k = none ↔ ∀ x ∈ t, k ≤ key x := by
  rw [below, getLast?_eq_none_iff, filter_eq_nil_iff]
  simp [mem_def]

lemma mem_of_front (h : t.front = some x) : x ∈ t :=
  mem_of_head? h

lemma mem_of_back (h : t.back = some x) : x ∈ t :=
  mem_of_getLast? h

end SortedTree

end CabOS
