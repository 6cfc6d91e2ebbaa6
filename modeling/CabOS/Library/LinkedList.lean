import Mathlib

/-!
# Linked lists

The links of a list are a function `nx` from nodes to nodes, and `nil` marks the end.  `Chain nx nil
h xs` says that from the head `h` the links run through the nodes `xs` in this order and then end,
and `Back pv p xs` that the back links of `xs` run to the node before, the first one to `p`.  The
lemmas describe pushing a node, taking the first one, and unlinking one in the middle.
-/

namespace CabOS

open List

variable {α : Type*} {nx nx' pv pv' : α → α} {nil h p a b c : α} {xs ys : List α}

/-- From `h` the links run through `xs` and end. -/
def Chain (nx : α → α) (nil : α) : α → List α → Prop
  | h, [] => h = nil
  | h, b :: xs => h = b ∧ b ≠ nil ∧ Chain nx nil (nx b) xs

instance decidableChain [DecidableEq α] (nx : α → α) (nil : α) :
    (h : α) → (xs : List α) → Decidable (Chain nx nil h xs)
  | h, [] => inferInstanceAs (Decidable (h = nil))
  | h, b :: xs =>
    have := decidableChain nx nil (nx b) xs
    inferInstanceAs (Decidable (h = b ∧ b ≠ nil ∧ Chain nx nil (nx b) xs))

/-- The back links of `xs` run to the node before; the node before the first one is `p`. -/
def Back (pv : α → α) : α → List α → Prop
  | _, [] => True
  | p, b :: xs => pv b = p ∧ Back pv b xs

@[simp] lemma chain_nil : Chain nx nil h [] ↔ h = nil := Iff.rfl

/-- Only the links of the nodes matter. -/
lemma Chain.congr (hc : Chain nx nil h xs) (hnx : ∀ b ∈ xs, nx' b = nx b) : Chain nx' nil h xs := by
  induction xs generalizing h with
  | nil => exact hc
  | cons b xs ih =>
    obtain ⟨rfl, hb, hrest⟩ := hc
    rw [forall_mem_cons] at hnx
    exact ⟨rfl, hb, by rw [hnx.1]; exact ih hrest hnx.2⟩

/-- The link of another node does not matter. -/
lemma Chain.update [DecidableEq α] (hc : Chain nx nil h xs) (ha : a ∉ xs) (link : α) :
    Chain (Function.update nx a link) nil h xs := by
  refine hc.congr fun b hb => Function.update_of_ne ?_ _ _
  rintro rfl
  exact ha hb

/-- Only the back links of the nodes matter. -/
lemma Back.congr (hb : Back pv p xs) (hpv : ∀ b ∈ xs, pv' b = pv b) : Back pv' p xs := by
  induction xs generalizing p with
  | nil => trivial
  | cons b xs ih =>
    rw [forall_mem_cons] at hpv
    exact ⟨hpv.1.trans hb.1, ih hb.2 hpv.2⟩

section

variable (hc : Chain nx nil h xs)
include hc

/-- An empty list is one whose head is the end mark. -/
lemma Chain.eq_nil_iff : h = nil ↔ xs = [] := by
  cases xs with
  | nil => simpa using hc
  | cons b xs =>
    obtain ⟨rfl, hb, -⟩ := hc
    simpa using hb

/-- A list whose head is a node starts with it. -/
lemma Chain.exists_cons (hne : h ≠ nil) : ∃ ys, xs = h :: ys ∧ Chain nx nil (nx h) ys := by
  cases xs with
  | nil => exact absurd hc hne
  | cons b ys =>
    obtain ⟨rfl, -, hrest⟩ := hc
    exact ⟨ys, rfl, hrest⟩

/-- No node is the end mark. -/
lemma Chain.ne_nil (hb : b ∈ xs) : b ≠ nil := by
  induction xs generalizing h with
  | nil => simp at hb
  | cons c xs ih =>
    obtain ⟨rfl, hc', hrest⟩ := hc
    rcases mem_cons.mp hb with rfl | hb
    · exact hc'
    · exact ih hrest hb

/-- A link leads to a node or is the end mark. -/
lemma Chain.next_mem (hb : b ∈ xs) : nx b = nil ∨ nx b ∈ xs := by
  induction xs generalizing h with
  | nil => simp at hb
  | cons c xs ih =>
    obtain ⟨rfl, -, hrest⟩ := hc
    rcases mem_cons.mp hb with rfl | hb
    · cases xs with
      | nil => exact .inl hrest
      | cons d xs =>
        refine .inr (mem_cons_of_mem _ ?_)
        rw [hrest.1]
        exact mem_cons_self
    · exact (ih hrest hb).imp_right (mem_cons_of_mem _)

end

/-- A back link leads to a node or to the start. -/
lemma Back.prev_mem (hb : Back pv p xs) (hmem : b ∈ xs) : pv b = p ∨ pv b ∈ xs := by
  induction xs generalizing p with
  | nil => simp at hmem
  | cons c xs ih =>
    rcases mem_cons.mp hmem with rfl | hmem
    · exact .inl hb.1
    · rcases ih hb.2 hmem with heq | hin
      · exact .inr (heq ▸ mem_cons_self)
      · exact .inr (mem_cons_of_mem _ hin)

/-- The back link of the node after `b` is moved past it. -/
lemma Back.unlink (hb : Back pv p (xs ++ b :: c :: ys)) (hc : pv' c = pv b)
    (hother : ∀ d ∈ xs ++ ys, pv' d = pv d) : Back pv' p (xs ++ c :: ys) := by
  induction xs generalizing p with
  | nil =>
    obtain ⟨rfl, -, hrest⟩ := hb
    exact ⟨hc, hrest.congr fun d hd => hother d (by simpa using hd)⟩
  | cons d xs ih =>
    obtain ⟨rfl, hrest⟩ := hb
    rw [cons_append, forall_mem_cons] at hother
    exact ⟨hother.1, ih hrest hother.2⟩

/-- The last node can be dropped from the back links. -/
lemma Back.of_append (hb : Back pv p (xs ++ ys)) : Back pv p xs := by
  induction xs generalizing p with
  | nil => trivial
  | cons d xs ih => exact ⟨hb.1, ih hb.2⟩

/-- The back link of a node in the middle leads to the node before it. -/
lemma Back.eq_of_append (hb : Back pv p (xs ++ a :: b :: ys)) : pv b = a := by
  induction xs generalizing p with
  | nil => exact hb.2.1
  | cons d xs ih => exact ih hb.2

section

variable (hc : Chain nx nil h (xs ++ a :: b :: ys))
include hc

/-- The link of the node before `b` is moved past it. -/
lemma Chain.unlink (ha : nx' a = nx b) (hother : ∀ c ∈ xs ++ ys, nx' c = nx c) :
    Chain nx' nil h (xs ++ a :: ys) := by
  induction xs generalizing h with
  | nil =>
    obtain ⟨rfl, hane, -, -, hrest⟩ := hc
    refine ⟨rfl, hane, ?_⟩
    rw [ha]
    exact hrest.congr fun c hc => hother c (by simpa using hc)
  | cons d xs ih =>
    obtain ⟨rfl, hd, hrest⟩ := hc
    rw [cons_append, forall_mem_cons] at hother
    exact ⟨rfl, hd, by rw [hother.1]; exact ih hrest hother.2⟩

lemma Chain.eq_of_append : nx a = b := by
  induction xs generalizing h with
  | nil => exact hc.2.2.1
  | cons d xs ih => exact ih hc.2.2

end

lemma Chain.eq_nil_of_append (hc : Chain nx nil h (xs ++ [a])) : nx a = nil := by
  induction xs generalizing h with
  | nil => exact hc.2.2
  | cons d xs ih => exact ih hc.2.2

/-- A node of a doubly linked list is unlinked: its neighbours are linked to each other. -/
lemma Chain.remove [DecidableEq α] (hc : Chain nx nil h (xs ++ b :: ys))
    (hb : Back pv nil (xs ++ b :: ys)) (hnodup : (xs ++ b :: ys).Nodup)
    (hnx : ∀ c ∈ xs ++ ys, nx' c = if c = pv b then nx b else nx c) :
    Chain nx' nil (if pv b = nil then nx b else h) (xs ++ ys) := by
  rcases eq_nil_or_concat xs with rfl | ⟨xs, a, rfl⟩
  · -- the first node
    obtain ⟨rfl, -, hrest⟩ := hc
    rw [if_pos hb.1]
    refine hrest.congr fun c hc => ?_
    rw [hnx c (by simpa using hc), if_neg]
    rw [hb.1]
    exact hrest.ne_nil hc
  · rw [concat_eq_append, append_assoc, singleton_append] at *
    have hpv : pv b = a := hb.eq_of_append
    have hane : a ≠ nil := hc.ne_nil (by simp)
    have ha : a ∉ xs ++ b :: ys := (nodup_middle.mp hnodup).notMem
    rw [hpv, if_neg hane]
    refine hc.unlink ?_ fun c hcm => ?_
    · rw [hnx a (by simp), if_pos hpv.symm]
    · rw [hnx c ?_, if_neg]
      · rw [hpv]
        rintro rfl
        refine ha ?_
        rcases mem_append.mp hcm with hcm | hcm <;> simp [hcm]
      · rcases mem_append.mp hcm with hcm | hcm <;> simp [hcm]

/-- The back links after a node is unlinked. -/
lemma Back.remove [DecidableEq α] (hc : Chain nx nil h (xs ++ b :: ys))
    (hb : Back pv nil (xs ++ b :: ys)) (hnodup : (xs ++ b :: ys).Nodup)
    (hpv : ∀ c ∈ xs ++ ys, pv' c = if c = nx b then pv b else pv c) : Back pv' nil (xs ++ ys) := by
  cases ys with
  | nil =>
    have hnx : nx b = nil := hc.eq_nil_of_append
    rw [append_nil] at hpv ⊢
    refine hb.of_append.congr fun c hcx => ?_
    rw [hpv c hcx, if_neg]
    rw [hnx]
    exact hc.ne_nil (mem_append_left _ hcx)
  | cons d ys =>
    have hnx : nx b = d := hc.eq_of_append
    have hd : d ∉ xs ++ ys := by
      have hsub : (xs ++ d :: ys).Nodup := (nodup_middle.mp hnodup).of_cons
      exact (nodup_middle.mp hsub).notMem
    refine hb.unlink ?_ fun c hcm => ?_
    · rw [hpv d (by simp), if_pos hnx.symm]
    · rw [hpv c ?_, if_neg]
      · rw [hnx]
        rintro rfl
        exact hd hcm
      · rcases mem_append.mp hcm with hcm | hcm <;> simp [hcm]

end CabOS
