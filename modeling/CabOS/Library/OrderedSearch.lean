import Mathlib

/-!
# Words that occur in order

A text is searched for words one after the other: each one is looked for behind the place where the
word before it was found, and the first occurrence is taken.  This finds all words if and only if
there is some way to place them in the text, in their order and without overlap.
-/

namespace CabOS

open List

variable {α : Type*} {word text : List α} {words : List (List α)} {i start : ℕ}

/-- No position behind the end is needed: there only the empty word occurs. -/
lemma exists_le_length (h : word <+: text.drop i) :
    ∃ j ≤ i, j ≤ text.length ∧ word <+: text.drop j := by
  by_cases hi : i ≤ text.length
  · exact ⟨i, le_rfl, hi, h⟩
  · rw [drop_eq_nil_of_le (by omega)] at h
    exact ⟨0, by omega, by omega, prefix_nil.mp h ▸ nil_prefix⟩

variable [DecidableEq α]

/-- The first position at which a word occurs. -/
def findWord (word text : List α) : Option ℕ :=
  (range (text.length + 1)).find? fun i => word.isPrefixOf (text.drop i)

lemma findWord_eq_none_iff : findWord word text = none ↔ ∀ i, ¬word <+: text.drop i := by
  simp only [findWord, find?_eq_none, mem_range, isPrefixOf_iff_prefix]
  constructor
  · intro h i hi
    obtain ⟨j, -, hj, hword⟩ := exists_le_length hi
    exact h j (by omega) hword
  · exact fun h i _ => h i

/-- What is found is an occurrence, and no occurrence starts before it. -/
lemma findWord_spec (h : findWord word text = some i) :
    word <+: text.drop i ∧ ∀ j, word <+: text.drop j → i ≤ j := by
  obtain ⟨hword, -, hfirst⟩ := find?_range_eq_some.mp h
  have hoccurs := isPrefixOf_iff_prefix.mp hword
  refine ⟨hoccurs, fun j hj => ?_⟩
  by_contra hlt
  have hnot := hfirst j (by omega)
  have hfound := isPrefixOf_iff_prefix.mpr hj
  rw [hfound] at hnot
  cases hnot

/-- Find the words one after the other from `start` on.  The error is the first word that is not
found. -/
def findInOrder (text : List α) (start : ℕ) : List (List α) → Except (List α) Unit
  | [] => .ok ()
  | word :: words =>
    match findWord word (text.drop start) with
    | none => .error word
    | some i => findInOrder text (start + (i + word.length)) words

/-- Words with the positions at which they occur in the text, each one behind the end of those
before it. -/
structure InOrder (text : List α) (os : List (List α × ℕ)) : Prop where
  occurs : ∀ o ∈ os, o.1 <+: text.drop o.2
  ordered : os.Pairwise fun o o' => o.2 + o.1.length ≤ o'.2

/-- Taking the first occurrence of each word is as good as any other choice. -/
lemma findInOrder_eq_ok_iff : findInOrder text start words = .ok () ↔
    ∃ os, InOrder text os ∧ os.map Prod.fst = words ∧ ∀ o ∈ os, start ≤ o.2 := by
  induction words generalizing start with
  | nil => exact iff_of_true rfl ⟨[], ⟨by simp, .nil⟩, rfl, by simp⟩
  | cons word words ih =>
    rw [findInOrder]
    cases hfind : findWord word (text.drop start) with
    | none =>
      refine iff_of_false nofun ?_
      rintro ⟨os, hos, hmap, hstart⟩
      obtain ⟨⟨w, p⟩, os, rfl, rfl, -⟩ := map_eq_cons_iff.mp hmap
      have hp : start ≤ p := hstart _ mem_cons_self
      refine findWord_eq_none_iff.mp hfind (p - start) ?_
      rw [drop_drop, Nat.add_sub_cancel' hp]
      exact hos.occurs _ mem_cons_self
    | some i =>
      obtain ⟨hword, hfirst⟩ := findWord_spec hfind
      refine ih.trans ⟨?_, ?_⟩
      · rintro ⟨os, hos, rfl, hstart⟩
        rw [drop_drop] at hword
        refine ⟨(word, start + i) :: os,
          ⟨?_, pairwise_cons.mpr ⟨fun o ho => ?_, hos.ordered⟩⟩, rfl, ?_⟩
        · exact forall_mem_cons.mpr ⟨hword, hos.occurs⟩
        · exact (Nat.add_assoc _ _ _).trans_le (hstart o ho)
        · exact forall_mem_cons.mpr
            ⟨by simp, fun o ho => (by omega : start ≤ _).trans (hstart o ho)⟩
      · rintro ⟨os, hos, hmap, hstart⟩
        obtain ⟨⟨w, p⟩, os, rfl, rfl, rfl⟩ := map_eq_cons_iff.mp hmap
        obtain ⟨hbehind, hordered⟩ := pairwise_cons.mp hos.ordered
        refine ⟨os, ⟨fun o ho => hos.occurs o (mem_cons_of_mem _ ho), hordered⟩, rfl,
          fun o ho => ?_⟩
        -- the first occurrence ends no later than the one that was chosen
        have hp : start ≤ p := hstart _ mem_cons_self
        have hle : i ≤ p - start := by
          refine hfirst _ ?_
          rw [drop_drop, Nat.add_sub_cancel' hp]
          exact hos.occurs _ mem_cons_self
        have hend := hbehind o ho
        dsimp only at hend ⊢
        omega

end CabOS
