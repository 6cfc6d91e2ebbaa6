import CabOS.Library.Phases

/-!
# Things in places

A thing that is passed on is in one place at a time.  `Placed loc v` says that every place `p` has
the list `v p` of the things that are there, each once, where `loc` gives the place of a thing, or
`none` if it is on its way or does not exist.  A thing is moved by taking it out of a place and
putting it into another one.
-/

namespace CabOS

open Function

variable {τ π : Type*} {loc : τ → Option π} {v : π → List τ} {t : τ} {p : π} {l : List τ}

/-- The lists hold the things that are in the places, each once. -/
def Placed (loc : τ → Option π) (v : π → List τ) : Prop := ∀ p, Queue loc (some p) (v p)

namespace Placed

lemma loc_eq (h : Placed loc v) (ht : t ∈ v p) : loc t = some p := ((h p).mem_iff t).mp ht

/-- A thing that has a place is in one list. -/
lemma existsUnique (h : Placed loc v) (ht : loc t ≠ none) : ∃! p, t ∈ v p := by
  obtain ⟨p, hp⟩ := Option.ne_none_iff_exists'.mp ht
  refine ⟨p, ((h p).mem_iff t).mpr hp, fun p' hp' => ?_⟩
  exact Option.some.inj ((h.loc_eq hp').symm.trans hp)

variable [DecidableEq π]

/-- A place is rearranged. -/
lemma perm (h : Placed loc v) (hl : l.Perm (v p)) : Placed loc (update v p l) := by
  intro p'
  rcases eq_or_ne p' p with rfl | hne
  · rw [update_self]
    exact ⟨hl.nodup_iff.mpr (h p').nodup, fun u => hl.mem_iff.trans ((h p').mem_iff u)⟩
  · rw [update_of_ne hne]
    exact h p'

variable [DecidableEq τ]

/-- A thing is taken out of its place. -/
lemma take (h : Placed loc v) (hl : (v p).Perm (t :: l)) : Placed (update loc t none)
    (update v p l) := by
  obtain ⟨hout, hnodup⟩ := List.nodup_cons.mp (hl.nodup_iff.mp (h p).nodup)
  have ht : loc t = some p := h.loc_eq (hl.mem_iff.mpr List.mem_cons_self)
  intro p'
  rcases eq_or_ne p' p with rfl | hne
  · rw [update_self]
    refine ⟨hnodup, fun u => ?_⟩
    rcases eq_or_ne u t with rfl | hu
    · simp [hout]
    · rw [update_of_ne hu, ← (h p').mem_iff u, hl.mem_iff, List.mem_cons, or_iff_right hu]
  · rw [update_of_ne hne]
    refine (h p').other ?_ (by simp)
    rw [ht]
    exact fun heq => hne (Option.some.inj heq).symm

/-- A thing without a place is put into one. -/
lemma put (h : Placed loc v) (ht : loc t = none) (hl : l.Perm (t :: v p)) :
    Placed (update loc t (some p)) (update v p l) := by
  have hout : t ∉ v p := fun hmem => by simp [h.loc_eq hmem] at ht
  intro p'
  rcases eq_or_ne p' p with rfl | hne
  · rw [update_self]
    refine ⟨hl.nodup_iff.mpr (List.nodup_cons.mpr ⟨hout, (h p').nodup⟩), fun u => ?_⟩
    rcases eq_or_ne u t with rfl | hu
    · simp [hl.mem_iff]
    · rw [update_of_ne hu, ← (h p').mem_iff u, hl.mem_iff, List.mem_cons, or_iff_right hu]
  · rw [update_of_ne hne]
    refine (h p').other (by simp [ht]) ?_
    exact fun heq => hne (Option.some.inj heq).symm

end Placed

end CabOS
