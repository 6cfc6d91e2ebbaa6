import Mathlib

/-!
# Lists of items between separators

A word of a language acts on a state.  `Separated item sep` is the language of one or more items
with a separator between any two, where the items act one after another from left to right.  `Block`
also has the empty word, which changes nothing.
-/

namespace CabOS

variable {τ σ : Type}

/-- One or more items with `sep` between them, applied from left to right. -/
inductive Separated (item : List τ → σ → σ → Prop) (sep : τ) : List τ → σ → σ → Prop
  | one {w : List τ} {v v' : σ} (h : item w v v') : Separated item sep w v v'
  | more {w u : List τ} {v v₁ v' : σ} (h : item w v v₁) (ht : Separated item sep u v₁ v') :
      Separated item sep (w ++ sep :: u) v v'

/-- No item at all, or items with separators between them. -/
def Block (item : List τ → σ → σ → Prop) (sep : τ) (w : List τ) (v v' : σ) : Prop :=
  (w = [] ∧ v' = v) ∨ Separated item sep w v v'

namespace Separated

variable {item item' : List τ → σ → σ → Prop} {sep x : τ} {w : List τ} {v v' : σ}

/-- Sequences of items are monotone in the language of the items. -/
lemma mono (himp : ∀ w v v', item w v v' → item' w v v') (h : Separated item sep w v v') :
    Separated item' sep w v v' := by
  induction h with
  | one h => exact .one (himp _ _ _ h)
  | more h _ ih => exact .more (himp _ _ _ h) ih

/-- A symbol does not occur in the sequence if it is not the separator and occurs in none of the
items. -/
lemma avoids_iff (hx : x ≠ sep) :
    Separated (fun w v v' => item w v v' ∧ x ∉ w) sep w v v' ↔
    Separated item sep w v v' ∧ x ∉ w := by
  constructor
  · intro h
    refine ⟨h.mono fun _ _ _ h => h.1, ?_⟩
    induction h with
    | one h => exact h.2
    | more h _ ih =>
      simp only [List.mem_append, List.mem_cons, not_or]
      exact ⟨h.2, hx, ih⟩
  · rintro ⟨h, hw⟩
    induction h with
    | one h => exact .one ⟨h, hw⟩
    | more h _ ih =>
      simp only [List.mem_append, List.mem_cons, not_or] at hw
      exact .more ⟨h, hw.1⟩ (ih hw.2.2)

end Separated

/-- The same for blocks. -/
lemma Block.avoids_iff {item : List τ → σ → σ → Prop} {sep x : τ} {w : List τ} {v v' : σ}
    (hx : x ≠ sep) :
    Block (fun w v v' => item w v v' ∧ x ∉ w) sep w v v' ↔ Block item sep w v v' ∧ x ∉ w := by
  unfold Block
  rw [Separated.avoids_iff hx]
  constructor
  · rintro (⟨rfl, rfl⟩ | ⟨h, hw⟩)
    · exact ⟨.inl ⟨rfl, rfl⟩, List.not_mem_nil⟩
    · exact ⟨.inr h, hw⟩
  · rintro ⟨h | h, hw⟩
    · exact .inl h
    · exact .inr ⟨h, hw⟩

end CabOS
