import Mathlib

/-!
# Maximal runs of a set of numbers

`IsRun S a n` says that the `n` numbers from `a` on are in `S` and that the run cannot be extended.
If `S` is the union of a family of non-empty intervals no two of which touch, its maximal runs are
the intervals of the family (`isRun_iff`).
-/

namespace CabOS

/-- `[a, a + n)` is a maximal run of elements of `S`. -/
def IsRun (S : Set ℕ) (a n : ℕ) : Prop :=
  0 < n ∧ Set.Ico a (a + n) ⊆ S ∧ a + n ∉ S ∧ ∀ c, c + 1 = a → c ∉ S

section

variable {α : Type*} {base length : α → ℕ} {t : Set α} {S : Set ℕ}

/-- Two members of a family whose intervals do not touch and share a number or a border have the
same base. -/
lemma base_eq_of_touch (hsep : ∀ f ∈ t, ∀ g ∈ t, base f < base g → base f + length f < base g)
    {f g : α} (hf : f ∈ t)
    (hg : g ∈ t) (h1 : base f ≤ base g + length g) (h2 : base g ≤ base f + length f) :
    base f = base g := by
  rcases Nat.lt_trichotomy (base f) (base g) with hlt | heq | hgt
  · have := hsep f hf g hg hlt
    omega
  · exact heq
  · have := hsep g hg f hf hgt
    omega

/-- The maximal runs of a union of intervals that do not touch are these intervals. -/
lemma isRun_iff (hS : ∀ x, x ∈ S ↔ ∃ f ∈ t, base f ≤ x ∧ x < base f + length f)
    (hpos : ∀ f ∈ t, 0 < length f)
    (hsep : ∀ f ∈ t, ∀ g ∈ t, base f < base g → base f + length f < base g)
    (heq : ∀ f ∈ t, ∀ g ∈ t, base f = base g → length f = length g) (a n : ℕ) :
    IsRun S a n ↔ ∃ f ∈ t, base f = a ∧ length f = n := by
  constructor
  · rintro ⟨hn, hsub, htop, hbot⟩
    -- the interval that contains `a` starts and ends with the run
    obtain ⟨f, hf, h1, h2⟩ := (hS a).mp (hsub ⟨le_rfl, by omega⟩)
    have hbase : base f = a := by
      by_contra hne
      exact hbot (a - 1) (by omega) ((hS _).mpr ⟨f, hf, by omega, by omega⟩)
    refine ⟨f, hf, hbase, ?_⟩
    rcases Nat.lt_trichotomy (length f) n with hlt | hlen | hgt
    · -- the number after `f` is in `S`, but no interval touches `f`
      exfalso
      obtain ⟨g, hg, h3, h4⟩ := (hS (base f + length f)).mp (hsub ⟨by omega, by omega⟩)
      have hfg := base_eq_of_touch hsep hf hg (by omega) h3
      have := heq f hf g hg hfg
      omega
    · exact hlen
    · exact absurd ((hS _).mpr ⟨f, hf, by omega, by omega⟩) htop
  · rintro ⟨f, hf, rfl, rfl⟩
    refine ⟨hpos f hf, fun x hx => (hS x).mpr ⟨f, hf, hx⟩, ?_, ?_⟩
    · intro hmem
      obtain ⟨g, hg, h1, h2⟩ := (hS _).mp hmem
      have hfg := base_eq_of_touch hsep hf hg (by omega) h1
      have := heq f hf g hg hfg
      omega
    · intro c hc hmem
      obtain ⟨g, hg, h1, h2⟩ := (hS _).mp hmem
      have := base_eq_of_touch hsep hf hg (by omega) (by omega)
      omega

end

end CabOS
