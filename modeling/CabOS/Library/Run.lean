import Mathlib

/-!
# Properties along a run

A run is a start state and a list of inputs, each of which moves the state by a step function.
`AlongRun step P s is` says that `P` holds of every input of the run and the state it meets.  Under
an invariant two such properties can be compared step by step (`alongRun_congr`).
-/

namespace CabOS

variable {σ ι : Type*} {step : σ → ι → σ} {P Q : σ → ι → Prop} {s : σ} {I : σ → Prop} {is : List ι}

/-- Every input `i` of the run meets a state `s` with `P s i`. -/
def AlongRun (step : σ → ι → σ) (P : σ → ι → Prop) : σ → List ι → Prop
  | _, [] => True
  | s, i :: is => P s i ∧ AlongRun step P (step s i) is

@[simp] lemma alongRun_nil (s : σ) : AlongRun step P s [] := trivial

@[simp] lemma alongRun_cons (s : σ) (i : ι) (is : List ι) :
    AlongRun step P s (i :: is) ↔ P s i ∧ AlongRun step P (step s i) is := Iff.rfl

/-- A property of single steps can be evaluated along a run. -/
instance decidableAlongRun [∀ s i, Decidable (P s i)] :
    (s : σ) → (is : List ι) → Decidable (AlongRun step P s is)
  | _, [] => isTrue trivial
  | s, i :: is =>
    have := decidableAlongRun (step s i) is
    inferInstanceAs (Decidable (P s i ∧ AlongRun step P (step s i) is))

/-- A run that is continued. -/
lemma alongRun_append {js : List ι} : AlongRun step P s (is ++ js) ↔
    AlongRun step P s is ∧ AlongRun step P (is.foldl step s) js := by
  induction is generalizing s with
  | nil => simp
  | cons i is ih => simp [ih, and_assoc]

/-- Two properties hold along a run. -/
lemma AlongRun.and (hP : AlongRun step P s is) (hQ : AlongRun step Q s is) :
    AlongRun step (fun s i => P s i ∧ Q s i) s is := by
  induction is generalizing s with
  | nil => trivial
  | cons i is ih => exact ⟨⟨hP.1, hQ.1⟩, ih hP.2 hQ.2⟩

/-- What every input keeps holds at the end of the run. -/
lemma AlongRun.invariant (hstep : ∀ s i, I s → P s i → I (step s i)) (hs : I s)
    (his : AlongRun step P s is) : I (is.foldl step s) := by
  induction is generalizing s with
  | nil => exact hs
  | cons i is ih => exact ih (hstep s i hs his.1) his.2

/-- If valid inputs with `Q` keep an invariant, and under it `P` and `Q` mean the same for valid
inputs, then both hold along the same valid runs. -/
lemma alongRun_congr_of_valid {V : σ → ι → Prop} (hPQ : ∀ s i, I s → V s i → (P s i ↔ Q s i))
    (hstep : ∀ s i, I s → V s i → Q s i → I (step s i)) (hs : I s)
    (hV : AlongRun step V s is) : AlongRun step P s is ↔ AlongRun step Q s is := by
  induction is generalizing s with
  | nil => simp
  | cons i is ih =>
    obtain ⟨hi, his⟩ := hV
    rw [alongRun_cons, alongRun_cons, hPQ s i hs hi]
    exact and_congr_right fun hQ => ih (hstep s i hs hi hQ) his

/-- If `Q` keeps an invariant under which it means the same as `P`, then both hold along the same
runs. -/
lemma alongRun_congr (hPQ : ∀ s i, I s → (P s i ↔ Q s i))
    (hstep : ∀ s i, I s → Q s i → I (step s i)) (hs : I s) (is : List ι) :
    AlongRun step P s is ↔ AlongRun step Q s is := by
  have hV : AlongRun step (fun _ _ => True) s is := by
    clear hs
    induction is generalizing s with
    | nil => simp
    | cons i is ih => exact ⟨trivial, ih⟩
  exact alongRun_congr_of_valid (fun s i h _ => hPQ s i h) (fun s i h _ => hstep s i h) hs hV

end CabOS
