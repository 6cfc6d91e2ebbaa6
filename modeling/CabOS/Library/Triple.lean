import CabOS.Library.Exec

/-!
# Pre- and postconditions

`Triple P x Q E` says that from every state of `P` the computation `x` returns a value and a state
of `Q`, or fails in a state of `E`.  There is one rule for each operation of the monad `EStateM`, so
that a triple follows the text of the program.  `Maintains I x` is the case in which all conditions
are the same. `RaisesOnly P x` says which errors the computation can end with.
-/

namespace CabOS

open Pure MonadState

variable {ε σ α β : Type} {f : α → EStateM ε σ β} {c : Prop} {y : EStateM ε σ α} (err : ε)

/-- From every state of `P`, the computation returns in `Q` or fails in `E`. -/
structure Triple (P : σ → Prop) (x : EStateM ε σ α) (Q : α → σ → Prop) (E : σ → Prop) : Prop where
  run : ∀ s, P s →
    match x s with
    | .ok a t => Q a t
    | .error _ t => E t

namespace Triple

variable {P P' : σ → Prop} {x : EStateM ε σ α} {Q Q' : α → σ → Prop} {E : σ → Prop}
  {s t : σ} {a : α}

lemma of_ok (h : Triple P x Q E) (hs : P s) (e : x s = .ok a t) : Q a t := by
  have := h.run s hs
  rwa [e] at this

lemma of_error (h : Triple P x Q E) (hs : P s) {err : ε} (e : x s = .error err t) : E t := by
  have := h.run s hs
  rwa [e] at this

/-- A triple from its two cases. -/
lemma of_cases (hok : ∀ s a t, P s → x s = .ok a t → Q a t)
    (herror : ∀ s e t, P s → x s = .error e t → E t) :
    Triple P x Q E := by
  refine ⟨fun s hs => ?_⟩
  cases e : x s with
  | ok a t => exact hok s a t hs e
  | error err t => exact herror s err t hs e

/-- What holds in both cases holds of the state that is reached. -/
lemma finalState (h : Triple P x (fun _ => E) E) (hs : P s) : E (finalState x s) := by
  cases e : x s with
  | ok a t =>
    rw [finalState_of_ok e]
    exact h.of_ok hs e
  | error err t =>
    rw [finalState_of_error e]
    exact h.of_error hs e

/-- A stronger precondition and a weaker postcondition. -/
lemma weaken (h : Triple P x Q E) (hP : ∀ s, P' s → P s) (hQ : ∀ a t, Q a t → Q' a t) :
    Triple P' x Q' E :=
  of_cases (fun s a t hs e => hQ a t (h.of_ok (hP s hs) e)) fun s _ _ hs e => h.of_error (hP s hs) e

/-- Sequencing. -/
lemma bind {R : β → σ → Prop} (h : Triple P x Q E) (hf : ∀ a, Triple (Q a) (f a) R E) :
    Triple P (x >>= f) R E := by
  refine of_cases (fun s b t hs e => ?_) fun s err t hs e => ?_
  · obtain ⟨a, s', ex, ef⟩ := exec_bind_eq_ok.mp e
    exact (hf a).of_ok (h.of_ok hs ex) ef
  · rw [exec_bind] at e
    cases ex : x s with
    | ok a s' =>
      rw [ex] at e
      exact (hf a).of_error (h.of_ok hs ex) e
    | error err' s' =>
      rw [ex] at e
      cases e
      exact h.of_error hs ex

lemma pure (h : ∀ s, P s → Q a s) : Triple P (pure a : EStateM ε σ α) Q E := ⟨h⟩

lemma throw (h : ∀ s, P s → E s) : Triple P (MonadExcept.throw err : EStateM ε σ α) Q E := ⟨h⟩

/-- The state is read. -/
lemma get {Q : σ → σ → Prop} (h : ∀ s, P s → Q s s) : Triple P (get : EStateM ε σ σ) Q E := ⟨h⟩

lemma modifyState {f : σ → σ} {Q : PUnit → σ → Prop} (h : ∀ s, P s → Q ⟨⟩ (f s)) :
    Triple P (modify f : EStateM ε σ PUnit) Q E := ⟨h⟩

/-- A choice. -/
lemma ite [Decidable c] (hx : c → Triple P x Q E)
    (hy : ¬ c → Triple P y Q E) : Triple P (if c then x else y) Q E := by
  split_ifs with hc
  · exact hx hc
  · exact hy hc

/-- A check that fails the computation. -/
lemma guard [Decidable c] {f : PUnit → EStateM ε σ α} (hE : ∀ s, P s → E s)
    (h : ¬ c → Triple P (f ⟨⟩) Q E) :
    Triple P (if c then MonadExcept.throw err >>= f else f ⟨⟩) Q E :=
  ite (fun _ => bind (throw (Q := fun _ _ => False) err hE) fun _ => ⟨fun _ h => h.elim⟩) h

end Triple

/-- The computation keeps `I`, whether it returns or fails. -/
def Maintains (I : σ → Prop) (x : EStateM ε σ α) : Prop := Triple I x (fun _ => I) I

namespace Maintains

variable {I : σ → Prop} {x : EStateM ε σ α}

lemma finalState (h : Maintains I x) {s : σ} (hs : I s) : I (CabOS.finalState x s) :=
  Triple.finalState h hs

/-- It is enough to look at the state that is reached. -/
lemma of_finalState (h : ∀ s, I s → I (CabOS.finalState x s)) : Maintains I x := by
  refine Triple.of_cases (fun s a t hs e => ?_) fun s err t hs e => ?_
  · rw [← finalState_of_ok e]
    exact h s hs
  · rw [← finalState_of_error e]
    exact h s hs

lemma bind (h : Maintains I x) (hf : ∀ a, Maintains I (f a)) : Maintains I (x >>= f) :=
  Triple.bind h hf

lemma pure (a : α) : Maintains I (Pure.pure a : EStateM ε σ α) := Triple.pure fun _ h => h

lemma throw : Maintains I (MonadExcept.throw err : EStateM ε σ α) := Triple.throw err fun _ h => h

lemma get : Maintains I (MonadState.get : EStateM ε σ σ) := Triple.get fun _ h => h

lemma modifyState {f : σ → σ} (h : ∀ s, I s → I (f s)) :
    Maintains I (modify f : EStateM ε σ PUnit) :=
  Triple.modifyState h

lemma ite [Decidable c] (hx : c → Maintains I x) (hy : ¬ c → Maintains I y) :
    Maintains I (if c then x else y) :=
  Triple.ite hx hy

end Maintains

/-- Every error of the computation is one of `P`. -/
def RaisesOnly (P : ε → Prop) (x : EStateM ε σ α) : Prop := ∀ s e t, x s = .error e t → P e

namespace RaisesOnly

variable {P : ε → Prop} {x : EStateM ε σ α}

lemma bind (h : RaisesOnly P x) (hf : ∀ a, RaisesOnly P (f a)) : RaisesOnly P (x >>= f) := by
  intro s e t hst
  rw [exec_bind] at hst
  cases hx : x s with
  | ok a s' =>
    rw [hx] at hst
    exact hf a s' e t hst
  | error e' s' =>
    rw [hx] at hst
    cases hst
    exact h s _ _ hx

lemma pure (a : α) : RaisesOnly P (pure a : EStateM ε σ α) := by
  rintro s e t ⟨⟩

lemma get : RaisesOnly P (get : EStateM ε σ σ) := by
  rintro s e t ⟨⟩

lemma modifyState (f : σ → σ) : RaisesOnly P (modify f : EStateM ε σ PUnit) := by
  rintro s e t ⟨⟩

end RaisesOnly

end CabOS
