import Mathlib

/-!
# Running stateful computations that can fail

Fallible stateful code is written in the standard monad `EStateM ε σ`: a computation takes a state
and returns a value or an error, with the state reached in both cases.  The simp set below runs such
a computation on a given state, one operation at a time.
-/

namespace CabOS

/-- The two ways a call ends without a value: it returns an error, or it panics. -/
inductive Fault (ε : Type) where
  | err (e : ε)
  | panic
  deriving DecidableEq, Repr

variable {ε σ α β : Type} {x : EStateM ε σ α} {s t : σ} {a : α} {e : ε}

/-- Sequencing runs the continuation from the state the first computation reached. -/
@[simp] lemma exec_bind (x : EStateM ε σ α) (f : α → EStateM ε σ β) (s : σ) : (x >>= f) s =
      match x s with
      | .ok a t => f a t
      | .error e t => .error e t := by
  rfl

/-- A sequence returns if both parts do. -/
lemma exec_bind_eq_ok {f : α → EStateM ε σ β} {b : β} :
    (x >>= f) s = .ok b t ↔ ∃ a s', x s = .ok a s' ∧ f a s' = .ok b t := by
  rw [exec_bind]
  cases x s with
  | ok a s' => simp
  | error e s' => simp

@[simp] lemma exec_pure (a : α) (s : σ) : (pure a : EStateM ε σ α) s = .ok a s := rfl

@[simp] lemma exec_get (s : σ) : (get : EStateM ε σ σ) s = .ok s s := rfl

@[simp] lemma exec_set (t s : σ) : (set t : EStateM ε σ PUnit) s = .ok ⟨⟩ t := rfl

@[simp] lemma exec_modify (f : σ → σ) (s : σ) : (modify f : EStateM ε σ PUnit) s = .ok ⟨⟩ (f s) :=
  rfl

@[simp] lemma exec_throw (e : ε) (s : σ) : (throw e : EStateM ε σ α) s = .error e s := rfl

/-- A result that does not depend on the state. -/
@[simp] lemma exec_ofExcept (x : Except ε α) (s : σ) : (MonadExcept.ofExcept x : EStateM ε σ α) s =
      match x with
      | .ok a => .ok a s
      | .error e => .error e s := by
  cases x <;> rfl

/-- A conditional computation runs the chosen branch. -/
@[simp] lemma exec_ite (c : Prop) [Decidable c] (x y : EStateM ε σ α) (s : σ) :
    (if c then x else y) s = if c then x s else y s := by
  split_ifs <;> rfl

/-- The state a computation ends in, whether it returns or fails. -/
def finalState (x : EStateM ε σ α) (s : σ) : σ :=
  match x s with
  | .ok _ t => t
  | .error _ t => t

lemma finalState_of_ok (h : x s = .ok a t) : finalState x s = t := by
  simp [finalState, h]

lemma exec_eq_ok_finalState (h : ∃ t, x s = .ok a t) : x s = .ok a (finalState x s) := by
  obtain ⟨t, ht⟩ := h
  rw [finalState_of_ok ht, ht]

lemma finalState_of_error (h : x s = .error e t) : finalState x s = t := by
  simp [finalState, h]

/-- The value that a computation returns, if it does. -/
def returnedValue (x : EStateM ε σ α) (s : σ) : Option α :=
  match x s with
  | .ok a _ => some a
  | .error _ _ => none

lemma exec_of_returnedValue (h : returnedValue x s = some a) : x s = .ok a (finalState x s) := by
  refine exec_eq_ok_finalState ?_
  unfold returnedValue at h
  cases hx : x s with
  | error e t =>
    rw [hx] at h
    cases h
  | ok b t =>
    rw [hx] at h
    cases h
    exact ⟨t, rfl⟩

/-- The error that a computation ends with, if it does. -/
def raisedError (x : EStateM ε σ α) (s : σ) : Option ε :=
  match x s with
  | .ok _ _ => none
  | .error e _ => some e

lemma exec_of_raisedError (h : raisedError x s = some e) : x s = .error e (finalState x s) := by
  unfold raisedError at h
  cases hx : x s with
  | ok a t =>
    rw [hx] at h
    cases h
  | error e' t =>
    rw [hx] at h
    cases h
    rw [finalState_of_error hx]

end CabOS
