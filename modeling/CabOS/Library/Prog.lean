import CabOS.Library.Exec

/-!
# Programs over a memory of cells

`Prog ι β Λ ε α` is the text of a program that works on a memory with a cell of type `β i` for every
`i : ι`, under locks from `Λ`.  It ends with a value of type `α` or with an error of type `ε`.  Each
load, store, lock and unlock is one step, so that one and the same text can be run alone
(`Prog.run`) and together with others (`CabOS.Library.Threads`).  Run alone, programs are
computations of the standard monad `EStateM`, and every operation on texts is the corresponding
operation on computations.
-/

namespace CabOS

open Function

/-- A program, as the tree of its possible steps. -/
inductive Prog (ι : Type) (β : ι → Type) (Λ ε α : Type) : Type where
  | ret (a : α)
  | fail (e : ε)
  | read (i : ι) (next : β i → Prog ι β Λ ε α)
  | write (i : ι) (b : β i) (next : Prog ι β Λ ε α)
  | lock (l : Λ) (next : Prog ι β Λ ε α)
  | unlock (l : Λ) (next : Prog ι β Λ ε α)

namespace Prog

variable {ι : Type} {β : ι → Type} {Λ ε α γ δ : Type} {a : α} {i : ι} {p : Prog ι β Λ ε α} (l : Λ)

/-- Run the second program after the first one has returned. -/
protected def bind : Prog ι β Λ ε α → (α → Prog ι β Λ ε γ) → Prog ι β Λ ε γ
  | .ret a, f => f a
  | .fail e, _ => .fail e
  | .read i next, f => .read i fun b => (next b).bind f
  | .write i b next, f => .write i b (next.bind f)
  | .lock l next, f => .lock l (next.bind f)
  | .unlock l next, f => .unlock l (next.bind f)

instance : Monad (Prog ι β Λ ε) where
  pure := .ret
  bind := Prog.bind

/-- Returning at once adds nothing to a program. -/
lemma bind_ret (p : Prog ι β Λ ε α) : p.bind .ret = p := by
  induction p with
  | ret a => rfl
  | fail e => rfl
  | read i next ih => exact congrArg (read i) (funext ih)
  | write i b next ih => exact congrArg (write i b) ih
  | lock l next ih => exact congrArg (lock l) ih
  | unlock l next ih => exact congrArg (unlock l) ih

/-- Three programs in a row. -/
lemma bind_bind (p : Prog ι β Λ ε α) (f : α → Prog ι β Λ ε γ) (g : γ → Prog ι β Λ ε δ) :
    (p.bind f).bind g = p.bind fun a => (f a).bind g := by
  induction p with
  | ret a => rfl
  | fail e => rfl
  | read i next ih => exact congrArg (read i) (funext ih)
  | write i b next ih => exact congrArg (write i b) ih
  | lock l next ih => exact congrArg (lock l) ih
  | unlock l next ih => exact congrArg (unlock l) ih

instance : LawfulMonad (Prog ι β Λ ε) := LawfulMonad.mk' _ bind_ret (fun _ _ => rfl) bind_bind

/-- Load a cell. -/
def load (i : ι) : Prog ι β Λ ε (β i) := .read i .ret

/-- Store a value in a cell. -/
def store (i : ι) (b : β i) : Prog ι β Λ ε Unit := .write i b (.ret ())

/-- End with an error. -/
def throw (e : ε) : Prog ι β Λ ε α := .fail e

/-- Unlock when the program ends, with a value or an error. -/
def thenUnlock (l : Λ) : Prog ι β Λ ε α → Prog ι β Λ ε α
  | .ret a => .unlock l (.ret a)
  | .fail e => .unlock l (.fail e)
  | .read i next => .read i fun b => (next b).thenUnlock l
  | .write i b next => .write i b (next.thenUnlock l)
  | .lock l' next => .lock l' (next.thenUnlock l)
  | .unlock l' next => .unlock l' (next.thenUnlock l)

/-- Run a program under a lock. -/
def withLock (l : Λ) (p : Prog ι β Λ ε α) : Prog ι β Λ ε α := .lock l (p.thenUnlock l)

/-- The cell that the next step loads, if it is a load. -/
def nextLoad : Prog ι β Λ ε α → Option ι
  | .read i _ => some i
  | _ => none

/-- The cell that the next step stores to, if it is a store. -/
def nextStore : Prog ι β Λ ε α → Option ι
  | .write i _ _ => some i
  | _ => none

/-- The value of a program that has returned. -/
def returned : Prog ι β Λ ε α → Option α
  | .ret a => some a
  | _ => none

lemma eq_ret_of_returned (h : p.returned = some a) : p = .ret a := by
  cases p with
  | ret a' => exact congrArg ret (Option.some.inj h)
  | _ => cases h

/-! ## What a program can do -/

/-- Whatever the cells hold, the program fails only with these errors. -/
def OnlyFails (P : ε → Prop) : Prog ι β Λ ε α → Prop
  | .ret _ => True
  | .fail e => P e
  | .read _ next => ∀ b, (next b).OnlyFails P
  | .write _ _ next => next.OnlyFails P
  | .lock _ next => next.OnlyFails P
  | .unlock _ next => next.OnlyFails P

/-- Whatever the cells hold, the program stores to none. -/
def OnlyLoads : Prog ι β Λ ε α → Prop
  | .ret _ => True
  | .fail _ => True
  | .read _ next => ∀ b, (next b).OnlyLoads
  | .write _ _ _ => False
  | .lock _ next => next.OnlyLoads
  | .unlock _ next => next.OnlyLoads

/-- Whatever the cells hold, the program stores only to these. -/
def OnlyStores (W : ι → Prop) : Prog ι β Λ ε α → Prop
  | .ret _ => True
  | .fail _ => True
  | .read _ next => ∀ b, (next b).OnlyStores W
  | .write i _ next => W i ∧ next.OnlyStores W
  | .lock _ next => next.OnlyStores W
  | .unlock _ next => next.OnlyStores W

section

variable {P : ε → Prop} {W : ι → Prop} {p q : Prog ι β Λ ε α} {f : α → Prog ι β Λ ε γ}
  {c : Prop} [Decidable c]

lemma onlyFails_pure (a : α) : (pure a : Prog ι β Λ ε α).OnlyFails P := trivial

lemma onlyFails_load (i : ι) : (load i : Prog ι β Λ ε (β i)).OnlyFails P := fun _ => trivial

lemma onlyFails_store (i : ι) (b : β i) : (store i b : Prog ι β Λ ε Unit).OnlyFails P := trivial

lemma OnlyFails.bind (hp : p.OnlyFails P) (hf : ∀ a, (f a).OnlyFails P) :
    (p >>= f).OnlyFails P := by
  change (p.bind f).OnlyFails P
  induction p with
  | ret a => exact hf a
  | fail e => exact hp
  | read i next ih => exact fun b => ih b (hp b)
  | write i b next ih => exact ih hp
  | lock l next ih => exact ih hp
  | unlock l next ih => exact ih hp

lemma OnlyFails.ite (hp : c → p.OnlyFails P) (hq : ¬c → q.OnlyFails P) :
    (if c then p else q).OnlyFails P := by
  split_ifs with hc
  · exact hp hc
  · exact hq hc

lemma OnlyFails.withLock (hp : p.OnlyFails P) (l : Λ) : (withLock l p).OnlyFails P := by
  change (p.thenUnlock l).OnlyFails P
  induction p with
  | ret a => trivial
  | fail e => exact hp
  | read i next ih => exact fun b => ih b (hp b)
  | write i b next ih => exact ih hp
  | lock l' next ih => exact ih hp
  | unlock l' next ih => exact ih hp

lemma onlyLoads_pure (a : α) : (pure a : Prog ι β Λ ε α).OnlyLoads := trivial

lemma onlyLoads_throw (e : ε) : (throw e : Prog ι β Λ ε α).OnlyLoads := trivial

lemma onlyLoads_load (i : ι) : (load i : Prog ι β Λ ε (β i)).OnlyLoads := fun _ => trivial

lemma OnlyLoads.bind (hp : p.OnlyLoads) (hf : ∀ a, (f a).OnlyLoads) : (p >>= f).OnlyLoads := by
  change (p.bind f).OnlyLoads
  induction p with
  | ret a => exact hf a
  | fail e => trivial
  | read i next ih => exact fun b => ih b (hp b)
  | write i b next ih => exact hp.elim
  | lock l next ih => exact ih hp
  | unlock l next ih => exact ih hp

lemma OnlyLoads.ite (hp : p.OnlyLoads) (hq : q.OnlyLoads) : (if c then p else q).OnlyLoads := by
  split_ifs
  · exact hp
  · exact hq

lemma onlyStores_pure (a : α) : (pure a : Prog ι β Λ ε α).OnlyStores W := trivial

lemma onlyStores_throw (e : ε) : (throw e : Prog ι β Λ ε α).OnlyStores W := trivial

lemma onlyStores_load (i : ι) : (load i : Prog ι β Λ ε (β i)).OnlyStores W := fun _ => trivial

lemma onlyStores_store (hi : W i) (b : β i) : (store i b : Prog ι β Λ ε Unit).OnlyStores W :=
  ⟨hi, trivial⟩

section

variable (hp : p.OnlyStores W)
include hp

lemma OnlyStores.bind (hf : ∀ a, (f a).OnlyStores W) : (p >>= f).OnlyStores W := by
  change (p.bind f).OnlyStores W
  induction p with
  | ret a => exact hf a
  | fail e => trivial
  | read i next ih => exact fun b => ih b (hp b)
  | write i b next ih => exact ⟨hp.1, ih hp.2⟩
  | lock l next ih => exact ih hp
  | unlock l next ih => exact ih hp

lemma OnlyStores.ite (hq : q.OnlyStores W) : (if c then p else q).OnlyStores W := by
  split_ifs
  · exact hp
  · exact hq

lemma OnlyStores.withLock : (withLock l p).OnlyStores W := by
  change (p.thenUnlock l).OnlyStores W
  induction p with
  | ret a => trivial
  | fail e => trivial
  | read i next ih => exact fun b => ih b (hp b)
  | write i b next ih => exact ⟨hp.1, ih hp.2⟩
  | lock l' next ih => exact ih hp
  | unlock l' next ih => exact ih hp

end

/-- A program that stores to no cell stores to these only. -/
lemma OnlyLoads.onlyStores (hp : p.OnlyLoads) : p.OnlyStores W := by
  induction p with
  | ret a => trivial
  | fail e => trivial
  | read i next ih => exact fun b => ih b (hp b)
  | write i b next ih => exact hp.elim
  | lock l next ih => exact ih hp
  | unlock l next ih => exact ih hp

end

/-! ## Running alone -/

variable [DecidableEq ι] {e : ε} {f : α → Prog ι β Λ ε γ}

/-- Run a program while nobody else touches the memory or the locks. -/
def run : Prog ι β Λ ε α → EStateM ε ((i : ι) → β i) α
  | .ret a => pure a
  | .fail e => MonadExcept.throw e
  | .read i next => fun m => (next (m i)).run m
  | .write i b next => fun m => next.run (update m i b)
  | .lock _ next => next.run
  | .unlock _ next => next.run

@[simp] lemma run_pure (a : α) : (pure a : Prog ι β Λ ε α).run = pure a := rfl

/-- A sequence of programs is run one after the other. -/
@[simp] lemma run_bind (p : Prog ι β Λ ε α) (f : α → Prog ι β Λ ε γ) :
    (p >>= f).run = p.run >>= fun a => (f a).run := by
  change (p.bind f).run = _
  induction p with
  | ret a => rfl
  | fail e => rfl
  | read i next ih =>
    funext m
    exact congrFun (ih (m i)) m
  | write i b next ih =>
    funext m
    exact congrFun ih (update m i b)
  | lock l next ih => exact ih
  | unlock l next ih => exact ih

/-- A sequence goes on where its first program has returned. -/
lemma run_bind_ok {m m' : (i : ι) → β i} (h : p.run m = .ok a m') :
    (p >>= f).run m = (f a).run m' := by
  rw [run_bind, exec_bind, h]

/-- A sequence ends where its first program has failed. -/
lemma run_bind_error {m m' : (i : ι) → β i} (h : p.run m = .error e m') :
    (p >>= f).run m = .error e m' := by
  rw [run_bind, exec_bind, h]

@[simp] lemma run_ite (c : Prop) [Decidable c] (p q : Prog ι β Λ ε α) :
    (if c then p else q).run = if c then p.run else q.run := by
  split_ifs <;> rfl

/-- Alone, a program does not notice its locks. -/
@[simp] lemma run_thenUnlock (p : Prog ι β Λ ε α) : (p.thenUnlock l).run = p.run := by
  induction p with
  | ret a => rfl
  | fail e => rfl
  | read i next ih =>
    funext m
    exact congrFun (ih (m i)) m
  | write i b next ih =>
    funext m
    exact congrFun ih (update m i b)
  | lock l' next ih => exact ih
  | unlock l' next ih => exact ih

@[simp] lemma run_withLock (p : Prog ι β Λ ε α) : (withLock l p).run = p.run :=
  run_thenUnlock l p

/-- Run alone, a program raises one of its errors. -/
lemma OnlyFails.of_raisedError {P : ε → Prop} (hp : p.OnlyFails P) {m : (i : ι) → β i}
    (h : raisedError p.run m = some e) : P e := by
  induction p generalizing m with
  | ret a => cases h
  | fail e' =>
    cases h
    exact hp
  | read i next ih => exact ih (m i) (hp (m i)) h
  | write i b next ih => exact ih hp h
  | lock l next ih => exact ih hp h
  | unlock l next ih => exact ih hp h

/-- Run alone, a program without stores leaves the memory as it is. -/
lemma OnlyLoads.finalState_eq (hp : p.OnlyLoads) (m : (i : ι) → β i) : finalState p.run m = m := by
  induction p with
  | ret a => rfl
  | fail e => rfl
  | read i next ih => exact ih (m i) (hp (m i))
  | write i b next ih => exact hp.elim
  | lock l next ih => exact ih hp
  | unlock l next ih => exact ih hp

/-- Run alone, a program leaves the cells that it does not store to as they are. -/
lemma OnlyStores.finalState_apply {W : ι → Prop} (hp : p.OnlyStores W) (hi : ¬W i)
    (m : (i : ι) → β i) : finalState p.run m i = m i := by
  induction p generalizing m with
  | ret a => rfl
  | fail e => rfl
  | read j next ih => exact ih (m j) (hp (m j)) m
  | write j b next ih =>
    have hne : i ≠ j := fun heq => hi (heq ▸ hp.1)
    refine (ih hp.2 (update m j b)).trans ?_
    rw [update_of_ne hne]
  | lock l next ih => exact ih hp m
  | unlock l next ih => exact ih hp m

end Prog

end CabOS
