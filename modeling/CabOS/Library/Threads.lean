import CabOS.Library.Prog

/-!
# Programs that run together

`Threads` is a memory of cells, the locks on it and a program for every thread.  A scheduler decides
which thread makes the next step; a thread that waits for a lock, or that has ended, stays where it
is.  A run is the list of the scheduler's decisions, so what holds after every list of decisions
holds for every interleaving of the steps.
-/

namespace CabOS

open Function

/-- Threads that share a memory. -/
structure Threads (τ ι : Type) (β : ι → Type) (Λ ε α : Type) where
  mem : (i : ι) → β i
  /-- Who holds a lock. -/
  locks : Λ → Option τ
  /-- What each thread still has to do. -/
  progs : τ → Prog ι β Λ ε α

namespace Threads

variable {τ ι : Type} {β : ι → Type} {Λ ε α : Type} [DecidableEq τ] [DecidableEq ι] [DecidableEq Λ]

/-- The next step of thread `t`. -/
def step (c : Threads τ ι β Λ ε α) (t : τ) : Threads τ ι β Λ ε α :=
  match c.progs t with
  | .ret _ => c
  | .fail _ => c
  | .read i next => { c with progs := update c.progs t (next (c.mem i)) }
  | .write i b next =>
    { c with mem := update c.mem i b, progs := update c.progs t next }
  | .lock l next =>
    if c.locks l = none then
      { c with locks := update c.locks l (some t), progs := update c.progs t next }
    else c
  | .unlock l next =>
    { c with locks := update c.locks l none, progs := update c.progs t next }

/-- The steps of a run, in the order the scheduler has chosen. -/
def run (c : Threads τ ι β Λ ε α) (schedule : List τ) : Threads τ ι β Λ ε α := schedule.foldl step c

/-- Thread `t` can load a cell only while nobody else is about to store to it. -/
def LoadsUndisturbed (c : Threads τ ι β Λ ε α) (t : τ) : Prop :=
  ∀ i ∈ (c.progs t).nextLoad, ∀ u, u ≠ t → (c.progs u).nextStore ≠ some i

instance [Fintype τ] (c : Threads τ ι β Λ ε α) (t : τ) : Decidable (c.LoadsUndisturbed t) :=
  inferInstanceAs (Decidable (∀ i ∈ (c.progs t).nextLoad, ∀ u, u ≠ t →
    (c.progs u).nextStore ≠ some i))

variable {c : Threads τ ι β Λ ε α} {t : τ} {i : ι}

lemma step_of_ret {a : α} (h : c.progs t = .ret a) : c.step t = c := by
  simp only [step, h]

lemma step_of_read {next : β i → Prog ι β Λ ε α} (h : c.progs t = .read i next) :
    c.step t = { c with progs := update c.progs t (next (c.mem i)) } := by
  simp only [step, h]

lemma step_of_write {b : β i} {next : Prog ι β Λ ε α} (h : c.progs t = .write i b next) : c.step t =
      { c with mem := update c.mem i b, progs := update c.progs t next } := by
  simp only [step, h]

end Threads

end CabOS
