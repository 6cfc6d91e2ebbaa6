import Mathlib

/-!
# Threads in phases

A protocol between threads is described by the phase that every thread is in.  `numIn phase P` is
the number of threads whose phase satisfies `P`.  When one thread changes its phase, only its own
contribution changes, so the counters of a protocol can be compared with the numbers of threads step
by step.

Threads that sleep stand in a queue.  `Queue phase p q` says that `q` holds the threads of phase
`p`, each once; `scheduled phase p o` is the phases after a thread popped from a queue was made
runnable again.
-/

namespace CabOS

open Function Finset

variable {τ φ : Type*} [Fintype τ]

/-- The number of threads whose phase satisfies `P`. -/
def numIn (phase : τ → φ) (P : φ → Bool) : ℕ := (univ.filter fun t => P (phase t) = true).card

variable {phase phase' : τ → φ} {P Q : φ → Bool}

lemma numIn_eq_sum : numIn phase P = ∑ t, (P (phase t)).toNat := by
  rw [numIn, card_filter]
  refine sum_congr rfl fun t _ => ?_
  cases P (phase t) <;> rfl

lemma numIn_congr (h : ∀ t, P (phase' t) = P (phase t)) : numIn phase' P = numIn phase P := by
  simp only [numIn, h]

lemma numIn_pos_iff : 0 < numIn phase P ↔ ∃ t, P (phase t) := by
  simp [numIn, card_pos, filter_nonempty_iff]

lemma numIn_eq_zero_iff : numIn phase P = 0 ↔ ∀ t, P (phase t) = false := by
  simp [numIn, filter_eq_empty_iff]

lemma eq_of_numIn_le_one (h : numIn phase P ≤ 1) {t u : τ} (ht : P (phase t))
    (hu : P (phase u)) : t = u :=
  card_le_one.mp h t (by simpa using ht) u (by simpa using hu)

variable [DecidableEq τ] {t : τ} {a : φ} {q : List τ} {p : φ}

/-- One thread changes its phase. -/
lemma numIn_update (phase : τ → φ) (P : φ → Bool) (t : τ) (a : φ) :
    numIn (update phase t a) P + (P (phase t)).toNat = numIn phase P + (P a).toNat := by
  have hrest : ∑ u ∈ univ.erase t, (P (update phase t a u)).toNat = ∑ u ∈ univ.erase t,
    (P (phase u)).toNat := by
    refine sum_congr rfl fun u hu => ?_
    rw [update_of_ne (ne_of_mem_erase hu)]
  have hnew := add_sum_erase univ (fun u => (P (update phase t a u)).toNat) (mem_univ t)
  have hold := add_sum_erase univ (fun u => (P (phase u)).toNat) (mem_univ t)
  simp only [update_self] at hnew
  rw [numIn_eq_sum, numIn_eq_sum, ← hnew, ← hold, hrest]
  ac_rfl

/-- A change that does not concern `P`. -/
lemma numIn_update_same (h : P a = P (phase t)) : numIn (update phase t a) P = numIn phase P := by
  have hsum := numIn_update phase P t a
  rw [h] at hsum
  exact Nat.add_right_cancel hsum

/-- A thread comes in. -/
lemma numIn_update_enter (hold : P (phase t) = false) (hnew : P a) :
    numIn (update phase t a) P = numIn phase P + 1 := by
  have hsum := numIn_update phase P t a
  rwa [hold, hnew] at hsum

/-- A thread goes away. -/
lemma numIn_update_leave (hold : P (phase t)) (hnew : P a = false) :
    numIn (update phase t a) P + 1 = numIn phase P := by
  have hsum := numIn_update phase P t a
  rwa [hold, hnew] at hsum

/-! ## Queues of threads -/

section

omit [Fintype τ]

omit [DecidableEq τ] in
/-- The queue holds the threads of phase `p`, each once. -/
structure Queue (phase : τ → φ) (p : φ) (q : List τ) : Prop where
  nodup : q.Nodup
  mem_iff : ∀ t, t ∈ q ↔ phase t = p

/-- The thread that was popped, if any, goes on in phase `a`. -/
def scheduled (phase : τ → φ) (a : φ) : Option τ → τ → φ
  | some t => update phase t a
  | none => phase

variable {p : φ} {q : List τ} {q' : List τ} {p' : φ}

omit [DecidableEq τ] in
lemma Queue.nil (h : ∀ t, phase t ≠ p) : Queue phase p [] := by
  refine ⟨List.nodup_nil, fun t => ?_⟩
  simp [h t]

/-- The first thread of the queue is made runnable. -/
lemma Queue.pop (h : Queue phase p (t :: q)) (hnew : a ≠ p) : Queue (update phase t a) p q := by
  obtain ⟨hout, hnodup⟩ := List.nodup_cons.mp h.nodup
  refine ⟨hnodup, fun u => ?_⟩
  rcases eq_or_ne u t with rfl | hu
  · simp [hout, hnew]
  · simp [← h.mem_iff, hu]

/-- All threads of the queue go on in phase `a`. -/
def scheduledAll (phase : τ → φ) (a : φ) (q : List τ) (t : τ) : φ := if t ∈ q then a else phase t

section

variable (h : Queue phase p q)
include h

/-- A change of phase that has nothing to do with the queue. -/
lemma Queue.other (hold : phase t ≠ p) (hnew : a ≠ p) : Queue (update phase t a) p q := by
  refine ⟨h.nodup, fun u => ?_⟩
  rcases eq_or_ne u t with rfl | hu
  · simp only [update_self, h.mem_iff, hold, hnew]
  · simp only [update_of_ne hu, h.mem_iff]

/-- A thread goes to sleep. -/
lemma Queue.push (hold : phase t ≠ p) : Queue (update phase t p) p (q ++ [t]) := by
  have hout : t ∉ q := fun hmem => hold ((h.mem_iff t).mp hmem)
  refine ⟨h.nodup.append (List.nodup_singleton t) (by simpa using hout), fun u => ?_⟩
  rcases eq_or_ne u t with rfl | hu
  · simp
  · simp [h.mem_iff, hu]

/-- The first thread of the queue, if there is one, is made runnable. -/
lemma Queue.popFront (hnew : a ≠ p) : Queue (scheduled phase a q.head?) p q.tail := by
  cases q with
  | nil => exact h
  | cons t q => exact h.pop hnew

/-- The first thread of another queue, if there is one, is made runnable. -/
lemma Queue.otherFront (h' : Queue phase p' q') (hp : p' ≠ p)
    (hnew : a ≠ p) : Queue (scheduled phase a q'.head?) p q := by
  cases q' with
  | nil => exact h
  | cons t q' =>
    have ht : phase t = p' := (h'.mem_iff t).mp List.mem_cons_self
    exact h.other (by rwa [ht]) hnew

/-- All threads of the queue are made runnable. -/
lemma Queue.popAll (hnew : a ≠ p) : Queue (scheduledAll phase a q) p [] := by
  refine Queue.nil fun t => ?_
  unfold scheduledAll
  split_ifs with ht
  · exact hnew
  · exact fun hp => ht ((h.mem_iff t).mpr hp)

/-- The threads of another queue are made runnable. -/
lemma Queue.otherAll (h' : Queue phase p' q') (hp : p' ≠ p) (hnew : a ≠ p) :
    Queue (scheduledAll phase a q') p q := by
  refine ⟨h.nodup, fun t => ?_⟩
  unfold scheduledAll
  split_ifs with ht
  · simp [h.mem_iff, (h'.mem_iff t).mp ht, hp, hnew]
  · exact h.mem_iff t

end

end

/-- Making the threads of a queue runnable does not change a number that does not concern them. -/
lemma numIn_scheduledAll (h : Queue phase p q) (hP : P a = P p) :
    numIn (scheduledAll phase a q) P = numIn phase P := by
  refine numIn_congr fun t => ?_
  unfold scheduledAll
  split_ifs with ht
  · rw [hP, (h.mem_iff t).mp ht]
  · rfl

/-- Making the first thread of a queue runnable does not change a number that does not concern it.
-/
lemma numIn_scheduled (h : Queue phase p q) (hP : P a = P p) :
    numIn (scheduled phase a q.head?) P = numIn phase P := by
  cases q with
  | nil => rfl
  | cons t q =>
    have ht : phase t = p := (h.mem_iff t).mp List.mem_cons_self
    exact numIn_update_same (by rw [hP, ht])

end CabOS
