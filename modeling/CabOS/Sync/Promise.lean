import CabOS.Library.Phases

/-!
# The promise

`Promise::set` stores the value and empties the queue of waiters in one section under the lock.  It
schedules the threads one by one when the lock is free again, and other threads call `get` in
between.  A run is a list of such steps in whatever order they come; `none` is a panic.
-/

namespace CabOS

open Function

/-- Where a thread is in its call of `get`. -/
inductive PromisePhase where
  | idle
  | trying
  | spinning
  | queued
  deriving DecidableEq

/-- A promise and the threads that use it. -/
structure Promise (τ α : Type) where
  value : Option α
  waiters : List τ
  /-- The threads that `set` has taken out of `waiters` and not scheduled yet. -/
  toWake : List τ
  phase : τ → PromisePhase
  /-- The calls of `get` that have returned, which the kernel does not keep. -/
  returned : List (τ × α)

namespace Promise

/-- What can happen next. -/
inductive Step (τ α : Type) where
  | call (t : τ)
  | get (t : τ) (canYield : Bool)
  | spin (t : τ)
  | set (x : α)
  /-- The thread that has called `set` schedules the next thread. -/
  | wake

variable {τ α : Type}

/-- `Promise::new`, before any call. -/
def new : Promise τ α := ⟨none, [], [], fun _ => .idle, []⟩

/-- The values given to `set`. -/
def sets (es : List (Step τ α)) : List α :=
  es.filterMap fun | .set x => some x | _ => none

variable [DecidableEq τ]

/-- A thread goes on in its call. -/
def goto (c : Promise τ α) (t : τ) (p : PromisePhase) : Promise τ α :=
  { c with phase := update c.phase t p }

/-- The body of the loop of `get`, up to the end of the section. -/
def tryGet (c : Promise τ α) (t : τ) (canYield : Bool) : Promise τ α :=
  match c.value with
  | some v => { c.goto t .idle with returned := (t, v) :: c.returned }
  | none =>
    if canYield then { c.goto t .queued with waiters := c.waiters ++ [t] } else c.goto t .spinning

/-- One step.  A step that a thread cannot make where it is changes nothing. -/
def step (c : Promise τ α) : Step τ α → Option (Promise τ α)
  | .call t => some (if c.phase t = .idle then c.goto t .trying else c)
  | .get t canYield => some (if c.phase t = .trying then c.tryGet t canYield else c)
  | .spin t => some (if c.phase t = .spinning ∧ c.value.isSome then c.goto t .trying else c)
  | .set x =>
    -- `assert!(st.value.is_none())`
    if c.value.isNone then
      some { c with value := some x, waiters := [], toWake := c.toWake ++ c.waiters }
    else none
  | .wake =>
    some { c with toWake := c.toWake.tail, phase := scheduled c.phase .trying c.toWake.head? }

/-- The steps of a run. -/
def run (c : Promise τ α) (es : List (Step τ α)) : Option (Promise τ α) := es.foldlM step c

/-- What holds between two steps. -/
structure Inv (c : Promise τ α) : Prop where
  queue : Queue c.phase .queued (c.toWake ++ c.waiters)
  waiters : c.value.isSome → c.waiters = []
  returned : ∀ r ∈ c.returned, c.value = some r.2

variable {c c' : Promise τ α} {e : Step τ α} {es : List (Step τ α)} {t : τ} {p : PromisePhase}

/-- A thread that does not sleep goes on. -/
lemma Inv.goto (h : Inv c) (ht : c.phase t ≠ .queued) (hp : p ≠ .queued) : Inv (c.goto t p) :=
  ⟨h.queue.other ht hp, h.waiters, h.returned⟩

/-- One section of `get` keeps the invariant. -/
lemma Inv.tryGet (h : Inv c) (ht : c.phase t ≠ .queued) (y : Bool) : Inv (c.tryGet t y) := by
  unfold Promise.tryGet
  split
  next v hv =>
    refine ⟨h.queue.other ht (by decide), h.waiters, fun r hr => ?_⟩
    rcases List.mem_cons.mp hr with rfl | hr
    · exact hv
    · exact h.returned r hr
  next hv =>
    split
    · refine ⟨?_, by simp [Promise.goto, hv], h.returned⟩
      simpa only [Promise.goto, List.append_assoc] using h.queue.push ht
    · exact h.goto ht (by decide)

/-- One step keeps the invariant. -/
lemma Inv.step (h : Inv c) (he : c.step e = some c') : Inv c' := by
  cases e with
  | call t =>
    obtain rfl := Option.some.inj he
    split_ifs with ht
    · exact h.goto (by simp [ht]) (by decide)
    · exact h
  | get t y =>
    obtain rfl := Option.some.inj he
    split_ifs with ht
    · exact h.tryGet (by simp [ht]) y
    · exact h
  | spin t =>
    obtain rfl := Option.some.inj he
    split_ifs with ht
    · exact h.goto (by simp [ht.1]) (by decide)
    · exact h
  | set x =>
    obtain ⟨hv, hc⟩ := Option.ite_none_right_eq_some.mp he
    obtain rfl := Option.some.inj hc
    refine ⟨by simpa using h.queue, fun _ => rfl, fun r hr => ?_⟩
    simp [h.returned r hr] at hv
  | wake =>
    obtain rfl := Option.some.inj he
    refine ⟨?_, h.waiters, h.returned⟩
    have hq := h.queue
    cases hw : c.toWake with
    | nil => rwa [hw] at hq
    | cons u q =>
      rw [hw] at hq
      exact hq.pop (by decide)

/-- A run keeps the invariant. -/
lemma Inv.run (h : Inv c) (he : c.run es = some c') : Inv c' := by
  induction es generalizing c with
  | nil =>
    obtain rfl := Option.some.inj he
    exact h
  | cons e es ih =>
    obtain ⟨d, hd, hrun⟩ := Option.bind_eq_some_iff.mp he
    exact ih (h.step hd) hrun

omit [DecidableEq τ] in
/-- The promise before any call. -/
lemma inv_new : Inv (new : Promise τ α) :=
  ⟨Queue.nil fun _ => by simp [new], fun _ => rfl, by simp [new]⟩

/-- What one step does to the value. -/
lemma value_step (c : Promise τ α) (e : Step τ α) :
    (c.step e).elim (2 ≤ (c.value.toList ++ sets [e]).length)
    fun d => d.value.toList = c.value.toList ++ sets [e] := by
  cases e with
  | set x => cases hv : c.value <;> simp [step, sets, hv]
  | get t y =>
    simp only [step, tryGet, goto, sets]
    grind
  | _ =>
    simp only [step, goto, sets]
    grind

/-- What a run does to the value: it panics at the second value. -/
lemma value_run (c : Promise τ α) (es : List (Step τ α)) :
    (c.run es).elim (2 ≤ (c.value.toList ++ sets es).length)
    fun d => d.value.toList = c.value.toList ++ sets es := by
  induction es generalizing c with
  | nil => simp [run, sets]
  | cons e es ih =>
    have hsets : sets (e :: es) = sets [e] ++ sets es := List.filterMap_append (l := [e])
    have hone := value_step c e
    rw [hsets, ← List.append_assoc, run, List.foldlM_cons]
    cases hd : c.step e with
    | none =>
      rw [hd] at hone
      simp only [Option.elim_none, List.length_append] at hone
      simp
      omega
    | some d =>
      rw [hd, Option.elim_some] at hone
      rw [← hone]
      exact ih d

/-- A run panics exactly if `set` is called twice.  Otherwise the value is that of the one call,
every `get` that has returned got it, the sleeping threads stand in the queues, each once, and as
soon as there is a value they are all about to be scheduled. -/
theorem run_new (es : List (Step τ α)) : (run new es = none ↔ 2 ≤ (sets es).length) ∧
    ∀ c, run new es = some c → c.value = (sets es).head? ∧ (∀ r ∈ c.returned, c.value = some r.2) ∧
      (c.toWake ++ c.waiters).Nodup ∧ (∀ t, t ∈ c.toWake ++ c.waiters ↔ c.phase t = .queued) ∧
      (c.value.isSome → c.waiters = []) := by
  have hvalue := value_run new es
  cases hc : run new es with
  | none =>
    rw [hc] at hvalue
    exact ⟨⟨fun _ => hvalue, fun _ => rfl⟩, nofun⟩
  | some c =>
    rw [hc] at hvalue
    have hsets : sets es = c.value.toList := hvalue.symm
    have h := inv_new.run hc
    refine ⟨⟨nofun, fun htwo => ?_⟩, ?_⟩
    · rw [hsets] at htwo
      cases hv : c.value <;> simp [hv] at htwo
    · rintro _ ⟨⟩
      exact ⟨by rw [hsets, Option.head?_toList], h.returned, h.queue.nodup, h.queue.mem_iff,
        h.waiters⟩

end Promise

end CabOS
