import CabOS.Library.Phases
import CabOS.Library.Run
import CabOS.Library.Word

/-!
# The counting semaphore

`Semaphore::up` makes its permit public before the thread it wakes runs, so another thread can take
the permit first and the woken one has to queue again.  The model has the semaphore's state and the
phase of every thread.  One step is one section under the semaphore's `IntMutex`, or a step of a
thread outside of it; a run is a list of steps, in whatever order they come.  `can_yield()` is an
input of the step that asks it.  It is true only in the context of a thread, so the assertion after
it in `down` cannot fail.

Two numbers are kept that the kernel does not have: the calls of `down` and of `up` that have done
their section.  They let us say that no permit is lost (`conserved`), and that no thread sleeps
while a permit is free unless a woken thread is on its way to it (`awake`).
-/

namespace CabOS

open Function

/-- The section of `Semaphore::down` that takes a permit, if there is one. -/
def takePermit (count : ℕ) : Option ℕ := if count > 0 then some (count - 1) else none

/-- `count += 1` in `Semaphore::up`. -/
def givePermit (count : ℕ) : ℕ := wadd count 1

variable {count : ℕ} {p : SemPhase}

/-- A permit was there. -/
lemma takePermit_eq_some {n : ℕ} : takePermit count = some n ↔ count = n + 1 := by
  unfold takePermit
  split
  · rw [Option.some.injEq]
    omega
  · simp only [reduceCtorEq, false_iff]
    omega

/-- No permit was there. -/
lemma takePermit_eq_none : takePermit count = none ↔ count = 0 := by
  unfold takePermit
  split
  · simp only [reduceCtorEq, false_iff]
    omega
  · simp only [true_iff]
    omega

/-- A new permit is one more, unless the count is the largest word. -/
lemma givePermit_eq (h : count + 1 < usizeBound) : givePermit count = count + 1 := wadd_eq h

/-- A new permit is at most one more, also after the largest word. -/
lemma givePermit_le (count : ℕ) : givePermit count ≤ count + 1 := Nat.mod_le _ _

/-- Where a thread is in its call of `down`. -/
inductive SemPhase where
  /-- It is not in a call of `down`. -/
  | idle
  /-- It is about to lock the state. -/
  | trying
  /-- It cannot yield and looks at the count again and again. -/
  | spinning
  /-- It sleeps in the queue of waiters. -/
  | queued
  /-- It was taken out of the queue and is about to lock the state again. -/
  | woken
  deriving DecidableEq

/-- The thread was popped by `up` and has not retried yet. -/
def SemPhase.isWoken : SemPhase → Bool
  | .woken => true
  | _ => false

lemma SemPhase.isWoken_iff : p.isWoken ↔ p = .woken := by
  cases p <;> simp [SemPhase.isWoken]

/-- A semaphore and the threads that use it. -/
structure Semaphore (τ : Type) where
  count : ℕ
  waiters : List τ
  phase : τ → SemPhase
  /-- The calls of `down` that have taken their permit. -/
  downs : ℕ
  /-- The calls of `up` that have given their permit. -/
  ups : ℕ

namespace Semaphore

/-- What can happen next. -/
inductive Step (τ : Type) where
  /-- A thread calls `down`. -/
  | call (t : τ)
  /-- A thread in `down` locks the state. -/
  | down (t : τ) (canYield : Bool)
  /-- A thread that spins in `down` looks at the count. -/
  | spin (t : τ)
  /-- Somebody calls `up`. -/
  | up
  deriving DecidableEq

variable {τ : Type}

/-- `Semaphore::new`, before any call. -/
def new (initial : ℕ) : Semaphore τ := ⟨initial, [], fun _ => .idle, 0, 0⟩

variable [DecidableEq τ]

/-- A thread goes on in its call, without a permit. -/
def goto (c : Semaphore τ) (t : τ) (p : SemPhase) : Semaphore τ :=
  { c with phase := update c.phase t p }

/-- The body of the loop of `down`, up to the end of the section. -/
def tryDown (c : Semaphore τ) (t : τ) (canYield : Bool) : Semaphore τ :=
  match takePermit c.count with
  | some n => { c with count := n, phase := update c.phase t .idle, downs := c.downs + 1 }
  | none =>
    if canYield then
      -- `suspend_to_locked_queue`: the thread is queued before the state is unlocked
      { c with waiters := c.waiters ++ [t], phase := update c.phase t .queued }
    else c.goto t .spinning

/-- `Semaphore::up`.  The thread that is popped runs again at some later time. -/
def up (c : Semaphore τ) : Semaphore τ :=
  { c with
    count := givePermit c.count
    waiters := c.waiters.tail
    phase := scheduled c.phase .woken c.waiters.head?
    ups := c.ups + 1 }

/-- One step.  A step that a thread cannot make where it is changes nothing. -/
def step (c : Semaphore τ) : Step τ → Semaphore τ
  | .call t => if c.phase t = .idle then c.goto t .trying else c
  | .down t canYield => if c.phase t = .trying ∨ c.phase t = .woken then c.tryDown t canYield else c
  | .spin t => if c.phase t = .spinning ∧ c.count ≠ 0 then c.goto t .trying else c
  | .up => c.up

/-- The steps of a run. -/
def run (c : Semaphore τ) (es : List (Step τ)) : Semaphore τ := es.foldl step c

/-- The step is not an `up` that finds the largest word as the count. -/
def RoomFor (c : Semaphore τ) (e : Step τ) : Prop := e = .up → c.count + 1 < usizeBound

instance (c : Semaphore τ) (e : Step τ) : Decidable (c.RoomFor e) :=
  inferInstanceAs (Decidable (e = .up → c.count + 1 < usizeBound))

/-! ## Permits -/

section

variable {c : Semaphore τ} {initial : ℕ}

/-- No permit is lost and none is made up. -/
def Conserved (initial : ℕ) (c : Semaphore τ) : Prop :=
  c.count < usizeBound ∧ initial + c.ups = c.downs + c.count

section

variable (h : Conserved initial c)
include h

/-- Locking the state in `down` moves at most one permit from the count to the caller. -/
lemma Conserved.tryDown (t : τ) (canYield : Bool) : Conserved initial (c.tryDown t canYield) := by
  obtain ⟨hlt, hsum⟩ := h
  unfold Semaphore.tryDown
  cases htake : takePermit c.count with
  | some n =>
    rw [takePermit_eq_some] at htake
    simp only [Conserved]
    omega
  | none =>
    cases canYield with
    | true => exact ⟨hlt, hsum⟩
    | false => exact ⟨hlt, hsum⟩

/-- A permit that fits is added to the count. -/
lemma Conserved.up (hroom : c.count + 1 < usizeBound) : Conserved initial c.up := by
  obtain ⟨hlt, hsum⟩ := h
  simp only [Conserved, Semaphore.up, givePermit_eq hroom]
  omega

/-- Every step for which the count has room keeps the number of permits. -/
lemma Conserved.step {e : Step τ} (he : c.RoomFor e) : Conserved initial (c.step e) := by
  cases e with
  | call t =>
    rw [Semaphore.step]
    split_ifs
    · exact h
    · exact h
  | down t canYield =>
    rw [Semaphore.step]
    split_ifs
    · exact h.tryDown t canYield
    · exact h
  | spin t =>
    rw [Semaphore.step]
    split_ifs
    · exact h
    · exact h
  | up => exact h.up (he rfl)

end

end

/-! ## Wake-ups -/

section

variable {c : Semaphore τ} {t : τ} [Fintype τ] (initial : ℕ)

section

omit [DecidableEq τ]

/-- The queue holds the threads that sleep, and no permit waits for a thread that nobody has woken.
-/
structure Awake (c : Semaphore τ) : Prop where
  queue : Queue c.phase .queued c.waiters
  count_le : c.waiters ≠ [] → c.count ≤ numIn c.phase SemPhase.isWoken

/-- If a thread sleeps and a permit is free, then a woken thread is on its way to it. -/
lemma Awake.someone (h : c.Awake) (ht : c.phase t = .queued) (hpos : 0 < c.count) :
    ∃ u, c.phase u = .woken := by
  have hne : c.waiters ≠ [] := List.ne_nil_of_mem ((h.queue.mem_iff t).mpr ht)
  obtain ⟨u, hu⟩ := numIn_pos_iff.mp (lt_of_lt_of_le hpos (h.count_le hne))
  exact ⟨u, SemPhase.isWoken_iff.mp hu⟩

lemma awake_new : (new initial : Semaphore τ).Awake :=
  ⟨Queue.nil fun _ => SemPhase.noConfusion, fun h => absurd rfl h⟩

end

section

variable (h : c.Awake)
include h

/-- A change of phase that has nothing to do with the queue. -/
lemma Awake.goto (hold : c.phase t ≠ .queued) (hp : p ≠ .queued)
    (hwoken : p.isWoken = (c.phase t).isWoken) : (c.goto t p).Awake := by
  refine ⟨h.queue.other hold hp, fun hne => ?_⟩
  exact (h.count_le hne).trans_eq (numIn_update_same hwoken).symm

/-- A thread that is not queued locks the state in `down`. -/
lemma Awake.tryDown (ht : c.phase t = .trying ∨ c.phase t = .woken) (canYield : Bool) :
    (c.tryDown t canYield).Awake := by
  have hold : c.phase t ≠ .queued := by rcases ht with ht | ht <;> simp [ht]
  unfold Semaphore.tryDown
  cases htake : takePermit c.count with
  | some n =>
    refine ⟨h.queue.other hold SemPhase.noConfusion, fun hne => ?_⟩
    -- the permit that is gone makes up for the woken thread that may have retried
    have hcount := takePermit_eq_some.mp htake
    have hle := h.count_le hne
    have hsum := numIn_update c.phase SemPhase.isWoken t .idle
    have hone := (c.phase t).isWoken.toNat_le
    have hidle : SemPhase.idle.isWoken.toNat = 0 := rfl
    simp only
    omega
  | none =>
    have hcount := takePermit_eq_none.mp htake
    cases canYield with
    | true => exact ⟨h.queue.push hold, fun _ => hcount ▸ Nat.zero_le _⟩
    | false => exact ⟨h.queue.other hold SemPhase.noConfusion, fun _ => hcount ▸ Nat.zero_le _⟩

/-- `up` wakes a waiter for the permit it gives. -/
lemma Awake.up : c.up.Awake := by
  refine ⟨h.queue.popFront SemPhase.noConfusion, fun hne => ?_⟩
  have hwaiters : c.waiters ≠ [] := fun hnil => hne (by simp [Semaphore.up, hnil])
  obtain ⟨t, ts, hw⟩ := List.exists_cons_of_ne_nil hwaiters
  have ht : c.phase t = .queued := (h.queue.mem_iff t).mp (hw ▸ List.mem_cons_self)
  have henter : numIn (update c.phase t .woken) SemPhase.isWoken =
      numIn c.phase SemPhase.isWoken + 1 := numIn_update_enter (by rw [ht]; rfl) rfl
  have hle := h.count_le hwaiters
  have hgive := givePermit_le c.count
  simp only [Semaphore.up, hw, List.head?_cons, scheduled, henter]
  omega

/-- Every step keeps the queue and the woken threads in order. -/
lemma Awake.step (e : Step τ) : (c.step e).Awake := by
  cases e with
  | call t =>
    rw [Semaphore.step]
    split_ifs with ht
    · exact h.goto (by simp [ht]) (by simp) (by simp [ht, SemPhase.isWoken])
    · exact h
  | down t canYield =>
    rw [Semaphore.step]
    split_ifs with ht
    · exact h.tryDown ht canYield
    · exact h
  | spin t =>
    rw [Semaphore.step]
    split_ifs with ht
    · exact h.goto (by simp [ht.1]) (by simp) (by simp [ht.1, SemPhase.isWoken])
    · exact h
  | up => exact h.up

end

/-- Nobody sleeps beside a free permit in any run, whatever the count. -/
lemma awake_run (es : List (Step τ)) : ((new initial : Semaphore τ).run es).Awake := by
  refine List.foldlRecOn es step (awake_new initial) fun c hc e _ => ?_
  exact Awake.step hc e

/-- From a new semaphore, in every run in which no `up` finds the largest word as the count: the
permits given and the permits taken differ by the count, and while threads sleep in the queue there
are at least as many woken threads that have not retried as there are free permits.  So if a thread
sleeps and a permit is free, then some thread is on its way to take it. -/
theorem permits_conserved {initial : ℕ} (hinitial : initial < usizeBound) {es : List (Step τ)}
    (hroom : AlongRun step RoomFor (new initial : Semaphore τ) es) :
    let c := (new initial : Semaphore τ).run es
    initial + c.ups = c.downs + c.count ∧
    (c.waiters ≠ [] → c.count ≤ numIn c.phase SemPhase.isWoken) ∧
      (∀ t, t ∈ c.waiters ↔ c.phase t = .queued) ∧
      ∀ t, c.phase t = .queued → 0 < c.count → ∃ u, c.phase u = .woken := by
  have hawake := awake_run (τ := τ) initial es
  have hconserved : Conserved initial ((new initial : Semaphore τ).run es) := by
    refine hroom.invariant (I := Conserved initial) (fun c e hc he => hc.step he) ?_
    exact ⟨hinitial, by simp [new]⟩
  exact ⟨hconserved.2, hawake.count_le, hawake.queue.mem_iff,
    fun t ht hpos => hawake.someone ht hpos⟩

/-- A thread sleeps with no permit, another one gives a permit, and a third one takes it before the
woken thread retries and sleeps again. -/
theorem permits_conserved_barging :
    let es : List (Step (Fin 2)) :=
  [.call 0, .down 0 true, .up, .call 1, .down 1 true, .down 0 true]
    0 + ((new 0 : Semaphore (Fin 2)).run es).ups =
      ((new 0 : Semaphore (Fin 2)).run es).downs + ((new 0 : Semaphore (Fin 2)).run es).count ∧
      ((new 0 : Semaphore (Fin 2)).run es).phase 0 = .queued := by
  have hroom : AlongRun step RoomFor (new 0 : Semaphore (Fin 2))
      [.call 0, .down 0 true, .up, .call 1, .down 1 true, .down 0 true] := by
    decide
  exact ⟨(permits_conserved (by decide) hroom).1, by decide⟩

/-- `Semaphore::new(usize::MAX)` and one call of `up`: the count wraps around, so that all permits
are gone and the next `down` sleeps. -/
theorem up_wraps :
    let c := (new (usizeBound - 1) : Semaphore (Fin 1)).run [.up]
    c.count = 0 ∧ usizeBound - 1 + c.ups ≠ c.downs + c.count ∧
      ((c.step (.call 0)).step (.down 0 true)).phase 0 = .queued := by
  decide

end

end Semaphore

end CabOS
