import CabOS.Library.Phases
import CabOS.Library.Run

/-!
# The mutex that spins and then sleeps

`IntMutex` is a flag and a queue of sleeping threads.  A guard that is dropped clears the flag and
pops the queue, in this order; a thread that finds the flag set goes to sleep only if the flag is
still set when it has locked the queue. Anybody can set the flag in between.

The model has the flag, the queue and the place of every thread in `lock`.  One step is one access
to the flag or one section under the lock of the queue, and a run is a list of steps, in whatever
order they come.  How often a thread polls the flag and what `can_yield()` returns are inputs of the
steps.  Guards belong to threads; a thread may have a guard and call `lock` all the same, and then
it waits for itself.
-/

namespace CabOS

open Function Bool Multiset List

/-- In which loop of `lock` a thread is. -/
inductive LockLoop where
  /-- `lock_block_spin` -/
  | spins
  /-- `lock_block_yield` -/
  | yields
  /-- `lock_block_yield`, and the thread was taken out of the queue and has not tried since. -/
  | woken
  deriving DecidableEq

/-- Where a thread is in its call of `lock`. -/
inductive LockPhase where
  /-- It is not in a call of `lock`. -/
  | outside
  /-- It is about to make its first attempt. -/
  | arriving
  /-- Its first attempt has failed, and it is about to ask `can_yield()`. -/
  | refused
  /-- It is about to make an attempt in a loop. -/
  | attempting (l : LockLoop)
  /-- It polls the flag before it thinks of sleeping. -/
  | polling
  /-- It is about to load the flag in `while self.lock.load(..)`. -/
  | checking (l : LockLoop)
  /-- It is about to lock the queue in `suspend_to_queue_if`. -/
  | suspending (l : LockLoop)
  /-- It sleeps in the queue. -/
  | blocked
  deriving DecidableEq

/-- The thread was taken out of the queue and has not tried to set the flag since. -/
def LockPhase.isWoken : LockPhase → Bool
  | .attempting .woken => true
  | .checking .woken => true
  | .suspending .woken => true
  | _ => false

/-- A mutex and the threads that use it. -/
structure IntMutex (τ : Type) where
  /-- The flag. -/
  lock : Bool
  /-- The queue of the threads that sleep. -/
  blocked : List τ
  phase : τ → LockPhase
  /-- The threads that have a guard. -/
  guards : Multiset τ
  /-- The threads that drop a guard, have cleared the flag and still have to pop the queue. -/
  releasing : Multiset τ

namespace IntMutex

/-- What can happen next. -/
inductive Step (τ : Type) where
  /-- A thread calls `lock`. -/
  | call (t : τ)
  /-- A thread goes on in `lock`.  The bit is the result of `can_yield()`, or says that this poll is
  the last one. -/
  | lock (t : τ) (b : Bool)
  /-- A thread starts to drop its guard: the flag is cleared. -/
  | drop (t : τ)
  /-- A thread that drops its guard pops the queue. -/
  | wake (t : τ)
  deriving DecidableEq

variable {τ : Type}

/-- `IntMutex::new`, before any call. -/
def new : IntMutex τ := ⟨false, [], fun _ => .outside, 0, 0⟩

variable [DecidableEq τ]

/-- A thread goes on in `lock`. -/
def goto (c : IntMutex τ) (t : τ) (p : LockPhase) : IntMutex τ :=
  { c with phase := update c.phase t p }

/-- `attempt_acquire_lock`: the flag is set, and if it was not set before the thread has the guard;
otherwise it goes on in the phase `p`. -/
def attemptAcquireLock (c : IntMutex τ) (t : τ) (p : LockPhase) : IntMutex τ :=
  if c.lock then c.goto t p
  else { c with lock := true, phase := update c.phase t .outside, guards := t ::ₘ c.guards }

/-- The section of `suspend_to_queue_if` under the lock of the queue. -/
def suspendToQueueIf (c : IntMutex τ) (t : τ) (l : LockLoop) : IntMutex τ :=
  if c.lock then { c with blocked := c.blocked ++ [t], phase := update c.phase t .blocked }
  else c.goto t (.checking l)

/-- The next step of a thread in `lock`. -/
def lockStep (c : IntMutex τ) (t : τ) (b : Bool) : IntMutex τ :=
  match c.phase t with
  | .outside => c
  | .arriving => c.attemptAcquireLock t .refused
  | .refused => c.goto t (.attempting (if b then .yields else .spins))
  | .attempting .spins => c.attemptAcquireLock t (.checking .spins)
  | .attempting _ => c.attemptAcquireLock t .polling
  | .polling => if c.lock = false ∨ b then c.goto t (.checking .yields) else c
  | .checking .spins => if c.lock then c else c.goto t (.attempting .spins)
  | .checking l => c.goto t (if c.lock then .suspending l else .attempting l)
  | .suspending l => c.suspendToQueueIf t l
  | .blocked => c

/-- One step.  A step that a thread cannot make where it is changes nothing. -/
def step (c : IntMutex τ) : Step τ → IntMutex τ
  | .call t => if c.phase t = .outside then c.goto t .arriving else c
  | .lock t b => c.lockStep t b
  | .drop t =>
    if t ∈ c.guards then { c with lock := false, guards := c.guards.erase t, releasing :=
      t ::ₘ c.releasing } else c
  | .wake t =>
    if t ∈ c.releasing then
      -- the thread that is popped goes on after `suspend_to_queue_if`
      { c with
        blocked := c.blocked.tail
        phase := scheduled c.phase (.checking .woken) c.blocked.head?
        releasing := c.releasing.erase t }
    else c

/-- The steps of a run. -/
def run (c : IntMutex τ) (es : List (Step τ)) : IntMutex τ := es.foldl step c

/-! ## What every step keeps -/

section

variable {c : IntMutex τ} {t : τ} {p : LockPhase}

section

omit [DecidableEq τ]

/-- There is one guard if the flag is set and none otherwise, the queue holds the threads that
sleep, and none of them sleeps beside a free flag unless somebody is about to pop the queue or was
popped from it. -/
structure Inv (c : IntMutex τ) : Prop where
  guards : c.guards.card = c.lock.toNat
  queue : Queue c.phase .blocked c.blocked
  awake : c.blocked ≠ [] → c.lock = true ∨ c.releasing ≠ 0 ∨ ∃ u, (c.phase u).isWoken = true

lemma Inv.new : (new : IntMutex τ).Inv :=
  ⟨rfl, Queue.nil fun _ => LockPhase.noConfusion, fun h => absurd rfl h⟩

end

/-- A woken thread that stays woken. -/
lemma exists_woken_update (hwoken : (c.phase t).isWoken → p.isWoken)
    (h : ∃ u, (c.phase u).isWoken) : ∃ u, (update c.phase t p u).isWoken := by
  obtain ⟨u, hu⟩ := h
  refine ⟨u, ?_⟩
  rcases eq_or_ne u t with rfl | hne
  · rw [update_self]
    exact hwoken hu
  · rwa [update_of_ne hne]

section

variable (h : c.Inv)
include h

/-- A thread goes on without touching the flag and the queue. -/
lemma Inv.goto (hold : c.phase t ≠ .blocked) (hp : p ≠ .blocked)
    (hwoken : (c.phase t).isWoken → p.isWoken) : (c.goto t p).Inv :=
  ⟨h.guards, h.queue.other hold hp, fun hne =>
    (h.awake hne).imp_right fun h' => h'.imp_right (exists_woken_update hwoken)⟩

/-- A thread goes on while the flag is set. -/
lemma Inv.goto_of_lock (hlock : c.lock) (hold : c.phase t ≠ .blocked) (hp : p ≠ .blocked) :
    (c.goto t p).Inv :=
  ⟨h.guards, h.queue.other hold hp, fun _ => .inl hlock⟩

/-- An attempt on the flag. -/
lemma Inv.attemptAcquireLock (hold : c.phase t ≠ .blocked) (hp : p ≠ .blocked) :
    (c.attemptAcquireLock t p).Inv := by
  unfold IntMutex.attemptAcquireLock
  split_ifs with hlock
  · exact h.goto_of_lock hlock hold hp
  · have hguards := h.guards
    rw [not_eq_true] at hlock
    rw [hlock] at hguards
    refine ⟨?_, h.queue.other hold LockPhase.noConfusion, fun _ => .inl rfl⟩
    rw [card_cons, hguards]
    rfl

/-- The section in which a thread goes to sleep. -/
lemma Inv.suspendToQueueIf {l : LockLoop} (ht : c.phase t = .suspending l) :
    (c.suspendToQueueIf t l).Inv := by
  unfold IntMutex.suspendToQueueIf
  split_ifs with hlock
  · exact ⟨h.guards, h.queue.push (by simp [ht]), fun _ => .inl hlock⟩
  · refine h.goto (by simp [ht]) LockPhase.noConfusion fun hwoken => ?_
    rw [ht] at hwoken
    cases l <;> exact hwoken

/-- A step of a thread in `lock`. -/
lemma Inv.lockStep (t : τ) (b : Bool) : (c.lockStep t b).Inv := by
  unfold IntMutex.lockStep
  cases ht : c.phase t with
  | outside => exact h
  | arriving => exact h.attemptAcquireLock (by simp [ht]) LockPhase.noConfusion
  | refused => exact h.goto (by simp [ht]) LockPhase.noConfusion (by simp [ht, LockPhase.isWoken])
  | attempting l =>
    cases l with
    | spins => exact h.attemptAcquireLock (by simp [ht]) LockPhase.noConfusion
    | yields => exact h.attemptAcquireLock (by simp [ht]) LockPhase.noConfusion
    | woken => exact h.attemptAcquireLock (by simp [ht]) LockPhase.noConfusion
  | polling =>
    simp only
    split_ifs
    · exact h.goto (by simp [ht]) LockPhase.noConfusion (by simp [ht, LockPhase.isWoken])
    · exact h
  | checking l =>
    cases l with
    | spins =>
      simp only
      split_ifs
      · exact h
      · exact h.goto (by simp [ht]) LockPhase.noConfusion (by simp [ht, LockPhase.isWoken])
    | yields =>
      simp only
      split_ifs
      · exact h.goto (by simp [ht]) LockPhase.noConfusion (by simp [ht, LockPhase.isWoken])
      · exact h.goto (by simp [ht]) LockPhase.noConfusion (by simp [ht, LockPhase.isWoken])
    | woken =>
      simp only
      split_ifs
      · exact h.goto (by simp [ht]) LockPhase.noConfusion fun _ => rfl
      · exact h.goto (by simp [ht]) LockPhase.noConfusion fun _ => rfl
  | suspending l => exact h.suspendToQueueIf ht
  | blocked => exact h

/-- A guard is dropped: somebody now has to pop the queue. -/
lemma Inv.drop (ht : t ∈ c.guards) :
    Inv { c with lock := false, guards := c.guards.erase t, releasing := t ::ₘ c.releasing } := by
  refine ⟨?_, h.queue, fun _ => .inr (.inl (cons_ne_zero))⟩
  have hle := h.guards.trans_le c.lock.toNat_le
  rw [card_erase_of_mem ht]
  simp only [toNat_false, Nat.pred_eq_sub_one]
  omega

/-- The queue is popped: the thread that was popped is awake. -/
lemma Inv.wake (t : τ) : Inv { c with
      blocked := c.blocked.tail
      phase := scheduled c.phase (.checking .woken) c.blocked.head?
      releasing := c.releasing.erase t } := by
  refine ⟨h.guards, h.queue.popFront LockPhase.noConfusion, fun hne => .inr (.inr ?_)⟩
  cases hblocked : c.blocked with
  | nil => simp [hblocked] at hne
  | cons u us =>
    refine ⟨u, ?_⟩
    simp only [head?_cons, scheduled, update_self]
    rfl

/-- Every step keeps the invariant. -/
lemma Inv.step (e : Step τ) : (c.step e).Inv := by
  cases e with
  | call t =>
    rw [IntMutex.step]
    split_ifs with ht
    · exact h.goto (by simp [ht]) LockPhase.noConfusion (by simp [ht, LockPhase.isWoken])
    · exact h
  | lock t b => exact h.lockStep t b
  | drop t =>
    rw [IntMutex.step]
    split_ifs with ht
    · exact h.drop ht
    · exact h
  | wake t =>
    rw [IntMutex.step]
    split_ifs
    · exact h.wake t
    · exact h

end

lemma inv_run (es : List (Step τ)) : ((new : IntMutex τ).run es).Inv :=
  foldlRecOn es step Inv.new fun _ hc e _ => Inv.step hc e

end

/-! ## Who takes a free mutex -/

section

variable {c : IntMutex τ} {t : τ}

section

variable (hfree : c.lock = false)
include hfree

/-- A thread that is about to try takes a free mutex. -/
lemma mem_guards_attempting (ht : c.phase t = .attempting .woken) (b : Bool) :
    t ∈ (c.step (.lock t b)).guards := by
  simp [step, lockStep, ht, attemptAcquireLock, hfree]

/-- A thread that is about to look at the free flag is about to try next. -/
lemma step_checking (ht : c.phase t = .checking .woken) (b : Bool) :
    (c.step (.lock t b)).lock = false ∧ (c.step (.lock t b)).phase t = .attempting .woken := by
  simp [step, lockStep, ht, goto, hfree]

/-- A thread that is about to sleep does not sleep if the flag is free, and looks at it again. -/
lemma step_suspending (ht : c.phase t = .suspending .woken) (b : Bool) :
    (c.step (.lock t b)).lock = false ∧ (c.step (.lock t b)).phase t = .checking .woken := by
  simp [step, lockStep, ht, suspendToQueueIf, goto, hfree]

/-- A woken thread takes a free mutex with at most three steps of its own. -/
lemma mem_guards_woken (ht : (c.phase t).isWoken) (b : Bool) :
    ∃ n ≤ 3, t ∈ (c.run (replicate n (.lock t b))).guards := by
  have hchecking : ∀ d : IntMutex τ, d.lock = false → d.phase t = .checking .woken →
      t ∈ (d.run (replicate 2 (.lock t b))).guards := fun d hd hdt => by
    obtain ⟨hfree', ht'⟩ := step_checking hd hdt b
    exact mem_guards_attempting hfree' ht' b
  unfold LockPhase.isWoken at ht
  split at ht
  · next hphase => exact ⟨1, by norm_num, mem_guards_attempting hfree hphase b⟩
  · next hphase => exact ⟨2, by norm_num, hchecking c hfree hphase⟩
  · next hphase =>
    obtain ⟨hfree', ht'⟩ := step_suspending hfree hphase b
    exact ⟨3, le_rfl, hchecking _ hfree' ht'⟩
  · cases ht

end

end

/-- **Exclusion and no lost wake-up.**  In every run of any number of threads there is at most one
guard, and there is one exactly if the flag is set.  If threads sleep and the flag is not set, then
some thread has dropped its guard and still has to pop the queue, or some thread that was popped has
not tried to set the flag since; such a thread takes the mutex with at most three steps of its own,
and popping the queue makes such a thread of the first one in it. -/
theorem lock_exclusive_and_awake (es : List (Step τ)) :
    let c := (new : IntMutex τ).run es
    c.guards.card ≤ 1 ∧ (c.lock = true ↔ c.guards ≠ 0) ∧
    (∀ t, t ∈ c.blocked ↔ c.phase t = .blocked) ∧
      (c.blocked ≠ [] → c.lock = true ∨ c.releasing ≠ 0 ∨ ∃ u, (c.phase u).isWoken = true) ∧
      (∀ u, (c.phase u).isWoken = true → c.lock = false →
        ∀ b, ∃ n ≤ 3, u ∈ (c.run (replicate n (.lock u b))).guards) ∧
      ∀ r ∈ c.releasing, ∀ u us, c.blocked = u :: us →
      ((c.step (.wake r)).phase u).isWoken = true := by
  intro c
  have h : c.Inv := inv_run es
  refine ⟨h.guards.trans_le c.lock.toNat_le, ?_, h.queue.mem_iff, h.awake, ?_, ?_⟩
  · have hguards := h.guards
    cases hlock : c.lock with
    | false =>
      rw [hlock] at hguards
      simp [card_eq_zero.mp hguards]
    | true =>
      rw [hlock] at hguards
      refine iff_of_true rfl fun hzero => ?_
      simp [hzero] at hguards
  · exact fun u hu hfree b => mem_guards_woken hfree hu b
  · intro r hr u us hblocked
    simp only [step, if_pos hr, hblocked, head?_cons, scheduled, update_self]
    rfl

end IntMutex

end CabOS
