import CabOS.Sync.Promise
import CabOS.Sync.RwLock
import CabOS.Sync.Semaphore

/-!
# Waiting with interrupts off

`Semaphore::down`, `Promise::get`, `RwLock::read_lock` and `RwLock::write_lock` have one shape: they
lock the state, take what they want if it is there, and otherwise ask `can_yield()` whether they may
sleep in the queue of waiters.  They ask while they hold the lock, and taking an `IntMutex` turns
interrupts off, so the answer is always no: a call never sleeps in the queue of waiters, it spins
(`wait_spins`), also where it could have yielded when it was made
(`call_of_yieldable_thread_spins`).

A thread that meets the lock of the state while it is held may sleep in the queue of the lock
itself. It comes back to the point where it was and looks at the state again.
-/

namespace CabOS

open Function

/-- What `can_yield` looks at. -/
structure YieldState where
  irqEnabled : Bool
  /-- `MP_STAGE` is `MPPreempt` -/
  mpPreempt : Bool
  isOnThread : Bool
  /-- `CAN_YIELD` of the thread -/
  canYieldFlag : Bool
  deriving DecidableEq

namespace YieldState

def canYieldForPreempt (y : YieldState) : Bool := y.mpPreempt && y.isOnThread && y.canYieldFlag

def canYield (y : YieldState) : Bool := y.irqEnabled && y.canYieldForPreempt

/-- `attempt_acquire_lock` of an `IntMutex`: interrupts stay off if the lock was free, and are as
before otherwise. -/
def attemptAcquireLock (y : YieldState) (held : Bool) : Bool × YieldState :=
  if held then (false, y) else (true, { y with irqEnabled := false })

/-- While the lock is held, the thread cannot yield. -/
lemma canYield_of_acquired {y : YieldState} {held : Bool} (h : (y.attemptAcquireLock held).1) :
    (y.attemptAcquireLock held).2.canYield = false := by
  cases held with
  | true => cases h
  | false => rfl

end YieldState

/-- Where the thread is. -/
inductive BlockingPhase where
  /-- At the start of the loop, about to lock the state. -/
  | trying
  /-- In the inner loop that looks at the state again and again. -/
  | spinning
  /-- Asleep in the queue of the lock of the state, which it wanted in the inner loop or before. -/
  | lockQueued (inner : Bool)
  /-- In `suspend_to_locked_queue`: asleep in the queue of waiters. -/
  | suspended
  | returned
  deriving DecidableEq

/-- What one of the four functions does with the state under the lock. -/
structure Blocking (σ : Type) where
  available : σ → Bool
  /-- The function takes what it wants. -/
  take : σ → σ
  /-- What is noted before the function waits. -/
  note : σ → σ
  /-- The thread is put into the queue of waiters. -/
  enqueue : σ → σ

/-- A thread in the call, with the state that other threads change as well. -/
structure BlockingCall (σ : Type) where
  shared : σ
  phase : BlockingPhase
  yieldState : YieldState
  deriving DecidableEq

/-- The next step of the call, or a change of the state by others. -/
inductive BlockingStep (σ : Type) where
  /-- The thread attempts to lock the state, which another thread may hold. -/
  | go (held : Bool)
  /-- In `lock_block_yield`, the lock is still held when the thread looks at it with its queue. -/
  | block
  /-- The thread is popped from the queue of the lock. -/
  | wake
  | others (shared : σ)

namespace Blocking

variable {σ : Type} (B : Blocking σ) {c : BlockingCall σ}

/-- The section of the outer loop under the lock, with the answer of `can_yield()`. -/
def underLock (canYield : Bool) (st : σ) : σ × BlockingPhase :=
  if B.available st then (B.take st, .returned)
  else if canYield then (B.enqueue (B.note st), .suspended)
  else (B.note st, .spinning)

/-- The thread takes the lock of the state if it is free.  The guard restores the interrupts when it
is dropped. -/
def attempt (c : BlockingCall σ) (held : Bool) : BlockingCall σ :=
  if (c.yieldState.attemptAcquireLock held).1 then
    match c.phase with
    | .trying =>
      { c with
        shared := (B.underLock (c.yieldState.attemptAcquireLock held).2.canYield c.shared).1
        phase := (B.underLock (c.yieldState.attemptAcquireLock held).2.canYield c.shared).2 }
    | .spinning => if B.available c.shared then { c with phase := .trying } else c
    | _ => c
  else c

def step (c : BlockingCall σ) : BlockingStep σ → BlockingCall σ
  | .others shared => { c with shared := shared }
  | .go held => B.attempt c held
  | .block =>
    if c.yieldState.canYield then
      match c.phase with
      | .trying => { c with phase := .lockQueued false }
      | .spinning => { c with phase := .lockQueued true }
      | _ => c
    else c
  | .wake =>
    match c.phase with
    | .lockQueued inner => { c with phase := if inner then .spinning else .trying }
    | _ => c

/-- A call that has the lock and does not find what it wants notes that it waits and spins. -/
lemma attempt_of_not_available (h : B.available c.shared = false) (hphase : c.phase = .trying) :
    B.attempt c false = { c with shared := B.note c.shared, phase := .spinning } := by
  have hno : (c.yieldState.attemptAcquireLock false).2.canYield = false :=
    YieldState.canYield_of_acquired rfl
  have hgot : (c.yieldState.attemptAcquireLock false).1 = true := rfl
  simp [attempt, hphase, underLock, h, hno, hgot]

/-- An attempt does not put the thread into the queue of waiters. -/
lemma attempt_phase (h : c.phase ≠ .suspended) (held : Bool) :
    (B.attempt c held).phase ≠ .suspended := by
  by_cases hgot : (c.yieldState.attemptAcquireLock held).1
  · have hno := YieldState.canYield_of_acquired hgot
    rw [attempt, if_pos hgot]
    cases hphase : c.phase with
    | trying =>
      rw [hno]
      cases havail : B.available c.shared with
      | true => simp [underLock, havail]
      | false => simp [underLock, havail]
    | spinning => cases havail : B.available c.shared <;> simp [hphase]
    | lockQueued inner => simp [hphase]
    | suspended => exact absurd hphase h
    | returned => simp [hphase]
  · rwa [attempt, if_neg hgot]

/-- No step of the call puts the thread into the queue of waiters. -/
lemma step_phase (h : c.phase ≠ .suspended) (e : BlockingStep σ) :
    (B.step c e).phase ≠ .suspended := by
  cases e with
  | others shared => exact h
  | go held => exact B.attempt_phase h held
  | block =>
    simp only [step]
    split_ifs
    · cases hphase : c.phase with
      | suspended => exact absurd hphase h
      | _ => simp [hphase]
    · exact h
  | wake =>
    simp only [step]
    cases hphase : c.phase with
    | lockQueued inner => cases inner <;> simp
    | suspended => exact absurd hphase h
    | _ => simp [hphase]

/-- In every run of a call, whatever other threads do, the thread is never put into the queue of
waiters. If it has the lock of the state and does not find what it wants, it goes into the inner
loop, and stays there until it is available. -/
theorem wait_spins (shared : σ) (y : YieldState) (es : List (BlockingStep σ)) {c : BlockingCall σ}
    (hc : c = es.foldl B.step ⟨shared, .trying, y⟩) :
    c.phase ≠ .suspended ∧
    (B.available c.shared = false →
      (c.phase = .trying →
        B.step c (.go false) = { c with shared := B.note c.shared, phase := .spinning }) ∧
      (c.phase = .spinning → ∀ held, B.step c (.go held) = c)) := by
  have hrun : ∀ (es : List (BlockingStep σ)) (c : BlockingCall σ), c.phase ≠ .suspended →
      (es.foldl B.step c).phase ≠ .suspended := by
    intro es
    induction es with
    | nil => exact fun c hc => hc
    | cons e es ih => exact fun c hc => ih _ (B.step_phase hc e)
  refine ⟨hc ▸ hrun es _ (by simp), fun havail => ⟨B.attempt_of_not_available havail, ?_⟩⟩
  intro hphase held
  simp [step, attempt, hphase, havail]

end Blocking

/-! ## The four functions -/

variable {τ α : Type}

/-- `Semaphore::down`, on the count and the waiters. -/
def semaphoreDown (t : τ) : Blocking (ℕ × List τ) where
  available st := st.1 > 0
  take st := (st.1 - 1, st.2)
  note st := st
  enqueue st := (st.1, st.2 ++ [t])

/-- `Promise::get`, on the value and the waiters. -/
def promiseGet (t : τ) : Blocking (Option α × List τ) where
  available st := st.1.isSome
  take st := st
  note st := st
  enqueue st := (st.1, st.2 ++ [t])

/-- The state of a reader-writer lock, with the local variable `registered_waiter` of `write_lock`.
-/
structure RwState (τ : Type) where
  readers : ℕ
  writerActive : Bool
  waitingWriters : ℕ
  readWait : List τ
  writeWait : List τ
  registeredWaiter : Bool
  deriving DecidableEq

/-- `RwLock::read_lock` -/
def rwReadLock (t : τ) : Blocking (RwState τ) where
  available st := !st.writerActive && st.waitingWriters == 0
  take st := { st with readers := st.readers + 1 }
  note st := st
  enqueue st := { st with readWait := st.readWait ++ [t] }

/-- `RwLock::write_lock` -/
def rwWriteLock (t : τ) : Blocking (RwState τ) where
  available st := !st.writerActive && st.readers == 0
  take st :=
    { st with
      writerActive := true
      waitingWriters := if st.registeredWaiter then st.waitingWriters - 1 else st.waitingWriters }
  note st :=
    if st.registeredWaiter then st
    else { st with waitingWriters := st.waitingWriters + 1, registeredWaiter := true }
  enqueue st := { st with writeWait := st.writeWait ++ [t] }

section

variable [DecidableEq τ]

/-- The section of `down` is the one of the semaphore's own steps. -/
lemma Semaphore.tryDown_eq (c : Semaphore τ) (t : τ) (canYield : Bool) :
    (semaphoreDown t).underLock canYield (c.count, c.waiters) =
      (((c.tryDown t canYield).count, (c.tryDown t canYield).waiters),
        match (c.tryDown t canYield).phase t with
        | .idle => .returned
        | .queued => .suspended
        | .spinning => .spinning
        | _ => .trying) := by
  rcases Nat.eq_zero_or_pos c.count with hzero | hpos
  · cases canYield <;>
      simp [Blocking.underLock, semaphoreDown, tryDown, takePermit, goto, hzero]
  · simp [Blocking.underLock, semaphoreDown, tryDown, takePermit, hpos]

/-- The section of `get` is the one of the promise's own steps. -/
lemma Promise.tryGet_eq (c : Promise τ α) (t : τ) (canYield : Bool) :
    (promiseGet t).underLock canYield (c.value, c.waiters) =
      (((c.tryGet t canYield).value, (c.tryGet t canYield).waiters),
        match (c.tryGet t canYield).phase t with
        | .idle => .returned
        | .queued => .suspended
        | .spinning => .spinning
        | .trying => .trying) := by
  cases hvalue : c.value with
  | none => cases canYield <;> simp [Blocking.underLock, promiseGet, tryGet, goto, hvalue]
  | some v => simp [Blocking.underLock, promiseGet, tryGet, goto, hvalue]

/-- The state of the lock, as a thread in `write_lock` sees it. -/
def RwLock.state (c : RwLock τ) (registeredWaiter : Bool) : RwState τ :=
  ⟨c.readers, c.writerActive, c.waitingWriters, c.readWait, c.writeWait, registeredWaiter⟩

/-- Where a thread is in its call. -/
def RwPhase.blocking : RwPhase → BlockingPhase
  | .reading | .writing | .idle => .returned
  | .readQueued | .writeQueued => .suspended
  | .readSpinning | .writeSpinning => .spinning
  | .readTrying | .writeTrying _ => .trying

/-- The section of `read_lock` is the one of the lock's own steps. -/
lemma RwLock.readLock_eq (c : RwLock τ) (t : τ) (canYield registeredWaiter : Bool) :
    (rwReadLock t).underLock canYield (c.state registeredWaiter) =
      ((c.readLock t canYield).state registeredWaiter,
        ((c.readLock t canYield).phase t).blocking) := by
  cases hwriter : c.writerActive <;> by_cases hwaiting : c.waitingWriters = 0 <;>
    cases canYield <;>
      simp [Blocking.underLock, rwReadLock, readLock, goto, state, RwPhase.blocking,
        hwriter, hwaiting]

/-- The section of `write_lock` is the one of the lock's own steps; a thread that waits is
registered. -/
lemma RwLock.writeLock_eq (c : RwLock τ) (t : τ) (canYield registeredWaiter : Bool) :
    (rwWriteLock t).underLock canYield (c.state registeredWaiter) =
      ((c.writeLock t registeredWaiter canYield).state
          (registeredWaiter || (c.writerActive || c.readers != 0)),
        ((c.writeLock t registeredWaiter canYield).phase t).blocking) := by
  cases hwriter : c.writerActive <;> by_cases hreaders : c.readers = 0 <;> cases canYield <;>
    cases registeredWaiter <;>
      simp [Blocking.underLock, rwWriteLock, writeLock, register, goto, state, RwPhase.blocking,
        hwriter, hreaders]

end

/-- A thread that can yield calls `down` without a permit, or one of the other functions when it has
to wait.  In all four cases it spins, and it is in no queue. -/
theorem call_of_yieldable_thread_spins :
    (⟨true, true, true, true⟩ : YieldState).canYield = true ∧
    (semaphoreDown 7).step ⟨(0, []), .trying, ⟨true, true, true, true⟩⟩ (.go false) =
      ⟨(0, []), .spinning, ⟨true, true, true, true⟩⟩ ∧
    (promiseGet 7).step ⟨((none : Option ℕ), []), .trying, ⟨true, true, true, true⟩⟩ (.go false) =
      ⟨(none, []), .spinning, ⟨true, true, true, true⟩⟩ ∧
    (rwReadLock 7).step ⟨⟨0, true, 0, [], [], false⟩, .trying, ⟨true, true, true, true⟩⟩
        (.go false) =
      ⟨⟨0, true, 0, [], [], false⟩, .spinning, ⟨true, true, true, true⟩⟩ ∧
    (rwWriteLock 7).step ⟨⟨0, true, 0, [], [], false⟩, .trying, ⟨true, true, true, true⟩⟩
        (.go false) =
      ⟨⟨0, true, 1, [], [], true⟩, .spinning, ⟨true, true, true, true⟩⟩ := by
  decide

/-- A thread sleeps in the queue of the lock, gets the lock when it is woken, finds no permit, and
spins. -/
theorem wait_spins_down :
    ((semaphoreDown 7).step ⟨(0, []), .trying, ⟨true, true, true, true⟩⟩ .block).phase =
      .lockQueued false ∧
    (semaphoreDown 7).step ⟨(0, []), .trying, ⟨true, true, true, true⟩⟩ (.go false) =
      ⟨(0, []), .spinning, ⟨true, true, true, true⟩⟩ :=
  ⟨rfl, (((semaphoreDown 7).wait_spins (0, []) ⟨true, true, true, true⟩ [.go true, .block, .wake]
    rfl).2 rfl).1 rfl⟩

end CabOS
