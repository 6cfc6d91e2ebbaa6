import CabOS.Library.Phases
import CabOS.Library.Run

/-!
# The reader-writer lock

Waiters of `RwLock` spin or sleep, and the two unlock functions decide from counters whom to wake: a
writer if one is registered, else all sleeping readers.  A woken writer has no right to the lock; it
tries again, may find that somebody else was faster, and then queues again.  The model has the state
under the lock's `IntMutex` and the phase of every thread.  One step is one section under the mutex,
or a step of a thread outside of it, and `can_yield()` is an input of the step that asks it.  It is
true only in the context of a thread, so the assertions after it cannot fail.

A thread that holds several guards is one thread of the model for each of them.  Each thread and
each guard takes memory, so the counters cannot wrap around and are natural numbers.
-/

namespace CabOS

open Function List Nat Bool

/-- Where a thread is in its calls of the lock. -/
inductive RwPhase where
  /-- It has no guard and is not in a call. -/
  | idle
  /-- In `read_lock`, about to lock the state. -/
  | readTrying
  /-- In `read_lock`, in the inner loop. -/
  | readSpinning
  /-- In `read_lock`, asleep in `read_wait`. -/
  | readQueued
  /-- It has a read guard. -/
  | reading
  /-- In `write_lock`, about to lock the state. -/
  | writeTrying (registeredWaiter : Bool)
  /-- In `write_lock`, in the inner loop. -/
  | writeSpinning
  /-- In `write_lock`, asleep in `write_wait`. -/
  | writeQueued
  /-- It has the write guard. -/
  | writing
  deriving DecidableEq

namespace RwPhase

/-- The thread has a read guard. -/
def isReading : RwPhase → Bool
  | .reading => true
  | _ => false

/-- The thread has a write guard. -/
def isWriting : RwPhase → Bool
  | .writing => true
  | _ => false

/-- The thread is registered as a waiting writer and not yet admitted. -/
def isRegistered : RwPhase → Bool
  | .writeTrying registered => registered
  | .writeSpinning => true
  | .writeQueued => true
  | _ => false

/-- The thread is a registered writer that is awake and will retry. -/
def isAwakeWriter : RwPhase → Bool
  | .writeTrying registered => registered
  | .writeSpinning => true
  | _ => false

end RwPhase

/-- The lock and the threads that use it. -/
structure RwLock (τ : Type) where
  readers : ℕ
  writerActive : Bool
  waitingWriters : ℕ
  readWait : List τ
  writeWait : List τ
  phase : τ → RwPhase

namespace RwLock

/-- What can happen next. -/
inductive Step (τ : Type) where
  /-- A thread calls `read_lock`. -/
  | callRead (t : τ)
  /-- A thread in `read_lock` locks the state. -/
  | tryRead (t : τ) (canYield : Bool)
  /-- A thread that spins in `read_lock` looks at the state. -/
  | spinRead (t : τ)
  /-- A read guard is dropped. -/
  | dropRead (t : τ)
  /-- A thread calls `write_lock`. -/
  | callWrite (t : τ)
  /-- A thread in `write_lock` locks the state. -/
  | tryWrite (t : τ) (canYield : Bool)
  /-- A thread that spins in `write_lock` looks at the state. -/
  | spinWrite (t : τ)
  /-- A write guard is dropped. -/
  | dropWrite (t : τ)

variable {τ : Type}

/-- `RwLock::new`, before any call. -/
def new : RwLock τ := ⟨0, false, 0, [], [], fun _ => .idle⟩

variable [DecidableEq τ]

/-- A thread goes on without a change of the shared state. -/
def goto (c : RwLock τ) (t : τ) (p : RwPhase) : RwLock τ := { c with phase := update c.phase t p }

/-- The body of the loop of `read_lock`, up to the end of the section. -/
def readLock (c : RwLock τ) (t : τ) (canYield : Bool) : RwLock τ :=
  if c.writerActive = false ∧ c.waitingWriters = 0 then
    { c.goto t .reading with readers := c.readers + 1 }
  else if canYield then
    { c.goto t .readQueued with readWait := c.readWait ++ [t] }
  else c.goto t .readSpinning

/-- A thread that does not get the lock registers, unless it has done so before. -/
def register (c : RwLock τ) (t : τ) (registeredWaiter : Bool) : RwLock τ :=
  if registeredWaiter then c
  else { c.goto t (.writeTrying true) with waitingWriters := c.waitingWriters + 1 }

/-- The body of the loop of `write_lock`, up to the end of the section. -/
def writeLock (c : RwLock τ) (t : τ) (registeredWaiter canYield : Bool) : RwLock τ :=
  if c.writerActive = false ∧ c.readers = 0 then
    { c.goto t .writing with
      writerActive := true
      waitingWriters := if registeredWaiter then c.waitingWriters - 1 else c.waitingWriters }
  else
    let st := c.register t registeredWaiter
    if canYield then
      { st.goto t .writeQueued with writeWait := st.writeWait ++ [t] }
    else st.goto t .writeSpinning

/-- A thread is popped from `write_wait`, if there is one, and scheduled. -/
def wakeWriter (c : RwLock τ) : RwLock τ :=
  { c with
    writeWait := c.writeWait.tail
    phase := scheduled c.phase (.writeTrying true) c.writeWait.head? }

/-- All threads are popped from `read_wait` and scheduled. -/
def wakeReaders (c : RwLock τ) : RwLock τ :=
  { c with readWait := [], phase := scheduledAll c.phase .readTrying c.readWait }

/-- A read guard is given up. -/
def releaseReader (c : RwLock τ) (t : τ) : RwLock τ :=
  { c.goto t .idle with readers := c.readers - 1 }

/-- `RwLock::read_unlock`, with the guard's thread. -/
def readUnlock (c : RwLock τ) (t : τ) : RwLock τ :=
  if (c.releaseReader t).readers = 0 ∧ 0 < c.waitingWriters then (c.releaseReader t).wakeWriter
  else c.releaseReader t

/-- The write guard is given up. -/
def releaseWriter (c : RwLock τ) (t : τ) : RwLock τ := { c.goto t .idle with writerActive := false }

/-- `RwLock::write_unlock`, with the guard's thread. -/
def writeUnlock (c : RwLock τ) (t : τ) : RwLock τ :=
  if 0 < c.waitingWriters then (c.releaseWriter t).wakeWriter else (c.releaseWriter t).wakeReaders

/-- One step.  A step that a thread cannot make where it is changes nothing. -/
def step (c : RwLock τ) : Step τ → RwLock τ
  | .callRead t => if c.phase t = .idle then c.goto t .readTrying else c
  | .tryRead t canYield => if c.phase t = .readTrying then c.readLock t canYield else c
  | .spinRead t =>
    if c.phase t = .readSpinning ∧ c.writerActive = false ∧ c.waitingWriters = 0 then
      c.goto t .readTrying
    else c
  | .dropRead t => if c.phase t = .reading then c.readUnlock t else c
  | .callWrite t => if c.phase t = .idle then c.goto t (.writeTrying false) else c
  | .tryWrite t canYield =>
    match c.phase t with
    | .writeTrying registered => c.writeLock t registered canYield
    | _ => c
  | .spinWrite t =>
    if c.phase t = .writeSpinning ∧ c.writerActive = false ∧ c.readers = 0 then
      c.goto t (.writeTrying true)
    else c
  | .dropWrite t => if c.phase t = .writing then c.writeUnlock t else c

/-- The steps of a run. -/
def run (c : RwLock τ) (es : List (Step τ)) : RwLock τ := es.foldl step c

/-! ## The invariant -/

/-- Somebody has a guard. -/
def Held (c : RwLock τ) : Prop := c.writerActive = true ∨ 0 < c.readers

variable [Fintype τ]

/-- The counters and queues say what the threads do, and writers are alone. -/
structure Counts (c : RwLock τ) : Prop where
  readers : c.readers = numIn c.phase RwPhase.isReading
  writer : c.writerActive.toNat = numIn c.phase RwPhase.isWriting
  waiting : c.waitingWriters = numIn c.phase RwPhase.isRegistered
  readQueue : Queue c.phase .readQueued c.readWait
  writeQueue : Queue c.phase .writeQueued c.writeWait
  apart : c.writerActive = true → c.readers = 0

/-- Besides, every thread that sleeps waits for one that will wake it. -/
structure Inv (c : RwLock τ) : Prop extends Counts c where
  readersWait : c.readWait ≠ [] → c.writerActive = true ∨ 0 < c.waitingWriters
  writersWait : c.writeWait ≠ [] → c.Held ∨ 0 < numIn c.phase RwPhase.isAwakeWriter

/-! ## One step -/

section

variable {c : RwLock τ} {t : τ} {registered : Bool} {p q : RwPhase}

/-- A count stays right when a thread goes on to a phase of the same kind. -/
lemma numIn_stays {n : ℕ} {kind : RwPhase → Bool} (hn : n = numIn c.phase kind)
    (ht : c.phase t = q) (hkind : kind p = kind q) : n = numIn (update c.phase t p) kind :=
  hn.trans (numIn_update_same (ht ▸ hkind)).symm

section

variable (h : c.Inv)
include h

/-- A thread goes on that is in no queue and enters none, and no counter says otherwise. -/
lemma Inv.goto (ht : c.phase t = q) (hr : p.isReading = q.isReading)
    (hw : p.isWriting = q.isWriting) (hreg : p.isRegistered = q.isRegistered)
    (hawake : p.isAwakeWriter = q.isAwakeWriter) (hq : q ≠ .readQueued ∧ q ≠ .writeQueued)
    (hp : p ≠ .readQueued ∧ p ≠ .writeQueued) : (c.goto t p).Inv := by
  subst ht
  refine ⟨⟨?_, ?_, ?_, h.readQueue.other hq.1 hp.1, h.writeQueue.other hq.2 hp.2, h.apart⟩,
    h.readersWait, fun hne => ?_⟩
  · exact h.readers.trans (numIn_update_same hr).symm
  · exact h.writer.trans (numIn_update_same hw).symm
  · exact h.waiting.trans (numIn_update_same hreg).symm
  · exact (h.writersWait hne).imp_right fun hpos => hpos.trans_eq (numIn_update_same hawake).symm

section

variable (ht : c.phase t = .readTrying)
include ht

/-- A reader is admitted.  Nobody sleeps in `read_wait`, and those in `write_wait` wait for the
reader. -/
lemma Inv.admitReader (hactive : c.writerActive = false)
    (hwaiting : c.waitingWriters = 0) :
    Inv { c.goto t .reading with readers := c.readers + 1 } := by
  refine ⟨⟨?_, ?_, ?_, ?_, ?_, ?_⟩, fun hne => ?_, fun _ => .inl (.inr (succ_pos _))⟩
  · exact (congrArg (· + 1) h.readers).trans (numIn_update_enter (by rw [ht]; rfl) rfl).symm
  · exact numIn_stays h.writer ht rfl
  · exact numIn_stays h.waiting ht rfl
  · exact h.readQueue.other (by simp [ht]) (by simp)
  · exact h.writeQueue.other (by simp [ht]) (by simp)
  · exact fun hwriter => absurd hwriter (by simp [RwLock.goto, hactive])
  · exact absurd (h.readersWait hne) (by simp [hactive, hwaiting])

/-- A reader goes to sleep while a writer has the lock or waits for it. -/
lemma Inv.queueReader (hbusy : c.writerActive ∨ 0 < c.waitingWriters) :
    Inv { c.goto t .readQueued with readWait := c.readWait ++ [t] } := by
  refine ⟨⟨?_, ?_, ?_, ?_, ?_, h.apart⟩, fun _ => hbusy, fun hne => ?_⟩
  · exact numIn_stays h.readers ht rfl
  · exact numIn_stays h.writer ht rfl
  · exact numIn_stays h.waiting ht rfl
  · exact h.readQueue.push (by simp [ht])
  · exact h.writeQueue.other (by simp [ht]) (by simp)
  · refine (h.writersWait hne).imp_right fun hpos => hpos.trans_eq ?_
    exact (numIn_update_same (by rw [ht]; rfl)).symm

/-- A reader locks the state. -/
lemma Inv.readLock (canYield : Bool) : (c.readLock t canYield).Inv := by
  unfold RwLock.readLock
  split_ifs with hfree hyield
  · exact h.admitReader ht hfree.1 hfree.2
  · refine h.queueReader ht ?_
    rw [not_and_or, not_eq_false] at hfree
    exact hfree.imp_right Nat.pos_of_ne_zero
  · exact h.goto ht rfl rfl rfl rfl (by simp) (by simp)

end

/-- A writer is admitted.  Everybody who sleeps waits for it. -/
lemma Inv.admitWriter (ht : c.phase t = .writeTrying registered)
    (hactive : c.writerActive = false) (hreaders : c.readers = 0) :
    Inv { c.goto t .writing with
      writerActive := true
      waitingWriters := if registered then c.waitingWriters - 1 else c.waitingWriters } := by
  refine ⟨⟨?_, ?_, ?_, ?_, ?_, fun _ => hreaders⟩, fun _ => .inl rfl, fun _ => .inl (.inl rfl)⟩
  · exact numIn_stays h.readers ht rfl
  · have hwriter := h.writer
    rw [hactive] at hwriter
    exact (congrArg (· + 1) hwriter).trans (numIn_update_enter (by rw [ht]; rfl) rfl).symm
  · cases registered with
    | true =>
      have hleave : numIn (update c.phase t .writing) RwPhase.isRegistered + 1 =
          numIn c.phase RwPhase.isRegistered := numIn_update_leave (by rw [ht]; rfl) rfl
      rw [← h.waiting] at hleave
      exact Nat.sub_eq_of_eq_add hleave.symm
    | false => exact numIn_stays h.waiting ht rfl
  · exact h.readQueue.other (by simp [ht]) (by simp)
  · exact h.writeQueue.other (by simp [ht]) (by simp)

/-- A writer registers. -/
lemma Inv.register (ht : c.phase t = .writeTrying registered) :
    (c.register t registered).Inv ∧ (c.register t registered).phase t = .writeTrying true := by
  unfold RwLock.register
  split_ifs with hreg
  · exact ⟨h, hreg ▸ ht⟩
  · obtain rfl : registered = false := eq_false_iff.mpr hreg
    refine ⟨⟨⟨?_, ?_, ?_, ?_, ?_, h.apart⟩, fun _ => .inr (succ_pos _), fun hne => .inr ?_⟩,
      update_self ..⟩
    · exact numIn_stays h.readers ht rfl
    · exact numIn_stays h.writer ht rfl
    · exact (congrArg (· + 1) h.waiting).trans (numIn_update_enter (by rw [ht]; rfl) rfl).symm
    · exact h.readQueue.other (by simp [ht]) (by simp)
    · exact h.writeQueue.other (by simp [ht]) (by simp)
    · exact numIn_pos_iff.mpr ⟨t, by simp [RwLock.goto, RwPhase.isAwakeWriter]⟩

/-- A registered writer goes to sleep while somebody has a guard. -/
lemma Inv.queueWriter (ht : c.phase t = .writeTrying true) (hheld : c.Held) :
    Inv { c.goto t .writeQueued with writeWait := c.writeWait ++ [t] } := by
  refine ⟨⟨?_, ?_, ?_, ?_, ?_, h.apart⟩, h.readersWait, fun _ => .inl hheld⟩
  · exact numIn_stays h.readers ht rfl
  · exact numIn_stays h.writer ht rfl
  · exact numIn_stays h.waiting ht rfl
  · exact h.readQueue.other (by simp [ht]) (by simp)
  · exact h.writeQueue.push (by simp [ht])

end

omit [Fintype τ] in
lemma held_register (hheld : c.Held) (registered : Bool) : (c.register t registered).Held := by
  unfold RwLock.register
  split_ifs
  · exact hheld
  · exact hheld

/-- A writer locks the state. -/
lemma Inv.writeLock (h : c.Inv) (ht : c.phase t = .writeTrying registered)
    (canYield : Bool) : (c.writeLock t registered canYield).Inv := by
  obtain ⟨hinv, hphase⟩ := h.register ht
  by_cases hfree : c.writerActive = false ∧ c.readers = 0
  · rw [RwLock.writeLock, if_pos hfree]
    exact h.admitWriter ht hfree.1 hfree.2
  · rw [RwLock.writeLock, if_neg hfree]
    rw [not_and_or, not_eq_false] at hfree
    have hheld : c.Held := hfree.imp_right Nat.pos_of_ne_zero
    cases canYield with
    | true => exact hinv.queueWriter hphase (held_register hheld registered)
    | false => exact hinv.goto hphase rfl rfl rfl rfl (by simp) (by simp)

section

variable (h : c.Counts)
include h

/-- A woken writer is registered and awake. -/
lemma Counts.wakeWriter : c.wakeWriter.Counts := by
  have hsame : ∀ P : RwPhase → Bool, P (.writeTrying true) = P .writeQueued →
      numIn c.phase P = numIn c.wakeWriter.phase P :=
    fun P hP => (numIn_scheduled h.writeQueue hP).symm
  refine ⟨?_, ?_, ?_, ?_, h.writeQueue.popFront (by simp), h.apart⟩
  · exact h.readers.trans (hsame _ rfl)
  · exact h.writer.trans (hsame _ rfl)
  · exact h.waiting.trans (hsame _ rfl)
  · exact h.readQueue.otherFront h.writeQueue (by simp) (by simp)

/-- Woken readers are no longer in the queue. -/
lemma Counts.wakeReaders : c.wakeReaders.Counts := by
  have hsame : ∀ P : RwPhase → Bool, P .readTrying = P .readQueued →
    numIn c.phase P = numIn c.wakeReaders.phase P :=
    fun P hP => (numIn_scheduledAll h.readQueue hP).symm
  refine ⟨?_, ?_, ?_, h.readQueue.popAll (by simp), ?_, h.apart⟩
  · exact h.readers.trans (hsame _ rfl)
  · exact h.writer.trans (hsame _ rfl)
  · exact h.waiting.trans (hsame _ rfl)
  · exact h.writeQueue.otherAll h.readQueue (by simp) (by simp)

/-- A read guard less. -/
lemma Counts.releaseReader (ht : c.phase t = .reading) : (c.releaseReader t).Counts := by
  have hleave : numIn (update c.phase t .idle) RwPhase.isReading + 1 =
      numIn c.phase RwPhase.isReading := numIn_update_leave (by rw [ht]; rfl) rfl
  rw [← h.readers] at hleave
  refine ⟨Nat.sub_eq_of_eq_add hleave.symm, ?_, ?_, ?_, ?_, fun hactive => ?_⟩
  · exact numIn_stays h.writer ht rfl
  · exact numIn_stays h.waiting ht rfl
  · exact h.readQueue.other (by simp [ht]) (by simp)
  · exact h.writeQueue.other (by simp [ht]) (by simp)
  · exact Nat.sub_eq_zero_of_le ((h.apart hactive).trans_le (Nat.zero_le 1))

/-- No write guard any more. -/
lemma Counts.releaseWriter (ht : c.phase t = .writing) : (c.releaseWriter t).Counts := by
  have hleave : numIn (update c.phase t .idle) RwPhase.isWriting + 1 =
      numIn c.phase RwPhase.isWriting := numIn_update_leave (by rw [ht]; rfl) rfl
  have hone : numIn c.phase RwPhase.isWriting ≤ 1 := h.writer ▸ c.writerActive.toNat_le
  refine ⟨?_, ?_, ?_, ?_, ?_, fun hactive => Bool.noConfusion hactive⟩
  · exact numIn_stays h.readers ht rfl
  · exact (le_zero.mp (le_of_succ_le_succ (hleave.trans_le hone))).symm
  · exact numIn_stays h.waiting ht rfl
  · exact h.readQueue.other (by simp [ht]) (by simp)
  · exact h.writeQueue.other (by simp [ht]) (by simp)

end

/-- If a writer sleeps on after another one was woken, then that one is awake. -/
lemma awake_wakeWriter (hne : c.wakeWriter.writeWait ≠ []) :
    0 < numIn c.wakeWriter.phase RwPhase.isAwakeWriter := by
  have hwait : c.writeWait ≠ [] := fun hnil => hne (by simp [wakeWriter, hnil])
  obtain ⟨t, ts, hw⟩ := exists_cons_of_ne_nil hwait
  refine numIn_pos_iff.mpr ⟨t, ?_⟩
  simp [wakeWriter, hw, scheduled, RwPhase.isAwakeWriter]

omit [DecidableEq τ] in
/-- Without registered writers nobody sleeps in `write_wait`. -/
lemma Counts.writeWait_eq_nil (h : c.Counts) (hwaiting : c.waitingWriters = 0) :
    c.writeWait = [] := by
  refine eq_nil_iff_forall_not_mem.mpr fun t ht => ?_
  have hnone := numIn_eq_zero_iff.mp (h.waiting.symm.trans hwaiting) t
  rw [(h.writeQueue.mem_iff t).mp ht] at hnone
  exact absurd hnone (by decide)

/-- A read guard is dropped. -/
lemma Inv.readUnlock (h : c.Inv) (ht : c.phase t = .reading) : (c.readUnlock t).Inv := by
  have hcounts := h.toCounts.releaseReader ht
  unfold RwLock.readUnlock
  split_ifs with hlast
  · exact ⟨hcounts.wakeWriter, h.readersWait, fun hne => .inr (awake_wakeWriter hne)⟩
  · refine ⟨hcounts, h.readersWait, fun hne => ?_⟩
    rcases not_and_or.mp hlast with hmore | hnone
    · exact .inl (.inr (Nat.pos_of_ne_zero hmore))
    · exact absurd (hcounts.writeWait_eq_nil (Nat.eq_zero_of_not_pos hnone)) hne

/-- A write guard is dropped. -/
lemma Inv.writeUnlock (h : c.Inv) (ht : c.phase t = .writing) : (c.writeUnlock t).Inv := by
  have hcounts := h.toCounts.releaseWriter ht
  unfold RwLock.writeUnlock
  split_ifs with hwaiting
  · exact ⟨hcounts.wakeWriter, fun _ => .inr hwaiting, fun hne => .inr (awake_wakeWriter hne)⟩
  · refine ⟨hcounts.wakeReaders, fun hne => absurd rfl hne, fun hne => ?_⟩
    exact absurd (hcounts.writeWait_eq_nil (Nat.eq_zero_of_not_pos hwaiting)) hne

/-- Every step keeps the invariant. -/
lemma Inv.step (h : c.Inv) (e : Step τ) : (c.step e).Inv := by
  cases e with
  | callRead t =>
    rw [RwLock.step]
    split_ifs with ht
    · exact h.goto ht rfl rfl rfl rfl (by simp) (by simp)
    · exact h
  | tryRead t canYield =>
    rw [RwLock.step]
    split_ifs with ht
    · exact h.readLock ht canYield
    · exact h
  | spinRead t =>
    rw [RwLock.step]
    split_ifs with ht
    · exact h.goto ht.1 rfl rfl rfl rfl (by simp) (by simp)
    · exact h
  | dropRead t =>
    rw [RwLock.step]
    split_ifs with ht
    · exact h.readUnlock ht
    · exact h
  | callWrite t =>
    rw [RwLock.step]
    split_ifs with ht
    · exact h.goto ht rfl rfl rfl rfl (by simp) (by simp)
    · exact h
  | tryWrite t canYield =>
    rw [RwLock.step]
    split
    · next ht => exact h.writeLock ht canYield
    · exact h
  | spinWrite t =>
    rw [RwLock.step]
    split_ifs with ht
    · exact h.goto ht.1 rfl rfl rfl rfl (by simp) (by simp)
    · exact h
  | dropWrite t =>
    rw [RwLock.step]
    split_ifs with ht
    · exact h.writeUnlock ht
    · exact h

end

/-! ## Runs -/

omit [DecidableEq τ] in
/-- A new lock. -/
lemma inv_new : (new : RwLock τ).Inv := by
  have hnone : ∀ P : RwPhase → Bool, P .idle = false → numIn (new : RwLock τ).phase P = 0 :=
    fun P hP => numIn_eq_zero_iff.mpr fun _ => hP
  refine ⟨⟨?_, ?_, ?_, Queue.nil ?_, Queue.nil ?_, fun _ => rfl⟩, fun hne => absurd rfl hne,
    fun hne => absurd rfl hne⟩
  · exact (hnone _ rfl).symm
  · exact (hnone _ rfl).symm
  · exact (hnone _ rfl).symm
  · exact fun _ => RwPhase.noConfusion
  · exact fun _ => RwPhase.noConfusion

lemma inv_run (es : List (Step τ)) : ((new : RwLock τ).run es).Inv := by
  refine foldlRecOn es step inv_new fun c hc e _ => ?_
  exact Inv.step hc e

omit [DecidableEq τ] in
/-- If the lock is free and a thread sleeps, then some registered writer is awake. -/
lemma Inv.someone {c : RwLock τ} (h : c.Inv) (hfree : ¬c.Held)
    (hsleep : c.readWait ≠ [] ∨ c.writeWait ≠ []) : ∃ t, (c.phase t).isAwakeWriter := by
  rcases hsleep with hread | hwrite
  · rcases h.readersWait hread with hactive | hwaiting
    · exact absurd (.inl hactive) hfree
    · -- a registered writer is awake itself, or it sleeps and another one is awake
      rw [h.waiting] at hwaiting
      obtain ⟨t, ht⟩ := numIn_pos_iff.mp hwaiting
      by_cases hq : c.phase t = .writeQueued
      · have hne : c.writeWait ≠ [] := ne_nil_of_mem ((h.writeQueue.mem_iff t).mpr hq)
        exact numIn_pos_iff.mp ((h.writersWait hne).resolve_left hfree)
      · refine ⟨t, ?_⟩
        cases hphase : c.phase t <;> simp_all [RwPhase.isRegistered, RwPhase.isAwakeWriter]
  · exact numIn_pos_iff.mp ((h.writersWait hwrite).resolve_left hfree)

/-- In every run of any number of threads on a new lock:

* a write guard is alone, without another write guard and without read guards;
* `readers` is the number of read guards and `waiting_writers` the number of writers that are
registered and not yet admitted;
* if `read_wait` is not empty, then a writer has the lock or waits for it;
* if `write_wait` is not empty, then the lock is held or a registered writer is awake;
* so whenever a thread sleeps, the lock is held or a registered writer is awake and will retry. -/
theorem no_stranded_thread (es : List (Step τ)) :
    let c := (new : RwLock τ).run es
    (∀ t u, c.phase t = .writing → c.phase u = .writing → t = u) ∧
      (∀ t u, c.phase t = .writing → c.phase u ≠ .reading) ∧
      c.readers = numIn c.phase RwPhase.isReading ∧
      c.waitingWriters = numIn c.phase RwPhase.isRegistered ∧
      (c.readWait ≠ [] → c.writerActive = true ∨ 0 < c.waitingWriters) ∧
      (c.writeWait ≠ [] → c.Held ∨ ∃ u, (c.phase u).isAwakeWriter = true) ∧
      (∀ t, c.phase t = .readQueued ∨ c.phase t = .writeQueued →
        c.Held ∨ ∃ u, (c.phase u).isAwakeWriter = true) := by
  intro c
  have h : c.Inv := inv_run es
  have hone : numIn c.phase RwPhase.isWriting ≤ 1 := h.writer ▸ c.writerActive.toNat_le
  refine ⟨fun t u ht hu => ?_, fun t u ht hu => ?_, h.readers, h.waiting, h.readersWait,
    fun hne => ?_,
    fun t ht => ?_⟩
  · exact eq_of_numIn_le_one hone (by rw [ht]; rfl) (by rw [hu]; rfl)
  · have hwriting : 0 < numIn c.phase RwPhase.isWriting := numIn_pos_iff.mpr ⟨t, by rw [ht]; rfl⟩
    have hreading : 0 < numIn c.phase RwPhase.isReading := numIn_pos_iff.mpr ⟨u, by rw [hu]; rfl⟩
    have hactive : c.writerActive = true := by
      by_contra hnot
      rw [← h.writer, eq_false_iff.mpr hnot] at hwriting
      exact Nat.lt_irrefl 0 hwriting
    rw [← h.readers, h.apart hactive] at hreading
    exact absurd hreading (Nat.lt_irrefl 0)
  · exact (h.writersWait hne).imp_right numIn_pos_iff.mp
  · by_cases hheld : c.Held
    · exact .inl hheld
    · refine .inr (h.someone hheld (ht.imp ?_ ?_))
      · exact fun hq => ne_nil_of_mem ((h.readQueue.mem_iff t).mpr hq)
      · exact fun hq => ne_nil_of_mem ((h.writeQueue.mem_iff t).mpr hq)

end RwLock

end CabOS
