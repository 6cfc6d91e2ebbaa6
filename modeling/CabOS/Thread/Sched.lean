import CabOS.Library.Word

/-!
# Threads and the cores that run them

A thread is passed on by its handle: from a core to the queue in which it waits, from there to the
idle thread that looks for work, to the event handler that serves its page fault or its system call,
and to the timer that ends its sleep.  The queues of runnable and blocked threads and the queue of
threads with an event link a thread by one and the same link, and linking a thread that is linked
panics.

The model has one step for every access to a queue, on every core, and it keeps apart what the code
keeps in local variables: the thread that the idle thread has popped, the one that an event handler
serves, the one that the timer wakes, and those that a thread has made or has popped from the queue
of a mutex (`hand`).  `none` stands for the idle thread of a core, which is in no queue.
`EVENT_THREAD_QUEUE` is used by its own core only, where interrupts are off until the thread has
been left, so `push_event` and `block_to_idle` are one step.
-/

namespace CabOS

open Function

/-- What a thread is for. -/
inductive ThreadKind (κ : Type) where
  /-- It runs code of the kernel. -/
  | kernel
  /-- It runs code of a process. -/
  | user
  /-- It is the event handler of a core. -/
  | handler (core : κ)
  deriving DecidableEq

/-- The threads that there can be, each with what it is for; every core has an event handler. -/
structure ThreadTable (κ τ : Type) where
  kind : τ → ThreadKind κ
  handlerOf : κ → τ
  kind_eq_handler : ∀ t c, kind t = .handler c ↔ t = handlerOf c

/-- The thread is an event handler. -/
def ThreadTable.IsHandler {κ τ : Type} (T : ThreadTable κ τ) (t : τ) : Bool :=
  match T.kind t with
  | .handler _ => true
  | _ => false

/-- The queues that link a thread by its own link. -/
inductive ThreadQueue (κ μ : Type) where
  /-- `LOCAL_WORK_QUEUE` of a core -/
  | localWork (core : κ)
  /-- `GLOBAL_WORK_QUEUE` -/
  | globalWork
  /-- `EVENT_THREAD_QUEUE` of a core -/
  | event (core : κ)
  /-- The threads that wait for a mutex. -/
  | blocked (mutex : μ)
  deriving DecidableEq

/-- Where a thread goes that is left in the kernel. -/
inductive Destination (μ : Type) where
  | localWork
  | globalWork
  | blocked (mutex : μ)
  deriving DecidableEq

/-- The queue, for a thread that is left on a core. -/
def Destination.queue {κ μ : Type} (c : κ) : Destination μ → ThreadQueue κ μ
  | .localWork => .localWork c
  | .globalWork => .globalWork
  | .blocked m => .blocked m

/-- Why a thread has to be served. -/
inductive ThreadEvent where
  | pageFault
  | syscall
  deriving DecidableEq

/-- What a core is doing. -/
inductive Cpu (τ μ : Type) where
  /-- It runs a thread. -/
  | running (r : Option τ)
  /-- The timer has interrupted the thread and wakes sleepers; it has one of them. -/
  | wakingSleepers (r held : Option τ)
  /-- The thread was interrupted and is about to be left in `preempt_to_idle`. -/
  | preempting (r : Option τ)
  /-- The thread was left and is about to be queued. -/
  | leaving (t : τ) (dest : Destination μ)
  /-- The core is about to go to a thread. -/
  | entering (r : Option τ)
  deriving DecidableEq

/-- The threads that a core has. -/
def Cpu.holds {τ μ : Type} : Cpu τ μ → List τ
  | .running r => r.toList
  | .wakingSleepers r held => r.toList ++ held.toList
  | .preempting r => r.toList
  | .leaving t _ => [t]
  | .entering r => r.toList

/-- Where the idle thread is in `poll_tasks`. -/
inductive IdlePhase (τ : Type) where
  /-- It is about to look into the queue of the core. -/
  | atLocal
  /-- It has a thread from the queue of the core. -/
  | fromLocal (t : τ)
  /-- It is about to look into the queue of all cores. -/
  | atGlobal
  /-- It has a thread from the queue of all cores. -/
  | fromGlobal (t : τ)

/-- The thread that the idle thread has. -/
def IdlePhase.holds {τ : Type} : IdlePhase τ → List τ
  | .atLocal => []
  | .fromLocal t => [t]
  | .atGlobal => []
  | .fromGlobal t => [t]

/-- Where an event handler is in its loop. -/
inductive HandlerPhase (τ : Type) where
  /-- It is about to look for a thread with an event. -/
  | polling
  /-- It has a thread and is about to take its event. -/
  | popped (t : τ)
  /-- It is in `handle_page_fault`. -/
  | inPageFault (t : τ)
  /-- It is in `syscall_handler`. -/
  | inSyscall (t : τ)
  /-- `syscall_handler` has returned and the thread is to run again. -/
  | returned (t : τ)
  /-- `syscall_handler` has returned and the thread is not to run again; the handler still has its
  handle. -/
  | shouldBlock (t : τ)
  /-- It is about to yield. -/
  | yielding

/-- The thread that an event handler serves. -/
def HandlerPhase.holds {τ : Type} : HandlerPhase τ → List τ
  | .polling => []
  | .popped t => [t]
  | .inPageFault t => [t]
  | .inSyscall t => [t]
  | .returned t => [t]
  | .shouldBlock _ => []
  | .yielding => []

/-- A thread in a local variable of another one. -/
inductive Carried (τ : Type) where
  /-- It was made by `make_thread` and is to be queued. -/
  | made (t : τ)
  /-- It was popped from the queue of a mutex and is to be scheduled. -/
  | woken (t : τ)

/-- The thread that is carried. -/
def Carried.thread {τ : Type} : Carried τ → τ
  | .made t => t
  | .woken t => t

/-- What a system call does with the thread that has made it. -/
inductive SyscallOutcome where
  /-- The thread goes on. -/
  | returns
  /-- `nanosleep` has put the thread to sleep for a number of ticks. -/
  | sleeps (ticks : ℕ)
  /-- The thread ends. -/
  | exits

/-- The cores and the threads. -/
structure Sched (κ τ μ : Type) where
  cpu : κ → Cpu τ μ
  queue : ThreadQueue κ μ → List τ
  /-- The threads that sleep, with the tick that ends the sleep. -/
  sleepQueue : κ → List (τ × ℕ)
  ticks : κ → ℕ
  /-- The idle thread of every core. -/
  idle : κ → IdlePhase τ
  /-- The event handlers. -/
  handler : τ → HandlerPhase τ
  /-- What the idle thread of a core or another thread has in local variables. -/
  hand : κ ⊕ τ → List (Carried τ)
  /-- The threads that were made and have not ended. -/
  live : τ → Bool
  /-- The link of a thread is in use. -/
  linked : τ → Bool
  pinned : τ → Bool
  /-- The core that a thread is pinned to; `none` is the value at the start, which is no core. -/
  corePinnedTo : τ → Option κ
  canYield : τ → Bool
  curEvent : τ → Option ThreadEvent
  panicked : Bool

/-- What can happen next on a core. -/
inductive CoreStep (τ μ : Type) where
  /-- `make_thread` or `make_user_thread` -/
  | make (t : τ)
  /-- A new thread is queued in `spawn_thread`. -/
  | spawn
  | yieldThread
  /-- `suspend_to_queue_if` with the queue of a mutex whose flag is still set -/
  | block (mutex : μ)
  /-- A guard is dropped: the queue of the mutex is popped. -/
  | popBlocked (mutex : μ)
  /-- A guard is dropped: the thread that was popped is scheduled. -/
  | schedule
  /-- The function of a kernel thread has returned. -/
  | exit
  | setPinned (b : Bool)
  | setCanYield (b : Bool)
  /-- A page fault or a system call. -/
  | event (e : ThreadEvent)
  /-- The interrupt of the timer. -/
  | timer
  /-- The interrupt by which another core asks for attention. -/
  | interrupt
  /-- The next step of the idle thread. -/
  | pollTasks
  /-- The next step of the event handler. -/
  | handle (o : SyscallOutcome)
  /-- The core goes on with an interrupt or with the way from one thread to another. -/
  | proceed

/-- The step is a page fault or a system call. -/
def CoreStep.isEvent {τ μ : Type} : CoreStep τ μ → Bool
  | .event _ => true
  | _ => false

namespace Sched

variable {κ τ μ : Type} [DecidableEq κ] [DecidableEq τ] [DecidableEq μ]

/-! ## Updates of the state -/

def setCpu (s : Sched κ τ μ) (c : κ) (x : Cpu τ μ) : Sched κ τ μ :=
  { s with cpu := update s.cpu c x }

def setIdle (s : Sched κ τ μ) (c : κ) (x : IdlePhase τ) : Sched κ τ μ :=
  { s with idle := update s.idle c x }

def setHandler (s : Sched κ τ μ) (h : τ) (x : HandlerPhase τ) : Sched κ τ μ :=
  { s with handler := update s.handler h x }

def setHand (s : Sched κ τ μ) (a : κ ⊕ τ) (x : List (Carried τ)) : Sched κ τ μ :=
  { s with hand := update s.hand a x }

def setSleepQueue (s : Sched κ τ μ) (c : κ) (x : List (τ × ℕ)) : Sched κ τ μ :=
  { s with sleepQueue := update s.sleepQueue c x }

def setCurEvent (s : Sched κ τ μ) (t : τ) (e : Option ThreadEvent) : Sched κ τ μ :=
  { s with curEvent := update s.curEvent t e }

/-- `push_back`, which panics if the thread is linked. -/
def pushBack (s : Sched κ τ μ) (q : ThreadQueue κ μ) (t : τ) : Sched κ τ μ :=
  if s.linked t then { s with panicked := true }
  else
    { s with
      queue := update s.queue q (s.queue q ++ [t])
      linked := update s.linked t true }

/-- `pop_front` of a queue with `t` in front of `l`. -/
def unlink (s : Sched κ τ μ) (q : ThreadQueue κ μ) (t : τ) (l : List τ) : Sched κ τ μ :=
  { s with queue := update s.queue q l, linked := update s.linked t false }

/-! ## The functions of the kernel -/

/-- The thread whose local variables the code on a core uses. -/
def runner (c : κ) : Option τ → κ ⊕ τ
  | none => .inl c
  | some t => .inr t

/-- `schedule_thread`, on a core.  There is no queue for a number that is not one of a core. -/
def scheduleThread (s : Sched κ τ μ) (c : κ) (t : τ) : Sched κ τ μ :=
  if s.pinned t then
    match s.corePinnedTo t with
    | some core => s.pushBack (.localWork core) t
    | none => { s with panicked := true }
  else s.pushBack (.localWork c) t

/-- `suspend_to_queue`: the thread is left and will be queued. -/
def suspendToQueue (s : Sched κ τ μ) (c : κ) (t : τ) (dest : Destination μ) : Sched κ τ μ :=
  { s with corePinnedTo :=
    if s.pinned t then update s.corePinnedTo t (some c) else s.corePinnedTo }.setCpu c
    (.leaving t dest)

/-- `yield_thread` -/
def yieldThread (s : Sched κ τ μ) (c : κ) (t : τ) : Sched κ τ μ :=
  s.suspendToQueue c t (if s.pinned t then .localWork else .globalWork)

/-- The new thread has no event, is in no queue and is not pinned. -/
def makeThread (s : Sched κ τ μ) (a : κ ⊕ τ) (t : τ) : Sched κ τ μ :=
  { s with
    live := update s.live t true
    linked := update s.linked t false
    pinned := update s.pinned t false
    corePinnedTo := update s.corePinnedTo t none
    canYield := update s.canYield t true
    curEvent := update s.curEvent t none }.setHand a (.made t :: s.hand a)

/-- `push_event` and `block_to_idle`: a thread that cannot yield goes on, although it is queued. -/
def pushEvent (s : Sched κ τ μ) (c : κ) (t : τ) (e : ThreadEvent) : Sched κ τ μ :=
  ((s.setCurEvent t (some e)).setCpu c
    (if s.canYield t then .entering none else .running (some t))).pushBack
    (.event c) t

/-- The next step of `wakeup_sleepers`, with the thread that was interrupted. -/
def wakeupSleepers (s : Sched κ τ μ) (c : κ) (r : Option τ) : Option τ → Sched κ τ μ
  | some t => (s.setCpu c (.wakingSleepers r none)).scheduleThread c t
  | none =>
    match s.sleepQueue c with
    | [] => s.setCpu c (.preempting r)
    | (t, wakeupTick) :: l =>
      if wakeupTick ≤ s.ticks c then (s.setSleepQueue c l).setCpu c (.wakingSleepers r (some t))
      else s.setCpu c (.preempting r)

/-- `preempt_to_idle` -/
def preemptToIdle (s : Sched κ τ μ) (c : κ) : Option τ → Sched κ τ μ
  | none => s.setCpu c (.entering none)
  | some t => s.setCpu c (if s.canYield t then .leaving t .localWork else .running (some t))

/-- The place of a sleeper is behind those that wake up at the same tick or earlier. -/
def insertSleeper (t : τ) (wakeupTick : ℕ) : List (τ × ℕ) → List (τ × ℕ)
  | [] => [(t, wakeupTick)]
  | (u, w) :: l => if wakeupTick <
    w then (t, wakeupTick) :: (u, w) :: l else (u, w) :: insertSleeper t wakeupTick l

omit [DecidableEq τ] in
/-- An insertion adds one entry. -/
lemma insertSleeper_perm (t : τ) (w : ℕ) (l : List (τ × ℕ)) :
    (insertSleeper t w l).Perm ((t, w) :: l) := by
  induction l with
  | nil => rfl
  | cons e l ih =>
    rw [insertSleeper]
    split_ifs
    · rfl
    · exact (ih.cons e).trans (List.Perm.swap _ _ _)

/-- `sleep` -/
def sleep (s : Sched κ τ μ) (c : κ) (t : τ) (duration : ℕ) : Sched κ τ μ :=
  s.setSleepQueue c (insertSleeper t (min (s.ticks c + duration) usizeMax) (s.sleepQueue c))

/-- The next step of `poll_tasks`. -/
def pollTasks (s : Sched κ τ μ) (c : κ) : Sched κ τ μ :=
  match s.idle c with
  | .atLocal =>
    match s.queue (.localWork c) with
    | [] => s.setIdle c .atGlobal
    | t :: l => (s.unlink (.localWork c) t l).setIdle c (.fromLocal t)
  | .fromLocal t =>
    if s.pinned t then (s.setIdle c .atGlobal).setCpu c (.entering (some t))
    else (s.setIdle c .atGlobal).pushBack .globalWork t
  | .atGlobal =>
    match s.queue .globalWork with
    | [] => s.setIdle c .atLocal
    | t :: l => (s.unlink .globalWork t l).setIdle c (.fromGlobal t)
  | .fromGlobal t => (s.setIdle c .atLocal).setCpu c (.entering (some t))

/-- The next step of the event handler `h` on a core.  A system call of a thread without a process
panics. -/
def handle (T : ThreadTable κ τ) (s : Sched κ τ μ) (c : κ) (h : τ) (o : SyscallOutcome) :
    Sched κ τ μ :=
  match s.handler h with
  | .polling =>
    match s.queue (.event c) with
    | [] => s
    | t :: l => (s.unlink (.event c) t l).setHandler h (.popped t)
  | .popped t =>
    match s.curEvent t with
    | none => { s with panicked := true }
    | some .pageFault => (s.setHandler h (.inPageFault t)).setCurEvent t none
    | some .syscall => (s.setHandler h (.inSyscall t)).setCurEvent t none
  | .inPageFault t => (s.setHandler h .yielding).scheduleThread c t
  | .inSyscall t =>
    if T.kind t = .user then
      match o with
      | .returns => s.setHandler h (.returned t)
      | .sleeps ticks => (s.setHandler h (.shouldBlock t)).sleep c t ticks
      | .exits => { s.setHandler h (.shouldBlock t) with live := update s.live t false }
    else { s with panicked := true }
  | .returned t => (s.setHandler h .yielding).scheduleThread c t
  | .shouldBlock _ => s.setHandler h .polling
  | .yielding => (s.setHandler h .polling).yieldThread c h

/-- The thread on a core runs code of the kernel. -/
def KernelCode (T : ThreadTable κ τ) : Option τ → Prop
  | none => True
  | some t => T.kind t ≠ .user

instance (T : ThreadTable κ τ) (r : Option τ) : Decidable (KernelCode T r) := by
  cases r <;> unfold KernelCode <;> infer_instance

/-- A step of the code that a core runs. -/
def runningStep (T : ThreadTable κ τ) (s : Sched κ τ μ) (c : κ) (r : Option τ) :
    CoreStep τ μ → Sched κ τ μ
  | .make t =>
    if KernelCode T r ∧ T.IsHandler t = false ∧
    s.live t = false then s.makeThread (runner c r) t else s
  | .spawn =>
    match s.hand (runner c r) with
    | .made t :: l => (s.setHand (runner c r) l).pushBack .globalWork t
    | _ => s
  | .yieldThread => r.elim s fun t => if T.kind t ≠ .user then s.yieldThread c t else s
  | .block m => r.elim s fun t => if T.kind t ≠ .user then s.suspendToQueue c t (.blocked m) else s
  | .popBlocked m =>
    if KernelCode T r then
      match s.queue (.blocked m) with
      | [] => s
      | t :: l => (s.unlink (.blocked m) t l).setHand (runner c r) (.woken t :: s.hand (runner c r))
    else s
  | .schedule =>
    match s.hand (runner c r) with
    | .woken t :: l => (s.setHand (runner c r) l).scheduleThread c t
    | _ => s
  | .exit =>
    r.elim s fun t =>
      if T.kind t = .kernel ∧ (s.hand (.inr t)).isEmpty then
        { s.setCpu c (.entering none) with live := update s.live t false }
      else s
  | .setPinned b =>
    r.elim s fun t => if T.kind t ≠ .user then { s with pinned := update s.pinned t b } else s
  | .setCanYield b =>
    r.elim s fun t => if T.kind t ≠ .user then { s with canYield := update s.canYield t b } else s
  | .event e => r.elim s fun t => if e = .syscall → T.kind t = .user then s.pushEvent c t e else s
  | .timer =>
    { s with ticks := update s.ticks c ((s.ticks c + 1) % usizeBound) }.setCpu c
    (.wakingSleepers r none)
  | .interrupt => s.setCpu c (.preempting r)
  | .pollTasks => if r = none then s.pollTasks c else s
  | .handle o => r.elim s fun t => if T.IsHandler t then s.handle T c t o else s
  | .proceed => s

/-- One step on a core.  A step that the core cannot make changes nothing. -/
def step (T : ThreadTable κ τ) (s : Sched κ τ μ) : κ × CoreStep τ μ → Sched κ τ μ
  | (c, e) =>
    match s.cpu c, e with
    | .running r, e => s.runningStep T c r e
    | .wakingSleepers r held, .proceed => s.wakeupSleepers c r held
    | .preempting r, .proceed => s.preemptToIdle c r
    | .leaving t dest, .proceed => (s.setCpu c (.entering none)).pushBack (dest.queue c) t
    | .entering r, .proceed => s.setCpu c (.running r)
    | _, _ => s

/-- The steps of a run. -/
def run (T : ThreadTable κ τ) (s : Sched κ τ μ) (es : List (κ × CoreStep τ μ)) : Sched κ τ μ :=
  es.foldl (step T) s

/-- Every core runs its idle thread, and its event handler is in its queue.  There are no other
threads. -/
def boot (T : ThreadTable κ τ) : Sched κ τ μ where
  cpu _ := .running none
  queue
    | .localWork c => [T.handlerOf c]
    | _ => []
  sleepQueue _ := []
  ticks _ := 0
  idle _ := .atLocal
  handler _ := .polling
  hand _ := []
  live := T.IsHandler
  linked := T.IsHandler
  pinned := T.IsHandler
  corePinnedTo t :=
    match T.kind t with
    | .handler c => some c
    | _ => none
  canYield := T.IsHandler
  curEvent _ := none
  panicked := false

end Sched

end CabOS
