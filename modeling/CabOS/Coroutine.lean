import CabOS.Library.Placed
import CabOS.Library.Run

/-!
# Coroutines and their wakers

An executor pops a task from the queue of ready tasks, makes a waker for it and polls its future.  A
waker puts the task back into the queue, whenever it is called and as often as it is called, and a
task that is in the queue already cannot be linked again: the second of two calls panics, and a call
after the future was ready has it polled once more (`wake_panics_or_repolls`).  If between two polls
a task is woken at most once, is not woken after it has ended, and is not woken during the poll that
ends it, then it is in the queue at most once, is never polled after its end, and every call of a
waker puts it into the queue (`woken_once_ready_once`).

There may be any number of executors, and anybody may call a waker between any two steps.
`notified` is not part of the kernel: it says that the task was spawned or woken and no poll has
started since.
-/

namespace CabOS

open Function Queue Bool

/-- What is known of the future of a task. -/
inductive TaskStatus where
  /-- The task has not been spawned. -/
  | unborn
  /-- The future has not returned `Ready`. -/
  | pending
  /-- The future has returned `Ready`. -/
  | done
  deriving DecidableEq

/-- Where an executor is in its loop. -/
inductive ExecutorPhase (ν : Type) where
  /-- It is about to pop a task. -/
  | popping
  /-- It has a task with a new waker and is about to lock and poll it. -/
  | holding (n : ν)
  /-- It is in the `poll` of a task. -/
  | polling (n : ν)
  deriving DecidableEq

/-- The task that an executor has popped and not begun to poll. -/
def ExecutorPhase.held {ν : Type} : ExecutorPhase ν → List ν
  | .holding n => [n]
  | _ => []

lemma ExecutorPhase.mem_held {ν : Type} {n : ν} {p : ExecutorPhase ν} : n ∈ p.held ↔
    p = .holding n := by
  cases p with
  | popping => simp [held]
  | holding m => simp [held, eq_comm]
  | polling m => simp [held]

/-- The tasks, the queue of ready tasks and the executors. -/
structure Coroutines (ν ε : Type) where
  ready : List ν
  /-- The link of the task is in use. -/
  linked : ν → Bool
  executor : ε → ExecutorPhase ν
  status : ν → TaskStatus
  /-- A waker was made for the task. -/
  hasWaker : ν → Bool
  /-- An executor has locked the task for writing. -/
  locked : ν → Bool
  /-- The task was spawned or woken, and no poll has started since. -/
  notified : ν → Bool
  /-- A linked task was pushed. -/
  panicked : Bool
  /-- A future was polled after it had returned `Ready`. -/
  repolled : Bool

namespace Coroutines

/-- What can happen next. -/
inductive Step (ν ε : Type) where
  | spawn (n : ν)
  /-- An executor pops a task and makes a waker for it. -/
  | pop (e : ε)
  /-- An executor locks its task and starts to poll it. -/
  | poll (e : ε)
  /-- The poll returns; the bit says that it returns `Ready`. -/
  | finish (e : ε) (ready : Bool)
  /-- A waker of a task is called. -/
  | wake (n : ν)
  deriving DecidableEq

variable {ν ε : Type}

/-- No task has been spawned. -/
def start : Coroutines ν ε where
  ready := []
  linked _ := false
  executor _ := .popping
  status _ := .unborn
  hasWaker _ := false
  locked _ := false
  notified _ := false
  panicked := false
  repolled := false

variable [DecidableEq ν] [DecidableEq ε]

/-- `push_back`, which panics if the task is linked. -/
def pushBack (s : Coroutines ν ε) (n : ν) : Coroutines ν ε :=
  if s.linked n then { s with panicked := true }
  else { s with ready := s.ready ++ [n], linked := update s.linked n true }

/-- `wake_task` -/
def wakeTask (s : Coroutines ν ε) (n : ν) : Coroutines ν ε :=
  { s with notified := update s.notified n true }.pushBack n

/-- One step.  A step that cannot be made changes nothing. -/
def step (s : Coroutines ν ε) : Step ν ε → Coroutines ν ε
  | .spawn n =>
    if s.status n = .unborn then
      { s with
        status := update s.status n .pending
        notified := update s.notified n true }.pushBack n
    else s
  | .pop e =>
    match s.executor e, s.ready with
    | .popping, n :: l =>
      { s with
        ready := l
        linked := update s.linked n false
        hasWaker := update s.hasWaker n true
        executor := update s.executor e (.holding n) }
    | _, _ => s
  | .poll e =>
    match s.executor e with
    | .holding n =>
      if s.locked n then s
      else
        { s with
          locked := update s.locked n true
          executor := update s.executor e (.polling n)
          notified := update s.notified n false
          repolled := s.repolled || decide (s.status n = .done) }
    | _ => s
  | .finish e ready =>
    match s.executor e with
    | .polling n =>
      { s with
        locked := update s.locked n false
        executor := update s.executor e .popping
        status := if ready then update s.status n .done else s.status }
    | _ => s
  | .wake n => if s.hasWaker n then s.wakeTask n else s

/-- The steps of a run. -/
def run (s : Coroutines ν ε) (es : List (Step ν ε)) : Coroutines ν ε := es.foldl step s

/-- A task is woken only if it has not ended and was not woken since the last poll has started; a
poll that returns `Ready` is one during which the task was not woken. -/
def WokenOnce (s : Coroutines ν ε) : Step ν ε → Prop
  | .wake n => s.notified n = false ∧ s.status n ≠ .done
  | .finish e true => ∀ n, s.executor e = .polling n → s.notified n = false
  | _ => True

instance [Fintype ν] (s : Coroutines ν ε) : DecidablePred s.WokenOnce
  | .wake n => inferInstanceAs (Decidable (s.notified n = false ∧ s.status n ≠ .done))
  | .finish e true => inferInstanceAs
  (Decidable (∀ n, s.executor e = .polling n → s.notified n = false))
  | .finish _ false => inferInstanceAs (Decidable True)
  | .spawn _ => inferInstanceAs (Decidable True)
  | .pop _ => inferInstanceAs (Decidable True)
  | .poll _ => inferInstanceAs (Decidable True)

/-! ## What every step keeps -/

section

variable {s : Coroutines ν ε} {n : ν} {e : ε}

/-- The tasks in the queue (`none`) and with an executor. -/
def places (s : Coroutines ν ε) : Option ε → List ν
  | none => s.ready
  | some e => (s.executor e).held

/-- A task that is notified is in the queue or with an executor, once, and has not ended; no other
task is there. -/
structure Inv (s : Coroutines ν ε) (loc : ν → Option (Option ε)) : Prop where
  placed : Placed loc s.places
  notified : ∀ n, s.notified n = true ↔ loc n ≠ none
  linked : ∀ n, s.linked n = true ↔ loc n = some none
  pending : ∀ n, s.notified n = true → s.status n = .pending
  born : ∀ n, s.hasWaker n = true → s.status n ≠ .unborn
  calm : s.panicked = false
  once : s.repolled = false

omit [DecidableEq ν] [DecidableEq ε] in
lemma inv_start : (start : Coroutines ν ε).Inv fun _ => none := by
  refine ⟨fun p => ?_, by simp [start], by simp [start], by simp [start], by simp [start], rfl, rfl⟩
  cases p with
  | none => exact nil (by simp)
  | some e => exact nil (by simp)

variable {loc : ν → Option (Option ε)}

section

variable (h : s.Inv loc)
include h

/-- A task that is not notified is pushed. -/
lemma Inv.notify (hn : s.notified n = false) {status : ν → TaskStatus}
    (hstatus : ∀ m ≠ n, status m = s.status m) (hpending : status n = .pending) :
    Inv ({ s with status := status, notified := update s.notified n true }.pushBack n)
      (update loc n (some none)) := by
  have hloc : loc n = none := by
    by_contra hne
    rw [(h.notified n).mpr hne] at hn
    cases hn
  have hfree : s.linked n = false := by
    rw [← not_eq_true, h.linked, hloc]
    simp
  have hplaces : places
      ({ s with status := status, notified := update s.notified n true }.pushBack n) =
      update s.places none (s.ready ++ [n]) := by
    funext p
    cases p with
    | none => simp [places, pushBack, hfree]
    | some e => simp [places, pushBack, hfree]
  refine ⟨?_, fun m => ?_, fun m => ?_, fun m hm => ?_, fun m hm => ?_, ?_, ?_⟩
  · rw [hplaces]
    exact h.placed.put hloc List.perm_append_comm
  · rcases eq_or_ne m n with rfl | hne
    · simp [pushBack, hfree]
    · simp [pushBack, hfree, hne, h.notified]
  · rcases eq_or_ne m n with rfl | hne
    · simp [pushBack, hfree]
    · simp [pushBack, hfree, hne, h.linked]
  · rcases eq_or_ne m n with rfl | hne
    · simp [pushBack, hfree, hpending]
    · simp only [pushBack, hfree, false_eq_true, if_false, update_of_ne hne] at hm ⊢
      rw [hstatus m hne]
      exact h.pending m hm
  · rcases eq_or_ne m n with rfl | hne
    · simp [pushBack, hfree, hpending]
    · simp only [pushBack, hfree, false_eq_true, if_false] at hm ⊢
      rw [hstatus m hne]
      exact h.born m hm
  · simp [pushBack, hfree, h.calm]
  · simp [pushBack, hfree, h.once]

/-- A task goes from the queue to an executor. -/
lemma Inv.pop {l : List ν} (hphase : s.executor e = .popping) (hready : s.ready = n :: l) :
    Inv (s.step (.pop e)) (update loc n (some (some e))) := by
  have hloc : loc n = some none := h.placed.loc_eq (p := none) (by simp [places, hready])
  have hnotified : s.notified n = true := (h.notified n).mpr (by simp [hloc])
  have hplaces : (s.step (.pop e)).places = update (update s.places none l) (some e) [n] := by
    funext p
    cases p with
    | none => simp [places, step, hphase, hready]
    | some d =>
      rcases eq_or_ne d e with rfl | hne
      · simp [places, step, hphase, hready, ExecutorPhase.held]
      · simp [places, step, hphase, hready, hne]
  refine ⟨?_, fun m => ?_, fun m => ?_, fun m hm => ?_, fun m hm => ?_, ?_, ?_⟩
  · have hmoved := (h.placed.take (p := none) (t := n) (l := l) (by simp [places, hready])).put
      (p := some e) (l := [n]) (update_self ..) (by simp [places, hphase, ExecutorPhase.held])
    rwa [update_idem, ← hplaces] at hmoved
  · rcases eq_or_ne m n with rfl | hne
    · simp [step, hphase, hready, hnotified]
    · simp [step, hphase, hready, hne, h.notified]
  · rcases eq_or_ne m n with rfl | hne
    · simp [step, hphase, hready]
    · simp [step, hphase, hready, hne, h.linked]
  · simp only [step, hphase, hready] at hm ⊢
    exact h.pending m hm
  · simp only [step, hphase, hready] at hm ⊢
    rcases eq_or_ne m n with rfl | hne
    · simp [h.pending m hnotified]
    · rw [update_of_ne hne] at hm
      exact h.born m hm
  · simp [step, hphase, hready, h.calm]
  · simp [step, hphase, hready, h.once]

/-- A task that an executor starts to poll has not ended. -/
lemma Inv.poll (hphase : s.executor e = .holding n) (hlocked : s.locked n = false) :
    Inv (s.step (.poll e)) (update loc n none) := by
  have hloc : loc n = some (some e) :=
    h.placed.loc_eq (p := some e) (by simp [places, hphase, ExecutorPhase.held])
  have hpending : s.status n = .pending := h.pending n ((h.notified n).mpr (by simp [hloc]))
  have hplaces : (s.step (.poll e)).places = update s.places (some e) [] := by
    funext p
    cases p with
    | none => simp [places, step, hphase, hlocked]
    | some d =>
      rcases eq_or_ne d e with rfl | hne
      · simp [places, step, hphase, hlocked, ExecutorPhase.held]
      · simp [places, step, hphase, hlocked, hne]
  refine ⟨?_, fun m => ?_, fun m => ?_, fun m hm => ?_, fun m hm => ?_, ?_, ?_⟩
  · rw [hplaces]
    exact h.placed.take (by simp [places, hphase, ExecutorPhase.held])
  · rcases eq_or_ne m n with rfl | hne
    · simp [step, hphase, hlocked]
    · simp [step, hphase, hlocked, hne, h.notified]
  · rcases eq_or_ne m n with rfl | hne
    · simp [step, hphase, hlocked, h.linked, hloc]
    · simp [step, hphase, hlocked, hne, h.linked]
  · rcases eq_or_ne m n with rfl | hne
    · simp [step, hphase, hlocked] at hm
    · simp only [step, hphase, hlocked, false_eq_true, if_false, update_of_ne hne] at hm ⊢
      exact h.pending m hm
  · simp only [step, hphase, hlocked, false_eq_true, if_false] at hm ⊢
    exact h.born m hm
  · simp [step, hphase, hlocked, h.calm]
  · simp [step, hphase, hlocked, h.once, hpending]

/-- A poll returns; if it returns `Ready`, its task was not woken meanwhile. -/
lemma Inv.finish {ready : Bool} (hphase : s.executor e = .polling n)
    (hquiet : ready → s.notified n = false) : Inv (s.step (.finish e ready)) loc := by
  have hplaces : (s.step (.finish e ready)).places = s.places := by
    funext p
    cases p with
    | none => simp [places, step, hphase]
    | some d =>
      rcases eq_or_ne d e with rfl | hne
      · simp [places, step, hphase, ExecutorPhase.held]
      · simp [places, step, hphase, hne]
  refine ⟨?_, fun m => ?_, fun m => ?_, fun m hm => ?_, fun m hm => ?_, ?_, ?_⟩
  · rw [hplaces]
    exact h.placed
  · simp [step, hphase, h.notified]
  · simp [step, hphase, h.linked]
  · simp only [step, hphase] at hm ⊢
    split
    next hready =>
      rcases eq_or_ne m n with rfl | hne
      · rw [hquiet hready] at hm
        cases hm
      · rw [update_of_ne hne]
        exact h.pending m hm
    next => exact h.pending m hm
  · simp only [step, hphase] at hm ⊢
    split
    next =>
      rcases eq_or_ne m n with rfl | hne
      · simp
      · rw [update_of_ne hne]
        exact h.born m hm
    next => exact h.born m hm
  · simp [step, hphase, h.calm]
  · simp [step, hphase, h.once]

/-- A task that can be woken is pending and not notified. -/
lemma Inv.wake (hwaker : s.hasWaker n) (hallowed : s.WokenOnce (.wake n)) :
    Inv (s.wakeTask n) (update loc n (some none)) := by
  have hpending : s.status n = .pending := by
    have hborn := h.born n hwaker
    have hdone := hallowed.2
    cases hstatus : s.status n with
    | unborn => exact absurd hstatus hborn
    | pending => rfl
    | done => exact absurd hstatus hdone
  exact h.notify hallowed.1 (fun _ _ => rfl) hpending

/-- Every step keeps the tasks in their places. -/
lemma Inv.step {a : Step ν ε} (ha : s.WokenOnce a) : ∃ loc, Inv (s.step a) loc := by
  cases a with
  | spawn n =>
    by_cases hborn : s.status n = .unborn
    · have hquiet : s.notified n = false := by
        by_contra hn
        simp [h.pending n (by simpa using hn)] at hborn
      refine ⟨update loc n (some none), ?_⟩
      simp only [Coroutines.step, hborn, if_true]
      exact h.notify hquiet (fun m hm => update_of_ne hm ..) (update_self ..)
    · exact ⟨loc, by simpa [Coroutines.step, hborn] using h⟩
  | pop e =>
    cases hphase : s.executor e with
    | popping =>
      cases hready : s.ready with
      | nil => exact ⟨loc, by simpa [Coroutines.step, hphase, hready] using h⟩
      | cons n l => exact ⟨_, h.pop hphase hready⟩
    | holding n => exact ⟨loc, by simpa [Coroutines.step, hphase] using h⟩
    | polling n => exact ⟨loc, by simpa [Coroutines.step, hphase] using h⟩
  | poll e =>
    cases hphase : s.executor e with
    | popping => exact ⟨loc, by simpa [Coroutines.step, hphase] using h⟩
    | holding n =>
      cases hlocked : s.locked n with
      | true => exact ⟨loc, by simpa [Coroutines.step, hphase, hlocked] using h⟩
      | false => exact ⟨_, h.poll hphase hlocked⟩
    | polling n => exact ⟨loc, by simpa [Coroutines.step, hphase] using h⟩
  | finish e ready =>
    cases hphase : s.executor e with
    | popping => exact ⟨loc, by simpa [Coroutines.step, hphase] using h⟩
    | holding n => exact ⟨loc, by simpa [Coroutines.step, hphase] using h⟩
    | polling n =>
      refine ⟨loc, h.finish hphase fun hready => ?_⟩
      subst hready
      exact ha n hphase
  | wake n =>
    by_cases hwaker : s.hasWaker n
    · refine ⟨update loc n (some none), ?_⟩
      simp only [Coroutines.step, hwaker, if_true]
      exact h.wake hwaker ha
    · exact ⟨loc, by simpa [Coroutines.step, hwaker] using h⟩

end

end

/-- What is asked of a state: no linked task was pushed, no future was polled after its end, no task
is in the queue twice, a task that was woken and has not been polled since is in the queue or with
an executor that is about to poll it, and a call of a waker puts its task into the queue. -/
structure Orderly (s : Coroutines ν ε) : Prop where
  calm : s.panicked = false
  once : s.repolled = false
  nodup : s.ready.Nodup
  kept : ∀ n, s.notified n = true → n ∈ s.ready ∨ ∃ e, s.executor e = .holding n
  queued : ∀ n, s.hasWaker n = true → s.WokenOnce (.wake n) → n ∈ (s.step (.wake n)).ready

/-- If every task is woken at most once between two polls, never after its end and not during the
poll that ends it, then it is in the queue at most once, is polled after every call of a waker, and
is not polled after its end. -/
theorem woken_once_ready_once (as : List (Step ν ε)) (has : AlongRun step WokenOnce start as) :
    ((start : Coroutines ν ε).run as).Orderly := by
  obtain ⟨loc, h⟩ := has.invariant (I :=
    fun s => ∃ loc, s.Inv loc) (fun s a ⟨_, h⟩ ha => h.step ha) ⟨_, inv_start⟩
  refine ⟨h.calm, h.once, (h.placed none).nodup, fun n hn => ?_, fun n hwaker hn => ?_⟩
  · obtain ⟨p, hp, -⟩ := h.placed.existsUnique ((h.notified n).mp hn)
    cases p with
    | none => exact .inl hp
    | some e => exact .inr ⟨e, ExecutorPhase.mem_held.mp hp⟩
  · have hwoken := h.wake hwaker hn
    simp only [step, hwaker, if_true]
    exact ((hwoken.placed none).mem_iff n).mpr (update_self ..)

/-- A task is woken during its poll and polled again by another executor. -/
theorem woken_once_ready_once_during_poll : ((start : Coroutines (Fin 1) (Fin 2)).run
      [.spawn 0, .pop 0, .poll 0, .wake 0, .finish 0 false, .pop 1, .poll 1,
        .finish 1 true]).Orderly :=
  woken_once_ready_once _ (by decide)

/-- A task whose waker is called twice after a poll is pushed while it is in the queue; a task whose
waker is called after its future was ready is polled again. -/
theorem wake_panics_or_repolls : ((start : Coroutines (Fin 1) (Fin 1)).run
      [.spawn 0, .pop 0, .poll 0, .finish 0 false, .wake 0, .wake 0]).panicked = true ∧
    ((start : Coroutines (Fin 1) (Fin 1)).run
      [.spawn 0, .pop 0, .poll 0, .finish 0 true, .wake 0, .pop 0, .poll 0]).repolled = true := by
  constructor
  · decide
  · decide

end Coroutines

end CabOS
