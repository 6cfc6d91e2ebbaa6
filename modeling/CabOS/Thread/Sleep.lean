import CabOS.Thread.Sched

/-!
# Sleeping threads

`sleep` enters a thread into the sleep queue of the core, and the timer interrupt ends the sleeps
that are due with `wakeup_sleepers`, which stops at the first one that is not.  Both hold the lock
of the queue and have interrupts off, so a call is one step here; the steps of the scheduler add up
to these calls (`sleepQueue_sleep`, `wakeup_run`).  The queue stays sorted, and every sleep ends
once and not before its tick (`sleepers_woken_once`).

`nanosleep` rounds the time up to milliseconds and to ticks, but it counts from the last tick before
the call.  A thread sleeps for the time it has asked for if no more of the tick has passed than it
is rounded up by, and wakes up too early otherwise (`nanosleep_long_enough`).
-/

namespace CabOS

/-- Ticks of the timer in a second. -/
def timerHz : ℕ := 1000

/-- The number of ticks of a sleep. -/
def durationTicks (durationMs : ℕ) : ℕ := (min (durationMs * timerHz) usizeMax + 999) / 1000

/-- The tick that ends a sleep which is entered at a given tick. -/
def wakeupTickOf (ticks durationMs : ℕ) : ℕ := min (ticks + durationTicks durationMs) usizeMax

variable {τ : Type}

/-- The loop of `wakeup_sleepers`: the entries that are removed, in the order in which their threads
are scheduled, and those that stay. -/
def removeDue (currentTick : ℕ) : List (τ × ℕ) → List (τ × ℕ) × List (τ × ℕ)
  | [] => ([], [])
  | e :: l => if e.2 ≤ currentTick then (e :: (removeDue currentTick l).1,
    (removeDue currentTick l).2) else ([], e :: l)

/-- The timer of a core and its sleep queue, with a history of the calls. -/
structure SleepCore (τ : Type) where
  ticks : ℕ
  /-- The threads that sleep, with the tick that ends the sleep. -/
  sleepQueue : List (τ × ℕ)
  /-- The sleeps so far: the thread, the tick that was read and the milliseconds. -/
  entered : List (τ × ℕ × ℕ)
  /-- The entries whose threads were scheduled, with the tick at that time. -/
  scheduled : List ((τ × ℕ) × ℕ)

/-- What happens on the core. -/
inductive SleepEvent (τ : Type) where
  | sleep (t : τ) (durationMs : ℕ)
  /-- The timer interrupt. -/
  | timer

namespace SleepCore

/-- No thread sleeps. -/
def start (ticks : ℕ) : SleepCore τ := ⟨ticks, [], [], []⟩

/-- `sleep` -/
def sleep (c : SleepCore τ) (t : τ) (durationMs : ℕ) : SleepCore τ :=
  { c with
    sleepQueue := Sched.insertSleeper t (wakeupTickOf c.ticks durationMs) c.sleepQueue
    entered := c.entered ++ [(t, c.ticks, durationMs)] }

/-- `wakeup_sleepers` -/
def wakeupSleepers (c : SleepCore τ) : SleepCore τ :=
  { c with
    sleepQueue := (removeDue c.ticks c.sleepQueue).2
    scheduled := c.scheduled ++ (removeDue c.ticks c.sleepQueue).1.map (·, c.ticks) }

def step (c : SleepCore τ) : SleepEvent τ → SleepCore τ
  | .sleep t durationMs => c.sleep t durationMs
  | .timer => { c with ticks := (c.ticks + 1) % usizeBound }.wakeupSleepers

def run (c : SleepCore τ) (es : List (SleepEvent τ)) : SleepCore τ := es.foldl step c

/-- The entries that the calls of `sleep` have made, in the order of the calls. -/
def entries (c : SleepCore τ) : List (τ × ℕ) :=
  c.entered.map fun e => (e.1, wakeupTickOf e.2.1 e.2.2)

end SleepCore

/-! ## The queue is sorted -/

/-- Earlier ticks are in front. -/
def SortedByTick (l : List (τ × ℕ)) : Prop := l.Pairwise (·.2 ≤ ·.2)

variable {l : List (τ × ℕ)} {t : τ} {w k : ℕ}

open Sched List Nat Prod Function

section

variable (h : SortedByTick l)
include h

/-- An insertion keeps the order. -/
lemma SortedByTick.insertSleeper : SortedByTick (insertSleeper t w l) := by
  induction l with
  | nil => exact pairwise_singleton _ _
  | cons e l ih =>
    obtain ⟨hle, hl⟩ := pairwise_cons.mp h
    rw [Sched.insertSleeper]
    split_ifs with hw
    · refine pairwise_cons.mpr ⟨fun x hx => ?_, h⟩
      rcases mem_cons.mp hx with rfl | hx
      · exact hw.le
      · exact hw.le.trans (hle x hx)
    · refine pairwise_cons.mpr ⟨fun x hx => ?_, ih hl⟩
      rcases mem_cons.mp ((insertSleeper_perm t w l).mem_iff.mp hx) with rfl | hx
      · exact not_lt.mp hw
      · exact hle x hx

/-- Behind the entries of its own tick, an insertion does not change the order of the entries of a
tick. -/
lemma filter_insertSleeper : (insertSleeper t w l).filter (·.2 = k) =
    l.filter (·.2 = k) ++ [(t, w)].filter (·.2 = k) := by
  induction l with
  | nil => rfl
  | cons e l ih =>
    obtain ⟨hle, hl⟩ := pairwise_cons.mp h
    rw [Sched.insertSleeper]
    split_ifs with hw
    · by_cases hk : w = k
      · have hnone : (e :: l).filter (fun x => decide (x.2 = k)) = [] := by
          refine filter_eq_nil_iff.mpr fun x hx => ?_
          have : e.2 ≤ x.2 := by
            rcases mem_cons.mp hx with rfl | hx
            · exact le_rfl
            · exact hle x hx
          simp only [decide_eq_true_eq]
          omega
        rw [filter_cons, hnone]
        simp [hk]
      · simp [filter_cons, hk]
    · rw [filter_cons, ih hl, filter_cons (x := e)]
      split_ifs
      · rfl
      · rfl

/-- In a sorted queue the loop removes what is due and nothing else. -/
lemma removeDue_eq : removeDue k l = (l.filter (·.2 ≤ k), l.filter (k < ·.2)) := by
  induction l with
  | nil => rfl
  | cons e l ih =>
    obtain ⟨hle, hl⟩ := pairwise_cons.mp h
    rw [removeDue]
    split_ifs with hk
    · simp [ih hl, hk, not_lt.mpr hk]
    · have hnot : ∀ x ∈ e :: l, k < x.2 := by
        intro x hx
        rcases mem_cons.mp hx with rfl | hx
        · exact not_le.mp hk
        · exact (not_le.mp hk).trans_le (hle x hx)
      have hnone : (e :: l).filter (fun x => decide (x.2 ≤ k)) = [] :=
        filter_eq_nil_iff.mpr fun x hx => by simpa using hnot x hx
      have hall : (e :: l).filter (fun x => decide (k < x.2)) = e :: l :=
        filter_eq_self.mpr fun x hx => decide_eq_true (hnot x hx)
      rw [hnone, hall]

end

/-! ## Runs -/

namespace SleepCore

/-- What holds between the calls. -/
structure Inv (c : SleepCore τ) : Prop where
  sorted : SortedByTick c.sleepQueue
  fifo : ∀ w, (c.sleepQueue.filter (·.2 = w)).Sublist (c.entries.filter (·.2 = w))
  once : (c.scheduled.map fst ++ c.sleepQueue).Perm c.entries
  due : ∀ x ∈ c.scheduled, x.1.2 ≤ x.2

lemma inv_start (ticks : ℕ) : (start ticks : SleepCore τ).Inv :=
  ⟨List.Pairwise.nil, fun _ => List.Sublist.refl _, List.Perm.refl _,
    fun _ h => absurd h not_mem_nil⟩

variable {c : SleepCore τ}

lemma Inv.sleep (h : c.Inv) (t : τ) (durationMs : ℕ) : (c.sleep t durationMs).Inv := by
  have hentries : (c.sleep t durationMs).entries =
    c.entries ++ [(t, wakeupTickOf c.ticks durationMs)] := by
    simp [SleepCore.sleep, entries]
  refine ⟨h.sorted.insertSleeper, fun w => ?_, ?_, h.due⟩
  · rw [hentries, filter_append]
    exact (filter_insertSleeper h.sorted).symm ▸ (h.fifo w).append_right _
  · rw [hentries]
    refine ((insertSleeper_perm _ _ _).append_left _).trans ?_
    exact perm_middle.trans ((h.once.cons _).trans (perm_append_singleton _ _).symm)

lemma Inv.wakeupSleepers (h : c.Inv) : c.wakeupSleepers.Inv := by
  have hdue := removeDue_eq (k := c.ticks) h.sorted
  refine ⟨?_, fun w => ?_, ?_, fun x hx => ?_⟩
  · simp only [SleepCore.wakeupSleepers, hdue]
    exact h.sorted.filter _
  · simp only [SleepCore.wakeupSleepers, hdue]
    exact (filter_sublist.filter _).trans (h.fifo w)
  · refine List.Perm.trans ?_ h.once
    simp only [SleepCore.wakeupSleepers, hdue, map_append, List.map_map, append_assoc]
    refine List.Perm.append_left _ ?_
    have hnot : (fun e : τ × ℕ => decide (c.ticks < e.2)) = fun e => !decide (e.2 ≤ c.ticks) := by
      funext e
      simp only [← decide_not, not_le]
    rw [hnot, show fst ∘ (fun e : τ × ℕ => (e, c.ticks)) = id from rfl, List.map_id]
    exact filter_append_perm _ _
  · rcases mem_append.mp hx with hx | hx
    · exact h.due x hx
    · rw [hdue] at hx
      obtain ⟨e, he, rfl⟩ := mem_map.mp hx
      exact of_decide_eq_true (mem_filter.mp he).2

lemma Inv.step (h : c.Inv) (e : SleepEvent τ) : (c.step e).Inv := by
  cases e with
  | sleep t durationMs => exact h.sleep t durationMs
  | timer =>
    have hticks : { c with ticks := (c.ticks + 1) % usizeBound }.Inv :=
      ⟨h.sorted, h.fifo, h.once, h.due⟩
    exact hticks.wakeupSleepers

lemma inv_run (h : c.Inv) (es : List (SleepEvent τ)) : (c.run es).Inv := by
  induction es generalizing c with
  | nil => exact h
  | cons e es ih => exact ih (h.step e)

/-- What a timer interrupt does to a sorted queue. -/
lemma step_timer (h : c.Inv) :
    (c.step .timer).sleepQueue = c.sleepQueue.filter ((c.ticks + 1) % usizeBound < ·.2) ∧
    (c.step .timer).scheduled = c.scheduled ++
      (c.sleepQueue.filter (·.2 ≤ (c.ticks + 1) % usizeBound)).map
      (·, (c.ticks + 1) % usizeBound) := by
  simp [SleepCore.step, SleepCore.wakeupSleepers, removeDue_eq h.sorted]

/-- Whatever sleeps are entered between the ticks of the timer, the queue is sorted with sleeps for
the same tick in the order of the calls.  A timer interrupt counts its tick, removes from the queue
exactly what is due at that tick, and schedules the threads of these entries in the order of the
queue.  The sleeps that were ended and those that are in the queue are the sleeps that were entered,
each once, none of them ended before its tick. -/
theorem sleepers_woken_once (ticks : ℕ) (es : List (SleepEvent τ)) {c : SleepCore τ}
    (hc : c = (start ticks).run es) :
    SortedByTick c.sleepQueue ∧
    (∀ w, (c.sleepQueue.filter (·.2 = w)).Sublist (c.entries.filter (·.2 = w))) ∧
    ((c.step .timer).ticks = (c.ticks + 1) % usizeBound ∧
      (c.step .timer).sleepQueue = c.sleepQueue.filter ((c.ticks + 1) % usizeBound < ·.2) ∧
      (c.step .timer).scheduled = c.scheduled ++
        (c.sleepQueue.filter (·.2 ≤ (c.ticks + 1) % usizeBound)).map
        (·, (c.ticks + 1) % usizeBound)) ∧
    (c.scheduled.map fst ++ c.sleepQueue).Perm c.entries ∧
    ∀ x ∈ c.scheduled, x.1.2 ≤ x.2 := by
  have h : c.Inv := hc ▸ inv_run (inv_start (τ := τ) ticks) es
  exact ⟨h.sorted, h.fifo, ⟨rfl, step_timer h⟩, h.once, h.due⟩

/-- Two threads sleep for a millisecond and one for two; the next tick wakes the first two in the
order of their calls. -/
theorem sleepers_woken_once_two :
    ((start 5).run [.sleep 'a' 1, .sleep 'b' 2, .sleep 'c' 1, .timer]).scheduled =
      [(('a', 6), 6), (('c', 6), 6)] ∧
    ((start 5).run [.sleep 'a' 1, .sleep 'b' 2, .sleep 'c' 1, .timer]).sleepQueue = [('b', 7)] := by
  obtain ⟨-, -, ⟨-, hqueue, hscheduled⟩, -⟩ :=
    sleepers_woken_once 5 [.sleep 'a' 1, .sleep 'b' 2, .sleep 'c' 1] rfl
  exact ⟨hscheduled, hqueue⟩

/-! ## The ticks of a run -/

/-- The number of timer interrupts. -/
def timers (es : List (SleepEvent τ)) : ℕ :=
  es.countP fun e => e matches .timer

/-- The entries whose threads the next timer interrupt schedules. -/
def wokenNext (c : SleepCore τ) : List (τ × ℕ) :=
  ((c.step .timer).scheduled.drop c.scheduled.length).map fst

lemma mem_wokenNext (h : c.Inv) {e : τ × ℕ} :
    e ∈ c.wokenNext ↔ e ∈ c.sleepQueue ∧ e.2 ≤ (c.ticks + 1) % usizeBound := by
  rw [wokenNext, (step_timer h).2, drop_left, List.map_map, show fst ∘ (fun e : τ × ℕ =>
    (e, (c.ticks + 1) % usizeBound)) = id from rfl, List.map_id, mem_filter, decide_eq_true_eq]

/-- The counter of the ticks wraps. -/
lemma ticks_run (hc : c.ticks < usizeBound) (es : List (SleepEvent τ)) :
    (c.run es).ticks = (c.ticks + timers es) % usizeBound := by
  induction es generalizing c with
  | nil => exact (mod_eq_of_lt hc).symm
  | cons e es ih =>
    cases e with
    | sleep t durationMs => exact ih hc
    | timer =>
      have hstep : (c.run (.timer :: es)).ticks = ((c.step .timer).run es).ticks := rfl
      have hcount : timers (.timer :: es : List (SleepEvent τ)) = timers es + 1 :=
        countP_cons_of_pos rfl
      rw [hstep, ih (mod_lt _ (by decide)), hcount]
      simp only [SleepCore.step, SleepCore.wakeupSleepers, usizeBound]
      omega

/-- An entry stays in the queue until its tick. -/
lemma mem_sleepQueue_timers (h : c.Inv) {e : τ × ℕ} (he : e ∈ c.sleepQueue) (n : ℕ)
    (hn : c.ticks + n < e.2)
    (hmax : e.2 ≤ usizeMax) : e ∈ (c.run (replicate n .timer)).sleepQueue := by
  induction n generalizing c with
  | zero => exact he
  | succ n ih =>
    have hwrap : (c.ticks + 1) % usizeBound = c.ticks + 1 := by
      simp only [usizeBound, usizeMax] at hmax ⊢
      omega
    have hticks : (c.step .timer).ticks = c.ticks + 1 := hwrap
    refine ih (h.step .timer) ?_ (by omega)
    rw [(step_timer h).1, hwrap]
    exact mem_filter.mpr ⟨he, decide_eq_true (by omega)⟩

end SleepCore

/-! ## The scheduler -/

namespace Sched

variable {κ μ : Type} [DecidableEq κ] [DecidableEq τ] [DecidableEq μ] {s : Sched κ τ μ} {c : κ}

/-- The sleeps of a core, without a history. -/
def sleepCore (s : Sched κ τ μ) (c : κ) : SleepCore τ := ⟨s.ticks c, s.sleepQueue c, [], []⟩

omit [DecidableEq τ] [DecidableEq μ] in
/-- `sleep` of the scheduler enters the sleep of the core. -/
lemma sleepQueue_sleep (t : τ) (durationMs : ℕ) :
    (s.sleep c t (durationTicks durationMs)).sleepQueue c =
    ((s.sleepCore c).sleep t durationMs).sleepQueue :=
  update_self _ _ _

/-- Scheduling a thread is independent of what the core is doing and of its sleepers. -/
lemma scheduleThread_setCpu (x : Cpu τ μ) (t : τ) :
    (s.setCpu c x).scheduleThread c t = (s.scheduleThread c t).setCpu c x := by
  cases hlinked : s.linked t <;> cases hpinned : s.pinned t <;> cases hcore : s.corePinnedTo t <;>
    simp [scheduleThread, setCpu, pushBack, hlinked, hpinned, hcore]

lemma scheduleThread_setSleepQueue (x : List (τ × ℕ)) (t : τ) :
    (s.setSleepQueue c x).scheduleThread c t = (s.scheduleThread c t).setSleepQueue c x := by
  cases hlinked : s.linked t <;> cases hpinned : s.pinned t <;> cases hcore : s.corePinnedTo t <;>
    simp [scheduleThread, setSleepQueue, pushBack, hlinked, hpinned, hcore]

/-- Scheduling a thread takes no time. -/
lemma ticks_scheduleThread (t : τ) : (s.scheduleThread c t).ticks = s.ticks := by
  cases hlinked : s.linked t <;> cases hpinned : s.pinned t <;> cases hcore : s.corePinnedTo t <;>
    simp [scheduleThread, pushBack, hlinked, hpinned, hcore]

lemma foldl_scheduleThread_setCpu (x : Cpu τ μ) (ts : List τ) (s : Sched κ τ μ) :
    ts.foldl (fun s t => s.scheduleThread c t) (s.setCpu c x) =
      (ts.foldl (fun s t => s.scheduleThread c t) s).setCpu c x := by
  induction ts generalizing s with
  | nil => rfl
  | cons t ts ih => rw [foldl_cons, scheduleThread_setCpu, ih, foldl_cons]

/-- The steps of `wakeup_sleepers` add up to the call: the queue is what `removeDue` leaves, and the
threads of the entries that it removes are scheduled one after another. -/
lemma wakeup_run (T : ThreadTable κ τ) {r : Option τ} {l : List (τ × ℕ)} (s : Sched κ τ μ)
    (hcpu : s.cpu c = .wakingSleepers r none) (hl : s.sleepQueue c = l) :
    ∃ n, (replicate n (c, .proceed)).foldl (step T) s =
      ((((s.sleepCore c).wakeupSleepers.scheduled.map (·.1.1)).foldl
        (fun s t => s.scheduleThread c t)
        (s.setSleepQueue c (s.sleepCore c).wakeupSleepers.sleepQueue)).setCpu c
        (.preempting r)) := by
  simp only [SleepCore.wakeupSleepers, sleepCore, hl, nil_append, List.map_map]
  induction l generalizing s with
  | nil =>
    refine ⟨1, ?_⟩
    have hqueue : s.setSleepQueue c [] = s := by
      rw [setSleepQueue, ← hl, update_eq_self]
    simp only [replicate_one, foldl_cons, foldl_nil, step, hcpu, Sched.wakeupSleepers, hl,
      removeDue, map_nil, hqueue]
  | cons e l ih =>
    by_cases hdue : e.2 ≤ s.ticks c
    · -- the entry is removed and its thread is scheduled, in two steps
      let s₂ := ((s.setSleepQueue c l).scheduleThread c e.1).setCpu c (.wakingSleepers r none)
      have hsteps : [(c, .proceed), (c, .proceed)].foldl (step T) s = s₂ := by
        simp only [foldl_cons, foldl_nil, step, hcpu, Sched.wakeupSleepers, hl, if_pos hdue,
          setCpu, update_self,
          ← scheduleThread_setCpu, s₂, update_idem]
      have hkeep : s₂.sleepQueue c = l ∧ s₂.ticks c = s.ticks c := by
        simp only [s₂, scheduleThread_setSleepQueue]
        exact ⟨update_self _ _ _, congrFun (ticks_scheduleThread e.1) c⟩
      obtain ⟨n, hn⟩ := ih s₂ (update_self _ _ _) hkeep.1
      refine ⟨2 + n, ?_⟩
      rw [replicate_add, foldl_append,
        show replicate 2 (c, CoreStep.proceed) = [(c, .proceed), (c, .proceed)] from rfl,
        hsteps, hn, hkeep.2, removeDue, if_pos hdue, map_cons, foldl_cons]
      have hcommute : s₂.setSleepQueue c (removeDue (s.ticks c) l).2 =
          ((s.setSleepQueue c (removeDue (s.ticks c) l).2).scheduleThread c e.1).setCpu c
          (.wakingSleepers r none) := by
        simp only [s₂, scheduleThread_setSleepQueue]
        simp only [setSleepQueue, setCpu, update_idem]
      rw [hcommute, foldl_scheduleThread_setCpu]
      simp only [setCpu, update_idem, Function.comp]
    · refine ⟨1, ?_⟩
      have hqueue : s.setSleepQueue c (e :: l) = s := by
        rw [setSleepQueue, ← hl, update_eq_self]
      simp only [replicate_one, foldl_cons, foldl_nil, step, hcpu, Sched.wakeupSleepers, hl,
        if_neg hdue, removeDue,
        map_nil, hqueue]

end Sched

/-! ## Real time -/

/-- The argument of `nanosleep`. -/
structure Timespec where
  tvSec : Int64
  tvNsec : Int64

namespace Timespec

/-- The milliseconds of a sleep; other values are refused with `EINVAL`. -/
def durationMs (ts : Timespec) : Option ℕ :=
  if ts.tvSec < 0 ∨ ¬(0 ≤ ts.tvNsec ∧ ts.tvNsec < 1000000000) then none
  else some (min (min (ts.tvSec.toInt.toNat * 1000) usizeMax +
    (ts.tvNsec.toInt.toNat + 999999) / 1000000) usizeMax)

/-- The time that is asked for, in seconds. -/
def seconds (ts : Timespec) : ℚ := ts.tvSec.toInt + ts.tvNsec.toInt / 1000000000

/-- By how much the time is rounded up, in ticks. -/
def slack (ts : Timespec) : ℚ :=
  ((ts.tvNsec.toInt.toNat + 999999) / 1000000 : ℕ) - (ts.tvNsec.toInt / 1000000 : ℚ)

/-- The time is not rounded down. -/
lemma slack_nonneg (ts : Timespec) : 0 ≤ ts.slack := by
  have hround : ts.tvNsec.toInt ≤ ((ts.tvNsec.toInt.toNat + 999999) / 1000000 : ℕ) * 1000000 := by
    omega
  have hround' := (Int.cast_le (R := ℚ)).mpr hround
  rw [Int.cast_mul, Int.cast_natCast, Int.cast_ofNat] at hround'
  rw [slack]
  linarith

/-- The time that is asked for, rounded up to milliseconds. -/
def milliseconds (ts : Timespec) : ℕ :=
  ts.tvSec.toInt.toNat * 1000 + (ts.tvNsec.toInt.toNat + 999999) / 1000000

section

variable {ts : Timespec} {durationMs : ℕ} (hms : ts.durationMs = some durationMs)
include hms

/-- The milliseconds saturate. -/
lemma durationMs_eq : durationMs = min ts.milliseconds usizeMax := by
  rw [Timespec.durationMs] at hms
  split_ifs at hms with hvalid
  have hsome := Option.some_inj.mp hms
  rw [milliseconds]
  omega

/-- A tick is a millisecond, so the time is rounded up to a tick. -/
lemma milliseconds_eq : (ts.milliseconds : ℚ) = ts.seconds * timerHz + ts.slack := by
  rw [Timespec.durationMs] at hms
  split_ifs at hms with hvalid
  obtain ⟨hsec, hnsec⟩ := not_or.mp hvalid
  have hsec' : 0 ≤ ts.tvSec.toInt := Int64.le_iff_toInt_le.mp (Int64.not_lt.mp hsec)
  have hcast : ((ts.tvSec.toInt.toNat : ℕ) : ℚ) = ts.tvSec.toInt := by
    exact_mod_cast Int.toNat_of_nonneg hsec'
  rw [milliseconds, seconds, slack, timerHz]
  push_cast
  rw [hcast]
  ring

/-- The time is rounded up by less than a tick. -/
lemma slack_lt_one : ts.slack < 1 := by
  rw [Timespec.durationMs] at hms
  split_ifs at hms with hvalid
  obtain ⟨-, hnsec⟩ := not_or.mp hvalid
  have hnsec' : 0 ≤ ts.tvNsec.toInt := Int64.le_iff_toInt_le.mp (not_not.mp hnsec).1
  have hround : (ts.tvNsec.toInt.toNat + 999999) / 1000000 * 1000000 <
    ts.tvNsec.toInt.toNat + 1000000 := by
    omega
  have hcast : ((ts.tvNsec.toInt.toNat : ℕ) : ℚ) = ts.tvNsec.toInt := by
    exact_mod_cast Int.toNat_of_nonneg hnsec'
  have hround' : (((ts.tvNsec.toInt.toNat + 999999) / 1000000 : ℕ) : ℚ) * 1000000 <
    ts.tvNsec.toInt + 1000000 := by
    rw [← hcast]
    exact_mod_cast hround
  rw [slack]
  linarith

end

end Timespec

/-- The ticks of a sleep are its milliseconds, up to the largest number of ticks. -/
lemma durationTicks_eq (durationMs : ℕ) :
    durationTicks durationMs = min durationMs 18446744073709552 := by
  rw [durationTicks, timerHz, usizeMax, usizeBound]
  omega

/-- The tick of the wakeup is late enough exactly if nothing saturates and no more of the tick has
passed than the time is rounded up by. -/
lemma le_wakeupTickOf_iff {ts : Timespec} {durationMs : ℕ} (ticks : ℕ)
    (hms : ts.durationMs = some durationMs)
    {phase : ℚ} (hphase : 0 ≤ phase) :
    ticks + phase + ts.seconds * timerHz ≤ wakeupTickOf ticks durationMs ↔
      phase ≤ ts.slack ∧ durationMs ≤ 18446744073709552 ∧ ticks + durationMs ≤ usizeMax := by
  have hduration := Timespec.durationMs_eq hms
  have hexact := Timespec.milliseconds_eq hms
  have hslack := Timespec.slack_lt_one hms
  rw [wakeupTickOf, durationTicks_eq]
  by_cases hbound : durationMs ≤ 18446744073709552 ∧ ticks + durationMs ≤ usizeMax
  · have hms' : ts.milliseconds = durationMs := by
      rw [usizeMax, usizeBound] at *
      omega
    rw [min_eq_left hbound.1, min_eq_left hbound.2, and_iff_left hbound, cast_add, ← hms', hexact]
    constructor <;> intro h <;> linarith
  · refine iff_of_false (fun h => ?_) fun h => hbound h.2
    have hshort : min (ticks + min durationMs 18446744073709552) usizeMax + 1 ≤
      ticks + ts.milliseconds := by
      rw [usizeMax, usizeBound] at *
      omega
    have hshort' : ((min (ticks + min durationMs 18446744073709552) usizeMax : ℕ) : ℚ) + 1 ≤
      ticks + ts.milliseconds := by
      exact_mod_cast hshort
    linarith

/-- A thread calls `nanosleep` at the time `time` after the start of the timer, when the last tick
was the one before. In every run that follows, the thread is scheduled by no timer interrupt before
the time that it has asked for, exactly if it has asked for no time at all, or if no more of the
tick has passed than the time is rounded up by and neither the number of ticks nor the tick of the
wakeup saturates. -/
theorem nanosleep_long_enough {ts : Timespec} {durationMs : ℕ}
    (hms : ts.durationMs = some durationMs) {time : ℚ}
    (htime : 0 ≤ time) {c : SleepCore τ} (hc : c.Inv) (hticks : c.ticks = ⌊time * timerHz⌋₊)
    (hlast : c.ticks < usizeMax) (t : τ) :
    (∀ es, (t, wakeupTickOf c.ticks durationMs) ∈ ((c.sleep t durationMs).run es).wokenNext →
      time + ts.seconds ≤ (c.ticks + SleepCore.timers es + 1 : ℕ) / timerHz) ↔
    durationMs = 0 ∨ (Int.fract (time * timerHz) ≤ ts.slack ∧ durationMs ≤ 18446744073709552 ∧
      c.ticks + durationMs ≤ usizeMax) := by
  have hpos : (0 : ℚ) < timerHz := by norm_num [timerHz]
  have hfract : (c.ticks : ℚ) + Int.fract (time * timerHz) = time * timerHz := by
    rw [hticks, natCast_floor_eq_intCast_floor (mul_nonneg htime (cast_nonneg _))]
    exact Int.floor_add_fract _
  have hlate := le_wakeupTickOf_iff c.ticks hms (Int.fract_nonneg (time * timerHz))
  have hinv := hc.sleep t durationMs
  have hreal : ∀ k : ℕ, time + ts.seconds ≤ k / timerHz ↔
      c.ticks + Int.fract (time * timerHz) + ts.seconds * timerHz ≤ k := by
    intro k
    rw [le_div_iff₀ hpos, add_mul, hfract]
  simp only [hreal]
  constructor
  · intro h
    by_cases hzero : durationMs = 0
    · exact .inl hzero
    · -- the timer alone goes on until the tick of the wakeup
      refine .inr (hlate.mp ?_)
      have hwakeup : c.ticks < wakeupTickOf c.ticks durationMs ∧
        wakeupTickOf c.ticks durationMs ≤ usizeMax := by
        rw [wakeupTickOf, durationTicks_eq]
        omega
      have hentered : (t, wakeupTickOf c.ticks durationMs) ∈ (c.sleep t durationMs).sleepQueue :=
        (insertSleeper_perm _ _ _).mem_iff.mpr mem_cons_self
      have hcount : SleepCore.timers (replicate (wakeupTickOf c.ticks durationMs - c.ticks - 1)
          (SleepEvent.timer : SleepEvent τ)) = wakeupTickOf c.ticks durationMs - c.ticks - 1 := by
        rw [SleepCore.timers, countP_replicate]
        rfl
      have htick : c.ticks + (wakeupTickOf c.ticks durationMs - c.ticks - 1) + 1 =
        wakeupTickOf c.ticks durationMs := by
        omega
      have hbound : c.ticks < usizeBound := hlast.trans (by decide)
      have hwoken := h (replicate (wakeupTickOf c.ticks durationMs - c.ticks - 1) .timer) ?_
      · rwa [hcount, htick] at hwoken
      · refine (SleepCore.mem_wokenNext (SleepCore.inv_run hinv _)).mpr
          ⟨SleepCore.mem_sleepQueue_timers hinv hentered _ ?_ hwakeup.2, ?_⟩
        · show c.ticks + _ < wakeupTickOf c.ticks durationMs
          omega
        · rw [SleepCore.ticks_run (c := c.sleep t durationMs) hbound, hcount]
          show wakeupTickOf c.ticks durationMs ≤ _
          simp only [SleepCore.sleep, usizeMax, usizeBound] at hwakeup ⊢
          omega
  · intro h es hes
    have hdue := ((SleepCore.mem_wokenNext (SleepCore.inv_run hinv es)).mp hes).2
    rw [SleepCore.ticks_run (c := c.sleep t durationMs) (hlast.trans (by decide))] at hdue
    have hdue' : wakeupTickOf c.ticks durationMs ≤ c.ticks + SleepCore.timers es + 1 := by
      refine hdue.trans ((mod_le _ _).trans (Nat.add_le_add_right (mod_le _ _) 1))
    rcases h with rfl | h
    · have hnone : ts.seconds * timerHz ≤ 0 := by
        have hexact := Timespec.milliseconds_eq hms
        have hzero : ts.milliseconds = 0 := by
          have := Timespec.durationMs_eq hms
          rw [usizeMax, usizeBound] at this
          omega
        have hslack := Timespec.slack_nonneg ts
        rw [hzero, cast_zero] at hexact
        linarith
      have hlt := Int.fract_lt_one (time * timerHz)
      push_cast
      linarith [(cast_nonneg (SleepCore.timers es) : (0 : ℚ) ≤ _)]
    · exact (hlate.mpr h).trans (cast_le.mpr hdue')

/-- A millisecond. -/
def oneMillisecond : Timespec := ⟨0, 1000000⟩

lemma oneMillisecond_seconds : oneMillisecond.seconds = 1 / 1000 := by
  rw [Timespec.seconds, show oneMillisecond.tvSec.toInt =
    0 by decide, show oneMillisecond.tvNsec.toInt = 1000000 by decide]
  norm_num

/-- A thread asks for a millisecond on the second tick and is woken by the third, behind another
thread. -/
theorem nanosleep_long_enough_on_tick : ((), 3) ∈
      (((SleepCore.start 2).sleep () 1).run [.sleep () 0]).wokenNext ∧
    (2 / 1000 : ℚ) + oneMillisecond.seconds ≤ (2 + SleepCore.timers [.sleep () 0] + 1 :
      ℕ) / timerHz := by
  have htime : (2 / 1000 : ℚ) * timerHz = 2 := by norm_num [timerHz]
  have hphase : Int.fract ((2 / 1000 : ℚ) * timerHz) ≤ oneMillisecond.slack := by
    rw [htime, Timespec.slack, show oneMillisecond.tvNsec.toInt = 1000000 by decide]
    norm_num [Int.toNat]
  have hwoken : ((), 3) ∈ (((SleepCore.start 2).sleep () 1).run [.sleep () 0]).wokenNext := by
    decide
  exact ⟨hwoken,
    (nanosleep_long_enough (show oneMillisecond.durationMs = some 1 by decide) (by norm_num)
    (SleepCore.inv_start 2) (by rw [htime]; rfl) (by decide) ()).mpr
    (.inr ⟨hphase, by decide, by decide⟩) _ hwoken⟩

/-- A thread asks for a millisecond half a tick after the first tick.  It is scheduled on the second
tick, which is only half a millisecond later. -/
theorem nanosleep_too_short : oneMillisecond.durationMs = some 1 ∧
    ((SleepCore.start 0).run [.timer] : SleepCore Unit).ticks = ⌊(3 / 2000 : ℚ) * timerHz⌋₊ ∧
    (((), 2), 2) ∈ ((SleepCore.start 0).run [.timer, .sleep () 1, .timer]).scheduled ∧
    ¬ (3 / 2000 : ℚ) + oneMillisecond.seconds ≤ (2 : ℕ) / timerHz := by
  refine ⟨by decide, ?_, by decide, ?_⟩
  · rw [show (3 / 2000 : ℚ) * timerHz = 3 / 2 by norm_num [timerHz]]
    norm_num [SleepCore.run, SleepCore.start, SleepCore.step, SleepCore.wakeupSleepers, usizeBound]
  · rw [oneMillisecond_seconds]
    norm_num [timerHz]

end CabOS
