import CabOS.Library.Placed
import CabOS.Library.Run
import CabOS.Thread.Sched

/-!
# Every thread is in one place

A live thread is on a core, in one of the queues, or in the hands of the one piece of code that
passes it on.  Two invariants show this.  `Books` compares the lists in which threads are with one
place for every thread, and with the link, the event and the life of the thread.  `Roles` says who
may have a thread: an event handler or a thread that has not ended.  Every step takes a thread out
of a place and puts it into another one, or leaves the places as they are.

A page fault or a system call queues the thread before `block_to_idle` finds out whether the thread
can be left, so this is asked of a run: threads with an event can yield.  A thread that is pinned
has to know its core.
-/

namespace CabOS

open Function Option Prod Carried List HandlerPhase

/-- Where a thread can be. -/
inductive Place (κ τ μ : Type) where
  | core (c : κ)
  | queue (q : ThreadQueue κ μ)
  | sleep (c : κ)
  /-- In a local variable of `poll_tasks`. -/
  | idle (c : κ)
  /-- In a local variable of an event handler. -/
  | handler (h : τ)
  /-- In another local variable of the idle thread of a core or of a thread. -/
  | hand (a : κ ⊕ τ)
  deriving DecidableEq

namespace Sched

variable {κ τ μ : Type}

/-- The threads in a place. -/
def places (s : Sched κ τ μ) : Place κ τ μ → List τ
  | .core c => (s.cpu c).holds
  | .queue q => s.queue q
  | .sleep c => (s.sleepQueue c).map Prod.fst
  | .idle c => (s.idle c).holds
  | .handler h => (s.handler h).holds
  | .hand a => (s.hand a).map Carried.thread

/-- What is recorded of the threads themselves. -/
def ledger (s : Sched κ τ μ) : (τ → Bool) × (τ → Bool) × (τ → Option ThreadEvent) × Bool :=
  (s.live, s.linked, s.curEvent, s.panicked)

variable [DecidableEq κ] [DecidableEq τ] [DecidableEq μ] {a : κ ⊕ τ}

/-! ## The places after an update -/

section

variable (s : Sched κ τ μ) (c : κ)

lemma places_setCpu (x : Cpu τ μ) : (s.setCpu c x).places = update s.places (.core c) x.holds := by
  funext p
  cases p with
  | core d => by_cases h : d = c <;> simp [places, setCpu, h]
  | _ => rfl

lemma places_setIdle (x : IdlePhase τ) :
    (s.setIdle c x).places = update s.places (.idle c) x.holds := by
  funext p
  cases p with
  | idle d => by_cases h : d = c <;> simp [places, setIdle, h]
  | _ => rfl

lemma places_setHandler (h : τ) (x : HandlerPhase τ) :
    (s.setHandler h x).places = update s.places (.handler h) x.holds := by
  funext p
  cases p with
  | handler h' => by_cases heq : h' = h <;> simp [places, setHandler, heq]
  | _ => rfl

lemma places_setHand (a : κ ⊕ τ) (x : List (Carried τ)) :
    (s.setHand a x).places = update s.places (.hand a) (x.map thread) := by
  funext p
  cases p with
  | hand b => by_cases h : b = a <;> simp [places, setHand, h]
  | _ => rfl

lemma places_setSleepQueue (x : List (τ × ℕ)) :
    (s.setSleepQueue c x).places = update s.places (.sleep c) (x.map fst) := by
  funext p
  cases p with
  | sleep d => by_cases h : d = c <;> simp [places, setSleepQueue, h]
  | _ => rfl

lemma places_queue (q : ThreadQueue κ μ) (l : List τ) (linked : τ → Bool) :
    places { s with queue := update s.queue q l, linked :=
      linked } = update s.places (.queue q) l := by
  funext p
  cases p with
  | queue q' => by_cases h : q' = q <;> simp [places, h]
  | _ => rfl

end

/-! ## Books -/

section

/-- Every thread has one place, or none if it does not live or if it is the one that is being moved.
The threads in queues are linked, and those with an event have one. -/
structure Books (s : Sched κ τ μ) (loc : τ → Option (Place κ τ μ)) (moving : Option τ) : Prop where
  placed : Placed loc s.places
  live : ∀ t, s.live t = true ↔ loc t ≠ none ∨ moving = some t
  moving_loc : ∀ t, moving = some t → loc t = none
  linked : ∀ t, s.linked t = true ↔ ∃ q, loc t = some (.queue q)
  waiting : ∀ t c, loc t = some (.queue (.event c)) → s.curEvent t ≠ none
  calm : s.panicked = false

namespace Books

variable {s s' : Sched κ τ μ} {loc : τ → Option (Place κ τ μ)} {m : Option τ} {t : τ}
  {p : Place κ τ μ}
  {l : List τ} {q : ThreadQueue κ μ}

section

omit [DecidableEq κ] [DecidableEq μ] [DecidableEq τ]

lemma live_of_mem (h : Books s loc m) (ht : t ∈ s.places p) : s.live t :=
  (h.live t).mpr (Or.inl (by simp [h.placed.loc_eq ht]))

/-- Only the places count, and what is recorded of the threads. -/
lemma transfer (h : Books s loc m) (hledger : s'.ledger = s.ledger)
    (hplaced : Placed loc s'.places) :
    Books s' loc m := by
  simp only [ledger, Prod.mk.injEq] at hledger
  obtain ⟨hlive, hlinked, hevent, hpanicked⟩ := hledger
  refine ⟨hplaced, ?_, h.moving_loc, ?_, ?_, ?_⟩
  · rw [hlive]
    exact h.live
  · rw [hlinked]
    exact h.linked
  · rw [hevent]
    exact h.waiting
  · rw [hpanicked]
    exact h.calm

end

/-- A place is rearranged. -/
lemma perm (h : Books s loc m) (hledger : s'.ledger = s.ledger)
    (hplaces : s'.places = update s.places p l) (hl : l.Perm (s.places p)) : Books s' loc m :=
  h.transfer hledger (hplaces ▸ h.placed.perm hl)

omit [DecidableEq κ] [DecidableEq μ] in
/-- A thread is between two places. -/
lemma lift (h : Books s loc none) (hplaced : Placed (update loc t none) s'.places)
    (hlive : s'.live = s.live) (ht : loc t ≠ none) (hlinked : s'.linked = update s.linked t false)
    (hevent : s'.curEvent = s.curEvent) (hpanicked : s'.panicked = s.panicked) :
    Books s' (update loc t none) (some t) := by
  refine ⟨hplaced, fun u => ?_, fun u hu => ?_, fun u => ?_, fun u c hu => ?_,
    hpanicked.trans h.calm⟩
  · rw [hlive, h.live]
    rcases eq_or_ne u t with rfl | hne
    · simp [ht]
    · simp [hne, hne.symm]
  · obtain rfl := some.inj hu
    exact update_self _ _ _
  · rw [hlinked]
    rcases eq_or_ne u t with rfl | hne
    · simp
    · rw [update_of_ne hne, update_of_ne hne]
      exact h.linked u
  · rcases eq_or_ne u t with rfl | hne
    · simp at hu
    · rw [update_of_ne hne] at hu
      rw [hevent]
      exact h.waiting u c hu

/-- A thread is taken out of a place that is not a queue. -/
lemma take (h : Books s loc none) (hledger : s'.ledger = s.ledger)
    (hplaces : s'.places = update s.places p l) (hl : (s.places p).Perm (t :: l))
    (hp : ∀ q, p ≠ .queue q) : Books s' (update loc t none) (some t) := by
  simp only [ledger, Prod.mk.injEq] at hledger
  obtain ⟨hlive, hlinked, hevent, hpanicked⟩ := hledger
  have ht : loc t = some p := h.placed.loc_eq (hl.mem_iff.mpr mem_cons_self)
  have hfree : s.linked t = false := by
    rw [← Bool.not_eq_true, h.linked]
    rintro ⟨q, hq⟩
    exact hp q (some.inj (ht.symm.trans hq))
  refine h.lift (hplaces ▸ h.placed.take hl) hlive (by simp [ht]) ?_ hevent hpanicked
  rw [hlinked, ← hfree, update_eq_self]

/-- A thread is popped from a queue. -/
lemma unlink (h : Books s loc none) (hq : s.queue q = t :: l) :
    Books (s.unlink q t l) (update loc t none) (some t) := by
  have hl : (s.places (.queue q)).Perm (t :: l) := List.Perm.of_eq hq
  have ht : loc t = some (.queue q) := h.placed.loc_eq (hl.mem_iff.mpr mem_cons_self)
  refine h.lift ?_ rfl (by simp [ht]) rfl rfl rfl
  rw [Sched.unlink, places_queue]
  exact h.placed.take hl

section

variable (h : Books s loc (some t))
include h

omit [DecidableEq κ] [DecidableEq μ] in
/-- The thread between two places gets to a place. -/
lemma land (hplaced : Placed (update loc t (some p)) s'.places)
    (hlive : s'.live = s.live)
    (hlinked : ∀ u, s'.linked u = true ↔ if u = t then ∃ q, p = .queue q else s.linked u = true)
    (hevent : s'.curEvent = s.curEvent)
    (hwaiting : ∀ c, p = .queue (.event c) → s.curEvent t ≠ none)
    (hpanicked : s'.panicked = s.panicked) : Books s' (update loc t (some p)) none := by
  refine ⟨hplaced, fun u => ?_, fun u hu => (nomatch hu), fun u => ?_, fun u c hu => ?_,
    hpanicked.trans h.calm⟩
  · rw [hlive, h.live]
    rcases eq_or_ne u t with rfl | hne
    · simp
    · simp [hne, hne.symm]
  · rw [hlinked]
    rcases eq_or_ne u t with rfl | hne
    · simp
    · rw [if_neg hne, update_of_ne hne, h.linked]
  · rw [hevent]
    rcases eq_or_ne u t with rfl | hne
    · rw [update_self] at hu
      exact hwaiting c (some.inj hu)
    · rw [update_of_ne hne] at hu
      exact h.waiting u c hu

/-- The thread between two places gets to a place that is not a queue. -/
lemma put (hledger : s'.ledger = s.ledger) (hplaces : s'.places = update s.places p l)
    (hl : l.Perm (t :: s.places p))
    (hp : ∀ q, p ≠ .queue q) : Books s' (update loc t (some p)) none := by
  simp only [ledger, Prod.mk.injEq] at hledger
  obtain ⟨hlive, hlinked, hevent, hpanicked⟩ := hledger
  have ht : loc t = none := h.moving_loc t rfl
  refine h.land (hplaces ▸ h.placed.put ht hl) hlive (fun u => ?_) hevent
    (fun c hc => absurd hc (hp _)) hpanicked
  rw [hlinked]
  split_ifs with hu
  · subst hu
    rw [h.linked, ht]
    simp [hp]
  · rfl

/-- The thread between two places is pushed to a queue. -/
lemma pushBack (hwaiting : ∀ c, q = .event c → s.curEvent t ≠ none) :
    Books (s.pushBack q t) (update loc t (some (.queue q))) none := by
  have ht : loc t = none := h.moving_loc t rfl
  have hfree : ¬ s.linked t := by
    rw [h.linked, ht]
    simp
  rw [Sched.pushBack, if_neg hfree]
  refine h.land ?_ rfl (fun u => ?_) rfl (fun c hc => hwaiting c (by injection hc)) rfl
  · rw [places_queue]
    exact h.placed.put ht perm_append_comm
  · rcases eq_or_ne u t with rfl | hne
    · simp
    · simp [hne]

/-- The thread between two places is scheduled. -/
lemma scheduleThread (hpinned : s.pinned t → s.corePinnedTo t ≠ none) (c : κ) :
    ∃ loc', Books (s.scheduleThread c t) loc' none := by
  unfold Sched.scheduleThread
  split_ifs with hpin
  · obtain ⟨d, hd⟩ := ne_none_iff_exists'.mp (hpinned hpin)
    rw [hd]
    exact ⟨_, h.pushBack (by simp)⟩
  · exact ⟨_, h.pushBack (by simp)⟩

omit [DecidableEq κ] [DecidableEq μ] in
/-- The thread between two places ends. -/
lemma endLife : Books { s with live := update s.live t false } loc none := by
  refine ⟨h.placed, fun u => ?_, fun u hu => (nomatch hu), h.linked, h.waiting, h.calm⟩
  rcases eq_or_ne u t with rfl | hne
  · simp [h.moving_loc u rfl]
  · simp [hne, hne.symm, h.live]

end

end Books

end

/-! ## Roles -/

/-- What the roles of the threads depend on. -/
def roleFields (s : Sched κ τ μ) :
    (τ → HandlerPhase τ) × (τ → Option ThreadEvent) × (κ ⊕ τ → List (Carried τ)) × (τ → Bool) :=
  (s.handler, s.curEvent, s.hand, s.live)

section

variable {T : ThreadTable κ τ} {s s' : Sched κ τ μ} {t : τ} {c : κ}

section

omit [DecidableEq κ] [DecidableEq τ] [DecidableEq μ]

/-- Those who have a thread have not ended; a thread that an event handler has popped has an event,
and system calls are made by user threads, which carry nothing. -/
structure Roles (T : ThreadTable κ τ) (s : Sched κ τ μ) : Prop where
  popped : ∀ h t, s.handler h = .popped t → s.curEvent t ≠ none
  syscalls : ∀ t, s.curEvent t = some .syscall → T.kind t = .user
  calls : ∀ h t, s.handler h = .inSyscall t → T.kind t = .user
  carriers : ∀ t, s.hand (.inr t) ≠ [] → s.live t = true ∧ T.kind t ≠ .user
  servants : ∀ h, (s.handler h).holds ≠ [] → s.live h = true ∧ T.IsHandler h = true

lemma Roles.congr (h : Roles T s) (hfields : s'.roleFields = s.roleFields) : Roles T s' := by
  simp only [roleFields, Prod.mk.injEq] at hfields
  obtain ⟨hhandler, hevent, hhand, hlive⟩ := hfields
  refine ⟨?_, ?_, ?_, ?_, ?_⟩
  · rw [hhandler, hevent]
    exact h.popped
  · rw [hevent]
    exact h.syscalls
  · rw [hhandler]
    exact h.calls
  · rw [hhand, hlive]
    exact h.carriers
  · rw [hhandler, hlive]
    exact h.servants

end

lemma roleFields_pushBack (s : Sched κ τ μ) (q : ThreadQueue κ μ) (t : τ) :
    (s.pushBack q t).roleFields = s.roleFields := by
  unfold pushBack
  split_ifs
  · rfl
  · rfl

lemma roleFields_scheduleThread (s : Sched κ τ μ) (c : κ) (t : τ) :
    (s.scheduleThread c t).roleFields = s.roleFields := by
  unfold scheduleThread
  split_ifs
  · cases s.corePinnedTo t with
    | none => rfl
    | some d => exact roleFields_pushBack s _ t
  · exact roleFields_pushBack s _ t

omit [DecidableEq κ] [DecidableEq μ] in
/-- An event handler goes on. -/
lemma Roles.setHandler (h : Roles T s) {x : HandlerPhase τ} {u : τ}
    (hpopped : ∀ t, x = .popped t → s.curEvent t ≠ none)
    (hcalls : ∀ t, x = .inSyscall t → T.kind t = .user)
    (hservant : x.holds ≠ [] → s.live u ∧ T.IsHandler u) : Roles T (s.setHandler u x) := by
  have hcases : ∀ v, (s.setHandler u x).handler v = if v = u then x else s.handler v := fun v =>
    update_apply s.handler u x v
  refine ⟨fun v t hv => ?_, h.syscalls, fun v t hv => ?_, h.carriers, fun v hv => ?_⟩
  · rw [hcases] at hv
    split_ifs at hv with heq
    · exact hpopped t hv
    · exact h.popped v t hv
  · rw [hcases] at hv
    split_ifs at hv with heq
    · exact hcalls t hv
    · exact h.calls v t hv
  · rw [hcases] at hv
    split_ifs at hv with heq
    · rw [heq]
      exact hservant hv
    · exact h.servants v hv

omit [DecidableEq μ] in
/-- A thread of the kernel carries something else. -/
lemma Roles.setHand (h : Roles T s) {x : List (Carried τ)}
    (ha : ∀ t, a = .inr t → x ≠ [] → s.live t ∧ T.kind t ≠ .user) : Roles T (s.setHand a x) := by
  refine ⟨h.popped, h.syscalls, h.calls, fun t ht => ?_, h.servants⟩
  by_cases heq : Sum.inr t = a
  · have hx : (s.setHand a x).hand (.inr t) = x := by
      rw [heq]
      exact update_self a x s.hand
    rw [hx] at ht
    exact ha t heq.symm ht
  · have hx : (s.setHand a x).hand (.inr t) = s.hand (.inr t) := by
      simp only [Sched.setHand]
      exact update_of_ne heq _ _
    rw [hx] at ht
    exact h.carriers t ht

end

/-! ## What every step keeps -/

/-- Every live thread has one place, and those who have threads are alive. -/
def Inv (T : ThreadTable κ τ) (s : Sched κ τ μ) : Prop := Roles T s ∧ ∃ loc, Books s loc none

/-- Pinned threads know their core. -/
def PinnedToCores (s : Sched κ τ μ) : Prop := ∀ t, s.pinned t = true → s.corePinnedTo t ≠ none

/-- The step calls `schedule_thread` for the thread. -/
def Schedules (T : ThreadTable κ τ) (s : Sched κ τ μ) (e : κ × CoreStep τ μ) (t : τ) : Prop :=
  match s.cpu e.1, e.2 with
  | .running r, .schedule => ∃ l, s.hand (runner e.1 r) = .woken t :: l
  | .running (some u), .handle _ => T.IsHandler u = true ∧
      (s.handler u = .inPageFault t ∨ s.handler u = .returned t)
  | .wakingSleepers _ held, .proceed => held = some t
  | _, _ => False

/-- A thread with a page fault or a system call can yield. -/
def EventYields (s : Sched κ τ μ) (e : κ × CoreStep τ μ) : Prop :=
  e.2.isEvent = true → ∀ t, s.cpu e.1 = .running (some t) → s.canYield t = true

section

variable {T : ThreadTable κ τ} {s : Sched κ τ μ} {t : τ} {c : κ} {r : Option τ}

section

variable (h : Inv T s) {l : List (Carried τ)} {q : ThreadQueue κ μ}
include h

section

omit [DecidableEq κ] [DecidableEq τ] [DecidableEq μ]

/-- The thread on a core is alive. -/
lemma Inv.live_running (hcpu : s.cpu c = .running (some t)) : s.live t := by
  obtain ⟨-, loc, hbooks⟩ := h
  refine hbooks.live_of_mem (p := .core c) ?_
  simp [places, hcpu, Cpu.holds]

/-- A thread that runs code of the kernel is alive and not a user thread. -/
lemma Inv.kernel_runner (hcpu : s.cpu c = .running r) (hkernel : KernelCode T r) :
    ∀ u, runner c r = .inr u → s.live u ∧ T.kind u ≠ .user := by
  intro u hu
  cases r with
  | none => cases hu
  | some v =>
    cases hu
    exact ⟨h.live_running hcpu, hkernel⟩

end

/-- A core goes on with the threads that it has. -/
lemma Inv.setCpu {x : Cpu τ μ} (hx : x.holds.Perm (s.cpu c).holds) : Inv T (s.setCpu c x) := by
  obtain ⟨hroles, loc, hbooks⟩ := h
  exact ⟨hroles.congr rfl, loc, hbooks.perm rfl (places_setCpu s c x) hx⟩

/-- An idle thread goes on with the thread that it has. -/
lemma Inv.setIdle {x : IdlePhase τ} (hx : x.holds.Perm (s.idle c).holds) :
    Inv T (s.setIdle c x) := by
  obtain ⟨hroles, loc, hbooks⟩ := h
  exact ⟨hroles.congr rfl, loc, hbooks.perm rfl (places_setIdle s c x) hx⟩

omit [DecidableEq κ] [DecidableEq τ] [DecidableEq μ] in
/-- Only places, records and roles count. -/
lemma Inv.congr {s' : Sched κ τ μ} (hplaces : s'.places = s.places) (hledger : s'.ledger = s.ledger)
    (hfields : s'.roleFields = s.roleFields) : Inv T s' := by
  obtain ⟨hroles, loc, hbooks⟩ := h
  exact ⟨hroles.congr hfields, loc, hbooks.transfer hledger (hplaces ▸ hbooks.placed)⟩

/-- A thread is made. -/
lemma Inv.makeThread (hcpu : s.cpu c = .running r) (hkernel : KernelCode T r)
    (ht : s.live t = false) : Inv T (s.makeThread (runner c r) t) := by
  have hrunner := h.kernel_runner hcpu hkernel
  obtain ⟨hroles, loc, hbooks⟩ := h
  have hloc : loc t = none := by
    by_contra hne
    rw [(hbooks.live t).mpr (Or.inl hne)] at ht
    cases ht
  let s₁ : Sched κ τ μ :=
    { s with
      live := update s.live t true
      linked := update s.linked t false
      pinned := update s.pinned t false
      corePinnedTo := update s.corePinnedTo t none
      canYield := update s.canYield t true
      curEvent := update s.curEvent t none }
  have hlive : ∀ u, s.live u → s₁.live u := by
    intro u hu
    simp only [s₁, update_apply]
    split_ifs
    · rfl
    · exact hu
  have hbooks₁ : Books s₁ loc (some t) := by
    refine ⟨hbooks.placed, fun u => ?_, fun u hu => ?_, fun u => ?_, fun u d hu => ?_, hbooks.calm⟩
    · rcases eq_or_ne u t with rfl | hne
      · simp [s₁]
      · simp [s₁, hne, hne.symm, hbooks.live]
    · rw [← some.inj hu]
      exact hloc
    · rcases eq_or_ne u t with rfl | hne
      · simp [s₁, hloc]
      · simp [s₁, hne, hbooks.linked]
    · have hne : u ≠ t := by
        rintro rfl
        simp [hloc] at hu
      simp only [s₁, update_of_ne hne]
      exact hbooks.waiting u d hu
  have hroles₁ : Roles T s₁ := by
    refine ⟨fun v u hv => ?_, fun u hu => ?_, hroles.calls, fun u hu => ?_, fun v hv => ?_⟩
    · have hne : u ≠ t := by
        rintro rfl
        have hmem : u ∈ s.places (.handler v) := by
          simp [places, show s.handler v = .popped u from hv, holds]
        rw [hbooks.live_of_mem hmem] at ht
        cases ht
      simp only [s₁, update_of_ne hne]
      exact hroles.popped v u hv
    · rcases eq_or_ne u t with rfl | hne
      · simp [s₁] at hu
      · simp only [s₁, update_of_ne hne] at hu
        exact hroles.syscalls u hu
    · exact (hroles.carriers u hu).imp_left (hlive u)
    · exact (hroles.servants v hv).imp_left (hlive v)
  refine ⟨hroles₁.setHand fun u hu _ => (hrunner u hu).imp_left (hlive u), _,
    hbooks₁.put rfl (places_setHand s₁ _ _)
    ?_ (by simp)⟩
  exact List.Perm.refl _

/-- What a thread carries is passed on. -/
lemma Inv.carry {x : Carried τ} (ha : s.hand a = x :: l) :
    Roles T (s.setHand a l) ∧ ∃ loc, Books (s.setHand a l) loc (some x.thread) := by
  obtain ⟨hroles, loc, hbooks⟩ := h
  refine ⟨hroles.setHand fun u hu _ => ?_, _, hbooks.take rfl (places_setHand s a l) ?_ (by simp)⟩
  · exact hroles.carriers u (by rw [← hu, ha]; simp)
  · simp [places, ha]

/-- A new thread is queued. -/
lemma Inv.spawn (ha : s.hand a = .made t :: l) :
    Inv T ((s.setHand a l).pushBack .globalWork t) := by
  obtain ⟨hroles, loc, hbooks⟩ := h.carry ha
  exact ⟨hroles.congr (roleFields_pushBack _ _ _), _, hbooks.pushBack (by simp)⟩

/-- A thread that was popped from the queue of a mutex is scheduled. -/
lemma Inv.schedule (ha : s.hand a = .woken t :: l)
    (hknown : s.pinned t → s.corePinnedTo t ≠ none) :
    Inv T ((s.setHand a l).scheduleThread c t) := by
  obtain ⟨hroles, loc, hbooks⟩ := h.carry ha
  exact ⟨hroles.congr (roleFields_scheduleThread _ _ _), hbooks.scheduleThread hknown c⟩

/-- A thread is popped from the queue of a mutex. -/
lemma Inv.popBlocked (hcpu : s.cpu c = .running r) (hkernel : KernelCode T r) {l : List τ}
    (hq : s.queue q = t :: l) :
    Inv T ((s.unlink q t l).setHand (runner c r) (.woken t :: s.hand (runner c r))) := by
  have hrunner := h.kernel_runner hcpu hkernel
  obtain ⟨hroles, loc, hbooks⟩ := h
  have hroles' : Roles T (s.unlink q t l) := hroles.congr rfl
  refine ⟨hroles'.setHand fun u hu _ => hrunner u hu, _,
    (hbooks.unlink hq).put rfl (places_setHand _ _ _) ?_
    (by simp)⟩
  exact List.Perm.refl _

/-- A core lets go of a thread. -/
lemma Inv.takeCpu {x : Cpu τ μ} (hx : (s.cpu c).holds.Perm (t :: x.holds)) :
    Roles T (s.setCpu c x) ∧ ∃ loc, Books (s.setCpu c x) loc (some t) := by
  obtain ⟨hroles, loc, hbooks⟩ := h
  exact ⟨hroles.congr rfl, _, hbooks.take rfl (places_setCpu s c x) hx (by simp)⟩

/-- The thread that was left is queued. -/
lemma Inv.leave {dest : Destination μ} (hcpu : s.cpu c = .leaving t dest) :
    Inv T ((s.setCpu c (.entering none)).pushBack (dest.queue c) t) := by
  obtain ⟨hroles, loc, hbooks⟩ :=
    h.takeCpu (c := c) (t := t) (x := .entering none) (by simp [hcpu, Cpu.holds])
  refine ⟨hroles.congr (roleFields_pushBack _ _ _), _, hbooks.pushBack fun d hd => ?_⟩
  cases dest <;> cases hd

/-- The next step of `wakeup_sleepers`. -/
lemma Inv.wakeupSleepers {held : Option τ} (hcpu : s.cpu c = .wakingSleepers r held)
    (hknown : ∀ t, held = some t → s.pinned t → s.corePinnedTo t ≠ none) :
    Inv T (s.wakeupSleepers c r held) := by
  cases held with
  | some t =>
    obtain ⟨hroles, loc, hbooks⟩ := h.takeCpu (c := c) (t := t) (x := .wakingSleepers r none)
      (by simp [hcpu, Cpu.holds])
    exact ⟨hroles.congr (roleFields_scheduleThread _ _ _), hbooks.scheduleThread (hknown t rfl) c⟩
  | none =>
    have hgo : Inv T (s.setCpu c (.preempting r)) := h.setCpu (by simp [hcpu, Cpu.holds])
    simp only [Sched.wakeupSleepers]
    cases hsleep : s.sleepQueue c with
    | nil => exact hgo
    | cons x l =>
      obtain ⟨t, wakeupTick⟩ := x
      simp only
      split_ifs
      · obtain ⟨hroles, loc, hbooks⟩ := h
        have htake : Books (s.setSleepQueue c l) (update loc t none) (some t) := by
          refine hbooks.take rfl (places_setSleepQueue s c l) ?_ (by simp)
          simp [places, hsleep]
        refine ⟨hroles.congr rfl, _, htake.put rfl (places_setCpu _ c _) ?_ (by simp)⟩
        simp [places, setSleepQueue, hcpu, Cpu.holds]
      · exact hgo

/-- `preempt_to_idle` -/
lemma Inv.preemptToIdle (hcpu : s.cpu c = .preempting r) : Inv T (s.preemptToIdle c r) := by
  cases r with
  | none => exact h.setCpu (by simp [hcpu, Cpu.holds])
  | some t =>
    rw [preemptToIdle]
    split_ifs
    · exact h.setCpu (by simp [hcpu, Cpu.holds])
    · exact h.setCpu (by simp [hcpu, Cpu.holds])

section

variable (hcpu : s.cpu c = .running (some t))
include hcpu

/-- A kernel thread ends. -/
lemma Inv.exit (hkind : T.kind t = .kernel) (hhand : s.hand (.inr t) = []) :
    Inv T { s.setCpu c (.entering none) with live := update s.live t false } := by
  obtain ⟨hroles, loc, hbooks⟩ :=
    h.takeCpu (c := c) (t := t) (x := .entering none) (by simp [hcpu, Cpu.holds])
  refine ⟨⟨hroles.popped, hroles.syscalls, hroles.calls, fun u hu => ?_, fun v hv => ?_⟩, _,
    hbooks.endLife⟩
  · have hne : u ≠ t := fun heq => hu (by rw [heq]; exact hhand)
    simp only [update_of_ne hne]
    exact hroles.carriers u hu
  · have hservant := hroles.servants v hv
    have hne : v ≠ t := by
      rintro rfl
      simp [ThreadTable.IsHandler, hkind] at hservant
    simp only [update_of_ne hne]
    exact hservant

/-- A thread with an event is queued and left. -/
lemma Inv.pushEvent {e : ThreadEvent}
    (he : e = .syscall → T.kind t = .user) (hyield : s.canYield t) : Inv T (s.pushEvent c t e) := by
  obtain ⟨hroles, loc, hbooks⟩ := h
  have hevent : ∀ u, (s.setCurEvent t (some e)).curEvent u = if u =
    t then some e else s.curEvent u := fun u =>
    update_apply s.curEvent t (some e) u
  have hbooks₁ : Books (s.setCurEvent t (some e)) loc none := by
    refine ⟨hbooks.placed, hbooks.live, hbooks.moving_loc, hbooks.linked,
      fun u d hu => ?_, hbooks.calm⟩
    rw [hevent]
    split_ifs
    · exact some_ne_none e
    · exact hbooks.waiting u d hu
  have hroles₁ : Roles T (s.setCurEvent t (some e)) := by
    refine ⟨fun v u hv => ?_, fun u hu => ?_, hroles.calls, hroles.carriers, hroles.servants⟩
    · rw [hevent]
      split_ifs
      · exact some_ne_none e
      · exact hroles.popped v u hv
    · rw [hevent] at hu
      split_ifs at hu with heq
      · rw [heq]
        exact he (some.inj hu)
      · exact hroles.syscalls u hu
  have hinv : Inv T (s.setCurEvent t (some e)) := ⟨hroles₁, loc, hbooks₁⟩
  obtain ⟨hroles₂, loc₂, hbooks₂⟩ := hinv.takeCpu (c := c) (t := t) (x := .entering none)
    (by simp [setCurEvent, hcpu, Cpu.holds])
  rw [Sched.pushEvent, if_pos hyield]
  refine ⟨hroles₂.congr (roleFields_pushBack _ _ _), _, hbooks₂.pushBack fun d _ => ?_⟩
  have hset := hevent t
  rw [if_pos rfl] at hset
  exact fun hnone => some_ne_none e (hset.symm.trans hnone)

/-- A thread is left and will be queued. -/
lemma Inv.suspendToQueue (dest : Destination μ) : Inv T (s.suspendToQueue c t dest) := by
  have hcores : ∀ cores, Inv T { s with corePinnedTo := cores } := fun cores => h.congr rfl rfl rfl
  exact (hcores _).setCpu (by simp [hcpu, Cpu.holds])

end

/-- The idle thread goes to the thread that it has. -/
lemma Inv.goToThread (hcpu : s.cpu c = .running none) (hidle : (s.idle c).holds = [t])
    {x : IdlePhase τ} (hx : x.holds = []) :
    Inv T ((s.setIdle c x).setCpu c (.entering (some t))) := by
  obtain ⟨hroles, loc, hbooks⟩ := h
  have htake : Books (s.setIdle c x) (update loc t none) (some t) := by
    refine hbooks.take rfl (places_setIdle s c x) ?_ (by simp)
    simp [places, hidle, hx]
  refine ⟨hroles.congr rfl, _, htake.put rfl (places_setCpu _ c _) ?_ (by simp)⟩
  simp [places, Sched.setIdle, hcpu, Cpu.holds]

/-- The idle thread pops a thread from a queue. -/
lemma Inv.popWork {l : List τ} (hq : s.queue q = t :: l)
    (hidle : (s.idle c).holds = []) {x : IdlePhase τ} (hx : x.holds = [t]) :
    Inv T ((s.unlink q t l).setIdle c x) := by
  obtain ⟨hroles, loc, hbooks⟩ := h
  refine ⟨hroles.congr rfl, _, (hbooks.unlink hq).put rfl (places_setIdle _ c x) ?_ (by simp)⟩
  simp [places, unlink, hidle, hx]

/-- The next step of `poll_tasks`. -/
lemma Inv.pollTasks (hcpu : s.cpu c = .running none) : Inv T (s.pollTasks c) := by
  unfold Sched.pollTasks
  cases hidle : s.idle c with
  | atLocal =>
    simp only
    cases hq : s.queue (.localWork c) with
    | nil => exact h.setIdle (by simp [hidle, IdlePhase.holds])
    | cons t l => exact h.popWork hq (by simp [hidle, IdlePhase.holds]) rfl
  | fromLocal t =>
    simp only
    split_ifs
    · exact h.goToThread hcpu (by simp [hidle, IdlePhase.holds]) rfl
    · obtain ⟨hroles, loc, hbooks⟩ := h
      have htake : Books (s.setIdle c .atGlobal) (update loc t none) (some t) := by
        refine hbooks.take rfl (places_setIdle s c _) ?_ (by simp)
        simp [places, hidle, IdlePhase.holds]
      exact ⟨(hroles.congr rfl).congr (roleFields_pushBack _ _ _), _, htake.pushBack (by simp)⟩
  | atGlobal =>
    simp only
    cases hq : s.queue .globalWork with
    | nil => exact h.setIdle (by simp [hidle, IdlePhase.holds])
    | cons t l => exact h.popWork hq (by simp [hidle, IdlePhase.holds]) rfl
  | fromGlobal t => exact h.goToThread hcpu (by simp [hidle, IdlePhase.holds]) rfl

end

/-! ### Event handlers -/

variable {u : τ} {x : HandlerPhase τ}

section

variable (h : Inv T s)
include h

/-- An event handler goes on with the thread that it has. -/
lemma Inv.setHandler (hx : x.holds.Perm (s.handler u).holds) (hpopped : ∀ t, x ≠ .popped t)
    (hcalls : ∀ t, x = .inSyscall t → T.kind t = .user) : Inv T (s.setHandler u x) := by
  obtain ⟨hroles, loc, hbooks⟩ := h
  refine ⟨hroles.setHandler (fun t ht => absurd ht (hpopped t)) hcalls fun hne => ?_, loc,
    hbooks.perm rfl (places_setHandler s u x) hx⟩
  refine hroles.servants u fun hnil => hne ?_
  rw [hnil] at hx
  exact hx.eq_nil

/-- An event handler takes the event of its thread. -/
lemma Inv.takeEvent (hhandler : s.handler u = .popped t) (hx : x.holds = [t])
    (hpopped : ∀ t, x ≠ .popped t) (hcalls : ∀ t, x = .inSyscall t → T.kind t = .user) :
    Inv T ((s.setHandler u x).setCurEvent t none) := by
  have honly : ∀ v, s.handler v = .popped t → v = u := by
    obtain ⟨-, loc, hbooks⟩ := h
    have hloc : ∀ v, s.handler v = .popped t → loc t = some (.handler v) := fun v hv =>
      hbooks.placed.loc_eq (by simp [places, hv, holds])
    intro v hv
    injection some.inj ((hloc v hv).symm.trans (hloc u hhandler))
  have hcur : ∀ w ≠ t, ((s.setHandler u x).setCurEvent t none).curEvent w = s.curEvent w :=
    fun w hw => by
    simp [setCurEvent, Sched.setHandler, hw]
  have hperm : x.holds.Perm (s.handler u).holds := by
    rw [hx, hhandler]
    exact List.Perm.refl _
  obtain ⟨hroles, loc, hbooks⟩ := h.setHandler hperm hpopped hcalls
  refine ⟨⟨fun v w hv => ?_, fun w hw => ?_, hroles.calls, hroles.carriers, hroles.servants⟩, loc,
    ⟨hbooks.placed,
    hbooks.live, hbooks.moving_loc, hbooks.linked, fun w d hw => ?_, hbooks.calm⟩⟩
  · have hne : w ≠ t := by
      rintro rfl
      change update s.handler u x v = .popped w at hv
      rcases eq_or_ne v u with rfl | hvu
      · rw [update_self] at hv
        exact hpopped w hv
      · rw [update_of_ne hvu] at hv
        exact hvu (honly v hv)
    rw [hcur w hne]
    exact hroles.popped v w hv
  · rcases eq_or_ne w t with rfl | hne
    · simp [setCurEvent] at hw
    · rw [hcur w hne] at hw
      exact hroles.syscalls w hw
  · have hne : w ≠ t := by
      rintro rfl
      have hmem : w ∈ (s.setHandler u x).places (.handler u) := by
        rw [places_setHandler, update_self, hx]
        exact mem_singleton_self w
      simp [hbooks.placed.loc_eq hmem] at hw
    rw [hcur w hne]
    exact hbooks.waiting w d hw

/-- An event handler lets go of its thread. -/
lemma Inv.release (hhandler : (s.handler u).holds = [t]) (hx : x.holds = [])
    (hpopped : ∀ t, x ≠ .popped t) (hcalls : ∀ t, x ≠ .inSyscall t) :
    Roles T (s.setHandler u x) ∧ ∃ loc, Books (s.setHandler u x) loc (some t) := by
  obtain ⟨hroles, loc, hbooks⟩ := h
  refine ⟨hroles.setHandler (fun t ht => absurd ht (hpopped t)) (fun t ht => absurd ht (hcalls t))
    fun hne => absurd hx hne, _, hbooks.take rfl (places_setHandler s u x) ?_ (by simp)⟩
  simp [places, hhandler, hx]

/-- An event handler schedules its thread. -/
lemma Inv.scheduleServed (hhandler : (s.handler u).holds = [t])
    (hknown : s.pinned t → s.corePinnedTo t ≠ none) :
    Inv T ((s.setHandler u .yielding).scheduleThread c t) := by
  obtain ⟨hroles, loc, hbooks⟩ := h.release (x := .yielding) hhandler rfl (by simp) (by simp)
  exact ⟨hroles.congr (roleFields_scheduleThread _ _ _), hbooks.scheduleThread hknown c⟩

/-- A thread ends in a system call. -/
lemma Inv.exitSyscall (hhandler : s.handler u = .inSyscall t) :
    Inv T { s.setHandler u (.shouldBlock t) with live := update s.live t false } := by
  have hkind := h.1.calls u t hhandler
  obtain ⟨hroles, loc, hbooks⟩ := h.release (u := u) (t := t) (x := .shouldBlock t)
    (by simp [hhandler, holds]) rfl (by simp) (by simp)
  refine ⟨⟨hroles.popped, hroles.syscalls, hroles.calls, fun w hw => ?_, fun v hv => ?_⟩, loc,
    hbooks.endLife⟩
  · have hcarrier := hroles.carriers w hw
    have hne : w ≠ t := fun heq => hcarrier.2 (heq ▸ hkind)
    simp only [update_of_ne hne]
    exact hcarrier
  · have hservant := hroles.servants v hv
    have hne : v ≠ t := by
      rintro rfl
      simp [ThreadTable.IsHandler, hkind] at hservant
    simp only [update_of_ne hne]
    exact hservant

/-- The next step of an event handler. -/
lemma Inv.handle (hcpu : s.cpu c = .running (some u)) (hu : T.IsHandler u) (o : SyscallOutcome)
    (hknown : ∀ t, s.Schedules T (c, .handle o) t → s.pinned t → s.corePinnedTo t ≠ none) :
    Inv T (s.handle T c u o) := by
  have hlive := h.live_running hcpu
  unfold Sched.handle
  cases hhandler : s.handler u with
  | polling =>
    simp only
    cases hq : s.queue (.event c) with
    | nil => exact h
    | cons t l =>
      obtain ⟨hroles, loc, hbooks⟩ := h
      have hloc : loc t = some (.queue (.event c)) :=
        hbooks.placed.loc_eq (by simp [places, hq])
      have hroles' : Roles T (s.unlink (.event c) t l) := hroles.congr rfl
      refine ⟨hroles'.setHandler (fun w hw => ?_) (by simp) fun _ => ⟨hlive, hu⟩, _,
        (hbooks.unlink hq).put rfl (places_setHandler _ u _) ?_ (by simp)⟩
      · cases hw
        exact hbooks.waiting t c hloc
      · simp [places, Sched.unlink, hhandler, holds]
  | popped t =>
    simp only
    cases hevent : s.curEvent t with
    | none => exact absurd hevent (h.1.popped u t hhandler)
    | some e =>
      cases e with
      | pageFault => exact h.takeEvent hhandler rfl (by simp) (by simp)
      | syscall =>
        refine h.takeEvent hhandler rfl (by simp) fun w hw => ?_
        cases hw
        exact h.1.syscalls t hevent
  | inPageFault t =>
    exact h.scheduleServed (by simp [hhandler, holds])
      (hknown t (by simp [Schedules, hcpu, hu, hhandler]))
  | inSyscall t =>
    simp only [h.1.calls u t hhandler, if_true]
    cases o with
    | returns => exact h.setHandler (by simp [hhandler, holds]) (by simp) (by simp)
    | sleeps ticks =>
      obtain ⟨hroles, loc, hbooks⟩ := h.release (u := u) (t := t) (x := .shouldBlock t)
        (by simp [hhandler, holds]) rfl (by simp) (by simp)
      exact ⟨hroles.congr rfl, _,
        hbooks.put rfl (places_setSleepQueue _ c _) ((insertSleeper_perm t _ _).map _) (by simp)⟩
    | exits => exact h.exitSyscall hhandler
  | returned t =>
    exact h.scheduleServed (by simp [hhandler, holds])
      (hknown t (by simp [Schedules, hcpu, hu, hhandler]))
  | shouldBlock t => exact h.setHandler (by simp [hhandler, holds]) (by simp) (by simp)
  | yielding =>
    have hpolling : Inv T (s.setHandler u .polling) :=
      h.setHandler (by simp [hhandler, holds]) (by simp) (by simp)
    exact hpolling.suspendToQueue hcpu _

end

/-! ### Runs -/

omit [DecidableEq κ] [DecidableEq τ] [DecidableEq μ] in
/-- A step that a thread makes under a condition. -/
lemma Inv.elim_ite (h : Inv T s) {p : τ → Prop} [DecidablePred p] {f : τ → Sched κ τ μ}
    (hf : ∀ t, r = some t → p t → Inv T (f t)) :
    Inv T (r.elim s fun t => if p t then f t else s) := by
  cases r with
  | none => exact h
  | some t =>
    rw [elim_some]
    split_ifs with ht
    · exact hf t rfl ht
    · exact h

/-- A step of the code that a core runs. -/
lemma Inv.runningStep (h : Inv T s) {e : CoreStep τ μ}
    (hknown : ∀ t, s.Schedules T (c, e) t → s.pinned t → s.corePinnedTo t ≠ none)
    (hyields : EventYields s (c, e)) (hcpu : s.cpu c = .running r) :
    Inv T (s.runningStep T c r e) := by
  cases e with
  | make t =>
    rw [Sched.runningStep]
    split_ifs with hmake
    · exact h.makeThread hcpu hmake.1 hmake.2.2
    · exact h
  | spawn =>
    rw [Sched.runningStep]
    split
    · next t l hhand => exact h.spawn hhand
    · exact h
  | yieldThread => exact h.elim_ite fun t ht _ => h.suspendToQueue (ht ▸ hcpu) _
  | block m => exact h.elim_ite fun t ht _ => h.suspendToQueue (ht ▸ hcpu) _
  | popBlocked m =>
    rw [Sched.runningStep]
    split_ifs with hkernel
    · cases hq : s.queue (.blocked m) with
      | nil => exact h
      | cons t l => exact h.popBlocked hcpu hkernel hq
    · exact h
  | schedule =>
    rw [Sched.runningStep]
    split
    · next t l hhand => exact h.schedule hhand (hknown t (by simp [Schedules, hcpu, hhand]))
    · exact h
  | exit => exact h.elim_ite fun t ht hexit => h.exit (ht ▸ hcpu) hexit.1 (isEmpty_iff.mp hexit.2)
  | setPinned b => exact h.elim_ite fun _ _ _ => h.congr rfl rfl rfl
  | setCanYield b => exact h.elim_ite fun _ _ _ => h.congr rfl rfl rfl
  | event ev =>
    exact h.elim_ite fun t ht hev => h.pushEvent (ht ▸ hcpu) hev (hyields rfl t (ht ▸ hcpu))
  | timer =>
    have hticks : ∀ ticks, Inv T { s with ticks := ticks } := fun ticks => h.congr rfl rfl rfl
    exact (hticks _).setCpu (by simp [hcpu, Cpu.holds])
  | interrupt => exact h.setCpu (by simp [hcpu, Cpu.holds])
  | pollTasks =>
    cases r with
    | none => exact h.pollTasks hcpu
    | some t => exact h
  | handle o => exact h.elim_ite fun t ht hhandler => h.handle (ht ▸ hcpu) hhandler o hknown
  | proceed => exact h

/-- Every step keeps every thread in one place. -/
lemma Inv.step (h : Inv T s) {e : κ × CoreStep τ μ}
    (hknown : ∀ t, s.Schedules T e t → s.pinned t → s.corePinnedTo t ≠ none)
    (hyields : EventYields s e) :
    Inv T (s.step T e) := by
  obtain ⟨c, e⟩ := e
  simp only [Sched.step]
  split
  · next r _ hcpu => exact h.runningStep hknown hyields hcpu
  · next r held hcpu =>
    exact h.wakeupSleepers hcpu fun t ht => hknown t (by simp [Schedules, hcpu, ht])
  · next r hcpu => exact h.preemptToIdle hcpu
  · next t dest hcpu => exact h.leave hcpu
  · next r hcpu => exact h.setCpu (by simp [hcpu, Cpu.holds])
  · exact h

/-- Where the threads are after the boot: the event handlers in the queues of their cores. -/
def bootPlace (T : ThreadTable κ τ) (t : τ) : Option (Place κ τ μ) :=
  match T.kind t with
  | .handler c => some (.queue (.localWork c))
  | _ => none

section

omit [DecidableEq κ] [DecidableEq τ] [DecidableEq μ]

lemma bootPlace_eq_some {p : Place κ τ μ} :
    bootPlace T t = some p ↔ ∃ c, T.kind t = .handler c ∧ p = .queue (.localWork c) := by
  cases hkind : T.kind t with
  | handler c => simp [bootPlace, hkind, eq_comm]
  | _ => simp [bootPlace, hkind]

/-- After the boot the invariant holds. -/
lemma Inv.boot (T : ThreadTable κ τ) : Inv T (boot T : Sched κ τ μ) := by
  have hhandler : ∀ t, T.IsHandler t ↔ (bootPlace T t : Option (Place κ τ μ)) ≠ none := by
    intro t
    cases hkind : T.kind t <;> simp [ThreadTable.IsHandler, bootPlace, hkind]
  have hplaced : Placed (bootPlace T) (Sched.boot T : Sched κ τ μ).places := by
    intro p
    cases p with
    | queue q =>
      cases q with
      | localWork c =>
        refine ⟨List.nodup_singleton _, fun t => ?_⟩
        rw [bootPlace_eq_some]
        simp [places, Sched.boot, T.kind_eq_handler]
      | _ => exact Queue.nil fun t ht => by simp [bootPlace_eq_some] at ht
    | _ => exact Queue.nil fun t ht => by simp [bootPlace_eq_some] at ht
  refine ⟨⟨by simp [Sched.boot], by simp [Sched.boot], by simp [Sched.boot], by simp [Sched.boot],
    by simp [Sched.boot, holds]⟩, bootPlace T, hplaced, fun t => ?_, by
    simp, fun t => ?_, fun t c ht => ?_, rfl⟩
  · simp [Sched.boot, hhandler]
  · refine (hhandler t).trans ⟨fun hne => ?_, fun ⟨q, hq⟩ => by simp [hq]⟩
    obtain ⟨p, hp⟩ := ne_none_iff_exists'.mp hne
    obtain ⟨c, -, rfl⟩ := bootPlace_eq_some.mp hp
    exact ⟨_, hp⟩
  · simp [bootPlace_eq_some] at ht

end

end

/-- **Every live thread is in one place.**  In every run, on any number of cores, in which threads
with a page fault or a system call can yield and pinned threads know their core: no thread is linked
twice, every live thread is on one core, in one queue or in the hands of one thread that is alive,
and nobody has a thread that has ended.  In particular no thread runs on two cores. -/
theorem thread_in_one_place (T : ThreadTable κ τ) (es : List (κ × CoreStep τ μ))
    (hes : AlongRun (step T) (fun s e => PinnedToCores s ∧ EventYields s e) (boot T) es) :
    let s := (boot T).run T es
    s.panicked = false ∧ (∀ t, s.live t = true → ∃! p, t ∈ s.places p) ∧
      (∀ t, s.live t = false → ∀ p, t ∉ s.places p) ∧ (∀ p, (s.places p).Nodup) ∧
      (∀ c d t, s.cpu c = .running (some t) → s.cpu d = .running (some t) → c = d) ∧
      ∀ u, s.places (.hand (.inr u)) ≠ [] ∨ s.places (.handler u) ≠ [] → s.live u = true := by
  intro s
  have hinv : Inv T s := hes.invariant (I :=
    Inv T) (fun s e hs he => hs.step (fun t _ => he.1 t) he.2) (Inv.boot T)
  obtain ⟨hroles, loc, hbooks⟩ := hinv
  refine ⟨hbooks.calm, fun t ht => ?_, fun t ht p hmem => ?_, fun p => (hbooks.placed p).nodup,
    fun c d t hc hd => ?_,
    fun u hu => ?_⟩
  · have hloc := (hbooks.live t).mp ht
    exact hbooks.placed.existsUnique (hloc.resolve_right (by simp))
  · rw [hbooks.live_of_mem hmem] at ht
    cases ht
  · have hmem : ∀ c, s.cpu c = .running (some t) → loc t = some (.core c) := fun c hc =>
      hbooks.placed.loc_eq (by simp [places, hc, Cpu.holds])
    injection Option.some.inj ((hmem c hc).symm.trans (hmem d hd))
  · rcases hu with hu | hu
    · exact (hroles.carriers u fun hnil => hu (by simp [places, hnil])).1
    · exact (hroles.servants u hu).1

instance [Fintype τ] (s : Sched κ τ μ) : Decidable (PinnedToCores s) :=
  inferInstanceAs (Decidable (∀ t, s.pinned t = true → s.corePinnedTo t ≠ none))

instance [Fintype τ] (s : Sched κ τ μ) (e : κ × CoreStep τ μ) : Decidable (EventYields s e) :=
  inferInstanceAs (Decidable (e.2.isEvent = true → ∀ t, s.cpu e.1 = .running (some t) →
    s.canYield t = true))

/-- Two cores with their event handlers, and a kernel thread. -/
def twoCores : ThreadTable (Fin 2) (Fin 3) where
  kind t := if h : t.val < 2 then .handler ⟨t.val, h⟩ else .kernel
  handlerOf c := c.castSucc
  kind_eq_handler := by decide

/-- The idle thread of core 0 spawns a thread, core 1 runs it, the thread has a page fault, and the
event handler of core 1 serves it and schedules it again. -/
theorem thread_in_one_place_fault :
    let es : List (Fin 2 × CoreStep (Fin 3) Unit) :=
      [(0, .make 2), (0, .spawn), (1, .pollTasks), (1, .pollTasks), (1, .proceed),
        (1, .yieldThread), (1, .proceed),
        (1, .proceed), (1, .pollTasks), (1, .pollTasks), (1, .proceed), (1, .event .pageFault),
        (1, .proceed),
        (1, .pollTasks), (1, .pollTasks), (1, .proceed), (1, .handle .returns),
        (1, .handle .returns),
        (1, .handle .returns)]
    ((boot twoCores).run twoCores es).queue (.localWork 1) = [2] ∧
      ∃! p, (2 : Fin 3) ∈ ((boot twoCores).run twoCores es).places p := by
  intro es
  have hes : AlongRun (step twoCores) (fun s e => PinnedToCores s ∧
    EventYields s e) (boot twoCores) es := by
    decide
  exact ⟨by decide, (thread_in_one_place twoCores es hes).2.1 2 (by decide)⟩

end Sched

end CabOS
