import CabOS.Library.Word

/-!
# The barrier of the initialization

`SpinBarrier::wait` loads the generation, counts the thread, and then either opens the next round,
if all threads are there, or spins until the generation is another one.  One step is one atomic
access, and the threads step in any order, as often as they like.  The invariant compares the number
of times that every thread has been counted with the number of rounds that were opened;
`barrier_rounds` is what it says about the calls.
-/

namespace CabOS

open Function Finset

/-- Where a thread is in `wait`. -/
inductive BarrierPhase where
  /-- It is not in a call. -/
  | outside
  /-- It has loaded the generation and is about to be counted. -/
  | loaded (gen : ℕ)
  /-- It was counted as the last one and is about to set the count to zero. -/
  | resetting
  /-- It is about to open the next round. -/
  | opening
  /-- It was counted and waits for another generation. -/
  | spinning (gen : ℕ)
  deriving DecidableEq

/-- The thread was counted as the last one of its round. -/
def BarrierPhase.isLast : BarrierPhase → Bool
  | .resetting => true
  | .opening => true
  | _ => false

/-- A barrier and its threads.  There are fewer threads than words, so the count does not wrap
around. -/
structure SpinBarrier (τ : Type) where
  count : ℕ
  generation : ℕ
  phase : τ → BarrierPhase
  /-- How often a thread was counted; this is not part of the barrier. -/
  counted : τ → ℕ

namespace SpinBarrier

variable {τ : Type}

def new : SpinBarrier τ := ⟨0, 0, fun _ => .outside, fun _ => 0⟩

def goto [DecidableEq τ] (s : SpinBarrier τ) (t : τ) (p : BarrierPhase) : SpinBarrier τ :=
  { s with phase := update s.phase t p }

/-- The next access of a thread; a thread that is not in a call makes one. -/
def step [DecidableEq τ] [Fintype τ] (s : SpinBarrier τ) (t : τ) : SpinBarrier τ :=
  match s.phase t with
  | .outside => s.goto t (.loaded s.generation)
  | .loaded gen =>
    { s.goto t (if s.count + 1 = Fintype.card τ then .resetting else .spinning gen) with
      count := s.count + 1
      counted := update s.counted t (s.counted t + 1) }
  | .resetting => { s.goto t .opening with count := 0 }
  | .opening => { s.goto t .outside with generation := wadd s.generation 1 }
  | .spinning gen => if s.generation = gen then s else s.goto t .outside

/-! ## The invariant -/

/-- Where a thread can be after `rounds` rounds were opened. -/
def PhaseOk (s : SpinBarrier τ) (rounds : ℕ) (t : τ) : BarrierPhase → Prop
  | .outside => s.counted t = rounds
  | .loaded gen => s.counted t = rounds ∧ gen = rounds % usizeBound
  | .resetting => ∀ u, s.counted u = rounds + 1
  | .opening => (∀ u, s.counted u = rounds + 1) ∧ s.count = 0
  | .spinning gen => s.counted t = rounds + 1 ∧ gen = rounds % usizeBound ∨
      s.counted t = rounds ∧ gen ≠ rounds % usizeBound

/-- The count is that of the round which is not open yet, and when all threads are counted one of
them will open it. -/
structure Inv [Fintype τ] (s : SpinBarrier τ) (rounds : ℕ) : Prop where
  generation : s.generation = rounds % usizeBound
  phases : ∀ t, s.PhaseOk rounds t (s.phase t)
  count : (∀ t, s.phase t ≠ .opening) →
    s.count = (univ.filter fun t => s.counted t = rounds + 1).card
  unique : ∀ t u, (s.phase t).isLast = true → (s.phase u).isLast = true → t = u
  full : (∀ t, s.counted t = rounds + 1) → Nonempty τ → ∃ t, (s.phase t).isLast = true

variable [Fintype τ] {s : SpinBarrier τ} {rounds : ℕ} {t : τ}

lemma inv_new : (new : SpinBarrier τ).Inv 0 where
  generation := rfl
  phases _ := rfl
  count _ := by simp [new]
  unique _ _ h := (nomatch h)
  full h := fun ⟨t⟩ => absurd (h t) (by simp [new])

section

variable (h : s.Inv rounds)
include h

/-- A thread was counted for the last round that was opened or for the next one. -/
lemma Inv.counted_cases (t : τ) : s.counted t = rounds ∨ s.counted t = rounds + 1 := by
  have ht := h.phases t
  cases hphase : s.phase t with
  | outside => rw [hphase] at ht; exact .inl ht
  | loaded gen => rw [hphase] at ht; exact .inl ht.1
  | resetting => rw [hphase] at ht; exact .inr (ht t)
  | opening => rw [hphase] at ht; exact .inr (ht.1 t)
  | spinning gen => rw [hphase] at ht; exact (ht.imp And.left And.left).symm

/-- The last thread of a round finds that all threads are counted. -/
lemma Inv.counted_of_isLast (ht : (s.phase t).isLast) : ∀ u, s.counted u = rounds + 1 := by
  have hphase := h.phases t
  cases hp : s.phase t with
  | resetting => rw [hp] at hphase; exact hphase
  | opening => rw [hp] at hphase; exact hphase.1
  | _ => rw [hp] at ht; cases ht

/-- While a thread is not counted, nobody is the last one. -/
lemma Inv.isLast_eq_false (ht : s.counted t = rounds) (u : τ) : (s.phase u).isLast = false := by
  by_contra hu
  rw [Bool.not_eq_false] at hu
  have := h.counted_of_isLast hu t
  omega

/-- While a thread is not counted, the count is that of the next round. -/
lemma Inv.count_eq (ht : s.counted t = rounds) :
    s.count = (univ.filter fun u => s.counted u = rounds + 1).card := by
  refine h.count fun u hu => ?_
  have hlast := h.isLast_eq_false ht u
  rw [hu] at hlast
  cases hlast

end

variable [DecidableEq τ]

section

variable (h : s.Inv rounds)
include h

/-- A thread moves on inside or outside of a call without being the last one. -/
lemma Inv.goto {p : BarrierPhase} (hp : p.isLast = false) (ht : (s.phase t).isLast = false)
    (hok : s.PhaseOk rounds t p) : (s.goto t p).Inv rounds := by
  have hphase : ∀ u, (s.goto t p).phase u = if u = t then p else s.phase u :=
    fun u => update_apply ..
  have hlast : ∀ u, ((s.goto t p).phase u).isLast = (s.phase u).isLast := by
    intro u
    rw [hphase]
    split_ifs with hu
    · rw [hu, hp, ht]
    · rfl
  refine ⟨h.generation, fun u => ?_, fun hopen => h.count fun u hu => ?_, fun u v hu hv => ?_,
    fun hall hne => ?_⟩
  · rw [hphase]
    split_ifs with hu
    · exact hu ▸ hok
    · exact h.phases u
  · refine hopen u ?_
    rw [hphase, if_neg, hu]
    rintro rfl
    rw [hu] at ht
    cases ht
  · rw [hlast] at hu hv
    exact h.unique u v hu hv
  · obtain ⟨u, hu⟩ := h.full hall hne
    exact ⟨u, (hlast u).trans hu⟩

/-- A thread is counted. -/
lemma Inv.add {gen : ℕ} (hphase : s.phase t = .loaded gen) : (s.step t).Inv rounds := by
  have hloaded := h.phases t
  rw [hphase] at hloaded
  obtain ⟨ht, hgen⟩ := hloaded
  have hlast := h.isLast_eq_false ht
  -- the threads that are counted for the next round, with the new one
  have hcard : (univ.filter fun u => (s.step t).counted u = rounds + 1).card = s.count + 1 := by
    have hinsert : (univ.filter fun u => (s.step t).counted u = rounds + 1) =
        insert t (univ.filter fun u => s.counted u = rounds + 1) := by
      ext u
      rcases eq_or_ne u t with rfl | hne
      · simp [step, hphase, ht]
      · simp [step, hphase, hne]
    rw [hinsert, card_insert_of_notMem (by simp [ht]), h.count_eq ht]
  have hfull : (∀ u, (s.step t).counted u = rounds + 1) ↔ s.count + 1 = Fintype.card τ := by
    rw [← hcard, ← card_univ, card_filter_eq_iff]
    simp
  have hstep : ∀ u, (s.step t).phase u =
      if u = t then if s.count + 1 =
        Fintype.card τ then .resetting else .spinning gen else s.phase u := by
    intro u
    simp only [step, hphase]
    exact update_apply ..
  have hother : ∀ u ≠ t, (s.step t).counted u = s.counted u :=
    fun u hu => by simp [step, hphase, hu]
  have hself : (s.step t).counted t = rounds + 1 := by simp [step, hphase, ht]
  refine ⟨?_, fun u => ?_, fun _ => ?_, fun u v hu hv => ?_, fun hall _ => ⟨t, ?_⟩⟩
  · simp [step, hphase, SpinBarrier.goto, h.generation]
  · rw [hstep]
    split_ifs with hu hn
    · exact hfull.mpr hn
    · rw [hu]
      exact .inl ⟨hself, hgen⟩
    · have hok := h.phases u
      cases hp : s.phase u with
      | resetting => have := hlast u; rw [hp] at this; cases this
      | opening => have := hlast u; rw [hp] at this; cases this
      | _ => rw [hp] at hok; simpa only [PhaseOk, hother u hu] using hok
  · rw [hcard]
    simp [step, hphase]
  · have honly : ∀ u, ((s.step t).phase u).isLast → u = t := by
      intro u hu
      by_contra hne
      rw [hstep, if_neg hne, hlast u] at hu
      cases hu
    rw [honly u hu, honly v hv]
  · rw [hstep, if_pos rfl, if_pos (hfull.mp hall)]
    rfl

/-- The last thread sets the count to zero. -/
lemma Inv.reset (hphase : s.phase t = .resetting) : (s.step t).Inv rounds := by
  have hall := h.counted_of_isLast (t := t) (by rw [hphase]; rfl)
  have hstep : ∀ u, (s.step t).phase u = if u = t then .opening else s.phase u := by
    intro u
    simp only [step, hphase]
    exact update_apply ..
  have hcounted : (s.step t).counted = s.counted := by simp only [step, hphase]; rfl
  have honly : ∀ u, ((s.step t).phase u).isLast → u = t := by
    intro u hu
    by_contra hne
    rw [hstep, if_neg hne] at hu
    exact hne (h.unique u t hu (by rw [hphase]; rfl))
  refine ⟨?_, fun u => ?_, fun hopen => ?_, fun u v hu hv => (honly u hu).trans (honly v hv).symm,
    fun _ _ => ⟨t, ?_⟩⟩
  · simp only [step, hphase]
    exact h.generation
  · rw [hstep]
    split_ifs with hu
    · refine ⟨hcounted ▸ hall, ?_⟩
      simp only [step, hphase]
    · have hok := h.phases u
      cases hp : s.phase u with
      | opening => exact absurd (h.unique u t (by rw [hp]; rfl) (by rw [hphase]; rfl)) hu
      | _ => rw [hp] at hok; simpa only [PhaseOk, hcounted] using hok
  · exact absurd ((hstep t).trans (if_pos rfl)) (hopen t)
  · rw [hstep, if_pos rfl]
    rfl

/-- The last thread opens the next round. -/
lemma Inv.open (hphase : s.phase t = .opening) : (s.step t).Inv (rounds + 1) := by
  have hok := h.phases t
  rw [hphase] at hok
  obtain ⟨hall, hzero⟩ := hok
  have hstep : ∀ u, (s.step t).phase u = if u = t then .outside else s.phase u := by
    intro u
    simp only [step, hphase]
    exact update_apply ..
  have hcounted : (s.step t).counted = s.counted := by simp only [step, hphase]; rfl
  have hlast : ∀ u, ((s.step t).phase u).isLast = false := by
    intro u
    rw [hstep]
    split_ifs with hu
    · rfl
    · by_contra hlast
      exact hu (h.unique u t (Bool.not_eq_false _ ▸ hlast) (by rw [hphase]; rfl))
  refine ⟨?_, fun u => ?_, fun _ => ?_, fun u v hu => ?_, fun hnext hne => ?_⟩
  · simp only [step, hphase, SpinBarrier.goto, h.generation, wadd, Nat.mod_add_mod]
  · rw [hstep]
    split_ifs with hu
    · simp only [PhaseOk, hcounted, hall]
    · have hok := h.phases u
      have hlast := hlast u
      rw [hstep, if_neg hu] at hlast
      cases hp : s.phase u with
      | spinning gen =>
        rw [hp] at hok
        have hmod : rounds % usizeBound ≠ (rounds + 1) % usizeBound := by
          rw [usizeBound]
          omega
        rcases hok with ⟨-, rfl⟩ | ⟨hu', -⟩
        · exact .inr ⟨by rw [hcounted, hall], hmod⟩
        · have := hall u
          omega
      | resetting => rw [hp] at hlast; cases hlast
      | opening => rw [hp] at hlast; cases hlast
      | outside => rw [hp] at hok; have := hall u; have : s.counted u = rounds := hok; omega
      | loaded gen => rw [hp] at hok; have := hall u; have := hok.1; omega
  · have hnone : (univ.filter fun u => (s.step t).counted u = rounds + 1 + 1) = ∅ := by
      simp [hcounted, hall]
    rw [hnone, card_empty]
    simp only [step, hphase]
    exact hzero
  · rw [hlast u] at hu
    cases hu
  · have := hnext t
    rw [hcounted, hall] at this
    omega

/-- A step of any thread keeps the invariant. -/
lemma Inv.step (t : τ) : ∃ rounds', (s.step t).Inv rounds' := by
  have hok := h.phases t
  cases hphase : s.phase t with
  | outside =>
    rw [hphase] at hok
    refine ⟨rounds, ?_⟩
    simp only [SpinBarrier.step, hphase]
    exact h.goto rfl (by rw [hphase]; rfl) ⟨hok, h.generation⟩
  | loaded gen => exact ⟨rounds, h.add hphase⟩
  | resetting => exact ⟨rounds, h.reset hphase⟩
  | opening => exact ⟨rounds + 1, h.open hphase⟩
  | spinning gen =>
    rw [hphase] at hok
    refine ⟨rounds, ?_⟩
    simp only [SpinBarrier.step, hphase]
    split_ifs with hgen
    · exact h
    · refine h.goto rfl (by rw [hphase]; rfl) ?_
      rcases hok with ⟨-, rfl⟩ | ⟨ht, -⟩
      · exact absurd h.generation hgen
      · exact ht

end

/-- However the accesses of the threads are interleaved: a thread that has returned from its call
number `r` has seen all threads counted for theirs; the first thread that is counted in a round
finds the count at zero; and if all threads were counted `r` times, then no thread waits for the
generation that is there after its call number `r`, or the last thread of the round is about to open
the next one. -/
theorem barrier_rounds (ts : List τ) {s : SpinBarrier τ} (hs : s = ts.foldl SpinBarrier.step new) :
    (∀ t, s.phase t = .outside → ∀ u, s.counted t ≤ s.counted u) ∧
    (∀ t gen, s.phase t = .loaded gen → (∀ u, s.counted u ≤ s.counted t) → s.count = 0) ∧
    ∀ r, (∀ t, r ≤ s.counted t) →
    (∀ t gen, s.counted t = r → s.phase t = .spinning gen → s.generation ≠ gen) ∨
      ∃ t, s.counted t = r ∧ (s.phase t).isLast = true := by
  obtain ⟨rounds, h⟩ : ∃ rounds, s.Inv rounds := by
    have hrun : ∀ (ts : List τ) (s : SpinBarrier τ) (rounds : ℕ), s.Inv rounds →
        ∃ rounds', (ts.foldl step s).Inv rounds' := by
      intro ts
      induction ts with
      | nil => exact fun s rounds h => ⟨rounds, h⟩
      | cons t ts ih =>
        intro s rounds h
        obtain ⟨rounds', h'⟩ := h.step t
        exact ih _ rounds' h'
    rw [hs]
    exact hrun ts new 0 inv_new
  refine ⟨fun t ht u => ?_, fun t gen ht hfirst => ?_, fun r hr => ?_⟩
  · have hok := h.phases t
    rw [ht] at hok
    have hcounted : s.counted t = rounds := hok
    have := h.counted_cases u
    omega
  · have hok := h.phases t
    rw [ht] at hok
    have hcounted : s.counted t = rounds := hok.1
    rw [h.count_eq hcounted]
    refine card_eq_zero.mpr (filter_eq_empty_iff.mpr fun u _ hu => ?_)
    have := hfirst u
    omega
  · by_cases hwait : ∃ t gen, s.counted t = r ∧ s.phase t = .spinning gen ∧ s.generation = gen
    · obtain ⟨t, gen, hcounted, hphase, hgen⟩ := hwait
      have hok := h.phases t
      rw [hphase] at hok
      -- this thread was counted for the round that is not open yet, and so were all others
      have hround : r = rounds + 1 := by
        rcases hok with ⟨ht, -⟩ | ⟨-, hne⟩
        · omega
        · exact absurd (hgen.symm.trans h.generation) hne
      obtain ⟨u, hu⟩ := h.full (fun u => by have := h.counted_cases u; have := hr u; omega) ⟨t⟩
      exact .inr ⟨u, by rw [h.counted_of_isLast hu, hround], hu⟩
    · exact .inl fun t gen hcounted hphase hgen => hwait ⟨t, gen, hcounted, hphase, hgen⟩

/-- Two threads go through the barrier; the second one is the last. -/
theorem barrier_rounds_two : ∃ s :
    SpinBarrier (Fin 2), s = [0, 1, 0, 1, 1, 1, 0].foldl SpinBarrier.step new ∧
    s.phase 1 = .outside ∧ s.counted 1 = 1 ∧ s.counted 1 ≤ s.counted 0 :=
  ⟨_, rfl, by decide, by decide, (barrier_rounds [0, 1, 0, 1, 1, 1, 0] rfl).1 1 (by decide) 0⟩

end SpinBarrier

end CabOS
