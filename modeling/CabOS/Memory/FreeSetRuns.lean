import CabOS.Library.MaximalRun
import CabOS.Memory.FreeSet

/-!
# Runs of the free set

Any sequence of calls with positive lengths and no overflow keeps the free ranges maximal
(`FreeSet.Reachable.inv`), and in every state reached the three operations are those of a set of
addresses (`FreeSet.reachable_spec`).
-/

namespace CabOS.FreeSet

variable {d : ℕ} {s : FreeSet} {r : EStateM.Result (Fault String) FreeSet Unit}
  {next : Set ℕ} {p : Prop}

/-! ## Runs -/

/-- The maximal runs of free addresses are the listed ranges. -/
lemma Inv.isRun_iff (h : s.Inv 1) (a n : ℕ) : IsRun s.addrs a n ↔ (⟨a, n⟩ : Free) ∈ s.baseSet := by
  have hrun : IsRun s.addrs a n ↔ ∃ f ∈ {f | f ∈ s.baseSet}, f.base = a ∧ f.length = n := by
    refine CabOS.isRun_iff (fun x => Iff.rfl) h.pos ?_ ?_ a n
    · exact fun f hf g hg hlt => h.sep_of_lt hf hg hlt
    · exact fun f hf g hg heq => congrArg Free.length (h.eq_of_base hf hg heq)
  rw [hrun]
  constructor
  · rintro ⟨f, hf, rfl, rfl⟩
    exact hf
  · intro hf
    exact ⟨_, hf, rfl, rfl⟩

/-- A call of one of the three public operations. -/
inductive Op where
  | addRange (base length : ℕ)
  | removeRangeByBase (base length : ℕ)
  | removeRangeByLength (length : ℕ)

/-- Run a call; only `removeRangeByLength` returns an address. -/
def Op.run : Op → EStateM (Fault String) FreeSet (Option ℕ)
  | .addRange base length => do
    FreeSet.addRange base length
    pure none
  | .removeRangeByBase base length => do
    FreeSet.removeRangeByBase base length
    pure none
  | .removeRangeByLength length => do
    let base ← FreeSet.removeRangeByLength length
    pure (some base)

/-- The length is positive and the end of the range does not overflow. -/
def Op.Valid : Op → Prop
  | .addRange base length => 0 < length ∧ base + length < usizeBound
  | .removeRangeByBase base length => 0 < length ∧ base + length < usizeBound
  | .removeRangeByLength length => 0 < length

/-- The sets that calls with positive lengths and no overflow lead to. -/
inductive Reachable : FreeSet → Prop
  | new : Reachable FreeSet.new
  | step {s : FreeSet} (op : Op) (hs : Reachable s) (hop : op.Valid) :
  Reachable (finalState op.run s)

/-- Every call keeps the ranges maximal. -/
lemma Inv.step (h : s.Inv 1) {op : Op} (hop : op.Valid) : (finalState op.run s).Inv 1 := by
  cases op with
  | addRange base length =>
    obtain ⟨hpos, hb⟩ := hop
    rcases h.addRange_cases le_rfl hpos hb with ⟨s', e, hinv, -⟩ | ⟨m, e, -⟩
    · rw [finalState_of_ok (t := s') (a := none) (by simp [Op.run, e])]
      exact hinv
    · rw [finalState_of_error (t := s) (e := .err m) (by simp [Op.run, e])]
      exact h
  | removeRangeByBase base length =>
    obtain ⟨hpos, hb⟩ := hop
    rcases h.removeRangeByBase_cases hb with ⟨f, hf, hle, hend, e⟩ | ⟨m, e, -⟩
    · rw [finalState_of_ok (a := none) (by simp only [Op.run, exec_bind, e, exec_pure]; rfl)]
      exact h.cut hf hle hend hpos
    · rw [finalState_of_error (t := s) (e := .err m) (by simp [Op.run, e])]
      exact h
  | removeRangeByLength length =>
    rcases h.removeRangeByLength_cases length with ⟨f, hf, hle, -, e⟩ | ⟨m, e, -⟩
    · rw [finalState_of_ok (a := some f.base) (by simp only [Op.run, exec_bind, e, exec_pure]; rfl)]
      exact h.cut hf le_rfl (by omega) hop
    · rw [finalState_of_error (t := s) (e := .err m) (by simp [Op.run, e])]
      exact h

/-- In every reachable set the ranges are maximal. -/
lemma Reachable.inv (hs : Reachable s) : s.Inv 1 := by
  induction hs with
  | new => exact inv_new 1
  | step op _ hop ih => exact ih.step hop

/-- A call either succeeds and changes the free addresses to `next`, or returns an error, exactly
when `p` fails, and leaves the set as it is. -/
def Spec (r : EStateM.Result (Fault String) FreeSet Unit) (s : FreeSet) (p : Prop)
    (next : Set ℕ) : Prop :=
  ((∃ s', r = .ok () s') ↔ p) ∧ (∀ s', r = .ok () s' → s'.addrs = next) ∧
    ∀ e s', r = .error e s' → (∃ m, e = .err m) ∧ s' = s

/-- A call that succeeds. -/
lemma spec_of_ok {s' : FreeSet} (hr : r = .ok () s') (hp : p) (hnext : s'.addrs = next) :
    Spec r s p next := by
  subst hr
  refine ⟨⟨fun _ => hp, fun _ => ⟨s', rfl⟩⟩, ?_, ?_⟩
  · rintro t ht
    cases ht
    exact hnext
  · rintro e t ht
    cases ht

/-- A call that returns an error. -/
lemma spec_of_err {m : String} (hr : r = .error (.err m) s) (hp : ¬ p) : Spec r s p next := by
  subst hr
  refine ⟨⟨?_, fun h => absurd h hp⟩, ?_, ?_⟩
  · rintro ⟨t, ht⟩
    cases ht
  · rintro t ht
    cases ht
  · rintro e t ht
    cases ht
    exact ⟨⟨m, rfl⟩, rfl⟩

/-- A range that no listed range contains has an address outside the set. -/
lemma Inv.not_subset (h : s.Inv 1) {base length : ℕ} (hpos : 0 < length)
    (hnone : ∀ f ∈ s.baseSet, f.base ≤ base → f.base + f.length < base + length) :
    ¬ Set.Ico base (base + length) ⊆ s.addrs := by
  intro hsub
  -- the range that contains `base` ends too early, and the address after it is not free
  obtain ⟨f, hf, h1, h2⟩ := hsub (show base ∈ Set.Ico base (base + length) from ⟨le_rfl, by omega⟩)
  have hend := hnone f hf h1
  have hrun := (h.isRun_iff f.base f.length).mpr hf
  exact hrun.2.2.1 (hsub ⟨by omega, hend⟩)

/-- The free set is a set of addresses: in every reachable state both trees hold the same ranges,
which are not empty and neither overlap nor touch; `addRange` succeeds exactly on ranges disjoint
from the set and adds them, `removeRangeByBase` succeeds exactly on ranges inside the set and
removes them, `removeRangeByLength` succeeds exactly when some maximal run is long enough and then
removes the first addresses of a shortest such run; every error leaves the set unchanged. -/
theorem reachable_spec (hs : Reachable s) :
    s.lengthSet.toList.Perm s.baseSet.toList ∧ (∀ f ∈ s.baseSet, 0 < f.length) ∧
    (s.baseSet.toList.Pairwise fun f g => f.base + f.length < g.base) ∧
    (∀ base length, 0 < length → base + length < usizeBound →
      Spec (addRange base length s) s (Disjoint s.addrs (Set.Ico base (base + length)))
        (s.addrs ∪ Set.Ico base (base + length))) ∧
    (∀ base length, 0 < length → base + length < usizeBound →
      Spec (removeRangeByBase base length s) s (Set.Ico base (base + length) ⊆ s.addrs)
        (s.addrs \ Set.Ico base (base + length))) ∧
    (∀ length, 0 < length →
      ((∃ base s', removeRangeByLength length s = .ok base s') ↔
        ∃ a n, IsRun s.addrs a n ∧ length ≤ n) ∧
      (∀ base s', removeRangeByLength length s = .ok base s' →
        (∃ n, IsRun s.addrs base n ∧ length ≤ n ∧ ∀ a m, IsRun s.addrs a m → length ≤ m → n ≤ m) ∧
        s'.addrs = s.addrs \ Set.Ico base (base + length)) ∧
      ∀ e s', removeRangeByLength length s = .error e s' → (∃ m, e = .err m) ∧ s' = s) := by
  have h := hs.inv
  refine ⟨h.perm, h.pos, h.sep.imp fun hfg => by omega, ?_, ?_, ?_⟩
  · intro base length hpos hb
    rcases h.addRange_cases le_rfl hpos hb with ⟨s', e, -, haddrs, hdisj⟩ | ⟨m, e, hdisj⟩
    · exact spec_of_ok e hdisj haddrs
    · exact spec_of_err e hdisj
  · intro base length hpos hb
    rcases h.removeRangeByBase_cases hb with ⟨f, hf, hle, hend, e⟩ | ⟨m, e, hnone⟩
    · refine spec_of_ok e ?_ (h.addrs_cut hf hle hend)
      exact fun a ha => ⟨f, hf, hle.trans ha.1, lt_of_lt_of_le ha.2 hend⟩
    · exact spec_of_err e (h.not_subset hpos hnone)
  · intro length hpos
    rcases h.removeRangeByLength_cases length with ⟨f, hf, hle, hmin, e⟩ | ⟨m, e, hnone⟩
    · have hrun : IsRun s.addrs f.base f.length := (h.isRun_iff _ _).mpr hf
      rw [e]
      refine ⟨⟨fun _ => ⟨_, _, hrun, hle⟩, fun _ => ⟨_, _, rfl⟩⟩, ?_, ?_⟩
      · rintro base t ht
        cases ht
        refine ⟨⟨f.length, hrun, hle, ?_⟩, h.addrs_cut hf le_rfl (by omega)⟩
        intro a m hm hlen
        exact hmin ⟨a, m⟩ ((h.isRun_iff a m).mp hm) hlen
      · rintro e' t ht
        cases ht
    · rw [e]
      refine ⟨⟨?_, ?_⟩, ?_, ?_⟩
      · rintro ⟨base, t, ht⟩
        cases ht
      · rintro ⟨a, n, hrun, hle⟩
        exact absurd (hnone _ ((h.isRun_iff a n).mp hrun)) (not_lt.mpr hle)
      · rintro base t ht
        cases ht
      · rintro e' t ht
        cases ht
        exact ⟨⟨m, rfl⟩, rfl⟩

/-- Three ranges are added, the middle one last: the set is then one run, which a removal by base
takes whole. -/
theorem reachable_spec_coalesce :
    Reachable (finalState (Op.addRange 5 5).run (finalState (Op.addRange 10 5).run
      (finalState (Op.addRange 0 5).run FreeSet.new))) ∧
    Spec (removeRangeByBase 0 15 (finalState (Op.addRange 5 5).run
        (finalState (Op.addRange 10 5).run (finalState (Op.addRange 0 5).run FreeSet.new))))
      (finalState (Op.addRange 5 5).run (finalState (Op.addRange 10 5).run
        (finalState (Op.addRange 0 5).run FreeSet.new)))
      (Set.Ico 0 (0 + 15) ⊆ (finalState (Op.addRange 5 5).run (finalState (Op.addRange 10 5).run
        (finalState (Op.addRange 0 5).run FreeSet.new))).addrs)
      ((finalState (Op.addRange 5 5).run (finalState (Op.addRange 10 5).run
        (finalState (Op.addRange 0 5).run FreeSet.new))).addrs \ Set.Ico 0 (0 + 15)) := by
  have hs : Reachable (finalState (Op.addRange 5 5).run (finalState (Op.addRange 10 5).run
      (finalState (Op.addRange 0 5).run new))) :=
    .step _ (.step _ (.step _ .new ⟨by decide, by decide⟩) ⟨by decide, by decide⟩)
      ⟨by decide, by decide⟩
  exact ⟨hs, (reachable_spec hs).2.2.2.2.1 0 15 (by decide) (by decide)⟩

end CabOS.FreeSet
