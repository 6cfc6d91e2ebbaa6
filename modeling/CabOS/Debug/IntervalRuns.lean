import CabOS.Debug.Util
import CabOS.Library.Run

/-!
# Runs of an interval map

As long as the intervals are apart, `get` finds the one that contains a key, and `remove` takes it
out.  `insert` compares a new range only with the intervals that start in it.  It does not see an
interval that starts below the range and reaches into it, so this is asked of a run.
-/

namespace CabOS.Debug

open List

/-- The interval and the range have a key in common. -/
def Interval.Meets {V : Type} (e : Interval V) (start stop : ℕ) : Prop :=
  e.start < stop ∧ start < e.stop

namespace IntervalMap

variable {V : Type} {m : IntervalMap V} {e : Interval V} {k start stop : ℕ} {v : V}

/-- The intervals are not empty, and no two of them have a key in common. -/
structure Apart (m : IntervalMap V) : Prop where
  nonempty : ∀ e ∈ m.entries, e.start < e.stop
  disjoint : ∀ e ∈ m.entries, ∀ e' ∈ m.entries, ∀ k, e.Contains k → e'.Contains k → e = e'

/-- The entries after an entry with a new start is put in. -/
lemma mem_put_iff {x y : Interval V} {l : List (Interval V)} (h : ∀ z ∈ l, z.start ≠ x.start) :
    y ∈ put x l ↔ y = x ∨ y ∈ l := by
  induction l with
  | nil => simp [put]
  | cons z zs ih =>
    rw [put]
    split_ifs with hlt heq
    · simp
    · exact absurd heq.symm (h z mem_cons_self)
    · rw [mem_cons, ih fun w hw => h w (mem_cons_of_mem _ hw), mem_cons]
      exact or_left_comm

/-- The calls that change a map. -/
inductive Change (V : Type) where
  | insert (start stop : ℕ) (value : V)
  | remove (k : ℕ)

/-- One call. -/
def change (m : IntervalMap V) : Change V → IntervalMap V
  | .insert start stop value => ((m.insert start stop value).map Prod.snd).getD m
  | .remove k => m.remove k

/-- No interval starts below the position and reaches behind it. -/
def ClearAt (m : IntervalMap V) (start : ℕ) : Prop :=
  ∀ e ∈ m.entries, e.start < start → e.stop ≤ start

/-- A range that is inserted is not empty, and no interval from below reaches into it. -/
def Clear (m : IntervalMap V) : Change V → Prop
  | .insert start stop _ => start < stop ∧ m.ClearAt start
  | .remove _ => True

/-- A range with a key in an interval is refused. -/
lemma insert_of_meets (hclear : m.ClearAt start) (hrange : start < stop) (he : e ∈ m.entries)
    (hmeets : e.Meets start stop) (v : V) : m.insert start stop v = some (false, m) := by
  have hstart : start ≤ e.start := by
    by_contra hlt
    have := hclear e he (by omega)
    exact absurd hmeets.2 (by omega)
  rw [insert, if_neg hrange.not_gt, if_pos]
  exact any_eq_true.mpr ⟨e, he, decide_eq_true ⟨hstart, hmeets.1.le, hmeets⟩⟩

section

variable (h : m.Apart)
include h

/-- `get` finds the interval that contains the key. -/
lemma get_eq_some : m.get k = some e ↔ e ∈ m.entries ∧ e.Contains k := by
  rw [get, Option.filter_eq_some_iff, decide_eq_true_iff]
  constructor
  · rintro ⟨hlast, hstop⟩
    obtain ⟨he, hstart⟩ := mem_filter.mp (mem_of_getLast? hlast)
    exact ⟨he, of_decide_eq_true hstart, hstop⟩
  · rintro ⟨he, hstart, hstop⟩
    refine ⟨?_, hstop⟩
    have hmem : e ∈ m.entries.filter fun e => e.start ≤ k :=
      mem_filter.mpr ⟨he, decide_eq_true hstart⟩
    have hsorted := m.sorted.filter fun e => decide (e.start ≤ k)
    cases hlast : (m.entries.filter fun e => e.start ≤ k).getLast? with
    | none =>
      rw [getLast?_eq_none_iff.mp hlast] at hmem
      exact absurd hmem not_mem_nil
    | some z =>
      obtain ⟨hz, hzk⟩ := mem_filter.mp (mem_of_getLast? hlast)
      obtain ⟨l, hl⟩ := getLast?_eq_some_iff.mp hlast
      rw [hl] at hmem hsorted
      rcases mem_append.mp hmem with hmem | hmem
      · -- an earlier interval ends at the last one, which starts at or below the key
        have hlt := (pairwise_append.mp hsorted).2.2 e hmem z (mem_singleton_self z)
        have hzk := of_decide_eq_true hzk
        have heq := h.disjoint e he z hz z.start ⟨hlt.le, by omega⟩ ⟨le_rfl, h.nonempty z hz⟩
        rw [heq] at hlt
        exact absurd hlt (lt_irrefl _)
      · rw [mem_singleton.mp hmem]

/-- A range with no key in an interval is inserted. -/
lemma insert_of_free (hrange : start < stop)
    (hfree : ∀ e ∈ m.entries, ¬e.Meets start stop) (v : V) :
    ∃ m', m.insert start stop v = some (true, m') ∧ m'.Apart ∧
      ∀ e, e ∈ m'.entries ↔ e = ⟨start, stop, v⟩ ∨ e ∈ m.entries := by
  have hany : ¬(m.entries.any fun e => start ≤ e.start ∧ e.start ≤ stop ∧ e.start < stop ∧
    start < e.stop) := by
    rw [any_eq_true]
    rintro ⟨e, he, hmeets⟩
    obtain ⟨-, -, hlow, hhigh⟩ := of_decide_eq_true hmeets
    exact hfree e he ⟨hlow, hhigh⟩
  have hstart : ∀ e ∈ m.entries, e.start ≠ start := fun e he heq =>
    hfree e he ⟨heq ▸ hrange, heq ▸ h.nonempty e he⟩
  have hmem : ∀ e, e ∈ put ⟨start, stop, v⟩ m.entries ↔ e = ⟨start, stop, v⟩ ∨ e ∈ m.entries :=
    fun e => mem_put_iff hstart
  refine ⟨_,
    by rw [insert, if_neg hrange.not_gt, if_neg hany],
    ⟨fun e he => ?_, fun e he e' he' k hk hk' => ?_⟩, hmem⟩
  · rcases (hmem e).mp he with rfl | he
    · exact hrange
    · exact h.nonempty e he
  · rcases (hmem e).mp he with rfl | he
    · rcases (hmem e').mp he' with rfl | he'
      · rfl
      · exact absurd ⟨hk'.1.trans_lt hk.2, hk.1.trans_lt hk'.2⟩ (hfree e' he')
    · rcases (hmem e').mp he' with rfl | he'
      · exact absurd ⟨hk.1.trans_lt hk'.2, hk'.1.trans_lt hk.2⟩ (hfree e he)
      · exact h.disjoint e he e' he' k hk hk'

/-- The intervals without the one that contains the key. -/
lemma remove_apart (k : ℕ) : (m.remove k).Apart ∧ ∀ e, e ∈ (m.remove k).entries ↔
    e ∈ m.entries ∧ ¬e.Contains k := by
  have hmem : ∀ e, e ∈ (m.remove k).entries ↔ e ∈ m.entries ∧ ¬e.Contains k := by
    intro e
    rw [remove]
    cases hget : m.get k with
    | none =>
      refine (and_iff_left_of_imp fun he hk => ?_).symm
      rw [(get_eq_some h).mpr ⟨he, hk⟩] at hget
      cases hget
    | some x =>
      obtain ⟨hx, hk⟩ := (get_eq_some h).mp hget
      refine (mem_filter.trans (and_congr_right fun he =>
        decide_eq_true_iff.trans (not_congr ⟨fun heq => ?_, ?_⟩)))
      · rw [h.disjoint e he x hx e.start ⟨le_rfl, h.nonempty e he⟩ ⟨heq.ge, heq ▸ h.nonempty x hx⟩]
        exact hk
      · exact fun hek => congrArg Interval.start (h.disjoint e he x hx k hek hk)
  exact ⟨⟨fun e he => h.nonempty e ((hmem e).mp he).1,
    fun e he e' he' => h.disjoint e ((hmem e).mp he).1 e' ((hmem e').mp he').1⟩, hmem⟩

/-- Each call keeps the intervals apart. -/
lemma Apart.change (c : Change V) (hc : m.Clear c) : (m.change c).Apart := by
  cases c with
  | remove k => exact (remove_apart h k).1
  | insert start stop v =>
    by_cases hfree : ∀ e ∈ m.entries, ¬e.Meets start stop
    · obtain ⟨m', hm', hapart, -⟩ := insert_of_free h hc.1 hfree v
      rw [IntervalMap.change, hm']
      exact hapart
    · push Not at hfree
      obtain ⟨e, he, hmeets⟩ := hfree
      rw [IntervalMap.change, insert_of_meets hc.2 hc.1 he hmeets]
      exact h

end

/-- After every run of calls on the empty map that meets no interval from below, the intervals are
apart, the next range is refused if and only if it has a key in an interval, and `get` finds the
interval of a key. -/
theorem run_apart (cs : List (Change V)) (hcs : AlongRun change Clear new cs) (m : IntervalMap V)
    (hm : cs.foldl change new = m) : m.Apart ∧ (∀ start stop v, start < stop → m.ClearAt start →
        (∃ e ∈ m.entries, e.Meets start stop) ∧ m.insert start stop v = some (false, m) ∨
          (¬∃ e ∈ m.entries, e.Meets start stop) ∧ ∃ m', m.insert start stop v = some (true, m') ∧
            ∀ e, e ∈ m'.entries ↔ e = ⟨start, stop, v⟩ ∨ e ∈ m.entries) ∧
      ∀ k e, m.get k = some e ↔ e ∈ m.entries ∧ e.Contains k := by
  have hnew : (new : IntervalMap V).Apart :=
    ⟨fun _ he => absurd he not_mem_nil, fun _ he => absurd he not_mem_nil⟩
  have hapart : m.Apart := hm ▸ hcs.invariant (I := Apart) (fun _ c h => h.change c) hnew
  refine ⟨hapart, fun start stop v hrange hclear => ?_, fun k e => get_eq_some hapart⟩
  by_cases hmeets : ∃ e ∈ m.entries, e.Meets start stop
  · obtain ⟨e, he, hmeet⟩ := hmeets
    exact Or.inl ⟨⟨e, he, hmeet⟩, insert_of_meets hclear hrange he hmeet v⟩
  · refine Or.inr ⟨hmeets, ?_⟩
    obtain ⟨m', hm', -, hmem⟩ :=
      insert_of_free hapart hrange (fun e he hmeet => hmeets ⟨e, he, hmeet⟩) v
    exact ⟨m', hm', hmem⟩

/-- A range that touches an interval. -/
theorem run_apart_touching : ∃ m :
    IntervalMap ℕ, [Change.insert 0 4 1, .insert 4 6 2].foldl change new = m ∧
    m.get 4 = some ⟨4, 6, 2⟩ :=
  ⟨_, rfl, ((run_apart [.insert 0 4 1, .insert 4 6 2] ⟨⟨by decide, by simp [ClearAt, new]⟩,
    ⟨by decide, by simp [ClearAt, change, insert, new, put]⟩,
    trivial⟩ _ rfl).2.2 4 _).mpr ⟨by decide, by decide⟩⟩

/-- A range inside an interval is inserted, and then the rest of the interval is not found. -/
theorem insert_inside : ∃ m m' : IntervalMap ℕ, new.insert 0 10 1 = some (true, m) ∧
    m.insert 5 6 2 = some (true, m') ∧ ⟨0, 10, 1⟩ ∈ m'.entries ∧ ⟨5, 6, 2⟩ ∈ m'.entries ∧
    m'.get 7 = none :=
  ⟨_, _, rfl, rfl, by decide, by decide, rfl⟩

end IntervalMap

end CabOS.Debug
