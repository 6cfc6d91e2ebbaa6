import CabOS.Debug.Io

/-!
# The search tables as step functions

The markers of a table in the order of their addresses are a step function.  `filterRanges` keeps
the function and leaves each address once, so that `writeRanges` can write the table.  For sequences
of rows in disjoint ranges, the function has the value of the last row at or below an address inside
a sequence, and is null between the sequences.
-/

namespace CabOS.Debug

open List

variable {T : Type} {null : T}

/-- A marker may stand before another: it is not above it, and at the same address only if it is
null. -/
def Precedes (null : T) (x y : ℕ × T) : Prop :=
  x.1 ≤ y.1 ∧ (x.1 = y.1 → x.2 = null)

section

variable [DecidableEq T]

/-- Filtering does not panic, keeps the function, and leaves each address once. -/
lemma filterFrom_spec {prev : ℕ × T} {rest : List (ℕ × T)}
    (h : (prev :: rest).Pairwise (Precedes null)) :
    ∃ out, filterFrom null prev rest = some out ∧ (out.Pairwise fun x y => x.1 < y.1) ∧
      (∀ m ∈ out, m ∈ prev :: rest ∧ prev.1 ≤ m.1) ∧
      ∀ v a, stepValue v out a = stepValue v (prev :: rest) a := by
  induction rest generalizing prev with
  | nil => exact ⟨[prev], rfl, pairwise_singleton _ _, by simp, fun _ _ => rfl⟩
  | cons ele rest ih =>
    obtain ⟨hprev, hrest⟩ := pairwise_cons.mp h
    obtain ⟨hle, hnull⟩ := hprev ele mem_cons_self
    rw [filterFrom, canMerge, if_neg (not_not.mpr hle)]
    by_cases heq : prev.2 = ele.2
    · -- the second marker changes nothing
      have hskip : (prev :: rest).Pairwise (Precedes null) :=
        pairwise_cons.mpr ⟨fun m hm => hprev m (mem_cons_of_mem _ hm), (pairwise_cons.mp hrest).2⟩
      obtain ⟨out, hout, hsorted, hmem, hstep⟩ := ih hskip
      simp only [if_pos heq]
      refine ⟨out, hout, hsorted, fun m hm => ?_, fun v a => ?_⟩
      · obtain ⟨hm', hle'⟩ := hmem m hm
        refine ⟨?_, hle'⟩
        rcases mem_cons.mp hm' with rfl | hm'
        · exact mem_cons_self
        · exact mem_cons_of_mem _ (mem_cons_of_mem _ hm')
      · rw [hstep, stepValue_cons, stepValue_cons, stepValue_cons]
        congr 1
        by_cases ha : ele.1 ≤ a
        · rw [if_pos ha, if_pos (hle.trans ha), heq]
        · rw [if_neg ha]
    · rw [if_neg heq]
      by_cases haddr : prev.1 = ele.1
      · -- a null marker gives way to the one at the same address
        obtain ⟨out, hout, hsorted, hmem, hstep⟩ := ih hrest
        simp only [if_pos haddr, if_pos (hnull haddr)]
        refine ⟨out, hout, hsorted, fun m hm => ?_, fun v a => ?_⟩
        · obtain ⟨hm', hle'⟩ := hmem m hm
          exact ⟨mem_cons_of_mem _ hm', haddr.trans_le hle'⟩
        · rw [hstep, stepValue_cons, stepValue_cons, stepValue_cons, haddr]
          congr 1
          by_cases ha : ele.1 ≤ a
          · rw [if_pos ha, if_pos ha]
          · rw [if_neg ha, if_neg ha, if_neg ha]
      · obtain ⟨out, hout, hsorted, hmem, hstep⟩ := ih hrest
        simp only [if_neg haddr, hout]
        refine ⟨prev :: out, rfl, pairwise_cons.mpr ⟨fun m hm => ?_, hsorted⟩, fun m hm => ?_,
          fun v a => ?_⟩
        · have := (hmem m hm).2
          omega
        · rcases mem_cons.mp hm with rfl | hm
          · exact ⟨mem_cons_self, le_rfl⟩
          · obtain ⟨hm', hle'⟩ := hmem m hm
            exact ⟨mem_cons_of_mem _ hm', hle.trans hle'⟩
        · rw [stepValue_cons]
          exact hstep _ a

/-- The same for all markers. -/
lemma filterRanges_spec {ms : List (ℕ × T)} (h : ms.Pairwise (Precedes null)) :
    ∃ out, filterRanges null ms = some out ∧ (out.Pairwise fun x y => x.1 < y.1) ∧
    (∀ m ∈ out, m ∈ ms) ∧
      ∀ v a, stepValue v out a = stepValue v ms a := by
  cases ms with
  | nil => exact ⟨[], rfl, List.Pairwise.nil, by simp, fun _ _ => rfl⟩
  | cons prev rest =>
    obtain ⟨out, hout, hsorted, hmem, hstep⟩ := filterFrom_spec h
    exact ⟨out, hout, hsorted, fun m hm => (hmem m hm).1, hstep⟩

end

/-- Markers in increasing order are written one after another. -/
lemma writeMarkers_eq {write : T → Option (List UInt8)} {prevAddr : ℕ} {es : List (ℕ × T)}
    (h : es.Pairwise fun x y => x.1 < y.1) (hprev : ∀ e ∈ es, prevAddr < e.1) :
    writeMarkers write prevAddr es = (es.mapM (writeMarker write)).map flatten := by
  induction es generalizing prevAddr with
  | nil => rfl
  | cons e es ih =>
    obtain ⟨he, hes⟩ := pairwise_cons.mp h
    rw [writeMarkers, if_neg (not_not.mpr (hprev e mem_cons_self)), ih hes he, mapM_cons]
    cases writeMarker write e with
    | none => rfl
    | some bs =>
      cases es.mapM (writeMarker write) with
      | none => rfl
      | some parts => rfl

/-! ## Sequences of rows -/

/-- Ranges in order, with rows that increase inside each. -/
structure Sequences (es : List (Interval (List (ℕ × T)))) : Prop where
  range : ∀ e ∈ es, e.start ≤ e.stop
  increasing : ∀ e ∈ es, e.value.Pairwise fun x y => x.1 < y.1
  inside : ∀ e ∈ es, ∀ r ∈ e.value, e.Contains r.1
  disjoint : es.Pairwise fun a b => a.stop ≤ b.start

/-- The rows of all sequences, with a null marker at the end of each. -/
def markers (null : T) (es : List (Interval (List (ℕ × T)))) : List (ℕ × T) :=
  es.flatMap fun e => e.value ++ [(e.stop, null)]

namespace Sequences

variable {e : Interval (List (ℕ × T))} {es : List (Interval (List (ℕ × T)))} {a : ℕ} {m : ℕ × T}

lemma tail (h : Sequences (e :: es)) : Sequences es where
  range := fun x hx => h.range x (mem_cons_of_mem _ hx)
  increasing := fun x hx => h.increasing x (mem_cons_of_mem _ hx)
  inside := fun x hx => h.inside x (mem_cons_of_mem _ hx)
  disjoint := (pairwise_cons.mp h.disjoint).2

lemma mem_markers : m ∈ markers null es ↔ ∃ e ∈ es, m ∈ e.value ∨ m = (e.stop, null) := by
  simp [markers]

/-- The markers of the later sequences are not below the end of the first one. -/
lemma stop_le (h : Sequences (e :: es)) (hm : m ∈ markers null es) : e.stop ≤ m.1 := by
  obtain ⟨x, hx, hm⟩ := mem_markers.mp hm
  have hle := (pairwise_cons.mp h.disjoint).1 x hx
  rcases hm with hm | rfl
  · exact hle.trans (h.tail.inside x hx m hm).1
  · exact hle.trans (h.tail.range x hx)

/-- The markers are in order. -/
lemma precedes (h : Sequences es) : (markers null es).Pairwise (Precedes null) := by
  induction es with
  | nil => exact List.Pairwise.nil
  | cons e es ih =>
    rw [markers, flatMap_cons]
    refine pairwise_append.mpr ⟨pairwise_append.mpr ⟨?_, pairwise_singleton _ _, ?_⟩, ih h.tail, ?_⟩
    · refine (h.increasing e mem_cons_self).imp fun {x y} hxy => ⟨hxy.le, fun heq => ?_⟩
      exact absurd heq hxy.ne
    · intro r hr m hm
      have hlt := (h.inside e mem_cons_self r hr).2
      rw [mem_singleton.mp hm]
      exact ⟨hlt.le, fun heq => absurd heq hlt.ne⟩
    · intro m hm x hx
      have hle : e.stop ≤ x.1 := h.stop_le hx
      rcases mem_append.mp hm with hm | hm
      · have hlt := (h.inside e mem_cons_self m hm).2
        exact ⟨by omega, fun heq => by omega⟩
      · rw [mem_singleton.mp hm]
        exact ⟨hle, fun _ => rfl⟩

/-- Below the first sequence there is nothing. -/
lemma stepValue_of_lt (h : Sequences (e :: es)) (ha : a < e.start) :
    stepValue null (markers null (e :: es)) a = null := by
  refine stepValue_of_above (fun m hm => ?_) null
  have hrange := h.range e mem_cons_self
  have hrow : ∃ x ∈ e :: es, m ∈ x.value ∨ m = (x.stop, null) := mem_markers.mp hm
  obtain ⟨x, hx, hrow⟩ := hrow
  rcases mem_cons.mp hx with rfl | hx
  · rcases hrow with hrow | rfl
    · exact ha.trans_le (h.inside x mem_cons_self m hrow).1
    · exact ha.trans_le hrange
  · have hle : e.stop ≤ m.1 := h.stop_le (mem_markers.mpr ⟨x, hx, hrow⟩)
    omega

/-- Behind the first sequence only the later ones count. -/
lemma stepValue_of_le (ha : e.stop ≤ a) :
    stepValue null (markers null (e :: es)) a = stepValue null (markers null es) a := by
  rw [markers, flatMap_cons, stepValue_append, stepValue_append, stepValue_cons, if_pos ha]
  rfl

/-- Inside a sequence its rows count. -/
lemma stepValue_of_contains (h : Sequences es) (he : e ∈ es) (ha : e.Contains a) :
    stepValue null (markers null es) a = stepValue null e.value a := by
  induction es with
  | nil => simp at he
  | cons x xs ih =>
    rcases mem_cons.mp he with rfl | he
    · rw [markers, flatMap_cons, stepValue_append, stepValue_append, stepValue_cons,
        if_neg (Nat.not_le.mpr ha.2)]
      refine stepValue_of_above (fun m hm => ?_) _
      exact ha.2.trans_le (h.stop_le hm)
    · have hle := (pairwise_cons.mp h.disjoint).1 e he
      rw [stepValue_of_le (hle.trans ha.1), ih h.tail he]

/-- Outside all sequences there is nothing. -/
lemma stepValue_of_not_contains (h : Sequences es) (ha : ∀ e ∈ es, ¬e.Contains a) :
    stepValue null (markers null es) a = null := by
  induction es with
  | nil => rfl
  | cons x xs ih =>
    by_cases hlt : a < x.start
    · exact h.stepValue_of_lt hlt
    · have hstop : x.stop ≤ a := by
        by_contra hstop
        exact ha x mem_cons_self ⟨by omega, by omega⟩
      rw [stepValue_of_le hstop]
      exact ih h.tail fun e he => ha e (mem_cons_of_mem _ he)

/-- Disjoint intervals that are not empty are sequences of one row each. -/
lemma singles {es : List (Interval T)} (hrange : ∀ e ∈ es, e.start < e.stop)
    (hdisjoint : es.Pairwise fun a b => a.stop ≤ b.start) :
    Sequences (es.map fun e => ⟨e.start, e.stop, [(e.start, e.value)]⟩) := by
  refine ⟨?_, ?_, ?_, pairwise_map.mpr hdisjoint⟩
  · intro x hx
    obtain ⟨e, he, rfl⟩ := mem_map.mp hx
    exact (hrange e he).le
  · intro x hx
    obtain ⟨e, he, rfl⟩ := mem_map.mp hx
    exact pairwise_singleton _ _
  · intro x hx r hr
    obtain ⟨e, he, rfl⟩ := mem_map.mp hx
    rw [mem_singleton.mp hr]
    exact ⟨le_rfl, hrange e he⟩

end Sequences

/-- A start marker and a null marker at the end for each of some disjoint intervals: filtering does
not panic, leaves each address once, and the step function has the value of the interval that
contains an address, and null outside. -/
theorem filterRanges_intervals [DecidableEq T] (null : T) (es : List (Interval T))
    (hrange : ∀ e ∈ es, e.start < e.stop) (hdisjoint : es.Pairwise fun a b => a.stop ≤ b.start) :
    ∃ out, filterRanges null (es.flatMap fun e => [(e.start, e.value), (e.stop, null)]) = some out ∧
      (out.Pairwise fun x y => x.1 < y.1) ∧
      ∀ a, (∀ e ∈ es, e.Contains a → stepValue null out a = e.value) ∧
        ((∀ e ∈ es, ¬e.Contains a) → stepValue null out a = null) := by
  have hseq := Sequences.singles hrange hdisjoint
  have hprecedes : (markers null _).Pairwise (Precedes null) := hseq.precedes
  obtain ⟨out, hout, hsorted, -, hstep⟩ := filterRanges_spec hprecedes
  rw [markers, flatMap_map] at hout
  refine ⟨out, hout, hsorted, fun a => ⟨fun e he ha => ?_, fun ha => ?_⟩⟩
  · rw [hstep, hseq.stepValue_of_contains (mem_map_of_mem he) ha, stepValue_cons, if_pos ha.1]
    rfl
  · rw [hstep, hseq.stepValue_of_not_contains fun x hx => ?_]
    obtain ⟨e, he, rfl⟩ := mem_map.mp hx
    exact ha e he

/-- Two intervals that touch, with a gap behind them. -/
theorem filterRanges_intervals_touching :
    ∃ out, filterRanges 0 [(1, 7), (3, 0), (3, 8), (5, 0)] = some out ∧ stepValue 0 out 4 = 8 ∧
    stepValue 0 out 5 = 0 := by
  obtain ⟨out, hout, -, hstep⟩ :=
    filterRanges_intervals 0 [⟨1, 3, 7⟩, ⟨3, 5, 8⟩] (by decide) (by simp)
  exact ⟨out, hout, (hstep 4).1 ⟨3, 5, 8⟩ (by decide) (by decide), (hstep 5).2 (by decide)⟩

end CabOS.Debug
