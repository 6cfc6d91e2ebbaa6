import Mathlib

/-!
# Binary search with a best candidate

`binarySearch look fuel lo hi best` halves the range from `lo` to `hi`.  At the middle `mid`, `look
mid best` ends the search with an error, says that the entry is above (`none`), or gives the new
candidate.  Where the entries below `p` are the ones that are not above, the search folds `look`
over the positions it meets below `p` (`binarySearch_eq`): the last one of them is `p - 1`, and they
are the nodes below `p` on the way to `p` in the balanced search tree (`mem_probes_iff`).
-/

namespace CabOS

open List

variable {β ε : Type} {p fuel lo hi : ℕ}

/-- The loop of a binary search over the range from `lo` to `hi`.  A range is at least halved in a
round, so that as many rounds as there are entries are enough. -/
def binarySearch (look : ℕ → β → Except ε (Option β)) : ℕ → ℕ → ℕ → β → Except ε β
  | 0, _, _, best => .ok best
  | fuel + 1, lo, hi, best =>
    if lo < hi then
      match look (lo + (hi - lo) / 2) best with
      | .error e => .error e
      | .ok (some best') => binarySearch look fuel (lo + (hi - lo) / 2 + 1) hi best'
      | .ok none => binarySearch look fuel lo (lo + (hi - lo) / 2) best
    else
      .ok best

/-- The positions below `p` at which the search looks. -/
def probes (p : ℕ) : ℕ → ℕ → ℕ → List ℕ
  | 0, _, _ => []
  | fuel + 1, lo, hi =>
    if lo < hi then
      if lo + (hi - lo) / 2 < p then
        (lo + (hi - lo) / 2) :: probes p fuel (lo + (hi - lo) / 2 + 1) hi
      else
        probes p fuel lo (lo + (hi - lo) / 2)
    else
      []

/-- The search folds over its probes. -/
lemma binarySearch_eq {look : ℕ → β → Except ε (Option β)} {below : ℕ → β → Except ε β}
    (fuel lo hi : ℕ) (best : β)
    (hbelow : ∀ m b, m < hi → m < p → look m b = (below m b).map some)
    (habove : ∀ m b, m < hi → p ≤ m → look m b = .ok none) :
    binarySearch look fuel lo hi best =
      (probes p fuel lo hi).foldlM (fun b m => below m b) best := by
  induction fuel generalizing lo hi best with
  | zero => rfl
  | succ fuel ih =>
    rw [binarySearch, probes]
    by_cases h : lo < hi
    · rw [if_pos h, if_pos h]
      by_cases hm : lo + (hi - lo) / 2 < p
      · rw [if_pos hm, hbelow _ _ (by omega) hm, foldlM_cons]
        cases hb : below (lo + (hi - lo) / 2) best with
        | error e => rfl
        | ok best' => exact ih _ _ _ hbelow habove
      · rw [if_neg hm, habove _ _ (by omega) (by omega)]
        exact ih _ _ _ (fun m b hm => hbelow m b (by omega)) fun m b hm => habove m b (by omega)
    · rw [if_neg h, if_neg h]
      rfl

/-- The probes are positions in the range, and below `p`. -/
lemma mem_probes {m : ℕ} (h : m ∈ probes p fuel lo hi) : lo ≤ m ∧ m < hi ∧ m < p := by
  induction fuel generalizing lo hi with
  | zero => simp [probes] at h
  | succ fuel ih =>
    rw [probes] at h
    split_ifs at h with hlt hm
    · rcases mem_cons.mp h with rfl | h
      · exact ⟨by omega, by omega, hm⟩
      · have := ih h
        omega
    · have := ih h
      omega
    · simp at h

/-- If there is a position below `p` in the range, the last probe is the last one of them. -/
lemma probes_getLast? (hlo : lo < p) (hhi : p ≤ hi) (hfuel : hi - lo ≤ fuel) :
    (probes p fuel lo hi).getLast? = some (p - 1) := by
  induction fuel generalizing lo hi with
  | zero => omega
  | succ fuel ih =>
    rw [probes, if_pos (by omega)]
    split_ifs with hm
    · by_cases hlast : lo + (hi - lo) / 2 + 1 = p
      · have hnil : probes p fuel (lo + (hi - lo) / 2 + 1) hi = [] := by
          refine eq_nil_iff_forall_not_mem.mpr fun m hmem => ?_
          have := mem_probes hmem
          omega
        rw [hnil, getLast?_singleton, ← hlast, Nat.add_sub_cancel]
      · have hrest := @ih (lo + (hi - lo) / 2 + 1) hi (by omega) hhi (by omega)
        rw [getLast?_cons, hrest]
        rfl
    · exact ih hlo (by omega) (by omega)

lemma probes_eq_nil (h : p ≤ lo) : probes p fuel lo hi = [] := by
  refine eq_nil_iff_forall_not_mem.mpr fun m hmem => ?_
  have := mem_probes hmem
  omega

/-! ## The tree of halved ranges -/

/-- The range from `lo` to `hi` is halved, in any number of rounds, to the second range.  The halved
ranges are the subtrees of the balanced search tree over the positions, and their middles are the
roots. -/
inductive Halved : ℕ → ℕ → ℕ → ℕ → Prop
  | whole (lo hi : ℕ) : Halved lo hi lo hi
  | upper {lo hi lo' hi' : ℕ} (hlt : lo < hi) (h : Halved (lo + (hi - lo) / 2 + 1) hi lo' hi') :
  Halved lo hi lo' hi'
  | lower {lo hi lo' hi' : ℕ} (hlt : lo < hi) (h : Halved lo (lo + (hi - lo) / 2) lo' hi') :
  Halved lo hi lo' hi'

/-- A halved range lies in the range. -/
lemma Halved.bounds {lo' hi' : ℕ} (h : Halved lo hi lo' hi') : lo ≤ lo' ∧ hi' ≤ hi := by
  induction h with
  | whole lo hi => exact ⟨le_rfl, le_rfl⟩
  | upper hlt _ ih => omega
  | lower hlt _ ih => omega

/-- The probes are the roots below `p` of the subtrees to which the place `p` belongs. -/
lemma mem_probes_iff {m : ℕ} (hlo : lo ≤ p) (hhi : p ≤ hi) (hfuel : hi - lo ≤ fuel) :
    m ∈ probes p fuel lo hi ↔
    m < p ∧ ∃ lo' hi', Halved lo hi lo' hi' ∧ lo' < hi' ∧ lo' ≤ p ∧ p ≤ hi' ∧
    m = lo' + (hi' - lo') / 2 := by
  induction fuel generalizing lo hi with
  | zero =>
    refine ⟨fun h => absurd h (by simp [probes]), fun ⟨_, lo', hi', h, hlt, _⟩ => ?_⟩
    have := h.bounds
    omega
  | succ fuel ih =>
    rw [probes]
    constructor
    · intro h
      split_ifs at h with hlt hm
      · rcases mem_cons.mp h with rfl | h
        · exact ⟨hm, lo, hi, .whole lo hi, hlt, hlo, hhi, rfl⟩
        · obtain ⟨hmp, lo', hi', hhalf, hrest⟩ := (ih (by omega) hhi (by omega)).mp h
          exact ⟨hmp, lo', hi', .upper hlt hhalf, hrest⟩
      · obtain ⟨hmp, lo', hi', hhalf, hrest⟩ := (ih hlo (by omega) (by omega)).mp h
        exact ⟨hmp, lo', hi', .lower hlt hhalf, hrest⟩
      · simp at h
    · rintro ⟨hmp, lo', hi', hhalf, hlt', hlo', hhi', rfl⟩
      cases hhalf with
      | whole =>
        rw [if_pos hlt', if_pos hmp]
        exact mem_cons_self
      | upper hlt h =>
        have := h.bounds
        rw [if_pos hlt, if_pos (by omega)]
        exact mem_cons_of_mem _
          ((ih (by omega) hhi (by omega)).mpr ⟨hmp, lo', hi', h, hlt', hlo', hhi', rfl⟩)
      | lower hlt h =>
        have := h.bounds
        rw [if_pos hlt, if_neg (by omega)]
        exact (ih hlo (by omega) (by omega)).mpr ⟨hmp, lo', hi', h, hlt', hlo', hhi', rfl⟩

/-! ## Folding over the probes -/

/-- A fold whose steps all succeed succeeds. -/
lemma foldlM_ok (f : β → ℕ → β) (l : List ℕ) (b : β) :
    l.foldlM (fun b m => (.ok (f b m) : Except ε β)) b = .ok (l.foldl f b) := by
  induction l generalizing b with
  | nil => rfl
  | cons m l ih => exact ih (f b m)

end CabOS
