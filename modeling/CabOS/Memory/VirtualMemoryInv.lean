import CabOS.Library.MaximalRun
import CabOS.Memory.VirtualMemory

/-!
# Intact containers of kernel virtual memory

`VirtualMemoryEntryContainer.Inv` is the invariant of an intact container: active and free entries
divide the range and no two free entries touch.  An allocation by best fit keeps it (`Inv.place`).
A drop keeps it exactly when it finds both neighbours through the active tree or has none
(`MergesBoth`): at the ends of the range the neighbour is looked up at an end of the tree that is
ordered by length, and it is never taken out (`Inv.drop_eq`, `Inv.not_tiled_of_drop`).
-/

namespace CabOS.VirtualMemoryEntryContainer

open VirtualMemoryAllocation SortedTree VirtualMemoryEntry List.Sublist

variable {c : VirtualMemoryEntryContainer} {f g : VirtualMemoryEntry} {length : ℕ}
  {free' : SortedTree freeKey}

/-- The addresses in use. -/
def used (c : VirtualMemoryEntryContainer) : Set ℕ := {x | ∃ a ∈ c.active, x ∈ a.range}

/-- The active entries are disjoint ranges of `[low, high)` and the free entries, each listed once,
are exactly the maximal gaps between them. -/
structure Tiled (c : VirtualMemoryEntryContainer) : Prop where
  /-- Active entries lie in the range. -/
  inside : ∀ a ∈ c.active, c.low ≤ a.base ∧ a.base + a.length ≤ c.high
  /-- Active entries are disjoint. -/
  active : c.active.toList.Pairwise fun a b => Disjoint a.range b.range
  /-- Free entries are disjoint. -/
  free : c.free.toList.Pairwise fun f g => Disjoint f.range g.range
  /-- The free entries are the maximal gaps. -/
  gaps : ∀ b n, IsRun (Set.Ico c.low c.high \ c.used) b n ↔ ∃ f ∈ c.free, f.base = b ∧ f.length = n

/-- Active and free entries divide the range, and no two free entries touch. -/
structure Inv (c : VirtualMemoryEntryContainer) : Prop where
  high_lt : c.high < usizeBound
  active_in : ∀ a ∈ c.active, 0 < a.length ∧ c.low ≤ a.base ∧ a.base + a.length ≤ c.high
  free_in : ∀ f ∈ c.free, 0 < f.length ∧ c.low ≤ f.base ∧ f.base + f.length ≤ c.high
  active_sep : c.active.toList.Pairwise fun a b => a.base + a.length ≤ b.base
  free_sep : c.free.toList.Pairwise fun f g =>
    f.base + f.length < g.base ∨ g.base + g.length < f.base
  apart : ∀ f ∈ c.free, ∀ a ∈ c.active, f.base + f.length ≤ a.base ∨ a.base + a.length ≤ f.base
  cover : ∀ x, c.low ≤ x → x < c.high →
    (∃ a ∈ c.active, a.base ≤ x ∧ x < a.base + a.length) ∨ ∃ f ∈ c.free, f.base ≤ x ∧
    x < f.base + f.length

/-- A new container is intact. -/
lemma inv_new {low high : ℕ} (hlt : low < high) (hhigh : high < usizeBound) :
    (new low high).Inv := by
  have hlen : wsub high low = high - low := wsub_eq hhigh hlt.le
  have hmem : ∀ f, f ∈ (new low high).free ↔ f = ⟨low, high - low, 0⟩ := by
    intro f
    rw [new, mem_insert, hlen]
    simp
  refine ⟨hhigh, fun a ha => absurd ha (not_mem_empty a), ?_, List.Pairwise.nil,
    List.pairwise_singleton _ _, fun f _ a ha => absurd ha (not_mem_empty a), ?_⟩
  · intro f hf
    rw [(hmem f).mp hf]
    simp only [new]
    omega
  · intro x hlo hhi
    refine .inr ⟨⟨low, high - low, 0⟩, (hmem _).mpr rfl, hlo, ?_⟩
    simp only [new] at hhi ⊢
    omega

/-! ## Entries of an intact container -/

section

variable (h : c.Inv) {a b : VirtualMemoryEntry}

include h

/-- Active entries increase strictly. -/
lemma Inv.active_lt : c.active.toList.Pairwise fun a b => a.base < b.base := by
  refine (List.Pairwise.and_mem.mp h.active_sep).imp ?_
  rintro a b ⟨ha, -, hab⟩
  have := h.active_in a ha
  omega

lemma Inv.active_eq (ha : a ∈ c.active) (hb : b ∈ c.active) (heq : a.base = b.base) : a = b :=
  eq_of_key_eq h.active_lt ha hb heq

lemma Inv.active_le (ha : a ∈ c.active) (hb : b ∈ c.active) (hlt : a.base < b.base) :
    a.base + a.length ≤ b.base :=
  rel_of_pairwise h.active_sep ha hb hlt

/-- An active entry is found by its base. -/
lemma Inv.find_active (ha : a ∈ c.active) : c.active.find a.base = some a := by
  cases hfind : c.active.find a.base with
  | none => exact absurd rfl (find_eq_none.mp hfind a ha)
  | some b =>
    obtain ⟨hb, hab⟩ := find_eq_some hfind
    rw [h.active_eq hb ha hab]

lemma Inv.mem_active_erase : b ∈ c.active.erase a ↔ b ≠ a ∧ b ∈ c.active :=
  mem_erase (h.active_lt.imp fun hlt heq => hlt.ne (congrArg _ heq))

lemma Inv.free_nodup : c.free.toList.Nodup := by
  refine h.free_sep.imp ?_
  rintro f g hfg rfl
  omega

/-- Different free entries do not touch. -/
lemma Inv.free_apart (hf : f ∈ c.free) (hg : g ∈ c.free)
    (hne : f ≠ g) : f.base + f.length < g.base ∨ g.base + g.length < f.base := by
  have hsymm : Std.Symm fun f g : VirtualMemoryEntry =>
      f.base + f.length < g.base ∨ g.base + g.length < f.base := ⟨fun _ _ => Or.symm⟩
  exact h.free_sep.forall hf hg hne

/-- A gap between two borders, each an end of the range or of an active entry, is a free entry. -/
lemma Inv.gap_between (lo hi : ℕ) (hlt : lo < hi)
    (hlo : lo = c.low ∨ ∃ a ∈ c.active, a.base + a.length = lo)
    (hhi : hi = c.high ∨ ∃ a ∈ c.active, a.base = hi)
    (hempty : ∀ a ∈ c.active, a.base + a.length ≤ lo ∨ hi ≤ a.base) :
    ∃ f ∈ c.free, f.base = lo ∧ f.base + f.length = hi := by
  have hlow : c.low ≤ lo := by
    rcases hlo with rfl | ⟨a, ha, rfl⟩
    · exact le_rfl
    · have := h.active_in a ha
      omega
  have hhigh : hi ≤ c.high := by
    rcases hhi with rfl | ⟨a, ha, rfl⟩
    · exact le_rfl
    · have := h.active_in a ha
      omega
  -- the lowest address of the gap is free, and its entry starts there
  have hfree : ∀ x, lo ≤ x → x < hi → ∃ f ∈ c.free, f.base ≤ x ∧ x < f.base + f.length := by
    intro x h1 h2
    rcases h.cover x (by omega) (by omega) with ⟨a, ha, h3, h4⟩ | hf
    · rcases hempty a ha with h5 | h5 <;> omega
    · exact hf
  obtain ⟨f, hf, h1, h2⟩ := hfree lo le_rfl hlt
  have hfin := h.free_in f hf
  have hbase : f.base = lo := by
    rcases hlo with rfl | ⟨a, ha, rfl⟩
    · omega
    · have hfa := h.apart f hf a ha
      have := h.active_in a ha
      omega
  have hle : f.base + f.length ≤ hi := by
    rcases hhi with rfl | ⟨a, ha, rfl⟩
    · exact hfin.2.2
    · have hfa := h.apart f hf a ha
      have := h.active_in a ha
      omega
  refine ⟨f, hf, hbase, ?_⟩
  -- if it ended earlier, another free entry would touch it
  by_contra hne
  obtain ⟨g, hg, h3, h4⟩ := hfree (f.base + f.length) (by omega) (by omega)
  have hgf : f ≠ g := by
    rintro rfl
    omega
  have := h.free_apart hf hg hgf
  omega

/-- A free entry is found by its key, also after others were removed. -/
lemma Inv.find_free (hsub : free'.toList.Sublist c.free.toList) (hf : f ∈ free')
    {k : ℕ ×ₗ ℕ} (hk : f.freeKey = k) : free'.find k = some f := by
  cases hfind : free'.find k with
  | none => exact absurd hk (find_eq_none.mp hfind f hf)
  | some g =>
    obtain ⟨hg, hgk⟩ := find_eq_some hfind
    have hbase : g.base = f.base := congrArg (fun k => (ofLex k).2) (hgk.trans hk.symm)
    by_contra hne
    have := h.free_apart (hsub.subset hg) (hsub.subset hf) fun hgf => hne (congrArg some hgf)
    omega

/-- An address of the range is free if and only if it is not in use. -/
lemma Inv.mem_gap_iff (x : ℕ) : x ∈ Set.Ico c.low c.high \ c.used ↔
    ∃ f ∈ {f | f ∈ c.free}, f.base ≤ x ∧ x < f.base + f.length := by
  constructor
  · rintro ⟨⟨hlo, hhi⟩, hused⟩
    rcases h.cover x hlo hhi with ⟨a, ha, hx⟩ | hf
    · exact absurd ⟨a, ha, hx⟩ hused
    · exact hf
  · rintro ⟨f, hf, h1, h2⟩
    have hfin := h.free_in f hf
    refine ⟨⟨by omega, by omega⟩, ?_⟩
    rintro ⟨a, ha, h3, h4⟩
    have := h.apart f hf a ha
    omega

/-- In an intact container the free entries are the maximal gaps. -/
lemma Inv.tiled : c.Tiled := by
  refine ⟨fun a ha => (h.active_in a ha).2, ?_, ?_, ?_⟩
  · refine h.active_sep.imp fun {a b} hab => Set.disjoint_left.mpr ?_
    rintro x ⟨-, h1⟩ ⟨h2, -⟩
    omega
  · refine h.free_sep.imp fun {f g} hfg => Set.disjoint_left.mpr ?_
    rintro x ⟨h1, h2⟩ ⟨h3, h4⟩
    omega
  · refine isRun_iff h.mem_gap_iff (fun f hf => (h.free_in f hf).1) ?_ ?_
    · intro f hf g hg hlt
      have := h.free_apart hf hg (fun heq => hlt.ne (congrArg _ heq))
      omega
    · intro f hf g hg heq
      by_contra hne
      have := h.free_apart hf hg (fun hfg => hne (congrArg _ hfg))
      omega

end

/-! ## Allocations -/

/-- The container after `[f.base, f.base + length)` was allocated from the free entry `f`. -/
def place (c : VirtualMemoryEntryContainer) (f : VirtualMemoryEntry) (length : ℕ)
    (options : PagingOptions) : VirtualMemoryEntryContainer where
  low := c.low
  high := c.high
  active := c.active.insert ⟨f.base, length, options⟩
  free :=
    if f.length ≠ length then
      (c.free.erase f).insert ⟨f.base + length, f.length - length, f.options⟩
    else c.free.erase f

/-- The free entries after an allocation: the others and the rest of the one that was cut. -/
lemma Inv.mem_free_place (h : c.Inv) {options : PagingOptions}
    (hg : g ∈ (c.place f length options).free) :
    (g ∈ c.free ∧ g ≠ f) ∨ (g.base = f.base + length ∧ g.length = f.length - length ∧
      f.length ≠ length) := by
  simp only [place] at hg
  split_ifs at hg with hlen
  · rcases mem_insert.mp hg with rfl | hg
    · exact .inr ⟨rfl, rfl, hlen⟩
    · exact .inl ((mem_erase h.free_nodup).mp hg).symm
  · exact .inl ((mem_erase h.free_nodup).mp hg).symm

/-- An allocation keeps the container intact. -/
lemma Inv.place (h : c.Inv) (hf : f ∈ c.free)
    (hpos : 0 < length) (hle : length ≤ f.length) (options : PagingOptions) :
    (c.place f length options).Inv := by
  have hfin := h.free_in f hf
  refine ⟨h.high_lt, ?_, ?_, ?_, ?_, ?_, ?_⟩
  · intro a ha
    rcases mem_insert.mp ha with rfl | ha
    · simp only [VirtualMemoryEntryContainer.place]
      omega
    · exact h.active_in a ha
  · intro g hg
    rcases h.mem_free_place hg with ⟨hg, -⟩ | ⟨h1, h2, h3⟩
    · exact h.free_in g hg
    · simp only [VirtualMemoryEntryContainer.place]
      omega
  · refine pairwise_insert h.active_sep ?_ ?_
    · intro a ha hab
      have := h.apart f hf a ha
      simp only at hab ⊢
      omega
    · intro a ha hab
      have := h.apart f hf a ha
      simp only at hab ⊢
      omega
  · have hrest : (c.free.erase f).toList.Pairwise fun f g : VirtualMemoryEntry =>
        f.base + f.length < g.base ∨ g.base + g.length < f.base :=
      pairwise_erase h.free_sep f
    simp only [VirtualMemoryEntryContainer.place]
    split_ifs with hlen
    · -- the rest keeps the distance of the entry it was cut from
      have hnew : ∀ g ∈ c.free.erase f, g.base + g.length < f.base + length ∨
        f.base + f.length < g.base := by
        intro g hg
        obtain ⟨hne, hg⟩ := (mem_erase h.free_nodup).mp hg
        have := h.free_apart hg hf hne
        omega
      refine pairwise_insert hrest ?_ ?_
      · intro g hg _
        have := hnew g hg
        simp only
        omega
      · intro g hg _
        have := hnew g hg
        simp only
        omega
    · exact hrest
  · intro g hg a ha
    rcases mem_insert.mp ha with rfl | ha
    · simp only
      rcases h.mem_free_place hg with ⟨hg, hne⟩ | ⟨h1, h2, h3⟩
      · have := h.free_apart hg hf hne
        omega
      · omega
    · rcases h.mem_free_place hg with ⟨hg, hne⟩ | ⟨h1, h2, h3⟩
      · exact h.apart g hg a ha
      · have := h.apart f hf a ha
        omega
  · intro x hlo hhi
    rcases h.cover x hlo hhi with ⟨a, ha, hx⟩ | ⟨g, hg, h1, h2⟩
    · exact .inl ⟨a, mem_insert.mpr (.inr ha), hx⟩
    · by_cases hgf : g = f
      · subst hgf
        by_cases hx : x < g.base + length
        · exact .inl ⟨_, mem_insert.mpr (.inl rfl), h1, hx⟩
        · right
          have hlen : g.length ≠ length := by omega
          refine ⟨⟨g.base + length, g.length - length, g.options⟩, ?_,
            by simp only; omega, by simp only; omega⟩
          simp only [place, if_pos hlen]
          exact mem_insert.mpr (.inl rfl)
      · right
        have hrest := (mem_erase h.free_nodup).mpr ⟨hgf, hg⟩
        refine ⟨g, ?_, h1, h2⟩
        simp only [VirtualMemoryEntryContainer.place]
        split_ifs
        · exact mem_insert.mpr (.inr hrest)
        · exact hrest

/-- An allocation by best fit succeeds if some free entry is long enough. -/
lemma Inv.new_eq (h : c.Inv) (hpage : length % pageSize = 0)
    (hfits : ∃ f ∈ c.free, length ≤ f.length) (options : PagingOptions) :
    ∃ f ∈ c.free, length ≤ f.length ∧ VirtualMemoryAllocation.new none length options c =
        .ok (if hasFlags options PagingOptions.shadow then none else some ⟨f.base, length⟩)
          (c.place f length options) := by
  cases hlb : c.free.lowerBound (toLex (length, 0)) with
  | none =>
    obtain ⟨f, hf, hle⟩ := hfits
    have := lowerBound_eq_none.mp hlb f hf
    rw [freeKey, Prod.Lex.toLex_lt_toLex] at this
    simp only at this
    omega
  | some f =>
    obtain ⟨hf, hkey, -⟩ := lowerBound_eq_some hlb
    rw [freeKey, Prod.Lex.toLex_le_toLex] at hkey
    simp only at hkey
    have hle : length ≤ f.length := by omega
    have hfin := h.free_in f hf
    have hhigh := h.high_lt
    have h1 : wadd f.base length = f.base + length := wadd_eq (by omega)
    have h2 : wsub f.length length = f.length - length := wsub_eq (by omega) hle
    refine ⟨f, hf, hle, ?_⟩
    simp only [VirtualMemoryAllocation.new, hpage, takeBestFit, placeIn, hlb, exec_bind, exec_get,
      exec_set, exec_pure, exec_ite, exec_modify, exec_throw, ne_eq, not_true_eq_false, if_false,
      if_neg (not_lt.mpr hle), h1, h2]
    by_cases hlen : f.length = length
    · simp [hlen, VirtualMemoryEntryContainer.place]
      split_ifs <;> rfl
    · simp [hlen, VirtualMemoryEntryContainer.place]
      split_ifs <;> rfl

/-! ## Drops -/

section

variable {found : VirtualMemoryEntry} (h : c.Inv) (hfound : found ∈ c.active)

include h hfound

/-- Merging downwards finds the gap below if there is an active entry below or no gap.  The entry
may already be merged upwards. -/
lemma Inv.mergeBelow_eq {hi : ℕ}
    (hhi : found.base + found.length ≤ hi) (hhigh : hi ≤ c.high)
    (hsub : free'.toList.Sublist c.free.toList)
    (hkeep : ∀ f ∈ c.free, f.base < found.base → f ∈ free')
    (hbelow : (∃ b ∈ c.active, b.base < found.base) ∨ found.base = c.low) :
    ∃ lo free'', mergeBelow (c.active.erase found) free' { found with length := hi - found.base } =
        .ok (⟨lo, hi - lo, found.options⟩, free'') ∧
      lo ≤ found.base ∧ c.low ≤ lo ∧
      (∀ b ∈ c.active, b.base < found.base → b.base + b.length ≤ lo) ∧
      free''.toList.Sublist free'.toList ∧
      (∀ f ∈ free'', f.base < found.base → f.base + f.length < lo) ∧
      ∀ f ∈ free', f ∈ free'' ∨ (lo ≤ f.base ∧ f.base + f.length ≤ found.base) := by
  have hin := h.active_in found hfound
  have hlt := h.high_lt
  cases hbl : (c.active.erase found).below found.base with
  | none =>
    have hnone := below_eq_none.mp hbl
    have hno : ∀ b ∈ c.active, found.base ≤ b.base := by
      intro b hb
      by_cases hbf : b = found
      · rw [hbf]
      · exact hnone b (h.mem_active_erase.mpr ⟨hbf, hb⟩)
    have hlow : found.base = c.low := by
      rcases hbelow with ⟨b, hb, hltb⟩ | hlow
      · exact absurd (hno b hb) (not_le.mpr hltb)
      · exact hlow
    -- all free entries lie above, so nothing is merged
    have habove : ∀ f ∈ c.free, found.base < f.base := by
      intro f hf
      have := h.free_in f hf
      have := h.apart f hf found hfound
      omega
    refine ⟨found.base, free', ?_, le_rfl, by omega, ?_, refl _, ?_, fun f hf => .inl hf⟩
    · simp only [mergeBelow, hbl]
      cases hfront : free'.front with
      | none => rfl
      | some front =>
        have := habove front (hsub.subset (mem_of_front hfront))
        simp only [if_neg (not_lt.mpr this.le)]
    · exact fun b hb hltb => absurd (hno b hb) (not_le.mpr hltb)
    · exact fun f hf hltf => absurd (habove f (hsub.subset hf)) (not_lt.mpr hltf.le)
  | some prev =>
    obtain ⟨hprev', hltp, hmax⟩ := below_eq_some hbl
    obtain ⟨hne, hprev⟩ := h.mem_active_erase.mp hprev'
    have hprevle := h.active_le hprev hfound hltp
    have hprevin := h.active_in prev hprev
    have hpstop : wadd prev.base prev.length = prev.base + prev.length := wadd_eq (by omega)
    have hall : ∀ b ∈ c.active, b.base < found.base →
      b.base + b.length ≤ prev.base + prev.length := by
      intro b hb hltb
      have hbf : b ≠ found := by
        rintro rfl
        exact lt_irrefl _ hltb
      rcases (hmax b (h.mem_active_erase.mpr ⟨hbf, hb⟩) hltb).lt_or_eq with hlt' | heq
      · have := h.active_le hb hprev hlt'
        omega
      · rw [h.active_eq hb hprev heq]
    by_cases hadj : prev.base + prev.length = found.base
    · refine ⟨found.base, free', ?_, le_rfl, by omega, ?_, refl _, ?_, fun f hf => .inl hf⟩
      · simp [mergeBelow, hbl, hpstop, hadj]
      · exact fun b hb hltb => hadj ▸ hall b hb hltb
      · intro f hf hltf
        have hf := hsub.subset hf
        have := h.apart f hf found hfound
        have := h.apart f hf prev hprev
        have := h.free_in f hf
        omega
    · -- the gap down to the previous active entry is a free entry
      have hempty : ∀ b ∈ c.active, b.base + b.length ≤ prev.base + prev.length ∨
        found.base ≤ b.base := by
        intro b hb
        rcases lt_or_ge b.base found.base with hb1 | hb1
        · exact .inl (hall b hb hb1)
        · exact .inr hb1
      obtain ⟨f, hf, hfbase, hfend⟩ := h.gap_between (prev.base + prev.length) found.base
        (by omega) (.inr ⟨prev, hprev, rfl⟩) (.inr ⟨found, hfound, rfl⟩) hempty
      have hf' : f ∈ free' := hkeep f hf (by omega)
      have h1 : wsub (wsub found.base prev.base) prev.length = f.length := by
        rw [wsub_eq (by omega) hltp.le, wsub_eq (by omega) (by omega)]
        omega
      have hfind : free'.find (toLex (f.length, prev.base + prev.length)) = some f :=
        h.find_free hsub hf' (by rw [freeKey, hfbase])
      have hlen : wadd (hi - found.base) f.length = hi - (prev.base + prev.length) := by
        rw [wadd_eq (by omega)]
        omega
      refine ⟨prev.base + prev.length, free'.erase f, ?_, hprevle,
        by omega, hall, List.erase_sublist, ?_, ?_⟩
      · simp [mergeBelow, hbl, hpstop, if_neg (not_lt.mpr hprevle), hadj, h1, hfind, hlen, hfbase]
      · intro e he hlte
        obtain ⟨hef, he⟩ := (mem_erase (h.free_nodup.sublist hsub)).mp he
        have he := hsub.subset he
        have := h.apart e he found hfound
        have := h.apart e he prev hprev
        have := h.free_apart he hf hef
        have := h.free_in e he
        omega
      · intro e he
        by_cases hef : e = f
        · rw [hef]
          exact .inr ⟨by omega, by omega⟩
        · exact .inl (mem_erase_of_ne he hef)

section

variable (habove : (∃ b ∈ c.active, found.base < b.base) ∨ found.base + found.length = c.high)
include habove

/-- Merging upwards finds the gap above if there is an active entry above or no gap. -/
lemma Inv.mergeAbove_eq :
    ∃ hi free', mergeAbove (c.active.erase found) c.free found =
        .ok ({ found with length := hi - found.base }, free') ∧
      found.base + found.length ≤ hi ∧ hi ≤ c.high ∧
      (∀ b ∈ c.active, found.base < b.base → hi ≤ b.base) ∧
      free'.toList.Sublist c.free.toList ∧
      (∀ f ∈ free', found.base < f.base → hi < f.base) ∧
      ∀ f ∈ c.free, f ∈ free' ∨ (found.base + found.length ≤ f.base ∧ f.base + f.length ≤ hi) := by
  have hin := h.active_in found hfound
  have hhigh := h.high_lt
  have hstop : wadd found.base found.length = found.base + found.length := wadd_eq (by omega)
  have hself : { found with length := found.base + found.length - found.base } = found := by
    simp
  cases hlb : (c.active.erase found).lowerBound found.base with
  | none =>
    have hnone := lowerBound_eq_none.mp hlb
    have hno : ∀ b ∈ c.active, b.base ≤ found.base := by
      intro b hb
      by_cases hbf : b = found
      · rw [hbf]
      · exact (hnone b (h.mem_active_erase.mpr ⟨hbf, hb⟩)).le
    have hend : found.base + found.length = c.high := by
      rcases habove with ⟨b, hb, hlt⟩ | hend
      · exact absurd (hno b hb) (not_le.mpr hlt)
      · exact hend
    -- all free entries lie below, so nothing is merged
    have hbelow : ∀ f ∈ c.free, f.base < found.base := by
      intro f hf
      have := h.free_in f hf
      have := h.apart f hf found hfound
      omega
    refine ⟨found.base + found.length, c.free, ?_, le_rfl,
      by omega, ?_, refl _, ?_, fun f hf => .inl hf⟩
    · rw [hself]
      simp only [mergeAbove, hlb]
      cases hback : c.free.back with
      | none => rfl
      | some back =>
        have := hbelow back (mem_of_back hback)
        simp [if_neg (not_lt.mpr this.le)]
    · exact fun b hb hlt => absurd (hno b hb) (not_le.mpr hlt)
    · exact fun f hf hlt => absurd (hbelow f hf) (not_lt.mpr hlt.le)
  | some next =>
    obtain ⟨hnext', hle, hmin⟩ := lowerBound_eq_some hlb
    obtain ⟨hne, hnext⟩ := h.mem_active_erase.mp hnext'
    have hlt : found.base < next.base :=
      lt_of_le_of_ne hle fun heq => hne (h.active_eq hnext hfound heq.symm)
    have hnextle := h.active_le hfound hnext hlt
    have hnextin := h.active_in next hnext
    have hall : ∀ b ∈ c.active, found.base < b.base → next.base ≤ b.base := by
      intro b hb hltb
      refine hmin b (h.mem_active_erase.mpr ⟨?_, hb⟩) hltb.le
      rintro rfl
      exact lt_irrefl _ hltb
    by_cases hadj : next.base = found.base + found.length
    · refine ⟨found.base + found.length, c.free, ?_, le_rfl, by omega, ?_, refl _, ?_,
        fun f hf => .inl hf⟩
      · rw [hself]
        simp [mergeAbove, hlb, hstop, hadj]
      · exact fun b hb hltb => hadj ▸ hall b hb hltb
      · intro f hf hltf
        have := h.apart f hf found hfound
        have := h.apart f hf next hnext
        have := h.free_in f hf
        omega
    · -- the gap up to the next active entry is a free entry
      have hempty : ∀ b ∈ c.active, b.base + b.length ≤ found.base + found.length ∨
          next.base ≤ b.base := by
        intro b hb
        rcases lt_trichotomy b.base found.base with hb1 | hb1 | hb1
        · have := h.active_le hb hfound hb1
          omega
        · rw [h.active_eq hb hfound hb1]
          exact .inl le_rfl
        · exact .inr (hall b hb hb1)
      obtain ⟨f, hf, hfbase, hfend⟩ := h.gap_between (found.base + found.length) next.base
        (by omega) (.inr ⟨found, hfound, rfl⟩) (.inr ⟨next, hnext, rfl⟩) hempty
      have h1 : wsub (wsub next.base found.base) found.length = f.length := by
        rw [wsub_eq (by omega) hlt.le, wsub_eq (by omega) (by omega)]
        omega
      have hfind : c.free.find (toLex (f.length, found.base + found.length)) = some f :=
        h.find_free (refl _) hf (by rw [freeKey, hfbase])
      have hlen : wadd found.length f.length = next.base - found.base := by
        rw [wadd_eq (by omega)]
        omega
      refine ⟨next.base, c.free.erase f, ?_, hnextle, by omega, hall, List.erase_sublist, ?_, ?_⟩
      · simp [mergeAbove, hlb, hstop, hadj, h1, hfind, hlen]
      · intro e he hlte
        obtain ⟨hef, he⟩ := (mem_erase h.free_nodup).mp he
        have := h.apart e he found hfound
        have := h.apart e he next hnext
        have := h.free_apart he hf hef
        have := h.free_in e he
        omega
      · intro e he
        by_cases hef : e = f
        · rw [hef]
          exact .inr ⟨by omega, by omega⟩
        · exact .inl (mem_erase_of_ne he hef)

/-- A drop that finds both neighbours keeps the container intact. -/
lemma Inv.drop_eq (hbelow : (∃ b ∈ c.active, b.base < found.base) ∨ found.base = c.low)
    (length : ℕ) :
    ∃ free', drop ⟨found.base, length⟩ c =
        .ok () { c with active := c.active.erase found, free := free' } ∧
      Inv { c with active := c.active.erase found, free := free' } := by
  have hin := h.active_in found hfound
  obtain ⟨hi, free₁, e₁, hhi, hhigh, hactive₁, hsub₁, hfree₁, hlost₁⟩ :=
    h.mergeAbove_eq hfound habove
  have hkeep : ∀ f ∈ c.free, f.base < found.base → f ∈ free₁ := by
    intro f hf hlt
    rcases hlost₁ f hf with hf | hf
    · exact hf
    · omega
  obtain ⟨lo, free₂, e₂, hlo, hlow, hactive₂, hsub₂, hfree₂, hlost₂⟩ :=
    h.mergeBelow_eq hfound hhi hhigh hsub₁ hkeep hbelow
  have hsub : free₂.toList.Sublist c.free.toList := hsub₂.trans hsub₁
  -- the merged entry reaches up to the active entries around it, and no free entry touches it
  have hactive : ∀ b ∈ c.active.erase found, b.base + b.length ≤ lo ∨ hi ≤ b.base := by
    intro b hb
    obtain ⟨hne, hb⟩ := h.mem_active_erase.mp hb
    rcases lt_trichotomy b.base found.base with hlt | heq | hgt
    · exact .inl (hactive₂ b hb hlt)
    · exact absurd (h.active_eq hb hfound heq) hne
    · exact .inr (hactive₁ b hb hgt)
  have hfree : ∀ f ∈ free₂, f.base + f.length < lo ∨ hi < f.base := by
    intro f hf
    have := h.free_in f (hsub.subset hf)
    have := h.apart f (hsub.subset hf) found hfound
    rcases lt_or_ge f.base found.base with hlt | hge
    · exact .inl (hfree₂ f hf hlt)
    · exact .inr (hfree₁ f (hsub₂.subset hf) (by omega))
  refine ⟨free₂.insert ⟨lo, hi - lo, found.options⟩, ?_, ⟨h.high_lt, ?_, ?_, ?_, ?_, ?_, ?_⟩⟩
  · simp [drop, h.find_active hfound, e₁, e₂]
  · exact fun b hb => h.active_in b (h.mem_active_erase.mp hb).2
  · intro f hf
    rcases mem_insert.mp hf with rfl | hf
    · simp only
      omega
    · exact h.free_in f (hsub.subset hf)
  · exact pairwise_erase h.active_sep found
  · refine pairwise_insert (h.free_sep.sublist hsub) ?_ ?_
    · intro f hf _
      have := hfree f hf
      simp only
      omega
    · intro f hf _
      have := hfree f hf
      simp only
      omega
  · intro f hf b hb
    rcases mem_insert.mp hf with rfl | hf
    · have := hactive b hb
      simp only
      omega
    · exact h.apart f (hsub.subset hf) b (h.mem_active_erase.mp hb).2
  · intro x hxlo hxhi
    -- an address of the dropped entry or of a merged one lies in the new free entry
    have hnew : lo ≤ x → x < hi → (∃ a ∈ c.active.erase found, a.base ≤ x ∧ x < a.base + a.length) ∨
        ∃ f ∈ free₂.insert ⟨lo, hi - lo, found.options⟩, f.base ≤ x ∧ x < f.base + f.length := by
      intro h1 h2
      exact .inr ⟨_, mem_insert.mpr (.inl rfl), h1, by simp only; omega⟩
    rcases h.cover x hxlo hxhi with ⟨a, ha, h1, h2⟩ | ⟨f, hf, h1, h2⟩
    · by_cases haf : a = found
      · subst haf
        exact hnew (by omega) (by omega)
      · exact .inl ⟨a, h.mem_active_erase.mpr ⟨haf, ha⟩, h1, h2⟩
    · rcases hlost₁ f hf with hf₁ | hf₁
      · rcases hlost₂ f hf₁ with hf₂ | hf₂
        · exact .inr ⟨f, mem_insert.mpr (.inr hf₂), h1, h2⟩
        · exact hnew (by omega) (by omega)
      · exact hnew (by omega) (by omega)

end

end

/-! ## Drops at the ends of the range -/

/-- The drop of `a` finds each neighbour through an active entry, or has no neighbour on that side.
-/
def MergesBoth (c : VirtualMemoryEntryContainer) (a : VirtualMemoryAllocation) : Prop :=
  ((∃ b ∈ c.active, a.base < b.base) ∨ a.base + a.length = c.high) ∧
    ((∃ b ∈ c.active, b.base < a.base) ∨ a.base = c.low)

section

variable {active : SortedTree VirtualMemoryEntry.base}
  {free free' : SortedTree freeKey} {found e : VirtualMemoryEntry} {c' :
    VirtualMemoryEntryContainer}

/-- Merging upwards keeps the base and removes at most the entry that starts where the dropped one
ends, and that only below an active entry. -/
lemma mergeAbove_keeps (hm : mergeAbove active free found = .ok (e, free')) :
    e.base = found.base ∧ ∀ f ∈ free,
      (f.base = wadd found.base found.length → active.lowerBound found.base = none) →
      f ∈ free' := by
  cases hlb : active.lowerBound found.base with
  | none =>
    simp only [mergeAbove, hlb] at hm
    split at hm
    · split_ifs at hm
      · cases hm
        exact ⟨rfl, fun f hf _ => hf⟩
      · cases hm
        exact ⟨rfl, fun f hf _ => hf⟩
    · cases hm
      exact ⟨rfl, fun f hf _ => hf⟩
  | some next =>
    simp only [mergeAbove, hlb] at hm
    split_ifs at hm
    · split at hm
      · rename_i above hfind
        cases hm
        refine ⟨rfl, fun f hf hne => mem_erase_of_ne hf ?_⟩
        rintro rfl
        have hbase : f.base = wadd found.base found.length :=
          congrArg (fun k => (ofLex k).2) (find_eq_some hfind).2
        cases hne hbase
      · cases hm
    · cases hm
      exact ⟨rfl, fun f hf _ => hf⟩

/-- Merging downwards removes at most an entry below the dropped one, and that only above an active
entry. -/
lemma mergeBelow_keeps (hm : mergeBelow active free found = .ok (e, free'))
    (hf : f ∈ free) (habove : f.base < found.base → active.below found.base = none) :
    f ∈ free' := by
  cases hbl : active.below found.base with
  | none =>
    simp only [mergeBelow, hbl] at hm
    split at hm
    · split_ifs at hm
      · cases hm
        exact hf
      · cases hm
        exact hf
    · cases hm
      exact hf
  | some prev =>
    simp only [mergeBelow, hbl] at hm
    split_ifs at hm with h1 h2
    · split at hm
      · rename_i below hfind
        cases hm
        refine mem_erase_of_ne hf ?_
        rintro rfl
        have hbase : f.base = wadd prev.base prev.length :=
          congrArg (fun k => (ofLex k).2) (find_eq_some hfind).2
        have := habove (by omega)
        rw [hbl] at this
        cases this
      · cases hm
    · cases hm
      exact hf

/-- What a drop that returns leaves behind: the entry is no longer active, and every free entry
stays that does not touch it, or touches it where no active entry lies beyond. -/
lemma Inv.drop_keeps (h : c.Inv) (hfound : found ∈ c.active)
    (hd : drop ⟨found.base, length⟩ c = .ok () c') :
    c'.low = c.low ∧ c'.high = c.high ∧ c'.active = c.active.erase found ∧ ∀ f ∈ c.free,
        (f.base = found.base + found.length → ∀ b ∈ c.active, b.base ≤ found.base) →
        (f.base < found.base → ∀ b ∈ c.active, found.base ≤ b.base) → f ∈ c'.free := by
  have hin := h.active_in found hfound
  have hhigh := h.high_lt
  have hstop : wadd found.base found.length = found.base + found.length := wadd_eq (by omega)
  simp only [drop, exec_bind, exec_get, h.find_active hfound] at hd
  cases h₁ : mergeAbove (c.active.erase found) c.free found with
  | error m =>
    simp only [h₁, exec_throw] at hd
    cases hd
  | ok r₁ =>
    obtain ⟨e₁, free₁⟩ := r₁
    cases h₂ : mergeBelow (c.active.erase found) free₁ e₁ with
    | error m =>
      simp only [h₁, h₂, exec_throw] at hd
      cases hd
    | ok r₂ =>
      obtain ⟨e₂, free₂⟩ := r₂
      simp only [h₁, h₂, exec_set] at hd
      cases hd
      refine ⟨rfl, rfl, rfl, fun f hf htop hbot => mem_insert.mpr (.inr ?_)⟩
      obtain ⟨hbase, hkeep⟩ := mergeAbove_keeps h₁
      refine mergeBelow_keeps h₂ (hkeep f hf ?_) ?_
      · intro hfbase
        refine lowerBound_eq_none.mpr fun b hb => ?_
        obtain ⟨hne, hb⟩ := h.mem_active_erase.mp hb
        exact lt_of_le_of_ne (htop (hfbase.trans hstop) b hb) fun heq =>
          hne (h.active_eq hb hfound heq)
      · rw [hbase]
        intro hlt
        exact below_eq_none.mpr fun b hb => hbot hlt b (h.mem_active_erase.mp hb).2

/-- A drop that does not find both neighbours does not leave the free entries the maximal gaps. -/
lemma Inv.not_tiled_of_drop (h : c.Inv) (hfound : found ∈ c.active)
    (hno : ¬ c.MergesBoth ⟨found.base, found.length⟩)
    (hd : drop ⟨found.base, found.length⟩ c = .ok () c') : ¬ c'.Tiled := by
  obtain ⟨hlow, hhigh, hactive, hkeep⟩ := h.drop_keeps hfound hd
  have hin := h.active_in found hfound
  intro ht
  -- an address of the dropped entry is now in a gap
  have hgap : ∀ x, found.base ≤ x → x < found.base + found.length →
    x ∈ Set.Ico c'.low c'.high \ c'.used := by
    intro x h1 h2
    rw [hlow, hhigh]
    refine ⟨⟨by omega, by omega⟩, ?_⟩
    rintro ⟨b, hb, h3, h4⟩
    rw [hactive] at hb
    obtain ⟨hne, hb⟩ := h.mem_active_erase.mp hb
    rcases lt_trichotomy b.base found.base with hlt | heq | hgt
    · have := h.active_le hb hfound hlt
      omega
    · exact hne (h.active_eq hb hfound heq)
    · have := h.active_le hfound hb hgt
      omega
  rw [MergesBoth, not_and_or] at hno
  rcases hno with hno | hno
  · push Not at hno
    obtain ⟨htop, hne⟩ := hno
    -- the topmost gap stays an entry of its own, although the address below it is free
    obtain ⟨f, hf, hfbase, hfend⟩ := h.gap_between (found.base + found.length) c.high
      (by simp only at hne; omega) (.inr ⟨found, hfound, rfl⟩) (.inl rfl) (by
        intro b hb
        rcases (htop b hb).lt_or_eq with hlt | heq
        · have := h.active_le hb hfound hlt
          omega
        · rw [h.active_eq hb hfound heq]
          exact .inl le_rfl)
    have hf' := hkeep f hf (fun _ => htop) (fun hlt => absurd hlt (by omega))
    have hrun := (ht.gaps f.base f.length).mpr ⟨f, hf', rfl, rfl⟩
    exact hrun.2.2.2 (found.base + found.length - 1) (by omega) (hgap _ (by omega) (by omega))
  · push Not at hno
    obtain ⟨hbot, hne⟩ := hno
    -- the lowest gap stays an entry of its own, although the address above it is free
    obtain ⟨f, hf, hfbase, hfend⟩ := h.gap_between c.low found.base
      (by simp only at hne; omega) (.inl rfl) (.inr ⟨found, hfound, rfl⟩)
      (fun b hb => .inr (hbot b hb))
    have hf' := hkeep f hf (fun heq => absurd heq (by omega)) (fun _ => hbot)
    have hrun := (ht.gaps f.base f.length).mpr ⟨f, hf', rfl, rfl⟩
    refine hrun.2.2.1 ?_
    rw [hfend]
    exact hgap _ le_rfl (by omega)

end

end CabOS.VirtualMemoryEntryContainer
