import CabOS.Memory.Heap.SlabPages

/-!
# The lists of slab pages

The heap keeps two lists of slab pages for every class, one of the pages with free objects and one
of the full pages.  `SlabLists mem heads X` says that the list with the key `k` runs through the
pages `X k`; a key is the class with a flag, which is set for the full pages.  A list depends on the
links of its pages only, so that the lists do not notice changes of the rest (`SlabLists.congr`).
-/

namespace CabOS

open SlabPageHeader Function List

variable {mem mem' : Memory} {p q fuel head cur prev : ℕ} {xs ys : List ℕ}

/-- The link of a page to the next one of its list. -/
def nextPage (mem : Memory) (p : ℕ) : ℕ := (read mem p).next

lemma nextPage_congr (h : ∀ a, p + 24 ≤ a → a < p + 32 → mem' a = mem a) :
    nextPage mem' p = nextPage mem p :=
  next_congr h

/-- What unlinking the page `p` returns; the page before it is `q`, or zero if there is none. -/
def unlinkResult (mem : Memory) (head p q : ℕ) : Memory × ℕ :=
  if q = 0 then (mem, nextPage mem p) else (setNext mem q (nextPage mem p), head)

/-- The loop of `unlinkSlabPage` finds the page if it may make enough rounds. -/
lemma unlinkSlabPage_eq (hchain : Chain (nextPage mem) 0 cur (xs ++ p :: ys)) (hp : p ∉ xs) :
    unlinkSlabPage p fuel mem head cur prev =
      if xs.length < fuel then some (unlinkResult mem head p (xs.getLastD prev)) else none := by
  induction xs generalizing fuel cur prev with
  | nil =>
    obtain ⟨rfl, hne, -⟩ := hchain
    cases fuel with
    | zero => rfl
    | succ fuel =>
      rw [unlinkSlabPage, if_neg hne, if_pos rfl, getLastD_nil]
      change (if prev = 0 then some (mem, nextPage mem cur)
        else some (setNext mem prev (nextPage mem cur), head)) = if 0 < fuel + 1 then _ else none
      rw [if_pos (Nat.succ_pos fuel), unlinkResult]
      exact (apply_ite some _ _ _).symm
  | cons x xs ih =>
    obtain ⟨rfl, hne, hrest⟩ := hchain
    rw [mem_cons, not_or] at hp
    cases fuel with
    | zero => rfl
    | succ fuel =>
      rw [unlinkSlabPage, if_neg hne, if_neg (Ne.symm hp.1), getLastD_cons, length_cons]
      simp only [Nat.add_lt_add_iff_right]
      exact ih hrest hp.2

/-- The lists run through the pages `X`. -/
structure SlabLists (mem : Memory) (heads : Bool × ℕ → ℕ) (X : Bool × ℕ → List ℕ) : Prop where
  chain : ∀ k : Bool × ℕ, k.2 < numClasses → Chain (nextPage mem) 0 (heads k) (X k)
  class_lt : ∀ k : Bool × ℕ, ∀ p ∈ X k, k.2 < numClasses
  nodup : ∀ k, (X k).Nodup
  /-- A page is on one list only. -/
  apart : ∀ k k' p, p ∈ X k → p ∈ X k' → k = k'
  aligned : ∀ k, ∀ p ∈ X k, 4096 ∣ p

namespace SlabLists

variable {heads : Bool × ℕ → ℕ} {X : Bool × ℕ → List ℕ} {k : Bool × ℕ} {k' : Bool × ℕ}

lemma mem_push : q ∈ update X k (p :: X k) k' ↔ (k' = k ∧ q = p) ∨ q ∈ X k' := by
  by_cases hk : k' = k
  · subst hk
    simp
  · simp [hk]

section

variable (h : SlabLists mem heads X)
include h

/-- Only the links of the pages matter. -/
lemma congr (hmem : ∀ k, ∀ p ∈ X k, ∀ a, p + 24 ≤ a → a < p + 32 → mem' a = mem a) :
    SlabLists mem' heads X :=
  ⟨fun k hk => (h.chain k hk).congr fun p hp => nextPage_congr (hmem k p hp), h.class_lt, h.nodup,
    h.apart, h.aligned⟩

/-- The pages after one was taken off its list. -/
lemma mem_unlink (hX : X k = xs ++ p :: ys) : q ∈ update X k (xs ++ ys) k' ↔ q ∈ X k' ∧ q ≠ p := by
  have hnodup := h.nodup k
  rw [hX] at hnodup
  have hp : p ∉ xs ++ ys := (nodup_middle.mp hnodup).notMem
  by_cases hk : k' = k
  · subst hk
    rw [update_self, hX, perm_middle.mem_iff, mem_cons]
    constructor
    · exact fun hq => ⟨.inr hq, fun heq => hp (heq ▸ hq)⟩
    · rintro ⟨hq, hne⟩
      exact hq.resolve_left hne
  · rw [update_of_ne hk]
    refine ⟨fun hq => ⟨hq, fun heq => hk ?_⟩, And.left⟩
    exact h.apart k' k p (heq ▸ hq) (by simp [hX])

lemma mem_iff (hp : p ∈ X k) : p ∈ X k' ↔ k' = k :=
  ⟨fun hp' => h.apart k' k p hp' hp, fun heq => heq ▸ hp⟩

lemma ne_zero (hp : p ∈ X k) : p ≠ 0 :=
  (h.chain k (h.class_lt k p hp)).ne_nil hp

end

/-- A change of the link of one page does not matter for the others. -/
lemma nextPage_setNext_of_ne (hp : 4096 ∣ p) (hq : 4096 ∣ q) (hne : p ≠ q) {v : ℕ} :
    nextPage (setNext mem q v) p = nextPage mem p := by
  have := pages_apart hp hq hne
  exact nextPage_congr fun a ha ha' => setNext_of_not_mem (by omega)

lemma nextPage_setNext_self : nextPage (setNext mem q (nextPage mem p)) q = nextPage mem p := by
  have hlt : nextPage mem p < 2 ^ 64 := next_lt
  rw [nextPage, read_setNext hlt]

section

variable (h : SlabLists mem heads X)
include h

/-- One list is replaced by another. -/
lemma relist (hnext : ∀ k', k' ≠ k → ∀ p ∈ X k', nextPage mem' p = nextPage mem p)
    (hchain : k.2 < numClasses → Chain (nextPage mem') 0 head xs)
    (hclass : xs ≠ [] → k.2 < numClasses)
    (hnodup : xs.Nodup) (hapart : ∀ p ∈ xs, p ∈ X k ∨ ∀ k', p ∉ X k')
    (haligned : ∀ p ∈ xs, 4096 ∣ p) :
    SlabLists mem' (update heads k head) (update X k xs) := by
  have hmine : ∀ k', k' ≠ k → ∀ p ∈ xs, p ∉ X k' := by
    intro k' hk' p hp hmem
    rcases hapart p hp with hin | hout
    · exact hk' (h.apart k' k p hmem hin)
    · exact hout k' hmem
  refine ⟨fun k' hk' => ?_, fun k' p hp => ?_, fun k' => ?_, fun k₁ k₂ p h₁ h₂ => ?_,
    fun k' p hp => ?_⟩
  · by_cases heq : k' = k
    · subst heq
      rw [update_self, update_self]
      exact hchain hk'
    · rw [update_of_ne heq, update_of_ne heq]
      exact (h.chain k' hk').congr (hnext k' heq)
  · by_cases heq : k' = k
    · subst heq
      rw [update_self] at hp
      exact hclass (ne_nil_of_mem hp)
    · rw [update_of_ne heq] at hp
      exact h.class_lt k' p hp
  · by_cases heq : k' = k
    · subst heq
      rw [update_self]
      exact hnodup
    · rw [update_of_ne heq]
      exact h.nodup k'
  · by_cases heq₁ : k₁ = k <;> by_cases heq₂ : k₂ = k
    · rw [heq₁, heq₂]
    · subst heq₁
      rw [update_self] at h₁
      rw [update_of_ne heq₂] at h₂
      exact absurd h₂ (hmine k₂ heq₂ p h₁)
    · subst heq₂
      rw [update_self] at h₂
      rw [update_of_ne heq₁] at h₁
      exact absurd h₁ (hmine k₁ heq₁ p h₂)
    · rw [update_of_ne heq₁] at h₁
      rw [update_of_ne heq₂] at h₂
      exact h.apart k₁ k₂ p h₁ h₂
  · by_cases heq : k' = k
    · subst heq
      rw [update_self] at hp
      exact haligned p hp
    · rw [update_of_ne heq] at hp
      exact h.aligned k' p hp

/-- A page that is on no list is put in front of one. -/
lemma push (hk : k.2 < numClasses) (hp : ∀ k', p ∉ X k') (hal : 4096 ∣ p) (hne : p ≠ 0)
    (hlink : nextPage mem' p = heads k)
    (hother : ∀ k', ∀ q ∈ X k', nextPage mem' q = nextPage mem q) :
    SlabLists mem' (update heads k p) (update X k (p :: X k)) := by
  refine h.relist (fun k' _ => hother k') (fun _ => ⟨rfl, hne, ?_⟩) (fun _ => hk)
    (nodup_cons.mpr ⟨hp k, h.nodup k⟩) ?_ ?_
  · rw [hlink]
    exact (h.chain k hk).congr (hother k)
  · intro q hq
    rcases mem_cons.mp hq with rfl | hq
    · exact .inr hp
    · exact .inl hq
  · intro q hq
    rcases mem_cons.mp hq with rfl | hq
    · exact hal
    · exact h.aligned k q hq

/-- The link of a page that is on no list is set to the head of one. -/
lemma push_setNext (hk : k.2 < numClasses) (hp : ∀ k', p ∉ X k')
    (hal : 4096 ∣ p) (hne : p ≠ 0) (hhead : heads k < 2 ^ 64) :
    SlabLists (setNext mem p (heads k)) (update heads k p) (update X k (p :: X k)) := by
  refine h.push hk hp hal hne ?_ fun k' q hq => ?_
  · rw [nextPage, read_setNext hhead]
  · exact nextPage_setNext_of_ne (h.aligned k' q hq) hal fun heq => hp k' (heq ▸ hq)

/-- The first page is taken off a list. -/
lemma pop (hX : X k = p :: ys) : SlabLists mem (update heads k (nextPage mem p))
    (update X k ys) := by
  have hchain := fun hk => h.chain k hk
  have hnodup := h.nodup k
  rw [hX] at hchain hnodup
  refine h.relist (fun _ _ _ _ => rfl) (fun hk => (hchain hk).2.2) ?_ hnodup.of_cons ?_ ?_
  · exact fun _ => h.class_lt k p (by simp [hX])
  · exact fun q hq => .inl (by simp [hX, hq])
  · exact fun q hq => h.aligned k q (by simp [hX, hq])

/-- A page is unlinked from its list; only links of pages of this list are changed. -/
lemma unlink (hX : X k = xs ++ p :: ys) : (∀ fuel, unlinkSlabPage p fuel mem (heads k) (heads k) 0 =
      if xs.length < fuel then some (unlinkResult mem (heads k) p (xs.getLastD 0)) else none) ∧
    SlabLists (unlinkResult mem (heads k) p (xs.getLastD 0)).1
      (update heads k (unlinkResult mem (heads k) p (xs.getLastD 0)).2)
      (update X k (xs ++ ys)) ∧
    ∀ a, (∀ q ∈ xs, a < q + 24 ∨ q + 32 ≤ a) →
    (unlinkResult mem (heads k) p (xs.getLastD 0)).1 a = mem a := by
  have hk : k.2 < numClasses := h.class_lt k p (by simp [hX])
  have hchain := h.chain k hk
  have hnodup := h.nodup k
  have hmem : ∀ q ∈ xs ++ ys, q ∈ X k := by
    intro q hq
    rw [hX]
    exact perm_middle.mem_iff.mpr (mem_cons_of_mem _ hq)
  rw [hX] at hchain hnodup
  have hmiddle := nodup_middle.mp hnodup
  have hpxs : p ∉ xs := fun hmem => hmiddle.notMem (mem_append_left _ hmem)
  refine ⟨fun fuel => unlinkSlabPage_eq hchain hpxs, ?_⟩
  rcases eq_nil_or_concat xs with rfl | ⟨xs, q, rfl⟩
  · -- the page is the first of its list
    exact ⟨h.pop hX, fun _ _ => rfl⟩
  · rw [concat_eq_append] at *
    rw [append_assoc, singleton_append] at hchain hnodup
    have hq : q ∈ X k := hmem q (by simp)
    have hlast : (xs ++ [q]).getLastD 0 = q := by simp
    have hresult : unlinkResult mem (heads k) p q = (setNext mem q (nextPage mem p), heads k) :=
      if_neg (h.ne_zero hq)
    rw [hlast, hresult]
    refine ⟨h.relist (fun k' hk' r hr => ?_) (fun _ => ?_) (fun _ => hk) hmiddle.of_cons
      (fun r hr => .inl (hmem r hr)) (fun r hr => h.aligned k r (hmem r hr)), fun a ha => ?_⟩
    · refine nextPage_setNext_of_ne (h.aligned k' r hr) (h.aligned k q hq) ?_
      rintro rfl
      exact hk' (h.apart k' k r hr hq)
    · rw [append_assoc, singleton_append]
      refine hchain.unlink ?_ fun r hr => ?_
      · exact nextPage_setNext_self
      · have hrk : r ∈ X k := by
          refine hmem r ?_
          rcases mem_append.mp hr with hr | hr <;> simp [hr]
        refine nextPage_setNext_of_ne (h.aligned k r hrk) (h.aligned k q hq) ?_
        rintro rfl
        refine (nodup_middle.mp hnodup).notMem ?_
        rcases mem_append.mp hr with hr | hr <;> simp [hr]
    · exact setNext_of_not_mem (ha q (by simp))

end

end SlabLists

end CabOS
