import Mathlib

/-!
# Dyadic blocks

A block is a pair of an order `k` and a base `b`; it covers `width e k = 2 ^ (e + k)` addresses from
`b` on and is aligned if `b` is a multiple of its width.  The buddy of an aligned block has the base
`b ^^^ width e k`, and the two halves of a block are each other's buddies.

`Tiling e lo hi B` says that the aligned blocks of `B` cover the addresses from `lo` to `hi`, every
address exactly once.  Blocks of a tiling can be replaced by others that cover the same addresses
(`Tiling.replace`), in particular a block by its halves (`Tiling.split`) and back (`Tiling.merge`).
In a tiling the buddy of a block is always the start of some block (`Tiling.exists_start_buddy`).

Blocks are `Merged` if no two of them are buddies.  There is only one way to cover a set of
addresses with merged blocks (`Merged.subset_of_cover`).
-/

namespace CabOS.DyadicBlock

open Nat Set Finset

variable {e k j b c a lo hi : ℕ} {x y : ℕ × ℕ}

/-- The number of addresses of a block. -/
def width (e k : ℕ) : ℕ := 2 ^ (e + k)

/-- The addresses of a block. -/
def span (e : ℕ) (x : ℕ × ℕ) : Set ℕ := Set.Ico x.2 (x.2 + width e x.1)

lemma width_pos : 0 < width e k := Nat.two_pow_pos _

lemma width_succ : width e (k + 1) = 2 * width e k := by
  rw [width, width, ← add_assoc, pow_succ']

lemma width_dvd_width (h : j ≤ k) : width e j ∣ width e k := pow_dvd_pow 2 (by omega)

@[simp] lemma mem_span : a ∈ span e x ↔ x.2 ≤ a ∧ a < x.2 + width e x.1 := Iff.rfl

lemma base_mem_span : x.2 ∈ span e x := ⟨le_rfl, Nat.lt_add_of_pos_right width_pos⟩

/-- Multiples of a width below the end of an aligned range leave room for the width. -/
lemma add_le_of_dvd {w m n : ℕ} (hm : w ∣ m) (hn : w ∣ n) (h : m < n) : m + w ≤ n := by
  obtain ⟨i, rfl⟩ := hm
  obtain ⟨j, rfl⟩ := hn
  have hij : i < j := lt_of_mul_lt_mul_left h (zero_le w)
  calc w * i + w = w * (i + 1) := by ring
    _ ≤ w * j := mul_le_mul_left w hij

/-- An aligned address inside an aligned block that is not larger is its base. -/
lemma eq_base_of_mem (hjk : j ≤ k) (hc : width e j ∣ c) (ha : width e k ∣ a)
    (h : a ∈ span e (j, c)) : a = c := by
  by_contra hne
  have hlt : c < a := lt_of_le_of_ne h.1 (Ne.symm hne)
  have := add_le_of_dvd hc ((width_dvd_width hjk).trans ha) hlt
  have h2 : a < c + width e j := h.2
  omega

/-- An aligned block that starts inside a larger one lies inside it. -/
lemma span_subset (hjk : j ≤ k) (hc : width e j ∣ c) (hb : width e k ∣ b)
    (h : c ∈ span e (k, b)) : span e (j, c) ⊆ span e (k, b) := by
  have hend : width e j ∣ b + width e k :=
    dvd_add ((width_dvd_width hjk).trans hb) (width_dvd_width hjk)
  have hle := add_le_of_dvd hc hend h.2
  intro a ha
  exact ⟨h.1.trans ha.1, lt_of_lt_of_le ha.2 hle⟩

/-! ## Buddies -/

/-- Flipping the lowest bit. -/
lemma xor_one (q : ℕ) : q ^^^ 1 = if q % 2 = 0 then q + 1 else q - 1 := by
  have hdiv : (q ^^^ 1) / 2 = q / 2 := by
    rw [xor_div_two]
    simp
  have hmod : (q ^^^ 1) % 2 = 1 ↔ ¬ (q % 2 = 1 ↔ 1 % 2 = 1) := xor_mod_two_eq_one
  split_ifs <;> omega

/-- The buddy of an aligned block, in units of its width. -/
lemma xor_width (q : ℕ) : (width e k * q) ^^^ width e k = width e k * (q ^^^ 1) := by
  have h : (q ^^^ 1) <<< (e + k) = q <<< (e + k) ^^^ 1 <<< (e + k) := shiftLeft_xor_distrib
  rw [shiftLeft_eq, shiftLeft_eq, shiftLeft_eq, one_mul] at h
  rw [width, mul_comm, ← h, mul_comm]

/-- The buddy of the lower half is the upper half. -/
lemma xor_of_dvd (h : width e (k + 1) ∣ b) : b ^^^ width e k = b + width e k := by
  obtain ⟨q, rfl⟩ := h
  have hq : width e (k + 1) * q = width e k * (2 * q) := by rw [width_succ]; ring
  rw [hq, xor_width, xor_one, if_pos (by omega)]
  ring

/-- The buddy of the buddy is the block. -/
lemma xor_xor (b : ℕ) : (b ^^^ width e k) ^^^ width e k = b := by
  rw [Nat.xor_assoc, Nat.xor_self, xor_zero]

/-- A block is not its own buddy. -/
lemma xor_ne (b : ℕ) : b ^^^ width e k ≠ b := by
  intro heq
  have hzero : b ^^^ (b ^^^ width e k) = 0 := by rw [heq, Nat.xor_self]
  rw [← Nat.xor_assoc, Nat.xor_self, Nat.zero_xor] at hzero
  exact absurd hzero (ne_of_gt width_pos)

section

variable (hb : width e k ∣ b)
include hb

/-- The buddy of the upper half is the lower half. -/
lemma xor_of_not_dvd (h : ¬ width e (k + 1) ∣ b) :
    (b ^^^ width e k) + width e k = b ∧ width e (k + 1) ∣ b ^^^ width e k := by
  obtain ⟨q, rfl⟩ := hb
  have hodd : q % 2 = 1 := by
    by_contra heven
    refine h ⟨q / 2, ?_⟩
    have hq : q = 2 * (q / 2) := by omega
    conv_lhs => rw [hq]
    rw [width_succ]
    ring
  rw [xor_width, xor_one, if_neg (by omega)]
  constructor
  · calc width e k * (q - 1) + width e k = width e k * (q - 1 + 1) := by ring
      _ = width e k * q := by rw [Nat.sub_add_cancel (by omega)]
  · refine ⟨q / 2, ?_⟩
    have hq : q - 1 = 2 * (q / 2) := by omega
    rw [hq, width_succ]
    ring

/-- A block and its buddy are the halves of an aligned block. -/
lemma exists_parent : ∃ m, width e (k + 1) ∣ m ∧ min b (b ^^^ width e k) = m ∧
      (b = m ∧ b ^^^ width e k = m + width e k ∨ b = m + width e k ∧ b ^^^ width e k = m) := by
  by_cases h : width e (k + 1) ∣ b
  · refine ⟨b, h, ?_, .inl ⟨rfl, xor_of_dvd h⟩⟩
    rw [xor_of_dvd h]
    omega
  · obtain ⟨hsum, hdvd⟩ := xor_of_not_dvd hb h
    exact ⟨b ^^^ width e k, hdvd, by omega, .inr ⟨hsum.symm, rfl⟩⟩

/-- The buddy of an aligned block is aligned. -/
lemma dvd_xor : width e k ∣ b ^^^ width e k := by
  obtain ⟨q, rfl⟩ := hb
  exact ⟨q ^^^ 1, xor_width q⟩

end

/-! ## Tilings -/

/-- The blocks of `B` are aligned and cover every address from `lo` to `hi` exactly once. -/
structure Tiling (e lo hi : ℕ) (B : Set (ℕ × ℕ)) : Prop where
  aligned : ∀ x ∈ B, width e x.1 ∣ x.2
  inside : ∀ x ∈ B, lo ≤ x.2 ∧ x.2 + width e x.1 ≤ hi
  disjoint : ∀ x ∈ B, ∀ y ∈ B, ∀ a, a ∈ span e x → a ∈ span e y → x = y
  cover : ∀ a, lo ≤ a → a < hi → ∃ x ∈ B, a ∈ span e x

namespace Tiling

variable {B X Y : Set (ℕ × ℕ)}

lemma mem_range (h : Tiling e lo hi B) (hx : x ∈ B) (ha : a ∈ span e x) : lo ≤ a ∧ a < hi :=
  ⟨(h.inside x hx).1.trans ha.1, lt_of_lt_of_le ha.2 (h.inside x hx).2⟩

/-- Some blocks are replaced by others that cover the same addresses. -/
lemma replace (h : Tiling e lo hi B) (hX : X ⊆ B) (hY : ∀ y ∈ Y, width e y.1 ∣ y.2)
    (hdisj : ∀ x ∈ Y, ∀ y ∈ Y, ∀ a, a ∈ span e x → a ∈ span e y → x = y)
    (hspan : ∀ a, (∃ x ∈ X, a ∈ span e x) ↔ ∃ y ∈ Y, a ∈ span e y) :
    Tiling e lo hi (Y ∪ (B \ X)) := by
  have hcross : ∀ y ∈ Y, ∀ x ∈ B \ X, ∀ a, a ∈ span e y → a ∉ span e x := by
    intro y hy x hx a hay hax
    obtain ⟨x', hx', hax'⟩ := (hspan a).mpr ⟨y, hy, hay⟩
    exact hx.2 (h.disjoint x hx.1 x' (hX hx') a hax hax' ▸ hx')
  have hrange : ∀ y ∈ Y, ∀ a ∈ span e y, lo ≤ a ∧ a < hi := by
    intro y hy a ha
    obtain ⟨x, hx, hax⟩ := (hspan a).mpr ⟨y, hy, ha⟩
    exact h.mem_range (hX hx) hax
  refine ⟨?_, ?_, ?_, ?_⟩
  · rintro x (hx | hx)
    · exact hY x hx
    · exact h.aligned x hx.1
  · rintro x (hx | hx)
    · have hpos := width_pos (e := e) (k := x.1)
      have hlast := hrange x hx (x.2 + (width e x.1 - 1)) ⟨by omega, by omega⟩
      exact ⟨(hrange x hx _ base_mem_span).1, by omega⟩
    · exact h.inside x hx.1
  · rintro x (hx | hx) y (hy | hy) a hax hay
    · exact hdisj x hx y hy a hax hay
    · exact absurd hay (hcross x hx y hy a hax)
    · exact absurd hax (hcross y hy x hx a hay)
    · exact h.disjoint x hx.1 y hy.1 a hax hay
  · intro a hlo hhi
    obtain ⟨x, hx, hax⟩ := h.cover a hlo hhi
    by_cases hxX : x ∈ X
    · obtain ⟨y, hy, hay⟩ := (hspan a).mp ⟨x, hxX, hax⟩
      exact ⟨y, .inl hy, hay⟩
    · exact ⟨x, .inr ⟨hx, hxX⟩, hax⟩

/-- The halves of a block cover its addresses. -/
lemma span_halves : a ∈ span e (k + 1, b) ↔ a ∈ span e (k, b) ∨ a ∈ span e (k, b + width e k) := by
  have h := width_succ (e := e) (k := k)
  simp only [mem_span]
  omega

lemma halves_disjoint (ha : a ∈ span e (k, b)) : a ∉ span e (k, b + width e k) := by
  simp only [mem_span] at ha ⊢
  omega

section

variable (h : Tiling e lo hi B)
include h

/-- A block is split into its halves. -/
lemma split (hx : (k + 1, b) ∈ B) :
    Tiling e lo hi ({(k, b), (k, b + width e k)} ∪ (B \ {(k + 1, b)})) := by
  have hdvd : width e k ∣ b := (width_dvd_width (le_succ k)).trans (h.aligned _ hx)
  refine h.replace (singleton_subset_iff.mpr hx) ?_ ?_ fun a => ?_
  · rintro y (rfl | rfl)
    · exact hdvd
    · exact dvd_add hdvd (dvd_refl _)
  · rintro x (rfl | rfl) y (rfl | rfl) a hax hay
    · rfl
    · exact absurd hay (halves_disjoint hax)
    · exact absurd hax (halves_disjoint hay)
    · rfl
  · simp only [mem_singleton_iff, exists_eq_left, mem_insert_iff, exists_eq_or_imp]
    exact span_halves

/-- Two halves are merged. -/
lemma merge (hdvd : width e (k + 1) ∣ b) (hx : (k, b) ∈ B) (hy : (k, b + width e k) ∈ B) :
    Tiling e lo hi ({(k + 1, b)} ∪ (B \ {(k, b), (k, b + width e k)})) := by
  refine h.replace (insert_subset hx (singleton_subset_iff.mpr hy)) ?_ ?_ fun a => ?_
  · rintro y rfl
    exact hdvd
  · rintro x rfl y rfl a - -
    rfl
  · simp only [mem_singleton_iff, exists_eq_left, mem_insert_iff, exists_eq_or_imp]
    exact span_halves.symm

/-- The halves of a block of a tiling are no blocks of it. -/
lemma halves_notMem (hx : (k + 1, b) ∈ B) : (k, b) ∉ B ∧ (k, b + width e k) ∉ B := by
  refine ⟨fun hmem => ?_, fun hmem => ?_⟩
  · have := h.disjoint _ hx _ hmem b base_mem_span base_mem_span
    simp at this
  · have hupper : b + width e k ∈ span e (k + 1, b) := span_halves.mpr (.inr base_mem_span)
    have := h.disjoint _ hx _ hmem _ hupper base_mem_span
    simp at this

/-- The range grows by a block at its end. -/
lemma extend (hlo : lo ≤ hi) (hdvd : width e k ∣ hi) : Tiling e lo (hi + width e k)
    (insert (k, hi) B) := by
  have hbelow : ∀ x ∈ B, ∀ a ∈ span e x, a < hi := fun x hx a ha => (h.mem_range hx ha).2
  refine ⟨?_, ?_, ?_, ?_⟩
  · rintro x (rfl | hx)
    · exact hdvd
    · exact h.aligned x hx
  · rintro x (rfl | hx)
    · exact ⟨hlo, le_rfl⟩
    · exact ⟨(h.inside x hx).1, (h.inside x hx).2.trans (le_add_right _ _)⟩
  · rintro x (rfl | hx) y (rfl | hy) a hax hay
    · rfl
    · exact absurd (hbelow y hy a hay) (not_lt.mpr hax.1)
    · exact absurd (hbelow x hx a hax) (not_lt.mpr hay.1)
    · exact h.disjoint x hx y hy a hax hay
  · intro a hloa ha
    rcases lt_or_ge a hi with hlt | hge
    · obtain ⟨x, hx, hax⟩ := h.cover a hloa hlt
      exact ⟨x, mem_insert_of_mem _ hx, hax⟩
    · exact ⟨(k, hi), mem_insert _ _, hge, ha⟩

end

/-- An empty range has the empty tiling. -/
lemma empty (e lo : ℕ) : Tiling e lo lo ∅ :=
  ⟨fun _ hx => hx.elim, fun _ hx => hx.elim, fun _ hx => hx.elim,
    fun _ hlo hhi => absurd hhi (not_lt.mpr hlo)⟩

/-- The buddy of a block, if it lies in the range, is the start of a block that is not larger. -/
lemma exists_start_buddy (h : Tiling e lo hi B) (hx : (k, b) ∈ B) (hlo : lo ≤ b ^^^ width e k)
    (hhi : b ^^^ width e k < hi) : ∃ j ≤ k, (j, b ^^^ width e k) ∈ B := by
  have hb : width e k ∣ b := h.aligned _ hx
  obtain ⟨⟨j, d⟩, hy, hc⟩ := h.cover _ hlo hhi
  rcases lt_or_ge k j with hkj | hjk
  · -- a larger block would contain the block itself
    obtain ⟨m, hm, -, hmem⟩ := exists_parent hb
    have hsucc := width_succ (e := e) (k := k)
    have hmd : m ∈ span e (j, d) := by
      have hle : d ≤ m := by
        by_contra hlt
        have := add_le_of_dvd hm ((width_dvd_width hkj).trans (h.aligned _ hy)) (not_le.mp hlt)
        have hge : d ≤ b ^^^ width e k := hc.1
        have hpos := width_pos (e := e) (k := k)
        omega
      have hlt : b ^^^ width e k < d + width e j := hc.2
      exact ⟨hle, show m < d + width e j by omega⟩
    have hsub := span_subset hkj hm (h.aligned _ hy) hmd
    have hbm : b ∈ span e (k + 1, m) := by
      have hpos := width_pos (e := e) (k := k)
      simp only [mem_span]
      omega
    have heq := h.disjoint _ hx _ hy b base_mem_span (hsub hbm)
    cases heq
    exact absurd hkj (lt_irrefl _)
  · have heq := eq_base_of_mem hjk (h.aligned _ hy) (dvd_xor hb) hc
    exact ⟨j, hjk, heq ▸ hy⟩

end Tiling

/-! ## Merged blocks -/

/-- The blocks of `B` are aligned and disjoint, none has an order above `m`, and no two of them with
an order below `m` are buddies. -/
structure Merged (e m : ℕ) (B : Set (ℕ × ℕ)) : Prop where
  aligned : ∀ x ∈ B, width e x.1 ∣ x.2
  disjoint : ∀ x ∈ B, ∀ y ∈ B, ∀ a, a ∈ span e x → a ∈ span e y → x = y
  order_le : ∀ x ∈ B, x.1 ≤ m
  noBuddies : ∀ k < m, ∀ b, (k, b) ∈ B → (k, b ^^^ width e k) ∉ B

namespace Merged

variable {m : ℕ} {B B' : Set (ℕ × ℕ)}

/-- An aligned block that is covered by merged blocks lies inside one of them. -/
lemma exists_superset (h : Merged e m B) (hk : k ≤ m) (hb : width e k ∣ b)
    (hcover : ∀ a ∈ span e (k, b), ∃ x ∈ B, a ∈ span e x) :
    ∃ y ∈ B, k ≤ y.1 ∧ span e (k, b) ⊆ span e y := by
  induction k generalizing b with
  | zero =>
    obtain ⟨y, hy, hby⟩ := hcover b base_mem_span
    exact ⟨y, hy, zero_le _, span_subset (zero_le _) hb (h.aligned y hy) hby⟩
  | succ k ih =>
    have hdvd : width e k ∣ b := (width_dvd_width (le_succ k)).trans hb
    obtain ⟨⟨i, c⟩, hy, hki, hsub⟩ :=
      ih (by omega) hdvd fun a ha => hcover a (Tiling.span_halves.mpr (.inl ha))
    obtain ⟨⟨j, d⟩, hz, hkj, hsub'⟩ := ih (by omega) (Nat.dvd_add hdvd (dvd_refl _))
      fun a ha => hcover a (Tiling.span_halves.mpr (.inr ha))
    rcases Nat.lt_or_eq_of_le hki with hlt | rfl
    · exact ⟨(i, c), hy, hlt, span_subset hlt hb (h.aligned _ hy) (hsub base_mem_span)⟩
    · have hbc : b = c := eq_base_of_mem le_rfl (h.aligned _ hy) hdvd (hsub base_mem_span)
      rcases lt_or_eq_of_le hkj with hlt | rfl
      · -- a larger block around the upper half contains the lower half as well
        have hd : width e (k + 1) ∣ d := (width_dvd_width hlt).trans (h.aligned _ hz)
        have hmem := hsub' base_mem_span
        have hle : d ≤ b := by
          by_contra hgt
          have hroom := add_le_of_dvd hb hd (not_le.mp hgt)
          have hlow : d ≤ b + width e k := hmem.1
          have hpos := width_pos (e := e) (k := k)
          rw [width_succ] at hroom
          omega
        have hlt' : b < d + width e j := lt_of_le_of_lt (le_add_right _ _) hmem.2
        exact ⟨(j, d), hz, hlt, span_subset hlt hb (h.aligned _ hz) ⟨hle, hlt'⟩⟩
      · -- both halves are blocks, and they are buddies
        have hbd : b + width e k = d :=
          eq_base_of_mem le_rfl (h.aligned _ hz) (dvd_add hdvd (dvd_refl _)) (hsub' base_mem_span)
        refine absurd ?_ (h.noBuddies k (by omega) c hy)
        rw [← hbc, xor_of_dvd hb, hbd]
        exact hz

/-- Merged blocks are determined by the addresses they cover. -/
lemma subset_of_cover (h : Merged e m B) (h' : Merged e m B')
    (hcover : ∀ a, (∃ x ∈ B, a ∈ span e x) ↔ ∃ x ∈ B', a ∈ span e x) : B ⊆ B' := by
  rintro ⟨k, b⟩ hx
  obtain ⟨⟨i, c⟩, hy, hki, hsub⟩ := h'.exists_superset (h.order_le _ hx) (h.aligned _ hx)
    fun a ha => (hcover a).mp ⟨_, hx, ha⟩
  obtain ⟨⟨j, d⟩, hz, hij, hsub'⟩ := h.exists_superset (h'.order_le _ hy) (h'.aligned _ hy)
    fun a ha => (hcover a).mpr ⟨_, hy, ha⟩
  have heq := h.disjoint _ hx _ hz b base_mem_span (hsub' (hsub base_mem_span))
  cases heq
  obtain rfl : k = i := le_antisymm hki hij
  have hbc : b = c := eq_base_of_mem le_rfl (h'.aligned _ hy) (h.aligned _ hx) (hsub base_mem_span)
  rw [hbc]
  exact hy

end Merged

/-! ## Counting -/

/-- Blocks that do not overlap have as many addresses as their widths add up to. -/
lemma card_eq_sum_width {S : Finset (ℕ × ℕ)} {A : Finset ℕ}
    (hdisjoint : ∀ x ∈ S, ∀ y ∈ S, ∀ a, a ∈ span e x → a ∈ span e y → x = y)
    (hA : ∀ a, a ∈ A ↔ ∃ x ∈ S, a ∈ span e x) : A.card = ∑ x ∈ S, width e x.1 := by
  have hunion : A = S.biUnion fun x => Finset.Ico x.2 (x.2 + width e x.1) := by
    ext a
    simp [hA, mem_span]
  have hpair : (S : Set (ℕ × ℕ)).PairwiseDisjoint fun x => Finset.Ico x.2 (x.2 + width e x.1) := by
    intro x hx y hy hne
    refine disjoint_left.mpr fun a hax hay => hne (hdisjoint x hx y hy a ?_ ?_)
    · exact mem_Ico.mp hax
    · exact mem_Ico.mp hay
  rw [hunion, card_biUnion hpair]
  refine sum_congr rfl fun x _ => ?_
  rw [card_Ico, Nat.add_sub_cancel_left]

end CabOS.DyadicBlock
