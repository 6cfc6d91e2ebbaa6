import CabOS.Arch.AArch64.VmmSpec

/-!
# Frames next to the tables

Frames that hold data lie in the same memory as the tables.  A frame that is neither a table nor
free can be written to, and frames can be handed out and given back, without an effect on the tables
and on the other frames of this kind.
-/

namespace CabOS.AArch64

open Function List

open TableTree

variable {H : Set Path} {root f : BitVec 64} {s : Vmm} {ref : Path → Option (BitVec 64)}

/-- Writing to a frame that is not a table leaves every path as it is. -/
lemma walk_update_of_not_table (hf : ∀ q, q.length ≤ 3 → walk next s.mem root q ≠ some f)
    (page : Fin ptePerPage → BitVec 64) {q : Path} (hq : q.length ≤ 3) :
    walk next (update s.mem f page) root q = walk next s.mem root q := by
  refine walk_congr_reached (n := 3) (fun q t hq ht i => ?_) (by omega)
  rw [update_of_ne]
  rintro rfl
  exact hf q hq ht

section

variable (h : TreeInv H root s.mem s.free ref)
include h

/-- A spare frame is written to. -/
lemma TreeInv.updateSpare (hf : SpareFrame root s f) (page : Fin ptePerPage → BitVec 64) :
    TreeInv H root (update s.mem f page) s.free ref ∧
      ∀ g, SpareFrame root s g → SpareFrame root ⟨update s.mem f page, s.free⟩ g := by
  refine ⟨h.congr (fun q t hq ht i => ?_) h.unfree, fun g hg => ⟨hg.unfree, fun q hq ht => ?_⟩⟩
  · rw [update_of_ne]
    rintro rfl
    exact hf.not_table q hq ht
  · exact hg.not_table q hq ((walk_update_of_not_table hf.not_table page hq).symm.trans ht)

section

variable (hpool : PoolOk s.free)
include hpool

/-- A frame is handed out, or there is none. -/
lemma TreeInv.frameAlloc_cases : frameAlloc s = .error .waiting s ∨
    ∃ f t, frameAlloc s = .ok f t ∧ t.mem = s.mem ∧ TreeInv H root t.mem t.free ref ∧
    PoolOk t.free ∧
      f ∈ s.free ∧ SpareFrame root t f ∧ f &&& pteAddrMask = f ∧
      ∀ g, SpareFrame root s g → SpareFrame root t g := by
  cases hs : s.free with
  | nil =>
    refine .inl ?_
    simp [frameAlloc, hs]
  | cons f free =>
    have hsub : ∀ g ∈ free, g ∈ s.free := fun g hg => by simp [hs, hg]
    have hmem : f ∈ s.free := by simp [hs]
    have hnodup := hpool.nodup
    rw [hs, nodup_cons] at hnodup
    refine .inr ⟨f, ⟨s.mem, free⟩, frameAlloc_eq hpool hs, rfl, ?_,
      ⟨hnodup.2, fun g hg => hpool.aligned g (hsub g hg)⟩, mem_cons_self, ⟨hnodup.1, ?_⟩,
      hpool.aligned f hmem, fun g hg => ⟨fun hfree => hg.unfree (hsub g hfree), hg.not_table⟩⟩
    · exact h.congr (fun _ _ _ _ _ => rfl) fun q t hq ht hfree => h.unfree q t hq ht (hsub t hfree)
    · exact fun q hq ht => h.unfree q f hq ht hmem

/-- A spare frame is given back. -/
lemma TreeInv.frameDealloc (hf : SpareFrame root s f) (hmask : f &&& pteAddrMask = f) :
    ∃ t, AArch64.frameDealloc f s = .ok () t ∧ TreeInv H root t.mem t.free ref ∧ PoolOk t.free ∧
      t.free = f :: s.free ∧ ∀ g, g ≠ f → SpareFrame root s g → SpareFrame root t g := by
  have hsame : ∀ q t, q.length ≤ 3 → walk next s.mem root q = some t → ∀ i,
      write s.mem f 0 (s.free.headD (BitVec.allOnes 64)) t i = s.mem t i :=
    fun q t hq ht i => write_of_ne (.inl fun heq => hf.not_table q hq (heq ▸ ht))
  refine ⟨_, frameDealloc_eq hmask s, h.congr hsame fun q t hq ht => ?_,
    ⟨nodup_cons.mpr ⟨hf.unfree, hpool.nodup⟩, ?_⟩, rfl, fun g hne hg => ⟨?_, fun q hq ht => ?_⟩⟩
  · rw [mem_cons, not_or]
    exact ⟨fun heq => hf.not_table q hq (heq ▸ ht), h.unfree q t hq ht⟩
  · intro g hg
    rcases mem_cons.mp hg with rfl | hg
    · exact hmask
    · exact hpool.aligned g hg
  · rw [mem_cons, not_or]
    exact ⟨hne, hg.unfree⟩
  · exact hg.not_table q hq ((walk_congr_reached (n := 3) hsame (by omega)).symm.trans ht)

end

end

end CabOS.AArch64
