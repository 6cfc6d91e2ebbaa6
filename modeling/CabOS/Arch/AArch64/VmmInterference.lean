import CabOS.Arch.AArch64.VmmThread

/-!
# What one core may do while another works

`Base` is the part of the invariant that both cores share: the tree is well-formed, except that the
tables at the paths in `H` may be empty, and the frames that a core has in its hands are outside the
tree and off the free list.  `Alters r root s s'` says that between `s` and `s'` no entry of a table
of the tree has changed but the one at the path `r`.  There is one lemma for each thing that a core
does: it takes a frame (`Base.pop`), writes to a frame in its hands (`Base.putLoose`), enters it as
a table (`Base.attach`), writes the entry of a page (`Base.putLeaf`), takes an empty table out of
the tree (`Base.cut`) and gives a frame back (`Base.push`).
-/

namespace CabOS.AArch64

open TableTree List

variable {H : Set Path} {root t u f : BitVec 64} {s s' : Vmm} {L : List (BitVec 64)}
  {ref : Path → Option (BitVec 64)} {p q : Path} {i : Fin ptePerPage} {e : BitVec 64} {k :
    ℕ} (v : BitVec 64)

/-! ## Paths of addresses -/

@[simp] lemma length_pathOf : (pathOf v).length = 4 := rfl

/-- The path grows by the index of the level. -/
lemma take_succ_pathOf (hk : k ≤ 3) :
    (pathOf v).take (k + 1) = (pathOf v).take k ++ [indexAt v k] := by
  obtain rfl | rfl | rfl | rfl : k = 0 ∨ k = 1 ∨ k = 2 ∨ k = 3 := by omega
  all_goals rfl

lemma length_take_pathOf (hk : k ≤ 4) : ((pathOf v).take k).length = k := by
  rw [length_take, length_pathOf]
  omega

lemma pathOf_eq_concat : pathOf v = (pathOf v).take 3 ++ [index3 v] := rfl

/-! ## Frames in hand and the shared part of the invariant -/

/-- The frames of the list are different, fit into an entry and are not tables of the tree. -/
structure Loose (root : BitVec 64) (mem : TableMem) (L : List (BitVec 64)) : Prop where
  nodup : L.Nodup
  aligned : ∀ f ∈ L, f &&& pteAddrMask = f
  unreachable : ∀ f ∈ L, ∀ q, q.length ≤ 3 → walk next mem root q ≠ some f

/-- The order of the frames does not matter. -/
lemma Loose.perm {mem : TableMem} {L L' : List (BitVec 64)} (h : Loose root mem L)
    (hL : L'.Perm L) : Loose root mem L' where
  nodup := hL.nodup_iff.mpr h.nodup
  aligned f hf := h.aligned f (hL.mem_iff.mp hf)
  unreachable f hf := h.unreachable f (hL.mem_iff.mp hf)

/-- The tree is well-formed and the free frames and the frames `L` in the hands of the cores are
outside of it. -/
structure Base (H : Set Path) (L : List (BitVec 64)) (root : BitVec 64) (s : Vmm)
    (ref : Path → Option (BitVec 64)) : Prop where
  tree : TreeInv H root s.mem s.free ref
  loose : Loose root s.mem (s.free ++ L)

/-- No entry of a table of the tree has changed, but the one at the path `r`. -/
def Alters (r : Option Path) (root : BitVec 64) (s s' : Vmm) : Prop :=
  ∀ q t j, q.length ≤ 3 → walk next s.mem root q = some t → r ≠ some (q ++ [j]) →
  s'.mem t j = s.mem t j

/-- Paths that do not go through the changed entry lead where they led. -/
lemma Alters.walk_eq {r : Option Path} (h : Alters r root s s') (hq : q.length ≤ 4)
    (hr : ∀ r', r = some r' → ¬ r' <+: q) : walk next s'.mem root q = walk next s.mem root q := by
  refine walk_congr fun p i t hpre ht => ?_
  have hlen : p.length ≤ 3 := by
    have := hpre.length_le
    simp at this
    omega
  rw [h p t i hlen ht fun e => hr _ e hpre]

/-- A frame that is a table of the tree. -/
def IsTable (root : BitVec 64) (s : Vmm) (f : BitVec 64) : Prop :=
  ∃ q, q.length ≤ 3 ∧ walk next s.mem root q = some f

/-- The frame is a table, or free, or in the hands of a core. -/
def Accounted (root : BitVec 64) (s : Vmm) (L : List (BitVec 64)) (f : BitVec 64) : Prop :=
  IsTable root s f ∨ f ∈ s.free ++ L

section

variable (h : Base H L root s ref)
include h

/-- Writing an entry of a table of the tree alters nothing else in the tree. -/
lemma Base.alters_put (hp : p.length ≤ 3)
    (ht : walk next s.mem root p = some t) : Alters (some (p ++ [i])) root s (s.put t i e) := by
  intro q v j hq hv hr
  refine write_of_ne ?_
  by_contra hne
  push Not at hne
  obtain ⟨rfl, rfl⟩ := hne
  exact hr (by rw [h.tree.distinct q p v hq hp hv ht])

/-- A frame in hand is not a table of the tree. -/
lemma Base.ne_of_mem (hf : f ∈ L) (hp : p.length ≤ 3)
    (ht : walk next s.mem root p = some t) : f ≠ t := by
  rintro rfl
  exact h.loose.unreachable f (mem_append_right _ hf) p hp ht

lemma Base.mono {H' : Set Path} (hH : H ⊆ H') : Base H' L root s ref :=
  ⟨h.tree.mono hH, h.loose⟩

/-- A core takes a frame from the free list into its hands. -/
lemma Base.pop (he : frameAlloc s = .ok f s') :
    s'.mem = s.mem ∧ s.free = f :: s'.free ∧ Base H (f :: L) root s' ref := by
  unfold frameAlloc at he
  simp only [exec_bind, exec_get] at he
  cases hs : s.free with
  | nil =>
    rw [hs] at he
    cases he
  | cons g free =>
    rw [hs] at he
    by_cases hg : g &&& 0xFFF#64 ≠ 0
    · simp only [exec_bind, exec_ite, if_pos hg, exec_throw] at he
      cases he
    · simp only [exec_bind, exec_ite, if_neg hg, exec_pure, exec_set] at he
      cases he
      refine ⟨rfl, rfl, ?_, ?_⟩
      · refine h.tree.congr (fun _ _ _ _ _ => rfl) fun q u hq hu hmem => ?_
        exact h.tree.unfree q u hq hu (by simp [hs, hmem])
      · have hl := h.loose
        rw [hs] at hl
        exact hl.perm perm_middle

/-- A core writes to a frame in its hands. -/
lemma Base.putLoose (hf : f ∈ L) : Base H L root (s.put f i e) ref ∧
    Alters none root s (s.put f i e) := by
  have hother : ∀ q t, q.length ≤ 3 → walk next s.mem root q = some t →
    ∀ j, (s.put f i e).mem t j = s.mem t j := by
    intro q t hq ht j
    refine write_of_ne (.inl ?_)
    rintro rfl
    exact h.loose.unreachable t (mem_append_right _ hf) q hq ht
  have hwalk : ∀ q : Path, q.length ≤ 3 →
    walk next (s.put f i e).mem root q = walk next s.mem root q :=
    fun q hq => walk_congr_reached (n := 3) hother (by omega)
  refine ⟨⟨h.tree.congr hother h.tree.unfree, h.loose.nodup, h.loose.aligned, ?_⟩,
    fun q t j hq ht _ => hother q t hq ht j⟩
  intro g hg q hq
  rw [hwalk q hq]
  exact h.loose.unreachable g hg q hq

/-- A core writes an entry of the last level. -/
lemma Base.putLeaf (hp : p.length = 3)
    (ht : walk next s.mem root p = some t) (he : e &&& 0b11 = 0 ∨ e &&& 0b11 = 0b11) :
    Base (insert p H) L root (s.put t i e) (Function.update ref (p ++ [i]) (next e)) ∧
      Alters (some (p ++ [i])) root s (s.put t i e) ∧
      ∀ q, q.length ≤ 3 → walk next (s.put t i e).mem root q = walk next s.mem root q := by
  obtain ⟨htree, hwalk⟩ := h.tree.writeLeaf (i := i) hp ht he
  refine ⟨⟨htree, h.loose.nodup, h.loose.aligned, ?_⟩, ?_, hwalk⟩
  · intro g hg q hq
    rw [Vmm.put, hwalk q hq]
    exact h.loose.unreachable g hg q hq
  · exact h.alters_put (by omega) ht

/-- A core takes an empty table out of the tree into its hands. -/
lemma Base.cut (hp : p.length ≤ 2) (ht : walk next s.mem root p = some t)
    (hc : walk next s.mem root (p ++ [i]) = some u) (hempty : ∀ j, s.mem u j &&& 0b11 = 0) :
    Base (insert p (H \ {p ++ [i]})) (u :: L) root (s.put t i 0) ref ∧
    Alters (some (p ++ [i])) root s (s.put t i 0) ∧
      ∀ q, q.length ≤ 3 → walk next (s.put t i 0).mem root q =
        if q = p ++ [i] then none else walk next s.mem root q := by
  obtain ⟨htree, hwalk⟩ := h.tree.detach hp ht hc hempty
  have hplen : (p ++ [i]).length ≤ 3 := by
    simp
    omega
  have hunew : u ∉ s.free ++ L := fun hmem => h.loose.unreachable u hmem _ hplen hc
  refine ⟨⟨htree, ?_⟩, ?_, hwalk⟩
  · have hold : Loose root (write s.mem t i 0) (u :: (s.free ++ L)) := by
      refine ⟨nodup_cons.mpr ⟨hunew, h.loose.nodup⟩, fun g hg => ?_, fun g hg q hq => ?_⟩
      · rcases mem_cons.mp hg with rfl | hg
        · exact mask_of_walk hc
        · exact h.loose.aligned g hg
      · rw [hwalk q hq]
        split_ifs with e
        · simp
        · rcases mem_cons.mp hg with rfl | hg
          · exact fun hq' => e (h.tree.distinct q _ g hq hplen hq' hc)
          · exact h.loose.unreachable g hg q hq
    exact hold.perm perm_middle
  · exact h.alters_put (by omega) ht

end

/-- A table with a valid entry needs no exemption. -/
lemma Base.release (h : Base (insert p H) L root s ref) (ht : walk next s.mem root p = some t)
    (hi : s.mem t i &&& 0b11 ≠ 0) : Base H L root s ref := by
  refine ⟨h.tree.restrict fun q u _ _ hqH hq hu => ?_, h.loose⟩
  rw [(Set.mem_insert_iff.mp hq).resolve_right hqH, ht] at hu
  cases hu
  exact ⟨i, hi⟩

/-- A core enters a cleared frame from its hands as a table. -/
lemma Base.attach (h : Base H (f :: L) root s ref) (hzero : ∀ j, s.mem f j = 0)
    (hp : p.length ≤ 2) (ht : walk next s.mem root p = some t) (hinvalid : s.mem t i &&& 0b11 = 0) :
    Base (insert (p ++ [i]) (H \ {p})) L root (s.put t i ((f &&& pteAddrMask) ||| 0b11)) ref ∧
      Alters (some (p ++ [i])) root s (s.put t i ((f &&& pteAddrMask) ||| 0b11)) ∧
      ∀ q, q.length ≤ 3 → walk next (s.put t i ((f &&& pteAddrMask) ||| 0b11)).mem root q =
          if q = p ++ [i] then some f else walk next s.mem root q := by
  have hfL : f ∈ s.free ++ f :: L := by simp
  have hfill : fill s.mem f 0 = s.mem := by
    funext u j
    by_cases hu : u = f
    · subst hu
      rw [fill_self, hzero]
    · rw [fill_of_ne hu]
  have hnd := h.loose.nodup
  rw [perm_middle.nodup_iff, nodup_cons, mem_append, not_or] at hnd
  obtain ⟨⟨hfree, hfL'⟩, hnd⟩ := hnd
  obtain ⟨htree, hwalk⟩ :=
    h.tree.attach hp ht hinvalid (h.loose.aligned f hfL) hfree (h.loose.unreachable f hfL)
  rw [hfill] at htree hwalk
  have hsub : ∀ g ∈ s.free ++ L, g ∈ s.free ++ f :: L := by
    intro g hg
    rw [mem_append, mem_cons]
    exact (mem_append.mp hg).imp_right .inr
  refine ⟨⟨htree, hnd, fun g hg => h.loose.aligned g (hsub g hg), ?_⟩, ?_, hwalk⟩
  · intro g hg q hq
    rw [Vmm.put, hwalk q hq]
    split_ifs with e
    · rintro ⟨⟩
      exact (mem_append.mp hg).elim hfree hfL'
    · exact h.loose.unreachable g (hsub g hg) q hq
  · exact h.alters_put (by omega) ht

/-- A core puts a frame from its hands on the free list. -/
lemma Base.push (h : Base H (f :: L) root s ref) :
    ∃ s', frameDealloc f s = .ok () s' ∧ Base H L root s' ref ∧ Alters none root s s' ∧
      s'.free = f :: s.free ∧ ∀ g, g ≠ f → ∀ j, s'.mem g j = s.mem g j := by
  have hfL : f ∈ s.free ++ f :: L := by simp
  have hf := h.loose.aligned f hfL
  refine ⟨_, frameDealloc_eq hf s, ?_, ?_, rfl, fun g hg j => write_of_ne (.inl hg)⟩
  · have hput := (h.putLoose (i := 0) (e := s.free.headD (BitVec.allOnes 64)) mem_cons_self).1
    refine ⟨hput.tree.congr (fun _ _ _ _ _ => rfl) fun q v hq hv => ?_, ?_⟩
    · rw [mem_cons, not_or]
      refine ⟨?_, hput.tree.unfree q v hq hv⟩
      rintro rfl
      exact hput.loose.unreachable v hfL q hq hv
    · exact hput.loose.perm perm_middle.symm
  · exact (h.putLoose (i := 0) (e := s.free.headD (BitVec.allOnes 64)) mem_cons_self).2

end CabOS.AArch64
