import CabOS.Library.Run
import CabOS.Memory.VirtualMemoryInv

/-!
# Runs of the kernel virtual memory allocator

A run allocates ranges by best fit and drops live allocations in any order.  Along a run from a new
container every call returns and leaves the free entries the maximal gaps between disjoint active
entries, if and only if every drop finds both of its neighbours (`KernelMemory.run_iff`).
-/

namespace CabOS

open VirtualMemoryEntryContainer

/-- The addresses of an allocation. -/
def VirtualMemoryAllocation.range (a : VirtualMemoryAllocation) : Set ℕ :=
  Set.Ico a.base (a.base + a.length)

/-- The container and the allocations that have not been dropped. -/
structure KernelMemory where
  /-- The container. -/
  vmes : VirtualMemoryEntryContainer
  /-- The live allocations. -/
  live : List VirtualMemoryAllocation

namespace KernelMemory

/-- A new container, from which nothing is allocated. -/
def new (low high : ℕ) : KernelMemory := ⟨VirtualMemoryEntryContainer.new low high, []⟩

/-- A step of a run. -/
inductive Op where
  | alloc (length : ℕ) (options : PagingOptions)
  | drop (a : VirtualMemoryAllocation)

/-- Run a step.  An allocation that returns a handle makes it live, a drop consumes it. -/
def Op.run : Op → EStateM String KernelMemory Unit
  | .alloc length options => fun k =>
    match VirtualMemoryAllocation.new none length options k.vmes with
    | .ok a vmes => .ok () ⟨vmes, a.toList ++ k.live⟩
    | .error e vmes => .error e ⟨vmes, k.live⟩
  | .drop a => fun k =>
    match VirtualMemoryAllocation.drop a k.vmes with
    | .ok _ vmes => .ok () ⟨vmes, k.live.erase a⟩
    | .error e vmes => .error e ⟨vmes, k.live⟩

/-- The state after a step. -/
def step (k : KernelMemory) (op : Op) : KernelMemory := finalState op.run k

/-- A length is a positive number of pages that some free entry can hold; a dropped allocation is
live. -/
def Valid (k : KernelMemory) : Op → Prop
  | .alloc length _ => 0 < length ∧ length % pageSize = 0 ∧ ∃ f ∈ k.vmes.free, length ≤ f.length
  | .drop a => a ∈ k.live

/-- The step hits no `expect` and no `assert`; afterwards the free entries are the maximal gaps
between disjoint active entries, and the live allocations are disjoint. -/
def Keeps (k : KernelMemory) (op : Op) : Prop :=
  op.run k = .ok () (k.step op) ∧ (k.step op).vmes.Tiled ∧
    (k.step op).live.Pairwise fun a b => Disjoint a.range b.range

/-- A drop finds both neighbours. -/
def Merges (k : KernelMemory) : Op → Prop
  | .alloc _ _ => True
  | .drop a => k.vmes.MergesBoth a

/-- The container is intact and the live allocations are active entries, each its own. -/
structure Inv (k : KernelMemory) : Prop where
  intact : k.vmes.Inv
  live_active : ∀ a ∈ k.live, ∃ e ∈ k.vmes.active, e.base = a.base ∧ e.length = a.length
  live_base : k.live.Pairwise fun a b => a.base ≠ b.base

variable {k : KernelMemory} {a : VirtualMemoryAllocation}

/-- Live allocations are disjoint. -/
lemma Inv.live_disjoint (h : k.Inv) : k.live.Pairwise fun a b => Disjoint a.range b.range := by
  refine (List.Pairwise.and_mem.mp h.live_base).imp ?_
  rintro a b ⟨ha, hb, hne⟩
  obtain ⟨e, he, he1, he2⟩ := h.live_active a ha
  obtain ⟨f, hf, hf1, hf2⟩ := h.live_active b hb
  rw [Set.disjoint_left]
  rintro x ⟨h1, h2⟩ ⟨h3, h4⟩
  rcases Nat.lt_trichotomy e.base f.base with hlt | heq | hgt
  · have := h.intact.active_le he hf hlt
    omega
  · omega
  · have := h.intact.active_le hf he hgt
    omega

/-- A step that returns an intact state keeps all that is asked. -/
lemma keeps_of_ok {op : Op} {k' : KernelMemory} (e : op.run k = .ok () k') (h : k'.Inv) :
    k.Keeps op ∧ (k.step op).Inv := by
  have hstep : k.step op = k' := finalState_of_ok e
  rw [Keeps, hstep]
  exact ⟨⟨e, h.intact.tiled, h.live_disjoint⟩, h⟩

/-- A valid allocation keeps the state intact. -/
lemma Inv.alloc (h : k.Inv) {length : ℕ} {options : PagingOptions}
    (hv : k.Valid (.alloc length options)) :
    k.Keeps (.alloc length options) ∧ (k.step (.alloc length options)).Inv := by
  obtain ⟨hpos, hpage, hfits⟩ := hv
  obtain ⟨f, hf, hle, e⟩ := h.intact.new_eq hpage hfits options
  have hfin := h.intact.free_in f hf
  refine keeps_of_ok (by simp only [Op.run, e]; rfl) ⟨h.intact.place hf hpos hle options, ?_, ?_⟩
  · intro a ha
    rcases List.mem_append.mp ha with ha | ha
    · refine ⟨⟨f.base, length, options⟩, SortedTree.mem_insert.mpr (.inl rfl), ?_⟩
      split_ifs at ha
      · simp at ha
      · simp only [Option.toList_some, List.mem_singleton] at ha
        rw [ha]
        exact ⟨rfl, rfl⟩
    · obtain ⟨e, he, hea⟩ := h.live_active a ha
      exact ⟨e, SortedTree.mem_insert.mpr (.inr he), hea⟩
  · refine List.pairwise_append.mpr ⟨?_, h.live_base, ?_⟩
    · split_ifs <;> simp
    · -- the new range was free, so no active entry starts at its base
      intro a ha b hb hab
      obtain ⟨e, he, he1, he2⟩ := h.live_active b hb
      have hein := h.intact.active_in e he
      have hfe := h.intact.apart f hf e he
      split_ifs at ha
      · simp at ha
      · simp only [Option.toList_some, List.mem_singleton] at ha
        subst ha
        simp only at hab
        omega

/-- A drop of a live allocation that finds both neighbours keeps the state intact. -/
lemma Inv.drop (h : k.Inv) (ha : a ∈ k.live)
    (hm : k.vmes.MergesBoth a) : k.Keeps (.drop a) ∧ (k.step (.drop a)).Inv := by
  obtain ⟨e, he, hbase, hlen⟩ := h.live_active a ha
  obtain ⟨base, length⟩ := a
  simp only at hbase hlen
  subst hbase hlen
  obtain ⟨free', ed, hinv⟩ := h.intact.drop_eq he hm.1 hm.2 e.length
  refine keeps_of_ok (by simp only [Op.run, ed]; rfl) ⟨hinv, ?_, ?_⟩
  · intro b hb
    have hnd : k.live.Nodup := h.live_base.imp fun hne heq => hne (congrArg _ heq)
    obtain ⟨hne, hb⟩ := hnd.mem_erase_iff.mp hb
    obtain ⟨f, hf, hf1, hf2⟩ := h.live_active b hb
    refine ⟨f, h.intact.mem_active_erase.mpr ⟨?_, hf⟩, hf1, hf2⟩
    rintro rfl
    obtain ⟨bbase, blength⟩ := b
    simp only at hf1 hf2
    subst hf1 hf2
    exact hne rfl
  · exact h.live_base.sublist List.erase_sublist

/-- A drop of a live allocation that keeps all that is asked finds both neighbours. -/
lemma Inv.merges_of_keeps (h : k.Inv) (ha : a ∈ k.live) (hk : k.Keeps (.drop a)) :
    k.vmes.MergesBoth a := by
  obtain ⟨e, he, hbase, hlen⟩ := h.live_active a ha
  obtain ⟨base, length⟩ := a
  simp only at hbase hlen
  subst hbase hlen
  by_contra hno
  obtain ⟨hrun, htiled, -⟩ := hk
  simp only [Op.run] at hrun
  cases hd : VirtualMemoryAllocation.drop ⟨e.base, e.length⟩ k.vmes with
  | error m vmes =>
    rw [hd] at hrun
    cases hrun
  | ok _ vmes =>
    rw [hd] at hrun
    simp only [EStateM.Result.ok.injEq, true_and] at hrun
    rw [← hrun] at htiled
    exact h.intact.not_tiled_of_drop he hno hd htiled

/-- Along every run of valid steps from a new container, all steps return and leave the free entries
the maximal gaps between disjoint active entries, if and only if every drop finds both of its
neighbours. -/
theorem run_iff {low high : ℕ} (hlt : low < high) (hhigh : high < usizeBound) {ops : List Op}
    (hvalid : AlongRun step Valid (new low high) ops) :
    (new low high).vmes.Tiled ∧
      (AlongRun step Keeps (new low high) ops ↔ AlongRun step Merges (new low high) ops) := by
  have hnew : (new low high).Inv := by
    refine ⟨inv_new hlt hhigh, ?_, List.Pairwise.nil⟩
    intro a ha
    simp [new] at ha
  refine ⟨hnew.intact.tiled, alongRun_congr_of_valid (I := Inv) ?_ ?_ hnew hvalid⟩
  · intro k op h hv
    cases op with
    | alloc length options => exact ⟨fun _ => trivial, fun _ => (h.alloc hv).1⟩
    | drop a => exact ⟨h.merges_of_keeps hv, fun hm => (h.drop hv hm).1⟩
  · intro k op h hv hm
    cases op with
    | alloc length options => exact (h.alloc hv).2
    | drop a => exact (h.drop hv hm).2

/-- Three ranges are allocated and the middle one is dropped. -/
theorem run_iff_middle : AlongRun step Valid (new 0x10000 0x20000)
      [.alloc 0x1000 0, .alloc 0x2000 0, .alloc 0x1000 0, .drop ⟨0x11000, 0x2000⟩] ∧
    AlongRun step Keeps (new 0x10000 0x20000)
      [.alloc 0x1000 0, .alloc 0x2000 0, .alloc 0x1000 0, .drop ⟨0x11000, 0x2000⟩] := by
  have hvalid : AlongRun step Valid (new 0x10000 0x20000)
      [.alloc 0x1000 0, .alloc 0x2000 0, .alloc 0x1000 0, .drop ⟨0x11000, 0x2000⟩] := by
    refine ⟨⟨by decide, by decide, ⟨0x10000, 0x10000, 0⟩, by decide, by decide⟩,
      ⟨by decide, by decide, ⟨0x11000, 0xf000, 0⟩, by decide, by decide⟩,
      ⟨by decide, by decide, ⟨0x13000, 0xd000, 0⟩, by decide, by decide⟩, ?_, trivial⟩
    change _ ∈ _
    decide
  refine ⟨hvalid, (run_iff (by decide) (by decide) hvalid).2.mpr ⟨trivial, trivial,
    trivial, ?_, trivial⟩⟩
  exact ⟨.inl ⟨⟨0x13000, 0x1000, 0⟩, by decide, by decide⟩,
    .inl ⟨⟨0x10000, 0x1000, 0⟩, by decide, by decide⟩⟩

/-- One range is allocated from a new container and dropped: the free entry above it is counted into
the dropped one and stays in the tree, so the two free entries overlap. -/
theorem run_drop_last : AlongRun step Valid (new 0x10000 0x20000)
    [.alloc 0x1000 0, .drop ⟨0x10000, 0x1000⟩] ∧
    (((new 0x10000 0x20000).step (.alloc 0x1000 0)).step
      (.drop ⟨0x10000, 0x1000⟩)).vmes.free.toList =
      [⟨0x11000, 0xf000, 0⟩, ⟨0x10000, 0x10000, 0⟩] ∧
    ¬ AlongRun step Keeps (new 0x10000 0x20000) [.alloc 0x1000 0, .drop ⟨0x10000, 0x1000⟩] := by
  have hfree : (((new 0x10000 0x20000).step (.alloc 0x1000 0)).step
      (.drop ⟨0x10000, 0x1000⟩)).vmes.free.toList =
        [⟨0x11000, 0xf000, 0⟩, ⟨0x10000, 0x10000, 0⟩] := by
    decide
  refine ⟨⟨⟨by decide, by decide, ⟨0x10000, 0x10000, 0⟩, by decide, by decide⟩, ?_, trivial⟩, hfree,
    ?_⟩
  · change _ ∈ _
    decide
  · rintro ⟨-, ⟨-, htiled, -⟩, -⟩
    have hpair := htiled.free
    rw [hfree] at hpair
    have hdisj := (List.pairwise_cons.mp hpair).1 _ (List.mem_singleton.mpr rfl)
    exact Set.disjoint_left.mp hdisj (show 0x11000 ∈ _ from ⟨by decide, by decide⟩)
      ⟨by decide, by decide⟩

end KernelMemory

end CabOS
