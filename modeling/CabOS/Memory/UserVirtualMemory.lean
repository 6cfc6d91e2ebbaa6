import CabOS.Arch.Paging
import CabOS.Memory.FreeSet

/-!
# The address space of a user process

`VirtualMemory` divides the user window `[userspaceStart, userspaceEnd)` into mappings and free
ranges. `VirtualMemory.mmap` takes a range out of the free set, at a preferred base or by best fit,
and enters a mapping for it.

`VirtualMemory.Tiled` says that mappings and free ranges divide the window.  `Inv` adds what the
free set needs, and `mmap_cases` lists what a call can do.
-/

namespace CabOS

open SortedTree FreeSet Set

/-- Errors of file system calls. -/
inductive FsError where
  | pathMalformed
  | notFound
  | alreadyExists
  | noSpace
  | writeError
  | readError
  | invalidInput
  | invalidOperation
  | notImplemented
  | corrupted (message : String)
  | other (message : String)
  deriving DecidableEq, Repr

/-- A part of a file that backs a mapping. -/
structure FileMapping (V : Type) where
  /-- The file. -/
  vnode : V
  /-- Where in the file the mapping starts. -/
  fileOffset : ℕ
  /-- The number of bytes that come from the file, if not all. -/
  fileLength : Option ℕ

/-- What the pages of a mapping show. -/
inductive MapBacking (V : Type) where
  | file (fm : FileMapping V)
  | device (paddr : ℕ) (memoryInfo : PagingOptions)
  | anonymous

/-- Files whose pages can be mapped. -/
class VNode (V : Type) where
  /-- The special backing of a mapping from the given offset; an ordinary file has none. -/
  prepareMmap : V → ℕ → Except FsError (MapBacking V)

/-- Ordinary files, named by a number: they have no special backing. -/
structure OrdinaryFile where
  /-- The number of the file. -/
  inumber : ℕ

instance : VNode OrdinaryFile := ⟨fun _ _ => .error .notImplemented⟩

/-- The mapping of `[base, base + length)`. -/
structure Mapping (V : Type) where
  /-- What the pages show. -/
  backing : MapBacking V
  /-- The number of addresses. -/
  length : ℕ
  /-- The attributes of the pages. -/
  prot : PagingOptions
  /-- Whether writes reach the backing. -/
  shared : Bool
  /-- The lowest address. -/
  base : ℕ

/-- The lowest user address. -/
def userspaceStart : ℕ := 0x10000

/-- One past the highest user address. -/
def userspaceEnd : ℕ := 0x8000000000000000

/-- The free and the mapped ranges of an address space. -/
structure VirtualMemory (V : Type) where
  /-- The free ranges. -/
  freeSet : FreeSet
  /-- The mappings ordered by base. -/
  activeSet : SortedTree (Mapping.base (V := V))

variable {V : Type}

namespace VirtualMemory

/-- An address space without mappings; the whole window is free. -/
def new : VirtualMemory V where
  freeSet :=
    finalState (FreeSet.addRange userspaceStart (userspaceEnd - userspaceStart)) FreeSet.new
  activeSet := SortedTree.empty

section

variable [VNode V]

/-- The backing of a new mapping, after the checks of the length and of the file. -/
def prepareBacking (file : Option (FileMapping V)) (length : ℕ) (shared : Bool) :
    Except String (MapBacking V) := do
  if length % pageSize ≠ 0 then
    throw "map length must be aligned to page boundary"
  let backing ← match file with
    | some fm =>
      if fm.fileOffset % pageSize ≠ 0 then
        throw "file offset must be aligned to page boundary"
      else
        match VNode.prepareMmap fm.vnode fm.fileOffset with
        | .ok backing => pure backing
        | .error .notImplemented => pure (.file fm)
        | .error _ => throw "failed to prepare mmap"
    | none => pure .anonymous
  match backing with
  | .file fm =>
    if fm.fileLength.isSome ∧ shared then
      throw "we do not allow partial file maps if shared (this feature only affects the ELF loader)"
    match fm.fileLength with
    | some fileLength =>
      if fileLength > length then
        throw "file length is bigger than length of map"
    | none => pure ()
  | _ => pure ()
  return backing

/-- Run a computation on the free set. -/
def onFreeSet {α : Type} (x : EStateM (Fault String) FreeSet α) :
    EStateM (Fault String) (VirtualMemory V) α := fun vm =>
  match x vm.freeSet with
  | .ok a t => .ok a { vm with freeSet := t }
  | .error e t => .error e { vm with freeSet := t }

/-- Take the range of a new mapping out of the free set and return its base. -/
def takeRange (length : ℕ) : Option ℕ → EStateM (Fault String) FreeSet ℕ
  | some preferredBase => do
    FreeSet.removeRangeByBase preferredBase length
    pure preferredBase
  | none => FreeSet.removeRangeByLength length

/-- Map a file or anonymous memory and return the base of the mapping. -/
def mmap (file : Option (FileMapping V)) (length : ℕ) (prot : PagingOptions) (shared : Bool)
    (preferredBase : Option ℕ) : EStateM (Fault String) (VirtualMemory V) ℕ := do
  match prepareBacking file length shared with
  | .error e => throw (.err e)
  | .ok backing => do
    let base ← onFreeSet (takeRange length preferredBase)
    modify fun vm =>
      { vm with activeSet := vm.activeSet.insert ⟨backing, length, prot, shared, base⟩ }
    pure base

end

end VirtualMemory

/-! ## The division of the window -/

/-- The addresses of a mapping. -/
def Mapping.range (m : Mapping V) : Set ℕ := Set.Ico m.base (m.base + m.length)

/-- The addresses of a free range. -/
def Free.range (f : Free) : Set ℕ := Set.Ico f.base (f.base + f.length)

namespace VirtualMemory

variable {vm : VirtualMemory V} {preferredBase : Option ℕ} {s : FreeSet} {a length : ℕ}

/-- The mapped addresses. -/
def mapped (vm : VirtualMemory V) : Set ℕ := {a | ∃ m ∈ vm.activeSet, a ∈ m.range}

/-- Mappings and free ranges divide the user window. -/
structure Tiled (vm : VirtualMemory V) : Prop where
  /-- Every mapping is an interval of the window. -/
  inside : ∀ m ∈ vm.activeSet, userspaceStart ≤ m.base ∧ m.base + m.length ≤ userspaceEnd
  /-- Mappings are disjoint. -/
  active : vm.activeSet.toList.Pairwise fun m n => Disjoint m.range n.range
  /-- No address is both mapped and free. -/
  apart : ∀ m ∈ vm.activeSet, ∀ f ∈ vm.freeSet.baseSet, Disjoint m.range f.range
  /-- Free ranges are disjoint. -/
  free : vm.freeSet.baseSet.toList.Pairwise fun f g => Disjoint f.range g.range
  /-- The addresses that are mapped or free are those of the window. -/
  cover : vm.mapped ∪ vm.freeSet.addrs = Set.Ico userspaceStart userspaceEnd

/-- The window is divided and the free set is well-formed. -/
structure Inv (vm : VirtualMemory V) : Prop extends vm.Tiled where
  /-- The free set is well-formed. -/
  freeInv : vm.freeSet.Inv 0

/-- The free ranges of a well-formed set are disjoint. -/
lemma freeRanges_disjoint (h : s.Inv 0) :
    s.baseSet.toList.Pairwise fun f g => Disjoint f.range g.range := by
  refine h.sep.imp fun {f g} hfg => ?_
  rw [disjoint_left]
  rintro a ⟨-, h1⟩ ⟨h2, -⟩
  omega

/-- Entering the first range succeeds. -/
lemma addRange_window : ∃ s, addRange userspaceStart (userspaceEnd - userspaceStart)
    FreeSet.new = .ok () s ∧ s.Inv 0 ∧ s.addrs = Set.Ico userspaceStart userspaceEnd := by
  have hpos : 0 < userspaceEnd - userspaceStart := by decide
  have hbound : userspaceStart + (userspaceEnd - userspaceStart) < usizeBound := by decide
  rcases (FreeSet.inv_new 0).addRange_cases (Nat.zero_le 1) hpos hbound with
    ⟨s, e, hinv, haddrs, -⟩ | ⟨m, -, hdisj⟩
  · refine ⟨s, e, hinv, ?_⟩
    have hnone : FreeSet.new.addrs = ∅ := by
      simp [FreeSet.addrs, FreeSet.new]
    rw [haddrs, hnone, empty_union]
    rfl
  · refine absurd ?_ hdisj
    rw [disjoint_left]
    rintro a ⟨f, hf, -⟩ -
    exact not_mem_empty f hf

/-- The first address space is divided: all of it is free. -/
lemma inv_new : (new : VirtualMemory V).Inv := by
  obtain ⟨s, e, hinv, haddrs⟩ := addRange_window
  have hfree : (new : VirtualMemory V).freeSet = s := finalState_of_ok e
  have hactive : ∀ m, m ∉ (new : VirtualMemory V).activeSet := not_mem_empty
  refine ⟨⟨fun m hm => absurd hm (hactive m), List.Pairwise.nil,
    fun m hm => absurd hm (hactive m), ?_, ?_⟩, ?_⟩
  · rw [hfree]
    exact freeRanges_disjoint hinv
  · have hmapped : (new : VirtualMemory V).mapped = ∅ :=
      eq_empty_of_forall_notMem fun a ⟨m, hm, _⟩ => hactive m hm
    rw [hmapped, empty_union, hfree, haddrs]
  · rwa [hfree]

/-- The address space after the range `[base, base + length)` of the free range `f` was mapped. -/
def mapIn (vm : VirtualMemory V) (f : Free) (m : Mapping V) : VirtualMemory V where
  freeSet := vm.freeSet.cut f m.base m.length
  activeSet := vm.activeSet.insert m

section

variable {f : Free} {m : Mapping V} (h : vm.Inv) (hf : f ∈ vm.freeSet.baseSet)
  (hbase : f.base ≤ m.base) (hend : m.base + m.length ≤ f.base + f.length)

include h hf in
/-- A free range lies in the window. -/
lemma Inv.free_inside : userspaceStart ≤ f.base ∧ f.base + f.length ≤ userspaceEnd := by
  have hpos := h.freeInv.pos f hf
  have hmem : ∀ a ∈ f.range, a ∈ Set.Ico userspaceStart userspaceEnd := by
    intro a ha
    rw [← h.cover]
    exact .inr ⟨f, hf, ha⟩
  have hlo := hmem f.base ⟨le_rfl, by omega⟩
  have hhi := hmem (f.base + f.length - 1) ⟨by omega, by omega⟩
  rw [mem_Ico] at hlo hhi
  omega

/-- The addresses of a mapping are not free. -/
lemma Tiled.disjoint_addrs (h : vm.Tiled) {n : Mapping V} (hn : n ∈ vm.activeSet) :
    Disjoint n.range vm.freeSet.addrs := by
  rw [disjoint_left]
  rintro a ha ⟨g, hg, hga⟩
  exact disjoint_left.mp (h.apart n hn g hg) ha hga

include hf hbase hend

/-- The range of the new mapping was free. -/
lemma range_subset_addrs : m.range ⊆ vm.freeSet.addrs :=
  fun _ ha => ⟨f, hf, hbase.trans ha.1, lt_of_lt_of_le ha.2 hend⟩

include h

/-- Mapping a free range keeps the window divided. -/
lemma Inv.mapIn : (vm.mapIn f m).Inv := by
  have hcut := h.freeInv.cut hf hbase hend (Nat.zero_le _)
  have haddrs : (vm.mapIn f m).freeSet.addrs = vm.freeSet.addrs \ m.range :=
    h.freeInv.addrs_cut hf hbase hend
  have hsub := range_subset_addrs hf hbase hend
  refine ⟨⟨?_, ?_, ?_, freeRanges_disjoint hcut, ?_⟩, hcut⟩
  · intro n hn
    rcases mem_insert.mp hn with rfl | hn
    · have := h.free_inside hf
      omega
    · exact h.inside n hn
  · -- the new mapping is disjoint from the old ones, whichever place it takes among them
    have hnew : ∀ n ∈ vm.activeSet, Disjoint n.range m.range :=
      fun n hn => (h.disjoint_addrs hn).mono_right hsub
    exact pairwise_insert h.active (fun n hn _ => hnew n hn) fun n hn _ => (hnew n hn).symm
  · intro n hn g hg
    have hgsub : g.range ⊆ (vm.mapIn f m).freeSet.addrs := fun a ha => ⟨g, hg, ha⟩
    rw [haddrs] at hgsub
    rcases mem_insert.mp hn with rfl | hn
    · exact disjoint_left.mpr fun a ha hga => (hgsub hga).2 ha
    · exact (h.disjoint_addrs hn).mono_right fun a ha => (hgsub ha).1
  · have hmapped : (vm.mapIn f m).mapped = vm.mapped ∪ m.range := by
      ext a
      constructor
      · rintro ⟨n, hn, ha⟩
        rcases mem_insert.mp hn with rfl | hn
        · exact .inr ha
        · exact .inl ⟨n, hn, ha⟩
      · rintro (⟨n, hn, ha⟩ | ha)
        · exact ⟨n, mem_insert.mpr (.inr hn), ha⟩
        · exact ⟨m, mem_insert.mpr (.inl rfl), ha⟩
    rw [hmapped, haddrs, ← h.cover, union_assoc, union_sdiff_self,
      union_eq_self_of_subset_left hsub]

end

/-! ## What a call does -/

/-- Taking a range whose end does not wrap: it is cut out of a free range that contains it, or the
free set stays as it is. -/
lemma takeRange_cases (h : s.Inv 0) (length : ℕ)
    (hb : ∀ a, preferredBase = some a → a + length < usizeBound) :
    (∃ f ∈ s.baseSet, ∃ base, f.base ≤ base ∧ base + length ≤ f.base + f.length ∧
      base = preferredBase.getD f.base ∧
      takeRange length preferredBase s = .ok base (s.cut f base length)) ∨
    ∃ e, takeRange length preferredBase s = .error (.err e) s := by
  cases preferredBase with
  | none =>
    rcases h.removeRangeByLength_cases length with ⟨f, hf, hle, -, e⟩ | ⟨m, e, -⟩
    · exact .inl ⟨f, hf, f.base, le_rfl, by omega, rfl, e⟩
    · exact .inr ⟨m, e⟩
  | some a =>
    rcases h.removeRangeByBase_cases (hb a rfl) with ⟨f, hf, hle, hend, e⟩ | ⟨m, e, -⟩
    · refine .inl ⟨f, hf, a, hle, hend, rfl, ?_⟩
      simp [takeRange, e]
    · refine .inr ⟨m, ?_⟩
      simp [takeRange, e]

/-- A fixed range whose end wraps is compared with its wrapped end. -/
lemma takeRange_wrapped (h : s.Inv 0) (ha : a < usizeBound)
    (hlen : length < usizeBound) (hwrap : usizeBound ≤ a + length) :
    ((∃ f, s.baseSet.upperBound a = some f ∧ a + length - usizeBound ≤ f.base + f.length) ∧
      ∃ t, takeRange length (some a) s = .ok a t) ∨
    ((¬ ∃ f, s.baseSet.upperBound a = some f ∧ a + length - usizeBound ≤ f.base + f.length) ∧
      ∃ e, takeRange length (some a) s = .error (.err e) s) := by
  have hend : wadd a length = a + length - usizeBound := by
    rw [wadd, Nat.mod_eq_sub_mod hwrap, Nat.mod_eq_of_lt (by omega)]
  cases hub : s.baseSet.upperBound a with
  | none =>
    refine .inr ⟨by simp, "there is no free range <= base", ?_⟩
    simp [takeRange, removeRangeByBase, hub]
  | some f =>
    obtain ⟨hf, -, -⟩ := upperBound_eq_some hub
    have hfend : wadd f.base f.length = f.base + f.length := wadd_eq (h.bound f hf)
    by_cases hlt : f.base + f.length < a + length - usizeBound
    · refine .inr ⟨?_, "range can't be cleanly removed", ?_⟩
      · rintro ⟨g, hg, hle⟩
        cases hg
        omega
      · simp [takeRange, removeRangeByBase, hub, hfend, hend, if_pos hlt]
    · refine .inl ⟨⟨f, rfl, not_lt.mp hlt⟩, ?_⟩
      -- both pieces are entered without a check, so the call succeeds whatever they are
      simp only [takeRange, removeRangeByBase, exec_bind, exec_get, hub, hfend, hend,
        if_neg hlt, removeRangeByBaseUnchecked, h.removeFromSets_eq hf]
      split_ifs <;> exact ⟨_, rfl⟩

variable [VNode V]

/-- A call of `mmap` whose end does not wrap maps a free range or fails and changes nothing. -/
lemma Inv.mmap_cases (h : vm.Inv) (file : Option (FileMapping V)) (length : ℕ)
    (prot : PagingOptions) (shared : Bool)
    (hb : ∀ a, preferredBase = some a → a + length < usizeBound) :
    (∃ f ∈ vm.freeSet.baseSet, ∃ backing, ∃ m :
      Mapping V, f.base ≤ m.base ∧ m.base + m.length ≤ f.base + f.length ∧
      mmap file length prot shared preferredBase vm = .ok m.base (vm.mapIn f m) ∧
      prepareBacking file length shared = .ok backing ∧
      m = ⟨backing, length, prot, shared, preferredBase.getD f.base⟩) ∨
    ∃ e, mmap file length prot shared preferredBase vm = .error (.err e) vm := by
  cases hprep : prepareBacking file length shared with
  | error e => exact .inr ⟨e, by simp [mmap, hprep]⟩
  | ok backing =>
    rcases takeRange_cases h.freeInv length hb with ⟨f, hf, base, hle, hend, hbase, e⟩ | ⟨m, e⟩
    · refine .inl ⟨f, hf, backing, ⟨backing, length, prot, shared, base⟩, hle, hend, ?_, rfl,
        by rw [hbase]⟩
      simp only [mmap, hprep, exec_bind, onFreeSet, e, exec_modify, exec_pure]
      rfl
    · refine .inr ⟨m, ?_⟩
      simp [mmap, hprep, onFreeSet, e]

/-- A fixed request whose end wraps is mapped where it was asked for, unless the checks of the file
or the comparison with the wrapped end refuse it. -/
lemma Inv.mmap_wrapped (h : vm.Inv) (file : Option (FileMapping V))
    (prot : PagingOptions) (shared : Bool) (ha : a < usizeBound) (hlen : length < usizeBound)
    (hwrap : usizeBound ≤ a + length) :
    (((∃ backing, prepareBacking file length shared = .ok backing) ∧
        ∃ f, vm.freeSet.baseSet.upperBound a = some f ∧
        a + length - usizeBound ≤ f.base + f.length) ∧
      ∃ t, ∃ m ∈ t.activeSet, m.base = a ∧ m.length = length ∧
      mmap file length prot shared (some a) vm = .ok a t) ∨
    ((¬ ((∃ backing, prepareBacking file length shared = .ok backing) ∧
        ∃ f, vm.freeSet.baseSet.upperBound a = some f ∧
        a + length - usizeBound ≤ f.base + f.length)) ∧
      ∃ e, mmap file length prot shared (some a) vm = .error (.err e) vm) := by
  cases hprep : prepareBacking file length shared with
  | error e => exact .inr ⟨by simp, e, by simp [mmap, hprep]⟩
  | ok backing =>
    rcases takeRange_wrapped h.freeInv ha hlen hwrap with ⟨hf, t, e⟩ | ⟨hf, m, e⟩
    · refine .inl ⟨⟨⟨backing, rfl⟩, hf⟩,
        ⟨t, vm.activeSet.insert ⟨backing, length, prot, shared, a⟩⟩,
        ⟨backing, length, prot, shared, a⟩, mem_insert.mpr (.inl rfl), rfl, rfl, ?_⟩
      simp only [mmap, hprep, exec_bind, onFreeSet, e, exec_modify, exec_pure]
    · refine .inr ⟨fun hboth => hf hboth.2, m, ?_⟩
      simp [mmap, hprep, onFreeSet, e]

end VirtualMemory

end CabOS
