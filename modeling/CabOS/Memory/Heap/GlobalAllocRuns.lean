import CabOS.Memory.Heap.BuddyRuns
import CabOS.Memory.Heap.GlobalAllocInv

/-!
# Runs of the global allocator

Any number of calls of `alloc`, `dealloc` and `realloc` go on in any order, on any cores, while the
clients write to what they hold.  In every state that is reached, what is held is aligned, inside
the heap, and disjoint from everything else that is held, from the cache, from the headers of slab
pages and from the free blocks (`held_safe`).

The clients must not store the tag of a free block at the start of a page, and that is not enough:
`realloc` copies what they store elsewhere, and the copy may be at the start of a page.
`realloc_copies_tag` is such a run; it hands a block out while another client holds it.
-/

namespace CabOS

open DyadicBlock BuddyPageAllocator Option Multiset Prod Outcome

/-! ## The steps of a call -/

section

variable {s s' : Shared} {o : Outcome} {cpu : Option ℕ} {fuel ptr : ℕ} {l : Layout}
  {old new : Option Allocation}

/-- `alloc` looks into the cache and takes an object or goes on to the heap. -/
lemma Task.step_take (h : (Task.take l old).step cpu fuel s = some (s', o)) :
    s'.heap = s.heap ∧ (o = ⟨some (.allocate l old), 0⟩ ∨ ∃ v ≠ 0, o = allocReturns v l old) := by
  simp only [Task.step] at h
  cases hc : classIndexForLayout l with
  | none =>
    simp only [hc] at h
    obtain ⟨rfl, rfl⟩ := Prod.mk.inj (some.inj h)
    exact ⟨rfl, .inl rfl⟩
  | some c =>
    simp only [hc] at h
    split_ifs at h with hv
    · obtain ⟨rfl, rfl⟩ := Prod.mk.inj (some.inj h)
      exact ⟨rfl, .inr ⟨_, hv, rfl⟩⟩
    · obtain ⟨rfl, rfl⟩ := Prod.mk.inj (some.inj h)
      exact ⟨rfl, .inl rfl⟩

/-- `alloc` is served by the heap. -/
lemma Task.step_allocate (h : (Task.allocate l old).step cpu fuel s = some (s', o)) :
    ∃ p heap, s.heap.allocate fuel l = some (p, heap) ∧ s' = ⟨heap, s.cache⟩ ∧
    o = allocReturns p l old := by
  simp only [Task.step] at h
  cases halloc : s.heap.allocate fuel l with
  | none => simp [halloc] at h
  | some r =>
    simp only [halloc] at h
    obtain ⟨rfl, rfl⟩ := Prod.mk.inj (some.inj h)
    exact ⟨r.1, r.2, rfl, rfl, rfl⟩

/-- `dealloc` puts an object into the cache or goes on to the heap. -/
lemma Task.step_put (h : (Task.put ptr l new).step cpu fuel s = some (s', o)) :
    s'.heap = s.heap ∧ (o = ⟨none, carried new⟩ ∨ ∃ r, o = ⟨some (.free r l new), 0⟩) := by
  simp only [Task.step] at h
  cases hc : classIndexForLayout l with
  | none =>
    simp only [hc] at h
    obtain ⟨rfl, rfl⟩ := Prod.mk.inj (some.inj h)
    exact ⟨rfl, .inr ⟨ptr, rfl⟩⟩
  | some c =>
    simp only [hc] at h
    rcases hput : tryPutIntoCpuCache s.cache cpu c ptr with ⟨_ | r, cache⟩
    · simp only [hput] at h
      obtain ⟨rfl, rfl⟩ := Prod.mk.inj (some.inj h)
      exact ⟨rfl, .inr ⟨ptr, rfl⟩⟩
    · simp only [hput] at h
      split_ifs at h
      · obtain ⟨rfl, rfl⟩ := Prod.mk.inj (some.inj h)
        exact ⟨rfl, .inl rfl⟩
      · obtain ⟨rfl, rfl⟩ := Prod.mk.inj (some.inj h)
        exact ⟨rfl, .inr ⟨r, rfl⟩⟩

/-- `dealloc` gives a piece back to the heap. -/
lemma Task.step_free (h : (Task.free ptr l new).step cpu fuel s = some (s', o)) :
    ∃ heap, s.heap.free fuel ptr l = some heap ∧ s' = ⟨heap, s.cache⟩ ∧
    o = ⟨none, carried new⟩ := by
  simp only [Task.step] at h
  cases hfree : s.heap.free fuel ptr l with
  | none => simp [hfree] at h
  | some heap =>
    simp only [hfree] at h
    obtain ⟨rfl, rfl⟩ := Prod.mk.inj (some.inj h)
    exact ⟨heap, rfl, rfl, rfl⟩

/-- How a call of `realloc` goes on after `alloc`. -/
lemma allocReturns_some (v : ℕ) (l : Layout) (old : Allocation) :
    v = 0 ∧ allocReturns v l (some old) = ⟨none, {old}⟩ ∨
      v ≠ 0 ∧ allocReturns v l (some old) = ⟨some (.copy old (v, l)), 0⟩ := by
  by_cases hv : v = 0
  · exact .inl ⟨hv, by rw [allocReturns, if_pos hv]; rfl⟩
  · exact .inr ⟨hv, by rw [allocReturns, if_neg hv]⟩

/-- The pointer that `realloc` returns if it ends with this step: null if there was no memory. -/
def Task.result : Task → ℕ
  | .put _ _ new => new.elim 0 fst
  | .free _ _ new => new.elim 0 fst
  | _ => 0

/-- How many steps a call makes at most. -/
def Task.stepsLeft : Task → ℕ
  | .take _ _ => 5
  | .allocate _ _ => 4
  | .copy _ _ => 3
  | .put _ _ _ => 2
  | .free _ _ _ => 1

/-- A call that goes on hands nothing to the client yet, and has fewer steps left. -/
lemma Task.step_next {t t' : Task} (hstep : t.step cpu fuel s = some (s', o))
    (hnext : o.next = some t') :
    o.returned = 0 ∧ t'.stepsLeft < t.stepsLeft := by
  have halloc : ∀ v l old, (allocReturns v l old).next = some t' →
      (allocReturns v l old).returned = 0 ∧ t'.stepsLeft = 3 := by
    intro v l old h
    unfold allocReturns at h ⊢
    split_ifs at h ⊢
    cases old with
    | none => cases h
    | some a =>
      cases h
      exact ⟨rfl, rfl⟩
  cases t with
  | take l old =>
    obtain ⟨-, rfl | ⟨v, -, rfl⟩⟩ := Task.step_take hstep
    · cases hnext
      exact ⟨rfl, lt_add_one 4⟩
    · obtain ⟨hzero, hleft⟩ := halloc v l old hnext
      exact ⟨hzero, hleft.trans_lt (show 3 < 5 by decide)⟩
  | allocate l old =>
    obtain ⟨p, heap, -, -, rfl⟩ := Task.step_allocate hstep
    obtain ⟨hzero, hleft⟩ := halloc p l old hnext
    exact ⟨hzero, hleft.trans_lt (lt_add_one 3)⟩
  | copy old new =>
    obtain ⟨-, rfl⟩ := Prod.mk.inj (some.inj hstep)
    cases hnext
    exact ⟨rfl, lt_add_one 2⟩
  | put ptr l new =>
    obtain ⟨-, rfl | ⟨r, rfl⟩⟩ := Task.step_put hstep
    · cases hnext
    · cases hnext
      exact ⟨rfl, lt_add_one 1⟩
  | free ptr l new =>
    obtain ⟨heap, -, -, rfl⟩ := Task.step_free hstep
    cases hnext

end

/-! ## One step -/

/-- The allocations that a call in progress holds. -/
def Task.holds : Task → Multiset Allocation
  | .take _ old => carried old
  | .allocate _ old => carried old
  | .copy old new => {old, new}
  | .put ptr l new => (ptr, l) ::ₘ carried new
  | .free ptr l new => (ptr, l) ::ₘ carried new

/-- The allocations that are held after a step by the call and, thanks to it, by the client. -/
def Outcome.holds (o : Outcome) : Multiset Allocation := o.next.elim 0 Task.holds + o.returned

/-- The copy of `realloc` puts no tag at the start of a page. -/
def Task.CopiesNoTag (s : Shared) : Task → Prop
  | .copy old new =>
    StoresNoTag s.heap.mem (copyBytes s.heap.mem new.1 old.1 (min old.2.size new.2.size))
  | _ => True

lemma allocReturns_zero (l : Layout) (old : Option Allocation) :
    (allocReturns 0 l old).holds = carried old := by
  simp [allocReturns, holds]

lemma allocReturns_of_ne {p : ℕ} (hp : p ≠ 0) (l : Layout) (old : Option Allocation) :
    (allocReturns p l old).holds = (p, l) ::ₘ carried old := by
  cases old with
  | none => simp [allocReturns, holds, carried, hp]
  | some o =>
    simp only [allocReturns, holds, carried, hp, if_false, elim_some, Task.holds, add_zero]
    exact cons_swap _ _ _

variable {cache : CpuCache} {o : Outcome}

namespace Shared.Inv

variable {lo hi fuel core c p : ℕ} {s s' : Shared} {held rest : Multiset Allocation} {l : Layout}
  {preempt : Bool}

lemma served_of_class (hc : classIndexForLayout l = some c) : Served l := by
  intro hnone
  rw [hc] at hnone
  exact absurd hnone (by simp)

/-- An object that leaves the cache is held. -/
lemma tryTake (h : s.Inv lo hi held) (hc : classIndexForLayout l = some c) {v : ℕ}
    (htake : tryTakeFromCpuCache s.cache (tryCurrentCpu preempt core) c = (v, cache)) :
    v = 0 ∧ ({ s with cache := cache } : Shared).Inv lo hi held ∨
      v ≠ 0 ∧ ({ s with cache := cache } : Shared).Inv lo hi ((v, l) ::ₘ held) := by
  cases hcpu : tryCurrentCpu preempt core with
  | none =>
    rw [hcpu] at htake
    obtain ⟨rfl, rfl⟩ := Prod.mk.inj htake
    exact .inl ⟨rfl, h⟩
  | some i =>
    rw [hcpu] at htake
    obtain ⟨rfl, rfl⟩ := Prod.mk.inj htake
    have hswap := parked_update s.cache (mem_cacheSlots hcpu (classIndexForLayout_spec hc).1) 0
    by_cases hv : s.cache (i, c) = 0
    · refine .inl ⟨hv, h.of_owned h.served ?_⟩
      rw [hv] at hswap
      rw [ownedPieces, ownedPieces, add_right_cancel hswap]
    · refine .inr ⟨hv, h.of_owned (fun a ha => ?_) ?_⟩
      · rcases mem_cons.mp ha with rfl | ha
        · exact ⟨hv, served_of_class hc⟩
        · exact h.served a ha
      · simp only [slotPiece, if_neg hv, if_true, add_zero] at hswap
        rw [ownedPieces, ownedPieces, ← hswap, map_cons, pieceOf_object hc, ← singleton_add]
        abel

/-- An object goes into the cache, and the one that was there is held. -/
lemma tryPut (h : s.Inv lo hi ((p, l) ::ₘ held)) (hc : classIndexForLayout l = some c) {r : ℕ}
    (hput : tryPutIntoCpuCache s.cache (tryCurrentCpu preempt core) c p = (some r, cache)) :
    r = 0 ∧ ({ s with cache := cache } : Shared).Inv lo hi held ∨
      r ≠ 0 ∧ ({ s with cache := cache } : Shared).Inv lo hi ((r, l) ::ₘ held) := by
  have hp : p ≠ 0 := (h.served (p, l) (mem_cons_self _ _)).1
  have hrest : ∀ a ∈ held, a.1 ≠ 0 ∧ Served a.2 := fun a ha => h.served a (mem_cons_of_mem ha)
  cases hcpu : tryCurrentCpu preempt core with
  | none =>
    rw [hcpu] at hput
    exact absurd (congrArg fst hput) (by simp [tryPutIntoCpuCache])
  | some i =>
    rw [hcpu] at hput
    obtain ⟨hr, rfl⟩ := Prod.mk.inj hput
    obtain rfl := some.inj hr
    have hswap := parked_update s.cache (mem_cacheSlots hcpu (classIndexForLayout_spec hc).1) p
    simp only [slotPiece, if_neg hp] at hswap
    by_cases hv : s.cache (i, c) = 0
    · refine .inl ⟨hv, h.of_owned hrest ?_⟩
      rw [if_pos hv, add_zero] at hswap
      rw [ownedPieces, ownedPieces, hswap, map_cons, pieceOf_object hc, ← singleton_add]
      abel
    · refine .inr ⟨hv, h.of_owned (fun a ha => ?_) ?_⟩
      · rcases mem_cons.mp ha with rfl | ha
        · exact ⟨hv, served_of_class hc⟩
        · exact hrest a ha
      · rw [if_neg hv] at hswap
        rw [ownedPieces, ownedPieces, map_cons, map_cons, pieceOf_object hc,
          pieceOf_object hc, ← singleton_add, ← singleton_add]
        calc {Piece.object c (s.cache (i, c))} + held.map pieceOf +
          parked (Function.update s.cache (i, c) p)
            = held.map pieceOf + (parked (Function.update s.cache (i, c) p) +
              {.object c (s.cache (i, c))}) := by
              abel
          _ = held.map pieceOf + (parked s.cache + {.object c p}) := by rw [hswap]
          _ = {Piece.object c p} + held.map pieceOf + parked s.cache := by abel

/-- The bytes that `realloc` copies go to what it holds. -/
lemma copy (h : s.Inv lo hi held) (hhi : pageSize ∣ hi) {old new : Allocation} (hnew : new ∈ held)
    (hcopy : (Task.copy old new).CopiesNoTag s) :
    Shared.Inv lo hi
      ⟨s.heap.withMem (copyBytes s.heap.mem new.1 old.1 (min old.2.size new.2.size)),
        s.cache⟩ held := by
  refine h.write hhi (fun x hx => .inr (.inr ⟨new, hnew, ?_⟩)) hcopy
  have hin : new.1 ≤ x ∧ x < new.1 + min old.2.size new.2.size := by
    by_contra hout
    exact hx (if_neg hout)
  omega

/-- How `alloc` returns, after it was given a piece or none. -/
lemma allocReturns {old : Option Allocation}
    (h : p = 0 ∧ s.Inv lo hi (carried old + rest) ∨ p ≠ 0 ∧
      s.Inv lo hi ((p, l) ::ₘ (carried old + rest))) :
    s.Inv lo hi ((allocReturns p l old).holds + rest) := by
  rcases h with ⟨rfl, h⟩ | ⟨hp, h⟩
  · rw [allocReturns_zero]
    exact h
  · rw [allocReturns_of_ne hp, cons_add]
    exact h

/-- A step of a call keeps the invariant. -/
lemma task_step {t : Task} (h : s.Inv lo hi (t.holds + rest)) (hhi : pageSize ∣ hi)
    (hcopy : t.CopiesNoTag s) (hstep : t.step (tryCurrentCpu preempt core) fuel s = some (s', o)) :
    s'.Inv lo hi (o.holds + rest) := by
  cases t with
  | take l old =>
    simp only [Task.step] at hstep
    cases hc : classIndexForLayout l with
    | none =>
      simp only [hc] at hstep
      obtain ⟨rfl, rfl⟩ := Prod.mk.inj (some.inj hstep)
      simpa [holds, Task.holds] using h
    | some c =>
      rcases htake : tryTakeFromCpuCache s.cache (tryCurrentCpu preempt core) c with ⟨v, cache⟩
      simp only [hc, htake] at hstep
      have hv' := h.tryTake hc htake
      split_ifs at hstep with hv <;> obtain ⟨rfl, rfl⟩ := Prod.mk.inj (some.inj hstep)
      · exact allocReturns (.inr ⟨hv, (hv'.resolve_left fun hz => hv hz.1).2⟩)
      · simpa [holds, Task.holds] using (hv'.resolve_right fun hz => hv hz.1).2
  | allocate l old =>
    simp only [Task.step] at hstep
    cases halloc : s.heap.allocate fuel l with
    | none => simp [halloc] at hstep
    | some r =>
      simp only [halloc] at hstep
      obtain ⟨rfl, rfl⟩ := Prod.mk.inj (some.inj hstep)
      exact allocReturns (h.allocate halloc).2
  | copy old new =>
    obtain ⟨rfl, rfl⟩ := Prod.mk.inj (some.inj hstep)
    have hnew : new ∈ (Task.copy old new).holds + rest := by simp [Task.holds]
    simpa [holds, Task.holds, carried] using h.copy hhi hnew hcopy
  | put ptr l new =>
    simp only [Task.step] at hstep
    cases hc : classIndexForLayout l with
    | none =>
      simp only [hc] at hstep
      obtain ⟨rfl, rfl⟩ := Prod.mk.inj (some.inj hstep)
      simpa [holds, Task.holds] using h
    | some c =>
      simp only [hc] at hstep
      rw [Task.holds, cons_add] at h
      rcases hput : tryPutIntoCpuCache s.cache (tryCurrentCpu preempt core) c ptr with
        ⟨_ | r, cache⟩
      · simp only [hput] at hstep
        obtain ⟨rfl, rfl⟩ := Prod.mk.inj (some.inj hstep)
        have hcache : cache = s.cache := by
          unfold tryPutIntoCpuCache at hput
          cases hcpu : tryCurrentCpu preempt core with
          | none =>
            simp only [hcpu] at hput
            exact (Prod.mk.inj hput).2.symm
          | some i => simp [hcpu] at hput
        rw [hcache]
        simpa [holds, Task.holds] using h
      · simp only [hput] at hstep
        have hr := h.tryPut hc hput
        split_ifs at hstep with hzero <;> obtain ⟨rfl, rfl⟩ := Prod.mk.inj (some.inj hstep)
        · simpa [holds] using (hr.resolve_right fun hne => hne.1 hzero).2
        · simpa [holds, Task.holds] using (hr.resolve_left fun heq => hzero heq.1).2
  | free ptr l new =>
    rw [Task.holds, cons_add] at h
    obtain ⟨heap, n, heq, -, h'⟩ := h.free
    simp only [Task.step, heq] at hstep
    by_cases hn : n ≤ fuel
    · simp only [if_pos hn] at hstep
      obtain ⟨rfl, rfl⟩ := Prod.mk.inj (some.inj hstep)
      simpa [holds] using h'
    · simp [if_neg hn] at hstep

/-- Every call can go on. -/
lemma task_returns {t : Task} (h : s.Inv lo hi (t.holds + rest)) (cpu : Option ℕ) :
    ∃ fuel r, t.step cpu fuel s = some r := by
  cases t with
  | take l old =>
    refine ⟨0, ?_⟩
    simp only [Task.step]
    split
    · split_ifs <;> exact ⟨_, rfl⟩
    · exact ⟨_, rfl⟩
  | allocate l old =>
    obtain ⟨r, hr⟩ := h.allocate_returns l
    exact ⟨3, _, by simp only [Task.step, hr]; rfl⟩
  | copy old new => exact ⟨0, _, rfl⟩
  | put ptr l new =>
    refine ⟨0, ?_⟩
    simp only [Task.step]
    split
    · split
      · split_ifs <;> exact ⟨_, rfl⟩
      · exact ⟨_, rfl⟩
    · exact ⟨_, rfl⟩
  | free ptr l new =>
    rw [Task.holds, cons_add] at h
    obtain ⟨heap, n, heq, -⟩ := h.free
    exact ⟨n, _, by simp only [Task.step, heq, le_refl, if_true]; rfl⟩

end Shared.Inv

variable {taken : Multiset Allocation} {call : Call} {s : Shared} {rest : Multiset Allocation}

/-- A call goes on with what the client gave away, or it gives the same piece back with another
layout. -/
lemma Call.start_holds (hstart : call.start = some (taken, o)) :
    o.holds = taken ∨ ∃ p n m c, taken = {(p, n)} ∧ o.holds = {(p, m)} ∧
      classIndexForLayout n = some c ∧ classIndexForLayout m = some c := by
  cases call with
  | alloc l =>
    simp only [Call.start, bind_eq_bind, bind_eq_some_iff, some.injEq, Prod.mk.injEq] at hstart
    obtain ⟨n, -, rfl, rfl⟩ := hstart
    exact .inl rfl
  | dealloc ptr l =>
    simp only [Call.start, bind_eq_bind, bind_eq_some_iff, some.injEq, Prod.mk.injEq] at hstart
    obtain ⟨n, -, rfl, rfl⟩ := hstart
    exact .inl rfl
  | realloc ptr l newSize =>
    rw [Call.start] at hstart
    split_ifs at hstart with hptr hsize
    · simp only [bind_eq_bind, bind_eq_some_iff, some.injEq, Prod.mk.injEq] at hstart
      obtain ⟨m, -, n, -, rfl, rfl⟩ := hstart
      exact .inl rfl
    · simp only [bind_eq_bind, bind_eq_some_iff, some.injEq, Prod.mk.injEq] at hstart
      obtain ⟨n, -, rfl, rfl⟩ := hstart
      exact .inl rfl
    · simp only [bind_eq_bind, bind_eq_some_iff] at hstart
      obtain ⟨n, -, m, -, hstart⟩ := hstart
      split at hstart
      · rename_i c c' hn hm
        split_ifs at hstart with hcc
        · obtain ⟨rfl, rfl⟩ := Prod.mk.inj (some.inj hstart)
          exact .inr ⟨ptr, n, m, c, rfl, by simp [holds], hn, by rw [hm, hcc]⟩
        · obtain ⟨rfl, rfl⟩ := Prod.mk.inj (some.inj hstart)
          exact .inl rfl
      · obtain ⟨rfl, rfl⟩ := Prod.mk.inj (some.inj hstart)
        exact .inl rfl

/-- The start of a call keeps the invariant. -/
lemma Shared.Inv.call_start {lo hi : ℕ} (h : s.Inv lo hi (taken + rest))
    (hstart : call.start = some (taken, o)) : s.Inv lo hi (o.holds + rest) := by
  rcases Call.start_holds hstart with hsame | ⟨p, n, m, c, rfl, hm, hnc, hmc⟩
  · rw [hsame]
    exact h
  · rw [hm]
    refine h.of_owned (fun a ha => ?_) ?_
    · rcases mem_add.mp ha with ha | ha
      · obtain rfl := mem_singleton.mp ha
        exact ⟨(h.served (p, n) (by simp)).1, served_of_class hmc⟩
      · exact h.served a (mem_add.mpr (.inr ha))
    · simp only [ownedPieces, map_add, map_singleton, pieceOf_object hnc, pieceOf_object hmc]

/-! ## Runs -/

namespace GlobalAlloc

/-- All that is held. -/
def held (g : GlobalAlloc) : Multiset Allocation := g.live + (g.tasks.map Task.holds).sum

/-- The clients write to what they hold and outside the heap, and they store no tag at the start of
a page.  That they pass what they hold to `dealloc` and `realloc` is part of `Applies`. -/
def Allowed (lo hi : ℕ) (g : GlobalAlloc) : Event → Prop
  | .write mem =>
    (∀ x, mem x ≠ g.shared.heap.mem x → x < lo ∨ hi ≤ x ∨ ∃ a ∈ g.live, a.1 ≤ x ∧
      x < a.1 + a.2.size) ∧
      StoresNoTag g.shared.heap.mem mem
  | _ => True

/-- No copy of `realloc` puts a tag at the start of a page. -/
def CopiesNoTag (g : GlobalAlloc) : Event → Prop
  | .task t _ _ _ => t.CopiesNoTag g.shared
  | _ => True

/-- What is held after a step of a call. -/
lemma held_after (s : Shared) (live : Multiset Allocation) (tasks : Multiset Task) (o : Outcome) :
    (after s live tasks o).held = o.holds + (live + (tasks.map Task.holds).sum) := by
  cases hnext : o.next with
  | none =>
    simp only [held, after, holds, hnext, elim_none]
    abel
  | some t =>
    simp only [held, after, holds, hnext, elim_some, map_cons, sum_cons]
    abel

variable {lo hi : ℕ} {g g' g₀ : GlobalAlloc}

/-- An event keeps the invariant. -/
lemma inv_step {e : Event} (h : g.shared.Inv lo hi g.held) (hhi : pageSize ∣ hi)
    (hallowed : g.Allowed lo hi e)
    (hcopy : g.CopiesNoTag e) (happ : Applies g e g') : g'.shared.Inv lo hi g'.held := by
  cases happ with
  | @call s taken live tasks c o hstart =>
    rw [held_after]
    refine Shared.Inv.call_start ?_ hstart
    rw [← add_assoc]
    exact h
  | @task s s' live t tasks preempt core fuel o hstep =>
    rw [held_after]
    refine Shared.Inv.task_step ?_ hhi hcopy hstep
    have heq : GlobalAlloc.held ⟨s, live, t ::ₘ tasks⟩ =
      t.holds + (live + (tasks.map Task.holds).sum) := by
      simp only [held, map_cons, sum_cons]
      abel
    rw [← heq]
    exact h
  | write mem =>
    refine h.write hhi (fun x hx => ?_) hallowed.2
    rcases hallowed.1 x hx with hlt | hge | ⟨a, ha, hax⟩
    · exact .inl hlt
    · exact .inr (.inl hge)
    · exact .inr (.inr ⟨a, mem_add.mpr (.inl ha), hax⟩)

/-- A run keeps the invariant. -/
lemma inv_run (h : g₀.shared.Inv lo hi g₀.held) (hhi : pageSize ∣ hi)
    (hrun : Run (fun g e => g.Allowed lo hi e ∧ g.CopiesNoTag e) g₀ g) :
    g.shared.Inv lo hi g.held := by
  induction hrun with
  | start => exact h
  | step _ hP happ ih => exact inv_step ih hhi hP.1 hP.2 happ

/-- A new heap over a range has nothing handed out. -/
lemma heapInv_new {buddy : BuddyPageAllocator} {F : ℕ → List ℕ} (hbuddy : BuddyInv lo hi buddy F ∅)
    (hno : NoBuddies F) (hregions : buddy.regions = [⟨lo, hi⟩] ∨ lo = hi)
    (hbehind : Behind hi buddy.mem) :
    HeapInv lo hi ⟨fun _ => 0, fun _ => 0, buddy⟩ ∅ ∅ ⟨F, ∅, fun _ => [], fun _ => [], ∅⟩ where
  buddy := by
    have hempty : slabBlocks ∅ ∪ (∅ ∪ ∅) = (∅ : Set (ℕ × ℕ)) := by simp [slabBlocks]
    rw [hempty]
    exact hbuddy
  noBuddies := hno
  regions := hregions
  tagFree := by simp [TagFree]
  behind := hbehind
  pages := ⟨fun c p hp => absurd hp (by simp), fun c o ho => absurd ho (by simp)⟩
  lists := by
    refine ⟨fun k _ => ?_, by simp, by simp, by simp, by simp⟩
    simp [slabHeads, Chain]
  listed := by simp
  full := by simp
  slab_apart := by simp [slabBlocks]
  lost_apart := by simp

section

variable {mem : Memory} {offset len : ℕ} (hlo : lo = alignUp offset pageSize)
    (hhi : hi = max lo (alignDown (offset + len) pageSize))
include hlo hhi

/-- The heap after `initFromBlock`. -/
lemma start_heap :
    (start mem offset len).shared.heap =
      ⟨fun _ => 0, fun _ => 0, (BuddyPageAllocator.new mem).addRange lo
        ((hi - lo) / pageSize)⟩ := by
  simp only [start, HeapAllocator.initFromBlock, HeapAllocator.new, ← hlo]
  split_ifs with hle hzero
  · have heq : hi = lo := by omega
    rw [heq, Nat.sub_self, Nat.zero_div, addRange, if_pos rfl]
  · have heq : hi = alignDown (offset + len) pageSize := by omega
    rw [heq, hzero, addRange, if_pos rfl]
  · have heq : hi = alignDown (offset + len) pageSize := by omega
    rw [heq]

/-- The bounds of the heap are bounds of pages. -/
lemma bounds_dvd : pageSize ∣ lo ∧ pageSize ∣ hi := by
  have hlo' : pageSize ∣ lo := by
    rw [hlo]
    exact Dvd.intro_left _ rfl
  refine ⟨hlo', ?_⟩
  rcases max_cases lo (alignDown (offset + len) pageSize) with ⟨heq, -⟩ | ⟨heq, -⟩
  · rw [hhi, heq]
    exact hlo'
  · rw [hhi, heq]
    exact Dvd.intro_left _ rfl

/-- The invariant holds at the start. -/
lemma inv_start (hbound : hi < usizeBound) (hbehind : Behind hi mem) :
    (start mem offset len).shared.Inv lo hi (start mem offset len).held := by
  obtain ⟨hlo', hhi'⟩ := bounds_dvd hlo hhi
  have hheld : (start mem offset len).held = 0 := rfl
  have howned : ownedPieces (fun _ => 0) 0 = 0 := by
    simp [ownedPieces, parked, slotPiece]
  have hrange : lo + (hi - lo) / pageSize * pageSize = hi := by
    rw [Nat.div_mul_cancel (Nat.dvd_sub hhi' hlo')]
    omega
  obtain ⟨F, hinv, hno, hunt, hregions⟩ := addRange_inv mem hlo' hrange hbound
  rw [hheld]
  refine ⟨by simp, ?_, ⟨F, ∅, fun _ => [], fun _ => [], ∅⟩, ?_⟩
  · change (ownedPieces (fun _ => 0) 0).Nodup
    rw [howned]
    exact nodup_zero
  · rw [start_heap hlo hhi]
    change HeapInv lo hi _ (objects (ownedPieces (fun _ => 0) 0))
      (blocks (ownedPieces (fun _ => 0) 0)) _
    rw [howned]
    have hobjects : objects 0 = ∅ := by
      ext x
      simp [objects]
    have hblocks : blocks 0 = ∅ := by
      ext x
      simp [blocks]
    rw [hobjects, hblocks]
    exact heapInv_new hinv hno hregions (hunt.behind hbehind)

end

/-! ## Safety -/

/-- The bytes of an allocation. -/
def bytes (a : Allocation) : Set ℕ := Set.Ico a.1 (a.1 + a.2.size)

/-- What is held is aligned, in the range, and disjoint from all else. -/
structure Safe (lo hi : ℕ) (g : GlobalAlloc) : Prop where
  aligned : ∀ a ∈ g.held, a.2.align ∣ a.1
  inside : ∀ a ∈ g.held, lo ≤ a.1 ∧ a.1 + a.2.size ≤ hi
  apart : ∀ a b rest, g.held = a ::ₘ b ::ₘ rest → Disjoint (bytes a) (bytes b)
  /-- The objects in the cache. -/
  parked : ∀ i < maxCpus, ∀ c < numClasses, g.shared.cache (i, c) ≠ 0 → ∀ a ∈ g.held,
    Disjoint (bytes a) (Set.Ico (g.shared.cache (i, c)) (g.shared.cache (i, c) + classSize c))
  /-- The headers of the slab pages on the lists of partial and of full pages. -/
  headers : ∀ c < numClasses, ∀ head ∈ [g.shared.heap.partialSlabs c, g.shared.heap.fullSlabs c],
    ∃ pages, Chain (nextPage g.shared.heap.mem) 0 head pages ∧
      ∀ p ∈ pages, ∀ a ∈ g.held, Disjoint (bytes a) (Set.Ico p (p + SlabPageHeader.sizeOf))
  /-- The blocks on the free lists. -/
  free : ∀ k ≤ maxOrder, ∃ free,
    Chain (nextIn g.shared.heap.mem) buddyNone (g.shared.heap.buddy.freeHeads k) free ∧
        ∀ b ∈ free, ∀ a ∈ g.held, Disjoint (bytes a) (Set.Ico b (b + blockSizeBytes k))

/-- Distinct parts of what is owned are different pieces. -/
lemma owned_ne {held : Multiset Allocation} {a : Allocation} {A : Piece}
    (hnodup : (ownedPieces cache held).Nodup) (ha : held = a ::ₘ rest)
    (hA : A ∈ rest.map pieceOf + CabOS.parked cache) : pieceOf a ≠ A := by
  rintro rfl
  rw [ha, ownedPieces, map_cons, cons_add] at hnodup
  exact (nodup_cons.mp hnodup).1 hA

/-- An object of the cache is parked. -/
lemma mem_parked {i c : ℕ} (hi : i < maxCpus) (hc : c < numClasses)
    (hne : cache (i, c) ≠ 0) : .object c (cache (i, c)) ∈ CabOS.parked cache := by
  refine mem_sum.mpr ⟨(i, c), ?_, by simp [slotPiece, hne]⟩
  simp only [cacheSlots, Finset.mem_product, Finset.mem_range]
  exact ⟨hi, hc⟩

/-- Distinct parts of what is held do not meet. -/
lemma disjoint_bytes {held : Multiset Allocation} {a b : Allocation} (h : s.Inv lo hi held)
    (ha : held = a ::ₘ rest) (hb : b ∈ rest) : Disjoint (bytes a) (bytes b) := by
  obtain ⟨G, hG⟩ := h.heap
  have ha' : a ∈ held := by simp [ha]
  have hb' : b ∈ held := by simp [ha, hb]
  have howned : ∀ x ∈ held, pieceOf x ∈ ownedPieces s.cache held := fun x hx =>
    mem_add.mpr (.inl (mem_map_of_mem _ hx))
  refine Set.disjoint_left.mpr fun x hx hx' => ?_
  refine owned_ne h.nodup ha (mem_add.mpr (.inl (mem_map_of_mem _ hb))) ?_
  exact hG.piece_unique (howned a ha') (howned b hb') (mem_extent (h.served a ha').2 hx.1 hx.2)
    (mem_extent (h.served b hb').2 hx'.1 hx'.2)

/-- The invariant is enough for safety. -/
lemma Safe.of_inv (h : g.shared.Inv lo hi g.held) : g.Safe lo hi := by
  obtain ⟨G, hG⟩ := h.heap
  have howned : ∀ a ∈ g.held, pieceOf a ∈ ownedPieces g.shared.cache g.held := fun a ha =>
    mem_add.mpr (.inl (mem_map_of_mem _ ha))
  have hext : ∀ a ∈ g.held, ∀ x ∈ bytes a, x ∈ (pieceOf a).extent := fun a ha x hx =>
    mem_extent (h.served a ha).2 hx.1 hx.2
  refine ⟨fun a ha => hG.piece_aligned (h.served a ha).2 (howned a ha), fun a ha => ?_,
    fun a b rest heq => ?_, fun i hi' c hc hne a ha => ?_, fun c hc head hhead => ?_,
      fun k hk => ?_⟩
  · have hfirst := hG.piece_inside (howned a ha) (base_mem_extent (h.served a ha).2)
    by_cases hsize : a.2.size = 0
    · omega
    · have hlast : a.1 + (a.2.size - 1) ∈ bytes a := ⟨by omega, by omega⟩
      have := hG.piece_inside (howned a ha) (hext a ha _ hlast)
      omega
  · exact disjoint_bytes h heq (mem_cons_self b rest)
  · refine Set.disjoint_left.mpr fun x hx hx' => ?_
    obtain ⟨rest, heq⟩ := exists_cons_of_mem ha
    have hpark := mem_parked hi' hc hne
    refine owned_ne h.nodup heq (mem_add.mpr (.inr hpark)) ?_
    exact hG.piece_unique (howned a ha) (mem_add.mpr (.inr hpark)) (hext a ha x hx) hx'
  · -- the list of partial pages or the list of full ones
    obtain ⟨f, rfl⟩ : ∃ f, head =
      slabHeads g.shared.heap.partialSlabs g.shared.heap.fullSlabs (f, c) := by
      simp only [List.mem_cons, List.not_mem_nil, or_false] at hhead
      rcases hhead with rfl | rfl
      · exact ⟨false, rfl⟩
      · exact ⟨true, rfl⟩
    refine ⟨G.X (f, c), hG.lists.chain (f, c) hc, fun p hp a ha => ?_⟩
    refine Set.disjoint_left.mpr fun x hx hx' => ?_
    have hout := hG.piece_header (howned a ha) (hG.page_of_listed hp) (hext a ha x hx)
    have hin : p ≤ x ∧ x < p + 32 := hx'
    omega
  · refine ⟨G.F k, hG.buddy.chain k hk, fun b hb a ha => Set.disjoint_left.mpr fun x hx hx' => ?_⟩
    rw [blockSizeBytes_eq] at hx'
    exact hG.piece_free (howned a ha) (y := (k, b)) hb (hext a ha x hx) hx'

/-- In every state that is reached from a heap over the pages of a block of memory, what is held is
aligned, inside the heap and disjoint from everything else that is held, from the cache, from the
headers of slab pages and from the free blocks; and every call can go on.  No copy of `realloc` puts
the tag of a free block at the start of a page, and none lies just behind the heap at the start. -/
theorem held_safe (mem : Memory) (offset len lo hi : ℕ) (g : GlobalAlloc)
    (hlo : lo = alignUp offset pageSize) (hhi : hi = max lo (alignDown (offset + len) pageSize))
    (hbound : hi < usizeBound) (hbehind : Behind hi mem)
    (hrun : Run (fun g e => g.Allowed lo hi e ∧ g.CopiesNoTag e) (start mem offset len) g) :
    g.Safe lo hi ∧ ∀ t ∈ g.tasks, ∀ cpu, ∃ fuel r, t.step cpu fuel g.shared = some r := by
  have hinv := inv_run (inv_start hlo hhi hbound hbehind) (bounds_dvd hlo hhi).2 hrun
  refine ⟨Safe.of_inv hinv, fun t ht cpu => ?_⟩
  obtain ⟨rest, hrest⟩ := exists_cons_of_mem ht
  have heq : g.held = t.holds + (g.live + (rest.map Task.holds).sum) := by
    simp only [held, hrest, map_cons, sum_cons]
    abel
  rw [heq] at hinv
  exact hinv.task_returns cpu

/-! ## Calls that run to their end -/

/-- The steps of a call to its end, with nothing in between and if they pass a check: what they
leave behind, what `realloc` returns and what the client gets. -/
def finish (ok : GlobalAlloc → Task → Bool) (preempt : Bool) (fuel : ℕ)
    (live : Multiset Allocation) :
    ℕ → Shared → Task → Option (Shared × ℕ × Multiset Allocation)
  | 0, _, _ => none
  | n + 1, s, t =>
    if ok ⟨s, live, {t}⟩ t then
      (t.step (tryCurrentCpu preempt 0) fuel s).bind fun r =>
        r.2.next.elim (some (r.1, t.result, r.2.returned)) (finish ok preempt fuel live n r.1)
    else none

/-- A call from its start to its end. -/
def complete (ok : GlobalAlloc → Task → Bool) (preempt : Bool) (fuel : ℕ)
    (x : Shared × Multiset Allocation)
    (c : Call) : Option (Shared × Multiset Allocation) :=
  c.start.bind fun r => r.2.next.bind fun t =>
    if r.1 ≤ x.2 then
      (finish ok preempt fuel (r.2.returned + (x.2 - r.1)) 5 x.1 t).map fun y =>
        (y.1, y.2.2 + (r.2.returned + (x.2 - r.1)))
    else none

/-- Calls one after the other; one that does not come to its end is left out. -/
def calls (ok : GlobalAlloc → Task → Bool) (preempt : Bool) (fuel : ℕ)
    (x : Shared × Multiset Allocation)
    (c : Call) : Shared × Multiset Allocation := (complete ok preempt fuel x c).getD x

section

variable {P : GlobalAlloc → Event → Prop} {ok : GlobalAlloc → Task → Bool} {preempt : Bool}
  {fuel n q : ℕ}
  {live back : Multiset Allocation} {s s' : Shared} {t : Task} {x : Shared × Multiset Allocation}

/-- What the steps keep holds at the end of the call. -/
lemma finish_induction {I : Shared → Task → Prop} {J : Shared → ℕ → Multiset Allocation → Prop}
    (hnext : ∀ s t s' o t', I s t → ok ⟨s, live, {t}⟩ t →
      t.step (tryCurrentCpu preempt 0) fuel s = some (s', o) → o.next = some t' → I s' t')
    (hend : ∀ s t s' o, I s t → ok ⟨s, live, {t}⟩ t →
      t.step (tryCurrentCpu preempt 0) fuel s = some (s', o) → o.next = none →
      J s' t.result o.returned)
    (h : I s t) (hf : finish ok preempt fuel live n s t = some (s', q, back)) : J s' q back := by
  induction n generalizing s t with
  | zero => cases hf
  | succ n ih =>
    rw [finish] at hf
    split_ifs at hf with hok
    obtain ⟨⟨s₁, o⟩, hstep, hrest⟩ := bind_eq_some_iff.mp hf
    cases ho : o.next with
    | none =>
      simp only [ho, elim_none] at hrest
      cases hrest
      exact hend s t _ o h hok hstep ho
    | some t' =>
      simp only [ho, elim_some] at hrest
      exact ih (hnext s t s₁ o t' h hok hstep ho) hrest

variable (ok preempt fuel) (hcall : ∀ g c, P g (.call c))
  (htask : ∀ g t, ok g t = true → P g (.task t preempt 0 fuel))

include htask

/-- The only call comes to its end. -/
lemma Run.finish (hrun : Run P g₀ ⟨s, live, {t}⟩)
    (hf : finish ok preempt fuel live n s t = some (s', q, back)) :
    Run P g₀ ⟨s', back + live, 0⟩ := by
  refine finish_induction (I := fun s t => Run P g₀ ⟨s, live, {t}⟩)
    (J := fun s _ back => Run P g₀ ⟨s, back + live, 0⟩) ?_ ?_ hrun hf
  · intro s t s' o t' hrun hok hstep hnext
    have happ := @Applies.task s s' live t 0 preempt 0 fuel o hstep
    simp only [after, hnext, (Task.step_next hstep hnext).1, zero_add] at happ
    exact hrun.step (htask _ t hok) happ
  · intro s t s' o hrun hok hstep hnext
    have happ := @Applies.task s s' live t 0 preempt 0 fuel o hstep
    simp only [after, hnext] at happ
    exact hrun.step (htask _ t hok) happ

include hcall

/-- Calls are made one after the other. -/
lemma Run.calls (hrun : Run P g₀ ⟨x.1, x.2, 0⟩) {cs : List Call}
    (hcs : AlongRun (calls ok preempt fuel)
      (fun x c => (complete ok preempt fuel x c).isSome) x cs) :
    Run P g₀ ⟨(cs.foldl (calls ok preempt fuel) x).1,
      (cs.foldl (calls ok preempt fuel) x).2, 0⟩ := by
  refine hcs.invariant (I := fun x => Run P g₀ ⟨x.1, x.2, 0⟩) ?_ hrun
  intro x c hrun hsome
  obtain ⟨y, hy⟩ := isSome_iff_exists.mp hsome
  rw [GlobalAlloc.calls, hy]
  obtain ⟨⟨taken, o⟩, hstart, hy⟩ := bind_eq_some_iff.mp hy
  obtain ⟨t, hnext, hy⟩ := bind_eq_some_iff.mp hy
  split_ifs at hy with hle
  obtain ⟨⟨s', q, back⟩, hf, rfl⟩ := map_eq_some_iff.mp hy
  refine Run.finish ok preempt fuel htask (hrun.step (hcall _ c) ?_) hf
  have happ := @Applies.call x.1 taken (x.2 - taken) 0 c o hstart
  rw [add_tsub_cancel_of_le hle, after, show o.next = some t from hnext] at happ
  exact happ

end

/-- Requests for an object, for a page and for two pages. -/
def objectLayout : Layout := ⟨2048, 0, by norm_num⟩

def pageLayout : Layout := ⟨4096, 0, by norm_num⟩

def pairLayout : Layout := ⟨8192, 0, by norm_num⟩

/-- The copy of `realloc` goes to one page, and puts no tag at its start. -/
def copiesPage (g : GlobalAlloc) : Task → Bool
  | .copy old new =>
    decide (pageSize ∣ new.1 ∧ min old.2.size new.2.size ≤ pageSize ∧ ∀ k ≤ maxOrder,
      ¬ Tagged (copyBytes g.shared.heap.mem new.1 old.1 (min old.2.size new.2.size)) new.1 k)
  | _ => true

lemma copiesNoTag_of_copiesPage {g : GlobalAlloc} {t : Task} (h : copiesPage g t = true) :
    t.CopiesNoTag g.shared := by
  cases t with
  | copy old new =>
    obtain ⟨hnew, hsize, hfree⟩ := of_decide_eq_true h
    intro p hp ⟨a, hpa, hap, hchanged⟩
    have hin : new.1 ≤ a ∧ a < new.1 + min old.2.size new.2.size := by
      by_contra hout
      exact hchanged (if_neg hout)
    -- the copy changes the start of this page only
    obtain rfl : p = new.1 := by
      obtain ⟨i, rfl⟩ := hp
      obtain ⟨j, hj⟩ := hnew
      simp only [pageSize] at *
      omega
    exact hfree
  | _ => trivial

/-- A client gets an object of a heap with three pages. -/
def objectCall : Shared × Multiset Allocation :=
  calls copiesPage true 3 ((start (fun _ => 0) 8192 12288).shared, 0) (.alloc objectLayout)

/-- The client stores a byte in the object. -/
def byteStored : Shared × Multiset Allocation :=
  (⟨objectCall.1.heap.withMem (Function.update objectCall.1.heap.mem 18432 1), objectCall.1.cache⟩,
    objectCall.2)

/-- The object is moved to a page, and another one is taken from the cache. -/
def movedObject : List Call := [.realloc 18432 objectLayout 4096, .alloc objectLayout]

/-- The client may do so. -/
lemma allowed_byteStored : Allowed 8192 20480 ⟨objectCall.1, objectCall.2, 0⟩
    (.write (Function.update objectCall.1.heap.mem 18432 1)) := by
  have hbyte : ∀ x, Function.update objectCall.1.heap.mem 18432 1 x ≠ objectCall.1.heap.mem x →
    x = 18432 := by
    intro x hx
    by_contra hne
    exact hx (Function.update_of_ne hne ..)
  refine ⟨fun x hx => .inr (.inr ⟨(18432, objectLayout), by decide +kernel, ?_⟩), ?_⟩
  · have := hbyte x hx
    simp only [objectLayout]
    omega
  · rintro p hp ⟨x, hpx, hpx', hx⟩
    have := hbyte x hx
    simp only [pageSize] at hp
    omega

/-- An object with a byte of a client is moved to the first of three pages, and given back to the
cache, from which it is taken again. -/
theorem held_safe_moved : ∃ g : GlobalAlloc, g.live = {(18432, objectLayout), (8192, pageLayout)} ∧
    g.shared.heap.mem 8192 = 1 ∧ g.Safe 8192 20480 ∧
    ∀ t ∈ g.tasks, ∀ cpu, ∃ fuel r, t.step cpu fuel g.shared = some r := by
  have htask : ∀ g t, copiesPage g t = true → g.Allowed 8192 20480 (.task t true 0 3) ∧
      g.CopiesNoTag (.task t true 0 3) := fun g t ht => ⟨trivial, copiesNoTag_of_copiesPage ht⟩
  have hobject :
    AlongRun (calls copiesPage true 3) (fun x c => (complete copiesPage true 3 x c).isSome)
      ((start (fun _ => 0) 8192 12288).shared, 0) [.alloc objectLayout] := by decide +kernel
  have hmoved :
    AlongRun (calls copiesPage true 3) (fun x c => (complete copiesPage true 3 x c).isSome)
      byteStored movedObject := by decide +kernel
  have hstored : Run (fun g e => g.Allowed 8192 20480 e ∧
    g.CopiesNoTag e) (start (fun _ => 0) 8192 12288)
      ⟨byteStored.1, byteStored.2, 0⟩ :=
    (Run.calls _ true 3 (fun _ _ => ⟨trivial, trivial⟩) htask .start hobject).step
    ⟨allowed_byteStored, trivial⟩
      (.write _)
  have hrun := Run.calls _ true 3 (fun _ _ => ⟨trivial, trivial⟩) htask hstored hmoved
  have hbehind : Behind 20480 fun _ => 0 := fun k _ _ => not_tagged_of_magic rfl
  exact ⟨_,
    by decide +kernel, by decide +kernel, held_safe (fun _ => 0) 8192 12288 8192 20480 _ (by decide)
      (by decide) (by decide) hbehind hrun⟩

/-! ## A tag that is copied -/

/-- The heap and the clients after one got an object of a heap with three pages. -/
def objectTaken : Shared × Multiset Allocation :=
  calls (fun _ _ => true) true 3 ((start (fun _ => 0) 8192 12288).shared, 0) (.alloc objectLayout)

/-- The client stores the tag of a free page in the object. -/
def tagStored : Shared × Multiset Allocation :=
  (⟨objectTaken.1.heap.withMem (tagMem objectTaken.1.heap.mem 18432), objectTaken.1.cache⟩,
    objectTaken.2)

/-- The object is moved to a page, another page is taken and given back, and then two pages are
taken. -/
def movedTag : List Call :=
  [.realloc 18432 objectLayout 4096, .alloc pageLayout, .dealloc 12288 pageLayout,
    .alloc pairLayout]

/-- The client may do so: the object does not start a page. -/
lemma allowed_tagStored : Allowed 8192 20480 ⟨objectTaken.1, objectTaken.2, 0⟩
    (.write (tagMem objectTaken.1.heap.mem 18432)) := by
  have hobject : ∀ x, tagMem objectTaken.1.heap.mem 18432 x ≠ objectTaken.1.heap.mem x →
      18432 ≤ x ∧ x < 18432 + 24 := by
    intro x hx
    by_contra hout
    exact hx (tagMem_of_not_mem (by omega))
  refine ⟨fun x hx => .inr (.inr ⟨(18432, objectLayout), by decide +kernel, ?_⟩), ?_⟩
  · have := hobject x hx
    simp only [objectLayout]
    omega
  · rintro p hp ⟨x, hpx, hpx', hx⟩
    have := hobject x hx
    simp only [pageSize] at hp
    omega

/-- The heap has three pages.  A client stores the tag of a free page in an object, in the middle of
the third page, and `realloc` moves the object to the start of the first page.  When the second page
is given back it is merged with the first one, which is then handed out a second time. -/
theorem realloc_copies_tag : ∃ g, Run (Allowed 8192 20480) (start (fun _ => 0) 8192 12288) g ∧
    g.live = {(8192, pairLayout), (8192, pageLayout)} ∧ ¬ g.Safe 8192 20480 := by
  have hobject : AlongRun (calls (fun _ _ => true) true 3)
    (fun x c => (complete (fun _ _ => true) true 3 x c).isSome)
      ((start (fun _ => 0) 8192 12288).shared, 0) [.alloc objectLayout] := by decide +kernel
  have hmoved : AlongRun (calls (fun _ _ => true) true 3)
    (fun x c => (complete (fun _ _ => true) true 3 x c).isSome)
      tagStored movedTag := by decide +kernel
  have hlive : (movedTag.foldl (calls (fun _ _ => true) true 3) tagStored).2 =
      {(8192, pairLayout), (8192, pageLayout)} := by decide +kernel
  have hstored : Run (Allowed 8192 20480) (start (fun _ => 0) 8192 12288) ⟨tagStored.1,
    tagStored.2, 0⟩ :=
    (Run.calls _ true 3 (fun _ _ => trivial) (fun _ _ _ => trivial) .start hobject).step
    allowed_tagStored (.write _)
  have hrun := Run.calls _ true 3 (fun _ _ => trivial) (fun _ _ _ => trivial) hstored hmoved
  refine ⟨_, hrun, hlive, fun hsafe => ?_⟩
  have hdisjoint := hsafe.apart (8192, pairLayout) (8192, pageLayout) 0 ((add_zero _).trans hlive)
  have hpair : 8192 ∈ bytes (8192, pairLayout) := Set.mem_Ico.mpr ⟨le_rfl, by decide⟩
  have hpage : 8192 ∈ bytes (8192, pageLayout) := Set.mem_Ico.mpr ⟨le_rfl, by decide⟩
  exact Set.disjoint_left.mp hdisjoint hpair hpage

end GlobalAlloc

end CabOS
