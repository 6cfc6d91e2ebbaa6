import CabOS.Memory.Heap.GlobalAllocRuns

/-!
# Following one call of `realloc`

A call of `realloc` allocates a new block, copies the bytes and gives the old block up, while other
calls go on and the clients write to what they hold.  `Follows` runs the system with one call apart
from the others.  Until the call gives the old block up, its bytes are those at the start of the
call, since nobody else holds it; then the new block has them.  A step of the call changes no byte
of what others hold (`Shared.Inv.task_kept`).

All this needs that no block in use looks free.  That the clients store no tag is not enough if the
heap ends one block before the end of the address space: `realloc_breaks_copy` is such a run, in
which the tag lies behind the heap.
-/

namespace CabOS

open DyadicBlock BuddyPageAllocator Option Multiset Set

/-! ## What a step leaves alone -/

/-- The allocations whose bytes the next step of a call leaves alone. -/
def Task.spares : Task → Multiset Allocation
  | .take _ old => carried old
  | .allocate _ old => carried old
  | .copy old _ => {old}
  | .put _ _ new => carried new
  | .free _ _ new => carried new

namespace Shared.Inv

variable {lo hi fuel : ℕ} {s s' : Shared} {rest : Multiset Allocation} {cpu : Option ℕ}

/-- A step of a call leaves the bytes of what others hold alone. -/
lemma task_kept {t : Task} {o : Outcome} (h : s.Inv lo hi (t.holds + rest))
    (hstep : t.step cpu fuel s = some (s', o)) : Kept (t.spares + rest) s.heap.mem s'.heap.mem := by
  cases t with
  | take l old =>
    rw [(Task.step_take hstep).1]
    exact .refl _ _
  | allocate l old =>
    obtain ⟨p, heap, halloc, rfl, -⟩ := Task.step_allocate hstep
    exact (h.allocate halloc).1
  | copy old new =>
    obtain ⟨rfl, -⟩ := Prod.mk.inj (some.inj hstep)
    intro a ha x hx hx'
    have heq : (Task.copy old new).holds + rest = new ::ₘ ({old} + rest) := by
      rw [Task.holds, insert_eq_cons, cons_add, singleton_add, singleton_add, cons_swap]
    have hdisjoint := GlobalAlloc.disjoint_bytes h heq ha
    refine if_neg fun hin => Set.disjoint_left.mp hdisjoint ?_ (Set.mem_Ico.mpr ⟨hx, hx'⟩)
    exact mem_Ico.mpr ⟨hin.1, by omega⟩
  | put ptr l new =>
    rw [(Task.step_put hstep).1]
    exact .refl _ _
  | free ptr l new =>
    rw [Task.holds, cons_add] at h
    obtain ⟨heap, n, heq, hkept, -⟩ := h.free
    obtain ⟨heap', hfree, rfl, -⟩ := Task.step_free hstep
    rw [heq] at hfree
    split_ifs at hfree
    cases hfree
    exact hkept

end Shared.Inv

/-! ## Runs without tags in blocks in use -/

namespace GlobalAlloc

/-- Nothing that is held starts a page with the tag of a free block. -/
def Untagged (mem : Memory) (held : Multiset Allocation) : Prop :=
  ∀ a ∈ held, pageSize ∣ a.1 → ∀ k ≤ maxOrder, ¬ Tagged mem a.1 k

instance (mem : Memory) (held : Multiset Allocation) : Decidable (Untagged mem held) :=
  inferInstanceAs (Decidable (∀ a ∈ held, _))

/-- The clients write to what they hold and outside the heap, and neither they nor a copy of
`realloc` put a tag into a block in use. -/
def Clean (lo hi : ℕ) (g : GlobalAlloc) : Event → Prop
  | .write mem =>
    (∀ x, mem x ≠ g.shared.heap.mem x → x < lo ∨ hi ≤ x ∨ ∃ a ∈ g.live, a.1 ≤ x ∧
      x < a.1 + a.2.size) ∧
      Untagged mem g.held
  | .task (.copy old new) _ _ _ =>
    Untagged (copyBytes g.shared.heap.mem new.1 old.1 (min old.2.size new.2.size)) g.held
  | _ => True

/-- No tag is written just behind the heap. -/
def Guarded (hi : ℕ) : Event → Prop
  | .write mem => Behind hi mem
  | _ => True

variable {lo hi : ℕ} {g g' g₀ : GlobalAlloc} {e : Event} {p newSize : ℕ}

/-- An event without tags keeps the invariant. -/
lemma inv_step_clean (h : g.shared.Inv lo hi g.held) (hhi : pageSize ∣ hi)
    (hclean : g.Clean lo hi e)
    (hguarded : Guarded hi e) (happ : Applies g e g') : g'.shared.Inv lo hi g'.held := by
  cases happ with
  | @call s taken live tasks c o hstart =>
    exact inv_step (e := .call c) h hhi trivial trivial (.call hstart)
  | @task s s' live t tasks preempt core fuel o hstep =>
    cases t with
    | copy old new =>
      obtain ⟨rfl, rfl⟩ := Prod.mk.inj (some.inj hstep)
      have hheld :
        (after ⟨s.heap.withMem (copyBytes s.heap.mem new.1 old.1 (min old.2.size new.2.size)),
          s.cache⟩
          live tasks ⟨some (.put old.1 old.2 (some new)), 0⟩).held =
            held ⟨s, live, .copy old new ::ₘ tasks⟩ := by
        simp [held, after, Task.holds, carried]
      have hnew : new ∈ held ⟨s, live, .copy old new ::ₘ tasks⟩ := by
        simp [held, Task.holds]
      obtain ⟨G, hG⟩ := h.heap
      rw [hheld]
      refine h.write_clean (fun x hx => .inr (.inr ⟨new, hnew, ?_⟩)) hclean ?_
      · have hin : new.1 ≤ x ∧ x < new.1 + min old.2.size new.2.size := by
          by_contra hout
          exact hx (if_neg hout)
        omega
      · -- the copy stays inside the heap
        have hend := (Safe.of_inv h).inside new hnew
        intro k hk heq htag
        refine hG.behind k hk heq (Shared.Inv.tagged_congr (fun x hx hx' => if_neg ?_) htag)
        omega
    | _ =>
      have happ := @Applies.task s s' live _ tasks preempt core fuel o hstep
      refine inv_step h hhi ?_ ?_ happ <;> trivial
  | write mem =>
    refine h.write_clean (fun x hx => ?_) hclean.2 hguarded
    rcases hclean.1 x hx with hlt | hge | ⟨a, ha, hax⟩
    · exact .inl hlt
    · exact .inr (.inl hge)
    · exact .inr (.inr ⟨a, mem_add.mpr (.inl ha), hax⟩)

/-- A run without tags keeps the invariant. -/
lemma inv_run_clean (h : g₀.shared.Inv lo hi g₀.held) (hhi : pageSize ∣ hi)
    (hrun : Run (fun g e => g.Clean lo hi e ∧ Guarded hi e) g₀ g) : g.shared.Inv lo hi g.held := by
  induction hrun with
  | start => exact h
  | step _ hP happ ih => exact inv_step_clean ih hhi hP.1 hP.2 happ

/-! ## One call apart from the others -/

/-- How far a call has come. -/
inductive Progress where
  | running (t : Task)
  /-- The call has returned the pointer, and `back` belongs to the client again. -/
  | returned (ptr : ℕ) (back : Multiset Allocation)

/-- The progress of a call after a step with an outcome, when `ptr` is what it returns if this is
the end. -/
def Progress.after (ptr : ℕ) (o : Outcome) : Progress :=
  match o.next with
  | some t => .running t
  | none => .returned ptr o.returned

/-- The whole system, from the others and the call. -/
def withCall (g : GlobalAlloc) : Progress → GlobalAlloc
  | .running t => ⟨g.shared, g.live, t ::ₘ g.tasks⟩
  | .returned _ back => ⟨g.shared, back + g.live, g.tasks⟩

/-- A call of `realloc` is made in the state `g₀`, and it goes on while other events happen; `g` is
the system without the call. -/
inductive Follows (P : GlobalAlloc → Event → Prop) (p : ℕ) (l : Layout) (newSize : ℕ)
    (g₀ : GlobalAlloc) :
    GlobalAlloc → Progress → Prop
  | call {s : Shared} {taken live : Multiset Allocation} {tasks : Multiset Task} {o : Outcome}
      (hg₀ : g₀ = ⟨s, taken + live, tasks⟩)
      (hstart : (Call.realloc p l newSize).start = some (taken, o)) :
      Follows P p l newSize g₀ ⟨s, live, tasks⟩ (.after p o)
  | other {g g' : GlobalAlloc} {t : Task} {e : Event} (h : Follows P p l newSize g₀ g (.running t))
      (hP : P (g.withCall (.running t)) e) (happ : Applies g e g') :
      Follows P p l newSize g₀ g' (.running t)
  | own {g : GlobalAlloc} {t : Task} {preempt : Bool} {core fuel : ℕ} {s' : Shared} {o : Outcome}
      (h : Follows P p l newSize g₀ g (.running t))
      (hP : P (g.withCall (.running t)) (.task t preempt core fuel))
      (hstep : t.step (tryCurrentCpu preempt core) fuel g.shared = some (s', o)) :
      Follows P p l newSize g₀ ⟨s', g.live, g.tasks⟩ (.after t.result o)

/-- The others go on beside the call. -/
lemma Applies.beside (happ : Applies g e g') (t : Task) :
    Applies (g.withCall (.running t)) e (g'.withCall (.running t)) := by
  cases happ with
  | @call s taken live tasks c o hstart =>
    have happ := @Applies.call s taken live (t ::ₘ tasks) c o hstart
    have heq : after s live (t ::ₘ tasks) o = (after s live tasks o).withCall (.running t) := by
      cases hnext : o.next with
      | none => simp [after, withCall, hnext]
      | some t' => simp [after, withCall, hnext, cons_swap t t']
    rw [← heq]
    exact happ
  | @task s s' live t' tasks preempt core fuel o hstep =>
    have happ := @Applies.task s s' live t' (t ::ₘ tasks) preempt core fuel o hstep
    have heq : after s' live (t ::ₘ tasks) o = (after s' live tasks o).withCall (.running t) := by
      cases hnext : o.next with
      | none => simp [after, withCall, hnext]
      | some t'' => simp [after, withCall, hnext, cons_swap t t'']
    rw [← heq, withCall, cons_swap]
    exact happ
  | write mem => exact Applies.write mem

/-! ## What the call does -/

/-- A call of `realloc` in progress: it wants to move the allocation `old` to a block with the
layout `m`.  Until the bytes are copied the old block has the bytes of `mem₀`, and then the new one.
-/
def Moving (old : Allocation) (m : Layout) (mem₀ mem : Memory) : Task → Prop
  | .take l o => l = m ∧ o = some old ∧ Kept {old} mem₀ mem
  | .allocate l o => l = m ∧ o = some old ∧ Kept {old} mem₀ mem
  | .copy o new => o = old ∧ new.1 ≠ 0 ∧ new.2 = m ∧ Kept {old} mem₀ mem
  | .put _ _ new => ∃ q, new = some (q, m) ∧ q ≠ 0 ∧
    ∀ i < min old.2.size m.size, mem (q + i) = mem₀ (old.1 + i)
  | .free _ _ new => ∃ q, new = some (q, m) ∧ q ≠ 0 ∧
    ∀ i < min old.2.size m.size, mem (q + i) = mem₀ (old.1 + i)

/-- How far the call has come. -/
def Moves (old : Allocation) (m : Layout) (mem₀ mem : Memory) : Progress → Prop
  | .running t => Moving old m mem₀ mem t
  | .returned ptr back =>
    ptr = 0 ∧ back = {old} ∧ Kept {old} mem₀ mem ∨
      ptr ≠ 0 ∧ back = {(ptr, m)} ∧ ∀ i < min old.2.size m.size, mem (ptr + i) = mem₀ (old.1 + i)

section

variable {old : Allocation} {m : Layout} {mem₀ mem mem' : Memory} {s s' : Shared}
  {t : Task} {o : Outcome}
  {rest : Multiset Allocation} {cpu : Option ℕ} {fuel : ℕ}

/-- The call does not notice what does not change its blocks. -/
lemma Moving.congr (h : Moving old m mem₀ mem t) (hkept : Kept t.holds mem mem') :
    Moving old m mem₀ mem' t := by
  have hmoved : ∀ q, (q, m) ∈ t.holds →
    (∀ i < min old.2.size m.size, mem (q + i) = mem₀ (old.1 + i)) →
      ∀ i < min old.2.size m.size, mem' (q + i) = mem₀ (old.1 + i) := fun q hq hbytes i hi => by
    rw [hkept (q, m) hq (q + i) (Nat.le_add_right q i) (by simp only; omega), hbytes i hi]
  cases t with
  | take l o =>
    obtain ⟨rfl, rfl, hold⟩ := h
    exact ⟨rfl, rfl, hold.trans hkept⟩
  | allocate l o =>
    obtain ⟨rfl, rfl, hold⟩ := h
    exact ⟨rfl, rfl, hold.trans hkept⟩
  | copy o new =>
    obtain ⟨rfl, hne, rfl, hold⟩ := h
    exact ⟨rfl, hne, rfl, hold.trans fun a ha =>
      hkept a (by simp [Task.holds, mem_singleton.mp ha])⟩
  | put ptr l new =>
    obtain ⟨q, rfl, hne, hbytes⟩ := h
    exact ⟨q, rfl, hne, hmoved q (by simp [Task.holds, carried]) hbytes⟩
  | free ptr l new =>
    obtain ⟨q, rfl, hne, hbytes⟩ := h
    exact ⟨q, rfl, hne, hmoved q (by simp [Task.holds, carried]) hbytes⟩

/-- A step of the call. -/
lemma Moving.step (h : Moving old m mem₀ s.heap.mem t)
    (hkept : Kept t.spares s.heap.mem s'.heap.mem)
    (hstep : t.step cpu fuel s = some (s', o)) :
    Moves old m mem₀ s'.heap.mem (.after t.result o) := by
  cases t with
  | take l ol =>
    obtain ⟨rfl, rfl, hold⟩ := h
    obtain ⟨hheap, rfl | ⟨v, hv, rfl⟩⟩ := Task.step_take hstep
    · rw [hheap]
      exact ⟨rfl, rfl, hold⟩
    · rcases allocReturns_some v l old with ⟨hzero, -⟩ | ⟨-, heq⟩
      · exact absurd hzero hv
      · rw [heq, hheap]
        exact ⟨rfl, hv, rfl, hold⟩
  | allocate l ol =>
    obtain ⟨rfl, rfl, hold⟩ := h
    obtain ⟨p, heap, -, rfl, rfl⟩ := Task.step_allocate hstep
    rcases allocReturns_some p l old with ⟨-, heq⟩ | ⟨hne, heq⟩
    · rw [heq]
      exact .inl ⟨rfl, rfl, hold.trans hkept⟩
    · rw [heq]
      exact ⟨rfl, hne, rfl, hold.trans hkept⟩
  | copy ol new =>
    obtain ⟨rfl, hne, rfl, hold⟩ := h
    obtain ⟨rfl, rfl⟩ := Prod.mk.inj (some.inj hstep)
    refine ⟨new.1, rfl, hne, fun i hi => ?_⟩
    have hcopied : copyBytes s.heap.mem new.1 ol.1 (min ol.2.size new.2.size) (new.1 + i) =
      s.heap.mem (ol.1 + i) := by
      rw [copyBytes, if_pos ⟨by omega, by omega⟩, Nat.add_sub_cancel_left]
    exact hcopied.trans (hold ol (mem_singleton_self ol) _ (by omega) (by omega))
  | put ptr l new =>
    obtain ⟨q, rfl, hne, hbytes⟩ := h
    obtain ⟨hheap, rfl | ⟨r, rfl⟩⟩ := Task.step_put hstep
    · rw [hheap]
      exact .inr ⟨hne, rfl, hbytes⟩
    · rw [hheap]
      exact ⟨q, rfl, hne, hbytes⟩
  | free ptr l new =>
    obtain ⟨q, rfl, hne, hbytes⟩ := h
    obtain ⟨heap, -, rfl, rfl⟩ := Task.step_free hstep
    refine .inr ⟨hne, rfl, fun i hi => ?_⟩
    exact (hkept (q, m) (mem_singleton_self _) (q + i) (by omega) (by simp only; omega)).trans
      (hbytes i hi)

/-- The start of the call: it keeps an object that stays in its class, and otherwise looks for a new
block. -/
lemma realloc_start {l n : Layout} {taken : Multiset Allocation} (hp : p ≠ 0) (hsize : newSize ≠ 0)
    (hn : normalizeLayout l = some n) (hm : n.withSize newSize = some m)
    (hstart : (Call.realloc p l newSize).start = some (taken, o)) :
    taken = {(p, n)} ∧ (o = ⟨none, {(p, m)}⟩ ∨ o = ⟨some (.take m (some (p, n))), 0⟩) := by
  rw [Call.start, if_neg hp, if_neg hsize, hn] at hstart
  simp only [bind_eq_bind, bind_some, hm] at hstart
  split at hstart
  · split_ifs at hstart
    · obtain ⟨rfl, rfl⟩ := Prod.mk.inj (some.inj hstart)
      exact ⟨rfl, .inl rfl⟩
    · obtain ⟨rfl, rfl⟩ := Prod.mk.inj (some.inj hstart)
      exact ⟨rfl, .inr rfl⟩
  · obtain ⟨rfl, rfl⟩ := Prod.mk.inj (some.inj hstart)
    exact ⟨rfl, .inr rfl⟩

/-- The system after a step of the call. -/
lemma after_eq_withCall (live : Multiset Allocation) (tasks : Multiset Task) (ptr : ℕ)
    (hret : ∀ t, o.next = some t → o.returned = 0) :
    after s live tasks o = withCall ⟨s, live, tasks⟩ (.after ptr o) := by
  cases hnext : o.next with
  | none => simp [after, withCall, Progress.after, hnext]
  | some t => simp [after, withCall, Progress.after, hnext, hret t hnext]

lemma held_withCall (g : GlobalAlloc) (t : Task) :
    (g.withCall (.running t)).held = t.holds + g.held := by
  simp only [held, withCall, map_cons, sum_cons]
  abel

/-- The others do not change the bytes that the call holds. -/
lemma other_kept (h : (g.withCall (.running t)).shared.Inv lo hi (g.withCall (.running t)).held)
    (hclean : (g.withCall (.running t)).Clean lo hi e) (happ : Applies g e g') :
    Kept t.holds g.shared.heap.mem g'.shared.heap.mem := by
  rw [held_withCall] at h
  cases happ with
  | call hstart => exact .refl _ _
  | @task s s' live t' tasks preempt core fuel o hstep =>
    have heq : t.holds + held ⟨s, live, t' ::ₘ tasks⟩ =
        t'.holds + (t.holds + (live + (tasks.map Task.holds).sum)) := by
      simp only [held, map_cons, sum_cons]
      abel
    rw [heq] at h
    have hkept := Shared.Inv.task_kept h hstep
    exact fun a ha => hkept a (mem_add.mpr (.inr (mem_add.mpr (.inl ha))))
  | write mem' =>
    intro a ha x hx hx'
    by_contra hne
    obtain ⟨rest, hrest⟩ := exists_cons_of_mem ha
    have heq : t.holds + g.held = a ::ₘ (rest + g.held) := by
      rw [hrest, cons_add]
    have hin :=
      (Safe.of_inv (g := g.withCall (.running t)) (by rw [held_withCall]; exact h)).inside a
      (by rw [held_withCall, heq]; exact mem_cons_self _ _)
    rcases hclean.1 x hne with hlt | hge | ⟨b, hb, hbx⟩
    · omega
    · omega
    · have hmem : b ∈ rest + g.held :=
        mem_add.mpr (.inr (mem_add.mpr (.inl hb)))
      exact disjoint_left.mp (disjoint_bytes h heq hmem) (mem_Ico.mpr ⟨hx, hx'⟩) (mem_Ico.mpr hbx)

/-- The whole system while the call goes on: the invariant holds, and the bytes are where they
should be. -/
lemma Follows.inv {l n : Layout} {prog : Progress} (h₀ : g₀.shared.Inv lo hi g₀.held)
    (hhi : pageSize ∣ hi) (hp : p ≠ 0) (hsize : newSize ≠ 0) (hn : normalizeLayout l = some n)
    (hm : n.withSize newSize = some m)
    (h : Follows (fun g e => g.Clean lo hi e ∧ Guarded hi e) p l newSize g₀ g prog) :
    (g.withCall prog).shared.Inv lo hi (g.withCall prog).held ∧
      Moves (p, n) m g₀.shared.heap.mem g.shared.heap.mem prog := by
  induction h with
  | @call s taken live tasks o hg₀ hstart =>
    obtain ⟨rfl, hcases⟩ := realloc_start hp hsize hn hm hstart
    have hret : ∀ t, o.next = some t → o.returned = 0 := by
      rcases hcases with rfl | rfl
      · exact fun t ht => (nomatch ht)
      · exact fun t _ => rfl
    have happ := @Applies.call s _ live tasks _ o hstart
    rw [after_eq_withCall live tasks p hret, ← hg₀] at happ
    refine ⟨inv_step_clean (e := .call _) h₀ hhi trivial trivial happ, ?_⟩
    rw [hg₀]
    rcases hcases with rfl | rfl
    · exact .inr ⟨hp, rfl, fun i _ => rfl⟩
    · exact ⟨rfl, rfl, .refl _ _⟩
  | other _ hP happ ih =>
    obtain ⟨hinv, hmoves⟩ := ih
    exact ⟨inv_step_clean hinv hhi hP.1 hP.2 (happ.beside _),
      Moving.congr hmoves (other_kept hinv hP.1 happ)⟩
  | @own g t preempt core fuel s' o _ hP hstep ih =>
    obtain ⟨hinv, hmoves⟩ := ih
    have happ := @Applies.task g.shared s' g.live t g.tasks preempt core fuel o hstep
    rw [after_eq_withCall g.live g.tasks t.result fun t' ht' =>
      (Task.step_next hstep ht').1] at happ
    refine ⟨inv_step_clean hinv hhi hP.1 hP.2 happ, ?_⟩
    rw [held_withCall] at hinv
    have hkept := Shared.Inv.task_kept hinv hstep
    exact Moving.step hmoves (fun a ha => hkept a (mem_add.mpr (.inl ha))) hstep

end

/-- **`realloc` moves the bytes.**  In every state that is reached from a heap over the pages of a
block of memory, a client calls `realloc` for an allocation that it holds, and the call goes on in
any interleaving with other calls and with writes of the clients.  As long as the call runs, it can
go on, it has at most five steps, and none of them changes a byte of what anybody else holds.  When
it returns null, the old block belongs to the client again, with the bytes that it had; otherwise
the client has the returned block instead, which is aligned, has the new size and starts with the
old bytes.  No block in use starts with the tag of a free block, and none lies just behind the heap.
-/
theorem realloc_moves (mem : Memory) (offset len lo hi : ℕ) (g₀ g : GlobalAlloc) (p newSize : ℕ)
    (l n m : Layout)
    (prog : Progress) (hlo : lo = alignUp offset pageSize)
    (hhi : hi = max lo (alignDown (offset + len) pageSize))
    (hbound : hi < usizeBound) (hbehind : Behind hi mem)
    (hrun : Run (fun g e => g.Clean lo hi e ∧ Guarded hi e) (start mem offset len) g₀)
    (hn : normalizeLayout l = some n) (hlive : (p, n) ∈ g₀.live) (hsize : 0 < newSize)
    (hm : n.withSize newSize = some m)
    (hcall : Follows (fun g e => g.Clean lo hi e ∧ Guarded hi e) p l newSize g₀ g prog) :
    (g.withCall prog).Safe lo hi ∧
      match prog with
      | .running t =>
        (∀ cpu, ∃ fuel r, t.step cpu fuel g.shared = some r) ∧ t.stepsLeft ≤ 5 ∧
          ∀ cpu fuel s' o, t.step cpu fuel g.shared = some (s', o) →
            Kept g.held g.shared.heap.mem s'.heap.mem ∧ ∀ t', o.next = some t' →
            t'.stepsLeft < t.stepsLeft
      | .returned ptr back =>
        (ptr = 0 ∧ back = {(p, n)} ∧ Kept {(p, n)} g₀.shared.heap.mem g.shared.heap.mem) ∨
        (ptr ≠ 0 ∧ back = {(ptr, m)} ∧ m.size = newSize ∧ l.align ∣ ptr ∧
          ∀ i < min l.size newSize, g.shared.heap.mem (ptr + i) = g₀.shared.heap.mem (p + i)) := by
  have hdvd := (bounds_dvd hlo hhi).2
  have h₀ := inv_run_clean (inv_start hlo hhi hbound hbehind) hdvd hrun
  have hp : p ≠ 0 := (h₀.served (p, n) (mem_add.mpr (.inl hlive))).1
  obtain ⟨hinv, hmoves⟩ := hcall.inv h₀ hdvd hp hsize.ne' hn hm
  have hsafe := Safe.of_inv hinv
  refine ⟨hsafe, ?_⟩
  cases prog with
  | running t =>
    rw [held_withCall] at hinv
    refine ⟨hinv.task_returns,
      by cases t <;> simp [Task.stepsLeft], fun cpu fuel s' o hstep => ⟨?_, ?_⟩⟩
    · have hkept := Shared.Inv.task_kept hinv hstep
      exact fun a ha => hkept a (mem_add.mpr (.inr ha))
    · exact fun t' ht' => (Task.step_next hstep ht').2
  | returned ptr back =>
    refine hmoves.imp_right fun ⟨hne, hback, hbytes⟩ => ⟨hne, hback, ?_⟩
    have hm' : m.size = newSize ∧ m.align = n.align := by
      unfold Layout.withSize at hm
      split_ifs at hm
      cases hm
      exact ⟨rfl, rfl⟩
    have hn' : l.size ≤ n.size ∧ n.align = l.align := by
      unfold normalizeLayout Layout.withSize at hn
      split_ifs at hn
      cases hn
      exact ⟨le_max_left _ _, rfl⟩
    refine ⟨hm'.1, ?_, fun i hi => hbytes i ?_⟩
    · rw [← hn'.2, ← hm'.2]
      exact hsafe.aligned (ptr, m) (by simp [held, withCall, hback])
    · simp only
      omega

/-! ## A page that is moved -/

/-- A request for almost a page. -/
def shorterLayout : Layout := ⟨4000, 0, by norm_num⟩

/-- The copy puts no tag into a block in use. -/
def clean (g : GlobalAlloc) : Task → Bool
  | .copy old new =>
    decide (Untagged (copyBytes g.shared.heap.mem new.1 old.1 (min old.2.size new.2.size)) g.held)
  | _ => true

lemma clean_task {preempt : Bool} {fuel : ℕ} (g : GlobalAlloc) (t : Task) (ht : clean g t) :
    g.Clean lo hi (.task t preempt 0 fuel) := by
  cases t with
  | copy old new =>
    change Untagged _ _
    exact of_decide_eq_true ht
  | _ => trivial

/-- A call of `realloc` comes to its end, with nothing in between. -/
lemma Follows.finish {P : GlobalAlloc → Event → Prop} {q : ℕ} {l : Layout}
    {s s' : Shared} {t : Task}
    {back : Multiset Allocation} (hP : ∀ g t, clean g t → P g (.task t false 0 0))
    (h : Follows P p l newSize g₀ ⟨s, 0, 0⟩ (.running t))
    (hf : finish clean false 0 0 5 s t = some (s', q, back)) :
    Follows P p l newSize g₀ ⟨s', 0, 0⟩ (.returned q back) := by
  refine finish_induction (I := fun s t => Follows P p l newSize g₀ ⟨s, 0, 0⟩ (.running t))
    (J := fun s q back => Follows P p l newSize g₀ ⟨s, 0, 0⟩ (.returned q back)) ?_ ?_ h hf
  · intro s t s' o t' h hok hstep hnext
    have hown := h.own (hP _ t hok) hstep
    rwa [Progress.after, hnext] at hown
  · intro s t s' o h hok hstep hnext
    have hown := h.own (hP _ t hok) hstep
    rwa [Progress.after, hnext] at hown

/-- The heap and the clients after one got the third of three pages. -/
def pageTaken : Shared × Multiset Allocation :=
  calls clean false 0 ((start (fun _ => 0) 8192 12288).shared, 0) (.alloc pageLayout)

/-- A client holds the third of three pages and makes it shorter: it gets the first one, with the
bytes of the third. -/
theorem realloc_moves_page : ∃ g₀ g : GlobalAlloc, g₀.live = {(16384, pageLayout)} ∧
    Follows (fun g e => g.Clean 8192 20480 e ∧ Guarded 20480 e) 16384 pageLayout 4000 g₀ g
      (.returned 8192 {(8192, shorterLayout)}) ∧
      ∀ i < 4000, g.shared.heap.mem (8192 + i) = g₀.shared.heap.mem (16384 + i) := by
  have hcalls : AlongRun (calls clean false 0) (fun x c => (complete clean false 0 x c).isSome)
      ((start (fun _ => 0) 8192 12288).shared, 0) [.alloc pageLayout] := by decide +kernel
  have hlive : pageTaken.2 = {(16384, pageLayout)} := by decide +kernel
  have hclean : ∀ g t, clean g t = true → g.Clean 8192 20480 (.task t false 0 0) ∧
    Guarded 20480 (.task t false 0 0) :=
    fun g t ht => ⟨clean_task g t ht, trivial⟩
  have hrun : Run (fun g e => g.Clean 8192 20480 e ∧
    Guarded 20480 e) (start (fun _ => 0) 8192 12288)
      ⟨pageTaken.1, pageTaken.2, 0⟩ :=
        Run.calls clean false 0 (fun _ _ => ⟨trivial, trivial⟩) hclean .start hcalls
  have hfinish : (finish clean false 0 0 5 pageTaken.1
      (.take shorterLayout (some (16384, pageLayout)))).map Prod.snd =
        some (8192, {(8192, shorterLayout)}) := by
    decide +kernel
  obtain ⟨⟨s', q, back⟩, hfinish, hq⟩ := map_eq_some_iff.mp hfinish
  cases hq
  have hstart : (⟨pageTaken.1, pageTaken.2, 0⟩ : GlobalAlloc) =
    ⟨pageTaken.1, {(16384, pageLayout)} + 0, 0⟩ := by
    rw [hlive, add_zero]
  have hfollows : Follows (fun g e => g.Clean 8192 20480 e ∧
    Guarded 20480 e) 16384 pageLayout 4000 _ _ _ :=
    Follows.finish hclean (.call (o := ⟨some _, 0⟩) hstart rfl) hfinish
  have hmoves := realloc_moves (fun _ => 0) 8192 12288 8192 20480 _ _ 16384 4000 pageLayout
    pageLayout shorterLayout
    _ (by decide) (by decide) (by decide) (fun k _ _ => not_tagged_of_magic rfl) hrun rfl
    (by rw [hlive]; simp)
    (by norm_num) rfl hfollows
  rcases hmoves.2 with ⟨hzero, -⟩ | ⟨-, -, -, -, hbytes⟩
  · exact absurd hzero (by norm_num)
  · exact ⟨_, _, hlive, hfollows, hbytes⟩

/-! ## A tag behind the heap -/

/-- The last page of the address space starts with the node of a free page, which is linked behind
the first page of the heap. -/
def nodeBehind : Memory :=
  FreeBlockNode.setPrev (tagMem (fun _ => 0) (2 ^ 64 - 4096)) (2 ^ 64 - 4096) (2 ^ 64 - 12288)

/-- The heap has the two pages before the last page of the address space, and a client gets the
second one. -/
def lastTaken : Shared × Multiset Allocation :=
  calls clean false 0 ((start nodeBehind (2 ^ 64 - 12288) 8192).shared, 0) (.alloc pageLayout)

/-- The client fills the page with zeros. -/
def zeroed : Memory := fun x => if 2 ^ 64 - 8192 ≤ x ∧
    x < 2 ^ 64 - 4096 then 0 else lastTaken.1.heap.mem x

/-- The client may do so. -/
lemma clean_zeroed : Clean (2 ^ 64 - 12288)
    (2 ^ 64 - 4096) ⟨lastTaken.1, lastTaken.2, 0⟩ (.write zeroed) := by
  refine ⟨fun x hx => .inr (.inr ⟨(2 ^ 64 - 8192, pageLayout), by decide +kernel, ?_⟩),
    by decide +kernel⟩
  by_contra hout
  exact hx (if_neg hout)

/-- The heap ends one page before the end of the address space, and the page behind it starts with
the node of a free page.  A client holds the second page of the heap, which is full of zeros, and
makes it shorter: it gets the first page, but when the second one is given back, the ninth byte of
the first one is overwritten. -/
theorem realloc_breaks_copy : ∃ g₀ g : GlobalAlloc,
    Run (Clean (2 ^ 64 - 12288) (2 ^ 64 - 4096)) (start nodeBehind (2 ^ 64 - 12288) 8192) g₀ ∧
      g₀.live = {(2 ^ 64 - 8192, pageLayout)} ∧
      Follows (Clean (2 ^ 64 - 12288) (2 ^ 64 - 4096)) (2 ^ 64 - 8192) pageLayout 4000 g₀ g
        (.returned (2 ^ 64 - 12288) {(2 ^ 64 - 12288, shorterLayout)}) ∧
      g₀.shared.heap.mem (2 ^ 64 - 8192 + 8) = 0 ∧
      g.shared.heap.mem (2 ^ 64 - 12288 + 8) = 255 := by
  have hcalls : AlongRun (calls clean false 0) (fun x c => (complete clean false 0 x c).isSome)
      ((start nodeBehind (2 ^ 64 - 12288) 8192).shared, 0) [.alloc pageLayout] := by decide +kernel
  have hlive : lastTaken.2 = {(2 ^ 64 - 8192, pageLayout)} := by decide +kernel
  have hfinish :
    (GlobalAlloc.finish clean false 0 0 5 ⟨lastTaken.1.heap.withMem zeroed, lastTaken.1.cache⟩
      (.take shorterLayout (some (2 ^ 64 - 8192, pageLayout)))).map
        (fun r => (r.2, r.1.heap.mem (2 ^ 64 - 12288 + 8))) =
      some ((2 ^ 64 - 12288, {(2 ^ 64 - 12288, shorterLayout)}), 255) := by decide +kernel
  obtain ⟨⟨s', q, back⟩, hfinish, hq⟩ := map_eq_some_iff.mp hfinish
  obtain ⟨hq, hbyte⟩ := Prod.mk.inj hq
  cases hq
  have hrun := (Run.calls clean false 0 (fun _ _ => trivial) clean_task .start hcalls).step
    clean_zeroed (.write _)
  have hstart : (⟨⟨lastTaken.1.heap.withMem zeroed, lastTaken.1.cache⟩, lastTaken.2, 0⟩ :
    GlobalAlloc) =
      ⟨⟨lastTaken.1.heap.withMem zeroed, lastTaken.1.cache⟩,
        {(2 ^ 64 - 8192, pageLayout)} + 0, 0⟩ := by
    rw [hlive, add_zero]
  exact ⟨_, _, hrun, hlive, Follows.finish clean_task (.call (o := ⟨some _, 0⟩) hstart rfl) hfinish,
    by decide +kernel, hbyte⟩

end GlobalAlloc

end CabOS
