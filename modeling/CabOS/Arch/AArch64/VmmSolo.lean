import CabOS.Arch.AArch64.VmmThread

/-!
# A core on its own

A call that no other core disturbs does, step by step, what the function does: if `vmap` returns
with the memory `s'`, then so does the core (`vmap_steps`).
-/

namespace CabOS.AArch64

open TableTree Relation Vmm List Cores

/-- A core makes one step. -/
def Thread.Moves (a b : Thread × Vmm) : Prop := a.1.step a.2 = some b

variable {s s' : Vmm} {v paddr t f u : BitVec 64} {options : PagingOptions} {k : ℕ}
  {j : Fin ptePerPage}

/-- A step of `vmap` is a step of the core. -/
lemma Thread.Moves.of_mapStep {pc pc' : MapPc} (h : mapStep v paddr options pc s = some (pc', s')) :
    Thread.Moves (.map v paddr options pc, s) (.map v paddr options pc', s') := by
  simp [Thread.Moves, Thread.step, h]

/-- An entry of a table that is cleared anyway does not matter. -/
lemma fill_put {e : BitVec 64} : fill (s.put f j e).mem f 0 = fill s.mem f 0 := by
  funext u i
  by_cases hu : u = f
  · rw [hu, fill_self, fill_self]
  · rw [fill_of_ne hu, fill_of_ne hu, put_of_ne (Or.inl hu)]

/-- Clearing the last entry finishes the clearing of the table. -/
lemma put_lastIndex (hzero : ∀ j' < lastIndex, s.mem f j' = 0) :
    s.put f lastIndex 0 = ⟨fill s.mem f 0, s.free⟩ := by
  refine congrArg (Vmm.mk · s.free) (funext fun u => funext fun i => ?_)
  by_cases hu : u = f
  · rw [hu, fill_self]
    exact put_zero_upto hzero i (le_lastIndex i)
  · rw [fill_of_ne hu, write_of_ne (Or.inl hu)]

/-- Clearing the entries of a new table one by one clears the table. -/
lemma zero_steps (hzero : ∀ j' < j, s.mem f j' = 0) :
    ReflTransGen Thread.Moves (.map v paddr options (.zero k t f j), s)
      (.map v paddr options (.attach k t f), ⟨fill s.mem f 0, s.free⟩) := by
  obtain ⟨n, hn⟩ : ∃ n, (j : ℕ) + n = 511 := ⟨511 - j, by have : (j : ℕ) < 512 := j.isLt; omega⟩
  -- induction on the number of entries that remain
  induction n generalizing j s with
  | zero =>
    obtain rfl : j = lastIndex := Fin.ext hn
    rw [← put_lastIndex hzero]
    exact .single (Thread.Moves.of_mapStep rfl)
  | succ n ih =>
    have hj : j ≠ lastIndex := by
      rintro rfl
      have : (lastIndex : ℕ) = 511 := rfl
      omega
    have hstep : mapStep v paddr options (.zero k t f j) s =
      some (.zero k t f (j + 1), s.put f j 0) := by
      simp only [mapStep, if_neg hj]
    refine .head (Thread.Moves.of_mapStep hstep) ?_
    rw [← fill_put (j := j) (e := 0)]
    refine ih (fun j' hj' => put_zero_upto hzero j' (le_of_lt_succ_index hj hj')) ?_
    rw [val_succ_index hj]
    omega

/-- The address of the next table is read from the entry. -/
lemma reread_moves (hu : s.mem t (indexAt v k) &&& pteAddrMask = u) :
    Thread.Moves (.map v paddr options (.reread k t), s)
      (.map v paddr options (if k < 2 then .check (k + 1) u else .leaf u), s) := by
  subst hu
  exact Thread.Moves.of_mapStep rfl

/-- A core that has found no table makes one, whatever the entry holds by then. -/
lemma alloc_steps (hf : frameAlloc s = .ok f s') :
    ReflTransGen Thread.Moves (.map v paddr options (.alloc k t), s)
      (.map v paddr options (.reread k t),
        ⟨write (fill s'.mem f 0) t (indexAt v k) ((f &&& pteAddrMask) ||| 0b11), s'.free⟩) := by
  have halloc : mapStep v paddr options (.alloc k t) s = some (.zero k t f 0, s') := by
    simp only [mapStep, hf]
  refine .head (Thread.Moves.of_mapStep halloc) ?_
  refine (zero_steps fun j' hj' => absurd hj' (Nat.not_lt_zero _)).trans ?_
  exact .single (Thread.Moves.of_mapStep rfl)

/-- The next table is found or made. -/
lemma ensureNextTable_steps (h : ensureNextTable t (indexAt v k) s = .ok u s') :
    ReflTransGen Thread.Moves (.map v paddr options (.check k t), s)
      (.map v paddr options (if k < 2 then .check (k + 1) u else .leaf u), s') := by
  by_cases hinvalid : s.mem t (indexAt v k) &&& 0b11 = 0
  · have hstep : mapStep v paddr options (.check k t) s = some (.alloc k t, s) := by
      simp only [mapStep, if_pos hinvalid]
    simp only [ensureNextTable, exec_bind, exec_get, exec_ite, if_pos hinvalid] at h
    cases hf : frameAlloc s with
    | error e s₁ =>
      rw [hf] at h
      cases h
    | ok f s₁ =>
      rw [hf] at h
      simp only [zeroTable, writeEntry, exec_modify, exec_pure] at h
      injection h with hu hs
      subst hs
      exact .head (Thread.Moves.of_mapStep hstep)
        ((alloc_steps hf).trans (.single (reread_moves hu)))
  · have hstep : mapStep v paddr options (.check k t) s = some (.reread k t, s) := by
      simp only [mapStep, if_neg hinvalid]
    simp only [ensureNextTable, exec_bind, exec_get, exec_ite, if_neg hinvalid, exec_pure] at h
    injection h with hu hs
    subst hs
    exact .head (Thread.Moves.of_mapStep hstep) (.single (reread_moves hu))

/-- What `vmap` does from the table of level 1 on. -/
def vmapBelow (l1 v paddr : BitVec 64) (options : PagingOptions) : EStateM FrameFault Vmm Unit := do
  let l2 ← ensureNextTable l1 (index1 v)
  let l3 ← ensureNextTable l2 (index2 v)
  writeEntry l3 (index3 v) ((paddr &&& pteAddrMask) ||| createAarch64Attributes options)

/-- A core on its own does the same from level 1 on. -/
lemma vmapBelow_steps (h : vmapBelow t v paddr options s = .ok () s') :
    ReflTransGen Thread.Moves (.map v paddr options (.check 1 t), s)
      (.map v paddr options .done, s') := by
  obtain ⟨l2, s2, h2, h⟩ := exec_bind_eq_ok.mp h
  obtain ⟨l3, s3, h3, h⟩ := exec_bind_eq_ok.mp h
  simp only [writeEntry, exec_modify] at h
  injection h with _ hs
  subst hs
  refine (ensureNextTable_steps (k := 1) h2).trans ?_
  refine (ensureNextTable_steps (k := 2) h3).trans ?_
  exact .single (Thread.Moves.of_mapStep rfl)

/-- A core that has found the entry of the root invalid populates it and maps its page below the new
table, even if another core has populated the entry in the meantime. -/
lemma populate_steps (hf : frameAlloc s = .ok f s')
    (h : ∃ s'', vmapBelow (f &&& pteAddrMask) v paddr options
      ⟨write (fill s'.mem f 0) t (index0 v) ((f &&& pteAddrMask) ||| 0b11), s'.free⟩ = .ok () s'') :
    ReflTransGen Thread.Moves (.map v paddr options (.alloc 0 t), s)
      (.map v paddr options .done, finalState (vmapBelow (f &&& pteAddrMask) v paddr options)
        ⟨write (fill s'.mem f 0) t (index0 v) ((f &&& pteAddrMask) ||| 0b11), s'.free⟩) := by
  refine (alloc_steps hf).trans ?_
  refine .head (reread_moves (u :=
    f &&& pteAddrMask) ?_) (vmapBelow_steps (exec_eq_ok_finalState h))
  exact (congrArg (· &&& pteAddrMask) write_self).trans (entry_and_mask (by decide))

/-! ## Schedules -/

/-- While only one core moves, the other one does not matter. -/
lemma Cores.exists_replicate (core : Bool) (f : Thread × Vmm → Cores)
    (hf : ∀ a b, Thread.Moves a b → (f a).step core = f b) {a b : Thread × Vmm}
    (h : ReflTransGen Thread.Moves a b) :
    ∃ n, (f a).run (replicate n core) = f b := by
  induction h using ReflTransGen.head_induction_on with
  | refl => exact ⟨0, rfl⟩
  | head hstep _ ih =>
    obtain ⟨n, hn⟩ := ih
    refine ⟨n + 1, ?_⟩
    rw [replicate_succ, run, foldl_cons, hf _ _ hstep]
    exact hn

/-- First one core moves and then the other. -/
lemma Cores.exists_run {c : Cores} {first second : Thread} {s₁ s₂ : Vmm}
    (h₁ : ReflTransGen Thread.Moves (c.first, c.vmm) (first, s₁))
    (h₂ : ReflTransGen Thread.Moves (c.second, s₁) (second, s₂)) :
    ∃ schedule, c.run schedule = ⟨s₂, first, second⟩ := by
  obtain ⟨n, hn⟩ := exists_replicate false (fun a => ⟨a.2, a.1, c.second⟩)
    (fun a b hstep => by rw [Thread.Moves] at hstep; simp only [step, hstep]) h₁
  obtain ⟨m, hm⟩ := exists_replicate true (fun a => ⟨a.2, first, a.1⟩)
    (fun a b hstep => by rw [Thread.Moves] at hstep; simp only [step, hstep]) h₂
  refine ⟨replicate n false ++ replicate m true, ?_⟩
  rw [run, foldl_append]
  exact (congrArg (run · (replicate m true)) hn).trans hm

end CabOS.AArch64
