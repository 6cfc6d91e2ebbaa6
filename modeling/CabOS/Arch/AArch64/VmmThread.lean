import CabOS.Arch.AArch64.VmmSpec

/-!
# Cores that change the page tables at the same time

`vmap` and `vunmap` bind the guard of the page table lock to `_`, which drops it at once: nothing
that follows is protected.  Here the two functions are cut into the single reads and writes of page
table entries that they make, with the calls of the frame allocator, which has a lock of its own, as
single steps.  `Cores.run` interleaves two such calls by a schedule.
-/

namespace CabOS.AArch64

open TableTree

/-- The index of an address at level `k`. -/
def indexAt (vaddr : BitVec 64) : ℕ → Fin ptePerPage
  | 0 => index0 vaddr
  | 1 => index1 vaddr
  | 2 => index2 vaddr
  | _ => index3 vaddr

/-- The last index of a table. -/
def lastIndex : Fin ptePerPage := 511

variable {j : Fin ptePerPage} {s : Vmm}

/-- Before the last index the next one is greater by one. -/
lemma val_succ_index (hj : j ≠ lastIndex) : ((j + 1 : Fin ptePerPage) : ℕ) = j + 1 := by
  have hlt : (j : ℕ) < 511 := by
    have hle : (j : ℕ) < 512 := j.isLt
    have hne : (j : ℕ) ≠ 511 := fun h => hj (Fin.ext h)
    omega
  exact Fin.val_add_one_of_lt (n := 511) (Fin.lt_def.mpr hlt)

/-- What lies before the next index is not after this one. -/
lemma le_of_lt_succ_index {j' : Fin ptePerPage} (hj : j ≠ lastIndex) (h : j' < j + 1) : j' ≤ j := by
  have := val_succ_index hj
  rw [Fin.lt_def] at h
  rw [Fin.le_def]
  omega

lemma le_lastIndex (j : Fin ptePerPage) : j ≤ lastIndex := Fin.le_last j

/-- The memory after an entry was written. -/
def Vmm.put (s : Vmm) (t : BitVec 64) (i : Fin ptePerPage) (e : BitVec 64) : Vmm :=
  { s with mem := write s.mem t i e }

lemma Vmm.put_self (s : Vmm) (t : BitVec 64) (i : Fin ptePerPage) (e : BitVec 64) :
    (s.put t i e).mem t i = e :=
  write_self

lemma Vmm.put_of_ne {t u : BitVec 64} {i : Fin ptePerPage} {e : BitVec 64}
    (h : u ≠ t ∨ j ≠ i) : (s.put t i e).mem u j = s.mem u j :=
  write_of_ne h

/-- Clearing the next entry of a table. -/
lemma Vmm.put_zero_upto {f : BitVec 64}
    (hzero : ∀ j' < j, s.mem f j' = 0) : ∀ j' ≤ j, (s.put f j 0).mem f j' = 0 := by
  intro j' hj'
  rcases eq_or_lt_of_le hj' with rfl | hlt
  · exact Vmm.put_self s f j' 0
  · rw [Vmm.put_of_ne (Or.inr (ne_of_lt hlt)), hzero j' hlt]

/-- Where a core is inside `vmap`.  The level is `k` and `t` is the table there. -/
inductive MapPc where
  /-- About to test whether the entry is valid. -/
  | check (k : ℕ) (t : BitVec 64)
  /-- About to take a frame for the missing table. -/
  | alloc (k : ℕ) (t : BitVec 64)
  /-- About to clear the entry `j` of the new table `f`. -/
  | zero (k : ℕ) (t f : BitVec 64) (j : Fin ptePerPage)
  /-- About to enter the new table. -/
  | attach (k : ℕ) (t f : BitVec 64)
  /-- About to read the address of the next table from the entry. -/
  | reread (k : ℕ) (t : BitVec 64)
  /-- About to write the entry of the page. -/
  | leaf (t : BitVec 64)
  | done

/-- One step of `vmap`; a core that waits for a frame has none. -/
def mapStep (vaddr paddr : BitVec 64) (options : PagingOptions) :
    MapPc → Vmm → Option (MapPc × Vmm)
  | .check k t, s =>
    some (if s.mem t (indexAt vaddr k) &&& 0b11 = 0 then .alloc k t else .reread k t, s)
  | .alloc k t, s =>
    match frameAlloc s with
    | .ok f s' => some (.zero k t f 0, s')
    | .error _ _ => none
  | .zero k t f j, s =>
    some (if j = lastIndex then .attach k t f else .zero k t f (j + 1), s.put f j 0)
  | .attach k t f, s =>
    some (.reread k t, s.put t (indexAt vaddr k) ((f &&& pteAddrMask) ||| 0b11))
  | .reread k t, s =>
    some (if k < 2 then .check (k + 1) (s.mem t (indexAt vaddr k) &&& pteAddrMask)
      else .leaf (s.mem t (indexAt vaddr k) &&& pteAddrMask), s)
  | .leaf t, s =>
    some (.done, s.put t (index3 vaddr)
      ((paddr &&& pteAddrMask) ||| createAarch64Attributes options))
  | .done, _ => none

/-- Where a core is inside `vunmap_internal`.  The table of level `k` on the path is `l k`. -/
inductive UnmapPc where
  /-- About to test whether the entry points to a table. -/
  | check (k : ℕ) (l : ℕ → BitVec 64)
  /-- About to read the address of the next table from the entry. -/
  | follow (k : ℕ) (l : ℕ → BitVec 64)
  /-- About to test whether the entry of the page is valid. -/
  | checkLeaf (l : ℕ → BitVec 64)
  /-- About to read the frame of the page. -/
  | readLeaf (l : ℕ → BitVec 64)
  /-- About to clear the entry of the page. -/
  | clear (l : ℕ → BitVec 64) (paddr : BitVec 64)
  /-- About to look at the entry `j` of the table of level `d`. -/
  | scan (d : ℕ) (j : Fin ptePerPage) (l : ℕ → BitVec 64) (paddr : BitVec 64)
  /-- About to clear the entry that points to the table of level `d`. -/
  | cut (d : ℕ) (l : ℕ → BitVec 64) (paddr : BitVec 64)
  /-- About to give the table of level `d` back. -/
  | dealloc (d : ℕ) (l : ℕ → BitVec 64) (paddr : BitVec 64)
  /-- About to give the frame of the page back, if that is asked. -/
  | finish (paddr : BitVec 64)
  | done (result : Option (BitVec 64))

/-- One step of `vunmap_internal`. -/
def unmapStep (vaddr : BitVec 64) (freeFrame : Bool) : UnmapPc → Vmm → Option (UnmapPc × Vmm)
  | .check k l, s =>
    some (if s.mem (l k) (indexAt vaddr k) &&& 0b11 ≠ 0b11 then .done none else .follow k l, s)
  | .follow k l, s =>
    let l' := Function.update l (k + 1) (s.mem (l k) (indexAt vaddr k) &&& pteAddrMask)
    some (if k < 2 then .check (k + 1) l' else .checkLeaf l', s)
  | .checkLeaf l, s =>
    some (if s.mem (l 3) (index3 vaddr) &&& 0b11 = 0 then .done none else .readLeaf l, s)
  | .readLeaf l, s => some (.clear l (s.mem (l 3) (index3 vaddr) &&& pteAddrMask), s)
  | .clear l paddr, s =>
    some (.scan 3 0 l paddr, s.put (l 3) (index3 vaddr) 0)
  | .scan d j l paddr, s =>
    some (if s.mem (l d) j &&& 0b11 ≠ 0 then .finish paddr
      else if j = lastIndex then .cut d l paddr
      else .scan d (j + 1) l paddr, s)
  | .cut d l paddr, s =>
    some (.dealloc d l paddr, s.put (l (d - 1)) (indexAt vaddr (d - 1)) 0)
  | .dealloc d l paddr, s =>
    match frameDealloc (l d) s with
    | .ok _ s' => some (if d = 1 then .finish paddr else .scan (d - 1) 0 l paddr, s')
    | .error _ _ => none
  | .finish paddr, s =>
    if freeFrame then
      match frameDealloc paddr s with
      | .ok _ s' => some (.done (some paddr), s')
      | .error _ _ => none
    else some (.done (some paddr), s)
  | .done _, _ => none

/-- A call that a core is executing. -/
inductive Thread where
  | map (vaddr paddr : BitVec 64) (options : PagingOptions) (pc : MapPc)
  | unmap (vaddr : BitVec 64) (freeFrame : Bool) (pc : UnmapPc)

namespace Thread

/-- A call of `vmap` at its start. -/
def vmap (space vaddr paddr : BitVec 64) (options : PagingOptions) : Thread :=
  .map vaddr paddr options (.check 0 (rootOf space))

/-- A call of `vunmap_internal` at its start. -/
def vunmap (space vaddr : BitVec 64) (freeFrame : Bool) : Thread :=
  .unmap vaddr freeFrame (.check 0 fun _ => rootOf space)

/-- One step of a call. -/
def step : Thread → Vmm → Option (Thread × Vmm)
  | .map v p options pc, s => (mapStep v p options pc s).map fun r => (.map v p options r.1, r.2)
  | .unmap v freeFrame pc, s => (unmapStep v freeFrame pc s).map fun r =>
  (.unmap v freeFrame r.1, r.2)

/-- The call has returned. -/
def Finished : Thread → Prop
  | .map _ _ _ .done => True
  | .unmap _ _ (.done _) => True
  | _ => False

end Thread

/-- Two cores that execute calls on the same tables. -/
structure Cores where
  /-- The tables and the free frames. -/
  vmm : Vmm
  /-- The call of the first core. -/
  first : Thread
  /-- The call of the second core. -/
  second : Thread

namespace Cores

/-- A step of one core; a core that has returned or waits leaves everything as it is. -/
def step (c : Cores) : Bool → Cores
  | false =>
    match c.first.step c.vmm with
    | some (t, s) => ⟨s, t, c.second⟩
    | none => c
  | true =>
    match c.second.step c.vmm with
    | some (t, s) => ⟨s, c.first, t⟩
    | none => c

/-- Run the cores by a schedule, which says for every step which core makes it. -/
def run (c : Cores) (schedule : List Bool) : Cores := schedule.foldl step c

/-- Both calls have returned. -/
def Finished (c : Cores) : Prop := c.first.Finished ∧ c.second.Finished

end Cores

end CabOS.AArch64
