import CabOS.Library.Run

/-!
# Process identifiers

`PidAllocator` keeps a bit for every identifier and a hint where the search for the next one starts.
The two loops of `alloc` search the identifiers in cyclic order after the one that was returned
last; `pids_rotate` says so for every sequence of calls that frees live identifiers only.
-/

namespace CabOS

open Function List Nat Option

/-- The largest process identifier. -/
def maxPid : ℕ := 65536

/-- The identifiers in use and the place where the next search starts. -/
structure PidAllocator where
  used : ℕ → Bool
  nextHint : ℕ

namespace PidAllocator

/-- The identifier 0 is reserved, all others are free. -/
def new : PidAllocator := ⟨fun pid => pid == 0, 1⟩

/-- The loop of both searches: the first identifier that is not in use. -/
def scan (a : PidAllocator) (pids : List ℕ) : Option ℕ := pids.find? fun pid => !a.used pid

/-- Mark an identifier as used and move the hint behind it. -/
def take (a : PidAllocator) (pid : ℕ) : PidAllocator :=
  ⟨update a.used pid true, if pid = maxPid then 1 else pid + 1⟩

/-- Hand out an identifier: first from the hint upwards, then from 1 up to the hint. -/
def alloc (a : PidAllocator) : Option ℕ × PidAllocator :=
  match a.scan (range' a.nextHint (maxPid + 1 - a.nextHint)) with
  | some pid => (some pid, a.take pid)
  | none =>
    match a.scan (range' 1 (a.nextHint - 1)) with
    | some pid => (some pid, a.take pid)
    | none => (none, a)

/-- Take an identifier back; there is no result if an assertion fails. -/
def free (a : PidAllocator) (pid : ℕ) : Option PidAllocator :=
  if 1 ≤ pid ∧ pid ≤ maxPid then
    if a.used pid then some { a with used := update a.used pid false } else none
  else none

/-- The two loops of `alloc` are one search. -/
lemma alloc_eq (a : PidAllocator) : a.alloc =
    (a.scan (range' a.nextHint (maxPid + 1 - a.nextHint) ++ range' 1 (a.nextHint - 1))).elim
    (none, a)
      fun pid => (some pid, a.take pid) := by
  rw [alloc, scan, scan, scan, find?_append]
  cases find? (fun pid => !a.used pid) (range' a.nextHint (maxPid + 1 - a.nextHint)) with
  | some pid => rfl
  | none =>
    rw [none_or]
    cases find? (fun pid => !a.used pid) (range' 1 (a.nextHint - 1)) <;> rfl

end PidAllocator

/-! ## The cyclic order -/

/-- The identifier that comes `k + 1` places after `last` in the cyclic order of `1, …, maxPid`. -/
def pidAfter (last k : ℕ) : ℕ := (last + k) % maxPid + 1

lemma pidAfter_le (last k : ℕ) : pidAfter last k ≤ maxPid := mod_lt _ (by decide)

/-- Every identifier has a place in the order. -/
lemma exists_pidAfter {last pid : ℕ} (hlast : last ≤ maxPid) (hpos : 1 ≤ pid) (hle : pid ≤ maxPid) :
    ∃ k < maxPid, pidAfter last k = pid := by
  rw [maxPid] at hlast hle
  refine ⟨(maxPid + pid - 1 - last) % maxPid, mod_lt _ (by decide), ?_⟩
  rw [pidAfter, maxPid]
  omega

/-- The searches of `alloc` follow the order. -/
lemma searched_eq {last hint : ℕ} (hhint : hint = last % maxPid + 1) :
    range' hint (maxPid + 1 - hint) ++ range' 1 (hint - 1) =
      (range maxPid).map (pidAfter last) := by
  have hlt : hint ≤ maxPid := by
    rw [hhint]
    exact pidAfter_le last 0
  refine ext_getElem ?_ fun i h₁ h₂ => ?_
  · simp only [length_append, length_range', length_map, length_range]
    omega
  · rw [length_map, length_range] at h₂
    have hmod : (last + i) % maxPid = if hint + i ≤ maxPid then hint - 1 + i else hint - 1 +
      i - maxPid := by
      rw [maxPid] at hhint hlt h₂ ⊢
      split_ifs <;> omega
    rw [getElem_map, getElem_range, getElem_append, pidAfter, hmod]
    simp only [length_range', getElem_range']
    split_ifs <;> omega

/-! ## Runs -/

/-- The allocator with what its users know: the identifiers that are live and the one that was
returned last, 0 before the first call. -/
structure Pids where
  allocator : PidAllocator
  live : List ℕ
  last : ℕ

/-- A call of the allocator. -/
inductive PidCall where
  | alloc
  | free (pid : ℕ)

namespace Pids

/-- Before the first call. -/
def start : Pids := ⟨.new, [], 0⟩

/-- The state after a call; a call that panics changes nothing. -/
def step (s : Pids) : PidCall → Pids
  | .alloc => s.allocator.alloc.1.elim { s with allocator := s.allocator.alloc.2 } fun pid =>
    ⟨s.allocator.alloc.2, pid :: s.live, pid⟩
  | .free pid => (s.allocator.free pid).elim s fun a => ⟨a, s.live.erase pid, s.last⟩

/-- Only live identifiers are freed. -/
def FreesLive (s : Pids) : PidCall → Prop
  | .alloc => True
  | .free pid => pid ∈ s.live

instance (s : Pids) : DecidablePred s.FreesLive
  | .alloc => inferInstanceAs (Decidable True)
  | .free pid => inferInstanceAs (Decidable (pid ∈ s.live))

/-- The bits are set for the live identifiers and for 0, and the hint is behind the identifier that
was returned last. -/
structure Inv (s : Pids) : Prop where
  nodup : s.live.Nodup
  bounds : ∀ pid ∈ s.live, 1 ≤ pid ∧ pid ≤ maxPid
  used : ∀ pid, s.allocator.used pid = true ↔ pid = 0 ∨ pid ∈ s.live
  hint : s.allocator.nextHint = s.last % maxPid + 1
  last : s.last ≤ maxPid

/-- The first identifier in cyclic order after the last one that is not live. -/
def firstFree (s : Pids) : Option ℕ :=
  ((List.range maxPid).map (pidAfter s.last)).find? fun pid => decide (pid ∉ s.live)

variable {s : Pids}

section

variable (h : s.Inv)
include h

/-- The search of `alloc` in the cyclic order. -/
lemma Inv.alloc_eq : s.allocator.alloc =
    s.firstFree.elim (none, s.allocator) fun pid => (some pid, s.allocator.take pid) := by
  have hscan : s.allocator.scan ((range maxPid).map (pidAfter s.last)) = s.firstFree := by
    refine find?_congr fun pid hpid => ?_
    obtain ⟨k, -, rfl⟩ := List.mem_map.mp hpid
    have hne : pidAfter s.last k ≠ 0 := succ_ne_zero _
    rw [Bool.eq_iff_iff, Bool.not_eq_true', ← Bool.not_eq_true, h.used, decide_eq_true_eq,
      or_iff_right hne]
  rw [s.allocator.alloc_eq, searched_eq h.hint, hscan]

lemma Inv.alloc_fst : s.allocator.alloc.1 = s.firstFree := by
  rw [h.alloc_eq]
  cases s.firstFree <;> rfl

/-- What `alloc` returns is the first identifier of the cyclic order that is not live. -/
lemma Inv.alloc_eq_some_iff {pid : ℕ} : s.allocator.alloc.1 = some pid ↔
    ∃ k < maxPid, pid = pidAfter s.last k ∧ pid ∉ s.live ∧ ∀ j < k, pidAfter s.last j ∈ s.live := by
  rw [h.alloc_fst, firstFree, find?_eq_some_iff_getElem]
  constructor
  · rintro ⟨hfree, k, hk, rfl, hbefore⟩
    rw [length_map, length_range] at hk
    refine ⟨k, hk, by simp, of_decide_eq_true hfree, fun j hj => ?_⟩
    simpa using hbefore j hj
  · rintro ⟨k, hk, rfl, hfree, hbefore⟩
    refine ⟨decide_eq_true hfree, k, by simpa using hk, by simp, fun j hj => ?_⟩
    simpa using hbefore j hj

/-- Nothing is returned if and only if all identifiers are live. -/
lemma Inv.alloc_eq_none_iff : s.allocator.alloc.1 = none ↔ ∀ pid, 1 ≤ pid → pid ≤ maxPid →
    pid ∈ s.live := by
  rw [h.alloc_fst, firstFree, find?_eq_none]
  constructor
  · intro hall pid hpos hle
    obtain ⟨k, hk, rfl⟩ := exists_pidAfter h.last hpos hle
    simpa using hall (pidAfter s.last k) (List.mem_map.mpr ⟨k, List.mem_range.mpr hk, rfl⟩)
  · intro hall pid hpid
    obtain ⟨k, -, rfl⟩ := List.mem_map.mp hpid
    simpa using hall (pidAfter s.last k) (Nat.le_add_left 1 _) (pidAfter_le s.last k)

/-- One call keeps the invariant. -/
lemma Inv.step {call : PidCall} (hcall : s.FreesLive call) : (s.step call).Inv := by
  cases call with
  | alloc =>
    rw [Pids.step]
    cases hpid : s.allocator.alloc.1 with
    | none =>
      have hsame : s.allocator.alloc.2 = s.allocator := by
        rw [h.alloc_fst] at hpid
        rw [h.alloc_eq, hpid]
        rfl
      rw [hsame]
      exact h
    | some pid =>
      have htake : s.allocator.alloc.2 = s.allocator.take pid := by
        rw [h.alloc_fst] at hpid
        rw [h.alloc_eq, hpid]
        rfl
      obtain ⟨k, hk, rfl, hfree, -⟩ := h.alloc_eq_some_iff.mp hpid
      have hle := pidAfter_le s.last k
      simp only [elim_some, htake, PidAllocator.take]
      refine ⟨nodup_cons.mpr ⟨hfree, h.nodup⟩, ?_, fun pid => ?_, ?_, hle⟩
      · rintro pid (_ | ⟨_, hpid⟩)
        · exact ⟨Nat.le_add_left 1 _, hle⟩
        · exact h.bounds pid hpid
      · simp only [update_apply, mem_cons, ite_eq_left_iff, h.used]
        tauto
      · dsimp only
        split_ifs with hlast
        · rw [hlast, mod_self]
        · rw [mod_eq_of_lt (lt_of_le_of_ne hle hlast)]
  | free pid =>
    have hpid : pid ∈ s.live := hcall
    have hfree : s.allocator.free pid =
      some ⟨update s.allocator.used pid false, s.allocator.nextHint⟩ := by
      rw [PidAllocator.free, if_pos (h.bounds pid hpid), if_pos ((h.used pid).mpr (Or.inr hpid))]
    have hpos := (h.bounds pid hpid).1
    rw [Pids.step, hfree]
    refine ⟨h.nodup.erase pid, fun q hq => h.bounds q (mem_of_mem_erase hq), fun q => ?_,
      h.hint, h.last⟩
    simp only [elim_some, h.nodup.mem_erase_iff]
    by_cases hq : q = pid
    · subst hq
      simpa using ne_of_gt hpos
    · rw [update_of_ne hq, h.used]
      tauto

end

/-- Before the first call. -/
lemma inv_start : start.Inv where
  nodup := nodup_nil
  bounds _ h := absurd h not_mem_nil
  used pid := by simp [start, PidAllocator.new]
  hint := rfl
  last := zero_le _

/-- Whatever is allocated and freed, the live identifiers are different numbers from 1 to the
largest one, `alloc` returns nothing if and only if all of them are live, and otherwise the first
free one in cyclic order after the identifier that it returned last. -/
theorem pids_rotate (calls : List PidCall)
    (hcalls : AlongRun Pids.step FreesLive start calls) {s : Pids}
    (hs : s = calls.foldl Pids.step start) :
    s.live.Nodup ∧ (∀ pid ∈ s.live, 1 ≤ pid ∧ pid ≤ maxPid ∧ (s.allocator.free pid).isSome) ∧
    s.allocator.alloc.1 ≠ some 0 ∧
    (s.allocator.alloc.1 = none ↔ ∀ pid, 1 ≤ pid → pid ≤ maxPid → pid ∈ s.live) ∧
    ∀ pid, s.allocator.alloc.1 = some pid ↔
      ∃ k < maxPid, pid = pidAfter s.last k ∧ pid ∉ s.live ∧
      ∀ j < k, pidAfter s.last j ∈ s.live := by
  have h : s.Inv := by
    rw [hs]
    exact hcalls.invariant (fun s call h hcall => h.step hcall) inv_start
  refine ⟨h.nodup, fun pid hpid => ?_, fun hzero => ?_, h.alloc_eq_none_iff,
    fun pid => h.alloc_eq_some_iff⟩
  · obtain ⟨hpos, hle⟩ := h.bounds pid hpid
    refine ⟨hpos, hle, ?_⟩
    rw [PidAllocator.free, if_pos ⟨hpos, hle⟩, if_pos ((h.used pid).mpr (Or.inr hpid))]
    rfl
  · obtain ⟨k, -, hk, -⟩ := h.alloc_eq_some_iff.mp hzero
    exact absurd hk (succ_ne_zero _).symm

/-- The first identifier is freed while the third one is not handed out yet; it waits for its turn.
-/
theorem pids_rotate_three : ∃ s : Pids, s = [.alloc, .alloc, .free 1].foldl Pids.step start ∧
    s.live = [2] ∧
    s.allocator.alloc.1 = some 3 := by
  refine ⟨_, rfl, by decide +kernel, ?_⟩
  have hrun : AlongRun step FreesLive start [.alloc, .alloc, .free 1] := by decide +kernel
  refine ((pids_rotate _ hrun rfl).2.2.2.2 3).mpr ⟨0,
    by decide, by decide +kernel, by decide +kernel, ?_⟩
  intro j hj
  exact absurd hj (not_lt_zero j)

end Pids

end CabOS
