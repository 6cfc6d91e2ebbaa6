import CabOS.Library.Ring
import CabOS.Sync.Semaphore

/-!
# The bounded buffer

Producers and consumers share a ring of `N` slots.  The semaphores `spaces` and `items` are taken
before and given after the section under the `IntMutex`, so the indices of the ring are right only
because the permits that are on the way are counted: a slot is a free space, a space that a producer
has reserved, a value, or a slot that a consumer has emptied and not yet given back (`Permits`).

A step is an operation of a semaphore or the section of `push` or `pop`.  The values pushed and
popped are recorded in the order of the sections.
-/

namespace CabOS

open Function List Nat Bool

/-- Where a thread is in its call of the buffer. -/
inductive BufPhase (α : Type) where
  /-- It is not in a call. -/
  | idle
  /-- In `push`, before `spaces.down()`. -/
  | pushWait (x : α)
  /-- In `push`, with a space. -/
  | pushReady (x : α)
  /-- In `push`, before `items.up()`. -/
  | pushDone
  /-- In `pop`, before `items.down()`. -/
  | popWait
  /-- In `pop`, with an item. -/
  | popReady
  /-- In `pop`, before `spaces.up()`. -/
  | popDone (x : α)

namespace BufPhase

variable {α : Type}

/-- The thread has reserved a space. -/
def isPushReady : BufPhase α → Bool
  | .pushReady _ => true
  | _ => false

/-- The thread has written a value that is not yet counted in `items`. -/
def isPushDone : BufPhase α → Bool
  | .pushDone => true
  | _ => false

/-- The thread has reserved an item. -/
def isPopReady : BufPhase α → Bool
  | .popReady => true
  | _ => false

/-- The thread has read a value whose slot is not yet counted in `spaces`. -/
def isPopDone : BufPhase α → Bool
  | .popDone _ => true
  | _ => false

end BufPhase

/-- A buffer and the threads that use it. -/
structure BoundedBuffer (α : Type) (N : ℕ) (τ : Type) where
  /-- The slots; one without a value is not initialised, or its value was moved out. -/
  buffer : ℕ → Option α
  head : ℕ
  tail : ℕ
  len : ℕ
  /-- The count of the semaphore of filled slots. -/
  items : ℕ
  /-- The count of the semaphore of free slots. -/
  spaces : ℕ
  phase : τ → BufPhase α
  /-- The values pushed so far. -/
  pushed : List α
  /-- The values popped so far. -/
  popped : List α

namespace BoundedBuffer

/-- What can happen next. -/
inductive Step (α τ : Type) where
  /-- A thread calls `push`. -/
  | push (t : τ) (x : α)
  /-- `spaces.down()` returns. -/
  | downSpaces (t : τ)
  /-- The section of `push`. -/
  | store (t : τ)
  /-- `items.up()`, and `push` returns. -/
  | upItems (t : τ)
  /-- A thread calls `pop`. -/
  | pop (t : τ)
  /-- `items.down()` returns. -/
  | downItems (t : τ)
  /-- The section of `pop`. -/
  | take (t : τ)
  /-- `spaces.up()`, and `pop` returns. -/
  | upSpaces (t : τ)

variable {α τ : Type} {N : ℕ}

/-- `BoundedBuffer::new`, before any call. -/
def new : BoundedBuffer α N τ := ⟨fun _ => none, 0, 0, 0, 0, N, fun _ => .idle, [], []⟩

/-- The slot after slot `i`. -/
def nextSlot (N i : ℕ) : ℕ := wadd i 1 % N

/-- The values that are pushed and not popped. -/
def pending (c : BoundedBuffer α N τ) : List α := c.pushed.drop c.popped.length

/-- The values found in the slots that `Drop` drops, from the head on. -/
def dropped (c : BoundedBuffer α N τ) : List (Option α) := dropLoop c.len c.buffer c.head
where
  /-- The loop of `drop`. -/
  dropLoop : ℕ → (ℕ → Option α) → ℕ → List (Option α)
    | 0, _, _ => []
    | n + 1, buffer, idx => buffer idx :: dropLoop n (update buffer idx none) (nextSlot N idx)

/-- The assertions of the sections, with what the unsafe accesses to the slots rely on: a value is
written to an empty slot, and read from a slot that has one. -/
def Asserts (c : BoundedBuffer α N τ) : Step α τ → Prop
  | .store t => ∀ x, c.phase t = .pushReady x → c.len < N ∧ c.tail < N ∧ c.buffer c.tail = none
  | .take t => c.phase t = .popReady → 0 < c.len ∧ c.head < N ∧ c.buffer c.head ≠ none
  | _ => True

variable [DecidableEq τ]

/-- A thread goes on. -/
def goto (c : BoundedBuffer α N τ) (t : τ) (p : BufPhase α) : BoundedBuffer α N τ :=
  { c with phase := update c.phase t p }

/-- The section of `push`. -/
def store (c : BoundedBuffer α N τ) (t : τ) (x : α) : BoundedBuffer α N τ :=
  { c.goto t .pushDone with
    buffer := update c.buffer c.tail (some x)
    tail := nextSlot N c.tail
    len := wadd c.len 1
    pushed := c.pushed ++ [x] }

/-- The value `x` is moved out of the slot at the head. -/
def moveOut (c : BoundedBuffer α N τ) (t : τ) (x : α) : BoundedBuffer α N τ :=
  { c.goto t (.popDone x) with
    buffer := update c.buffer c.head none
    head := nextSlot N c.head
    len := wsub c.len 1
    popped := c.popped ++ [x] }

/-- The section of `pop`.  Reading a slot without a value is undefined behaviour; then nothing
happens here. -/
def take (c : BoundedBuffer α N τ) (t : τ) : BoundedBuffer α N τ :=
  match c.buffer c.head with
  | none => c
  | some x => c.moveOut t x

/-- One step.  A step that a thread cannot make where it is changes nothing. -/
def step (c : BoundedBuffer α N τ) : Step α τ → BoundedBuffer α N τ
  | .push t x =>
    match c.phase t with
    | .idle => c.goto t (.pushWait x)
    | _ => c
  | .downSpaces t =>
    match c.phase t, takePermit c.spaces with
    | .pushWait x, some n => { c.goto t (.pushReady x) with spaces := n }
    | _, _ => c
  | .store t =>
    match c.phase t with
    | .pushReady x => c.store t x
    | _ => c
  | .upItems t =>
    match c.phase t with
    | .pushDone => { c.goto t .idle with items := givePermit c.items }
    | _ => c
  | .pop t =>
    match c.phase t with
    | .idle => c.goto t .popWait
    | _ => c
  | .downItems t =>
    match c.phase t, takePermit c.items with
    | .popWait, some n => { c.goto t .popReady with items := n }
    | _, _ => c
  | .take t =>
    match c.phase t with
    | .popReady => c.take t
    | _ => c
  | .upSpaces t =>
    match c.phase t with
    | .popDone _ => { c.goto t .idle with spaces := givePermit c.spaces }
    | _ => c

/-- The steps of a run. -/
def run (c : BoundedBuffer α N τ) (es : List (Step α τ)) : BoundedBuffer α N τ := es.foldl step c

/-! ## The invariant -/

/-- The ring holds the pending values. -/
structure RingInv (c : BoundedBuffer α N τ) : Prop where
  holds : Ring.Holds N c.buffer c.head c.pending
  tail : c.tail = (c.head + c.len) % N
  len : c.len = c.pending.length
  order : c.popped <+: c.pushed

section

variable {c : BoundedBuffer α N τ} {t : τ}

section

omit [DecidableEq τ]

lemma nextSlot_eq {i : ℕ} (hN : N < usizeBound) (hi : i < N) : nextSlot N i = (i + 1) % N := by
  rw [nextSlot, wadd_eq (lt_of_le_of_lt hi hN)]

lemma RingInv.pushed_eq (h : c.RingInv) : c.pushed = c.popped ++ c.pending :=
  (prefix_iff_eq_append.mp h.order).symm

lemma ringInv_new (hN : 0 < N) : (new : BoundedBuffer α N τ).RingInv :=
  ⟨Ring.Holds.empty hN fun _ => rfl, (mod_eq_of_lt hN).symm, rfl, prefix_rfl⟩

end

/-- The section of `push`, if there is a free slot. -/
lemma RingInv.store (h : c.RingInv) (hN : N < usizeBound) (hlen : c.len < N) (t : τ) (x : α) :
    (c.store t x).RingInv ∧ (c.store t x).len = c.len + 1 := by
  have hpending : (c.store t x).pending = c.pending ++ [x] :=
    drop_append_of_le_length h.order.length_le
  have hlen' : (c.store t x).len = c.len + 1 := wadd_eq (lt_of_le_of_lt hlen hN)
  have htail : c.tail = (c.head + c.pending.length) % N := by rw [h.tail, h.len]
  refine ⟨⟨?_, ?_, ?_, h.order.trans (prefix_append _ _)⟩, hlen'⟩
  · rw [hpending]
    have hpush := h.holds.push (h.len ▸ hlen) x
    rwa [← htail] at hpush
  · rw [hlen']
    calc nextSlot N c.tail = (c.tail + 1) % N :=
          nextSlot_eq hN (by rw [h.tail]; exact mod_lt _ (zero_lt_of_lt hlen))
      _ = (c.head + (c.len + 1)) % N := by rw [h.tail, mod_add_mod, Nat.add_assoc]
  · rw [hlen', hpending, length_append, h.len, length_singleton]

/-- The section of `pop`, if there is a value. -/
lemma RingInv.take (h : c.RingInv) (hN : N < usizeBound) (hlen : 0 < c.len) (t : τ) :
    ∃ x, c.buffer c.head = some x ∧ c.take t = c.moveOut t x ∧ (c.moveOut t x).RingInv ∧
      (c.moveOut t x).len + 1 = c.len := by
  obtain ⟨x, rest, hpending⟩ : ∃ x rest, c.pending = x :: rest :=
    exists_cons_of_length_pos (h.len ▸ hlen)
  have hholds : Ring.Holds N c.buffer c.head (x :: rest) := hpending ▸ h.holds
  have hlt : c.len < usizeBound := lt_of_le_of_lt (h.len ▸ h.holds.length_le) hN
  have hlen' : (c.moveOut t x).len + 1 = c.len := by
    rw [show (c.moveOut t x).len = c.len - 1 from wsub_eq hlt hlen, Nat.sub_add_cancel hlen]
  have hhead : (c.moveOut t x).head = (c.head + 1) % N := nextSlot_eq hN h.holds.head_lt
  have hpushed : c.pushed = c.popped ++ [x] ++ rest := by
    rw [h.pushed_eq, hpending, append_assoc, singleton_append]
  have hrest : (c.moveOut t x).pending = rest := by
    rw [pending, show (c.moveOut t x).pushed = c.popped ++ [x] ++ rest from hpushed]
    exact drop_left
  refine ⟨x, hholds.first, by rw [BoundedBuffer.take, hholds.first], ⟨?_, ?_, ?_, ?_⟩, hlen'⟩
  · rw [hrest, hhead]
    exact hholds.pop
  · rw [hhead, mod_add_mod, Nat.add_assoc, Nat.add_comm 1, hlen']
    exact h.tail
  · have hold := h.len
    rw [hpending, length_cons, ← hlen'] at hold
    rw [hrest]
    exact Nat.add_right_cancel hold
  · exact ⟨rest, hpushed.symm⟩

omit [DecidableEq τ] in
/-- The loop of `drop` finds the values of the ring. -/
lemma dropLoop_eq (hN : N < usizeBound) {buffer : ℕ → Option α} {head : ℕ} {l : List α}
    (h : Ring.Holds N buffer head l) :
    dropped.dropLoop (N := N) l.length buffer head = l.map some := by
  induction l generalizing buffer head with
  | nil => rfl
  | cons x l ih =>
    rw [length_cons, dropped.dropLoop, map_cons, h.first, nextSlot_eq hN h.head_lt, ih h.pop]

end

variable [Fintype τ] {x : α}

/-- Every value is counted in `items` or on its way into or out of it, and every slot is a value,
counted in `spaces` or on its way into or out of it. -/
structure Permits (c : BoundedBuffer α N τ) : Prop where
  items : c.len = c.items + numIn c.phase BufPhase.isPushDone + numIn c.phase BufPhase.isPopReady
  spaces : N = c.spaces + numIn c.phase BufPhase.isPushReady + c.len +
    numIn c.phase BufPhase.isPopDone

section

variable {c : BoundedBuffer α N τ} {t : τ}

section

omit [DecidableEq τ]

/-- A producer with a space finds a free slot. -/
lemma Permits.len_lt (h : c.Permits) (ht : c.phase t = .pushReady x) : c.len < N := by
  have hpos : 0 < numIn c.phase BufPhase.isPushReady := numIn_pos_iff.mpr ⟨t, by rw [ht]; rfl⟩
  have hspaces := h.spaces
  omega

/-- A consumer with an item finds a value. -/
lemma Permits.len_pos (h : c.Permits) (ht : c.phase t = .popReady) : 0 < c.len := by
  have hpos : 0 < numIn c.phase BufPhase.isPopReady := numIn_pos_iff.mpr ⟨t, by rw [ht]; rfl⟩
  have hitems := h.items
  omega

end

/-- Permits move along with the thread that takes or gives them. -/
lemma Permits.move (h : c.Permits) {c' : BoundedBuffer α N τ} {p : BufPhase α}
    (hphase : c'.phase = update c.phase t p)
    (hitems : c'.len + (c.items + (c.phase t).isPushDone.toNat + (c.phase t).isPopReady.toNat) =
      c.len + (c'.items + p.isPushDone.toNat + p.isPopReady.toNat))
    (hspaces : c.spaces + (c.phase t).isPushReady.toNat + c.len + (c.phase t).isPopDone.toNat =
      c'.spaces + p.isPushReady.toNat + c'.len + p.isPopDone.toNat) : c'.Permits := by
  obtain ⟨holdItems, holdSpaces⟩ := h
  have h₁ := numIn_update c.phase BufPhase.isPushDone t p
  have h₂ := numIn_update c.phase BufPhase.isPopReady t p
  have h₃ := numIn_update c.phase BufPhase.isPushReady t p
  have h₄ := numIn_update c.phase BufPhase.isPopDone t p
  rw [← hphase] at h₁ h₂ h₃ h₄
  constructor
  · omega
  · omega

end

/-- The invariant of the buffer. -/
structure Inv (c : BoundedBuffer α N τ) : Prop extends RingInv c, Permits c

section

variable {c : BoundedBuffer α N τ} {t : τ}

section

variable (h : c.Inv)
include h

/-- A step of a thread outside of the sections: the ring stays as it is. -/
lemma Inv.outside {p q : BufPhase α} (ht : c.phase t = q) {items spaces : ℕ}
    (hitems : c.items + q.isPushDone.toNat + q.isPopReady.toNat = items + p.isPushDone.toNat +
      p.isPopReady.toNat)
    (hspaces : c.spaces + q.isPushReady.toNat + q.isPopDone.toNat =
      spaces + p.isPushReady.toNat + p.isPopDone.toNat) :
    Inv ({ c.goto t p with items := items, spaces := spaces } : BoundedBuffer α N τ) := by
  subst ht
  refine ⟨⟨h.holds, h.tail, h.len, h.order⟩, h.toPermits.move rfl ?_ ?_⟩
  · simp only [goto, hitems]
  · simp only [goto]
    omega

section

variable (hN : N < usizeBound) (e : Step α τ)
include hN

/-- The section of `push`. -/
lemma Inv.store (ht : c.phase t = .pushReady x) : (c.store t x).Inv := by
  obtain ⟨hring, hlen⟩ := h.toRingInv.store hN (h.toPermits.len_lt ht) t x
  refine ⟨hring, h.toPermits.move rfl ?_ ?_⟩
  · rw [ht, hlen]
    simp only [BoundedBuffer.store, BoundedBuffer.goto, BufPhase.isPushDone, BufPhase.isPopReady,
      toNat_true, toNat_false]
    omega
  · rw [ht, hlen]
    simp only [BoundedBuffer.store, BoundedBuffer.goto, BufPhase.isPushReady, BufPhase.isPopDone,
      toNat_true, toNat_false]
    omega

/-- The section of `pop`. -/
lemma Inv.take (ht : c.phase t = .popReady) : (c.take t).Inv := by
  obtain ⟨x, -, htake, hring, hlen⟩ := h.toRingInv.take hN (h.toPermits.len_pos ht) t
  rw [htake]
  refine ⟨hring, h.toPermits.move rfl ?_ ?_⟩
  · rw [ht]
    simp only [BufPhase.isPushDone, BufPhase.isPopReady, toNat_true, toNat_false]
    simp only [moveOut, goto] at hlen ⊢
    omega
  · rw [ht]
    simp only [BufPhase.isPushReady, BufPhase.isPopDone, toNat_true, toNat_false]
    simp only [moveOut, goto] at hlen ⊢
    omega

/-- Every step keeps the invariant. -/
lemma Inv.step : (c.step e).Inv := by
  have hspaces := h.spaces
  have hitems := h.items
  cases e with
  | push t x =>
    rw [BoundedBuffer.step]
    split
    · next ht => exact h.outside ht rfl rfl
    · exact h
  | downSpaces t =>
    rw [BoundedBuffer.step]
    split
    · next x n ht htake =>
      refine h.outside ht rfl ?_
      rw [takePermit_eq_some.mp htake]
      rfl
    · exact h
  | store t =>
    rw [BoundedBuffer.step]
    split
    · next x ht => exact h.store hN ht
    · exact h
  | upItems t =>
    rw [BoundedBuffer.step]
    split
    · next ht =>
      have hpos : 0 < numIn c.phase BufPhase.isPushDone := numIn_pos_iff.mpr ⟨t, by rw [ht]; rfl⟩
      refine h.outside ht ?_ rfl
      rw [givePermit_eq (by omega)]
      rfl
    · exact h
  | pop t =>
    rw [BoundedBuffer.step]
    split
    · next ht => exact h.outside ht rfl rfl
    · exact h
  | downItems t =>
    rw [BoundedBuffer.step]
    split
    · next n ht htake =>
      refine h.outside ht ?_ rfl
      rw [takePermit_eq_some.mp htake]
      rfl
    · exact h
  | take t =>
    rw [BoundedBuffer.step]
    split
    · next ht => exact h.take hN ht
    · exact h
  | upSpaces t =>
    rw [BoundedBuffer.step]
    split
    · next x ht =>
      have hpos : 0 < numIn c.phase BufPhase.isPopDone := numIn_pos_iff.mpr ⟨t, by rw [ht]; rfl⟩
      refine h.outside ht rfl ?_
      rw [givePermit_eq (by omega)]
      rfl
    · exact h

/-- The invariant is what the sections rely on. -/
lemma Inv.asserts : c.Asserts e := by
  cases e with
  | store t =>
    intro x ht
    have hlen := h.toPermits.len_lt ht
    refine ⟨hlen, ?_, ?_⟩
    · rw [h.tail]
      exact mod_lt _ (zero_lt_of_lt hlen)
    · rw [h.tail, h.len]
      exact h.holds.next (h.len ▸ hlen)
  | take t =>
    intro ht
    have hlen := h.toPermits.len_pos ht
    obtain ⟨x, hx, -⟩ := h.toRingInv.take hN hlen t
    exact ⟨hlen, h.holds.head_lt, by simp [hx]⟩
  | push t x => trivial
  | downSpaces t => trivial
  | upItems t => trivial
  | pop t => trivial
  | downItems t => trivial
  | upSpaces t => trivial

end

end

end

/-! ## Runs -/

omit [DecidableEq τ] in
/-- A new buffer. -/
lemma inv_new (hN : 0 < N) : (new : BoundedBuffer α N τ).Inv := by
  have hnone : ∀ P : BufPhase α → Bool, P .idle = false →
    numIn (new : BoundedBuffer α N τ).phase P = 0 :=
    fun P hP => numIn_eq_zero_iff.mpr fun _ => hP
  refine ⟨ringInv_new hN, ?_, ?_⟩
  · rw [hnone _ rfl, hnone _ rfl]
    rfl
  · rw [hnone _ rfl, hnone _ rfl]
    rfl

/-- Along every run the invariant holds and so do the assertions. -/
lemma inv_run (hN : N < usizeBound) {c : BoundedBuffer α N τ} (h : c.Inv) (es : List (Step α τ)) :
    AlongRun step Asserts c es ∧ (c.run es).Inv := by
  induction es generalizing c with
  | nil => exact ⟨trivial, h⟩
  | cons e es ih =>
    obtain ⟨hasserts, hinv⟩ := ih (h.step hN e)
    exact ⟨⟨h.asserts hN e, hasserts⟩, hinv⟩

/-- For every capacity and every run of any number of producers and consumers on a new buffer:

* the assertions of the sections hold at every step; a value is written only to an empty slot and
read only from a slot that has one;
* the tail is `len` slots behind the head, and there are at most `N` values;
* the values popped are the first ones of the values pushed, in the same order;
* dropping the buffer drops the values that are pushed and not popped, each once. -/
theorem fifo (hpos : 0 < N) (hN : N < usizeBound) (es : List (Step α τ)) :
    AlongRun step Asserts (new : BoundedBuffer α N τ) es ∧
      let c := (new : BoundedBuffer α N τ).run es
      c.tail = (c.head + c.len) % N ∧ c.len ≤ N ∧ c.popped <+: c.pushed ∧
        c.pushed.map some = c.popped.map some ++ c.dropped := by
  obtain ⟨hasserts, h⟩ := inv_run hN (inv_new (α := α) (τ := τ) hpos) es
  refine ⟨hasserts, h.tail, ?_, h.order, ?_⟩
  · rw [h.len]
    exact h.holds.length_le
  · rw [dropped, h.len, dropLoop_eq hN h.holds, ← map_append, ← h.pushed_eq]

/-- Two producers and a consumer on a buffer with one slot. -/
theorem fifo_one_slot :
    let es : List (Step ℕ (Fin 3)) :=
      [.push 0 7, .downSpaces 0, .push 1 8, .store 0, .downSpaces 1, .upItems 0,
        .pop 2, .downItems 2,
        .take 2, .upSpaces 2, .downSpaces 1, .store 1]
    let c := (new : BoundedBuffer ℕ 1 (Fin 3)).run es
    c.pushed = [7, 8] ∧ c.popped = [7] ∧ c.pushed.map some = c.popped.map some ++ c.dropped :=
  ⟨by decide, by decide, (fifo (by decide) (by decide) _).2.2.2.2⟩

/-- Producers and consumers are never all blocked: without a space and an item, some thread is about
to give one. -/
theorem someone_gives (hpos : 0 < N) (hN : N < usizeBound) (es : List (Step α τ))
    (c : BoundedBuffer α N τ)
    (hc : new.run es = c) (hspaces : c.spaces = 0) (hitems : c.items = 0) :
    ∃ t, (c.phase t).isPushReady ∨
      (c.phase t).isPushDone ∨ (c.phase t).isPopReady ∨ (c.phase t).isPopDone := by
  obtain ⟨-, h⟩ := inv_run hN (inv_new (α := α) (τ := τ) hpos) es
  rw [hc] at h
  have hcount : 0 < numIn c.phase BufPhase.isPushReady ∨ 0 < numIn c.phase BufPhase.isPushDone ∨
      0 < numIn c.phase BufPhase.isPopReady ∨ 0 < numIn c.phase BufPhase.isPopDone := by
    have hslots := h.spaces
    have hvalues := h.items
    omega
  simpa only [numIn_pos_iff, ← exists_or] using hcount

/-- A producer has taken the only space. -/
theorem someone_gives_store : ∃ t : Fin 2,
    let p := ((new : BoundedBuffer ℕ 1 (Fin 2)).run [.push 0 7, .downSpaces 0]).phase t
    p.isPushReady ∨ p.isPushDone ∨ p.isPopReady ∨ p.isPopDone :=
  someone_gives (by decide) (by decide) _ _ rfl rfl rfl

end BoundedBuffer

end CabOS
