import CabOS.Library.Splice

/-!
# Records in a sequence of bytes

`toLE n v` is the number `v` in `n` bytes, the least significant one first, and `ofLE` reads such
bytes. `Located data pos bytes` says that `bytes` stand in `data` from the position `pos` on.  What
was put together by appending is found again part by part, and the entries of a table of records of
one size are found by their index.
-/

namespace CabOS

open List Nat

/-- The number `v` in `n` bytes, the least significant one first. -/
def toLE : ℕ → ℕ → List UInt8
  | 0, _ => []
  | n + 1, v => UInt8.ofNat v :: toLE n (v / 256)

/-- The number that bytes hold, the least significant one first. -/
def ofLE : List UInt8 → ℕ
  | [] => 0
  | b :: bytes => b.toNat + 256 * ofLE bytes

@[simp] lemma length_toLE (n v : ℕ) : (toLE n v).length = n := by
  induction n generalizing v with
  | zero => rfl
  | succ n ih => simp [toLE, ih]

/-- A number that fits is read back. -/
lemma ofLE_toLE {n v : ℕ} (hv : v < 256 ^ n) : ofLE (toLE n v) = v := by
  induction n generalizing v with
  | zero =>
    rw [pow_zero] at hv
    simp [toLE, ofLE, lt_one_iff.mp hv]
  | succ n ih =>
    rw [pow_succ'] at hv
    have hrest : v / 256 < 256 ^ n := Nat.div_lt_of_lt_mul hv
    rw [toLE, ofLE, ih hrest]
    simp only [UInt8.toNat_ofNat']
    omega

/-- The bytes stand in the data from `pos` on. -/
def Located (data : List UInt8) (pos : ℕ) (bytes : List UInt8) : Prop :=
  ∃ before after, data = before ++ (bytes ++ after) ∧ before.length = pos

namespace Located

variable {data a b bytes : List UInt8} {pos : ℕ}

lemma self (data : List UInt8) : Located data 0 data :=
  ⟨[], [], by simp, rfl⟩

/-- The first of two parts. -/
lemma left (h : Located data pos (a ++ b)) : Located data pos a := by
  obtain ⟨before, after, rfl, rfl⟩ := h
  exact ⟨before, b ++ after, by simp, rfl⟩

/-- The second of two parts. -/
lemma right (h : Located data pos (a ++ b)) : Located data (pos + a.length) b := by
  obtain ⟨before, after, rfl, rfl⟩ := h
  exact ⟨before ++ a, after, by simp, by simp⟩

lemma le_length (h : Located data pos bytes) : pos + bytes.length ≤ data.length := by
  obtain ⟨before, after, rfl, rfl⟩ := h
  simp

lemma slice_eq (h : Located data pos bytes) : slice data pos bytes.length = bytes := by
  obtain ⟨before, after, rfl, rfl⟩ := h
  simp [slice]

end Located

/-! ## Tables of records -/

section

variable {α : Type} {n k : ℕ} {enc : α → Option (List UInt8)} {xs : List α}
  {parts : List (List UInt8)} {x : α}

/-- The records of a table, if the first one and the others can be written. -/
lemma mapM_cons_eq_some {y : α} {ys : List α} (h : (y :: ys).mapM enc = some parts) :
    ∃ bs rest, enc y = some bs ∧ ys.mapM enc = some rest ∧ parts = bs :: rest := by
  rw [mapM_cons] at h
  obtain ⟨bs, hbs, h⟩ := Option.bind_eq_some_iff.mp h
  obtain ⟨rest, hrest, h⟩ := Option.bind_eq_some_iff.mp h
  cases h
  exact ⟨bs, rest, hbs, hrest, rfl⟩

/-- The entry of a table with a given index. -/
lemma Located.record {data : List UInt8} {pos : ℕ} (henc : ∀ x bs, enc x = some bs → bs.length = n)
    (hparts : xs.mapM enc = some parts) (h : Located data pos parts.flatten)
    (hk : xs[k]? = some x) :
    ∃ bs, enc x = some bs ∧ Located data (pos + k * n) bs := by
  induction xs generalizing pos k parts with
  | nil => simp at hk
  | cons y ys ih =>
    obtain ⟨bs, rest, hbs, hrest, rfl⟩ := mapM_cons_eq_some hparts
    rw [flatten_cons] at h
    cases k with
    | zero =>
      cases hk
      exact ⟨bs, hbs, by simpa using h.left⟩
    | succ k =>
      obtain ⟨bs', hbs', hloc⟩ := ih hrest h.right (by simpa using hk)
      rw [henc y bs hbs, Nat.add_right_comm, Nat.add_assoc] at hloc
      exact ⟨bs', hbs', by rwa [succ_mul]⟩

/-- The size of a table. -/
lemma length_flatten_of_mapM (henc : ∀ x bs, enc x = some bs → bs.length = n)
    (hparts : xs.mapM enc = some parts) : parts.flatten.length = xs.length * n := by
  induction xs generalizing parts with
  | nil =>
    cases hparts
    simp
  | cons y ys ih =>
    obtain ⟨bs, rest, hbs, hrest, rfl⟩ := mapM_cons_eq_some hparts
    rw [flatten_cons, length_append, henc y bs hbs, ih hrest, length_cons, succ_mul, Nat.add_comm]

/-- A table can be written if its records can. -/
lemma exists_mapM (h : ∀ x ∈ xs, ∃ bs, enc x = some bs) : ∃ parts, xs.mapM enc = some parts := by
  induction xs with
  | nil => exact ⟨[], rfl⟩
  | cons y ys ih =>
    obtain ⟨bs, hbs⟩ := h y mem_cons_self
    obtain ⟨rest, hrest⟩ := ih fun x hx => h x (mem_cons_of_mem _ hx)
    exact ⟨bs :: rest, by simp [mapM_cons, hbs, hrest]⟩

end

end CabOS
