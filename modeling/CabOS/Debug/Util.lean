import CabOS.Library.ByteLayout
import CabOS.Library.Word

/-!
# Interval maps and interned strings of the build tool

`IntervalMap` is a `BTreeMap` from the start of an interval to its end and value; its entries are
kept in the order of their starts.  `InternStringTable` gives every string an index; the hash map
from a string to its index is the inverse of the list of entries, and is not kept apart.  A panic of
the source is `none`.
-/

namespace CabOS.Debug

open List

/-- One entry of an interval map. -/
structure Interval (V : Type) where
  start : ℕ
  stop : ℕ
  value : V
  deriving DecidableEq, Repr

/-- The interval contains the key. -/
def Interval.Contains {V : Type} (e : Interval V) (k : ℕ) : Prop :=
  e.start ≤ k ∧ k < e.stop

instance {V : Type} (e : Interval V) (k : ℕ) : Decidable (e.Contains k) :=
  inferInstanceAs (Decidable (_ ∧ _))

/-- `BTreeMap::insert` into entries in the order of their starts. -/
def put {V : Type} (x : Interval V) : List (Interval V) → List (Interval V)
  | [] => [x]
  | y :: ys =>
    if x.start < y.start then x :: y :: ys
    else if x.start = y.start then x :: ys
    else y :: put x ys

/-- The entries of the result are the new one and old ones. -/
lemma mem_put {V : Type} {x y : Interval V} {l : List (Interval V)} (h : y ∈ put x l) :
    y = x ∨ y ∈ l := by
  induction l with
  | nil => simpa [put] using h
  | cons z zs ih =>
    rw [put] at h
    split_ifs at h
    · simpa using h
    · rcases mem_cons.mp h with rfl | h
      · exact .inl rfl
      · exact .inr (mem_cons_of_mem _ h)
    · rcases mem_cons.mp h with rfl | h
      · exact .inr mem_cons_self
      · exact (ih h).imp_right (mem_cons_of_mem _)

lemma pairwise_put {V : Type} {x : Interval V} {l : List (Interval V)}
    (h : l.Pairwise fun a b => a.start < b.start) :
    (put x l).Pairwise fun a b => a.start < b.start := by
  induction l with
  | nil => exact pairwise_singleton _ _
  | cons y ys ih =>
    obtain ⟨hy, hys⟩ := pairwise_cons.mp h
    rw [put]
    split_ifs with hlt heq
    · refine pairwise_cons.mpr ⟨fun z hz => ?_, h⟩
      rcases mem_cons.mp hz with rfl | hz
      · exact hlt
      · exact hlt.trans (hy z hz)
    · exact pairwise_cons.mpr ⟨fun z hz => heq ▸ hy z hz, hys⟩
    · refine pairwise_cons.mpr ⟨fun z hz => ?_, ih hys⟩
      rcases mem_put hz with rfl | hz
      · omega
      · exact hy z hz

/-- `IntervalMap`. -/
structure IntervalMap (V : Type) where
  entries : List (Interval V)
  sorted : entries.Pairwise fun a b => a.start < b.start

namespace IntervalMap

variable {V : Type}

/-- `IntervalMap::new`. -/
def new : IntervalMap V := ⟨[], List.Pairwise.nil⟩

variable (m : IntervalMap V)

/-- `get`: the last entry that starts at or below the key, if it contains the key. -/
def get (k : ℕ) : Option (Interval V) :=
  ((m.entries.filter fun e => e.start ≤ k).getLast?).filter fun e => k < e.stop

/-- `insert`: the answer and the new map.  `BTreeMap::range` panics if the range is inverted; the
entries that are compared are the ones that start in it. -/
def insert (start stop : ℕ) (value : V) : Option (Bool × IntervalMap V) :=
  if stop < start then none
  else if m.entries.any fun e => start ≤ e.start ∧ e.start ≤ stop ∧ e.start < stop ∧
    start < e.stop then
    some (false, m)
  else
    some (true, ⟨put ⟨start, stop, value⟩ m.entries, pairwise_put m.sorted⟩)

/-- `remove`: the entry that contains the key is taken out. -/
def remove (k : ℕ) : IntervalMap V :=
  match m.get k with
  | some e => ⟨m.entries.filter fun x => x.start ≠ e.start, m.sorted.filter _⟩
  | none => m

end IntervalMap

/-- The bytes of a string, `as_bytes`. -/
def strBytes (s : String) : List UInt8 := s.toUTF8.data.toList

/-- The string has no zero byte. -/
def NulFree (s : String) : Prop := 0 ∉ strBytes s

instance (s : String) : Decidable (NulFree s) := inferInstanceAs (Decidable (¬_))

/-- `InternStringTable`. -/
structure InternStringTable where
  entries : List String
  deriving DecidableEq

namespace InternStringTable

/-- `InternStringTable::new`. -/
def new : InternStringTable := ⟨[]⟩

variable (t : InternStringTable)

/-- `intern`: the index of a string, which is a new one if the string is new. -/
def intern (s : String) : ℕ × InternStringTable :=
  match t.entries.idxOf? s with
  | some i => (i, t)
  | none => (t.entries.length, ⟨t.entries ++ [s]⟩)

/-- The strings with a zero behind each. -/
def buffer (entries : List String) : List UInt8 :=
  entries.flatMap fun s => strBytes s ++ [0]

/-- There is a zero byte for every string. -/
lemma length_le_buffer (entries : List String) : entries.length ≤ (buffer entries).length := by
  induction entries with
  | nil => exact Nat.zero_le _
  | cons s entries ih =>
    simp only [buffer, flatMap_cons, length_append, length_cons, length_nil] at ih ⊢
    omega

/-- The bytes that `write` appends. -/
def write : List UInt8 :=
  toLE 8 (buffer t.entries).length ++ buffer t.entries

/-- The closure that `write` returns: the offset of the string with an index, which panics for an
index that is not there. -/
def resolve (i : ℕ) : Option ℕ :=
  if i = usizeMax then some usizeMax
  else if i < t.entries.length then some (buffer (t.entries.take i)).length
  else none

end InternStringTable

/-- The closure of `lazy_intern_table`: the index of the file `f`, which is interned at its first
use.  `cache` has an entry for each file; indexing out of range panics. -/
def lazyIntern (files : List String) (f : ℕ) (t : InternStringTable) (cache : List ℕ) :
    Option (ℕ × InternStringTable × List ℕ) :=
  if f = usizeMax then some (usizeMax, t, cache)
  else
    match cache[f]?, files[f]? with
    | some c, some file =>
      if c = usizeMax then
        let (i, t') := t.intern file
        some (i, t', cache.set f i)
      else
        some (c, t, cache)
    | _, _ => none

end CabOS.Debug
