import Mathlib

/-!
# Trees of tables in memory

A memory holds tables: the table at address `t` has an entry `mem t i` at every index `i`, and an
entry may point to a further table (`next`).  `walk` follows a path of indices from a root.  A
change of the memory that leaves the entries along a path alone leaves the walk alone
(`walk_congr`); attaching an empty table and detaching one change the walks of exactly the paths
through the changed entry (`walk_attach`, `walk_detach`), as long as different paths lead to
different tables.
-/

namespace CabOS.TableTree

open Function List Option

variable {A I E : Type*} {next : E → Option A} {mem mem' : A → I → E} {r t f : A} {p q : List I}
  {i : I} {e : E} {n : ℕ}

/-- The table that a path leads to. -/
def walk (next : E → Option A) (mem : A → I → E) (r : A) : List I → Option A
  | [] => some r
  | i :: is => (next (mem r i)).bind fun t => walk next mem t is

@[simp] lemma walk_nil : walk next mem r [] = some r := rfl

lemma walk_cons : walk next mem r (i :: p) = (next (mem r i)).bind fun t => walk next mem t p := rfl

/-- A walk can be interrupted at any table. -/
lemma walk_append : walk next mem r (p ++ q) = (walk next mem r p).bind fun t =>
    walk next mem t q := by
  induction p generalizing r with
  | nil => rfl
  | cons i p ih =>
    rw [cons_append, walk_cons, walk_cons, bind_assoc]
    exact Option.bind_congr fun t _ => ih

/-- The last step of a walk. -/
lemma walk_concat (h : walk next mem r p = some t) :
    walk next mem r (p ++ [i]) = next (mem t i) := by
  rw [walk_append, h, bind_some, walk_cons]
  cases next (mem t i) <;> rfl

lemma walk_eq_none_of_shorter (hpq : p <+: q) (hp : walk next mem r p = none) :
    walk next mem r q = none := by
  obtain ⟨q', rfl⟩ := hpq
  rw [walk_append, hp, bind_none]

/-- Where the entries along a path point to the same tables, the walk is the same. -/
lemma walk_congr (h : ∀ p i t, p ++ [i] <+: q → walk next mem r p = some t →
      next (mem' t i) = next (mem t i)) : walk next mem' r q = walk next mem r q := by
  induction q generalizing r with
  | nil => rfl
  | cons j q ih =>
    rw [walk_cons, walk_cons, h [] j r (by simp) rfl]
    refine Option.bind_congr fun t ht => ih fun p i u hp hu => ?_
    refine h (j :: p) i u (by simpa using hp) ?_
    rw [walk_cons, ht]
    exact hu

/-- Paths of length at most `n` lead to different tables. -/
def Distinct (next : E → Option A) (mem : A → I → E) (r : A) (n : ℕ) : Prop :=
  ∀ p q t, p.length ≤ n → q.length ≤ n → walk next mem r p = some t →
  walk next mem r q = some t → p = q

/-- Changing tables that no path of length at most `n` leads to leaves the walks alone. -/
lemma walk_congr_reached (h : ∀ p t, p.length ≤ n → walk next mem r p = some t →
      ∀ i, mem' t i = mem t i) (hq : q.length ≤ n + 1) :
    walk next mem' r q = walk next mem r q := by
  refine walk_congr fun p i t hpre ht => ?_
  have hlen : p.length ≤ n := by
    have := hpre.length_le
    simp at this
    omega
  rw [h p t hlen ht]

/-! ## Changes of the memory -/

section

variable [DecidableEq A]

/-- Fill a table with one entry. -/
def fill (mem : A → I → E) (f : A) (e : E) : A → I → E := update mem f fun _ => e

@[simp] lemma fill_self : fill mem f e f i = e := by
  simp [fill]

lemma fill_of_ne {u : A} (h : u ≠ f) : fill mem f e u i = mem u i := by
  simp [fill, h]

variable [DecidableEq I]

/-- Change one entry. -/
def write (mem : A → I → E) (t : A) (i : I) (e : E) : A → I → E :=
  update mem t (update (mem t) i e)

@[simp] lemma write_self : write mem t i e t i = e := by
  simp [write]

lemma write_of_ne {u : A} {j : I} (h : u ≠ t ∨ j ≠ i) : write mem t i e u j = mem u j := by
  by_cases hu : u = t
  · subst hu
    rcases h with h | h
    · exact absurd rfl h
    · simp [write, h]
  · simp [write, hu]

/-- Changing an entry leaves the walks of all paths alone that do not go through it. -/
lemma walk_write_off_path (hd : Distinct next mem r n) (hp : p.length ≤ n)
    (ht : walk next mem r p = some t) (hq : q.length ≤ n + 1) (hnot : ¬ p ++ [i] <+: q) :
    walk next (write mem t i e) r q = walk next mem r q := by
  refine walk_congr fun p' j u hpre hu => ?_
  rw [write_of_ne]
  by_contra hne
  push Not at hne
  obtain ⟨rfl, rfl⟩ := hne
  have hlen : p'.length ≤ n := by
    have := hpre.length_le
    simp at this
    omega
  rw [hd p' p u hlen hp hu ht] at hpre
  exact hnot hpre

/-- Detaching what an entry points to cuts the paths through this entry and no others. -/
lemma walk_detach (hd : Distinct next mem r n) (hp : p.length ≤ n)
    (ht : walk next mem r p = some t) (he : next e = none) (hq : q.length ≤ n + 1) :
    walk next (write mem t i e) r q = if p ++ [i] <+: q then none else walk next mem r q := by
  split_ifs with hpre
  · obtain ⟨q, rfl⟩ := hpre
    have hsame : walk next (write mem t i e) r p = some t := by
      rw [walk_write_off_path hd hp ht (by omega), ht]
      intro h
      have := h.length_le
      simp at this
    rw [append_assoc, walk_append, hsame, bind_some]
    simp [walk_cons, he]
  · exact walk_write_off_path hd hp ht hq hpre

/-- Attaching an empty table at an entry that pointed nowhere adds one path. -/
lemma walk_attach {z : E} (hd : Distinct next mem r n) (hp : p.length ≤ n)
    (ht : walk next mem r p = some t) (hnone : next (mem t i) = none) (he : next e = some f)
    (hz : next z = none) (hf : ∀ q, q.length ≤ n → walk next mem r q ≠ some f)
    (hq : q.length ≤ n + 1) :
    walk next (write (fill mem f z) t i e) r q =
      if q = p ++ [i] then some f else walk next mem r q := by
  -- filling the unreachable table changes no walk
  have hfill : ∀ q : List I, q.length ≤ n + 1 →
    walk next (fill mem f z) r q = walk next mem r q := by
    intro q hq
    refine walk_congr_reached (n := n) (fun p' u hlen hu j => fill_of_ne ?_) hq
    rintro rfl
    exact hf p' hlen hu
  have hdf : Distinct next (fill mem f z) r n := by
    intro p₁ p₂ u h₁ h₂ hu₁ hu₂
    rw [hfill p₁ (by omega)] at hu₁
    rw [hfill p₂ (by omega)] at hu₂
    exact hd p₁ p₂ u h₁ h₂ hu₁ hu₂
  have htf : walk next (fill mem f z) r p = some t := by
    rw [hfill p (by omega), ht]
  by_cases hpre : p ++ [i] <+: q
  · obtain ⟨q', rfl⟩ := hpre
    have hsame : walk next (write (fill mem f z) t i e) r p = some t := by
      rw [walk_write_off_path hdf hp htf (by omega), htf]
      intro h
      have := h.length_le
      simp at this
    have hf' : f ≠ t := by
      rintro rfl
      exact hf p hp ht
    cases q' with
    | nil =>
      rw [if_pos (by simp), append_nil, walk_concat hsame, write_self, he]
    | cons j q' =>
      have hne : p ++ [i] ++ j :: q' ≠ p ++ [i] := by simp
      rw [if_neg hne, append_assoc, walk_append, hsame, bind_some]
      have hold : walk next mem r (p ++ ([i] ++ j :: q')) = none := by
        rw [walk_append, ht]
        simp [walk_cons, hnone]
      rw [hold]
      simp only [cons_append, nil_append, walk_cons, write_self, he, bind_some]
      rw [write_of_ne (Or.inl hf'), fill_self, hz]
      rfl
  · rw [walk_write_off_path hdf hp htf hq hpre, hfill q hq, if_neg]
    rintro rfl
    exact hpre (prefix_refl _)

end

end CabOS.TableTree
