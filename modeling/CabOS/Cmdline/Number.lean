import CabOS.Cmdline.Parse

/-!
# Numbers on the command line

A number token is an optional minus sign and a magnitude: decimal, octal after `0` or `0o`, or
hexadecimal after `0x`. `parse_int` reads the magnitude as an `i64` and unwraps the result, so a
magnitude of `2^63` or more is a panic, also where the number is a value of `u64` or the least value
of `i64`.
-/

namespace CabOS.Cmdline

/-- The value of a digit; 16 for other characters. -/
def digit (c : Char) : ℕ :=
  if '0' ≤ c ∧ c ≤ '9' then c.toNat - '0'.toNat
  else if 'a' ≤ c ∧ c ≤ 'f' then c.toNat - 'a'.toNat + 10
  else if 'A' ≤ c ∧ c ≤ 'F' then c.toNat - 'A'.toNat + 10
  else 16

/-- The number with the given digits. -/
def valueOf (radix : ℕ) (s : List Char) : ℕ := s.foldl (fun n c => n * radix + digit c) 0

/-- `i64::from_str_radix(s, radix).unwrap()`, for a text without a sign. -/
def fromStrRadix (s : List Char) (radix : ℕ) : Option Int64 :=
  if s ≠ [] ∧ s.all (digit · < radix) ∧
    valueOf radix s < 2 ^ 63 then some (.ofNat (valueOf radix s)) else none

/-- `parse_int` behind the sign. -/
def parseMagnitude : List Char → Option Int64
  | '0' :: 'x' :: s => fromStrRadix s 16
  | '0' :: 'o' :: s => fromStrRadix s 8
  | '0' :: s => if s = [] then some 0 else fromStrRadix s 8
  | s => fromStrRadix s 10

/-- `parse_int`; a panic is `none`. -/
def parseInt : List Char → Option Int64
  | '-' :: s => (parseMagnitude s).map fun res => -res
  | s => parseMagnitude s

/-- The number tokens without a sign, with their values. -/
inductive Magnitude : List Char → ℕ → Prop
  | decimal (c : Char) (s : List Char) (hc : digit c ≠ 0) (h : ∀ d ∈ c :: s, digit d < 10) :
      Magnitude (c :: s) (valueOf 10 (c :: s))
  | zero (s : List Char) (h : ∀ d ∈ s, digit d < 8) : Magnitude ('0' :: s) (valueOf 8 s)
  | octal (s : List Char) (hs : s ≠ []) (h : ∀ d ∈ s, digit d < 8) :
  Magnitude ('0' :: 'o' :: s) (valueOf 8 s)
  | hex (s : List Char) (hs : s ≠ []) (h : ∀ d ∈ s, digit d < 16) : Magnitude ('0' :: 'x' :: s)
  (valueOf 16 s)

/-- The number tokens with their values. -/
inductive NumberToken : List Char → ℤ → Prop
  | plain {s : List Char} {n : ℕ} (h : Magnitude s n) : NumberToken s n
  | minus {s : List Char} {n : ℕ} (h : Magnitude s n) : NumberToken ('-' :: s) (-n)

variable {s : List Char} {n : ℕ}

lemma fromStrRadix_eq {radix : ℕ} (hs : s ≠ []) (h : ∀ c ∈ s, digit c < radix) :
    fromStrRadix s radix = if valueOf radix s <
      2 ^ 63 then some (.ofNat (valueOf radix s)) else none := by
  have hall : s.all (digit · < radix) := by simpa using h
  simp only [fromStrRadix, hs, hall, ne_eq, not_false_eq_true, true_and]

/-- A magnitude below the bound is read; the others are panics. -/
lemma parseMagnitude_eq (h : Magnitude s n) :
    parseMagnitude s = if n < 2 ^ 63 then some (.ofNat n) else none := by
  cases h with
  | decimal c s hc h =>
    have hzero : c ≠ '0' := fun heq => hc (heq ▸ rfl)
    rw [← fromStrRadix_eq (List.cons_ne_nil _ _) h]
    simp [parseMagnitude, hzero]
  | zero s h =>
    cases s with
    | nil => rfl
    | cons d s =>
      have hd := h d List.mem_cons_self
      have hx : d ≠ 'x' := fun heq => absurd (heq ▸ hd) (by decide)
      have ho : d ≠ 'o' := fun heq => absurd (heq ▸ hd) (by decide)
      rw [← fromStrRadix_eq (List.cons_ne_nil _ _) h]
      simp [parseMagnitude, hx, ho]
  | octal s hs h => exact fromStrRadix_eq hs h
  | hex s hs h => exact fromStrRadix_eq hs h

/-- A magnitude has no sign. -/
lemma parseInt_of_magnitude (h : Magnitude s n) : parseInt s = parseMagnitude s := by
  cases h with
  | decimal c s hc h =>
    have hminus : c ≠ '-' := fun heq => absurd (heq ▸ h c List.mem_cons_self) (by decide)
    simp [parseInt, hminus]
  | _ => rfl

/-- A number token is read as the number that it is if its magnitude is below `2^63`, and is a panic
otherwise. -/
lemma NumberToken.parseInt_eq {x : ℤ} (h : NumberToken s x) :
    (|x| < 2 ^ 63 → ∃ i, parseInt s = some i ∧ i.toInt = x) ∧
    (¬|x| < 2 ^ 63 → parseInt s = none) := by
  cases h with
  | @plain s n h =>
    have hn : |(n : ℤ)| < 2 ^ 63 ↔ n < 2 ^ 63 := by
      rw [Nat.abs_cast]
      omega
    rw [hn, parseInt_of_magnitude h, parseMagnitude_eq h]
    exact ⟨fun hlt => ⟨_, if_pos hlt, Int64.toInt_ofNat_of_lt hlt⟩, fun hge => if_neg hge⟩
  | @minus s n h =>
    have hn : |(-n : ℤ)| < 2 ^ 63 ↔ n < 2 ^ 63 := by
      rw [abs_neg, Nat.abs_cast]
      omega
    rw [hn, parseInt, parseMagnitude_eq h]
    refine ⟨fun hlt => ⟨-.ofNat n, by rw [if_pos hlt]; rfl, ?_⟩, fun hge => by rw [if_neg hge]; rfl⟩
    rw [Int64.toInt_neg, Int64.toInt_ofNat_of_lt hlt]
    exact Int.bmod_eq_of_le (by omega) (by omega)

/-- A number token is read without a panic, as the number that it is, such that a parser for an
integer type that meets this token alone takes the number if the type has it and fails otherwise:
all this exactly if the magnitude is below `2^63`. -/
theorem parseInt_parses (x : ℤ) (h : NumberToken s x) :
    (∃ i, parseInt s = some i ∧ i.toInt = x ∧ ∀ (k : IntType) (range stop : Span) (v : k.Val),
      ∃ l, CmdlineLexer.new [.token (.number i) range (by simp)] stop = .ok l ∧
        (∀ hk : k.min ≤ x ∧ x ≤ k.max, k.parse (v, l) = .ok () (⟨x, hk⟩, .atEnd stop)) ∧
        (¬(k.min ≤ x ∧ x ≤ k.max) →
          k.parse (v, l) = .error (.err ⟨.badInt (.number i), range⟩) (v, .atEnd stop))) ↔
    |x| < 2 ^ 63 := by
  refine ⟨fun ⟨i, hi, _⟩ => ?_, fun hx => ?_⟩
  · by_contra hx
    rw [h.parseInt_eq.2 hx] at hi
    cases hi
  obtain ⟨i, hi, rfl⟩ := h.parseInt_eq.1 hx
  refine ⟨i, hi, rfl, fun k range stop v => ⟨_, rfl, fun hk => ?_, fun hk => ?_⟩⟩
  · have hinto : k.tryInto i = some ⟨i.toInt, hk⟩ := dif_pos hk
    simp [IntType.parse, parseToken, CmdlineLexer.nextTok, IntType.read, hinto, assign]
  · have hinto : k.tryInto i = none := dif_neg hk
    simp [IntType.parse, parseToken, CmdlineLexer.nextTok, IntType.read, hinto,
      CmdlineToken.makeError]

/-- The least value of `i8`. -/
theorem parseInt_parses_hex : ∃ i, parseInt ['-', '0', 'x', '8', '0'] = some i ∧
    i.toInt = -128 := by
  obtain ⟨i, hi, hx, -⟩ :=
    (parseInt_parses (-128) (.minus (.hex ['8', '0'] (by decide) (by simp [digit])))).mpr
    (by norm_num)
  exact ⟨i, hi, hx⟩

/-- The hexadecimal digits of `2^63`. -/
def largeDigits : List Char := '8' :: List.replicate 15 '0'

/-- A value of `u64` and the least value of `i64` that are panics. -/
theorem parseInt_panics : NumberToken ('0' :: 'x' :: largeDigits) (2 ^ 63) ∧
    NumberToken ('-' :: '0' :: 'x' :: largeDigits)
      (-2 ^ 63) ∧ parseInt ('0' :: 'x' :: largeDigits) = none ∧
        parseInt ('-' :: '0' :: 'x' :: largeDigits) = none :=
  have hdigits : ∀ d ∈ largeDigits, digit d < 16 := by simp [largeDigits, digit]
  ⟨.plain (.hex largeDigits (by decide) hdigits), .minus (.hex largeDigits (by decide) hdigits),
    by decide, by decide⟩

end CabOS.Cmdline
