import CabOS.Cmdline.Lexer

/-!
# The parser of bit flags

`impl<T: ParsableFlags> CmdlineParsable for T` reads flag names, each with an optional `!` before
it, in a `loop` that has no `break` and passes no `|`.  So it never returns `Ok`: it goes on until a
token is not the name of a flag.  Of the documented behaviour, that an unknown name is refused is
left.
-/

namespace CabOS.Cmdline

open CmdlineLexer

/-- A type of bit flags over `w` bits: the constant `T::FLAGS`. -/
structure FlagsType (w : ℕ) where
  flags : List (String × BitVec w)

/-- `eq_ignore_ascii_case`. -/
def eqIgnoreAsciiCase (a b : String) : Bool :=
  a.toList.map Char.toLower = b.toList.map Char.toLower

namespace FlagsType

variable {w : ℕ} (T : FlagsType w)

/-- The flag of a name: the first one of `T::FLAGS` that has it. -/
def find? (id : String) : Option (BitVec w) :=
  (T.flags.find? fun f => eqIgnoreAsciiCase f.1 id).map Prod.snd

/-- `self.remove(flag)` after a `!`, and `self.insert(flag)` otherwise. -/
def change (neg : Bool) (bits flag : BitVec w) : BitVec w :=
  if neg then bits &&& ~~~flag else bits ||| flag

/-- The second part of the loop's body: the name of a flag, and what is done with the flag. -/
def parseName (neg : Bool) : Parser (BitVec w) Unit := do
  let idTok ← nextTok
  let id ← idTok.unwrapIdent
  match T.find? id with
  | none => throw (.err (idTok.makeError (.unknownFlag [])))
  | some item => modify fun s => (change neg s.1 item, s.2)

/-- The body of the loop in `parse`. -/
def parseEntry : Parser (BitVec w) Unit := do
  let t ← peek
  if t.data = .not then
    let _ ← nextTok
    T.parseName true
  else
    T.parseName false

/-- The loop of `parse`, with a bound on the number of rounds: there is no way out but an error. -/
def parseLoop : ℕ → Parser (BitVec w) Unit
  | 0 => throw .outOfFuel
  | n + 1 => do
    T.parseEntry
    parseLoop n

/-- `parse` of a type of bit flags.  Every round passes a token, so there are at most as many rounds
as tokens. -/
def parse : Parser (BitVec w) Unit := do
  let n := (← get).2.upcoming.length
  T.parseLoop (n + 1)

/-! ## Lists of flags -/

/-- One entry of a list: whether there is a `!`, and the name. -/
def entryWord (x : Bool × String) : List CmdlineTokenData :=
  if x.1 then [.not, .identifier x.2] else [.identifier x.2]

/-- A list of flags as it is written, with `|` between the entries. -/
def listWord (xs : List (Bool × String)) : List CmdlineTokenData :=
  List.intercalate [.or] (xs.map entryWord)

/-- What a list of flags makes of a value, from left to right; there is no result if a name is
unknown. -/
def applied (xs : List (Bool × String)) (bits : BitVec w) : Option (BitVec w) :=
  xs.foldlM (fun bits x => (T.find? x.2).map (change x.1 bits)) bits

/-- The tokens that can follow a list of flags. -/
def Follows (u : List CmdlineTokenData) : Prop :=
  u.head?.getD .eof ∈ [CmdlineTokenData.comma, .closedBrace, .closedParen, .eof]

instance (u : List CmdlineTokenData) : Decidable (Follows u) :=
  inferInstanceAs (Decidable (_ ∈ _))

variable {T} {bits bits' : BitVec w} {l l' : CmdlineLexer}

variable (T bits) in
/-- An entry of a list makes the parser look for the flag, once its tokens are passed. -/
lemma parseEntry_entry {x : Bool × String} {u : List CmdlineTokenData}
    (hup : l.upcoming = (entryWord x ++ u).map some) :
    ∃ range l', l'.upcoming = u.map some ∧ T.parseEntry (bits, l) =
        match T.find? x.2 with
        | none => .error (.err ⟨.unknownFlag [], range⟩) (bits, l')
        | some flag => .ok () (change x.1 bits flag, l') := by
  have hname : ∀ {l : CmdlineLexer} (neg : Bool), l.upcoming = (.identifier x.2 :: u).map some →
      ∃ range l', l'.upcoming = u.map some ∧ T.parseName neg (bits, l) =
          match T.find? x.2 with
          | none => .error (.err ⟨.unknownFlag [], range⟩) (bits, l')
          | some flag => .ok () (change neg bits flag, l') := by
    intro l neg hup
    obtain ⟨l', hl', hup'⟩ := nextTok_cons bits hup
    obtain ⟨hcur, -⟩ := current_of_upcoming hup
    refine ⟨l.current.range, l', hup', ?_⟩
    cases hx : T.find? x.2 <;>
      simp [parseName, hl', CmdlineToken.unwrapIdent, hcur, hx, CmdlineToken.makeError]
  cases hneg : x.1 with
  | true =>
    rw [entryWord, if_pos hneg] at hup
    obtain ⟨l₁, hl₁, hup₁⟩ := nextTok_cons bits hup
    obtain ⟨hcur, -⟩ := current_of_upcoming hup
    obtain ⟨range, l', hup', hl'⟩ := hname true hup₁
    exact ⟨range, l', hup', by simp [parseEntry, hcur, hl₁, hl']⟩
  | false =>
    rw [entryWord, if_neg (by simp [hneg])] at hup
    obtain ⟨hcur, -⟩ := current_of_upcoming hup
    obtain ⟨range, l', hup', hl'⟩ := hname false hup
    exact ⟨range, l', hup', by simp [parseEntry, hcur, hl']⟩

variable (T bits) in
/-- Where a `|` comes next the parser asks for a name, and fails. -/
lemma parseEntry_or {u : List CmdlineTokenData} (hup : l.upcoming = (.or :: u).map some) :
    ∃ range l', T.parseEntry (bits, l) =
      .error (.err ⟨.expectedToken .or (.identifier "*"), range⟩) (bits, l') := by
  obtain ⟨l', hl', -⟩ := nextTok_cons bits hup
  obtain ⟨hcur, -⟩ := current_of_upcoming hup
  exact ⟨l.current.range, l', by simp [parseEntry, parseName, hcur, hl', CmdlineToken.unwrapIdent]⟩

/-- A list of two entries or more has a `|` behind the first one. -/
lemma listWord_cons (x y : Bool × String) (ys : List (Bool × String)) :
    listWord (x :: y :: ys) = entryWord x ++ .or :: listWord (y :: ys) := by
  simp [listWord, List.intercalate]

variable (T bits) in
/-- A list with an unknown name is refused: at the first entry if its name is unknown, and at the
`|` behind it otherwise. -/
lemma parse_unknown {x : Bool × String} {xs : List (Bool × String)} {u : List CmdlineTokenData}
    (hunknown : T.applied (x :: xs) bits = none)
    (hup : l.upcoming = (listWord (x :: xs) ++ u).map some) :
    (T.find? x.2 = none ∧ ∃ range l',
      T.parse (bits, l) = .error (.err ⟨.unknownFlag [], range⟩) (bits, l')) ∨
    (∃ flag, T.find? x.2 = some flag ∧ ∃ range l', T.parse (bits, l) =
        .error (.err ⟨.expectedToken .or (.identifier "*"), range⟩)
        (change x.1 bits flag, l')) := by
  cases hx : T.find? x.2 with
  | none =>
    obtain ⟨u', hu'⟩ : ∃ u', listWord (x :: xs) ++ u = entryWord x ++ u' := by
      cases xs with
      | nil => exact ⟨u, by simp [listWord, List.intercalate]⟩
      | cons y ys => exact ⟨_, by rw [listWord_cons, List.append_assoc]⟩
    rw [hu'] at hup
    obtain ⟨range, l', -, hentry⟩ := parseEntry_entry T bits hup
    rw [hx] at hentry
    exact Or.inl ⟨rfl, range, l', by simp [parse, parseLoop, hentry]⟩
  | some flag =>
    refine Or.inr ⟨flag, rfl, ?_⟩
    cases xs with
    | nil => simp [applied, hx] at hunknown
    | cons y ys =>
      rw [listWord_cons, List.append_assoc] at hup
      obtain ⟨_, l₁, hup₁, hentry⟩ := parseEntry_entry T bits hup
      rw [hx] at hentry
      obtain ⟨range, l', hor⟩ := parseEntry_or T (change x.1 bits flag) hup₁
      refine ⟨range, l', ?_⟩
      have hlen : ∃ n, l.upcoming.length = n + 1 := by
        refine Nat.exists_eq_succ_of_ne_zero ?_
        rw [hup]
        simp
      obtain ⟨n, hn⟩ := hlen
      simp [parse, hn, parseLoop, hentry, hor]

/-- There is no way out of the loop but an error. -/
lemma parseLoop_ne_ok (n : ℕ) (s s' : BitVec w × CmdlineLexer) : T.parseLoop n s ≠ .ok () s' := by
  induction n generalizing s with
  | zero => exact fun h => (nomatch h)
  | succ n ih =>
    intro h
    rw [parseLoop] at h
    cases hentry : T.parseEntry s with
    | ok a s₁ => exact ih s₁ (by simpa [hentry] using h)
    | error e s₁ => simp [hentry] at h

/-- `parse` never returns `Ok`, on any input. -/
lemma parse_ne_ok (s s' : BitVec w × CmdlineLexer) : T.parse s ≠ .ok () s' :=
  fun h => parseLoop_ne_ok (s.2.upcoming.length + 1) s s' h

/-- **Only unknown flags are treated as they should.**  For every type of flags, every value and
every list that is not empty, whatever follows it: `parse` applies a list of known flags and passes
exactly its tokens, and refuses one with an unknown name, exactly if the list has an unknown name.
-/
theorem parse_refuses_unknown {w : ℕ} (T : FlagsType w) (bits : BitVec w) (l : CmdlineLexer)
    (x : Bool × String) (xs : List (Bool × String)) (u : List CmdlineTokenData)
    (hup : l.upcoming = (listWord (x :: xs) ++ u).map some) :
    ((∀ bits', T.applied (x :: xs) bits = some bits' →
        ∃ l', T.parse (bits, l) = .ok () (bits', l') ∧ l'.upcoming = u.map some) ∧
      (T.applied (x :: xs) bits = none → ∃ e s, T.parse (bits, l) = .error (.err e) s)) ↔
    T.applied (x :: xs) bits = none := by
  constructor
  · rintro ⟨hknown, -⟩
    by_contra hne
    obtain ⟨bits', hbits'⟩ := Option.ne_none_iff_exists'.mp hne
    obtain ⟨l', hparse, -⟩ := hknown bits' hbits'
    exact parse_ne_ok _ _ hparse
  · intro hnone
    refine ⟨fun bits' h => absurd (hnone.symm.trans h) (by simp), fun _ => ?_⟩
    rcases parse_unknown T bits hnone hup with ⟨-, range, l', h⟩ | ⟨flag, -, range, l', h⟩
    · exact ⟨_, _, h⟩
    · exact ⟨_, _, h⟩

/-- Two flags `A` and `B`. -/
def twoFlags : FlagsType 8 := ⟨[("A", 1#8), ("B", 2#8)]⟩

/-- A lexer before the tokens `a`, `|`, an identifier and `,`. -/
def flagLine (id : String) : CmdlineLexer where
  rest := [.token .or ⟨2, 3⟩ (by decide), .token (.identifier id) ⟨4, 5⟩ (by simp),
    .token .comma ⟨5, 6⟩ (by decide)]
  stop := ⟨6, 6⟩
  current := ⟨.identifier "a", ⟨0, 1⟩⟩
  ended := by simp

/-- `a | c`, with an unknown flag behind a known one. -/
theorem parse_refuses_unknown_second : twoFlags.applied [(false, "a"), (false, "c")] 0#8 = none ∧
      ∃ e s, twoFlags.parse (0#8, flagLine "c") = .error (.err e) s :=
  have hnone : twoFlags.applied [(false, "a"), (false, "c")] 0#8 = none := by decide
  ⟨hnone,
    ((parse_refuses_unknown twoFlags 0#8 (flagLine "c") (false, "a") [(false, "c")]
      [.comma] rfl).mpr
    hnone).2 hnone⟩

/-- `a | b` followed by a comma is a list of known flags, and is refused as well. -/
theorem known_flags_refused :
    (flagLine "b").upcoming =
      (listWord [(false, "a"), (false, "b")] ++ [CmdlineTokenData.comma]).map some ∧
      Follows [.comma] ∧ twoFlags.applied [(false, "a"), (false, "b")] 0#8 = some 3#8 ∧
      ∃ range l', twoFlags.parse (0#8, flagLine "b") =
        .error (.err ⟨.expectedToken .or (.identifier "*"), range⟩) (1#8, l') :=
  ⟨rfl, by decide, by decide, _, _, rfl⟩

end FlagsType

end CabOS.Cmdline
