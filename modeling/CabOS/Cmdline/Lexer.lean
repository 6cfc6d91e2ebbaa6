import CabOS.Library.Exec
import CabOS.Library.Separated

/-!
# The lexer of the kernel command line

`CmdlineLexer` keeps one token of lookahead over what the Logos tokeniser produces.  The tokeniser
itself is not modelled: its output is a list of lexemes, each a token other than `Eof` (which has no
pattern) or an error, followed for ever by the end of the input.

A parser changes a value through `&mut self` and the lexer through `&mut CmdlineLexer`, so its state
is a pair of the two.  `Implements p R` says that such a parser accepts exactly the language `R`,
with the effect that `R` gives each word, and that its loops end.
-/

namespace CabOS.Cmdline

open List Nat

/-- A range of bytes of the command line. -/
structure Span where
  start : ℕ
  stop : ℕ
  deriving DecidableEq, Repr

/-- The tokens, `CmdlineTokenData`. -/
inductive CmdlineTokenData where
  | comma
  | colon
  | openBrace
  | closedBrace
  | not
  | or
  | openParen
  | closedParen
  | identifier (id : String)
  | number (x : Int64)
  | eof
  deriving DecidableEq

/-- What can be wrong with a command line, `CmdlineErrorCode`. -/
inductive CmdlineErrorCode where
  | expectedToken (actual expected : CmdlineTokenData)
  | unknownField (names : List String)
  | unknownFlagField (names : List String)
  | unknownFlag (names : List String)
  | badToken
  | badBoolean (tok : CmdlineTokenData)
  | badInt (tok : CmdlineTokenData)
  deriving DecidableEq

/-- A token with the range it was read from. -/
structure CmdlineToken where
  data : CmdlineTokenData
  range : Span
  deriving DecidableEq

/-- An error with the range of the token that it is about. -/
structure CmdlineParseError where
  code : CmdlineErrorCode
  range : Span
  deriving DecidableEq

/-- The two ways a parse ends without success in the model: the source returns an error, or the
bound on the rounds of a loop is used up. -/
inductive Stop where
  | err (e : CmdlineParseError)
  | outOfFuel
  deriving DecidableEq

/-- One result of the tokeniser before the end of the input. -/
inductive Lexeme where
  | token (data : CmdlineTokenData) (range : Span) (real : data ≠ .eof)
  | bad (range : Span)

/-- The token of a lexeme. -/
def Lexeme.data? : Lexeme → Option CmdlineTokenData
  | .token data _ _ => some data
  | .bad _ => none

/-- The lexer: the token that is next, and what the tokeniser still has.  `stop` is the range that
it reports at the end. -/
structure CmdlineLexer where
  rest : List Lexeme
  stop : Span
  current : CmdlineToken
  ended : current.data = .eof → rest = []

/-- A parser of the source for values of type `σ`. -/
abbrev Parser (σ α : Type) : Type := EStateM Stop (σ × CmdlineLexer) α

namespace CmdlineToken

variable {σ : Type}

/-- `make_error`. -/
def makeError (t : CmdlineToken) (code : CmdlineErrorCode) : CmdlineParseError :=
  ⟨code, t.range⟩

/-- `unwrap_ident`: the name that an identifier has. -/
def unwrapIdent (t : CmdlineToken) : Parser σ String :=
  match t.data with
  | .identifier id => pure id
  | data => throw (.err ⟨.expectedToken data (.identifier "*"), t.range⟩)

end CmdlineToken

namespace CmdlineLexer

variable {σ : Type}

/-- The lexer at the end of the input. -/
def atEnd (stop : Span) : CmdlineLexer :=
  ⟨[], stop, ⟨.eof, stop⟩, fun _ => rfl⟩

/-- `CmdlineLexer::new`: the first token is read at once. -/
def new (data : List Lexeme) (stop : Span) : Except CmdlineParseError CmdlineLexer :=
  match data with
  | [] => .ok (atEnd stop)
  | .token data range real :: rest => .ok ⟨rest, stop, ⟨data, range⟩, fun h => absurd h real⟩
  | .bad range :: _ => .error ⟨.badToken, range⟩

/-- `next_tok`: the token that was next is returned, and the one behind it is read. -/
def nextTok : Parser σ CmdlineToken := fun (v, l) =>
  match h : l.rest with
  | [] => .ok l.current (v, atEnd l.stop)
  | .token data range real :: rest =>
    .ok l.current (v, ⟨rest, l.stop, ⟨data, range⟩, fun h => absurd h real⟩)
  | .bad range :: rest =>
    .error (.err ⟨.badToken, range⟩) (v,
      ⟨rest, l.stop, l.current, fun hend => by simp [l.ended hend] at h⟩)

/-- `peek`. -/
def peek : Parser σ CmdlineToken := do
  return (← get).2.current

/-- `expect`: the next token has to be `tok`. -/
def expect (tok : CmdlineTokenData) : Parser σ Unit := do
  let t ← nextTok
  if t.data ≠ tok then
    throw (.err ⟨.expectedToken t.data tok, t.range⟩)

/-- The loop of `parse_block`, with a bound on the number of rounds. -/
def parseItems (delimiter : CmdlineTokenData) (handler : Parser σ Unit) : ℕ → Parser σ Unit
  | 0 => throw .outOfFuel
  | n + 1 => do
    handler
    let t ← peek
    if t.data ≠ delimiter then
      return ()
    else
      let _ ← nextTok
      parseItems delimiter handler n

/-- What the lexer has not passed yet: the tokens, and `none` where the tokeniser reports an error.
-/
def upcoming (l : CmdlineLexer) : List (Option CmdlineTokenData) :=
  if l.current.data = .eof then [] else some l.current.data :: l.rest.map Lexeme.data?

/-- `parse_block`: items with delimiters between them up to `endTok`.  Every round of the loop
passes a delimiter, so there are at most as many rounds as there are tokens. -/
def parseBlock (endTok delimiter : CmdlineTokenData) (handler : Parser σ Unit) : Parser σ Unit := do
  let t ← peek
  if t.data ≠ endTok then
    let n := (← get).2.upcoming.length
    parseItems delimiter handler (n + 1)
  expect endTok

/-- `CmdlineLexer::parse`. -/
def parse (p : Parser σ Unit) (data : List Lexeme) (stop : Span) (out : σ) :
    Except Stop Unit × σ :=
  match new data stop with
  | .error e => (.error (.err e), out)
  | .ok l =>
    match p (out, l) with
    | .ok _ (out', _) => (.ok (), out')
    | .error e (out', _) => (.error e, out')

end CmdlineLexer

/-! ## What the operations of the lexer do -/

/-- The word that a token is: the end of the input is no token of it. -/
def CmdlineTokenData.word (d : CmdlineTokenData) : List CmdlineTokenData :=
  if d = .eof then [] else [d]

lemma CmdlineTokenData.word_of_ne {d : CmdlineTokenData} (h : d ≠ .eof) : d.word = [d] := by
  rw [word, if_neg h]

/-- The computation never runs out of rounds. -/
def Halts {σ α : Type} (p : Parser σ α) : Prop :=
  ∀ s s', p s ≠ .error .outOfFuel s'

namespace Halts

variable {σ α β : Type}

lemma pure (a : α) : Halts (pure a : Parser σ α) := by
  intro s s' h
  cases h

lemma error (e : CmdlineParseError) : Halts (throw (.err e) : Parser σ α) := by
  intro s s' h
  cases h

/-- Sequencing. -/
lemma bind {p : Parser σ α} {f : α → Parser σ β} (hp : Halts p) (hf : ∀ a, Halts (f a)) :
    Halts (p >>= f) := by
  intro s s' h
  rw [exec_bind] at h
  cases e : p s with
  | ok a t =>
    rw [e] at h
    exact hf a t s' h
  | error err t =>
    rw [e] at h
    cases h
    exact hp _ _ e

lemma ite {c : Prop} [Decidable c] {p q : Parser σ α} (hp : Halts p) (hq : Halts q) :
    Halts (if c then p else q) := by
  split_ifs
  · exact hp
  · exact hq

/-- Reading a name. -/
lemma unwrapIdent (t : CmdlineToken) : Halts (t.unwrapIdent : Parser σ String) := by
  unfold CmdlineToken.unwrapIdent
  cases t.data with
  | identifier id => exact pure id
  | _ => exact error _

end Halts

/-- `unwrap_ident` returns exactly the name of an identifier. -/
lemma CmdlineToken.unwrapIdent_eq_ok {σ : Type} {t : CmdlineToken} {id : String}
    {s s' : σ × CmdlineLexer} : t.unwrapIdent s = .ok id s' ↔ t.data = .identifier id ∧ s' = s := by
  unfold unwrapIdent
  cases h : t.data with
  | identifier id' =>
    simp only [exec_pure, EStateM.Result.ok.injEq, CmdlineTokenData.identifier.injEq]
    exact and_congr_right fun _ => eq_comm
  | _ => simp

namespace CmdlineLexer

variable {σ : Type} {l l' : CmdlineLexer} {v v' : σ} {d : CmdlineTokenData} {t : CmdlineToken}
  {w u : List CmdlineTokenData}

lemma upcoming_eq_nil_iff : l.upcoming = [] ↔ l.current.data = .eof := by
  unfold upcoming
  split_ifs with h
  · simp [h]
  · simp [h]

/-- The next token is the first one that is left. -/
lemma current_of_upcoming {u : List (Option CmdlineTokenData)} (h : l.upcoming = some d :: u) :
    l.current.data = d ∧ d ≠ .eof ∧ u = l.rest.map Lexeme.data? := by
  unfold upcoming at h
  split_ifs at h with hend
  obtain ⟨hd, hu⟩ := List.cons.inj h
  cases Option.some.inj hd
  exact ⟨rfl, hend, hu.symm⟩

/-- `next_tok` takes the next token away, and nothing from the value. -/
lemma nextTok_ok (h : nextTok (v, l) = .ok t (v', l')) :
    v' = v ∧ t = l.current ∧ l.upcoming = t.data.word.map some ++ l'.upcoming := by
  unfold nextTok at h
  simp only at h
  split at h
  · rename_i hrest
    cases h
    refine ⟨rfl, rfl, ?_⟩
    simp only [upcoming, atEnd, CmdlineTokenData.word, hrest]
    split_ifs <;> simp
  · rename_i data range real rest hrest
    have hne : l.current.data ≠ .eof := fun he => by simp [l.ended he] at hrest
    cases h
    refine ⟨rfl, rfl, ?_⟩
    simp [upcoming, CmdlineTokenData.word_of_ne hne, hne, real, hrest, Lexeme.data?]
  · cases h

/-- What `peek` sees where only tokens are left. -/
lemma current_eq_head (h : l.upcoming = u.map some) : l.current.data = u.head?.getD .eof := by
  cases u with
  | nil => exact upcoming_eq_nil_iff.mp h
  | cons d u => exact (current_of_upcoming h).1

/-- Where a token is left and no error follows it, `next_tok` returns it. -/
lemma nextTok_cons (v : σ) (h : l.upcoming = (d :: u).map some) :
    ∃ l', nextTok (v, l) = .ok l.current (v, l') ∧ l'.upcoming = u.map some := by
  obtain ⟨-, -, hrest⟩ := current_of_upcoming h
  cases hr : l.rest with
  | nil =>
    rw [hr] at hrest
    refine ⟨atEnd l.stop, ?_, ?_⟩
    · unfold nextTok
      simp only
      split <;> simp_all
    · cases u with
      | nil => rfl
      | cons _ _ => cases hrest
  | cons x rest =>
    rw [hr] at hrest
    cases x with
    | bad range =>
      cases u with
      | nil => cases hrest
      | cons _ _ => cases hrest
    | token data range real =>
      refine ⟨⟨rest, l.stop, ⟨data, range⟩, fun h => absurd h real⟩, ?_, ?_⟩
      · unfold nextTok
        simp only
        split <;> simp_all
      · rw [hrest]
        simp [upcoming, real, Lexeme.data?]

/-- At the end `next_tok` returns the end again. -/
lemma nextTok_nil (h : l.upcoming = []) : nextTok (v, l) = .ok l.current (v, atEnd l.stop) := by
  have hrest := l.ended (upcoming_eq_nil_iff.mp h)
  unfold nextTok
  simp only
  split <;> simp_all

lemma nextTok_halts : Halts (nextTok : Parser σ CmdlineToken) := by
  rintro ⟨v, l⟩ s' h
  unfold nextTok at h
  simp only at h
  split at h <;> cases h

@[simp] lemma exec_peek (s : σ × CmdlineLexer) : peek s = .ok s.2.current s := rfl

/-- `expect` takes away the token that it is asked for; there is nothing behind the end of the
input. -/
lemma expect_ok {a : Unit} (h : expect d (v, l) = .ok a (v', l')) :
    v' = v ∧ l.upcoming = d.word.map some ++ l'.upcoming ∧ (d = .eof → l'.upcoming = []) := by
  obtain ⟨t, ⟨v₁, l₁⟩, ht, h⟩ := exec_bind_eq_ok.mp h
  obtain ⟨rfl, rfl, hup⟩ := nextTok_ok ht
  rw [exec_ite] at h
  split_ifs at h with hd
  · cases h
  · rw [ne_eq, not_not] at hd
    cases h
    refine ⟨rfl, hd ▸ hup, fun hend => ?_⟩
    rw [upcoming_eq_nil_iff.mpr (hd.trans hend)] at hup
    exact (append_eq_nil_iff.mp hup.symm).2

/-- `expect` succeeds where its token is next. -/
lemma expect_word (hend : d = .eof → u = []) (h : l.upcoming = (d.word ++ u).map some) :
    ∃ l', expect d (v, l) = .ok () (v, l') ∧ l'.upcoming = u.map some := by
  unfold expect
  by_cases hd : d = .eof
  · obtain rfl := hend hd
    have hnil : l.upcoming = [] := by simpa [CmdlineTokenData.word, hd] using h
    refine ⟨atEnd l.stop, ?_, rfl⟩
    simp [nextTok_nil hnil, upcoming_eq_nil_iff.mp hnil, hd]
  · rw [CmdlineTokenData.word_of_ne hd] at h
    obtain ⟨l', hl', hup⟩ := nextTok_cons v h
    obtain ⟨hcur, -⟩ := current_of_upcoming h
    exact ⟨l', by simp [hl', hcur], hup⟩

lemma expect_halts : Halts (expect d : Parser σ Unit) :=
  nextTok_halts.bind fun _ => .ite (.error _) (.pure _)

end CmdlineLexer

/-! ## Parsers and their languages -/

/-- Whenever the parser returns `Ok`, it has passed a word of the language and changed the value as
the word says. -/
def Sound {σ : Type} (p : Parser σ Unit) (R : List CmdlineTokenData → σ → σ → Prop) : Prop :=
  ∀ {v l a v' l'}, p (v, l) = .ok a (v', l') →
  ∃ w, l.upcoming = w.map some ++ l'.upcoming ∧ R w v v'

/-- Wherever a word of the language is next, and no colon after it, the parser returns `Ok`, passes
exactly this word and changes the value as the word says. -/
def Complete {σ : Type} (p : Parser σ Unit) (R : List CmdlineTokenData → σ → σ → Prop) : Prop :=
  ∀ {w u v v' l}, R w v v' → u.head? ≠ some .colon → l.upcoming = (w ++ u).map some →
    ∃ l', p (v, l) = .ok () (v', l') ∧ l'.upcoming = u.map some

/-- The parser accepts exactly the language. -/
structure Implements {σ : Type} (p : Parser σ Unit)
    (R : List CmdlineTokenData → σ → σ → Prop) : Prop where
  sound : Sound p R
  complete : Complete p R
  halts : Halts p

namespace CmdlineLexer

variable {σ : Type} {handler : Parser σ Unit} {item : List CmdlineTokenData → σ → σ → Prop}
  {sep endTok : CmdlineTokenData} {l l' : CmdlineLexer} {v v' : σ} {w u :
    List CmdlineTokenData} {a : Unit}

/-- The loop passes all items where no delimiter follows them. -/
lemma parseItems_complete (hend : sep ≠ .eof) (hsep : sep ≠ .colon) (hitem : Complete handler item)
    (hitems : Separated item sep w v v') (hcolon : u.head? ≠ some .colon) (hu : u.head? ≠ some sep)
    (hup : l.upcoming = (w ++ u).map some) (n : ℕ) (hn : l.upcoming.length < n) :
    ∃ l', parseItems sep handler n (v, l) = .ok () (v', l') ∧ l'.upcoming = u.map some := by
  induction hitems generalizing l n with
  | @one w v v' h =>
    obtain ⟨n, rfl⟩ := exists_eq_succ_of_ne_zero (Nat.ne_zero_of_lt hn)
    obtain ⟨l', hl', hup'⟩ := hitem h hcolon hup
    refine ⟨l', ?_, hup'⟩
    have hd : l'.current.data ≠ sep := by
      rw [current_eq_head hup']
      cases u with
      | nil => exact hend.symm
      | cons d u => simpa using hu
    simp [parseItems, hl', hd]
  | @more w x v v₁ v' h _ ih =>
    obtain ⟨n, rfl⟩ := exists_eq_succ_of_ne_zero (Nat.ne_zero_of_lt hn)
    rw [append_assoc, cons_append] at hup
    obtain ⟨l₁, hl₁, hup₁⟩ := hitem h (by simpa using hsep) hup
    obtain ⟨hcur, -⟩ := current_of_upcoming hup₁
    obtain ⟨l₂, hl₂, hup₂⟩ := nextTok_cons v₁ hup₁
    obtain ⟨l', hl', hup'⟩ := ih hup₂ n (by
      rw [hup] at hn
      rw [hup₂]
      simp at hn ⊢
      omega)
    refine ⟨l', ?_, hup'⟩
    simp [parseItems, hl₁, hcur, hl₂, hl']

/-- Items that do not begin with a token do not do so as a sequence. -/
lemma head_of_separated (hstart : ∀ w v v', item w v v' → w.head?.getD endTok ≠ endTok)
    (h : Separated item sep w v v') (u : List CmdlineTokenData) :
    (w ++ u).head?.getD endTok ≠ endTok := by
  have hhead : ∀ w v v' u, item w v v' → (w ++ u).head?.getD endTok ≠ endTok := by
    intro w v v' u h
    have := hstart w v v' h
    cases w with
    | nil => exact absurd rfl this
    | cons d w => exact this
  cases h with
  | one h => exact hhead _ _ _ _ h
  | more h _ =>
    rw [append_assoc]
    exact hhead _ _ _ _ h

/-- The token that ends a block comes first in what follows the items. -/
lemma head_word (hu : endTok = .eof → u = []) :
    (endTok.word ++ u).head? = if endTok = .eof then none else some endTok := by
  split_ifs with h
  · simp [CmdlineTokenData.word, h, hu h]
  · simp [CmdlineTokenData.word_of_ne h]

/-- A block is accepted where its items do not begin with the token that ends it. -/
lemma parseBlock_complete (hsepEof : sep ≠ .eof) (hsep : sep ≠ .colon) (hend : endTok ≠ .colon)
    (hne : endTok ≠ sep) (hitem : Complete handler item)
    (hstart : ∀ w v v', item w v v' → w.head?.getD endTok ≠ endTok)
    (hblock : Block item sep w v v') (hu : endTok = .eof → u = [])
    (hup : l.upcoming = (w ++ endTok.word ++ u).map some) :
    ∃ l', parseBlock endTok sep handler (v, l) = .ok () (v', l') ∧ l'.upcoming = u.map some := by
  have hhead := head_word hu
  rw [append_assoc] at hup
  have hcur := current_eq_head hup
  simp only [parseBlock, exec_bind, exec_peek, exec_get, exec_ite]
  rcases hblock with ⟨rfl, rfl⟩ | hitems
  · rw [nil_append] at hup hcur
    have hd : l.current.data = endTok := by
      rw [hcur, hhead]
      split_ifs with h
      · exact h.symm
      · rfl
    rw [if_neg (not_not.mpr hd)]
    exact expect_word hu hup
  · have hd : l.current.data ≠ endTok := by
      have hfirst := head_of_separated hstart hitems (endTok.word ++ u)
      rw [hcur]
      cases hw : (w ++ (endTok.word ++ u)).head? with
      | none => simp [hw] at hfirst
      | some d => simpa [hw] using hfirst
    have hother : ∀ x, endTok ≠ x → (endTok.word ++ u).head? ≠ some x := by
      intro x hx
      rw [hhead]
      split_ifs
      · simp
      · simpa using hx
    obtain ⟨l₁, hl₁, hup₁⟩ :=
      parseItems_complete hsepEof hsep hitem hitems (hother _ hend) (hother _ hne) hup
        (l.upcoming.length + 1) (lt_succ_self _)
    rw [if_pos hd, hl₁]
    exact expect_word hu hup₁

section

variable (hsep : sep ≠ .eof)
include hsep

section

variable (hitem : Sound handler item)
include hitem

/-- The loop passes one item after another. -/
lemma parseItems_ok (n : ℕ) (h : parseItems sep handler n (v, l) = .ok a (v', l')) :
    ∃ w, l.upcoming = w.map some ++ l'.upcoming ∧ Separated item sep w v v' := by
  induction n generalizing v l with
  | zero => cases h
  | succ n ih =>
    obtain ⟨_, ⟨v₁, l₁⟩, hhandler, h⟩ := exec_bind_eq_ok.mp h
    obtain ⟨w, hw, hR⟩ := hitem hhandler
    simp only [exec_bind, exec_peek, exec_pure, exec_ite] at h
    split_ifs at h with hd
    · cases h
      exact ⟨w, hw, .one hR⟩
    · rw [ne_eq, not_not] at hd
      cases hnext : nextTok (v₁, l₁) with
      | error e s =>
        rw [hnext] at h
        cases h
      | ok t s =>
        obtain ⟨v₂, l₂⟩ := s
        rw [hnext] at h
        obtain ⟨rfl, rfl, hup⟩ := nextTok_ok hnext
        obtain ⟨w', hw', hS⟩ := ih h
        refine ⟨w ++ sep :: w', ?_, .more hR hS⟩
        rw [hw, hup, hw', hd, CmdlineTokenData.word_of_ne hsep]
        simp

/-- The loop ends within as many rounds as there are tokens, as every round passes a delimiter. -/
lemma parseItems_halts (hhalts : Halts handler) (n : ℕ) (hn : l.upcoming.length < n)
    (s : σ × CmdlineLexer) :
    parseItems sep handler n (v, l) ≠ .error .outOfFuel s := by
  induction n generalizing v l with
  | zero => omega
  | succ n ih =>
    intro h
    rw [parseItems, exec_bind] at h
    cases hhandler : handler (v, l) with
    | error e t =>
      rw [hhandler] at h
      cases h
      exact hhalts _ _ hhandler
    | ok a t =>
      obtain ⟨v₁, l₁⟩ := t
      obtain ⟨w, hw, -⟩ := hitem hhandler
      rw [hhandler] at h
      simp only [exec_bind, exec_peek, exec_pure, exec_ite] at h
      split_ifs at h with hd
      rw [ne_eq, not_not] at hd
      cases hnext : nextTok (v₁, l₁) with
      | error e t =>
        rw [hnext] at h
        cases h
        exact nextTok_halts _ _ hnext
      | ok t s =>
        obtain ⟨v₂, l₂⟩ := s
        obtain ⟨rfl, rfl, hup⟩ := nextTok_ok hnext
        rw [hnext] at h
        refine ih ?_ h
        rw [hw, hup, hd, CmdlineTokenData.word_of_ne hsep] at hn
        simp only [length_append, length_map, length_singleton] at hn
        omega

/-- A block is its items and the token that ends it. -/
lemma parseBlock_ok (h : parseBlock endTok sep handler (v, l) = .ok a (v', l')) :
    ∃ w, l.upcoming = (w ++ endTok.word).map some ++ l'.upcoming ∧ Block item sep w v v' ∧
      (endTok = .eof → l'.upcoming = []) := by
  simp only [parseBlock, exec_bind, exec_peek, exec_get, exec_ite] at h
  split_ifs at h with hd
  · cases hitems : parseItems sep handler (l.upcoming.length + 1) (v, l) with
    | error e s =>
      rw [hitems] at h
      cases h
    | ok b s =>
      obtain ⟨v₁, l₁⟩ := s
      rw [hitems] at h
      obtain ⟨w, hw, hS⟩ := parseItems_ok hsep hitem _ hitems
      obtain ⟨rfl, hup, hend⟩ := expect_ok h
      refine ⟨w, ?_, Or.inr hS, hend⟩
      rw [hw, hup]
      simp
  · obtain ⟨rfl, hup, hend⟩ := expect_ok h
    exact ⟨[], by simpa using hup, Or.inl ⟨rfl, rfl⟩, hend⟩

/-- A block ends. -/
lemma parseBlock_halts (hhalts : Halts handler) : Halts (parseBlock endTok sep handler) := by
  rintro ⟨v, l⟩ s h
  simp only [parseBlock, exec_bind, exec_peek, exec_get, exec_ite] at h
  split_ifs at h with hd
  · cases hitems : parseItems sep handler (l.upcoming.length + 1) (v, l) with
    | error e t =>
      rw [hitems] at h
      cases h
      exact parseItems_halts hsep hitem hhalts _ (lt_succ_self _) _ hitems
    | ok b t =>
      rw [hitems] at h
      exact expect_halts _ _ h
  · exact expect_halts _ _ h

end

end

end CmdlineLexer

end CabOS.Cmdline
