import CabOS.Cmdline.Parse

/-!
# The grammar of the command line

`Ty.Reads` and `Root.Reads` are the grammar of the documentation: which sequences of tokens are
values of a type, and how each changes the state.  A struct is a list of items between braces; an
item `f: value` changes the field `f`, and a field declared `bool` is set by `f` alone and cleared
by `!f`.

The generated parser accepts exactly the sequences without a `!`: by induction over the nesting of
the types, every handler passes exactly its own tokens.  An item `!f` clears the field, and then the
handler asks for a name in the `!` itself and fails.
-/

namespace CabOS.Cmdline

open CmdlineLexer Function CmdlineTokenData Lexeme CmdlineToken

/-- A word of tokens. -/
abbrev Word : Type := List CmdlineTokenData

/-- A list of items between braces. -/
def braced (u : Word) : Word :=
  openBrace :: (u ++ [closedBrace])

/-- The items of a struct with named fields. -/
inductive FieldItem {n : ℕ} {V : Fin n → Type} (name : Fin n → String)
    (isBool : (i : Fin n) → Option (Bool → V i)) (reads : (i : Fin n) → Word → V i → V i → Prop) :
    Word → ((i : Fin n) → V i) → ((i : Fin n) → V i) → Prop
  | assign {w : Word} {v : (i : Fin n) → V i} {i : Fin n} {x : V i} (h : reads i w (v i) x) :
      FieldItem name isBool reads (.identifier (name i) :: .colon :: w) v (update v i x)
  | set {v : (i : Fin n) → V i} {i : Fin n} {f : Bool → V i} (h : isBool i = some f) :
      FieldItem name isBool reads [.identifier (name i)] v (update v i (f true))
  | clear {v : (i : Fin n) → V i} {i : Fin n} {f : Bool → V i} (h : isBool i = some f) :
      FieldItem name isBool reads [.not, .identifier (name i)] v (update v i (f false))

/-- The values of a type, and what they make of the value that was there. -/
def Ty.Reads : (ty : Ty) → Word → ty.Val → ty.Val → Prop
  | .bool => fun w _ b =>
    (w = [.identifier "true"] ∧ b = true) ∨ (w = [.identifier "false"] ∧ b = false) ∨
      ∃ x, w = [.number x] ∧ b = decide (x ≠ 0)
  | .int _ => fun w _ y => ∃ x : Int64, w = [.number x] ∧ y.1 = x.toInt
  | .struct _ name _ field => fun w v v' =>
    ∃ u, w = braced u ∧ Block
      (FieldItem name (fun i => (field i).isBool) fun i => (field i).Reads) .comma u v v'

/-- The items of a command line: an option, a colon and a value. -/
inductive RootItem (R : Root) : Word → R.Val → R.Val → Prop
  | assign {w : Word} {v : R.Val} {i : Fin R.n} {x : (R.field i).Val}
  (h : (R.field i).Reads w (v i) x) :
      RootItem R (.identifier (R.name i) :: .colon :: w) v (update v i x)

/-- The command lines, and what they make of the options. -/
def Root.Reads (R : Root) (w : Word) (v v' : R.Val) : Prop :=
  Block (RootItem R) .comma w v v'

/-! ## The primitive types -/

/-- The language without words that have a `!`. -/
def Plain {σ : Type} (R : Word → σ → σ → Prop) (w : Word) (v v' : σ) : Prop :=
  R w v v' ∧ CmdlineTokenData.not ∉ w

/-- A parser of single tokens accepts exactly the tokens that it reads. -/
lemma implements_token {σ : Type} {read : CmdlineTokenData → Option σ}
    {code : CmdlineTokenData → CmdlineErrorCode} {R : Word → σ → σ → Prop} (hend : read .eof = none)
    (hR : ∀ w v x, R w v x ↔ ∃ d, w = [d] ∧ read d = some x) :
    Implements (parseToken read code) R where
  sound := by
    intro v l a v' l' h
    obtain ⟨t, ⟨v₁, l₁⟩, ht, h⟩ := exec_bind_eq_ok.mp h
    obtain ⟨rfl, rfl, hup⟩ := nextTok_ok ht
    cases hread : read l.current.data with
    | none =>
      simp only [hread] at h
      cases h
    | some x =>
      simp only [hread] at h
      cases h
      have hne : l.current.data ≠ .eof := fun he => by simp [he, hend] at hread
      rw [word_of_ne hne] at hup
      exact ⟨_, hup, (hR _ _ _).mpr ⟨_, rfl, hread⟩⟩
  complete := by
    intro w u v v' l hw _ hup
    obtain ⟨d, rfl, hread⟩ := (hR _ _ _).mp hw
    obtain ⟨l', hl', hup'⟩ := nextTok_cons v hup
    obtain ⟨hcur, -⟩ := current_of_upcoming hup
    refine ⟨l', ?_, hup'⟩
    simp only [parseToken, exec_bind, hl', hcur, hread]
    rfl
  halts := by
    refine nextTok_halts.bind fun t => ?_
    split
    · intro s s' h
      cases h
    · exact .error _

/-- The parser for `bool`. -/
lemma implements_bool : Implements parseBool (Plain Ty.bool.Reads) := by
  refine implements_token rfl fun w v b => ?_
  constructor
  · rintro ⟨⟨rfl, rfl⟩ | ⟨rfl, rfl⟩ | ⟨x, rfl, rfl⟩, -⟩
    · exact ⟨_, rfl, rfl⟩
    · exact ⟨_, rfl, rfl⟩
    · exact ⟨_, rfl, rfl⟩
  · rintro ⟨d, rfl, hd⟩
    unfold readBool at hd
    split at hd
    · cases hd
      exact ⟨.inl ⟨rfl, rfl⟩, by simp⟩
    · cases hd
      exact ⟨.inr (.inl ⟨rfl, rfl⟩), by simp⟩
    · cases hd
      exact ⟨.inr (.inr ⟨_, rfl, rfl⟩), by simp⟩
    · cases hd

/-- The parsers for integers. -/
lemma implements_int (k : IntType) : Implements k.parse (Plain (Ty.int k).Reads) := by
  refine implements_token rfl fun w v y => ?_
  constructor
  · rintro ⟨⟨x, rfl, hy⟩, -⟩
    refine ⟨_, rfl, ?_⟩
    have hrange := y.2
    rw [hy] at hrange
    simp only [IntType.read, IntType.tryInto, dif_pos hrange]
    exact congrArg some (Subtype.ext hy.symm)
  · rintro ⟨d, rfl, hd⟩
    cases d with
    | number x =>
      simp only [IntType.read, IntType.tryInto] at hd
      split_ifs at hd
      cases hd
      exact ⟨⟨x, rfl, rfl⟩, by simp⟩
    | _ => cases hd

/-! ## Structs -/

namespace NamedFields

variable {n : ℕ} {V : Fin n → Type} {name : Fin n → String} {i : Fin n} {v v' : (i : Fin n) → V i}
  {l l' : CmdlineLexer} {a : Unit} {p : Parser (V i) Unit}

/-- With distinct names, a name stands for the field that has it. -/
lemma find?_eq_some_iff (hname : Function.Injective name) {id : String} : find? name id = some i ↔
    name i = id := by
  constructor
  · intro h
    simpa using List.find?_some h
  · rintro rfl
    cases h : find? name (name i) with
    | none =>
      have := List.find?_eq_none.mp h i (List.mem_finRange i)
      simp at this
    | some j =>
      have hj := List.find?_some h
      rw [hname (of_decide_eq_true hj)]

/-- Parsing a field leaves the other fields alone. -/
lemma onField_ok (h : onField i p (v, l) = .ok a (v', l')) : ∃ x, p (v i, l) = .ok a (x, l') ∧
    v' = update v i x := by
  unfold onField at h
  simp only at h
  cases hp : p (v i, l) with
  | ok b s =>
    rw [hp] at h
    cases h
    exact ⟨_, rfl, rfl⟩
  | error e s =>
    rw [hp] at h
    cases h

lemma onField_eq {x : V i} (h : p (v i, l) = .ok a (x, l')) :
    onField i p (v, l) = .ok a (update v i x, l') := by
  simp only [onField, h]

lemma onField_halts (hp : Halts p) : Halts (onField i p) := by
  rintro ⟨v, l⟩ s' h
  unfold onField at h
  simp only at h
  cases e : p (v i, l) with
  | ok b s =>
    rw [e] at h
    cases h
  | error e' s =>
    rw [e] at h
    cases h
    exact hp _ _ e

variable {F : NamedFields V} {reads : (i : Fin n) → Word → V i → V i → Prop} {w u : Word}

/-- The arm of a field passes what follows the field's name in an item. -/
lemma mainHandler_ok (hF : ∀ i, Implements (F.parse i) (Plain (reads i)))
    (h : F.mainHandler i (v, l) = .ok a (v', l')) :
    ∃ w, l.upcoming = w.map some ++ l'.upcoming ∧
      Plain (FieldItem F.name F.isBool reads) (.identifier (F.name i) :: w) v v' := by
  -- an item `f: value`, once the colon is passed
  have hvalue : ∀ {l₁ : CmdlineLexer}, l.upcoming = [some .colon] ++ l₁.upcoming →
      onField i (F.parse i) (v, l₁) = .ok a (v', l') →
      ∃ w, l.upcoming = w.map some ++ l'.upcoming ∧
        Plain (FieldItem F.name F.isBool reads) (.identifier (F.name i) :: w) v v' := by
    intro l₁ hl₁ h
    obtain ⟨x, hx, rfl⟩ := onField_ok h
    obtain ⟨w, hw, hread, hnot⟩ := (hF i).sound hx
    refine ⟨.colon :: w, ?_, .assign hread, ?_⟩
    · rw [hl₁, hw]
      rfl
    · simpa using hnot
  rw [mainHandler] at h
  cases hf : F.isBool i with
  | some f =>
    simp only [hf, exec_bind, exec_peek, exec_ite] at h
    split_ifs at h with hd
    · cases h
      exact ⟨[], rfl, .set hf, by simp⟩
    · rw [ne_eq, not_not] at hd
      cases hnext : nextTok (v, l) with
      | error e s =>
        rw [hnext] at h
        cases h
      | ok t s =>
        obtain ⟨v₁, l₁⟩ := s
        rw [hnext] at h
        obtain ⟨rfl, rfl, hup⟩ := nextTok_ok hnext
        rw [hd] at hup
        exact hvalue hup h
  | none =>
    simp only [hf] at h
    obtain ⟨_, ⟨v₁, l₁⟩, hexpect, hfield⟩ := exec_bind_eq_ok.mp h
    obtain ⟨rfl, hup, -⟩ := expect_ok hexpect
    exact hvalue hup hfield

/-- The handler of a struct ends. -/
lemma handler_halts (hF : ∀ i, Halts (F.parse i)) : Halts F.handler := by
  have hset : ∀ i (x : V i), Halts (setField i x) := by
    intro i x s s' h
    cases h
  refine nextTok_halts.bind fun t => .bind ?_ fun _ => (Halts.unwrapIdent t).bind fun id => ?_
  · refine .ite (nextTok_halts.bind fun t => (Halts.unwrapIdent t).bind fun id => ?_) (.pure _)
    split
    · exact hset _ _
    · exact .error _
  · split
    · unfold mainHandler
      split
      · refine .bind ?_ fun t => .ite (hset _ _) (nextTok_halts.bind fun _ => onField_halts (hF _))
        intro s s' h
        cases h
      · exact expect_halts.bind fun _ => onField_halts (hF _)
    · exact .error _

/-- The items of a struct begin with a name or a `!`. -/
lemma fieldItem_head {isBool : (i : Fin n) → Option (Bool → V i)}
    (h : FieldItem name isBool reads w v v') : w.head?.getD .closedBrace ≠ .closedBrace := by
  cases h with
  | assign h => simp
  | set h => simp
  | clear h => simp

section

variable (hname : Function.Injective F.name) (hF : ∀ i, Implements (F.parse i) (Plain (reads i)))
include hname hF

/-- The handler of a struct passes an item without a `!`. -/
lemma handler_sound : Sound F.handler (Plain (FieldItem F.name F.isBool reads)) := by
  intro v l a v' l' h
  obtain ⟨t, ⟨v₁, l₁⟩, ht, h⟩ := exec_bind_eq_ok.mp h
  obtain ⟨rfl, rfl, hup⟩ := nextTok_ok ht
  obtain ⟨_, ⟨v₂, l₂⟩, hbool, h⟩ := exec_bind_eq_ok.mp h
  obtain ⟨id, ⟨v₃, l₃⟩, hid, h⟩ := exec_bind_eq_ok.mp h
  obtain ⟨hd, he⟩ := unwrapIdent_eq_ok.mp hid
  cases he
  -- the token is a name, so that there was no `!`
  rw [boolHandler, if_neg (by simp [hd])] at hbool
  cases hbool
  cases hfind : find? F.name id with
  | none =>
    rw [hfind] at h
    cases h
  | some i =>
    rw [hfind] at h
    obtain ⟨w, hw, hitem⟩ := mainHandler_ok hF h
    refine ⟨.identifier (F.name i) :: w, ?_, hitem⟩
    rw [hup, hw, hd, (find?_eq_some_iff hname).mp hfind]
    rfl

/-- The handler of a struct accepts every item without a `!`. -/
lemma handler_complete : Complete F.handler (Plain (FieldItem F.name F.isBool reads)) := by
  -- the name of a field brings the handler to the field's arm
  have harm : ∀ {i : Fin n} {w : Word} {v : (i : Fin n) → V i} {l : CmdlineLexer},
      l.upcoming = (.identifier (F.name i) :: w).map some →
      ∃ l', F.handler (v, l) = F.mainHandler i (v, l') ∧ l'.upcoming = w.map some := by
    intro i w v l hup
    obtain ⟨l', hl', hup'⟩ := nextTok_cons v hup
    obtain ⟨hcur, -⟩ := current_of_upcoming hup
    refine ⟨l', ?_, hup'⟩
    simp [handler, hl', boolHandler, unwrapIdent, hcur, (find?_eq_some_iff hname).mpr rfl]
  rintro w u v v' l ⟨hitem, hnot⟩ hcolon hup
  cases hitem with
  | clear => simp at hnot
  | @set _ i f hf =>
    obtain ⟨l', hl', hup'⟩ := harm hup
    have hd := current_eq_head hup'
    have hne : l'.current.data ≠ .colon := by
      rw [hd]
      cases u with
      | nil => simp
      | cons d u => simpa using hcolon
    refine ⟨l', ?_, hup'⟩
    rw [hl', mainHandler, hf]
    simp [hne, setField]
  | @assign w _ i x hread =>
    obtain ⟨l₁, hl₁, hup₁⟩ := harm hup
    rw [hl₁]
    have hup₁ : l₁.upcoming = (colon :: (w ++ u)).map some := hup₁
    obtain ⟨hcur, -⟩ := current_of_upcoming hup₁
    obtain ⟨l₂, hl₂, hup₂⟩ := nextTok_cons v hup₁
    have hnot : CmdlineTokenData.not ∉ w := by
      simp only [List.mem_cons, not_or] at hnot
      exact hnot.2.2
    obtain ⟨l', hl', hup'⟩ := (hF i).complete ⟨hread, hnot⟩ hcolon hup₂
    refine ⟨l', ?_, hup'⟩
    rw [mainHandler]
    cases F.isBool i with
    | some f => simp [hcur, hl₂, onField_eq hl']
    | none => simp [expect, hcur, hl₂, onField_eq hl']

/-- The parser of a struct accepts exactly its words without a `!`. -/
lemma implements_struct :
    Implements F.parseStruct (Plain fun w v v' => ∃ u, w = braced u ∧
      Block (FieldItem F.name F.isBool reads) .comma u v v') where
  sound := by
    intro v l a v' l' h
    obtain ⟨_, ⟨v₁, l₁⟩, hexpect, hparse⟩ := exec_bind_eq_ok.mp h
    obtain ⟨rfl, hup, -⟩ := expect_ok hexpect
    obtain ⟨u, hu, hblock, -⟩ := parseBlock_ok (by decide) (handler_sound hname hF) hparse
    obtain ⟨hblock, hnot⟩ := (Block.avoids_iff (by decide)).mp hblock
    refine ⟨braced u, ?_, ⟨u, rfl, hblock⟩, by simpa [braced] using hnot⟩
    rw [hup, hu]
    simp [word, braced]
  complete := by
    rintro w u v v' l ⟨⟨x, rfl, hblock⟩, hnot⟩ hcolon hup
    obtain ⟨l₁, hl₁, hup₁⟩ := expect_word (v := v) (d := .openBrace) (fun h => by cases h) hup
    have hnot : CmdlineTokenData.not ∉ x := by simpa [braced] using hnot
    obtain ⟨l', hl', hup'⟩ := parseBlock_complete (by decide) (by decide) (by decide) (by decide)
      (handler_complete hname hF) (fun w v v' h => fieldItem_head h.1)
      ((Block.avoids_iff (by decide)).mpr ⟨hblock, hnot⟩) (fun h => by cases h) hup₁
    refine ⟨l', ?_, hup'⟩
    simp [parseStruct, hl₁, hl']
  halts := expect_halts.bind fun _ =>
    parseBlock_halts (by decide) (handler_sound hname hF) (handler_halts fun i => (hF i).halts)

end

end NamedFields

/-- The parser of every type accepts exactly the values of the type without a `!`. -/
lemma Ty.implements (ty : Ty) : Implements ty.parse (Plain ty.Reads) := by
  induction ty with
  | bool => exact implements_bool
  | int k => exact implements_int k
  | struct n name distinct field ih => exact NamedFields.implements_struct distinct ih

/-! ## The whole command line -/

namespace Root

open NamedFields

variable {R : Root} {v v' : R.Val} {w : Word} {l : CmdlineLexer}

/-- The handler of the root passes one option with its value. -/
lemma handler_sound : Sound R.handler (Plain (RootItem R)) := by
  intro v l a v' l' h
  obtain ⟨t, ⟨v₁, l₁⟩, ht, hrest⟩ := exec_bind_eq_ok.mp h
  obtain ⟨rfl, rfl, hup⟩ := nextTok_ok ht
  obtain ⟨id, ⟨v₂, l₂⟩, hid, hrest⟩ := exec_bind_eq_ok.mp hrest
  obtain ⟨hd, he⟩ := unwrapIdent_eq_ok.mp hid
  cases he
  cases hfind : find? R.name id with
  | none =>
    rw [hfind] at hrest
    cases hrest
  | some i =>
    rw [hfind] at hrest
    obtain ⟨_, ⟨v₃, l₃⟩, hexpect, hfield⟩ := exec_bind_eq_ok.mp hrest
    obtain ⟨rfl, hcolon, -⟩ := expect_ok hexpect
    obtain ⟨x, hx, rfl⟩ := onField_ok hfield
    obtain ⟨w, hw, hread, hnot⟩ := (R.field i).implements.sound hx
    refine ⟨.identifier (R.name i) :: .colon :: w, ?_, .assign hread, by simpa using hnot⟩
    rw [hup, hcolon, hw, hd, (find?_eq_some_iff R.distinct).mp hfind]
    rfl

/-- The handler of the root accepts every option with a value that has no `!`. -/
lemma handler_complete : Complete R.handler (Plain (RootItem R)) := by
  rintro _ u v _ l ⟨@⟨w, _, i, x, hread⟩, hnot⟩ hcolon hup
  have hup : l.upcoming = (identifier (R.name i) :: .colon :: (w ++ u)).map some := hup
  obtain ⟨l₁, hl₁, hup₁⟩ := nextTok_cons v hup
  obtain ⟨hcur, -⟩ := current_of_upcoming hup
  obtain ⟨l₂, hl₂, hup₂⟩ := expect_word (v := v) (d := .colon) (fun h => by cases h) hup₁
  have hnot : CmdlineTokenData.not ∉ w := by
    simp only [List.mem_cons, not_or] at hnot
    exact hnot.2.2
  obtain ⟨l', hl', hup'⟩ := (R.field i).implements.complete ⟨hread, hnot⟩ hcolon hup₂
  have harm : R.handler (v, l) =
    (expect .colon >>= fun _ => onField i (R.field i).parse) (v, l₁) := by
    simp only [handler, exec_bind, hl₁, unwrapIdent, hcur, exec_pure,
      (find?_eq_some_iff R.distinct).mpr rfl]
    rfl
  exact ⟨l', harm.trans (exec_bind_eq_ok.mpr ⟨_, _, hl₂, onField_eq hl'⟩), hup'⟩

lemma handler_halts : Halts R.handler := by
  refine nextTok_halts.bind fun t => (Halts.unwrapIdent t).bind fun id => ?_
  split
  · exact expect_halts.bind fun _ => onField_halts (R.field _).implements.halts
  · exact .error _

/-- If parsing returns `Ok`, all that was left was a command line without a `!`. -/
lemma parse_ok {a : Unit} {l' : CmdlineLexer} (h : R.parse (v, l) = .ok a (v', l')) :
    ∃ w, l.upcoming = w.map some ∧ Plain R.Reads w v v' := by
  obtain ⟨w, hw, hblock, hend⟩ := parseBlock_ok (by decide) handler_sound h
  refine ⟨w, ?_, (Block.avoids_iff (by decide)).mp hblock⟩
  rw [hw, hend rfl]
  simp [word]

/-- A command line without a `!` is accepted. -/
lemma parse_complete (h : Plain R.Reads w v v') (hup : l.upcoming = w.map some) :
    ∃ l', R.parse (v, l) = .ok () (v', l') := by
  have hstart : ∀ w v v', Plain (RootItem R) w v v' → w.head?.getD .eof ≠ .eof := by
    rintro _ v _ ⟨⟨_⟩, -⟩
    simp
  obtain ⟨l', hl', -⟩ := parseBlock_complete (u :=
    []) (by decide) (by decide) (by decide) (by decide)
    handler_complete hstart ((Block.avoids_iff (by decide)).mpr h) (fun _ => rfl)
    (by simpa [word] using hup)
  exact ⟨l', hl'⟩

lemma parse_halts : Halts R.parse :=
  parseBlock_halts (by decide) handler_sound handler_halts

end Root

/-- A new lexer has all of the input before it, unless the first lexeme is an error. -/
lemma CmdlineLexer.new_cases (data : List Lexeme) (stop : Span) :
    (∃ l, new data stop = .ok l ∧ l.upcoming = data.map data?) ∨
      ∃ e rest, new data stop = .error e ∧ data.map data? = none :: rest := by
  rcases data with _ | ⟨⟨d, range, real⟩ | range, rest⟩
  · exact .inl ⟨_, rfl, rfl⟩
  · exact .inl ⟨_, rfl, by simp [upcoming, real, data?]⟩
  · exact .inr ⟨_, _, rfl, rfl⟩

/-- **Parsing follows the grammar where there is no `!`.**  Over every choice of options, nested to
any depth, and from every state: a command line of the grammar is accepted, with its items applied
from left to right, exactly if it has no `!`; what is not in the grammar is refused with an error.
-/
theorem Root.parse_follows_grammar (R : Root) (v : R.Val) (data : List Lexeme) (stop : Span) :
    (∀ w v', data.map data? = w.map some → R.Reads w v v' →
      (CmdlineLexer.parse R.parse data stop v = (.ok (), v') ↔ CmdlineTokenData.not ∉ w)) ∧
    ((∀ w v', data.map data? = w.map some → ¬R.Reads w v v') →
      ∃ e v', CmdlineLexer.parse R.parse data stop v = (.error (.err e), v')) := by
  rcases CmdlineLexer.new_cases data stop with ⟨l, hnew, hup⟩ | ⟨e, rest, hnew, hbad⟩
  · simp only [CmdlineLexer.parse, hnew]
    refine ⟨fun w v' hw hR => ⟨fun hok => ?_, fun hnot => ?_⟩, fun hout => ?_⟩
    · cases hparse : R.parse (v, l) with
      | ok a s =>
        obtain ⟨v'', l'⟩ := s
        obtain ⟨w', hw', -, hnot⟩ := parse_ok hparse
        rw [← hup, hw'] at hw
        rwa [List.map_injective_iff.mpr (Option.some_injective _) hw] at hnot
      | error e s =>
        rw [hparse] at hok
        cases hok
    · obtain ⟨l', hl'⟩ := parse_complete ⟨hR, hnot⟩ (hup.trans hw)
      rw [hl']
    · cases hparse : R.parse (v, l) with
      | ok a s =>
        obtain ⟨v', l'⟩ := s
        obtain ⟨w, hw, hR, -⟩ := parse_ok hparse
        exact absurd hR (hout w v' (hup.symm.trans hw))
      | error e s =>
        cases e with
        | err e => exact ⟨e, s.1, rfl⟩
        | outOfFuel => exact absurd hparse (parse_halts _ _)
  · simp only [CmdlineLexer.parse, hnew]
    refine ⟨fun w v' hw _ => ?_, fun _ => ⟨e, v, rfl⟩⟩
    rw [hbad] at hw
    cases w <;> cases hw

/-- The lexemes of `logging:\x7bserial:\x7b…\x7d\x7d` for one item, which ends at byte `n`. -/
def serialLine (item : List Lexeme) (n : ℕ) : List Lexeme :=
  .token (.identifier "logging") ⟨0, 7⟩ (by decide) :: .token .colon ⟨7, 8⟩ (by decide) ::
    .token .openBrace ⟨8, 9⟩ (by decide) :: .token (.identifier "serial") ⟨9, 15⟩ (by decide) ::
    .token .colon ⟨15, 16⟩ (by decide) :: .token .openBrace ⟨16, 17⟩ (by decide) ::
    (item ++ [token .closedBrace ⟨n, n + 1⟩ (by decide),
      token .closedBrace ⟨n + 1, n + 2⟩ (by decide)])

/-- The tokens of such a line. -/
def serialWord (u : Word) : Word :=
  .identifier "logging" :: .colon :: braced (.identifier "serial" :: .colon :: braced u)

/-- The default options with other options for the serial port. -/
def serialOptions (x : sinkOptions.Val) : kernelCmdline.Val :=
  update defaultOptions (0 : Fin 1) (update defaultLogOptions (0 : Fin 2) x)

/-- An item for the serial port is a command line. -/
lemma serialWord_reads {u : Word} {x : sinkOptions.Val}
    (h : sinkOptions.Reads (braced u) (fun _ => true) x) :
    kernelCmdline.Reads (serialWord u) defaultOptions (serialOptions x) := by
  have hserial := @FieldItem.assign 2 (fun _ => sinkOptions.Val) ![ "serial", "fb"] (fun _ => none)
    (fun _ => sinkOptions.Reads) _ defaultLogOptions 0 x h
  have hlog : logOptions.Reads _ defaultLogOptions (update defaultLogOptions (0 : Fin 2) x) :=
    ⟨_, rfl, .inr (.one hserial)⟩
  have hline := @RootItem.assign kernelCmdline _ defaultOptions (0 : Fin 1) _ hlog
  exact .inr (.one hline)

/-- A value of `SerialOptions`. -/
def sink (enable : Bool) : sinkOptions.Val := fun _ => enable

/-- Writing the only field gives the whole value. -/
lemma update_sink (b c : Bool) : update (sink b) (0 : Fin 1) c = sink c := by
  funext i
  rw [Subsingleton.elim i (0 : Fin 1)]
  exact update_self _ _ _

/-- `enable:0` switches the serial port off. -/
theorem Root.parse_follows_grammar_assign : CmdlineLexer.parse kernelCmdline.parse (serialLine
      [.token (.identifier "enable") ⟨17, 23⟩ (by decide), .token .colon ⟨23, 24⟩ (by decide),
        .token (.number 0) ⟨24, 25⟩ (by decide)] 25) ⟨27, 27⟩ defaultOptions =
      (.ok (), serialOptions (sink false)) := by
  refine ((Root.parse_follows_grammar kernelCmdline defaultOptions _ ⟨27, 27⟩).1
    (serialWord [.identifier "enable", .colon, .number 0]) _ rfl
    (serialWord_reads ⟨_, rfl, .inr ?_⟩)).mpr (by decide)
  rw [← update_sink true false]
  exact .one (@FieldItem.assign 1 (fun _ => Bool) (fun _ => "enable") (fun _ => some id)
    (fun _ => Ty.bool.Reads) [.number 0] (sink true) 0 false (.inr (.inr ⟨0, rfl, rfl⟩)))

/-- `!enable`. -/
def clearItem : List Lexeme :=
  [.token .not ⟨17, 18⟩ (by decide), .token (.identifier "enable") ⟨18, 24⟩ (by decide)]

/-- `logging:\x7bserial:\x7b!enable\x7d\x7d` is in the grammar, and is refused at its `!`. -/
theorem clear_refused :
    ((serialLine clearItem 24).map data? = (serialWord [.not, .identifier "enable"]).map some ∧
      kernelCmdline.Reads (serialWord [.not, .identifier "enable"]) defaultOptions
        (serialOptions (sink false))) ∧
    (CmdlineLexer.parse kernelCmdline.parse (serialLine clearItem 24) ⟨26, 26⟩ defaultOptions).1 =
      .error (.err ⟨.expectedToken .not (.identifier "*"), ⟨17, 18⟩⟩) := by
  refine ⟨⟨rfl, serialWord_reads ⟨_, rfl, .inr ?_⟩⟩, rfl⟩
  rw [← update_sink true false]
  exact .one (@FieldItem.clear 1 (fun _ => Bool) (fun _ => "enable") (fun _ => some id)
    (fun _ => Ty.bool.Reads) (sink true) 0 id rfl)

end CabOS.Cmdline
