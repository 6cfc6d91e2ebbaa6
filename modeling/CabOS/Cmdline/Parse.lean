import CabOS.Cmdline.Lexer

/-!
# Parsers for the types of command-line options

The derive macro `CmdlineParsable` writes a parser for each `struct` with named fields.  `Ty` stands
for the types it is used with: `bool`, the integer types, and structs of such types to any depth.  A
value of a struct is a function of its fields, and `Ty.parse` is the parser that the macro and the
primitive implementations give together.  `Root` is the hand-written parser of `KernelCmdline`, for
any list of top-level options.
-/

namespace CabOS.Cmdline

open CmdlineLexer Function

variable {σ : Type}

/-- `*self = x`. -/
def assign (x : σ) : Parser σ Unit :=
  modify fun s => (x, s.2)

/-- A type whose values are single tokens: `read` is the match over the token, and `code` the error
for a token that is no value. -/
def parseToken (read : CmdlineTokenData → Option σ) (code : CmdlineTokenData → CmdlineErrorCode) :
    Parser σ Unit := do
  let tok ← nextTok
  match read tok.data with
  | some x => assign x
  | none => throw (.err (tok.makeError (code tok.data)))

/-- The tokens that are truth values. -/
def readBool : CmdlineTokenData → Option Bool
  | .identifier "true" => some true
  | .identifier "false" => some false
  | .number x => some (x ≠ 0)
  | _ => none

/-- `CmdlineParsable for bool`. -/
def parseBool : Parser Bool Unit :=
  parseToken readBool .badBoolean

/-- The integer types that `impl_int_parsable` is used with. -/
inductive IntType where
  | u8
  | u16
  | u32
  | u64
  | i8
  | i16
  | i32
  | i64
  deriving DecidableEq

namespace IntType

/-- The smallest value of the type. -/
def min : IntType → ℤ
  | u8 | u16 | u32 | u64 => 0
  | i8 => -2 ^ 7
  | i16 => -2 ^ 15
  | i32 => -2 ^ 31
  | i64 => -2 ^ 63

/-- The largest value of the type. -/
def max : IntType → ℤ
  | u8 => 2 ^ 8 - 1
  | u16 => 2 ^ 16 - 1
  | u32 => 2 ^ 32 - 1
  | u64 => 2 ^ 64 - 1
  | i8 => 2 ^ 7 - 1
  | i16 => 2 ^ 15 - 1
  | i32 => 2 ^ 31 - 1
  | i64 => 2 ^ 63 - 1

/-- The values of the type. -/
def Val (k : IntType) : Type := { x : ℤ // k.min ≤ x ∧ x ≤ k.max }

instance (k : IntType) : DecidableEq k.Val :=
  inferInstanceAs (DecidableEq { x : ℤ // k.min ≤ x ∧ x ≤ k.max })

/-- `try_into` from `i64`. -/
def tryInto (k : IntType) (x : Int64) : Option k.Val :=
  if h : k.min ≤ x.toInt ∧ x.toInt ≤ k.max then some ⟨x.toInt, h⟩ else none

/-- The tokens that are values of the type. -/
def read (k : IntType) : CmdlineTokenData → Option k.Val
  | .number x => k.tryInto x
  | _ => none

/-- `CmdlineParsable` for an integer type. -/
def parse (k : IntType) : Parser k.Val Unit :=
  parseToken k.read .badInt

end IntType

/-! ## Structs with named fields -/

/-- What the derive macro knows about the fields of a struct: their names, which of them are
declared `bool`, and the parsers of their types. -/
structure NamedFields {n : ℕ} (V : Fin n → Type) where
  name : Fin n → String
  isBool : (i : Fin n) → Option (Bool → V i)
  parse : (i : Fin n) → Parser (V i) Unit

namespace NamedFields

variable {n : ℕ} {V : Fin n → Type}

/-- `*field = x`. -/
def setField (i : Fin n) (x : V i) : Parser ((i : Fin n) → V i) Unit :=
  modify fun s => (update s.1 i x, s.2)

/-- `field.parse(lexer)?`, which works on the field in place, also when it fails. -/
def onField (i : Fin n) (p : Parser (V i) Unit) : Parser ((i : Fin n) → V i) Unit := fun (v, l) =>
  match p (v i, l) with
  | .ok a (x, l') => .ok a (update v i x, l')
  | .error e (x, l') => .error e (update v i x, l')

/-- The field that a name stands for. -/
def find? (name : Fin n → String) (id : String) : Option (Fin n) :=
  (List.finRange n).find? fun i => name i = id

variable (F : NamedFields V)

/-- `bool_fields`, each with the way its value is written. -/
def boolFields : List (Σ i, Bool → V i) :=
  (List.finRange n).filterMap fun i => (F.isBool i).map fun f => ⟨i, f⟩

/-- `bool_handler`: it is generated only if there are `bool` fields, and handles what follows a `!`.
-/
def boolHandler (fieldTok : CmdlineToken) : Parser ((i : Fin n) → V i) Unit :=
  if F.boolFields ≠ [] ∧ fieldTok.data = .not then do
    let tok ← nextTok
    let id ← tok.unwrapIdent
    match F.boolFields.find? fun f => F.name f.1 = id with
    | some ⟨i, f⟩ => setField i (f false)
    | none =>
        throw (.err (fieldTok.makeError (.unknownFlagField (F.boolFields.map fun f => F.name f.1))))
  else
    pure ()

/-- `main_handler`: the arm of one field. -/
def mainHandler (i : Fin n) : Parser ((i : Fin n) → V i) Unit :=
  match F.isBool i with
  | some f => do
    let t ← peek
    if t.data ≠ .colon then
      setField i (f true)
    else
      let _ ← nextTok
      onField i (F.parse i)
  | none => do
    expect .colon
    onField i (F.parse i)

/-- The handler that the macro passes to `parse_block`.  After `bool_handler` has dealt with a `!`
the handler goes on, and asks for the name of the field in the token that was the `!`. -/
def handler : Parser ((i : Fin n) → V i) Unit := do
  let fieldTok ← nextTok
  F.boolHandler fieldTok
  let id ← fieldTok.unwrapIdent
  match find? F.name id with
  | some i => F.mainHandler i
  | none => throw (.err (fieldTok.makeError (.unknownField (List.ofFn F.name))))

/-- `handle_named_struct`. -/
def parseStruct : Parser ((i : Fin n) → V i) Unit := do
  expect .openBrace
  parseBlock .closedBrace .comma F.handler

end NamedFields

/-- The types of options: `bool`, integers, and structs with named fields. -/
inductive Ty where
  | bool
  | int (k : IntType)
  | struct (n : ℕ) (name : Fin n → String) (distinct : Function.Injective name) (field : Fin n → Ty)

namespace Ty

/-- The values of a type. -/
def Val : Ty → Type
  | bool => Bool
  | int k => k.Val
  | struct n _ _ field => (i : Fin n) → (field i).Val

/-- `is_bool`: for `bool` itself, how a truth value is a value of the type. -/
def isBool : (ty : Ty) → Option (Bool → ty.Val)
  | bool => some id
  | int _ => none
  | struct _ _ _ _ => none

/-- The parser of a type. -/
def parse : (ty : Ty) → Parser ty.Val Unit
  | bool => parseBool
  | int k => k.parse
  | struct _ name _ field =>
    NamedFields.parseStruct ⟨name, fun i => (field i).isBool, fun i => (field i).parse⟩

end Ty

/-! ## The root -/

/-- The options at the top level of a command line. -/
structure Root where
  n : ℕ
  name : Fin n → String
  distinct : Function.Injective name
  field : Fin n → Ty

namespace Root

/-- The state of all options. -/
def Val (R : Root) : Type := (i : Fin R.n) → (R.field i).Val

variable (R : Root)

/-- The handler of `KernelCmdline::parse`: a name, a colon and a value. -/
def handler : Parser R.Val Unit := do
  let tok ← nextTok
  let id ← tok.unwrapIdent
  match NamedFields.find? R.name id with
  | some i => do
    expect .colon
    NamedFields.onField i (R.field i).parse
  | none => throw (.err (tok.makeError (.unknownFlag (List.ofFn R.name))))

/-- `KernelCmdline::parse`. -/
def parse : Parser R.Val Unit :=
  parseBlock .eof .comma R.handler

end Root

/-- `SerialOptions` and `FramebufferOptions`: one field `enable`. -/
def sinkOptions : Ty :=
  .struct 1 (fun _ => "enable") (fun _ _ _ => Subsingleton.elim _ _) fun _ => .bool

/-- `LogOptions`. -/
def logOptions : Ty :=
  .struct 2 ![ "serial", "fb"] (by decide) fun _ => sinkOptions

/-- `KernelCmdline`. -/
def kernelCmdline : Root where
  n := 1
  name := fun _ => "logging"
  distinct := fun _ _ _ => Subsingleton.elim _ _
  field := fun _ => logOptions

/-- The logging part of `DEFAULT_OPTIONS`: both sinks are enabled. -/
def defaultLogOptions : logOptions.Val := fun _ _ => true

/-- `DEFAULT_OPTIONS`. -/
def defaultOptions : kernelCmdline.Val := fun _ => defaultLogOptions

end CabOS.Cmdline
