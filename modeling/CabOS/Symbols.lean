import CabOS.Library.BinarySearch
import CabOS.Library.ByteLayout
import CabOS.Library.Word

/-!
# The symbol table of the kernel

`SymbolTable` reads the debug module that the build tool writes: strings, functions, and two tables
that are searched by address.  All sizes are `usize`, so that sums are taken modulo `2^64`.  A
function of the source that returns an `Option` is left early by `?`, and indexing a slice out of
range panics: `Leave` has both.
-/

namespace CabOS

/-- The ways a function leaves without a value: `None`, or a panic. -/
inductive Leave where
  | none
  | panic
  deriving DecidableEq, Repr

namespace Symbols

/-- `KERNEL_BASE`. -/
def kernelBase : ℕ := 0xffffffff80000000

/-- `SourceLocation`. -/
structure SourceLocation where
  file : String
  row : ℕ
  col : ℕ
  deriving DecidableEq, Repr

/-- `FunctionSymbol`. -/
structure FunctionSymbol where
  name : String
  inlineParent : Option ℕ
  location : Option SourceLocation
  deriving DecidableEq, Repr

/-- `FUNCTION_ENTRY_SIZE`. -/
def functionEntrySize : ℕ := 32

/-- `SymbolTable`. -/
structure SymbolTable where
  data : List UInt8
  stringsOffset : ℕ
  stringsLen : ℕ
  functionsOffset : ℕ
  functionsCount : ℕ
  locationSearchOffset : ℕ
  locationSearchLen : ℕ
  functionSearchOffset : ℕ
  functionSearchLen : ℕ

/-- `data[a..b]`. -/
def index (data : List UInt8) (a b : ℕ) : Except Leave (List UInt8) :=
  if a ≤ b ∧ b ≤ data.length then .ok (slice data a (b - a)) else .error .panic

/-- A number of `n` bytes at `pos`: `from_le_bytes(data[pos..pos + n].try_into().ok()?)`. -/
def readAt (data : List UInt8) (pos n : ℕ) : Except Leave ℕ :=
  (index data pos (wadd pos n)).map ofLE

/-- `read_usize`: the number at `pos`, and the position behind it. -/
def readUsize (data : List UInt8) (pos : ℕ) : Except Leave (ℕ × ℕ) :=
  if pos ≤ wadd pos 8 ∧ wadd pos 8 ≤ data.length then .ok (ofLE (slice data pos 8), wadd pos 8)
  else .error .none

/-- `core::str::from_utf8(bytes).ok()?`. -/
def fromUtf8 (bytes : List UInt8) : Except Leave String :=
  match String.fromUTF8? ⟨bytes.toArray⟩ with
  | some s => .ok s
  | none => .error .none

namespace SymbolTable

/-- `SymbolTable::parse`. -/
def parse (data : List UInt8) : Except Leave SymbolTable := do
  if data.length < 8 then
    throw .none
  let (stringsLen, stringsOffset) ← readUsize data 8
  let (functionsLen, functionsOffset) ← readUsize data (wadd stringsOffset stringsLen)
  if functionsLen % functionEntrySize ≠ 0 then
    throw .none
  let (locationSearchLen, locationSearchOffset) ← readUsize data (wadd functionsOffset functionsLen)
  let (functionSearchLen, functionSearchOffset) ←
    readUsize data (wadd locationSearchOffset locationSearchLen)
  return {
    data
    stringsOffset
    stringsLen
    functionsOffset
    functionsCount := functionsLen / functionEntrySize
    locationSearchOffset
    locationSearchLen
    functionSearchOffset
    functionSearchLen }

variable (t : SymbolTable)

/-- `get_string`: the bytes from an offset up to the next zero. -/
def getString (offset : ℕ) : Except Leave String := do
  if offset = usizeMax then
    throw .none
  let start := wadd t.stringsOffset offset
  let stop := wadd t.stringsOffset t.stringsLen
  if stop ≤ start then
    throw .none
  let bytes ← index t.data start stop
  match bytes.findIdx? (· = 0) with
  | none => throw .none
  | some len => fromUtf8 (← index t.data start (wadd start len))

/-- `(present).then_some(location)` where the location is computed first, as arguments are: a file
that is not there leaves the whole function. -/
def sourceLocation (file rowPos : ℕ) : Except Leave (Option SourceLocation) := do
  let name ← t.getString file
  let row ← readAt t.data rowPos 4
  let col ← readAt t.data (wadd rowPos 4) 4
  return if file ≠ usizeMax then some ⟨name, row, col⟩ else none

/-- `get_function`. -/
def getFunction (idx : ℕ) : Except Leave FunctionSymbol := do
  if t.functionsCount ≤ idx then
    throw .none
  let base := wadd t.functionsOffset (wmul idx functionEntrySize)
  if t.data.length < wadd base functionEntrySize then
    throw .none
  let inlineParent ← readAt t.data base 8
  let nameOffset ← readAt t.data (wadd base 8) 8
  let name ← t.getString nameOffset
  let file ← readAt t.data (wadd base 16) 8
  let location ← t.sourceLocation file (wadd base 24)
  return {
    name
    inlineParent := if inlineParent ≠ usizeMax then some inlineParent else none
    location }

/-- One round of the search in `lookup`: an entry that is not above the address is the new candidate
unless it is a null marker. -/
def lookFunction (offset mid : ℕ) (best : Option ℕ) : Except Leave (Option (Option ℕ)) := do
  let pos := wadd t.functionSearchOffset (wmul mid 12)
  if t.data.length < wadd pos 12 then
    throw .none
  let entryAddr ← readAt t.data pos 4
  if entryAddr ≤ offset then
    let idx ← readAt t.data (wadd pos 4) 8
    return some (if idx ≠ usizeMax then some idx else best)
  else
    return none

/-- `lookup`. -/
def lookup (addr : ℕ) : Except Leave FunctionSymbol := do
  if addr < kernelBase then
    throw .none
  if 2 ^ 32 - 1 < addr - kernelBase then
    throw .none
  let n := t.functionSearchLen / 12
  match ← binarySearch (t.lookFunction (addr - kernelBase)) n 0 n none with
  | some idx => t.getFunction idx
  | none => throw .none

/-- One round of the search in `lookup_location`. -/
def lookLocation (offset mid : ℕ) (_ : Option SourceLocation) :
    Except Leave (Option (Option SourceLocation)) := do
  let pos := wadd t.locationSearchOffset (wmul mid 20)
  let entryAddr ← readAt t.data pos 4
  if entryAddr ≤ offset then
    let file ← readAt t.data (wadd pos 4) 8
    return some (← t.sourceLocation file (wadd pos 12))
  else
    return none

end SymbolTable

end Symbols

end CabOS
