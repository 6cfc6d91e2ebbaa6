import CabOS.Debug.Util
import CabOS.Library.StepFunction

/-!
# The debug module that the build tool writes

`DebugModuleFileWriter::write` lays out a header, the strings, the functions, and the two tables
that the kernel searches by address.  A table has a marker where an interval begins and a null
marker where it ends; `filterRanges` drops markers that change nothing.  A panic of the source is
`none`.
-/

namespace CabOS.Debug

/-- The address that the addresses of a table are relative to. -/
def linkBase : ℕ := 0xffffffff80000000

/-- `LocationEntry`. -/
structure LocationEntry where
  file : ℕ
  row : ℕ
  col : ℕ
  deriving DecidableEq, Repr

/-- `LocationEntry::NULL`. -/
def LocationEntry.null : LocationEntry := ⟨usizeMax, 0, 0⟩

/-- `FunctionEntry`. -/
structure FunctionEntry where
  inlineParent : ℕ
  name : ℕ
  location : LocationEntry
  deriving DecidableEq, Repr

/-- `TryInto::<u32>::try_into(v).unwrap()`. -/
def toU32 (v : ℕ) : Option ℕ :=
  if v < 2 ^ 32 then some v else none

/-- `LocationEntry::write`. -/
def LocationEntry.write (resolve : ℕ → Option ℕ) (e : LocationEntry) : Option (List UInt8) := do
  let file ← resolve e.file
  let row ← toU32 e.row
  let col ← toU32 e.col
  return toLE 8 file ++ (toLE 4 row ++ toLE 4 col)

/-- `FunctionEntry::write`. -/
def FunctionEntry.write (resolve : ℕ → Option ℕ) (e : FunctionEntry) : Option (List UInt8) := do
  let name ← resolve e.name
  let location ← e.location.write resolve
  return toLE 8 e.inlineParent ++ (toLE 8 name ++ location)

/-- `usize::write`. -/
def writeUsize (_ : ℕ → Option ℕ) (v : ℕ) : Option (List UInt8) :=
  some (toLE 8 v)

/-- Bytes with their number before them. -/
def sized (buf : List UInt8) : List UInt8 :=
  toLE 8 buf.length ++ buf

section

variable {T : Type} [DecidableEq T]

/-- `can_merge`: `some none` if both markers stay, and otherwise the one that stands for both. -/
def canMerge (null : T) (current next : ℕ × T) : Option (Option (ℕ × T)) :=
  if ¬current.1 ≤ next.1 then none
  else if current.2 = next.2 then some (some current)
  else if current.1 = next.1 then
    if current.2 = null then some (some next) else none
  else some none

/-- The loop of `filter_ranges`. -/
def filterFrom (null : T) (prev : ℕ × T) : List (ℕ × T) → Option (List (ℕ × T))
  | [] => some [prev]
  | ele :: rest =>
    match canMerge null prev ele with
    | none => none
    | some (some new) => filterFrom null new rest
    | some none => (filterFrom null ele rest).map (prev :: ·)

/-- `filter_ranges`. -/
def filterRanges (null : T) : List (ℕ × T) → Option (List (ℕ × T))
  | [] => some []
  | prev :: rest => filterFrom null prev rest

/-- One marker of a table: the offset of the address from the link address, and what is there. -/
def writeMarker (write : T → Option (List UInt8)) (e : ℕ × T) : Option (List UInt8) := do
  let addr ← toU32 (wsub e.1 linkBase)
  let inst ← write e.2
  return toLE 4 addr ++ inst

/-- The loop of `write_ranges`: the addresses have to increase. -/
def writeMarkers (write : T → Option (List UInt8)) (prevAddr : ℕ) : List (ℕ × T) →
    Option (List UInt8)
  | [] => some []
  | e :: rest =>
    if ¬prevAddr < e.1 then none
    else do
      let entry ← writeMarker write e
      let buf ← writeMarkers write e.1 rest
      return entry ++ buf

/-- `write_ranges`. -/
def writeRanges (null : T) (write : T → Option (List UInt8)) (iter : List (ℕ × T)) :
    Option (List UInt8) := do
  let entries ← filterRanges null iter
  writeMarkers write 0 entries

end

/-- `DebugModuleFileWriter`. -/
structure DebugModuleFileWriter where
  strings : InternStringTable
  functions : List FunctionEntry
  locationSearch : IntervalMap (List (ℕ × LocationEntry))
  functionSearch : IntervalMap ℕ

namespace DebugModuleFileWriter

/-- `DebugModuleFileWriter::new`. -/
def new : DebugModuleFileWriter := ⟨.new, [], .new, .new⟩

variable (w : DebugModuleFileWriter)

/-- The bytes of the functions. -/
def functionBytes : Option (List UInt8) :=
  (w.functions.mapM (FunctionEntry.write w.strings.resolve)).map List.flatten

/-- The markers of the line sequences. -/
def locationMarkers : List (ℕ × LocationEntry) :=
  w.locationSearch.entries.flatMap fun e => e.value ++ [(e.stop, LocationEntry.null)]

/-- The markers of the functions. -/
def functionMarkers : List (ℕ × ℕ) :=
  w.functionSearch.entries.flatMap fun e => [(e.start, e.value), (e.stop, usizeMax)]

/-- The bytes of the table of locations. -/
def locationBytes : Option (List UInt8) :=
  writeRanges .null (LocationEntry.write w.strings.resolve) w.locationMarkers

/-- The bytes of the table of functions. -/
def functionSearchBytes : Option (List UInt8) :=
  writeRanges usizeMax (writeUsize w.strings.resolve) w.functionMarkers

/-- `write`. -/
def write : Option (List UInt8) := do
  let functions ← w.functionBytes
  let locations ← w.locationBytes
  let functionSearch ← w.functionSearchBytes
  return toLE 8 0 ++ (w.strings.write ++
    (sized functions ++ (sized locations ++ sized functionSearch)))

end DebugModuleFileWriter

end CabOS.Debug
