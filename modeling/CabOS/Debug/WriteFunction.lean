import CabOS.Debug.Io

/-!
# Filling the debug module

`write_line` adds the line sequences of a unit.  `write_function` gives a function and the functions
that are inlined into it their indices in preorder, interns their names and files, and splits the
ranges of a function among the ones inlined into it.
-/

namespace CabOS.Debug

/-! ## What is read from the debug information -/

namespace Dwarf

/-- `SourceLocation`: the file is an index, or `usize::MAX` if it is not known. -/
structure SourceLocation where
  file : ℕ
  row : ℕ
  col : ℕ

/-- `LineEntry`. -/
structure LineEntry where
  address : ℕ
  location : SourceLocation

/-- `LineSequence`. -/
structure LineSequence where
  start : ℕ
  stop : ℕ
  rows : List LineEntry

/-- `LineInfo`. -/
structure LineInfo where
  files : List String
  sequences : List LineSequence

/-- `InlinedFunctionInfo`. -/
inductive InlinedFunctionInfo where
  | mk (ranges : List (ℕ × ℕ)) (name : Option String) (inlined :
      List InlinedFunctionInfo) (location : SourceLocation)

/-- `FunctionInfo`. -/
structure FunctionInfo where
  ranges : List (ℕ × ℕ)
  inlined : List InlinedFunctionInfo
  name : Option String
  location : SourceLocation

end Dwarf

open Dwarf

/-! ## Interning files -/

/-- The closures that give a file its index: the one of `lazy_intern_table` with its cache, and `|_|
usize::MAX`. -/
inductive FileIntern where
  | table (files : List String) (cache : List ℕ)
  | null

namespace FileIntern

/-- `lazy_intern_table`. -/
def lazyInternTable (files : List String) : FileIntern :=
  .table files (List.replicate files.length usizeMax)

/-- A call of the closure. -/
def call (f : ℕ) (t : InternStringTable) : FileIntern → Option (ℕ × InternStringTable × FileIntern)
  | .table files cache => (lazyIntern files f t cache).map fun r => (r.1, r.2.1, .table files r.2.2)
  | .null => some (usizeMax, t, .null)

/-- `translate_loc`. -/
def translateLoc (intern : FileIntern) (loc : SourceLocation) (t : InternStringTable) :
    Option (LocationEntry × InternStringTable × FileIntern) :=
  (intern.call loc.file t).map fun r => (⟨r.1, loc.row, loc.col⟩, r.2)

/-- The file that an index stands for. -/
def file (f : ℕ) : FileIntern → Option String
  | .table files _ => if f = usizeMax then none else files[f]?
  | .null => none

end FileIntern

namespace DebugModuleFileWriter

/-! ## Writing line sequences -/

/-- The part of `format_loc` that can panic: the file that a warning names. -/
def formatFile (files : List String) (loc : SourceLocation) : Option String :=
  if loc.file = usizeMax then some "???" else files[loc.file]?

/-- The rows of a sequence that lie in its range; there is a warning for any other one. -/
def translateRows (files : List String) (start stop : ℕ) :
    List LineEntry → FileIntern → InternStringTable →
      Option (List (ℕ × LocationEntry) × InternStringTable × FileIntern)
  | [], intern, t => some ([], t, intern)
  | row :: rows, intern, t =>
    if start ≤ row.address ∧ row.address < stop then do
      let (loc, t, intern) ← intern.translateLoc row.location t
      let (result, t, intern) ← translateRows files start stop rows intern t
      return ((row.address, loc) :: result, t, intern)
    else do
      let _ ← formatFile files row.location
      translateRows files start stop rows intern t

/-- `assert!(map.insert(range, value))`. -/
def assertInsert {V : Type} (m : IntervalMap V) (start stop : ℕ) (value : V) :
    Option (IntervalMap V) :=
  match m.insert start stop value with
  | some (true, m') => some m'
  | _ => none

/-- The loop of `write_line`. -/
def writeSequences (files : List String) :
    List LineSequence → FileIntern → DebugModuleFileWriter → Option DebugModuleFileWriter
  | [], _, w => some w
  | entry :: entries, intern, w => do
    let (result, strings, intern) ←
      translateRows files entry.start entry.stop entry.rows intern w.strings
    let locationSearch ← assertInsert w.locationSearch entry.start entry.stop result
    writeSequences files entries intern { w with strings, locationSearch }

/-- `write_line`. -/
def writeLine (w : DebugModuleFileWriter) (info : LineInfo) : Option DebugModuleFileWriter :=
  writeSequences info.files info.sequences (.lazyInternTable info.files) w

/-! ## Writing functions -/

/-- `name.as_ref().map(|f| self.strings.intern(f)).unwrap_or(usize::MAX)`. -/
def internName (t : InternStringTable) : Option String → ℕ × InternStringTable
  | some name => t.intern name
  | none => (usizeMax, t)

/-- `self.functions.push`: an entry with the name and the location, in this order.  The parent of
the entry is `usize::MAX`, also if the function is inlined. -/
def pushFunction (w : DebugModuleFileWriter) (name : Option String)
    (locate : InternStringTable → Option (LocationEntry × InternStringTable × FileIntern)) :
    Option (DebugModuleFileWriter × FileIntern) :=
  let named := internName w.strings name
  (locate named.2).map fun r =>
    ({ w with strings := r.2.1, functions := w.functions ++ [⟨usizeMax, named.1, r.1⟩] }, r.2.2)

/-- One range of an inlined function: it is taken from the range of its parent. -/
def splitRange (expectedParent fnId : ℕ) (m : IntervalMap ℕ) (range : ℕ × ℕ) :
    Option (IntervalMap ℕ) := do
  let parent ← m.get range.1
  if parent.value ≠ expectedParent then
    none
  else if ¬(parent.start ≤ range.1 ∧ range.2 ≤ parent.stop) then
    none
  else
    let m := m.remove range.1
    let m ←
      if parent.start < range.1 then assertInsert m parent.start range.1 parent.value else some m
    let m ←
      if range.2 < parent.stop then assertInsert m range.2 parent.stop parent.value else some m
    assertInsert m range.1 range.2 fnId

mutual

/-- `write_inlined`. -/
def writeInlined : InlinedFunctionInfo → ℕ → FileIntern → DebugModuleFileWriter →
    Option (DebugModuleFileWriter × FileIntern)
  | ⟨ranges, name, inlined, location⟩, expectedParent, intern, w => do
    let fnId := w.functions.length
    let (w, intern) ← w.pushFunction name (intern.translateLoc location)
    let functionSearch ← ranges.foldlM (splitRange expectedParent fnId) w.functionSearch
    writeInlinedAll inlined fnId intern { w with functionSearch }

/-- The functions that are inlined into one function. -/
def writeInlinedAll : List InlinedFunctionInfo → ℕ → FileIntern → DebugModuleFileWriter →
    Option (DebugModuleFileWriter × FileIntern)
  | [], _, intern, w => some (w, intern)
  | func :: funcs, parent, intern, w => do
    let (w, intern) ← writeInlined func parent intern w
    writeInlinedAll funcs parent intern w

end

/-- The closure for the files of a unit, if there is line information. -/
def fileIntern : Option LineInfo → FileIntern
  | some info => .lazyInternTable info.files
  | none => .null

/-- The location of a function: null if there is no line information. -/
def functionLocation (info : Option LineInfo) (loc : SourceLocation) (t : InternStringTable) :
    Option (LocationEntry × InternStringTable × FileIntern) :=
  match info with
  | some info => (FileIntern.lazyInternTable info.files).translateLoc loc t
  | none => some (.null, t, .null)

/-- `write_function`. -/
def writeFunction (w : DebugModuleFileWriter) (func : FunctionInfo) (info : Option LineInfo) :
    Option DebugModuleFileWriter := do
  let fnId := w.functions.length
  let (w, _) ← w.pushFunction func.name (functionLocation info func.location)
  let functionSearch ← func.ranges.foldlM (fun m r => assertInsert m r.1 r.2 fnId) w.functionSearch
  let (w, _) ← writeInlinedAll func.inlined fnId (fileIntern info) { w with functionSearch }
  return w

end DebugModuleFileWriter

/-- The calls that fill a writer. -/
inductive Call where
  | writeLine (info : LineInfo)
  | writeFunction (func : FunctionInfo) (info : Option LineInfo)

namespace DebugModuleFileWriter

/-- One call. -/
def call (w : DebugModuleFileWriter) : Call → Option DebugModuleFileWriter
  | .writeLine info => w.writeLine info
  | .writeFunction func info => w.writeFunction func info

end DebugModuleFileWriter

end CabOS.Debug
