import CabOS.Debug.Lookup
import CabOS.Debug.WriteFunction

/-!
# Functions that are written are read back

`written` is the list of functions that a sequence of calls describes, each with the index of the
function that it is inlined into.  The entries of the writer stand for it in this order (`Records`),
and interning only adds strings, so that an entry keeps its meaning.  Hence `get_function` returns
the name and the location of each function that has both.  The parent of an inlined function is not
written, and a function without a file is not returned at all.
-/

namespace CabOS.Debug

open CabOS.Symbols List Option List.Forall₂ SymbolTable

/-! ## The functions that are described -/

/-- A function as the debug information describes it. -/
structure Written where
  parent : Option ℕ
  name : Option String
  file : Option String
  row : ℕ
  col : ℕ
  deriving DecidableEq

mutual

/-- An inlined function with the given index and parent, and the functions inlined into it. -/
def writtenInlined (file : ℕ → Option String) : Dwarf.InlinedFunctionInfo → ℕ → ℕ → List Written
  | ⟨_, name, inlined, loc⟩, id, parent =>
    ⟨some parent, name, file loc.file, loc.row, loc.col⟩ :: writtenInlinedAll file
    inlined (id + 1) id

/-- The functions that are inlined into one function. -/
def writtenInlinedAll (file : ℕ → Option String) : List Dwarf.InlinedFunctionInfo → ℕ →
    ℕ → List Written
  | [], _, _ => []
  | func :: funcs, id, parent =>
    writtenInlined file func id parent ++
      writtenInlinedAll file funcs (id + (writtenInlined file func id parent).length) parent

end

/-- The file that a location has. -/
def recordedFile (info : Option Dwarf.LineInfo) (f : ℕ) : Option String :=
  (DebugModuleFileWriter.fileIntern info).file f

/-- The functions that a call describes, from an index on. -/
def Call.written (id : ℕ) : Call → List Written
  | .writeLine _ => []
  | .writeFunction func info =>
    ⟨none, func.name, recordedFile info func.location.file, func.location.row, func.location.col⟩ ::
      writtenInlinedAll (recordedFile info) func.inlined (id + 1) id

/-- The functions that a sequence of calls describes. -/
def written (calls : List Call) : List Written :=
  calls.foldl (fun xs c => xs ++ c.written xs.length) []

/-! ## Interning only adds strings -/

/-- All strings keep their indices. -/
def InternStringTable.Extends (t t' : InternStringTable) : Prop :=
  ∀ (i : ℕ) (s : String), t.entries[i]? = some s → t'.entries[i]? = some s

lemma InternStringTable.Extends.refl (t : InternStringTable) : t.Extends t := fun _ _ h => h

lemma InternStringTable.Extends.trans {t₁ t₂ t₃ : InternStringTable} (h : t₁.Extends t₂)
    (h' : t₂.Extends t₃) :
    t₁.Extends t₃ := fun i s hi => h' i s (h i s hi)

/-- A string that is interned has its index. -/
lemma InternStringTable.intern_spec (t : InternStringTable) (s : String) :
    t.Extends (t.intern s).2 ∧ (t.intern s).2.entries[(t.intern s).1]? = some s := by
  rw [intern]
  cases h : t.entries.idxOf? s with
  | some i =>
    refine ⟨Extends.refl t, ?_⟩
    obtain ⟨hlt, hget, -⟩ := findIdx?_eq_some_iff_getElem.mp h
    rw [getElem?_eq_getElem hlt, eq_of_beq hget]
  | none =>
    refine ⟨fun j x hj => ?_, ?_⟩
    · have hlt := (List.getElem?_eq_some_iff.mp hj).1
      rw [getElem?_append_left hlt, hj]
    · simp

variable {t t' : InternStringTable}

namespace FileIntern

/-- The cache of the closure has indices of the files. -/
def Cached (t : InternStringTable) : FileIntern → Prop
  | .table files cache => ∀ (f c : ℕ) (s : String), cache[f]? = some c → c ≠ usizeMax →
    files[f]? = some s →
      t.entries[c]? = some s
  | .null => True

/-- A closure that has not been called has an empty cache. -/
lemma cached_lazyInternTable (files : List String) (t : InternStringTable) :
    (lazyInternTable files).Cached t := by
  intro f c s hc hne hs
  have hmem := mem_of_getElem? hc
  exact absurd (eq_of_mem_replicate hmem) hne

lemma Cached.mono {intern : FileIntern} (h : intern.Cached t) (hext : t.Extends t') :
    intern.Cached t' := by
  cases intern with
  | table files cache => exact fun f c s hc hne hs => hext c s (h f c s hc hne hs)
  | null => trivial

/-- What a call of the closure does: it adds strings, keeps the files, and returns the index of the
file, or `usize::MAX` if there is none. -/
structure Interns (intern : FileIntern) (t : InternStringTable) (f i : ℕ) (intern' : FileIntern)
    (t' : InternStringTable) : Prop where
  adds : t.Extends t'
  cached : intern'.Cached t'
  files : ∀ g, intern'.file g = intern.file g
  known : ∀ s, intern.file f = some s → t'.entries[i]? = some s
  unknown : intern.file f = none → i = usizeMax

variable {intern intern' : FileIntern} {t t' : InternStringTable} {f i : ℕ}

lemma call_spec (h : intern.Cached t) (hcall : intern.call f t = some (i, t', intern')) :
    intern.Interns t f i intern' t' := by
  cases intern with
  | null =>
    cases hcall
    exact ⟨.refl t, trivial, fun _ => rfl, fun s hs => (nomatch hs), fun _ => rfl⟩
  | table files cache =>
    obtain ⟨r, hr, heq⟩ := map_eq_some_iff.mp hcall
    cases heq
    by_cases hmax : f = usizeMax
    · rw [lazyIntern, if_pos hmax] at hr
      cases hr
      refine ⟨.refl t, h, fun _ => rfl, fun s hs => ?_, fun _ => rfl⟩
      rw [file, if_pos hmax] at hs
      cases hs
    · rw [lazyIntern, if_neg hmax] at hr
      cases hc : cache[f]? with
      | none => simp [hc] at hr
      | some c =>
        cases hs : files[f]? with
        | none => simp [hc, hs] at hr
        | some s =>
          simp only [hc, hs] at hr
          have hfile : ∀ l, (table files l).file f = some s :=
            fun l => by rw [file, if_neg hmax, hs]
          by_cases hnew : c = usizeMax
          · rw [if_pos hnew] at hr
            obtain rfl := some.inj hr
            obtain ⟨hext, hget⟩ := t.intern_spec s
            refine ⟨hext, ?_, fun _ => rfl, fun s' hs' => ?_, fun hnone => ?_⟩
            · intro g c' s' hc' hne hs'
              rcases decEq f g with hfg | rfl
              · rw [getElem?_set_ne hfg] at hc'
                exact hext _ _ (h g c' s' hc' hne hs')
              · have hlt := (List.getElem?_eq_some_iff.mp hc).1
                rw [getElem?_set_self hlt] at hc'
                rw [hs] at hs'
                cases hc'
                cases hs'
                exact hget
            · rw [hfile] at hs'
              cases hs'
              exact hget
            · rw [hfile] at hnone
              cases hnone
          · rw [if_neg hnew] at hr
            obtain rfl := some.inj hr
            refine ⟨.refl t, h, fun _ => rfl, fun s' hs' => ?_, fun hnone => ?_⟩
            · rw [hfile] at hs'
              cases hs'
              exact h f c s hc hnew hs
            · rw [hfile] at hnone
              cases hnone

lemma translateLoc_spec {loc : Dwarf.SourceLocation} {e : LocationEntry} (h : intern.Cached t)
    (hloc : intern.translateLoc loc t = some (e, t', intern')) :
    intern.Interns t loc.file e.file intern' t' ∧ e.row = loc.row ∧ e.col = loc.col := by
  obtain ⟨⟨i, t₁, intern₁⟩, hr, heq⟩ := map_eq_some_iff.mp hloc
  cases heq
  exact ⟨call_spec h hr, rfl, rfl⟩

end FileIntern

/-! ## The entries of the writer -/

/-- The entry stands for the function. -/
structure Describes (t : InternStringTable) (x : Written) (e : FunctionEntry) : Prop where
  parent : e.inlineParent = usizeMax
  named : ∀ s, x.name = some s → t.entries[e.name]? = some s
  unnamed : x.name = none → e.name = usizeMax
  located : ∀ s, x.file = some s →
    t.entries[e.location.file]? = some s ∧ e.location.row = x.row ∧ e.location.col = x.col
  unlocated : x.file = none → e.location.file = usizeMax

variable {x : Written}

lemma Describes.mono {e : FunctionEntry} (h : Describes t x e) (hext : t.Extends t') :
    Describes t' x e where
  parent := h.parent
  named := fun s hs => hext _ _ (h.named s hs)
  unnamed := h.unnamed
  located := fun s hs => (h.located s hs).imp_left (hext _ _)
  unlocated := h.unlocated

namespace DebugModuleFileWriter

variable {w w' : DebugModuleFileWriter} {intern intern' : FileIntern} {xs : List Written}
  {files : List String}
  {calls : List Call}

/-- The functions of the writer are the ones that have been described. -/
def Records (w : DebugModuleFileWriter) (xs : List Written) : Prop :=
  List.Forall₂ (Describes w.strings) xs w.functions

/-- What happens to the strings of a name. -/
lemma internName_spec (t : InternStringTable) (name : Option String) :
    t.Extends (internName t name).2 ∧
      (∀ s, name = some s → (internName t name).2.entries[(internName t name).1]? = some s) ∧
      (name = none → (internName t name).1 = usizeMax) := by
  cases name with
  | none => exact ⟨.refl t, fun s hs => (nomatch hs), fun _ => rfl⟩
  | some s =>
    obtain ⟨hext, hget⟩ := t.intern_spec s
    refine ⟨hext, fun s' hs' => ?_, fun hnone => (nomatch hnone)⟩
    cases hs'
    exact hget

/-- A function that is pushed is recorded behind the others. -/
lemma pushFunction_spec (hw : w.Records xs)
    {locate : InternStringTable → Option (LocationEntry × InternStringTable × FileIntern)}
    (hlocate : ∀ t e t' i, w.strings.Extends t → locate t = some (e, t', i) →
      t.Extends t' ∧ (∀ s, x.file = some s → t'.entries[e.file]? = some s ∧ e.row = x.row ∧
        e.col = x.col) ∧
        (x.file = none → e.file = usizeMax))
    (h : w.pushFunction x.name locate = some (w', intern')) :
    w'.Records (xs ++ [x]) ∧ ∃ t e, w.strings.Extends t ∧
    locate t = some (e, w'.strings, intern') := by
  obtain ⟨⟨e, t', i⟩, hr, heq⟩ := map_eq_some_iff.mp h
  cases heq
  obtain ⟨hext, hnamed, hunnamed⟩ := internName_spec w.strings x.name
  obtain ⟨hext', hlocated, hunlocated⟩ := hlocate _ _ _ _ hext hr
  refine ⟨?_, _, e, hext, hr⟩
  refine rel_append (hw.imp fun _ _ hd => hd.mono (hext.trans hext')) (cons ?_ nil)
  exact ⟨rfl, fun s hs => hext' _ _ (hnamed s hs), hunnamed, hlocated, hunlocated⟩

mutual

/-- An inlined function and the functions inlined into it are recorded in preorder. -/
lemma writeInlined_spec : ∀ (func : Dwarf.InlinedFunctionInfo) {w w' : DebugModuleFileWriter}
    {intern intern' : FileIntern} {xs : List Written} {parent : ℕ}, w.Records xs →
    intern.Cached w.strings →
    writeInlined func parent intern w = some (w', intern') →
    w'.Records (xs ++ writtenInlined (intern.file ·) func xs.length parent) ∧
    intern'.Cached w'.strings ∧
      ∀ f, intern'.file f = intern.file f
  | ⟨ranges, name, inlined, location⟩, w, w', intern, intern', xs, parent, hw, hcached, h => by
    simp only [writeInlined, bind_eq_bind, bind_eq_some_iff] at h
    obtain ⟨⟨w₁, intern₁⟩, hpush, m, -, h⟩ := h
    have hlocate : ∀ t e t' i, w.strings.Extends t →
      intern.translateLoc location t = some (e, t', i) →
        t.Extends t' ∧ (∀ s, intern.file location.file = some s →
          t'.entries[e.file]? = some s ∧ e.row = location.row ∧ e.col = location.col) ∧
          (intern.file location.file = none → e.file = usizeMax) := by
      intro t e t' i hext hloc
      obtain ⟨hinterns, hrow, hcol⟩ := FileIntern.translateLoc_spec (hcached.mono hext) hloc
      exact ⟨hinterns.adds, fun s hs => ⟨hinterns.known s hs, hrow, hcol⟩, hinterns.unknown⟩
    obtain ⟨hw₁, t, e, hext, hloc⟩ := pushFunction_spec
      (x := ⟨some parent, name, intern.file location.file, location.row, location.col⟩)
      hw hlocate hpush
    obtain ⟨hinterns, -, -⟩ := FileIntern.translateLoc_spec (hcached.mono hext) hloc
    have hlen : w.functions.length = xs.length := hw.length_eq.symm
    obtain ⟨hw', hcached', hfiles⟩ :=
      writeInlinedAll_spec inlined (w := { w₁ with functionSearch := m }) hw₁
      hinterns.cached h
    refine ⟨?_, hcached', fun f => (hfiles f).trans (hinterns.files f)⟩
    rw [writtenInlined]
    simpa [hlen, hinterns.files] using hw'

/-- The functions that are inlined into one function are recorded one after another. -/
lemma writeInlinedAll_spec : ∀ (funcs : List Dwarf.InlinedFunctionInfo)
    {w w' : DebugModuleFileWriter}
    {intern intern' : FileIntern} {xs : List Written} {parent : ℕ}, w.Records xs →
    intern.Cached w.strings →
    writeInlinedAll funcs parent intern w = some (w', intern') →
    w'.Records (xs ++ writtenInlinedAll (intern.file ·) funcs xs.length parent) ∧
    intern'.Cached w'.strings ∧
      ∀ f, intern'.file f = intern.file f
  | [], w, w', intern, intern', xs, parent, hw, hcached, h => by
    cases h
    rw [writtenInlinedAll, append_nil]
    exact ⟨hw, hcached, fun _ => rfl⟩
  | func :: funcs, w, w', intern, intern', xs, parent, hw, hcached, h => by
    simp only [writeInlinedAll, bind_eq_bind, bind_eq_some_iff] at h
    obtain ⟨⟨w₁, intern₁⟩, hfunc, h⟩ := h
    obtain ⟨hw₁, hcached₁, hfiles₁⟩ := writeInlined_spec func hw hcached hfunc
    obtain ⟨hw', hcached', hfiles⟩ := writeInlinedAll_spec funcs hw₁ hcached₁ h
    refine ⟨?_, hcached', fun f => (hfiles f).trans (hfiles₁ f)⟩
    rw [writtenInlinedAll]
    simpa [hfiles₁] using hw'

end

/-- The closure for a unit has an empty cache. -/
lemma cached_fileIntern (info : Option Dwarf.LineInfo) (t : InternStringTable) :
    (fileIntern info).Cached t := by
  cases info with
  | none => trivial
  | some info => exact FileIntern.cached_lazyInternTable info.files t

/-- `write_function` records the function and the functions inlined into it. -/
lemma writeFunction_spec {func : Dwarf.FunctionInfo} {info : Option Dwarf.LineInfo}
    (hw : w.Records xs)
    (h : w.writeFunction func info = some w') :
    w'.Records (xs ++ (Call.writeFunction func info).written xs.length) := by
  simp only [writeFunction, bind_eq_bind, bind_eq_some_iff] at h
  obtain ⟨⟨w₁, intern₁⟩, hpush, m, -, ⟨w₂, intern₂⟩, hinlined, h⟩ := h
  cases h
  have hlocate : ∀ t e t' i, w.strings.Extends t →
    functionLocation info func.location t = some (e, t', i) →
      t.Extends t' ∧ (∀ s, recordedFile info func.location.file = some s →
        t'.entries[e.file]? = some s ∧ e.row = func.location.row ∧ e.col = func.location.col) ∧
        (recordedFile info func.location.file = none → e.file = usizeMax) := by
    intro t e t' i hext hloc
    cases info with
    | none =>
      cases hloc
      exact ⟨.refl _, fun s hs => (nomatch hs), fun _ => rfl⟩
    | some info =>
      obtain ⟨hinterns, hrow, hcol⟩ :=
        FileIntern.translateLoc_spec (FileIntern.cached_lazyInternTable info.files t) hloc
      exact ⟨hinterns.adds, fun s hs => ⟨hinterns.known s hs, hrow, hcol⟩, hinterns.unknown⟩
  obtain ⟨hw₁, -⟩ := pushFunction_spec
    (x := ⟨none, func.name, recordedFile info func.location.file, func.location.row,
      func.location.col⟩) hw hlocate
    hpush
  have hlen : w.functions.length = xs.length := hw.length_eq.symm
  obtain ⟨hw', -, -⟩ := writeInlinedAll_spec func.inlined (w := { w₁ with functionSearch := m }) hw₁
    (cached_fileIntern info _) hinlined
  have hfile : (fun f => (fileIntern info).file f) = recordedFile info := rfl
  rw [hfile] at hw'
  rw [Call.written]
  simpa [hlen] using hw'

/-- The rows of a sequence add strings. -/
lemma translateRows_spec {start stop : ℕ} {rows : List Dwarf.LineEntry}
    {result : List (ℕ × LocationEntry)} (hcached : intern.Cached t)
    (h : translateRows files start stop rows intern t = some (result, t', intern')) :
    t.Extends t' ∧ intern'.Cached t' := by
  induction rows generalizing intern t result with
  | nil =>
    cases h
    exact ⟨.refl _, hcached⟩
  | cons row rows ih =>
    rw [translateRows] at h
    split_ifs at h
    · simp only [bind_eq_bind, bind_eq_some_iff] at h
      obtain ⟨⟨e, t₁, intern₁⟩, hloc, ⟨result₁, t₂, intern₂⟩, hrows, h⟩ := h
      cases h
      obtain ⟨hinterns, -, -⟩ := FileIntern.translateLoc_spec hcached hloc
      obtain ⟨hext, hcached'⟩ := ih hinterns.cached hrows
      exact ⟨hinterns.adds.trans hext, hcached'⟩
    · simp only [bind_eq_bind, bind_eq_some_iff] at h
      obtain ⟨-, -, h⟩ := h
      exact ih hcached h

/-- `write_line` records no function. -/
lemma writeSequences_spec {entries : List Dwarf.LineSequence} (hw : w.Records xs)
    (hcached : intern.Cached w.strings) (h : writeSequences files entries intern w = some w') :
    w'.Records xs := by
  induction entries generalizing intern w with
  | nil =>
    cases h
    exact hw
  | cons entry entries ih =>
    simp only [writeSequences, bind_eq_bind, bind_eq_some_iff] at h
    obtain ⟨⟨result, strings, intern₁⟩, hrows, m, -, h⟩ := h
    obtain ⟨hext, hcached'⟩ := translateRows_spec hcached hrows
    exact ih (w := ⟨strings, w.functions, m, w.functionSearch⟩)
      (hw.imp fun _ _ hd => hd.mono hext) hcached' h

/-- One call records the functions that it describes. -/
lemma call_spec {c : Call} (hw : w.Records xs) (h : w.call c = some w') :
    w'.Records (xs ++ c.written xs.length) := by
  cases c with
  | writeLine info =>
    rw [Call.written, append_nil]
    exact writeSequences_spec hw (FileIntern.cached_lazyInternTable info.files _) h
  | writeFunction func info => exact writeFunction_spec hw h

/-- A sequence of calls records all functions. -/
lemma calls_spec (hw : w.Records xs) (h : calls.foldlM call w = some w') :
    w'.Records (calls.foldl (fun xs c => xs ++ c.written xs.length) xs) := by
  induction calls generalizing w xs with
  | nil =>
    cases h
    exact hw
  | cons c calls ih =>
    rw [foldlM_cons] at h
    obtain ⟨w₁, hc, h⟩ := bind_eq_some_iff.mp h
    exact ih (call_spec hw hc) h

/-- The entry of a function that is described. -/
lemma records_written (h : calls.foldlM call .new = some w) {i : ℕ}
    (hx : (written calls)[i]? = some x) : ∃ e, w.functions[i]? = some e ∧
    Describes w.strings x e := by
  have hw : w.Records (written calls) := calls_spec (w := .new) nil h
  obtain ⟨hlt, rfl⟩ := List.getElem?_eq_some_iff.mp hx
  have hlt' : i < w.functions.length := hw.length_eq ▸ hlt
  exact ⟨_, getElem?_eq_getElem hlt', hw.get hlt hlt'⟩

/-- **Functions are read back.**  After any sequence of calls, `get_function` on the module that is
written returns the name and the location of a function exactly if it has a name and a file, both
without a zero byte.  A function that is returned has the parent of the debug information exactly if
it is not inlined. -/
theorem getFunction_written (calls : List Call) (w : DebugModuleFileWriter)
    (hw : calls.foldlM call .new = some w)
    (data : List UInt8) (hdata : w.write = some data) (hfits : data.length < usizeBound)
    (i : ℕ) (x : Written)
    (hx : (written calls)[i]? = some x) :
    ∃ t, SymbolTable.parse data = .ok t ∧
      ((∃ sym, t.getFunction i = .ok sym ∧ x.name = some sym.name ∧
          sym.location = x.file.map (⟨·, x.row, x.col⟩)) ↔
        (∃ name, x.name = some name ∧ NulFree name) ∧ ∃ file, x.file = some file ∧ NulFree file) ∧
      ∀ sym, t.getFunction i = .ok sym → (sym.inlineParent = x.parent ↔ x.parent = none) := by
  obtain ⟨F, L, G, t, hF, -, -, hparse, hholds⟩ := parse_write hdata hfits
  obtain ⟨e, he, hdesc⟩ := records_written hw hx
  refine ⟨t, hparse, ?_⟩
  by_cases hmissing : x.name = none ∨ x.file = none
  · have herr := hholds.getFunction_missing hF he (hmissing.imp hdesc.unnamed hdesc.unlocated)
    rw [herr]
    refine ⟨iff_of_false (fun ⟨_, h, _⟩ => (nomatch h)) ?_, fun _ h => (nomatch h)⟩
    rintro ⟨⟨name, hname, -⟩, file, hfile, -⟩
    rcases hmissing with h | h
    · exact absurd (h.symm.trans hname) (by simp)
    · exact absurd (h.symm.trans hfile) (by simp)
  · push Not at hmissing
    obtain ⟨name, hname⟩ := ne_none_iff_exists'.mp hmissing.1
    obtain ⟨file, hfile⟩ := ne_none_iff_exists'.mp hmissing.2
    obtain ⟨hfileEntry, hrow, hcol⟩ := hdesc.located file hfile
    obtain ⟨sym, hsym, hsymName, hparent, hlocation⟩ :=
      hholds.getFunction hF he (hdesc.named name hname) hfileEntry
    have hnone : sym.inlineParent = none := by
      rw [hparent (by rw [hdesc.parent]; decide), if_neg (not_not.mpr hdesc.parent)]
    rw [hsym]
    constructor
    · simp only [Except.ok.injEq, exists_eq_left', hname, hfile, some.injEq, hsymName,
        hlocation, map_some,
        SourceLocation.mk.injEq, hrow, hcol, and_true, ← cString_eq_self_iff]
      exact and_congr_left' eq_comm
    · rintro sym' h
      cases h
      rw [hnone]
      exact eq_comm

/-- A function into which another one is inlined. -/
def inliningCalls : List Call :=
  [.writeFunction ⟨[(linkBase + 0x100, linkBase + 0x200)],
      [⟨[(linkBase + 0x140, linkBase + 0x180)], some "g", [], ⟨0, 7, 1⟩⟩], some "f", ⟨0, 3, 1⟩⟩
    (some ⟨["a.rs"], []⟩)]

/-- The writer after the calls. -/
def inliningWriter : DebugModuleFileWriter where
  strings := ⟨["f", "a.rs", "g"]⟩
  functions := [⟨usizeMax, 0, ⟨1, 3, 1⟩⟩, ⟨usizeMax, 2, ⟨1, 7, 1⟩⟩]
  locationSearch := .new
  functionSearch :=
    ⟨[⟨linkBase + 0x100, linkBase + 0x140, 0⟩, ⟨linkBase + 0x140, linkBase + 0x180, 1⟩,
    ⟨linkBase + 0x180, linkBase + 0x200, 0⟩], by decide⟩

lemma inliningWriter_calls : inliningCalls.foldlM call .new = some inliningWriter := by
  rfl

lemma inliningWriter_write : inliningWriter.write = some (inliningWriter.write.getD []) := by
  decide +kernel

/-- The outer function is read back. -/
theorem getFunction_written_outer : ∃ data t sym, inliningWriter.write = some data ∧
    SymbolTable.parse data = .ok t ∧ t.getFunction 0 = .ok sym ∧ some "f" = some sym.name ∧
      sym.location = some ⟨"a.rs", 3, 1⟩ ∧ sym.inlineParent = none := by
  obtain ⟨t, ht, hread, hparent⟩ := getFunction_written inliningCalls inliningWriter
    inliningWriter_calls _ inliningWriter_write (by decide +kernel) 0 ⟨none, some "f",
      some "a.rs", 3, 1⟩ rfl
  obtain ⟨sym, hsym, hname, hlocation⟩ := hread.mpr ⟨⟨"f", rfl, by decide⟩, "a.rs", rfl, by decide⟩
  exact ⟨_, t, sym, inliningWriter_write, ht, hsym, hname, hlocation, (hparent sym hsym).mpr rfl⟩

/-- The inlined function is read back without its parent. -/
theorem inlineParent_lost : inliningCalls.foldlM call .new = some inliningWriter ∧
    (written inliningCalls)[1]? = some ⟨some 0, some "g", some "a.rs", 7, 1⟩ ∧
    ∃ data, inliningWriter.write = some data ∧
      (SymbolTable.parse data).bind (·.getFunction 1) = .ok ⟨"g", none, some ⟨"a.rs", 7, 1⟩⟩ :=
  ⟨inliningWriter_calls, rfl, _, inliningWriter_write, by decide +kernel⟩

end DebugModuleFileWriter

end CabOS.Debug
