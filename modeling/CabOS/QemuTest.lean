import CabOS.Library.OrderedSearch

/-!
# Comparing the output of a test

The build tool runs a test in QEMU and compares what the kernel has written with what is expected,
from the start marker on.  Either the two texts have to be equal, or the lines of the expected text
have to be found in the output, one behind the other.  Texts are lists of characters, and positions
count characters: in UTF-8 a text occurs only where its first character starts.
-/

namespace CabOS.QemuTest

open List

inductive OutputMatchMode where
  | exact
  | containsInOrder
  deriving DecidableEq

/-- `Starting Testing Code...` -/
def startMarker : List Char :=
  ['S', 't', 'a', 'r', 't', 'i', 'n', 'g', ' ', 'T', 'e', 's', 't', 'i', 'n', 'g', ' ', 'C', 'o',
    'd', 'e', '.', '.', '.']

/-- `str::replace("\r\n", "\n")` -/
def replaceCrLf : List Char → List Char
  | '\r' :: '\n' :: cs => '\n' :: replaceCrLf cs
  | c :: cs => c :: replaceCrLf cs
  | [] => []

/-- The output from the marker on; without a marker the `unwrap` panics. -/
def normalizeOutput (output : List Char) : Option (List Char) :=
  (findWord startMarker output).map fun i => replaceCrLf (output.drop i)

/-- `str::lines`, where `line` was read already: a line ends with `\n` or `\r\n`, and behind the
last end there is no empty line. -/
def linesFrom (line : List Char) : List Char → List (List Char)
  | [] => if line = [] then [] else [line]
  | c :: cs =>
    if c = '\n' then (if line.getLast? = some '\r' then line.dropLast else line) :: linesFrom [] cs
    else linesFrom (line ++ [c]) cs

/-- `char::is_whitespace` -/
def isWhitespace (c : Char) : Bool :=
  let n := c.toNat
  9 ≤ n && n ≤ 13 || 0x2000 ≤ n && n ≤ 0x200A ||
    [0x20, 0x85, 0xA0, 0x1680, 0x2028, 0x2029, 0x202F, 0x205F, 0x3000].contains n

/-- `str::trim` -/
def trim (line : List Char) : List Char := (line.dropWhile isWhitespace).rdropWhile isWhitespace

/-- The fragments that are looked for: the trimmed lines that are not empty. -/
def needles (expected : List Char) : List (List Char) :=
  ((linesFrom [] expected).map trim).filter (· ≠ [])

/-- What the last line of the error says. -/
inductive Difference where
  | missingFragment (needle : List Char)
  | firstMismatch (line : ℕ) (expected actual : List Char)
  | lineCount (expected actual : ℕ)
  deriving DecidableEq

/-- The error "serial output mismatch on run …". -/
structure Mismatch where
  runIdx : ℕ
  expectedPath : String
  actualPath : String
  difference : Difference
  deriving DecidableEq

/-- The first line in which the texts differ, or the numbers of lines. -/
def previewMismatch (expected actual : List (List Char)) : Difference :=
  match (expected.zip actual).zipIdx.find? fun x => x.1.1 ≠ x.1.2 with
  | some ((expLine, actLine), i) => .firstMismatch (i + 1) expLine actLine
  | none => .lineCount expected.length actual.length

/-- Compare an output with the expected one; `none` is a panic. -/
def assertOutputMatch (expected actual : List Char) (mode : OutputMatchMode) (runIdx : ℕ)
    (expectedPath actualPath : String) : Option (Except Mismatch Unit) := do
  let expected ← normalizeOutput expected
  let actual ← normalizeOutput actual
  match mode with
  | .containsInOrder =>
    return (findInOrder actual 0 (needles expected)).mapError fun needle =>
      ⟨runIdx, expectedPath, actualPath, .missingFragment needle⟩
  | .exact =>
    if expected = actual then
      return .ok ()
    return .error ⟨runIdx, expectedPath, actualPath,
      previewMismatch (linesFrom [] expected) (linesFrom [] actual)⟩

/-- An output with the marker is normalised. -/
lemma exists_normalizeOutput {output : List Char} (h : startMarker <:+: output) :
    ∃ text, normalizeOutput output = some text := by
  obtain ⟨before, after, rfl⟩ := h
  rw [normalizeOutput]
  cases hfind : findWord startMarker (before ++ startMarker ++ after) with
  | some i => exact ⟨_, rfl⟩
  | none =>
    refine absurd ?_ (findWord_eq_none_iff.mp hfind before.length)
    rw [append_assoc, drop_left]
    exact prefix_append _ _

/-- The search for the fragments accepts an output if and only if the fragments can be placed in it,
in their order and without overlap. -/
theorem assertOutputMatch_containsInOrder (expected actual : List Char) (runIdx : ℕ)
    (expectedPath actualPath : String)
    (hexpected : startMarker <:+: expected) (hactual : startMarker <:+: actual) :
    ∃ e a r, normalizeOutput expected = some e ∧ normalizeOutput actual = some a ∧
      assertOutputMatch expected actual .containsInOrder runIdx expectedPath actualPath = some r ∧
      (r = .ok () ↔ ∃ os, InOrder a os ∧ os.map Prod.fst = needles e) := by
  obtain ⟨e, he⟩ := exists_normalizeOutput hexpected
  obtain ⟨a, ha⟩ := exists_normalizeOutput hactual
  refine ⟨e, a, _, he, ha, by rw [assertOutputMatch, he, ha]; rfl, ?_⟩
  have hsearch : findInOrder a 0 (needles e) = .ok () ↔
    ∃ os, InOrder a os ∧ os.map Prod.fst = needles e := by
    simp only [findInOrder_eq_ok_iff, Nat.zero_le, implies_true, and_true]
  rw [← hsearch]
  cases findInOrder a 0 (needles e) <;> simp [Except.mapError]

/-- The second fragment is looked for behind the first one. -/
theorem assertOutputMatch_containsInOrder_overlap :
    assertOutputMatch (startMarker ++ ['\r', '\n', ' ', 'a', 'a', '\n', 'a', 'b'])
      (startMarker ++ ['a', 'a', 'a', 'b'])
        .containsInOrder 1 "expected" "actual" = some (.ok ()) := by
  obtain ⟨e, a, r, he, ha, hr, hiff⟩ := assertOutputMatch_containsInOrder
    (startMarker ++ ['\r', '\n', ' ', 'a', 'a', '\n', 'a', 'b'])
    (startMarker ++ ['a', 'a', 'a', 'b']) 1 "expected"
    "actual" (prefix_append _ _).isInfix (prefix_append _ _).isInfix
  have he' : e = startMarker ++ ['\n', ' ', 'a', 'a', '\n', 'a', 'b'] :=
    Option.some.inj (he.symm.trans (by decide +kernel))
  have ha' : a = startMarker ++ ['a', 'a', 'a', 'b'] :=
    Option.some.inj (ha.symm.trans (by decide +kernel))
  subst he' ha'
  rw [hr, hiff.mpr ⟨[(startMarker, 0), (['a', 'a'], 24), (['a', 'b'], 26)],
    ⟨by decide +kernel, by decide⟩,
    by decide +kernel⟩]

/-! ## The two modes -/

/-- A word of a line occurs in the text with the line. -/
lemma prefix_drop_of_line {before line after a word b : List Char} (h : a ++ word ++ b = line) :
    word <+: (before ++ line ++ after).drop (before.length + a.length) := by
  subst h
  simp [← drop_drop]

/-- The lines of a text occur in it, one behind the other. -/
lemma exists_inOrder_lines (cs before line : List Char) : ∃ os, InOrder (before ++ line ++ cs) os ∧
    os.map Prod.fst = (linesFrom line cs).map trim ∧ ∀ o ∈ os, before.length ≤ o.2 := by
  have htrim : ∀ l, trim l <:+: l := by
    intro l
    exact (IsPrefix.isInfix <| rdropWhile_prefix _ _).trans (dropWhile_suffix _).isInfix
  -- `line` is the part of a line that was read, behind all lines that have ended
  induction cs generalizing before line with
  | nil =>
    by_cases hline : line = []
    · exact ⟨[], ⟨by simp, .nil⟩, by simp [linesFrom, hline], by simp⟩
    obtain ⟨a, b, hab⟩ := htrim line
    refine ⟨[(trim line, before.length + a.length)], ⟨?_, pairwise_singleton _ _⟩,
      by simp [linesFrom, hline], by simp⟩
    exact forall_mem_singleton.mpr (prefix_drop_of_line hab)
  | cons c cs ih =>
    rw [linesFrom]
    by_cases hc : c = '\n'
    · rw [if_pos hc, map_cons]
      generalize hl : (if line.getLast? = some '\r' then line.dropLast else line) = l
      have hin : l <:+: line := by
        rw [← hl]
        split_ifs
        · exact IsPrefix.isInfix <| dropLast_prefix line
        · exact infix_rfl
      obtain ⟨a, b, hab⟩ := (htrim l).trans hin
      obtain ⟨os, hos, hmap, hle⟩ := ih (before ++ line ++ [c]) []
      rw [append_nil, append_assoc, singleton_append] at hos
      simp only [length_append] at hle
      have hlen := congrArg length hab
      simp only [length_append] at hlen
      refine ⟨(trim l, before.length + a.length) :: os,
        ⟨?_, pairwise_cons.mpr ⟨fun o ho => ?_, hos.ordered⟩⟩, ?_, ?_⟩
      · exact forall_mem_cons.mpr ⟨prefix_drop_of_line hab, hos.occurs⟩
      · have := hle o ho
        dsimp only
        omega
      · rw [map_cons, hmap]
      · exact forall_mem_cons.mpr ⟨Nat.le_add_right _ _, fun o ho => by have := hle o ho; omega⟩
    · rw [if_neg hc]
      simpa using ih before (line ++ [c])

/-- An output that is equal to the expected one is also accepted by the search. -/
theorem assertOutputMatch_of_exact {expected actual : List Char} {runIdx : ℕ}
    {expectedPath actualPath : String}
    (h : assertOutputMatch expected actual .exact runIdx expectedPath actualPath = some (.ok ())) :
    assertOutputMatch expected actual .containsInOrder runIdx expectedPath actualPath =
      some (.ok ()) := by
  cases he : normalizeOutput expected with
  | none => simp [assertOutputMatch, he] at h
  | some e =>
    cases ha : normalizeOutput actual with
    | none => simp [assertOutputMatch, he, ha] at h
    | some a =>
      obtain rfl : e = a := by
        by_contra hne
        simp [assertOutputMatch, he, ha, hne] at h
      obtain ⟨os, hos, hmap, -⟩ := exists_inOrder_lines e [] []
      have hsearch : findInOrder e 0 (needles e) = .ok () := by
        refine findInOrder_eq_ok_iff.mpr ⟨os.filter (·.1 ≠ []),
          ⟨?_, hos.ordered.filter _⟩, ?_, by simp⟩
        · exact fun o ho => hos.occurs o (mem_of_mem_filter ho)
        · rw [needles, ← hmap, filter_map]
          rfl
      simp [assertOutputMatch, he, ha, hsearch, Except.mapError]

/-- Output before the marker and ends of lines with a carriage return do not matter. -/
theorem assertOutputMatch_of_exact_marker :
    assertOutputMatch (startMarker ++ ['\n', ' ', 'a', 'b', '\n', '\n', 'c', '\n'])
      ('\n' :: startMarker ++ ['\r', '\n', ' ', 'a', 'b', '\r', '\n', '\n', 'c', '\n'])
      .containsInOrder 1 "" "" =
    some (.ok ()) :=
  assertOutputMatch_of_exact (by decide +kernel)

end CabOS.QemuTest
