import CabOS.Debug.Ranges
import CabOS.Symbols

/-!
# What the kernel reads from the bytes of the writer

The build tool writes the sections of the debug module one after another, and the kernel finds them
by their sizes.  `SymbolTable.Holds` says that a parsed table has the sections at its offsets; from
it follow the strings, the functions and the entries of the search tables.
-/

namespace CabOS.Symbols

open CabOS.Debug List Option InternStringTable

section

variable {data bytes : List UInt8} {pos n v : ℕ}

/-- Bytes that are there are read. -/
lemma index_located (h : Located data pos bytes) :
    index data pos (pos + bytes.length) = .ok bytes := by
  rw [index, if_pos ⟨Nat.le_add_right _ _, h.le_length⟩, Nat.add_sub_cancel_left, h.slice_eq]

section

variable (hfits : data.length < usizeBound)
include hfits

/-- Numbers that are there are read. -/
lemma readAt_located (h : Located data pos bytes) (hn : bytes.length = n) :
    readAt data pos n = .ok (ofLE bytes) := by
  have hle := h.le_length
  subst hn
  rw [readAt, wadd_eq (by omega), index_located h]
  rfl

lemma readAt_toLE (h : Located data pos (toLE n v)) (hv : v < 256 ^ n) :
    readAt data pos n = .ok v := by
  rw [readAt_located hfits h (length_toLE n v), ofLE_toLE hv]

lemma readUsize_toLE (h : Located data pos (toLE 8 v))
    (hv : v < usizeBound) : readUsize data pos = .ok (v, pos + 8) := by
  have hle := h.le_length
  have hslice := h.slice_eq
  rw [length_toLE] at hle hslice
  have hadd : wadd pos 8 = pos + 8 := wadd_eq (by omega)
  rw [readUsize, hadd, if_pos ⟨by omega, hle⟩, hslice, ofLE_toLE hv]

/-- A section is found by its size, and what follows begins behind it. -/
lemma readUsize_sized {rest : List UInt8} (h : Located data pos (sized bytes ++ rest)) :
    readUsize data pos = .ok (bytes.length, pos + 8) ∧ Located data (pos + 8) bytes ∧
      wadd (pos + 8) bytes.length = pos + 8 + bytes.length ∧
      Located data (pos + 8 + bytes.length) rest := by
  rw [sized, append_assoc] at h
  have hbytes := h.right
  rw [length_toLE] at hbytes
  have hle := hbytes.le_length
  rw [length_append] at hle
  exact ⟨readUsize_toLE hfits h.left (by omega), hbytes.left, wadd_eq (by omega), hbytes.right⟩

end

end

namespace SymbolTable

/-- The table finds the strings, the functions and the two search tables at its offsets. -/
structure Holds (t : SymbolTable) (S F L G : List UInt8) : Prop where
  fits : t.data.length < usizeBound
  header : 0 < t.stringsOffset
  strings : Located t.data t.stringsOffset S
  stringsLen : t.stringsLen = S.length
  functions : Located t.data t.functionsOffset F
  functionsCount : t.functionsCount = F.length / functionEntrySize
  locations : Located t.data t.locationSearchOffset L
  locationsLen : t.locationSearchLen = L.length
  functionSearch : Located t.data t.functionSearchOffset G
  functionSearchLen : t.functionSearchLen = G.length

variable {t : SymbolTable} {S F L G : List UInt8} {T : InternStringTable} {i off : ℕ}
  {s file : String}
  {resolve : ℕ → Option ℕ} {e : FunctionEntry} {w : DebugModuleFileWriter} {entries :
    List String} {bs : List UInt8}

/-- The layout that is written is parsed. -/
lemma parse_holds {data : List UInt8} (hfits : data.length < usizeBound)
    (hdata : data = toLE 8 0 ++ (sized S ++ (sized F ++ (sized L ++ sized G))))
    (hF : F.length % functionEntrySize = 0) : ∃ t, parse data = .ok t ∧ t.Holds S F L G := by
  have h : Located data 0 (toLE 8 0 ++ (sized S ++ (sized F ++ (sized L ++ (sized G ++ []))))) := by
    rw [append_nil, ← hdata]
    exact Located.self data
  obtain ⟨h1, hS, a1, h⟩ := readUsize_sized hfits h.right
  obtain ⟨h2, hFl, a2, h⟩ := readUsize_sized hfits h
  obtain ⟨h3, hL, a3, h⟩ := readUsize_sized hfits h
  obtain ⟨h4, hG, -, -⟩ := readUsize_sized hfits h
  have hlong : ¬data.length < 8 := by
    rw [hdata, length_append, length_toLE]
    omega
  refine ⟨⟨data, _, S.length, _, F.length / functionEntrySize, _, L.length, _, G.length⟩, ?_,
    hfits, Nat.succ_pos _, hS, rfl, hFl, rfl, hL, rfl, hG, rfl⟩
  rw [length_toLE, Nat.zero_add] at h1 a1 h2 a2 h3 a3 h4
  simp only [parse, if_neg hlong, h1, bind, Except.bind, a1, h2, hF, a2, h3, a3, h4,
    length_toLE, Nat.zero_add]
  rfl

/-! ## Strings -/

/-- The bytes of a string are read as the string. -/
lemma fromUtf8_strBytes (s : String) : fromUtf8 (strBytes s) = .ok s := by
  have hbytes : (⟨(strBytes s).toArray⟩ : ByteArray) = s.toByteArray := by
    simp [strBytes]
  rw [fromUtf8, hbytes, String.fromUTF8?, dif_pos s.isValidUTF8]
  rfl

/-- A string that is read has the bytes that were read. -/
lemma strBytes_of_fromUtf8 {bs : List UInt8} {s' : String} (h : fromUtf8 bs = .ok s') :
    strBytes s' = bs := by
  rw [fromUtf8, String.fromUTF8?] at h
  split at h
  · rename_i heq
    split_ifs at heq with hvalid
    cases h
    cases heq
    rfl
  · cases h

/-- The bytes before a zero byte are a string: a zero byte is a character of its own. -/
lemma fromUtf8_take {k : ℕ} (hk : (strBytes s)[k]? = some 0) :
    ∃ s', fromUtf8 ((strBytes s).take k) = .ok s' := by
  have hlt : k < s.toByteArray.size := by
    have := (List.getElem?_eq_some_iff.mp hk).1
    simpa [strBytes] using this
  have hvalid : String.Pos.Raw.IsValid s ⟨k⟩ := by
    refine String.Pos.Raw.isValid_iff_isUTF8FirstByte.mpr (Or.inr ⟨hlt, Or.inl ?_⟩)
    have hzero : s.getUTF8Byte ⟨k⟩ hlt = 0 := by
      have hbyte := (List.getElem?_eq_some_iff.mp hk).2
      simp only [strBytes, Array.getElem_toList] at hbyte
      exact hbyte
    rw [hzero]
    rfl
  have hbytes : (⟨((strBytes s).take k).toArray⟩ : ByteArray) = s.toByteArray.extract 0 k := by
    refine ByteArray.ext (Array.toList_inj.mp ?_)
    simp [strBytes, ByteArray.data_extract]
  refine ⟨String.fromUTF8 _ hvalid.isValidUTF8_extract_zero, ?_⟩
  rw [fromUtf8, hbytes, String.fromUTF8?, dif_pos hvalid.isValidUTF8_extract_zero]

/-- The string up to its first zero byte. -/
def cString (s : String) : String :=
  match (strBytes s).findIdx? (· = 0) with
  | none => s
  | some k => (fromUtf8 ((strBytes s).take k)).toOption.getD s

/-- A string without a zero byte is read as it is, and any other up to its first zero byte. -/
lemma fromUtf8_cString (s : String) (rest : List UInt8) :
    ∃ k, (strBytes s ++ 0 :: rest).findIdx? (· = 0) = some k ∧
    fromUtf8 ((strBytes s ++ 0 :: rest).take k) = .ok (cString s) := by
  rw [cString]
  cases hf : (strBytes s).findIdx? (· = 0) with
  | none =>
    refine ⟨(strBytes s).length, by simp [findIdx?_append, hf, findIdx?_cons], ?_⟩
    rw [take_left, fromUtf8_strBytes]
  | some k =>
    obtain ⟨hlt, hzero, -⟩ := findIdx?_eq_some_iff_getElem.mp hf
    obtain ⟨s', hs'⟩ := fromUtf8_take (s := s) (k :=
      k) (by rw [getElem?_eq_getElem hlt, of_decide_eq_true hzero])
    refine ⟨k, by simp [findIdx?_append, hf], ?_⟩
    simp only [take_append_of_le_length hlt.le, hs']
    rfl

/-- Only a string without a zero byte is read as it is. -/
lemma cString_eq_self_iff : cString s = s ↔ NulFree s := by
  obtain ⟨k, hk, hread⟩ := fromUtf8_cString s []
  have hbytes := strBytes_of_fromUtf8 hread
  obtain ⟨hlt, hzero, hbefore⟩ := findIdx?_eq_some_iff_getElem.mp hk
  constructor
  · intro heq hmem
    rw [heq] at hbytes
    obtain ⟨j, hj, hget⟩ := mem_iff_getElem.mp hmem
    have hlen := congrArg length hbytes
    rw [length_take_of_le hlt.le] at hlen
    exact hbefore j (by omega) (by simpa [getElem_append_left hj] using hget)
  · intro hnul
    have hend : k = (strBytes s).length := by
      have hlen : k ≤ (strBytes s).length := by simpa [Nat.lt_succ_iff] using hlt
      refine hlen.antisymm (not_lt.mp fun hshort => hnul (mem_iff_getElem.mpr ⟨k, hshort, ?_⟩))
      simpa [getElem_append_left hshort] using hzero
    rw [hend, take_left, fromUtf8_strBytes] at hread
    exact (Except.ok.inj hread).symm

/-- Where a string stands among the strings. -/
lemma buffer_split (hi : entries[i]? = some s) :
    ∃ rest, buffer entries = buffer (entries.take i) ++ (strBytes s ++ 0 :: rest) := by
  have hlt := (List.getElem?_eq_some_iff.mp hi).1
  have hdrop : entries.drop i = s :: entries.drop (i + 1) := by
    rw [drop_eq_getElem_cons hlt, (List.getElem?_eq_some_iff.mp hi).2]
  refine ⟨buffer (entries.drop (i + 1)), ?_⟩
  conv_lhs => rw [← take_append_drop i entries, hdrop]
  simp [buffer]

/-- `get_string` finds the strings of the writer up to their first zero byte. -/
lemma Holds.getString (h : t.Holds S F L G) (hS : S = buffer entries) (hi : entries[i]? = some s) :
    t.getString (buffer (entries.take i)).length = .ok (cString s) := by
  obtain ⟨rest, hsplit⟩ := buffer_split hi
  set off := (buffer (entries.take i)).length
  have hloc : Located t.data (t.stringsOffset + off) (strBytes s ++ 0 :: rest) := by
    have := h.strings
    rw [hS, hsplit] at this
    exact this.right
  have hlen : S.length = off + (strBytes s ++ 0 :: rest).length := by
    rw [hS, hsplit, length_append]
  have hle := h.strings.le_length
  have hfits := h.fits
  have hstart : wadd t.stringsOffset off = t.stringsOffset + off := wadd_eq (by omega)
  have hstop : wadd t.stringsOffset t.stringsLen = t.stringsOffset + off +
    (strBytes s ++ 0 :: rest).length := by
    rw [h.stringsLen, wadd_eq (by omega), hlen, add_assoc]
  have hpos : 0 < (strBytes s ++ 0 :: rest).length := by
    rw [length_append, length_cons]
    omega
  have hmax : off ≠ usizeMax := by
    simp only [usizeMax]
    omega
  have hindex : index t.data (t.stringsOffset + off)
    (t.stringsOffset + off + (strBytes s ++ 0 :: rest).length) =
      .ok (strBytes s ++ 0 :: rest) := index_located hloc
  -- the string ends at the first zero byte, its own or the one behind it
  obtain ⟨k, hk, hread⟩ := fromUtf8_cString s rest
  have hkle : k ≤ (strBytes s ++ 0 :: rest).length := (findIdx?_eq_some_iff_getElem.mp hk).1.le
  have hstring : Located t.data (t.stringsOffset + off) ((strBytes s ++ 0 :: rest).take k) := by
    rw [← take_append_drop k (strBytes s ++ 0 :: rest)] at hloc
    exact hloc.left
  have hsub := index_located hstring
  rw [length_take_of_le hkle] at hsub
  have hwadd : wadd (t.stringsOffset + off) k = t.stringsOffset + off + k := wadd_eq (by omega)
  simp only [SymbolTable.getString, if_neg hmax, hstart, hstop,
    if_neg (Nat.not_le.mpr (Nat.lt_add_of_pos_right hpos)),
    bind, Except.bind, hindex, hk, hwadd, hsub, hread]

/-! ## Entries -/

/-- What a location entry is written as. -/
lemma location_write {e : LocationEntry} (h : e.write resolve = some bs) :
    ∃ file, resolve e.file = some file ∧ e.row < 2 ^ 32 ∧ e.col < 2 ^ 32 ∧
      bs = toLE 8 file ++ (toLE 4 e.row ++ toLE 4 e.col) := by
  obtain ⟨file, hfile, h⟩ := bind_eq_some_iff.mp h
  obtain ⟨row, hrow, h⟩ := bind_eq_some_iff.mp h
  obtain ⟨col, hcol, h⟩ := bind_eq_some_iff.mp h
  unfold toU32 at hrow hcol
  split_ifs at hrow hcol with hr hc
  cases hrow
  cases hcol
  cases h
  exact ⟨file, hfile, hr, hc, rfl⟩

/-- What a function entry is written as. -/
lemma function_write (h : e.write resolve = some bs) :
    ∃ name file, resolve e.name = some name ∧ resolve e.location.file = some file ∧
      e.location.row < 2 ^ 32 ∧ e.location.col < 2 ^ 32 ∧
      bs = toLE 8 e.inlineParent ++ (toLE 8 name ++ (toLE 8 file ++
        (toLE 4 e.location.row ++ toLE 4 e.location.col))) := by
  obtain ⟨name, hname, h⟩ := bind_eq_some_iff.mp h
  obtain ⟨location, hlocation, h⟩ := bind_eq_some_iff.mp h
  obtain ⟨file, hfile, hrow, hcol, rfl⟩ := location_write hlocation
  cases h
  exact ⟨name, file, hname, hfile, hrow, hcol, rfl⟩

/-- A function entry has the size that the kernel expects. -/
lemma length_function_write (e : FunctionEntry) (bs : List UInt8)
    (h : e.write resolve = some bs) : bs.length = functionEntrySize := by
  obtain ⟨name, file, -, -, -, -, rfl⟩ := function_write h
  simp [functionEntrySize]

/-- The index of a string that is there is resolved to its offset. -/
lemma resolve_of_getElem? (hfits : (buffer T.entries).length < usizeMax)
    (hi : T.entries[i]? = some s) :
    T.resolve i = some (buffer (T.entries.take i)).length := by
  have hlt := (List.getElem?_eq_some_iff.mp hi).1
  have hsize := length_le_buffer T.entries
  rw [resolve, if_neg (by omega), if_pos hlt]

section

variable (h : t.Holds (InternStringTable.buffer T.entries) F L G)
include h

/-- A resolved offset of a string that is there is a number of the module, and `get_string` reads
it. -/
lemma Holds.getString_resolve (hi : T.entries[i]? = some s) (hoff : T.resolve i = some off) :
    off < usizeMax ∧ t.getString off = .ok (cString s) := by
  have hfits := h.fits
  have hheader := h.header
  have hlen := h.strings.le_length
  have hbuffer : (buffer T.entries).length < usizeMax := by
    simp only [usizeMax]
    omega
  rw [resolve_of_getElem? hbuffer hi] at hoff
  cases hoff
  refine ⟨?_, h.getString rfl hi⟩
  obtain ⟨rest, hsplit⟩ := buffer_split hi
  rw [hsplit, length_append] at hbuffer
  omega

/-- The location of an entry whose file is there. -/
lemma Holds.sourceLocation {row col pos : ℕ} (hi : T.entries[i]? = some file)
    (hoff : T.resolve i = some off)
    (hrow : row < 2 ^ 32) (hcol : col < 2 ^ 32)
    (hloc : Located t.data pos (toLE 4 row ++ toLE 4 col)) :
    t.sourceLocation off pos = .ok (some ⟨cString file, row, col⟩) := by
  have hfits := h.fits
  have hend := hloc.le_length
  simp only [length_append, length_toLE] at hend
  obtain ⟨hmax, hget⟩ := h.getString_resolve hi hoff
  have hwadd : wadd pos 4 = pos + 4 := wadd_eq (by omega)
  have hright := hloc.right
  rw [length_toLE] at hright
  simp only [SymbolTable.sourceLocation, hget, readAt_toLE hfits hloc.left hrow, hwadd,
    readAt_toLE hfits hright hcol, bind, Except.bind, if_pos hmax.ne]
  rfl

/-- A resolved offset is a number of the module. -/
lemma Holds.resolve_lt (hoff : T.resolve i = some off) : off < usizeBound := by
  by_cases hi : i < T.entries.length
  · have hmax := (h.getString_resolve (getElem?_eq_getElem hi) hoff).1
    exact hmax.trans (by decide)
  · rw [resolve, if_neg hi] at hoff
    split_ifs at hoff with hmax
    cases hoff
    decide

end

/-- The functions of the writer are found by their index: what `get_function` reads is the entry. -/
lemma Holds.getFunction_eq (h : t.Holds (buffer w.strings.entries) F L G)
    (hF : w.functionBytes = some F)
    (hi : w.functions[i]? = some e) :
    ∃ nameOff fileOff pos, w.strings.resolve e.name = some nameOff ∧
      w.strings.resolve e.location.file = some fileOff ∧ e.location.row < 2 ^ 32 ∧
      e.location.col < 2 ^ 32 ∧
      Located t.data pos (toLE 4 e.location.row ++ toLE 4 e.location.col) ∧
      t.getFunction i = (t.getString nameOff).bind fun name =>
      (t.sourceLocation fileOff pos).map fun location =>
        ⟨name, if ofLE (toLE 8 e.inlineParent) ≠
          usizeMax then some (ofLE (toLE 8 e.inlineParent)) else none,
          location⟩ := by
  obtain ⟨parts, hparts, rfl⟩ := map_eq_some_iff.mp hF
  have hfits := h.fits
  have hlt := (List.getElem?_eq_some_iff.mp hi).1
  have hlen := length_flatten_of_mapM length_function_write hparts
  -- the record of the function, field by field
  obtain ⟨bs, hbs, hloc⟩ := h.functions.record length_function_write hparts hi
  obtain ⟨nameOff, fileOff, hnameOff, hfileOff, hrow, hcol, rfl⟩ := function_write hbs
  have hend := hloc.le_length
  have hloc1 := hloc.right
  have hloc2 := hloc1.right
  have hloc3 := hloc2.right
  simp only [length_append, length_toLE] at hend hloc1 hloc2 hloc3
  refine ⟨nameOff, fileOff, _, hnameOff, hfileOff, hrow, hcol, hloc3, ?_⟩
  have hbase : wadd t.functionsOffset (wmul i functionEntrySize) = t.functionsOffset + i *
    functionEntrySize := by
    rw [wmul_eq (by omega), wadd_eq (by omega)]
  have hparent : readAt t.data (t.functionsOffset + i * functionEntrySize) 8 =
    .ok (ofLE (toLE 8 e.inlineParent)) :=
    readAt_located hfits hloc.left (length_toLE _ _)
  have hreadName := readAt_toLE hfits hloc1.left (h.resolve_lt hnameOff)
  have hreadFile : readAt t.data (t.functionsOffset + i * functionEntrySize + 16) 8 = .ok fileOff :=
    readAt_toLE hfits hloc2.left (h.resolve_lt hfileOff)
  have hcount : ¬t.functionsCount ≤ i := by
    rw [h.functionsCount, hlen, Nat.mul_div_cancel _ (by decide)]
    omega
  have hadd : ∀ k ≤ 32, wadd (t.functionsOffset + i * functionEntrySize) k =
      t.functionsOffset + i * functionEntrySize + k := fun k hk => wadd_eq (by omega)
  have hin : ¬t.data.length < t.functionsOffset + i * functionEntrySize + functionEntrySize := by
    simp only [functionEntrySize] at hend ⊢
    omega
  simp only [getFunction, if_neg hcount, hbase, hadd functionEntrySize (by decide), if_neg hin,
    hadd 8 (by decide), hadd 16 (by decide), hadd 24 (by decide), bind, Except.bind, hparent,
    hreadName, hreadFile]
  cases t.getString nameOff with
  | error err => rfl
  | ok name =>
    simp only
    cases t.sourceLocation fileOff (t.functionsOffset + i * functionEntrySize + 24) with
    | error err => rfl
    | ok location => rfl

/-- A function with a name and a file is returned. -/
lemma Holds.getFunction (h : t.Holds (buffer w.strings.entries) F L G)
    (hF : w.functionBytes = some F)
    {name : String} (hi : w.functions[i]? = some e) (hname : w.strings.entries[e.name]? = some name)
    (hfile : w.strings.entries[e.location.file]? = some file) :
    ∃ sym, t.getFunction i = .ok sym ∧ sym.name = cString name ∧ (e.inlineParent < usizeBound →
        sym.inlineParent = if e.inlineParent ≠ usizeMax then some e.inlineParent else none) ∧
      sym.location = some ⟨cString file, e.location.row, e.location.col⟩ := by
  obtain ⟨nameOff, fileOff, pos, hnameOff, hfileOff, hrow, hcol, hloc, heq⟩ :=
    h.getFunction_eq hF hi
  rw [(h.getString_resolve hname hnameOff).2, h.sourceLocation hfile hfileOff hrow hcol hloc] at heq
  refine ⟨_, heq, rfl, fun hp => ?_, rfl⟩
  simp only [ofLE_toLE (show e.inlineParent < 256 ^ 8 from hp)]

/-- A function without a name or without a file is not returned. -/
lemma Holds.getFunction_missing (h : t.Holds (buffer w.strings.entries) F L G)
    (hF : w.functionBytes = some F)
    (hi : w.functions[i]? = some e) (hmissing : e.name = usizeMax ∨ e.location.file = usizeMax) :
    t.getFunction i = .error .none := by
  obtain ⟨nameOff, fileOff, pos, hnameOff, hfileOff, -, -, -, heq⟩ := h.getFunction_eq hF hi
  have hresolve : ∀ off, w.strings.resolve usizeMax = some off →
    t.getString off = .error .none := by
    intro off hoff
    obtain rfl : usizeMax = off := some.inj hoff
    rfl
  rcases hmissing with hname | hfile
  · rw [heq, hresolve nameOff (hname ▸ hnameOff)]
    rfl
  · have hsource : t.sourceLocation fileOff pos = .error .none := by
      rw [SymbolTable.sourceLocation, hresolve fileOff (hfile ▸ hfileOff)]
      rfl
    rw [heq, hsource]
    -- the name is read first: it is there or it is missing as well
    by_cases hlt : e.name < w.strings.entries.length
    · rw [(h.getString_resolve (getElem?_eq_getElem hlt) hnameOff).2]
      rfl
    · rw [resolve, if_neg hlt] at hnameOff
      split_ifs at hnameOff with hmax
      rw [hresolve nameOff (by rw [← hnameOff]; rfl)]
      rfl

end SymbolTable

end CabOS.Symbols
