import CabOS.Debug.Lookup

/-!
# Searching the debug module for the source location of an address

`lookup_location` searches the table of locations.  It computes the location of every marker that it
meets at or below the address, also of the null markers at the ends of sequences, and leaves with
`None` at the first of these. So it is right outside the sequences; inside one it is right if no end
of an earlier sequence is on the path of the address in the balanced search tree over the table.
-/

namespace CabOS.Debug

open CabOS.Symbols List Option InternStringTable Sequences SymbolTable

namespace DebugModuleFileWriter

variable {w : DebugModuleFileWriter} {S F L G : List UInt8} {t : SymbolTable}
  {es : List (ℕ × LocationEntry)}
  {parts : List (List UInt8)} {addr k : ℕ} {m : ℕ × LocationEntry}

/-- The line sequences that are searched: disjoint ranges in the kernel, with rows that increase
inside their range and have a file. -/
structure SearchableLocations (w : DebugModuleFileWriter) : Prop where
  sequences : Sequences w.locationSearch.entries
  kernel : ∀ e ∈ w.locationSearch.entries, linkBase ≤ e.start ∧ e.stop < usizeBound
  file : ∀ e ∈ w.locationSearch.entries, ∀ r ∈ e.value, ∃ file,
    w.strings.entries[r.2.file]? = some file
  small : ∀ e ∈ w.locationSearch.entries, ∀ r ∈ e.value, r.2.row < 2 ^ 32 ∧ r.2.col < 2 ^ 32

/-- The table of locations in the module. -/
def locationTable (w : DebugModuleFileWriter) : List (ℕ × LocationEntry) :=
  (filterRanges .null w.locationMarkers).getD []

/-- What the kernel knows about the table of locations. -/
structure LocationTable (w : DebugModuleFileWriter) (es : List (ℕ × LocationEntry))
    (parts : List (List UInt8)) :
    Prop where
  table : w.locationTable = es
  written : es.mapM (writeMarker (LocationEntry.write w.strings.resolve)) = some parts
  increasing : es.Pairwise fun x y => x.1 < y.1
  kernel : ∀ m ∈ es, linkBase ≤ m.1 ∧ m.1 < usizeBound
  file : ∀ m ∈ es, m.2 = .null ∨ ∃ file, w.strings.entries[m.2.file]? = some file
  contains : ∀ e ∈ w.locationSearch.entries, ∀ a, e.Contains a →
    stepValue .null es a = stepValue .null e.value a
  gap : ∀ a, (∀ e ∈ w.locationSearch.entries, ¬e.Contains a) → stepValue .null es a = .null

/-- A location whose file is there can be written. -/
lemma exists_location_write {x : LocationEntry} {file : String}
    (hfile : w.strings.entries[x.file]? = some file)
    (hrow : x.row < 2 ^ 32) (hcol : x.col < 2 ^ 32) :
    ∃ bs, x.write w.strings.resolve = some bs := by
  have hlt := (List.getElem?_eq_some_iff.mp hfile).1
  have hresolve : ∃ off, w.strings.resolve x.file = some off := by
    rw [resolve]
    split_ifs
    · exact ⟨_, rfl⟩
    · exact ⟨_, rfl⟩
  obtain ⟨off, hoff⟩ := hresolve
  exact ⟨toLE 8 off ++ (toLE 4 x.row ++ toLE 4 x.col), by
    rw [LocationEntry.write, hoff, toU32, toU32, if_pos hrow, if_pos hcol]
    rfl⟩

/-- The table of locations can be written. -/
lemma SearchableLocations.table (hw : w.SearchableLocations) :
    ∃ es parts, w.locationBytes = some parts.flatten ∧ w.LocationTable es parts := by
  have hkernel : ∀ m ∈ w.locationMarkers, linkBase ≤ m.1 ∧ m.1 < usizeBound := by
    intro m hm
    obtain ⟨e, he, hm⟩ := Sequences.mem_markers.mp hm
    have hbound := hw.kernel e he
    have hrange := hw.sequences.range e he
    rcases hm with hm | rfl
    · have hin := hw.sequences.inside e he m hm
      exact ⟨hbound.1.trans hin.1, hin.2.trans hbound.2⟩
    · exact ⟨hbound.1.trans hrange, hbound.2⟩
  have hwrite : ∀ m ∈ w.locationMarkers, ∃ bs,
    LocationEntry.write w.strings.resolve m.2 = some bs := by
    intro m hm
    obtain ⟨e, he, hm⟩ := mem_markers.mp hm
    rcases hm with hm | rfl
    · obtain ⟨file, hfile⟩ := hw.file e he m hm
      obtain ⟨hrow, hcol⟩ := hw.small e he m hm
      exact exists_location_write hfile hrow hcol
    · exact ⟨_, rfl⟩
  obtain ⟨es, parts, hfilter, hparts, hbytes, hsorted, hmem, hstep⟩ :=
    writeRanges_spec hw.sequences.precedes hkernel hwrite
  refine ⟨es, parts, hbytes, ?_, hparts, hsorted, fun m hm => hkernel m (hmem m hm), fun m hm => ?_,
    fun e he a ha => ?_, fun a ha => ?_⟩
  · exact congrArg (getD · []) hfilter
  · obtain ⟨e, he, hm⟩ := mem_markers.mp (hmem m hm)
    rcases hm with hm | rfl
    · exact .inr (hw.file e he m hm)
    · exact .inl rfl
  · rw [hstep]
    exact hw.sequences.stepValue_of_contains he ha
  · rw [hstep]
    exact hw.sequences.stepValue_of_not_contains ha

/-- The location that the kernel reads in an entry; the entry has no file if it is null. -/
def locate (w : DebugModuleFileWriter) (x : LocationEntry) : Except Leave (Option SourceLocation) :=
  match w.strings.entries[x.file]? with
  | some file => .ok (some ⟨cString file, x.row, x.col⟩)
  | none => .error .none

/-- A marker of the table of locations has twenty bytes. -/
lemma length_locationMarker (resolve : ℕ → Option ℕ) (m : ℕ × LocationEntry) (bs : List UInt8)
    (h : writeMarker (LocationEntry.write resolve) m = some bs) : bs.length = 4 + 16 := by
  refine length_writeMarker (fun x bs hbs => ?_) m bs h
  obtain ⟨file, -, -, -, rfl⟩ := location_write hbs
  simp

/-- The null marker has no file. -/
lemma locate_null (h : t.Holds (buffer w.strings.entries) F L G) :
    w.locate .null = .error .none := by
  have hlen : w.strings.entries.length ≤ usizeMax := by
    have hle := h.strings.le_length
    have hfits := h.fits
    have hsize := length_le_buffer w.strings.entries
    simp only [usizeMax]
    omega
  rw [locate, LocationEntry.null, getElem?_eq_none hlen]

/-- What the search does with a marker at or below the address. -/
def keepLocation (w : DebugModuleFileWriter) (es : List (ℕ × LocationEntry)) (k : ℕ)
    (best : Option SourceLocation) : Except Leave (Option SourceLocation) :=
  match es[k]? with
  | some m => w.locate m.2
  | none => .ok best

section

variable (htable : w.LocationTable es parts)
include htable

section

variable (h : t.Holds (InternStringTable.buffer w.strings.entries) F L G)
include h

/-- The location that is read at a marker is the one of its entry. -/
lemma LocationTable.sourceLocation (hm : m ∈ es) {off pos : ℕ}
    (hoff : w.strings.resolve m.2.file = some off) (hrow : m.2.row < 2 ^ 32)
    (hcol : m.2.col < 2 ^ 32)
    (hloc : Located t.data pos (toLE 4 m.2.row ++ toLE 4 m.2.col)) :
    off < usizeBound ∧ t.sourceLocation off pos = w.locate m.2 := by
  rcases htable.file m hm with hnull | ⟨file, hfile⟩
  · rw [hnull] at hoff ⊢
    obtain rfl : usizeMax = off := Option.some.inj hoff
    exact ⟨by decide, by rw [locate_null h]; rfl⟩
  · obtain ⟨hmax, -⟩ := h.getString_resolve hfile hoff
    refine ⟨hmax.trans_le (by decide), ?_⟩
    rw [h.sourceLocation hfile hoff hrow hcol hloc, locate, hfile]

end

/-- One round of the search reads the marker at its position. -/
lemma LocationTable.lookLocation
    (h : t.Holds (InternStringTable.buffer w.strings.entries) F parts.flatten G)
    (haddr : kernelBase ≤ addr)
    (hk : es[k]? = some m) (best : Option SourceLocation) :
    t.lookLocation (addr - kernelBase) k best = if m.1 ≤
      addr then (w.locate m.2).map some else .ok none := by
  have hfits := h.fits
  have hm := mem_of_getElem? hk
  have hkernel := htable.kernel m hm
  obtain ⟨bs, hbs, hloc⟩ := h.locations.record (length_locationMarker _) htable.written hk
  rw [writeMarker_eq hkernel] at hbs
  obtain ⟨inst, hinst, rfl⟩ := map_eq_some_iff.mp hbs
  obtain ⟨off, hoff, hrow, hcol, rfl⟩ := SymbolTable.location_write hinst
  have hend := hloc.le_length
  have hright := hloc.right
  have hright' := hright.right
  simp only [length_append, length_toLE] at hend hright hright'
  obtain ⟨hofflt, hsource⟩ := htable.sourceLocation h hm hoff hrow hcol hright'
  have hoffset : m.1 - linkBase < 256 ^ 4 := by
    simp only [usizeBound, linkBase] at hkernel ⊢
    omega
  have hpos : wadd t.locationSearchOffset (wmul k 20) = t.locationSearchOffset + k * (4 + 16) := by
    rw [wmul_eq (by omega), wadd_eq (by omega)]
  have hadd : ∀ j ≤ 20, wadd (t.locationSearchOffset + k * (4 + 16)) j = t.locationSearchOffset +
    k * (4 + 16) + j :=
    fun j hj => wadd_eq (by omega)
  have hle : m.1 - linkBase ≤ addr - kernelBase ↔ m.1 ≤ addr := by
    have hbase : linkBase = kernelBase := rfl
    omega
  have hsource' : t.sourceLocation off (t.locationSearchOffset + k * (4 + 16) + 12) =
    w.locate m.2 := hsource
  simp only [SymbolTable.lookLocation, hpos, readAt_toLE hfits hloc.left hoffset,
    hadd 4 (by decide),
    hadd 12 (by decide), readAt_toLE hfits hright.left hofflt, hsource', bind, Except.bind, hle]
  by_cases hma : m.1 ≤ addr
  · rw [if_pos hma, if_pos hma]
    cases w.locate m.2 with
    | ok x => rfl
    | error e => rfl
  · rw [if_neg hma, if_neg hma]
    rfl

/-- The search of `lookup_location` computes the location of every marker that it meets. -/
lemma LocationTable.search (h : t.Holds (buffer w.strings.entries) F parts.flatten G)
    (haddr : kernelBase ≤ addr) :
    binarySearch (t.lookLocation (addr - kernelBase))
      (t.locationSearchLen / 20) 0 (t.locationSearchLen / 20) none =
        (probes (rank es addr) es.length 0 es.length).foldlM
        (fun best k => w.keepLocation es k best) none := by
  have hn : t.locationSearchLen / 20 = es.length := by
    rw [h.locationsLen, length_flatten_of_mapM (length_locationMarker _) htable.written]
    exact Nat.mul_div_cancel _ (by decide)
  rw [hn]
  refine binarySearch_eq _ _ _ _ (fun k b hk hrank => ?_) fun k b hk hrank => ?_
  · have hget := getElem?_eq_getElem hk
    have hle := (getElem?_le_iff htable.increasing hget).mpr hrank
    rw [htable.lookLocation h haddr hget, if_pos hle, keepLocation, hget]
  · have hget := getElem?_eq_getElem hk
    have hlt : ¬es[k].1 ≤ addr := fun hle =>
      absurd ((getElem?_le_iff htable.increasing hget).mp hle) (by omega)
    rw [htable.lookLocation h haddr hget, if_neg hlt]

end

end DebugModuleFileWriter

end CabOS.Debug
