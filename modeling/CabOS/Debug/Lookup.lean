import CabOS.Debug.Layout

/-!
# Searching the debug module for the function of an address

`lookup` searches the table of functions that `write` has laid out.  It looks at the markers on the
path of the address in the balanced search tree over the table (`OnPath`), and the last one at or
below the address is always among them.  It keeps the last function that it has met and passes over
null markers; so it is right inside a function, but in a gap it returns a function that is on the
path.
-/

namespace CabOS.Debug

open CabOS.Symbols List Option InternStringTable SymbolTable

/-! ## Tables in the module -/

section

variable {T : Type} {null : T} {write : T → Option (List UInt8)} {m : ℕ × T} {es : List (ℕ × T)}

/-- A marker in the kernel is written with its offset from the link address. -/
lemma writeMarker_eq (hm : linkBase ≤ m.1 ∧ m.1 < usizeBound) :
    writeMarker write m = (write m.2).map (toLE 4 (m.1 - linkBase) ++ ·) := by
  have hsub : wsub m.1 linkBase = m.1 - linkBase := wsub_eq hm.2 hm.1
  have hlt : m.1 - linkBase < 2 ^ 32 := by
    simp only [usizeBound, linkBase] at hm ⊢
    omega
  rw [writeMarker, hsub, toU32, if_pos hlt]
  cases write m.2 with
  | none => rfl
  | some bs => rfl

/-- The size of a marker. -/
lemma length_writeMarker {n : ℕ} (hwrite : ∀ x bs, write x = some bs → bs.length = n) (m : ℕ × T)
    (bs : List UInt8) (h : writeMarker write m = some bs) : bs.length = 4 + n := by
  simp only [writeMarker, bind_eq_bind, bind_eq_some_iff] at h
  obtain ⟨addr, -, inst, hinst, h⟩ := h
  obtain rfl := some.inj h
  rw [length_append, length_toLE, hwrite m.2 inst hinst]

/-- The table that is written for markers in order. -/
lemma writeRanges_spec [DecidableEq T] {ms : List (ℕ × T)} (hms : ms.Pairwise (Precedes null))
    (hkernel : ∀ m ∈ ms, linkBase ≤ m.1 ∧ m.1 < usizeBound)
    (hwrite : ∀ m ∈ ms, ∃ bs, write m.2 = some bs) :
    ∃ es parts, filterRanges null ms = some es ∧ es.mapM (writeMarker write) = some parts ∧
      writeRanges null write ms = some parts.flatten ∧ (es.Pairwise fun x y => x.1 < y.1) ∧
      (∀ m ∈ es, m ∈ ms) ∧ ∀ v a, stepValue v es a = stepValue v ms a := by
  obtain ⟨es, hes, hsorted, hmem, hstep⟩ := filterRanges_spec hms
  have hall : ∀ m ∈ es, ∃ bs, writeMarker write m = some bs := by
    intro m hm
    obtain ⟨bs, hbs⟩ := hwrite m (hmem m hm)
    exact ⟨toLE 4 (m.1 - linkBase) ++ bs, by rw [writeMarker_eq (hkernel m (hmem m hm)), hbs]; rfl⟩
  obtain ⟨parts, hparts⟩ := exists_mapM hall
  refine ⟨es, parts, hes, hparts, ?_, hsorted, hmem, hstep⟩
  have hpos : ∀ m ∈ es, 0 < m.1 := fun m hm =>
    (show 0 < linkBase by decide).trans_le (hkernel m (hmem m hm)).1
  rw [writeRanges, hes, bind_eq_bind, bind_some, writeMarkers_eq hsorted hpos, hparts]
  rfl

/-- The marker is at or below the address, and in the balanced search tree over the table it is the
root of a subtree to which the address belongs, by the number of markers at or below it. -/
def OnPath (es : List (ℕ × T)) (addr : ℕ) (m : ℕ × T) : Prop :=
  m.1 ≤ addr ∧ ∃ lo hi, Halved 0 es.length lo hi ∧ lo < hi ∧ lo ≤ rank es addr ∧ rank es addr ≤ hi ∧
    es[lo + (hi - lo) / 2]? = some m

/-- A search meets the markers on the path of the address. -/
lemma onPath_iff (hes : es.Pairwise fun x y => x.1 < y.1) {addr : ℕ} :
    OnPath es addr m ↔ ∃ k ∈ probes (rank es addr) es.length 0 es.length, es[k]? = some m := by
  simp only [mem_probes_iff (Nat.zero_le _) (rank_le_length es addr) (Nat.sub_le es.length 0)]
  constructor
  · rintro ⟨hle, lo, hi, hhalf, hlt, hlo, hhi, hm⟩
    exact ⟨_, ⟨(getElem?_le_iff hes hm).mp hle, lo, hi, hhalf, hlt, hlo, hhi, rfl⟩, hm⟩
  · rintro ⟨k, ⟨hk, lo, hi, hhalf, hlt, hlo, hhi, rfl⟩, hm⟩
    exact ⟨(getElem?_le_iff hes hm).mpr hk, lo, hi, hhalf, hlt, hlo, hhi, hm⟩

/-- The last position that is met has the value of the step function. -/
lemma getLast?_probes (hes : es.Pairwise fun x y => x.1 < y.1) (addr : ℕ) :
    (probes (rank es addr) es.length 0 es.length = [] ∧ stepValue null es addr = null) ∨
      ∃ k m, (probes (rank es addr) es.length 0 es.length).getLast? = some k ∧ es[k]? = some m ∧
        stepValue null es addr = m.2 := by
  rcases stepValue_eq_rank hes null addr with ⟨hrank, hv⟩ | ⟨m, hm, hpos, hv⟩
  · exact .inl ⟨by rw [hrank]; exact probes_eq_nil le_rfl, hv⟩
  · exact .inr ⟨_, m, probes_getLast? hpos (rank_le_length es addr) le_rfl, hm, hv⟩

end

namespace DebugModuleFileWriter

variable {w : DebugModuleFileWriter} {F L G : List UInt8} {data : List UInt8}

/-- `write` returns if all sections can be written. -/
lemma write_eq_some : w.write = some data ↔
    ∃ F L G, w.functionBytes = some F ∧ w.locationBytes = some L ∧ w.functionSearchBytes = some G ∧
      data = toLE 8 0 ++ (sized (buffer w.strings.entries) ++
        (sized F ++ (sized L ++ sized G))) := by
  simp only [write, bind_eq_bind, bind_eq_some_iff, Option.pure_def, Option.some.injEq]
  constructor
  · rintro ⟨F, hF, L, hL, G, hG, rfl⟩
    exact ⟨F, L, G, hF, hL, hG, rfl⟩
  · rintro ⟨F, L, G, hF, hL, hG, rfl⟩
    exact ⟨F, hF, L, hL, G, hG, rfl⟩

/-- The kernel finds the sections in what `write` returns. -/
lemma parse_write (hdata : w.write = some data) (hfits : data.length < usizeBound) :
    ∃ F L G t, w.functionBytes = some F ∧ w.locationBytes = some L ∧
    w.functionSearchBytes = some G ∧
      parse data = .ok t ∧ t.Holds (buffer w.strings.entries) F L G := by
  obtain ⟨F, L, G, hF, hL, hG, hlayout⟩ := write_eq_some.mp hdata
  have hsize : F.length % functionEntrySize = 0 := by
    obtain ⟨parts, hparts, rfl⟩ := map_eq_some_iff.mp hF
    rw [length_flatten_of_mapM length_function_write hparts, Nat.mul_mod_left]
  obtain ⟨t, ht, hholds⟩ := parse_holds hfits hlayout hsize
  exact ⟨F, L, G, t, hF, hL, hG, ht, hholds⟩

/-! ## Functions -/

/-- The functions that are searched: intervals in the kernel that are not empty and do not overlap,
and every function with a name and a source location. -/
structure SearchableFunctions (w : DebugModuleFileWriter) : Prop where
  nonempty : ∀ e ∈ w.functionSearch.entries, e.start < e.stop
  disjoint : ∀ e ∈ w.functionSearch.entries, ∀ e' ∈ w.functionSearch.entries, ∀ k,
    e.Contains k → e'.Contains k → e = e'
  kernel : ∀ e ∈ w.functionSearch.entries, linkBase ≤ e.start ∧ e.stop < usizeBound
  known : ∀ e ∈ w.functionSearch.entries, ∃ f, w.functions[e.value]? = some f
  named : ∀ f ∈ w.functions, ∃ name, w.strings.entries[f.name]? = some name ∧ NulFree name
  located : ∀ f ∈ w.functions, ∃ file, w.strings.entries[f.location.file]? = some file

/-- The intervals of functions as sequences of one row each. -/
def functionSequences (w : DebugModuleFileWriter) : List (Interval (List (ℕ × ℕ))) :=
  w.functionSearch.entries.map fun e => ⟨e.start, e.stop, [(e.start, e.value)]⟩

lemma functionMarkers_eq (w : DebugModuleFileWriter) :
    w.functionMarkers = markers usizeMax w.functionSequences := by
  rw [functionMarkers, markers, functionSequences, flatMap_map]
  rfl

lemma SearchableFunctions.sequences (hw : w.SearchableFunctions) :
    Sequences w.functionSequences := by
  refine .singles hw.nonempty ((List.Pairwise.and_mem.mp w.functionSearch.sorted).imp ?_)
  rintro a b ⟨ha, hb, hlt⟩
  -- an overlap would be one of the start of the second interval
  by_contra hstop
  rw [not_le] at hstop
  have heq := hw.disjoint a ha b hb b.start ⟨hlt.le, hstop⟩ ⟨le_rfl, hw.nonempty b hb⟩
  rw [heq] at hlt
  exact lt_irrefl _ hlt

/-- The table of functions in the module. -/
def functionTable (w : DebugModuleFileWriter) : List (ℕ × ℕ) :=
  (filterRanges usizeMax w.functionMarkers).getD []

/-- What the kernel knows about the table of functions. -/
structure FunctionTable (w : DebugModuleFileWriter) (es : List (ℕ × ℕ))
    (parts : List (List UInt8)) : Prop where
  table : w.functionTable = es
  written : es.mapM (writeMarker (writeUsize w.strings.resolve)) = some parts
  increasing : es.Pairwise fun x y => x.1 < y.1
  kernel : ∀ m ∈ es, linkBase ≤ m.1 ∧ m.1 < usizeBound
  known : ∀ m ∈ es, m.2 = usizeMax ∨ ∃ f, w.functions[m.2]? = some f
  contains : ∀ e ∈ w.functionSearch.entries, ∀ a, e.Contains a → stepValue usizeMax es a = e.value

/-- The table of functions can be written. -/
lemma SearchableFunctions.table (hw : w.SearchableFunctions) :
    ∃ es parts, w.functionSearchBytes = some parts.flatten ∧ w.FunctionTable es parts := by
  have hmarkers : ∀ m ∈ w.functionMarkers, ∃ e ∈ w.functionSearch.entries,
      m = (e.start, e.value) ∨ m = (e.stop, usizeMax) := by
    intro m hm
    obtain ⟨e, he, hm⟩ := mem_flatMap.mp hm
    exact ⟨e, he, by simpa using hm⟩
  have hkernel : ∀ m ∈ w.functionMarkers, linkBase ≤ m.1 ∧ m.1 < usizeBound := by
    intro m hm
    obtain ⟨e, he, hm⟩ := hmarkers m hm
    have hbound := hw.kernel e he
    have hlt := hw.nonempty e he
    rcases hm with rfl | rfl
    · exact ⟨hbound.1, hlt.trans hbound.2⟩
    · exact ⟨hbound.1.trans hlt.le, hbound.2⟩
  have hprecedes : w.functionMarkers.Pairwise (Precedes usizeMax) := by
    rw [functionMarkers_eq]
    exact hw.sequences.precedes
  have hwrite : ∀ m ∈ w.functionMarkers, ∃ bs, writeUsize w.strings.resolve m.2 = some bs :=
    fun m _ => ⟨_, rfl⟩
  obtain ⟨es, parts, hfilter, hparts, hbytes, hsorted, hmem, hstep⟩ :=
    writeRanges_spec hprecedes hkernel hwrite
  refine ⟨es, parts, hbytes, ?_, hparts, hsorted, fun m hm => hkernel m (hmem m hm), fun m hm => ?_,
    fun e he a ha => ?_⟩
  · rw [functionTable, hfilter]
    rfl
  · obtain ⟨e, he, hm⟩ := hmarkers m (hmem m hm)
    rcases hm with rfl | rfl
    · exact .inr (hw.known e he)
    · exact .inl rfl
  · have hseq : (⟨e.start, e.stop, [(e.start, e.value)]⟩ : Interval (List (ℕ × ℕ))) ∈
      w.functionSequences :=
      mem_map_of_mem he
    rw [hstep, functionMarkers_eq, hw.sequences.stepValue_of_contains hseq ha,
      stepValue_cons, if_pos ha.1]
    rfl

section

variable {t : SymbolTable} {S : List UInt8} {es : List (ℕ × ℕ)} {parts : List (List UInt8)}
  {addr : ℕ} {m : ℕ × ℕ}
  {l : List ℕ}

/-- A marker of the table of functions has twelve bytes. -/
lemma length_functionMarker (resolve : ℕ → Option ℕ) (m : ℕ × ℕ) (bs : List UInt8)
    (h : writeMarker (writeUsize resolve) m = some bs) : bs.length = 4 + 8 := by
  refine length_writeMarker (fun x bs hbs => ?_) m bs h
  cases hbs
  exact length_toLE 8 x

/-- What the search does with a marker at or below the address. -/
def keepFunction (es : List (ℕ × ℕ)) (best : Option ℕ) (k : ℕ) : Option ℕ :=
  match es[k]? with
  | some m => if m.2 ≠ usizeMax then some m.2 else best
  | none => best

section

variable (htable : w.FunctionTable es parts)
include htable

/-- The functions of a table have indices that are not `usize::MAX`. -/
lemma FunctionTable.value_lt (hlen : w.functions.length < usizeMax) (hm : m ∈ es) :
    m.2 < usizeBound := by
  rcases htable.known m hm with h | ⟨f, hf⟩
  · rw [h]
    decide
  · have := (List.getElem?_eq_some_iff.mp hf).1
    simp only [usizeMax] at hlen
    omega

/-- One round of the search reads the marker at its position. -/
lemma FunctionTable.lookFunction (h : t.Holds S F L parts.flatten)
    (hlen : w.functions.length < usizeMax) (haddr : kernelBase ≤ addr) {k : ℕ}
    (hk : es[k]? = some m) (best : Option ℕ) :
    t.lookFunction (addr - kernelBase) k best =
      .ok (if m.1 ≤ addr then some (if m.2 ≠ usizeMax then some m.2 else best) else none) := by
  have hfits := h.fits
  have hm := mem_of_getElem? hk
  have hkernel := htable.kernel m hm
  have hvalue := htable.value_lt hlen hm
  obtain ⟨bs, hbs, hloc⟩ := h.functionSearch.record (length_functionMarker _) htable.written hk
  rw [writeMarker_eq hkernel] at hbs
  cases hbs
  have hend := hloc.le_length
  have hright := hloc.right
  simp only [length_append, length_toLE] at hend hright
  have hoffset : m.1 - linkBase < 256 ^ 4 := by
    simp only [usizeBound, linkBase] at hkernel ⊢
    omega
  have hpos : wadd t.functionSearchOffset (wmul k 12) = t.functionSearchOffset + k * (4 + 8) := by
    rw [wmul_eq (by omega), wadd_eq (by omega)]
  have hadd : ∀ j ≤ 12, wadd (t.functionSearchOffset + k * (4 + 8)) j = t.functionSearchOffset + k *
    (4 + 8) + j :=
    fun j hj => wadd_eq (by omega)
  have hin : ¬t.data.length < t.functionSearchOffset + k * (4 + 8) + 12 := by omega
  have hle : m.1 - linkBase ≤ addr - kernelBase ↔ m.1 ≤ addr := by
    have hbase : linkBase = kernelBase := rfl
    omega
  simp only [SymbolTable.lookFunction, hpos, hadd 12 le_rfl, if_neg hin,
    readAt_toLE hfits hloc.left hoffset,
    hadd 4 (by decide), readAt_toLE hfits hright hvalue, bind, Except.bind, hle]
  by_cases hm : m.1 ≤ addr
  · rw [if_pos hm, if_pos hm]
    rfl
  · rw [if_neg hm, if_neg hm]
    rfl

/-- The search of `lookup` keeps the last function that it meets. -/
lemma FunctionTable.search (h : t.Holds S F L parts.flatten)
    (hlen : w.functions.length < usizeMax) (haddr : kernelBase ≤ addr) :
    binarySearch (t.lookFunction (addr - kernelBase))
      (t.functionSearchLen / 12) 0 (t.functionSearchLen / 12) none =
        .ok ((probes (rank es addr) es.length 0 es.length).foldl (keepFunction es) none) := by
  have hn : t.functionSearchLen / 12 = es.length := by
    rw [h.functionSearchLen, length_flatten_of_mapM (length_functionMarker _) htable.written]
    exact Nat.mul_div_cancel _ (by decide)
  rw [hn, ← foldlM_ok]
  refine binarySearch_eq _ _ _ _ (fun k b hk hrank => ?_) fun k b hk hrank => ?_
  · have hget := getElem?_eq_getElem hk
    have hle := (getElem?_le_iff htable.increasing hget).mpr hrank
    rw [htable.lookFunction h hlen haddr hget, if_pos hle, keepFunction, hget]
    rfl
  · have hget := getElem?_eq_getElem hk
    have hlt : ¬es[k].1 ≤ addr := fun hle =>
      absurd ((getElem?_le_iff htable.increasing hget).mp hle) (by omega)
    rw [htable.lookFunction h hlen haddr hget, if_neg hlt]

end

/-- A function that is met last is kept. -/
lemma foldl_keepFunction_of_last {k : ℕ} (hlast : l.getLast? = some k)
    (hk : es[k]? = some m) (hm : m.2 ≠ usizeMax) : l.foldl (keepFunction es) none = some m.2 := by
  obtain ⟨l', rfl⟩ := getLast?_eq_some_iff.mp hlast
  rw [foldl_append, foldl_cons, foldl_nil, keepFunction, hk]
  exact if_pos hm

/-- No function is kept exactly if only null markers are met. -/
lemma foldl_keepFunction_eq_none (best : Option ℕ) : l.foldl (keepFunction es) best = none ↔
    best = none ∧ ∀ k ∈ l, ∀ m, es[k]? = some m → m.2 = usizeMax := by
  induction l generalizing best with
  | nil => simp
  | cons k l ih =>
    rw [foldl_cons, ih, forall_mem_cons, ← and_assoc]
    refine and_congr_left' ?_
    rw [keepFunction]
    cases hk : es[k]? with
    | none => simp
    | some m => by_cases hm : m.2 = usizeMax <;> simp [hm]

/-- What is kept is a function of the table. -/
lemma foldl_keepFunction_mem {best : Option ℕ} {v : ℕ}
    (h : l.foldl (keepFunction es) best = some v) :
    best = some v ∨ ∃ m ∈ es, m.2 = v ∧ v ≠ usizeMax := by
  induction l generalizing best with
  | nil => exact .inl h
  | cons k l ih =>
    refine (ih h).elim (fun hkeep => ?_) .inr
    rw [keepFunction] at hkeep
    split at hkeep
    · rename_i m hm
      split_ifs at hkeep with hne
      · cases hkeep
        exact .inr ⟨m, mem_of_getElem? hm, rfl, hne⟩
      · exact .inl hkeep
    · exact .inl hkeep

/-- In the kernel, `lookup` is the search followed by `get_function`. -/
lemma lookup_eq (t : SymbolTable) {best : Option ℕ} (hlow : kernelBase ≤ addr)
    (hhigh : addr < usizeBound)
    (hsearch : binarySearch (t.lookFunction (addr - kernelBase)) (t.functionSearchLen / 12) 0
      (t.functionSearchLen / 12) none = .ok best) :
    t.lookup addr = best.elim (.error .none) t.getFunction := by
  have h32 : ¬2 ^ 32 - 1 < addr - kernelBase := by
    simp only [usizeBound, kernelBase] at hhigh ⊢
    omega
  simp only [SymbolTable.lookup, if_neg (Nat.not_lt.mpr hlow), if_neg h32, bind,
    Except.bind, hsearch]
  cases best with
  | none => rfl
  | some idx => rfl

/-- The indices of functions are below `usize::MAX`. -/
lemma functions_length_lt (h : t.Holds S F L G) (hF : w.functionBytes = some F) :
    w.functions.length < usizeMax := by
  obtain ⟨parts, hparts, rfl⟩ := map_eq_some_iff.mp hF
  have hsize := length_flatten_of_mapM length_function_write hparts
  have hle := h.functions.le_length
  have hfits := h.fits
  simp only [usizeMax, functionEntrySize, usizeBound] at hsize hfits ⊢
  omega

/-- `get_function` returns the functions that can be searched. -/
lemma SearchableFunctions.getFunction (hw : w.SearchableFunctions)
    (h : t.Holds (buffer w.strings.entries) F L G)
    (hF : w.functionBytes = some F) {i : ℕ} {f : FunctionEntry} (hf : w.functions[i]? = some f) :
    ∃ name sym, w.strings.entries[f.name]? = some name ∧ t.getFunction i = .ok sym ∧
    sym.name = name := by
  have hmem := mem_of_getElem? hf
  obtain ⟨name, hname, hnul⟩ := hw.named f hmem
  obtain ⟨file, hfile⟩ := hw.located f hmem
  obtain ⟨sym, hsym, hsymName, -⟩ := h.getFunction hF hf hname hfile
  exact ⟨name, sym, hname, hsym, by rw [hsymName, cString_eq_self_iff.mpr hnul]⟩

/-- The search finds the function whose interval contains the address. -/
lemma FunctionTable.lookup_of_contains (hw : w.SearchableFunctions)
    (htable : w.FunctionTable es parts)
    (h : t.Holds S F L parts.flatten) (hlen : w.functions.length < usizeMax)
    (haddr : addr < usizeBound)
    {e : Interval ℕ} (he : e ∈ w.functionSearch.entries) (ha : e.Contains addr) :
    t.lookup addr = t.getFunction e.value := by
  have hlow : kernelBase ≤ addr := (hw.kernel e he).1.trans ha.1
  have hvalue := htable.contains e he addr ha
  obtain ⟨f, hf⟩ := hw.known e he
  have hlt := (List.getElem?_eq_some_iff.mp hf).1
  rcases getLast?_probes htable.increasing addr with ⟨-, hnull⟩ | ⟨k, m, hlast, hk, hm⟩
  · rw [hvalue] at hnull
    omega
  · have hne : m.2 ≠ usizeMax := by
      rw [← hm, hvalue]
      omega
    have hsearch := htable.search h hlen hlow
    rw [foldl_keepFunction_of_last hlast hk hne, ← hm, hvalue] at hsearch
    rw [lookup_eq t hlow haddr hsearch, elim_some]

/-- `lookup` returns `None` exactly if no function is on the path of the address. -/
lemma FunctionTable.lookup_eq_none_iff (hw : w.SearchableFunctions)
    (htable : w.FunctionTable es parts)
    (h : t.Holds (buffer w.strings.entries) F L parts.flatten) (hF : w.functionBytes = some F)
    (haddr : addr < usizeBound) :
    t.lookup addr = .error .none ↔ ∀ m, OnPath es addr m → m.2 = usizeMax := by
  have hlen := functions_length_lt h hF
  by_cases hlow : kernelBase ≤ addr
  · have hnull : (∀ m, OnPath es addr m → m.2 = usizeMax) ↔
        (probes (rank es addr) es.length 0 es.length).foldl (keepFunction es) none = none := by
      simp only [foldl_keepFunction_eq_none, true_and, onPath_iff htable.increasing,
        forall_exists_index, and_imp]
      exact forall_comm.trans (forall_congr' fun k => forall_comm)
    rw [hnull, lookup_eq t hlow haddr (htable.search h hlen hlow)]
    cases hfold : (probes (rank es addr) es.length 0 es.length).foldl (keepFunction es) none with
    | none => exact iff_of_true rfl rfl
    | some v =>
      -- the function that was met is returned
      obtain ⟨m, hm, rfl, hne⟩ := (foldl_keepFunction_mem hfold).resolve_left (by simp)
      obtain ⟨f, hf⟩ := (htable.known m hm).resolve_left hne
      obtain ⟨name, sym, -, hsym, -⟩ := hw.getFunction h hF hf
      rw [elim_some, hsym]
      simp
  · refine iff_of_true ?_ fun m hm => ?_
    · rw [SymbolTable.lookup, if_pos (Nat.not_le.mp hlow)]
      rfl
    · obtain ⟨hle, lo, hi, -, -, -, -, hget⟩ := hm
      have := (htable.kernel m (mem_of_getElem? hget)).1
      have hbase : linkBase = kernelBase := rfl
      omega

/-- **`lookup` finds the function of an address.**  If the functions lie in disjoint intervals of
the kernel and have names and locations, the module that is written is parsed, and `lookup` returns
the function whose interval contains the address.  Where no interval does, it returns `None` exactly
if there are only null markers on the path of the address in the balanced search tree over the
table. -/
theorem lookup_finds (w : DebugModuleFileWriter) (hw : w.SearchableFunctions) (data : List UInt8)
    (hdata : w.write = some data) (hfits : data.length < usizeBound) (addr : ℕ)
    (haddr : addr < usizeBound) :
    ∃ t, SymbolTable.parse data = .ok t ∧
      (((∀ e ∈ w.functionSearch.entries, e.Contains addr → ∃ f name sym,
        w.functions[e.value]? = some f ∧
          w.strings.entries[f.name]? = some name ∧ t.lookup addr = .ok sym ∧ sym.name = name) ∧
        ((∀ e ∈ w.functionSearch.entries, ¬e.Contains addr) → t.lookup addr = .error .none)) ↔
      ((∃ e ∈ w.functionSearch.entries, e.Contains addr) ∨
        ∀ m, OnPath w.functionTable addr m → m.2 = usizeMax)) := by
  obtain ⟨F, L, G, t, hF, -, hG, hparse, hholds⟩ := parse_write hdata hfits
  obtain ⟨es, parts, hparts, htable⟩ := hw.table
  obtain rfl : parts.flatten = G := some.inj (hparts.symm.trans hG)
  have hlen := functions_length_lt hholds hF
  rw [htable.table, ← htable.lookup_eq_none_iff hw hholds hF haddr]
  refine ⟨t, hparse, fun ⟨_, hout⟩ => ?_, fun hpath => ⟨fun e he ha => ?_, fun hout => ?_⟩⟩
  · by_cases hin : ∃ e ∈ w.functionSearch.entries, e.Contains addr
    · exact .inl hin
    · exact .inr (hout fun e he ha => hin ⟨e, he, ha⟩)
  · obtain ⟨f, hf⟩ := hw.known e he
    obtain ⟨name, sym, hname, hsym, hsymName⟩ := hw.getFunction hholds hF hf
    exact ⟨f, name, sym, hf, hname,
      by rw [htable.lookup_of_contains hw hholds hlen haddr he ha, hsym], hsymName⟩
  · exact hpath.resolve_left fun ⟨e, he, ha⟩ => hout e he ha

end

/-- Two functions with a gap between them. -/
def twoFunctions : DebugModuleFileWriter where
  strings := ⟨["f", "g", "a.rs"]⟩
  functions := [⟨usizeMax, 0, ⟨2, 1, 1⟩⟩, ⟨usizeMax, 1, ⟨2, 9, 1⟩⟩]
  locationSearch := .new
  functionSearch :=
    ⟨[⟨linkBase + 0x100, linkBase + 0x200, 0⟩, ⟨linkBase + 0x300, linkBase + 0x400, 1⟩], by decide⟩

/-- The two functions can be searched. -/
lemma twoFunctions_searchable : twoFunctions.SearchableFunctions where
  nonempty := by decide
  disjoint := by
    intro e he e' he' k hk hk'
    simp only [twoFunctions, mem_cons, not_mem_nil, or_false] at he he'
    obtain ⟨hlow, hhigh⟩ := hk
    obtain ⟨hlow', hhigh'⟩ := hk'
    rcases he with rfl | rfl <;> rcases he' with rfl | rfl
    · rfl
    · exact absurd (hlow'.trans_lt hhigh) (by decide)
    · exact absurd (hlow.trans_lt hhigh') (by decide)
    · rfl
  kernel := by decide
  known := by
    intro e he
    simp only [twoFunctions, mem_cons, not_mem_nil, or_false] at he
    rcases he with rfl | rfl
    · exact ⟨_, rfl⟩
    · exact ⟨_, rfl⟩
  named := by
    intro f hf
    simp only [twoFunctions, mem_cons, not_mem_nil, or_false] at hf
    rcases hf with rfl | rfl
    · exact ⟨"f", rfl, by decide⟩
    · exact ⟨"g", rfl, by decide⟩
  located := by
    intro f hf
    simp only [twoFunctions, mem_cons, not_mem_nil, or_false] at hf
    rcases hf with rfl | rfl
    · exact ⟨"a.rs", rfl⟩
    · exact ⟨"a.rs", rfl⟩

lemma twoFunctions_write : twoFunctions.write = some (twoFunctions.write.getD []) := by
  decide +kernel

/-- In the gap between the two functions `lookup` finds nothing, and in the second function it finds
it. -/
theorem lookup_finds_gap : ∃ data t, twoFunctions.write = some data ∧
    SymbolTable.parse data = .ok t ∧
    t.lookup (linkBase + 0x250) = .error .none ∧ ∃ sym, t.lookup (linkBase + 0x350) = .ok sym ∧
    sym.name = "g" := by
  obtain ⟨t, ht, hgap⟩ := lookup_finds twoFunctions twoFunctions_searchable _ twoFunctions_write
    (by decide +kernel) (linkBase + 0x250) (by decide)
  obtain ⟨t', ht', hin⟩ := lookup_finds twoFunctions twoFunctions_searchable _ twoFunctions_write
    (by decide +kernel) (linkBase + 0x350) (by decide)
  obtain rfl : t = t' := Except.ok.inj (ht.symm.trans ht')
  have hnull : ∀ m, OnPath twoFunctions.functionTable (linkBase + 0x250) m → m.2 = usizeMax := by
    intro m hm
    obtain ⟨k, hk, hget⟩ := (onPath_iff (by decide)).mp hm
    have hprobes : probes (rank twoFunctions.functionTable (linkBase + 0x250))
      twoFunctions.functionTable.length 0
        twoFunctions.functionTable.length = [1] := by decide
    rw [hprobes, mem_singleton] at hk
    subst hk
    cases hget
    rfl
  obtain ⟨f, name, sym, hf, hname, hlookup, hsym⟩ := (hin.mpr (.inl (by decide))).1
    ⟨linkBase + 0x300, linkBase + 0x400, 1⟩ (by decide) (by decide)
  cases hf
  cases hname
  exact ⟨_, t, twoFunctions_write, ht, (hgap.mpr (.inr hnull)).2 (by decide), sym, hlookup, hsym⟩

/-- Behind the last function `lookup` returns it: the search has met the function before the null
marker at its end. -/
theorem lookup_behind_last : twoFunctions.SearchableFunctions ∧
    (∀ e ∈ twoFunctions.functionSearch.entries, ¬e.Contains (linkBase + 0x500)) ∧
    ∃ data, twoFunctions.write = some data ∧
      (SymbolTable.parse data).bind (·.lookup (linkBase + 0x500)) =
        .ok ⟨"g", none, some ⟨"a.rs", 9, 1⟩⟩ :=
  ⟨twoFunctions_searchable, by decide, _, twoFunctions_write, by decide +kernel⟩

end DebugModuleFileWriter

end CabOS.Debug
