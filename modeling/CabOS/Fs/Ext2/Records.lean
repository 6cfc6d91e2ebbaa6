import CabOS.Fs.Ext2.Image

/-!
# Records of directories

A directory is read by scans that go from one record to the next.  `RecordOk` is what a scan asks of
a record so that it can read it, and the lemmas on rounds say what a scan does with such a record.
A scan keeps the block that it has fetched last, and as long as nobody writes this is the block that
it would fetch again (`Fetched`).
-/

namespace CabOS.Ext2

/-! ## Fields -/

/-- The inode of a record. -/
def inodeAt (b : Memory) (offset : ℕ) : ℕ := readLE b offset 4

/-- The number of bytes up to the next record. -/
def recLenAt (b : Memory) (offset : ℕ) : ℕ := readLE b (offset + 4) 2

/-- The length of the name of a record. -/
def nameLenAt (b : Memory) (offset : ℕ) : ℕ := readLE b (offset + 6) 1

/-- The name of a record. -/
def nameAt (b : Memory) (offset : ℕ) : List UInt8 := flatRead b (offset + 8) (nameLenAt b offset)

/-- The header of a record is inside its block, and so is its name, if the record is in use; then
the name is a text. -/
structure RecordOk (sb : Superblock) (b : Memory) (offset : ℕ) : Prop where
  header : offset + 8 ≤ sb.blockSize
  name : inodeAt b offset ≠ 0 →
    offset + 8 + nameLenAt b offset ≤ sb.blockSize ∧ validUtf8 (nameAt b offset) = true

/-- The record is in use and has the name. -/
def Matches (b : Memory) (offset : ℕ) (name : Name) : Prop :=
  inodeAt b offset ≠ 0 ∧ nameAt b offset = name.bytes

/-! ## Rounds of a scan -/

section

variable {sb : Superblock} {m : State} {inode : INode} {s : Scan} {b : Memory} {name : Name}
  {fuel : ℕ} {offset : ℕ}

/-- The block that a scan keeps is the one that it would fetch. -/
def Fetched (sb : Superblock) (m : State) (inode : INode) (s : Scan) : Prop :=
  s.pointer / sb.blockSize = s.lastFetchedBlock →
    (FNode.readBlock sb (s.pointer / sb.blockSize) inode).run m = .ok s.buffer m

lemma fetched_start : Fetched sb m inode .start := by
  intro h
  have hzero : Scan.start.pointer / sb.blockSize = 0 := Nat.zero_div _
  rw [hzero] at h
  cases h

/-- Behind a record a scan keeps the block of the record. -/
lemma fetched_next (h : (FNode.readBlock sb (s.pointer / sb.blockSize) inode).run m = .ok b m)
    (p : ℕ) :
    Fetched sb m inode ⟨p, s.pointer / sb.blockSize, b⟩ := by
  intro heq
  dsimp only at heq ⊢
  rw [heq]
  exact h

lemma run_fetch (hs : Fetched sb m inode s) :
    (fetch sb inode s).run m = (FNode.readBlock sb (s.pointer / sb.blockSize) inode).run m := by
  rw [fetch]
  by_cases h : s.pointer / sb.blockSize = s.lastFetchedBlock
  · rw [if_neg (not_not.mpr h), hs h]
    rfl
  · rw [if_pos h]

section

variable (h : offset + 8 ≤ sb.blockSize)
include h

lemma run_inodeAt : (field sb b offset 4).run m = .ok (inodeAt b offset) m := run_field (by omega)

lemma run_recLenAt : (field sb b (offset + 4) 2).run m = .ok (recLenAt b offset) m :=
  run_field (by omega)

lemma run_nameLenAt : (field sb b (offset + 6) 1).run m = .ok (nameLenAt b offset) m :=
  run_field (by omega)

end

/-- The name of a record that a scan can read. -/
lemma run_textField (h : RecordOk sb b offset) (hused : inodeAt b offset ≠ 0) :
    (textField sb b (offset + 8) (nameLenAt b offset)).run m = .ok (nameAt b offset) m := by
  obtain ⟨hfits, hvalid⟩ := h.name hused
  rw [textField, if_pos hfits]
  change (if validUtf8 (nameAt b offset) = true then pure (nameAt b offset) else panic :
    FsProg _).run m = _
  rw [if_pos hvalid]
  rfl

/-- A round of `search`: the record has the name, or the search goes on behind it. -/
lemma searchScan_round (hp : s.pointer < inode.data.fileSize) (h4 : s.pointer % 4 = 0)
    (hfetch : (fetch sb inode s).run m = .ok b m) (hb : RecordOk sb b (s.pointer % sb.blockSize)) :
    (Matches b (s.pointer % sb.blockSize) name → (searchScan sb inode name (fuel + 1) s).run m =
      (getFnode sb (inodeAt b (s.pointer % sb.blockSize))).run m) ∧
    (¬Matches b (s.pointer % sb.blockSize) name → (searchScan sb inode name (fuel + 1) s).run m =
      (searchScan sb inode name fuel
        ⟨s.pointer + recLenAt b (s.pointer % sb.blockSize), s.pointer / sb.blockSize,
          b⟩).run m) := by
  rw [searchScan, if_pos hp, if_neg (not_not.mpr h4), Prog.run_bind_ok hfetch]
  dsimp only
  rw [Prog.run_bind_ok (run_inodeAt hb.header), Prog.run_bind_ok (run_recLenAt hb.header),
    Prog.run_bind_ok (run_nameLenAt hb.header)]
  by_cases hused : inodeAt b (s.pointer % sb.blockSize) ≠ 0
  · rw [if_pos hused, Prog.run_bind_ok (run_textField hb hused)]
    exact ⟨fun h => by rw [if_pos h.2], fun h => by rw [if_neg fun hname => h ⟨hused, hname⟩]⟩
  · rw [if_neg hused]
    exact ⟨fun h => absurd h.1 hused, fun _ => rfl⟩

lemma run_field_outside {n : ℕ} (h : ¬offset + n ≤ sb.blockSize) :
    (field sb b offset n).run m = .error .panic m := by
  rw [field, if_neg h]
  rfl

lemma run_textField_bad {n : ℕ}
    (h : ¬(offset + n ≤ sb.blockSize ∧ validUtf8 (flatRead b offset n) = true)) :
    (textField sb b offset n).run m = .error .panic m := by
  rw [textField]
  split_ifs with hfits
  · simp only [show ¬validUtf8 (flatRead b offset n) = true from fun hvalid => h ⟨hfits, hvalid⟩]
    rfl
  · rfl

/-- A round that does not panic has come to a record that can be read. -/
lemma recordOk_of_round (hp : s.pointer < inode.data.fileSize) (h4 : s.pointer % 4 = 0)
    (hfetch : (fetch sb inode s).run m = .ok b m)
    (hrun : (searchScan sb inode name (fuel + 1) s).run m ≠ .error .panic m) :
    RecordOk sb b (s.pointer % sb.blockSize) := by
  rw [searchScan, if_pos hp, if_neg (not_not.mpr h4), Prog.run_bind_ok hfetch] at hrun
  dsimp only at hrun
  have hheader : s.pointer % sb.blockSize + 8 ≤ sb.blockSize := by
    by_contra hout
    -- a record starts at a multiple of four, so one of its first fields is outside
    have hmod : s.pointer % sb.blockSize % 4 = 0 := by
      have hsize : 4 ∣ sb.blockSize := by
        rcases sb.blockSize_cases with h | h | h <;> rw [h] <;> decide
      rw [Nat.mod_mod_of_dvd _ hsize, h4]
    have hsize : sb.blockSize % 4 = 0 := by rcases sb.blockSize_cases with h | h | h <;> rw [h]
    refine hrun ?_
    by_cases hfour : s.pointer % sb.blockSize + 4 ≤ sb.blockSize
    · rw [Prog.run_bind_ok (run_field hfour), Prog.run_bind_error (run_field_outside (by omega))]
    · rw [Prog.run_bind_error (run_field_outside hfour)]
  refine ⟨hheader, fun hused => ?_⟩
  rw [Prog.run_bind_ok (run_inodeAt hheader), Prog.run_bind_ok (run_recLenAt hheader),
    Prog.run_bind_ok (run_nameLenAt hheader), if_pos hused] at hrun
  by_contra hbad
  exact hrun (Prog.run_bind_error (run_textField_bad hbad))

/-- At the end a search has found nothing. -/
lemma searchScan_end (hp : inode.data.fileSize ≤ s.pointer) :
    (searchScan sb inode name (fuel + 1) s).run m = .error (.err .notFound) m := by
  rw [searchScan, if_neg (by omega)]
  rfl

end

end CabOS.Ext2
