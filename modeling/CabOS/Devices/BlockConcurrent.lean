import CabOS.Devices.BlockTransfer
import CabOS.Library.Run
import CabOS.Library.Threads

/-!
# Concurrent writes to a block device

A driver transfers one block at a time, and each transfer is atomic.  The provided `write` of the
block device trait is then a program whose steps are single-block transfers: a store for each full
block, and a load and a store for a partial first and a partial last block (`writeTransfers`).
Nothing is locked between that load and that store.

A call that runs alone is the `write` of a device that transfers block by block
(`run_writeTransfers`). Several calls on disjoint byte ranges run together.  If no call loads a
block while another one is about to store that block, then at the end all ranges are written and
nothing else has changed (`concurrent_writes`).  Without that condition the bytes of a finished call
can be lost (`concurrent_writes_lost`).
-/

namespace CabOS.BlockDevice

open Function List Nat CabOS.Span Prog Threads

/-- A program whose steps are transfers of single blocks. -/
abbrev TransferProg := Prog ℕ (fun _ => List UInt8) Empty BlockDeviceError

/-- The loop of `writeBlocks`, for a device with `n` blocks of `bs` bytes. -/
def transferLoop (bs n : ℕ) : List ℕ → List (List UInt8) → TransferProg Unit
  | idx :: idxs, buf :: bufs => do
    if buf.length = bs ∧ idx < n then Prog.store idx buf else Prog.throw .writeError
    transferLoop bs n idxs bufs
  | _, _ => pure ()

/-- Write one buffer to each of the blocks `idxs`. -/
def transferBlocks (bs n : ℕ) (idxs : List ℕ) (bufs : List (List UInt8)) : TransferProg Unit :=
  if idxs.length ≠ bufs.length then Prog.throw (.other "buffer count must match indexes")
  else transferLoop bs n idxs bufs

/-- Read a single block into a temporary buffer. -/
def transferTemp (n idx : ℕ) : TransferProg (List UInt8) :=
  if idx < n then Prog.load idx else Prog.throw .readError

/-- Write the full middle blocks straight from the caller's buffer. -/
def transferMid (bs n : ℕ) (g : Span) (byteOffset : ℕ) (buffer : List UInt8) : TransferProg ℕ := do
  if g.firstFullIdx < g.lastFullIdx then
    let start := g.midStart bs - byteOffset
    let len := g.midEnd bs - g.midStart bs
    transferBlocks bs n g.midIdxs (chunksExact bs (slice buffer start len))
    pure len
  else
    pure 0

/-- Read, modify and write the partial first block; a range inside one block is handled here. -/
def transferFirst (bs n : ℕ) (g : Span) (buffer : List UInt8) : TransferProg ℕ := do
  if g.firstFullIdx > g.startIdx ∨ g.firstFullIdx = g.lastFullIdx then
    let temp ← transferTemp n g.startIdx
    let copyLen := min (bs - g.startOffset) buffer.length
    transferBlocks bs n [g.startIdx] [splice temp g.startOffset (slice buffer 0 copyLen)]
    pure copyLen
  else
    pure 0

/-- Read, modify and write the partial last block if it is not the first one. -/
def transferLast (bs n : ℕ) (g : Span) (buffer : List UInt8) : TransferProg ℕ := do
  if g.lastFullIdx < g.endIdx ∧ g.startIdx ≠ g.endIdx - 1 then
    let temp ← transferTemp n (g.endIdx - 1)
    let copyLen := g.endOffset
    transferBlocks bs n [g.endIdx - 1]
      [splice temp 0 (slice buffer (buffer.length - copyLen) copyLen)]
    pure copyLen
  else
    pure 0

/-- The provided `write`, transfer by transfer. -/
def writeTransfers (bs n byteOffset : ℕ) (buffer : List UInt8) : TransferProg ℕ := do
  if bs = 0 then
    Prog.throw (.other "block size cannot be zero")
  else if buffer.isEmpty then
    pure 0
  else if usizeBound ≤ byteOffset + buffer.length then
    Prog.throw (.other "offset overflow")
  else
    let g := spanOf bs byteOffset buffer.length
    let mid ← transferMid bs n g byteOffset buffer
    let first ← transferFirst bs n g buffer
    let last ← transferLast bs n g buffer
    pure (mid + first + last)

/-! ## One call alone -/

/-- A device with `n` blocks of `bs` bytes that transfers them one by one. -/
def transferDevice (bs n : ℕ) : BlockDevice (ℕ → List UInt8) where
  blockSize := bs
  blockCount := n
  readBlocks idxs := do
    let (mem, bufs) ← get
    if idxs.length ≠ bufs.length then throw (.other "buffer count must match indexes")
    else if ∃ idx ∈ idxs, n ≤ idx then throw .readError
    else set (mem, idxs.map mem)
  writeBlocks idxs bufs := (transferBlocks bs n idxs bufs).run

lemma run_transferTemp (bs n idx : ℕ) :
    (transferTemp n idx).run = (transferDevice bs n).readTemp idx := by
  funext mem
  by_cases hidx : idx < n
  · simp [transferTemp, readTemp, transferDevice, hidx, not_le.mpr hidx, Prog.load, Prog.run]
  · simp [transferTemp, readTemp, transferDevice, hidx, Prog.throw, Prog.run, not_lt.mp hidx]

/-- Alone, the transfers are the provided `write` of the device. -/
lemma run_writeTransfers (bs n off : ℕ) (buffer : List UInt8) :
    (writeTransfers bs n off buffer).run = (transferDevice bs n).write off buffer := by
  have hmid (g : Span) : (transferMid bs n g off buffer).run =
    (transferDevice bs n).writeMid g off buffer := by
    rw [transferMid, writeMid, run_ite, run_bind]
    rfl
  have hfirst (g : Span) : (transferFirst bs n g buffer).run =
    (transferDevice bs n).writeFirst g buffer := by
    rw [transferFirst, writeFirst, run_ite, run_bind, run_transferTemp bs]
    simp only [run_bind]
    rfl
  have hlast (g : Span) : (transferLast bs n g buffer).run =
    (transferDevice bs n).writeLast g buffer := by
    rw [transferLast, writeLast, run_ite, run_bind, run_transferTemp bs]
    simp only [run_bind]
    rfl
  simp only [writeTransfers, write, run_ite, run_bind, hmid, hfirst, hlast]
  rfl

/-! ## The parts of a write -/

/-- The bytes that one call stores in one block. -/
structure Part where
  idx : ℕ
  /-- The offset of the bytes in the block. -/
  start : ℕ
  bytes : List UInt8
  /-- The bytes are the whole block, which is not loaded before. -/
  whole : Bool

namespace Part

/-- The position of the bytes on the device. -/
def pos (bs : ℕ) (p : Part) : ℕ := p.idx * bs + p.start

/-- The part contains the byte `x` of the device. -/
def Contains (bs : ℕ) (p : Part) (x : ℕ) : Prop := p.pos bs ≤ x ∧ x < p.pos bs + p.bytes.length

/-- The store that ends the part, when the block that was loaded is `temp`. -/
def storeProg (bs n : ℕ) (p : Part) (temp : List UInt8) (next : TransferProg ℕ) : TransferProg ℕ :=
  if (splice temp p.start p.bytes).length = bs ∧ p.idx < n then
    .write p.idx (splice temp p.start p.bytes) next
  else .fail .writeError

/-- The transfers of the part. -/
def prog (bs n : ℕ) (p : Part) (next : TransferProg ℕ) : TransferProg ℕ :=
  if p.whole then .write p.idx p.bytes next else .read p.idx fun temp => p.storeProg bs n temp next

/-- The part belongs to the call that stores `buffer` at `off`. -/
structure Fits (bs n off : ℕ) (buffer : List UInt8) (p : Part) : Prop where
  idx_lt : p.idx < n
  pos_lt : 0 < p.bytes.length
  end_le : p.start + p.bytes.length ≤ bs
  whole_eq : p.whole = true → p.start = 0 ∧ p.bytes.length = bs
  bytes_eq : ∀ x, p.Contains bs x → off ≤ x ∧ p.bytes[x - p.pos bs]? = buffer[x - off]?

end Part

/-- The transfers of several parts. -/
def partsProg (bs n : ℕ) (ps : List Part) (next : TransferProg ℕ) : TransferProg ℕ :=
  ps.foldr (Part.prog bs n) next

/-- The parts with the full blocks. -/
def midParts (bs : ℕ) (g : Span) (byteOffset : ℕ) (buffer : List UInt8) : List Part :=
  if g.firstFullIdx < g.lastFullIdx then
    zipWith (fun idx buf => ⟨idx, 0, buf, true⟩) g.midIdxs
      (chunksExact bs (slice buffer (g.midStart bs - byteOffset) (g.midEnd bs - g.midStart bs)))
  else []

/-- The part with the first block. -/
def firstParts (bs : ℕ) (g : Span) (buffer : List UInt8) : List Part :=
  if g.firstFullIdx > g.startIdx ∨ g.firstFullIdx = g.lastFullIdx then
    [⟨g.startIdx, g.startOffset, slice buffer 0 (min (bs - g.startOffset) buffer.length), false⟩]
  else []

/-- The part with the last block. -/
def lastParts (g : Span) (buffer : List UInt8) : List Part :=
  if g.lastFullIdx < g.endIdx ∧ g.startIdx ≠ g.endIdx - 1 then
    [⟨g.endIdx - 1, 0, slice buffer (buffer.length - g.endOffset) g.endOffset, false⟩]
  else []

/-- The parts of a write. -/
def parts (bs off : ℕ) (buffer : List UInt8) : List Part :=
  if buffer.isEmpty then [] else
    let g := spanOf bs off buffer.length
    midParts bs g off buffer ++ firstParts bs g buffer ++ lastParts g buffer

variable {bs n off : ℕ} {buffer : List UInt8} {g : Span} {p : Part} {bufs : List (List UInt8)}
  {src : List UInt8}
  {idxs : List ℕ} {x i : ℕ} (c : ℕ → UInt8)

/-- Blocks of the right size that exist are transferred one after the other. -/
lemma transferLoop_bind (hlen : idxs.length = bufs.length)
    (hidx : ∀ i ∈ idxs, i < n) (hbufs : ∀ b ∈ bufs, b.length = bs) (next : TransferProg ℕ) :
    (transferLoop bs n idxs bufs >>= fun _ => next) =
      partsProg bs n (zipWith (fun idx buf => ⟨idx, 0, buf, true⟩) idxs bufs) next := by
  induction idxs generalizing bufs with
  | nil => rfl
  | cons idx idxs ih =>
    cases bufs with
    | nil => simp at hlen
    | cons buf bufs =>
      have hok : buf.length = bs ∧ idx < n := ⟨hbufs buf (by simp), hidx idx (by simp)⟩
      rw [transferLoop, if_pos hok]
      exact congrArg (Prog.write idx buf) (ih (by simpa using hlen)
        (fun i hi => hidx i (mem_cons_of_mem _ hi)) fun b hb => hbufs b (mem_cons_of_mem _ hb))

/-- As many buffers as blocks are transferred. -/
lemma transferBlocks_bind (hlen : idxs.length = bufs.length)
    (hidx : ∀ i ∈ idxs, i < n) (hbufs : ∀ b ∈ bufs, b.length = bs) (next : TransferProg ℕ) :
    (transferBlocks bs n idxs bufs >>= fun _ => next) =
      partsProg bs n (zipWith (fun idx buf => ⟨idx, 0, buf, true⟩) idxs bufs) next := by
  rw [transferBlocks, if_neg (not_not_intro hlen), transferLoop_bind hlen hidx hbufs]

/-- The full blocks, in a program. -/
lemma transferMid_bind (hbs : 0 < bs) (hg : g.Covers bs off buffer.length) (hend : g.endIdx ≤ n)
    (next : ℕ → TransferProg ℕ) :
    (transferMid bs n g off buffer >>= next) = partsProg bs n (midParts bs g off buffer)
      (next (if g.firstFullIdx < g.lastFullIdx then g.lastFullIdx * bs - g.firstFullIdx *
        bs else 0)) := by
  unfold transferMid midParts
  split_ifs with hfull
  · obtain ⟨-, -, hlen, hbufs⟩ := hg.mid_chunks hbs hfull (mid_eq hfull)
    simp only [bind_assoc, pure_bind]
    rw [transferBlocks_bind hlen (fun i hi => ?_) hbufs, midEnd_eq hfull, midStart_eq hfull]
    have hlast := hg.lastFullIdx_le
    have := mem_range'_1.mp hi
    omega
  · rfl

/-- A block that is loaded and stored, in a program. -/
lemma transferTemp_bind (hidx : p.idx < n) (hwhole : p.whole = false) (next : TransferProg ℕ) :
    (transferTemp n p.idx >>= fun temp =>
      transferBlocks bs n [p.idx] [splice temp p.start p.bytes] >>= fun _ => next) =
      p.prog bs n next := by
  rw [transferTemp, if_pos hidx, Part.prog, hwhole]
  refine congrArg (Prog.read p.idx) (funext fun temp => ?_)
  change (transferBlocks bs n [p.idx] [splice temp p.start p.bytes] >>= fun _ => next) = _
  rw [transferBlocks, if_neg (by simp), transferLoop, Part.storeProg]
  split_ifs <;> rfl

/-- The first block, in a program. -/
lemma transferFirst_bind (hidx : g.startIdx < n) (next : ℕ → TransferProg ℕ) :
    (transferFirst bs n g buffer >>= next) = partsProg bs n (firstParts bs g buffer)
      (next (if g.firstFullIdx > g.startIdx ∨ g.firstFullIdx = g.lastFullIdx then
        min (bs - g.startOffset) buffer.length else 0)) := by
  unfold transferFirst firstParts
  split_ifs with hfirst
  · simp only [bind_assoc, pure_bind]
    exact transferTemp_bind (p := ⟨g.startIdx, g.startOffset, _, false⟩) hidx rfl _
  · rfl

/-- The last block, in a program. -/
lemma transferLast_bind (hidx : g.endIdx - 1 < n) (next : ℕ → TransferProg ℕ) :
    (transferLast bs n g buffer >>= next) = partsProg bs n (lastParts g buffer)
      (next (if g.lastFullIdx < g.endIdx ∧ g.startIdx ≠ g.endIdx - 1 then g.endOffset else 0)) := by
  unfold transferLast lastParts
  split_ifs with hlast
  · simp only [bind_assoc, pure_bind]
    exact transferTemp_bind (p := ⟨g.endIdx - 1, 0, _, false⟩) hidx rfl _
  · rfl

/-- A write inside the device is the transfer of its parts. -/
lemma writeTransfers_eq (hbs : 0 < bs) (hoff : off + buffer.length < usizeBound)
    (hdev : off + buffer.length ≤ n * bs) :
    writeTransfers bs n off buffer = partsProg bs n (parts bs off buffer) (.ret buffer.length) := by
  unfold writeTransfers parts
  rw [if_neg hbs.ne']
  split_ifs with hempty
  · rw [List.isEmpty_iff.mp hempty]
    rfl
  · omega
  · have hpos : 0 < buffer.length := length_pos_iff.mpr fun h => hempty (isEmpty_iff.mpr h)
    have hg := spanOf_covers hbs hpos hoff
    set g := spanOf bs off buffer.length with hgdef
    have hend := endIdx_le hbs hg hdev
    have hlt := hg.startIdx_lt
    simp only [transferMid_bind hbs hg hend, transferFirst_bind (show g.startIdx < n by omega),
      transferLast_bind (show g.endIdx - 1 < n by omega), hg.length_eq hpos, partsProg,
      foldr_append]
    rfl

/-- The parts with the full blocks, one by one. -/
lemma mem_midParts (hbs : 0 < bs) (hg : g.Covers bs off buffer.length) :
    p ∈ midParts bs g off buffer ↔ g.firstFullIdx < g.lastFullIdx ∧
      ∃ i, g.firstFullIdx ≤ i ∧ i < g.lastFullIdx ∧
      p = ⟨i, 0, slice buffer (i * bs - off) bs, true⟩ := by
  unfold midParts
  split_ifs with hfull
  · obtain ⟨hlo, hle, hhi⟩ := hg.mid_range hbs hfull
    have hmul : (g.lastFullIdx - g.firstFullIdx) * bs = g.lastFullIdx * bs - g.firstFullIdx * bs :=
      Nat.sub_mul _ _ _
    obtain ⟨-, hcount, -⟩ := hg.mid_chunks hbs hfull (mid_eq hfull)
    have hget : ∀ j < g.lastFullIdx - g.firstFullIdx,
        slice (slice buffer (g.midStart bs - off) (g.midEnd bs - g.midStart bs)) (j * bs) bs =
          slice buffer ((g.firstFullIdx + j) * bs - off) bs := by
      intro j hj
      have hj' : j * bs + bs ≤ (g.lastFullIdx - g.firstFullIdx) * bs := by
        rw [← succ_mul]
        exact mul_le_mul_right _ hj
      rw [mid_length hfull, midStart_eq hfull, slice_slice (by omega), add_mul]
      congr 1
      omega
    simp only [hfull, true_and, mem_iff_getElem?, getElem?_zipWith, chunksExact, hcount]
    constructor
    · rintro ⟨j, hj⟩
      rcases lt_or_ge j (g.lastFullIdx - g.firstFullIdx) with hlt | hge
      · rw [midIdxs, getElem?_range' hlt, getElem?_chunksOf _ hlt, hget j hlt] at hj
        refine ⟨g.firstFullIdx + j, by omega, by omega, ?_⟩
        simpa using hj.symm
      · rw [midIdxs, getElem?_eq_none (by simpa using hge)] at hj
        cases hj
    · rintro ⟨i, hi, hi', rfl⟩
      have hlt : i - g.firstFullIdx < g.lastFullIdx - g.firstFullIdx := by omega
      refine ⟨i - g.firstFullIdx, ?_⟩
      rw [midIdxs, getElem?_range' hlt, getElem?_chunksOf _ hlt, hget _ hlt]
      simp [show g.firstFullIdx + (i - g.firstFullIdx) = i by omega]
  · simp [hfull]

/-- A piece of the buffer fits at the position it belongs to. -/
lemma Part.Fits.of_slice {idx start a k : ℕ} {whole : Bool} (hidx : idx < n) (hk : 0 < k)
    (hend : start + k ≤ bs) (hwhole : whole → start = 0 ∧ k = bs)
    (ha : off + a = idx * bs + start) (hle : a + k ≤ buffer.length) :
    Part.Fits bs n off buffer ⟨idx, start, slice buffer a k, whole⟩ := by
  have hlen : (slice buffer a k).length = k := length_slice hle
  refine ⟨hidx, hlen.symm ▸ hk, hlen.symm ▸ hend, fun h => hlen.symm ▸ hwhole h, fun x hx => ?_⟩
  simp only [Part.Contains, pos, hlen, ← ha] at hx ⊢
  refine ⟨by omega, ?_⟩
  rw [getElem?_slice (by omega)]
  congr 1
  omega

/-- A byte of a part is a byte of the call. -/
lemma Part.Fits.contains (hp : p.Fits bs n off buffer) (hx : p.Contains bs x) :
    off ≤ x ∧ x < off + buffer.length := by
  obtain ⟨hle, hget⟩ := hp.bytes_eq x hx
  refine ⟨hle, ?_⟩
  by_contra hge
  rw [getElem?_eq_none (show buffer.length ≤ x - off by omega), getElem?_eq_none_iff] at hget
  have := hx.2
  have := hx.1
  omega

section

variable (hbs : 0 < bs) (hoff : off + buffer.length < usizeBound)
  (hdev : off + buffer.length ≤ n * bs)

include hbs hoff hdev in
/-- The parts of a write fit. -/
lemma parts_fits (hp : p ∈ parts bs off buffer) : p.Fits bs n off buffer := by
  unfold parts at hp
  split_ifs at hp with hempty
  · simp at hp
  have hpos : 0 < buffer.length := length_pos_iff.mpr fun h => hempty (isEmpty_iff.mpr h)
  have hg := spanOf_covers hbs hpos hoff
  set g := spanOf bs off buffer.length
  have hend := endIdx_le hbs hg hdev
  have hlt := hg.startIdx_lt
  have hstart := hg.start_eq
  have hso := hg.startOffset_lt
  rcases mem_append.mp hp with hp | hp
  · rcases mem_append.mp hp with hp | hp
    · obtain ⟨hfull, i, hi, hi', rfl⟩ := (mem_midParts hbs hg).mp hp
      obtain ⟨hlo, -, hhi⟩ := hg.mid_range hbs hfull
      have hlast := hg.lastFullIdx_le
      have h1 : g.firstFullIdx * bs ≤ i * bs := mul_le_mul_right _ hi
      have h2 : i * bs + bs ≤ g.lastFullIdx * bs := by
        rw [← succ_mul]
        exact mul_le_mul_right _ hi'
      exact .of_slice (by omega) hbs (by omega) (fun _ => ⟨rfl, rfl⟩) (by omega) (by omega)
    · unfold firstParts at hp
      split_ifs at hp
      · rw [mem_singleton.mp hp]
        exact .of_slice (by omega) (by omega) (by omega) (by simp) (by omega) (by omega)
      · simp at hp
  · unfold lastParts at hp
    split_ifs at hp with hlast
    · obtain ⟨hend_eq, hle⟩ := hg.last_range hlast
      have heo := hg.endOffset_lt
      have hne : 0 < g.endOffset := by
        rcases hg.end_eq with ⟨h0, -⟩ | ⟨h0, -⟩
        · have := hg.lastFull_eq
          rw [if_pos h0] at this
          omega
        · exact h0
      rw [mem_singleton.mp hp]
      exact .of_slice (by omega) hne (by omega) (by simp) (by omega) (by omega)
    · simp at hp

include hbs hoff in
/-- The parts of a write cover its range. -/
lemma exists_part (hx : off ≤ x ∧ x < off + buffer.length) :
    ∃ p ∈ parts bs off buffer, p.Contains bs x := by
  have hpos : 0 < buffer.length := by omega
  have hempty : ¬ buffer.isEmpty = true := fun h => hpos.ne' (by simp [isEmpty_iff.mp h])
  have hg := spanOf_covers hbs hpos hoff
  have hstart := hg.start_eq
  simp only [parts, if_neg hempty]
  set g := spanOf bs off buffer.length
  rcases (hg.mem_iff x).mp hx with hin | hin | hin
  · obtain ⟨hfull, h1, h2⟩ := hin
    obtain ⟨hlo, -, hhi⟩ := hg.mid_range hbs hfull
    have hdm : x / bs * bs + x % bs = x := by
      rw [mul_comm]
      exact div_add_mod x bs
    have hmod : x % bs < bs := mod_lt _ hbs
    have hi : g.firstFullIdx ≤ x / bs := (le_div_iff_mul_le hbs).mpr h1
    have hi' : x / bs < g.lastFullIdx := (div_lt_iff_lt_mul hbs).mpr h2
    have hle : x / bs * bs + bs ≤ g.lastFullIdx * bs := by
      rw [← succ_mul]
      exact mul_le_mul_right _ hi'
    refine ⟨_, mem_append_left _
      (mem_append_left _ ((mem_midParts hbs hg).mpr ⟨hfull, x / bs, hi, hi', rfl⟩)), ?_⟩
    simp only [Part.Contains, Part.pos]
    have h1' : g.firstFullIdx * bs ≤ x / bs * bs := Nat.mul_le_mul_right _ hi
    rw [length_slice (by omega)]
    omega
  · refine ⟨⟨g.startIdx, g.startOffset,
      slice buffer 0 (min (bs - g.startOffset) buffer.length), false⟩,
      mem_append_left _ (mem_append_right _ ?_), ?_⟩
    · rw [firstParts, if_pos hin.1]
      exact mem_singleton_self _
    · simp only [Part.Contains, Part.pos]
      rw [length_slice (by omega), hstart]
      exact hin.2
  · obtain ⟨-, hle⟩ := hg.last_range hin.1
    refine ⟨⟨g.endIdx - 1, 0, slice buffer (buffer.length - g.endOffset) g.endOffset, false⟩,
      mem_append_right _ ?_, ?_⟩
    · rw [lastParts, if_pos hin.1]
      exact mem_singleton_self _
    · simp only [Part.Contains, Part.pos, Nat.add_zero]
      rw [length_slice (by omega)]
      exact hin.2

end

/-! ## Stores and blocks -/

/-- A store into one block, seen from that block. -/
lemma blockBytes_flatWrite_self {start : ℕ} (h : start + src.length ≤ bs) :
    blockBytes bs (flatWrite c (i * bs + start) src) i = splice (blockBytes bs c i) start src := by
  have hlen : start + src.length ≤ (blockBytes bs c i).length := by
    rwa [blockBytes, length_flatRead]
  refine ((eq_flatRead_iff (by rw [length_splice hlen, blockBytes, length_flatRead])).mpr ?_).symm
  intro j hj
  rw [getElem?_splice hlen, flatWrite_apply]
  split_ifs with h1 h2 h2
  · rw [getElem?_eq_getElem (by omega), show i * bs + j - (i * bs + start) = j - start by omega,
      getElem?_eq_getElem (by omega)]
    rfl
  · omega
  · omega
  · exact getElem?_flatRead c hj

/-- A store into one block, seen from another block. -/
lemma blockBytes_flatWrite_of_ne {j start : ℕ} (h : start + src.length ≤ bs) (hne : j ≠ i) :
    blockBytes bs (flatWrite c (i * bs + start) src) j = blockBytes bs c j := by
  refine map_congr_left fun k hk => flatWrite_of_not_mem ?_
  have hk' : k < bs := mem_range.mp hk
  rcases lt_or_gt_of_ne hne with hlt | hgt
  · have : j * bs + bs ≤ i * bs := by
      rw [← succ_mul]
      exact mul_le_mul_right _ hlt
    omega
  · have : i * bs + bs ≤ j * bs := by
      rw [← succ_mul]
      exact mul_le_mul_right _ hgt
    omega

/-- A part that is a whole block replaces it. -/
lemma splice_whole {dst : List UInt8} (h : dst.length = src.length) : splice dst 0 src = src := by
  rw [splice, take_zero, nil_append, zero_add, ← h, drop_length, append_nil]

/-! ## Several calls -/

section

variable {τ : Type} [DecidableEq τ] {calls : τ → ℕ × List UInt8} {c₀ c : ℕ → UInt8}

/-- Calls of `write` that run together on a device with the blocks `mem`. -/
def startWrites (bs n : ℕ) (calls : τ → ℕ × List UInt8) (mem : ℕ → List UInt8) :
    Threads τ ℕ (fun _ => List UInt8) Empty BlockDeviceError ℕ where
  mem := mem
  locks := fun _ => none
  progs := fun t => writeTransfers bs n (calls t).1 (calls t).2

/-- The transfers a call still has to make, if the parts `ps` are left.  A call that is busy has
already loaded the block of its next part, and the block has not changed since. -/
def remaining (bs n : ℕ) (c : ℕ → UInt8) (len : ℕ) : List Part → Bool → TransferProg ℕ
  | p :: ps, true => p.storeProg bs n (blockBytes bs c p.idx) (partsProg bs n ps (.ret len))
  | ps, _ => partsProg bs n ps (.ret len)

/-- The state of calls that run together: the bytes of the device, the parts that are left for each
call and the calls that have loaded a block. -/
structure WritesInv (bs n : ℕ) (calls : τ → ℕ × List UInt8) (c₀ : ℕ → UInt8)
    (s : Threads τ ℕ (fun _ => List UInt8) Empty BlockDeviceError ℕ) (c : ℕ → UInt8)
    (todo : τ → List Part) (busy : τ → Bool) : Prop where
  mem : ∀ i < n, s.mem i = blockBytes bs c i
  progs : ∀ t, s.progs t = remaining bs n c (calls t).2.length (todo t) (busy t)
  fits : ∀ t, ∀ p ∈ todo t, p.Fits bs n (calls t).1 (calls t).2
  /-- Only a part that is not a whole block is loaded. -/
  busy_ok : ∀ t, busy t = true → ∃ p ps, todo t = p :: ps ∧ p.whole = false
  /-- Two calls do not hold copies of one block. -/
  exclusive : ∀ t u p ps q qs, t ≠ u → busy t = true → busy u = true → todo t = p :: ps →
    todo u = q :: qs → p.idx ≠ q.idx
  written : ∀ t x, (calls t).1 ≤ x → x < (calls t).1 + (calls t).2.length →
    (∀ p ∈ todo t, ¬ p.Contains bs x) → (calls t).2[x - (calls t).1]? = some (c x)
  unchanged : ∀ x, (∀ t, x < (calls t).1 ∨ (calls t).1 + (calls t).2.length ≤ x) → c x = c₀ x

variable {s : Threads τ ℕ (fun _ => List UInt8) Empty BlockDeviceError ℕ} {todo : τ → List Part}
  {busy : τ → Bool} {ps : List Part}

/-- Two ranges of bytes have nothing in common. -/
def DisjointRanges (calls : τ → ℕ × List UInt8) : Prop :=
  ∀ t u, t ≠ u → (calls t).1 + (calls t).2.length ≤ (calls u).1 ∨
  (calls u).1 + (calls u).2.length ≤ (calls t).1

/-- What is left of a call is not changed by a store to a block that the call has not loaded. -/
lemma remaining_flatWrite (hend : p.start + p.bytes.length ≤ bs) {len : ℕ}
    {b : Bool} (hne : ∀ q qs, b → ps = q :: qs → q.idx ≠ p.idx) :
    remaining bs n (flatWrite c (p.pos bs) p.bytes) len ps b = remaining bs n c len ps b := by
  cases ps with
  | nil => cases b <;> rfl
  | cons q qs =>
    cases b with
    | false => rfl
    | true =>
      rw [remaining, Part.pos, blockBytes_flatWrite_of_ne c hend (hne q qs rfl rfl), remaining]

section

variable (h : WritesInv bs n calls c₀ s c todo busy) {t : τ}
include h

/-- The last step of a part stores its bytes. -/
lemma WritesInv.stored (hdisj : DisjointRanges calls) (htodo : todo t = p :: ps)
    (hother : ∀ u q qs, u ≠ t → busy u → todo u = q :: qs → q.idx ≠ p.idx) :
    WritesInv bs n calls c₀
      { s with
        mem := update s.mem p.idx (splice (blockBytes bs c p.idx) p.start p.bytes)
        progs := update s.progs t (partsProg bs n ps (.ret (calls t).2.length)) }
      (flatWrite c (p.pos bs) p.bytes) (update todo t ps) (update busy t false) := by
  have hp : p.Fits bs n (calls t).1 (calls t).2 := h.fits t p (by rw [htodo]; exact mem_cons_self)
  refine ⟨fun i hi => ?_, fun u => ?_, fun u q hq => ?_, fun u hu => ?_, ?_,
    fun u x hlo hhi hno => ?_,
    fun x hx => ?_⟩
  · by_cases hip : i = p.idx
    · subst hip
      rw [Part.pos, blockBytes_flatWrite_self c hp.end_le]
      exact update_self ..
    · rw [Part.pos, blockBytes_flatWrite_of_ne c hp.end_le hip, ← h.mem i hi]
      exact update_of_ne hip ..
  · by_cases hut : u = t
    · subst hut
      simp only [update_self]
      cases ps <;> rfl
    · simp only [update_of_ne hut]
      rw [remaining_flatWrite hp.end_le fun q qs => hother u q qs hut]
      exact h.progs u
  · by_cases hut : u = t
    · subst hut
      rw [update_self] at hq
      exact h.fits u q (by rw [htodo]; exact mem_cons_of_mem _ hq)
    · rw [update_of_ne hut] at hq
      exact h.fits u q hq
  · have hut : u ≠ t := by
      rintro rfl
      rw [update_self] at hu
      cases hu
    rw [update_of_ne hut] at hu ⊢
    exact h.busy_ok u hu
  · intro u v q qs q' qs' huv hu hv hq hq'
    have hut : u ≠ t := by
      rintro rfl
      rw [update_self] at hu
      cases hu
    have hvt : v ≠ t := by
      rintro rfl
      rw [update_self] at hv
      cases hv
    rw [update_of_ne hut] at hu hq
    rw [update_of_ne hvt] at hv hq'
    exact h.exclusive u v q qs q' qs' huv hu hv hq hq'
  · by_cases hut : u = t
    · subst hut
      rw [update_self] at hno
      by_cases hx : p.Contains bs x
      · obtain ⟨hle, hget⟩ := hp.bytes_eq x hx
        obtain ⟨b, hb⟩ : ∃ b, p.bytes[x - p.pos bs]? = some b :=
          ⟨_, getElem?_eq_getElem (by have := hx.2; have := hx.1; omega)⟩
        rw [← hget, hb, flatWrite_of_getElem? hx.1 hb]
      · rw [flatWrite_of_not_mem (by unfold Part.Contains at hx; omega)]
        refine h.written u x hlo hhi fun q hq => ?_
        rcases mem_cons.mp (htodo ▸ hq) with rfl | hq
        · exact hx
        · exact hno q hq
    · rw [update_of_ne hut] at hno
      have hx : ¬ p.Contains bs x := fun hx => by
        have := hp.contains hx
        rcases hdisj u t hut with hd | hd <;> omega
      rw [flatWrite_of_not_mem (by unfold Part.Contains at hx; omega)]
      exact h.written u x hlo hhi hno
  · have hx' : ¬ p.Contains bs x := fun hin => by
      have := hp.contains hin
      rcases hx t with hd | hd <;> omega
    rw [flatWrite_of_not_mem (by unfold Part.Contains at hx'; omega)]
    exact h.unchanged x hx

omit [DecidableEq τ] in
/-- A block that is written as a whole belongs to one call alone. -/
lemma WritesInv.whole_alone (hdisj : DisjointRanges calls)
    {u : τ} (hut : u ≠ t) {q : Part} (hp : p ∈ todo t) (hq : q ∈ todo u) (hwhole : p.whole) :
    q.idx ≠ p.idx := by
  intro hidx
  have hpf := h.fits t p hp
  have hqf := h.fits u q hq
  obtain ⟨hstart, hlen⟩ := hpf.whole_eq hwhole
  have hqpos := hqf.pos_lt
  have hqend := hqf.end_le
  have hinq : q.Contains bs (q.pos bs) := ⟨le_rfl, by omega⟩
  have hinp : p.Contains bs (q.pos bs) := by
    simp only [Part.Contains, Part.pos, hidx, hstart, hlen]
    omega
  have h1 := hpf.contains hinp
  have h2 := hqf.contains hinq
  rcases hdisj u t hut with hd | hd <;> omega

/-- One transfer keeps the invariant, as long as no block is loaded that another call is about to
store. -/
lemma WritesInv.step (hdisj : DisjointRanges calls)
    (ht : s.LoadsUndisturbed t) :
    ∃ c' todo' busy', WritesInv bs n calls c₀ (s.step t) c' todo' busy' := by
  cases htodo : todo t with
  | nil =>
    have hret : s.progs t = .ret (calls t).2.length := by
      rw [h.progs t, htodo]
      cases busy t <;> rfl
    rw [step_of_ret hret]
    exact ⟨c, todo, busy, h⟩
  | cons p ps =>
    have hmem : p ∈ todo t := by
      rw [htodo]
      exact mem_cons_self
    have hp := h.fits t p hmem
    have hsplice : (splice (blockBytes bs c p.idx) p.start p.bytes).length = bs := by
      rw [← blockBytes_flatWrite_self c hp.end_le, blockBytes, length_flatRead]
    have hprog := h.progs t
    cases hbusy : busy t with
    | true =>
      -- the block was loaded before; now it is stored
      rw [htodo, hbusy, remaining, Part.storeProg, if_pos ⟨hsplice, hp.idx_lt⟩] at hprog
      rw [Threads.step_of_write hprog]
      exact ⟨_, _, _, h.stored hdisj htodo fun u q qs hut hu hq =>
        h.exclusive u t q qs p ps hut hu hbusy hq htodo⟩
    | false =>
      rw [htodo, hbusy, remaining] at hprog
      · cases hwhole : p.whole with
        | true =>
          have hprog' : s.progs t = .write p.idx (splice (blockBytes bs c p.idx) p.start p.bytes)
              (partsProg bs n ps (.ret (calls t).2.length)) := by
            obtain ⟨hstart, hlen⟩ := hp.whole_eq hwhole
            rw [hprog, hstart, splice_whole (by rw [blockBytes, length_flatRead, hlen])]
            simp [partsProg, foldr_cons, Part.prog, hwhole]
          rw [Threads.step_of_write hprog']
          refine ⟨_, _, _, h.stored hdisj htodo fun u q qs hut hu hq => ?_⟩
          exact h.whole_alone hdisj hut hmem (by rw [hq]; exact mem_cons_self) hwhole
        | false =>
          have hprog' : s.progs t = .read p.idx fun temp =>
              p.storeProg bs n temp (partsProg bs n ps (.ret (calls t).2.length)) := by
            rw [hprog]
            simp [partsProg, foldr_cons, Part.prog, hwhole]
          rw [Threads.step_of_read hprog']
          refine ⟨c, todo, update busy t true, h.mem, fun u => ?_, h.fits, fun u hu => ?_, ?_,
            h.written, h.unchanged⟩
          · by_cases hut : u = t
            · subst hut
              simp only [update_self, htodo, remaining, h.mem p.idx hp.idx_lt]
            · simp only [update_of_ne hut]
              exact h.progs u
          · by_cases hut : u = t
            · subst hut
              exact ⟨p, ps, htodo, hwhole⟩
            · rw [update_of_ne hut] at hu
              exact h.busy_ok u hu
          · -- nobody else holds a copy of the block that is loaded now
            have hfree : ∀ u q qs, u ≠ t → busy u → todo u = q :: qs → q.idx ≠ p.idx := by
              intro u q qs hut hu hq hidx
              have hqf := h.fits u q (by rw [hq]; exact mem_cons_self)
              have hqlen : (splice (blockBytes bs c q.idx) q.start q.bytes).length = bs := by
                rw [← blockBytes_flatWrite_self c hqf.end_le, blockBytes, length_flatRead]
              have huprog := h.progs u
              rw [hq, hu, remaining, Part.storeProg, if_pos ⟨hqlen, hqf.idx_lt⟩, hidx] at huprog
              exact ht p.idx (by rw [hprog']; rfl) u hut (by rw [huprog]; rfl)
            intro u v q qs q' qs' huv hu hv hq hq'
            by_cases hut : u = t
            · subst hut
              rw [htodo] at hq
              obtain ⟨rfl, rfl⟩ := cons.inj hq
              rw [update_of_ne (Ne.symm huv)] at hv
              exact (hfree v q' qs' (Ne.symm huv) hv hq').symm
            · rw [update_of_ne hut] at hu
              by_cases hvt : v = t
              · subst hvt
                rw [htodo] at hq'
                obtain ⟨rfl, rfl⟩ := cons.inj hq'
                exact hfree u q qs hut hu hq
              · rw [update_of_ne hvt] at hv
                exact h.exclusive u v q qs q' qs' huv hu hv hq hq'
      · simp

omit [DecidableEq τ] in
/-- A call has returned, or its next step is a transfer. -/
lemma WritesInv.next_cases (t : τ) : (todo t = [] ∧ s.progs t = .ret (calls t).2.length) ∨
      (∃ i next, s.progs t = .read i next) ∨ ∃ i b next, s.progs t = .write i b next := by
  have hprog := h.progs t
  cases htodo : todo t with
  | nil =>
    rw [htodo] at hprog
    refine .inl ⟨rfl, hprog.trans ?_⟩
    cases busy t <;> rfl
  | cons p ps =>
    have hp := h.fits t p (by rw [htodo]; exact mem_cons_self)
    cases hbusy : busy t with
    | true =>
      have hsplice : (splice (blockBytes bs c p.idx) p.start p.bytes).length = bs := by
        rw [← blockBytes_flatWrite_self c hp.end_le, blockBytes, length_flatRead]
      rw [htodo, hbusy, remaining, Part.storeProg, if_pos ⟨hsplice, hp.idx_lt⟩] at hprog
      exact .inr (.inr ⟨_, _, _, hprog⟩)
    | false =>
      rw [htodo, hbusy, remaining, partsProg, foldr_cons, Part.prog] at hprog
      · split_ifs at hprog
        · exact .inr (.inr ⟨_, _, _, hprog⟩)
        · exact .inr (.inl ⟨_, _, hprog⟩)
      · simp

end

omit [DecidableEq τ] in
/-- Before the first transfer all parts are left. -/
lemma WritesInv.start (hbs : 0 < bs)
    (hrange : ∀ t, (calls t).1 + (calls t).2.length < usizeBound ∧
      (calls t).1 + (calls t).2.length ≤ n * bs)
    {mem : ℕ → List UInt8} (hmem : ∀ i < n, mem i = blockBytes bs c₀ i) :
    WritesInv bs n calls c₀ (startWrites bs n calls mem) c₀
      (fun t => parts bs (calls t).1 (calls t).2) fun _ => false := by
  refine ⟨hmem, fun t => ?_, fun t p hp => parts_fits hbs (hrange t).1 (hrange t).2 hp,
    fun t ht => (nomatch ht), fun t u p ps q qs _ ht => (nomatch ht), fun t x hlo hhi hno => ?_,
    fun _ _ => rfl⟩
  · rw [remaining]
    · exact writeTransfers_eq hbs (hrange t).1 (hrange t).2
    · simp
  · obtain ⟨p, hp, hx⟩ := exists_part hbs (hrange t).1 ⟨hlo, hhi⟩
    exact absurd hx (hno p hp)

end

/-- Calls of `write` on disjoint byte ranges of a device with `n` blocks of `bs` bytes run together,
one transfer of a block at a time, and no block is loaded while another call is about to store it.
Then no call fails, and when all have returned the device holds all the ranges and is otherwise
unchanged. -/
theorem concurrent_writes {τ : Type} [DecidableEq τ] (bs n : ℕ) (hbs : 0 < bs)
    (calls : τ → ℕ × List UInt8)
    (hrange : ∀ t, (calls t).1 + (calls t).2.length < usizeBound ∧
      (calls t).1 + (calls t).2.length ≤ n * bs)
    (hdisj : DisjointRanges calls) (c₀ : ℕ → UInt8) (schedule : List τ)
    (hsched : AlongRun Threads.step Threads.LoadsUndisturbed
      (startWrites bs n calls (blockBytes bs c₀)) schedule) :
    (∀ t e, ((startWrites bs n calls (blockBytes bs c₀)).run schedule).progs t ≠ .fail e) ∧
    ((∀ t, ∃ r, ((startWrites bs n calls (blockBytes bs c₀)).run schedule).progs t = .ret r) →
      ∃ c, (∀ i < n, ((startWrites bs n calls (blockBytes bs c₀)).run schedule).mem i =
        blockBytes bs c i) ∧
        (∀ t, ((startWrites bs n calls (blockBytes bs c₀)).run schedule).progs t =
          .ret (calls t).2.length) ∧
        (∀ t i, i < (calls t).2.length → (calls t).2[i]? = some (c ((calls t).1 + i))) ∧
        ∀ x, (∀ t, x < (calls t).1 ∨ (calls t).1 + (calls t).2.length ≤ x) → c x = c₀ x) := by
  have hinv : ∃ c todo busy, WritesInv bs n calls c₀
      ((startWrites bs n calls (blockBytes bs c₀)).run schedule) c todo busy := by
    refine hsched.invariant (I := fun s => ∃ c todo busy, WritesInv bs n calls c₀ s c todo busy) ?_
      ⟨_, _, _, .start hbs hrange fun _ _ => rfl⟩
    rintro s t ⟨c, todo, busy, h⟩ ht
    exact h.step hdisj ht
  obtain ⟨c, todo, busy, h⟩ := hinv
  constructor
  · intro t e he
    rcases h.next_cases t with ⟨-, hret⟩ | ⟨i, next, hread⟩ | ⟨i, b, next, hwrite⟩
    · exact absurd (hret.symm.trans he) (by simp)
    · exact absurd (hread.symm.trans he) (by simp)
    · exact absurd (hwrite.symm.trans he) (by simp)
  · intro hdone
    have hall : ∀ t, todo t = [] ∧
      ((startWrites bs n calls (blockBytes bs c₀)).run schedule).progs t =
        .ret (calls t).2.length := by
      intro t
      obtain ⟨r, hr⟩ := hdone t
      rcases h.next_cases t with hret | ⟨i, next, hread⟩ | ⟨i, b, next, hwrite⟩
      · exact hret
      · exact absurd (hread.symm.trans hr) (by simp)
      · exact absurd (hwrite.symm.trans hr) (by simp)
    refine ⟨c, h.mem, fun t => (hall t).2, fun t i hi => ?_, h.unchanged⟩
    have hwritten := h.written t ((calls t).1 + i) (by omega) (by omega) (by simp [(hall t).1])
    rwa [Nat.add_sub_cancel_left] at hwritten

/-- Two calls that store one byte each in the same block of 4096 bytes. -/
def neighbours : Bool → ℕ × List UInt8
  | false => (0, [1])
  | true => (1, [2])

/-- One of the calls is made after the other. -/
theorem concurrent_writes_neighbours :
    ∃ c, ((startWrites 4096 1 neighbours (blockBytes 4096 fun _ => 0)).run
        [false, false, true, true]).mem 0 = blockBytes 4096 c 0 ∧ c 0 = 1 ∧ c 1 = 2 ∧ c 2 = 0 := by
  have hdisj : DisjointRanges neighbours := by
    intro t u htu
    cases t <;> cases u <;> simp_all [neighbours]
  have hsched : AlongRun step Threads.LoadsUndisturbed
      (startWrites 4096 1 neighbours (blockBytes 4096 fun _ => 0)) [false, false, true, true] :=
    ⟨by decide +kernel, by decide +kernel, by decide +kernel, by decide +kernel, trivial⟩
  have hdone : ∀ t, ∃ r, ((startWrites 4096 1 neighbours (blockBytes 4096 fun _ => 0)).run
      [false, false, true, true]).progs t = .ret r := by
    intro t
    refine ⟨1, eq_ret_of_returned ?_⟩
    cases t <;> decide +kernel
  obtain ⟨c, hmem, -, hbytes, hrest⟩ := (concurrent_writes 4096 1 (by decide) neighbours
    (by intro t; cases t <;> decide) hdisj _ _ hsched).2 hdone
  refine ⟨c, hmem 0 (by decide), ?_, ?_, ?_⟩
  · exact (Option.some.inj (hbytes false 0 (by decide))).symm
  · exact (Option.some.inj (hbytes true 0 (by decide))).symm
  · exact hrest 2 (by intro t; cases t <;> decide)

/-- Both calls load the block before one of them stores it.  Both return, but the byte of the first
one is lost. -/
theorem concurrent_writes_lost :
    (∀ t, ((startWrites 4096 1 neighbours (blockBytes 4096 fun _ => 0)).run
        [false, true, false, true]).progs t = .ret 1) ∧
    (((startWrites 4096 1 neighbours (blockBytes 4096 fun _ => 0)).run
        [false, true, false, true]).mem 0)[0]? = some 0 := by
  refine ⟨fun t => eq_ret_of_returned ?_, by decide +kernel⟩
  cases t <;> decide +kernel

end CabOS.BlockDevice
