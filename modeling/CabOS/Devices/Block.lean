import CabOS.Library.FlatBytes
import CabOS.Library.Exec
import CabOS.Library.Word

/-!
# The default transfers of a block device

`BlockDevice` models the trait of the same name: a device with a block size, a number of blocks and
the two required methods `readBlocks` and `writeBlocks`, over the device's own state `σ`.  Methods
are computations that keep the state they have reached when they fail, and a read also keeps the
caller's buffers.  `BlockDevice.read` and `BlockDevice.write` are the two provided methods, which
cut an arbitrary byte range into a batch of full middle blocks, a partial first and a partial last
block.

`BlockDevice.Faithful` says that the required methods transfer whole blocks of a byte array
`contents s`.  On such a device the provided methods are the read and the write of a flat byte
array (`BlockDevice.read_eq`, `BlockDevice.write_eq`).
-/

namespace CabOS

open Nat

/-- The errors a block device reports. -/
inductive BlockDeviceError where
  | readError
  | writeError
  | invalidBlockIndex
  | invalidBufferSize
  | other (message : String)
  deriving Repr, DecidableEq

/-- The required part of the block device trait.  `readBlocks idxs` fills the caller's buffers,
which are part of the state it runs on; `writeBlocks idxs bufs` writes them to the device. -/
structure BlockDevice (σ : Type) where
  /-- The size of a block in bytes. -/
  blockSize : ℕ
  /-- The number of blocks of the device. -/
  blockCount : ℕ
  /-- Read the blocks `idxs` into the buffers of the state. -/
  readBlocks : List ℕ → EStateM BlockDeviceError (σ × List (List UInt8)) Unit
  /-- Write one buffer to each of the blocks `idxs`. -/
  writeBlocks : List ℕ → List (List UInt8) → EStateM BlockDeviceError σ Unit

/-- The block numbers and in-block offsets that a transfer computes from its byte range. -/
structure Span where
  /-- The block of the first byte. -/
  startIdx : ℕ
  /-- One past the block of the last byte. -/
  endIdx : ℕ
  /-- The offset of the first byte in its block. -/
  startOffset : ℕ
  /-- The offset in its block of the byte after the last one. -/
  endOffset : ℕ
  /-- The first block that is covered in full, if any is. -/
  firstFullIdx : ℕ
  /-- One past the last block that is covered in full, if any is. -/
  lastFullIdx : ℕ

/-- The span of the `len > 0` bytes from `byteOffset` on. -/
def spanOf (blockSize byteOffset len : ℕ) : Span :=
  let startIdx := byteOffset / blockSize
  let endIdx := (byteOffset + len - 1) % usizeBound / blockSize + 1
  let startOffset := byteOffset % blockSize
  let endOffset := (byteOffset + len) % usizeBound % blockSize
  { startIdx := startIdx, endIdx := endIdx, startOffset := startOffset, endOffset := endOffset
    firstFullIdx := if startOffset = 0 then startIdx else startIdx + 1
    lastFullIdx := if endOffset = 0 then endIdx else endIdx - 1 }

/-- The blocks that are covered in full. -/
def Span.midIdxs (g : Span) : List ℕ :=
  List.range' g.firstFullIdx (g.lastFullIdx - g.firstFullIdx)

/-- First byte of the full blocks. -/
def Span.midStart (g : Span) (blockSize : ℕ) : ℕ := g.midIdxs.headD 0 * blockSize

/-- One past the last byte of the full blocks. -/
def Span.midEnd (g : Span) (blockSize : ℕ) : ℕ := (g.midIdxs.getLastD 0 + 1) * blockSize

namespace BlockDevice

variable {σ : Type}

/-- Run `readBlocks` on buffers that are not part of the caller's state. -/
def readInto (dev : BlockDevice σ) (idxs : List ℕ) (bufs : List (List UInt8)) :
    EStateM BlockDeviceError (σ × List UInt8) (List (List UInt8)) := fun s =>
  match dev.readBlocks idxs (s.1, bufs) with
  | .ok _ t => .ok t.2 (t.1, s.2)
  | .error e t => .error e (t.1, s.2)

/-- Read the full middle blocks straight into the caller's buffer. -/
def readMid (dev : BlockDevice σ) (g : Span) (byteOffset : ℕ) :
    EStateM BlockDeviceError (σ × List UInt8) ℕ := do
  if g.firstFullIdx < g.lastFullIdx then
    let buffer := (← get).2
    let start := g.midStart dev.blockSize - byteOffset
    let len := g.midEnd dev.blockSize - g.midStart dev.blockSize
    let midBuffers ← dev.readInto g.midIdxs (chunksExact dev.blockSize (slice buffer start len))
    modify fun s => (s.1, splice s.2 start midBuffers.flatten)
    pure len
  else
    pure 0

/-- Read the partial first block; a range inside one block is handled here. -/
def readFirst (dev : BlockDevice σ) (g : Span) : EStateM BlockDeviceError (σ × List UInt8) ℕ := do
  if g.firstFullIdx > g.startIdx ∨ g.firstFullIdx = g.lastFullIdx then
    let buffer := (← get).2
    let temp ← dev.readInto [g.startIdx] [List.replicate dev.blockSize 0]
    let copyLen := min (dev.blockSize - g.startOffset) buffer.length
    modify fun s => (s.1, splice s.2 0 (slice temp.flatten g.startOffset copyLen))
    pure copyLen
  else
    pure 0

/-- Read the partial last block if it is not the first one. -/
def readLast (dev : BlockDevice σ) (g : Span) : EStateM BlockDeviceError (σ × List UInt8) ℕ := do
  if g.lastFullIdx < g.endIdx ∧ g.startIdx ≠ g.endIdx - 1 then
    let buffer := (← get).2
    let temp ← dev.readInto [g.endIdx - 1] [List.replicate dev.blockSize 0]
    let copyLen := g.endOffset
    modify fun s => (s.1, splice s.2 (buffer.length - copyLen) (slice temp.flatten 0 copyLen))
    pure copyLen
  else
    pure 0

/-- The provided `read`: fill the caller's buffer from the bytes starting at `byteOffset`. -/
def read (dev : BlockDevice σ) (byteOffset : ℕ) :
    EStateM BlockDeviceError (σ × List UInt8) ℕ := do
  if dev.blockSize = 0 then
    throw (.other "block size cannot be zero")
  else
    let buffer := (← get).2
    if buffer.isEmpty then
      pure 0
    else
      -- the sum is unchecked here, unlike in `write`
      let g := spanOf dev.blockSize byteOffset buffer.length
      let mid ← dev.readMid g byteOffset
      let first ← dev.readFirst g
      let last ← dev.readLast g
      pure (mid + first + last)

/-- Read single blocks while writing, into a temporary buffer. -/
def readTemp (dev : BlockDevice σ) (idx : ℕ) : EStateM BlockDeviceError σ (List UInt8) := fun s =>
  match dev.readBlocks [idx] (s, [List.replicate dev.blockSize 0]) with
  | .ok _ t => .ok t.2.flatten t.1
  | .error e t => .error e t.1

/-- Write the full middle blocks straight from the caller's buffer. -/
def writeMid (dev : BlockDevice σ) (g : Span) (byteOffset : ℕ) (buffer : List UInt8) :
    EStateM BlockDeviceError σ ℕ := do
  if g.firstFullIdx < g.lastFullIdx then
    let start := g.midStart dev.blockSize - byteOffset
    let len := g.midEnd dev.blockSize - g.midStart dev.blockSize
    dev.writeBlocks g.midIdxs (chunksExact dev.blockSize (slice buffer start len))
    pure len
  else
    pure 0

/-- Read, modify and write the partial first block; a range inside one block is handled here. -/
def writeFirst (dev : BlockDevice σ) (g : Span) (buffer : List UInt8) :
    EStateM BlockDeviceError σ ℕ := do
  if g.firstFullIdx > g.startIdx ∨ g.firstFullIdx = g.lastFullIdx then
    let temp ← dev.readTemp g.startIdx
    let copyLen := min (dev.blockSize - g.startOffset) buffer.length
    dev.writeBlocks [g.startIdx] [splice temp g.startOffset (slice buffer 0 copyLen)]
    pure copyLen
  else
    pure 0

/-- Read, modify and write the partial last block if it is not the first one. -/
def writeLast (dev : BlockDevice σ) (g : Span) (buffer : List UInt8) :
    EStateM BlockDeviceError σ ℕ := do
  if g.lastFullIdx < g.endIdx ∧ g.startIdx ≠ g.endIdx - 1 then
    let temp ← dev.readTemp (g.endIdx - 1)
    let copyLen := g.endOffset
    dev.writeBlocks [g.endIdx - 1] [splice temp 0 (slice buffer (buffer.length - copyLen) copyLen)]
    pure copyLen
  else
    pure 0

/-- The provided `write`: store the caller's buffer in the bytes starting at `byteOffset`. -/
def write (dev : BlockDevice σ) (byteOffset : ℕ) (buffer : List UInt8) :
    EStateM BlockDeviceError σ ℕ := do
  if dev.blockSize = 0 then
    throw (.other "block size cannot be zero")
  else if buffer.isEmpty then
    pure 0
  else if usizeBound ≤ byteOffset + buffer.length then
    throw (.other "offset overflow")
  else
    let g := spanOf dev.blockSize byteOffset buffer.length
    let mid ← dev.writeMid g byteOffset buffer
    let first ← dev.writeFirst g buffer
    let last ← dev.writeLast g buffer
    pure (mid + first + last)

end BlockDevice

/-! ## The arithmetic of a span -/

section

variable {bs off len : ℕ}

/-- What the six numbers of a span say about the byte range, as long as its end does not overflow.
-/
structure Span.Covers (g : Span) (bs off len : ℕ) : Prop where
  /-- The first byte, split into its block and its offset. -/
  start_eq : g.startIdx * bs + g.startOffset = off
  startOffset_lt : g.startOffset < bs
  startIdx_lt : g.startIdx < g.endIdx
  /-- The byte after the last one, in the block before `endIdx`. -/
  end_eq : g.endOffset = 0 ∧ g.endIdx * bs = off + len ∨
    0 < g.endOffset ∧ (g.endIdx - 1) * bs + g.endOffset = off + len
  endOffset_lt : g.endOffset < bs
  firstFull_eq : g.firstFullIdx = if g.startOffset = 0 then g.startIdx else g.startIdx + 1
  lastFull_eq : g.lastFullIdx = if g.endOffset = 0 then g.endIdx else g.endIdx - 1

/-- The span of a non-empty byte range covers it. -/
lemma spanOf_covers (hbs : 0 < bs) (hlen : 0 < len) (hoff : off + len < usizeBound) :
    (spanOf bs off len).Covers bs off len := by
  have hmod : (off + len) % usizeBound = off + len := mod_eq_of_lt hoff
  have hmod' : (off + len - 1) % usizeBound = off + len - 1 := mod_eq_of_lt (by omega)
  have hstart : off / bs * bs + off % bs = off := by
    rw [Nat.mul_comm]
    exact div_add_mod off bs
  have hlast : (off + len - 1) / bs * bs + (off + len - 1) % bs = off + len - 1 := by
    rw [Nat.mul_comm]
    exact div_add_mod _ bs
  have hlt : (off + len - 1) % bs < bs := mod_lt _ hbs
  have hend : (off + len) / bs * bs + (off + len) % bs = off + len := by
    rw [Nat.mul_comm]
    exact div_add_mod _ bs
  have hendlt : (off + len) % bs < bs := mod_lt _ hbs
  have hle : off / bs ≤ (off + len - 1) / bs := Nat.div_le_div_right (by omega)
  refine ⟨hstart, mod_lt _ hbs, ?_, ?_, mod_lt _ hbs, rfl, rfl⟩
  · simp only [spanOf, hmod']
    omega
  · simp only [spanOf, hmod, hmod', Nat.add_sub_cancel]
    rcases Nat.eq_zero_or_pos ((off + len) % bs) with h0 | hpos
    · left
      refine ⟨h0, ?_⟩
      -- the last byte is the last one of its block
      have hge : (off + len) / bs = (off + len - 1) / bs + 1 := by
        have h1 : (off + len - 1) / bs < (off + len) / bs := by
          rw [Nat.div_lt_iff_lt_mul hbs]
          omega
        have h2 : (off + len) / bs ≤ (off + len - 1) / bs + 1 := by
          rw [← add_div_right _ hbs]
          exact Nat.div_le_div_right (by omega)
        omega
      rw [← hge]
      omega
    · right
      refine ⟨hpos, ?_⟩
      have hge : (off + len) / bs = (off + len - 1) / bs := by
        apply le_antisymm
        · rw [Nat.le_div_iff_mul_le hbs]
          omega
        · exact Nat.div_le_div_right (by omega)
      rw [← hge]
      exact hend

/-- The bytes of the full middle blocks. -/
def Span.InMid (g : Span) (bs x : ℕ) : Prop :=
  g.firstFullIdx < g.lastFullIdx ∧ g.firstFullIdx * bs ≤ x ∧ x < g.lastFullIdx * bs

/-- The bytes transferred with the first block. -/
def Span.InFirst (g : Span) (bs off len x : ℕ) : Prop :=
  (g.firstFullIdx > g.startIdx ∨ g.firstFullIdx = g.lastFullIdx) ∧ off ≤ x ∧
  x < off + min (bs - g.startOffset) len

/-- The bytes transferred with the last block. -/
def Span.InLast (g : Span) (bs x : ℕ) : Prop :=
  (g.lastFullIdx < g.endIdx ∧ g.startIdx ≠ g.endIdx - 1) ∧
    (g.endIdx - 1) * bs ≤ x ∧ x < (g.endIdx - 1) * bs + g.endOffset

instance (g : Span) (bs x : ℕ) : Decidable (g.InMid bs x) :=
  inferInstanceAs (Decidable (_ ∧ _))

instance (g : Span) (bs off len x : ℕ) : Decidable (g.InFirst bs off len x) :=
  inferInstanceAs (Decidable (_ ∧ _))

instance (g : Span) (bs x : ℕ) : Decidable (g.InLast bs x) :=
  inferInstanceAs (Decidable (_ ∧ _))

variable {g : Span}

section

variable (h : g.Covers bs off len)
include h

/-- The three ways the first and the last block can lie: the same block, neighbours, or with at
least one block between them.  Each case gives the products that occur in byte positions. -/
lemma Span.Covers.cases : ∃ p, g.endIdx = p + 1 ∧ (p + 1) * bs = p * bs + bs ∧
      (g.startIdx = p ∨ p = g.startIdx + 1 ∧ p * bs = g.startIdx * bs + bs ∨
        g.startIdx + 1 < p ∧ (g.startIdx + 1) * bs = g.startIdx * bs + bs ∧
        g.startIdx * bs + bs + bs ≤ p * bs) := by
  have hlt := h.startIdx_lt
  refine ⟨g.endIdx - 1, by omega, by ring, ?_⟩
  rcases Nat.lt_trichotomy (g.startIdx + 1) (g.endIdx - 1) with hl | he | hg
  · refine .inr (.inr ⟨hl, by ring, ?_⟩)
    calc g.startIdx * bs + bs + bs = (g.startIdx + 2) * bs := by ring
      _ ≤ (g.endIdx - 1) * bs := Nat.mul_le_mul_right bs hl
  · refine .inr (.inl ⟨he.symm, ?_⟩)
    rw [← he]
    ring
  · exact .inl (by omega)

/-- The three parts of a transfer together are the whole byte range. -/
lemma Span.Covers.mem_iff (x : ℕ) :
    off ≤ x ∧ x < off + len ↔ g.InMid bs x ∨ g.InFirst bs off len x ∨ g.InLast bs x := by
  have h1 := h.start_eq
  have h2 := h.startOffset_lt
  have h5 := h.endOffset_lt
  have h6 := h.end_eq
  obtain ⟨p, hp, hpm, hcases⟩ := h.cases
  simp only [Span.InMid, Span.InFirst, Span.InLast, h.firstFull_eq, h.lastFull_eq, hp,
    Nat.add_sub_cancel] at h6 ⊢
  rcases hcases with hEq | ⟨hEq, hm⟩ | ⟨hlt, hm, hle⟩
  · rw [hEq] at h1 ⊢
    split_ifs <;> omega
  · subst hEq
    split_ifs <;> omega
  · split_ifs <;> omega

/-- The lengths of the three parts add up to the length of the range. -/
lemma Span.Covers.length_eq (hlen : 0 < len) :
    (if g.firstFullIdx < g.lastFullIdx then g.lastFullIdx * bs - g.firstFullIdx * bs else 0) +
        (if g.firstFullIdx > g.startIdx ∨ g.firstFullIdx = g.lastFullIdx then
          min (bs - g.startOffset) len else 0) +
        (if g.lastFullIdx < g.endIdx ∧
          g.startIdx ≠ g.endIdx - 1 then g.endOffset else 0) = len := by
  have h1 := h.start_eq
  have h2 := h.startOffset_lt
  have h5 := h.endOffset_lt
  have h6 := h.end_eq
  obtain ⟨p, hp, hpm, hcases⟩ := h.cases
  simp only [h.firstFull_eq, h.lastFull_eq, hp, Nat.add_sub_cancel] at h6 ⊢
  rcases hcases with hEq | ⟨hEq, hm⟩ | ⟨hlt, hm, hle⟩
  · rw [hEq] at h1 ⊢
    split_ifs <;> omega
  · subst hEq
    split_ifs <;> omega
  · split_ifs <;> omega

end

end

end CabOS
