import CabOS.Arch.Paging
import CabOS.Devices.BlockTransfer

/-!
# The virtio block driver

`VirtIOBlkDiskDriver` is the block device of the kernel: blocks of one page, transferred one after
the other over a queue that moves 512-byte sectors.  The queue itself belongs to an external driver
crate; here it is a byte array of `capacity` sectors on which a transfer succeeds exactly when it
lies inside the disk.  The driver is faithful to that array, so the provided transfers of the block
device trait read and write it byte by byte.
-/

namespace CabOS

open BlockDevice

/-- The size of a disk sector. -/
def sectorSize : ℕ := 512

/-- The virtio disk: its capacity in sectors. -/
structure VirtIOBlkDiskDriver where
  /-- The number of sectors. -/
  capacity : ℕ

namespace VirtIOBlkDiskDriver

/-- The number of bytes of the disk. -/
def bytes (drv : VirtIOBlkDiskDriver) : ℕ := drv.capacity * sectorSize

/-- The number of blocks of the disk. -/
def blockCount (drv : VirtIOBlkDiskDriver) : ℕ := drv.bytes / pageSize

/-- Read one block into a buffer of the block size. -/
def readBlock (drv : VirtIOBlkDiskDriver) (blockIdx : ℕ) (buffer : List UInt8) :
    EStateM BlockDeviceError (ℕ → UInt8) (List UInt8) := do
  if buffer.length ≠ pageSize then throw .invalidBufferSize
  else
    let sectorIdx := blockIdx * (pageSize / sectorSize)
    if drv.bytes < sectorIdx * sectorSize + buffer.length then throw .readError
    else
      let disk ← get
      pure (flatRead disk (sectorIdx * sectorSize) buffer.length)

/-- Write one block from a buffer of the block size. -/
def writeBlock (drv : VirtIOBlkDiskDriver) (blockIdx : ℕ) (buffer : List UInt8) :
    EStateM BlockDeviceError (ℕ → UInt8) Unit := do
  if buffer.length ≠ pageSize then throw .invalidBufferSize
  else
    let sectorIdx := blockIdx * (pageSize / sectorSize)
    if drv.bytes < sectorIdx * sectorSize + buffer.length then throw .writeError
    else modify fun disk => flatWrite disk (sectorIdx * sectorSize) buffer

/-- The loop of `readBlocks`: the buffers filled so far are kept when a block fails. -/
def readLoop (drv : VirtIOBlkDiskDriver) :
    List ℕ → List (List UInt8) → (ℕ → UInt8) → Option BlockDeviceError × List (List UInt8)
  | idx :: idxs, buf :: bufs, disk =>
    match drv.readBlock idx buf disk with
    | .ok filled _ =>
      let rest := drv.readLoop idxs bufs disk
      (rest.1, filled :: rest.2)
    | .error _ _ => (some .readError, buf :: bufs)
  | _, bufs, _ => (none, bufs)

/-- The loop of `writeBlocks`. -/
def writeLoop (drv : VirtIOBlkDiskDriver) :
    List ℕ → List (List UInt8) → (ℕ → UInt8) → Option BlockDeviceError × (ℕ → UInt8)
  | idx :: idxs, buf :: bufs, disk =>
    match drv.writeBlock idx buf disk with
    | .ok _ disk' => drv.writeLoop idxs bufs disk'
    | .error _ disk' => (some .writeError, disk')
  | _, _, disk => (none, disk)

/-- The driver as a block device. -/
def blockDevice (drv : VirtIOBlkDiskDriver) : BlockDevice (ℕ → UInt8) where
  blockSize := pageSize
  blockCount := drv.blockCount
  readBlocks := fun idxs s =>
    if idxs.length ≠ s.2.length then .error (.other "buffer count must match indexes") s
    else
      match drv.readLoop idxs s.2 s.1 with
      | (none, bufs) => .ok () (s.1, bufs)
      | (some e, bufs) => .error e (s.1, bufs)
  writeBlocks := fun idxs bufs disk =>
    if idxs.length ≠ bufs.length then .error (.other "buffer count must match indexes") disk
    else
      match drv.writeLoop idxs bufs disk with
      | (none, disk') => .ok () disk'
      | (some e, disk') => .error e disk'

variable {drv : VirtIOBlkDiskDriver} {bufs : List (List UInt8)} {idxs : List ℕ}

/-- The first byte of a block, counted in sectors. -/
lemma sector_eq (idx : ℕ) : idx * (pageSize / sectorSize) * sectorSize = idx * pageSize := by
  have h8 : pageSize / sectorSize = 8 := by decide
  rw [h8]
  simp only [pageSize, sectorSize]
  omega

/-- An existing block lies inside the disk. -/
lemma block_in_range {idx : ℕ} (h : idx < drv.blockCount) :
    ¬ drv.bytes < idx * pageSize + pageSize := by
  have hmul : (idx + 1) * pageSize ≤ drv.bytes :=
    (Nat.le_div_iff_mul_le (by decide)).mp h
  rw [Nat.succ_mul] at hmul
  exact not_lt.mpr hmul

/-- Reading existing blocks fills every buffer with the bytes of its block. -/
lemma readLoop_eq (hlen : idxs.length = bufs.length)
    (hidx : ∀ i ∈ idxs, i < drv.blockCount) (hbufs : ∀ b ∈ bufs, b.length = pageSize)
    (disk : ℕ → UInt8) :
    drv.readLoop idxs bufs disk = (none, idxs.map (blockBytes pageSize disk)) := by
  induction idxs generalizing bufs with
  | nil =>
    have hnil : bufs = [] := List.length_eq_zero_iff.mp (by simpa using hlen.symm)
    simp [hnil, readLoop]
  | cons idx idxs ih =>
    cases bufs with
    | nil => simp at hlen
    | cons buf bufs =>
      have hbuf : buf.length = pageSize := hbufs buf (by simp)
      have hin := block_in_range (hidx idx (by simp))
      have hread : drv.readBlock idx buf disk =
          .ok (blockBytes pageSize disk idx) disk := by
        simp only [readBlock, hbuf, ne_eq, not_true_eq_false, if_false, exec_ite, exec_bind,
          exec_get, exec_pure, sector_eq, if_neg hin, blockBytes]
      rw [readLoop, hread]
      simp [ih (by simpa using hlen) (fun i hi => hidx i (by simp [hi]))
        (fun b hb => hbufs b (by simp [hb]))]

/-- Writing existing blocks stores every buffer in its block. -/
lemma writeLoop_eq (hlen : idxs.length = bufs.length)
    (hidx : ∀ i ∈ idxs, i < drv.blockCount) (hbufs : ∀ b ∈ bufs, b.length = pageSize)
    (disk : ℕ → UInt8) :
    drv.writeLoop idxs bufs disk = (none, writeAll pageSize idxs bufs disk) := by
  induction idxs generalizing bufs disk with
  | nil => simp [writeLoop, writeAll]
  | cons idx idxs ih =>
    cases bufs with
    | nil => simp at hlen
    | cons buf bufs =>
      have hbuf : buf.length = pageSize := hbufs buf (by simp)
      have hin := block_in_range (hidx idx (by simp))
      have hwrite : drv.writeBlock idx buf disk = .ok () (flatWrite disk (idx * pageSize) buf) := by
        simp [writeBlock, hbuf, sector_eq, if_neg hin]
      rw [writeLoop, hwrite, writeAll]
      exact ih (by simpa using hlen) (fun i hi => hidx i (by simp [hi]))
        (fun b hb => hbufs b (by simp [hb])) _

/-- The driver is faithful to the bytes of the disk. -/
lemma faithful (drv : VirtIOBlkDiskDriver) : drv.blockDevice.Faithful fun disk => disk where
  readBlocks_ok idxs bufs s hlen hidx hbufs := by
    refine ⟨s, ?_, rfl⟩
    simp [blockDevice, hlen, readLoop_eq hlen hidx hbufs]
  writeBlocks_ok idxs bufs s hlen hidx hbufs := by
    refine ⟨_, ?_, rfl⟩
    simp [blockDevice, hlen, writeLoop_eq hlen hidx hbufs]

end VirtIOBlkDiskDriver

namespace BlockDevice

variable {σ : Type}

/-- A sequence of provided writes, one `(offset, bytes)` pair after the other. -/
def writeSeq (dev : BlockDevice σ) : List (ℕ × List UInt8) → EStateM BlockDeviceError σ (List ℕ)
  | [] => pure []
  | w :: ws => do
    let n ← dev.write w.1 w.2
    let ns ← dev.writeSeq ws
    pure (n :: ns)

/-- A byte range the caller may transfer: its end neither overflows nor leaves the device. -/
def InRange (dev : BlockDevice σ) (off len : ℕ) : Prop :=
  off + len < usizeBound ∧ off + len ≤ dev.blockCount * dev.blockSize

/-- The array after a sequence of writes. -/
def flatWriteSeq (c : ℕ → UInt8) (ws : List (ℕ × List UInt8)) : ℕ → UInt8 :=
  ws.foldl (fun c w => flatWrite c w.1 w.2) c

variable {dev : BlockDevice σ} {contents : σ → ℕ → UInt8}

/-- A sequence of writes on a faithful device acts on its bytes as on a flat array. -/
lemma Faithful.writeSeq_eq (hd : dev.Faithful contents) (hbs : 0 < dev.blockSize)
    {ws : List (ℕ × List UInt8)} (hws : ∀ w ∈ ws, dev.InRange w.1 w.2.length) (s : σ) :
    ∃ s', dev.writeSeq ws s = .ok (ws.map fun w => w.2.length) s' ∧
    contents s' = flatWriteSeq (contents s) ws := by
  induction ws generalizing s with
  | nil => exact ⟨s, rfl, rfl⟩
  | cons w ws ih =>
    obtain ⟨hov, hin⟩ := hws w (by simp)
    obtain ⟨s₁, e₁, c₁⟩ := hd.write_eq hbs hov hin s
    obtain ⟨s₂, e₂, c₂⟩ := ih (fun w hw => hws w (by simp [hw])) s₁
    refine ⟨s₂, ?_, ?_⟩
    · simp only [writeSeq, exec_bind, exec_pure, e₁, e₂, List.map_cons]
    · rw [c₂, c₁]
      rfl

/-- The provided transfers of a faithful block device are those of a flat byte array: a read returns
its length and exactly the bytes of the range, a write returns its length and changes exactly the
bytes of the range, and a read after any sequence of writes returns what a flat array would. -/
theorem faithful_transfers_flat (hd : dev.Faithful contents) (hbs : 0 < dev.blockSize) :
    (∀ (off : ℕ) (buffer : List UInt8)
      (s : σ), dev.InRange off buffer.length → ∃ s', dev.read off (s, buffer) =
          .ok buffer.length (s', flatRead (contents s) off buffer.length) ∧
        contents s' = contents s) ∧
    (∀ (off : ℕ) (buffer : List UInt8) (s : σ), dev.InRange off buffer.length →
      ∃ s', dev.write off buffer s = .ok buffer.length s' ∧
      contents s' = flatWrite (contents s) off buffer) ∧
    (∀ (ws : List (ℕ × List UInt8)) (off : ℕ) (buffer : List UInt8) (s : σ),
      (∀ w ∈ ws, dev.InRange w.1 w.2.length) → dev.InRange off buffer.length →
      ∃ s₁ s₂, dev.writeSeq ws s = .ok (ws.map fun w => w.2.length) s₁ ∧ dev.read off (s₁, buffer) =
          .ok buffer.length (s₂, flatRead (flatWriteSeq (contents s) ws) off buffer.length)) := by
  refine ⟨?_, ?_, ?_⟩
  · rintro off buffer s ⟨hov, hin⟩
    exact hd.read_eq hbs hov hin s
  · rintro off buffer s ⟨hov, hin⟩
    exact hd.write_eq hbs hov hin s
  · rintro ws off buffer s hws ⟨hov, hin⟩
    obtain ⟨s₁, e₁, c₁⟩ := hd.writeSeq_eq hbs hws s
    obtain ⟨s₂, e₂, -⟩ := hd.read_eq hbs hov hin s₁
    exact ⟨s₁, s₂, e₁, by rw [e₂, c₁]⟩

/-- A disk of two blocks: a write across the block boundary is read back across it. -/
theorem faithful_transfers_flat_virtio :
    ∃ s₁ s₂, (VirtIOBlkDiskDriver.mk 16).blockDevice.writeSeq [(4095, [1, 2])] (fun _ => 0) =
        .ok [2] s₁ ∧
      (VirtIOBlkDiskDriver.mk 16).blockDevice.read 4094 (s₁, [9, 9, 9, 9]) =
        .ok 4 (s₂, flatRead (flatWriteSeq (fun _ => 0) [(4095, [1, 2])]) 4094 4) := by
  have h := (faithful_transfers_flat (VirtIOBlkDiskDriver.faithful ⟨16⟩) (by decide)).2.2
  exact h [(4095, [1, 2])] 4094 [9, 9, 9, 9] (fun _ => 0) (by simp [InRange]; decide)
    ⟨by decide, by decide⟩

end BlockDevice

end CabOS
