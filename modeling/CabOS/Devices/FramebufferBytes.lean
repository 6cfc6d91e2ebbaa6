import CabOS.Devices.Framebuffer
import CabOS.Fs.File

/-!
# Reading and writing the framebuffer

`read` and `write` of the framebuffer move the bytes that the range of the call shares with the
framebuffer, if the offset is not behind the end (`framebuffer_transfers`).  An offset behind the
end, which a seek may set, makes both panic (`framebuffer_panics_behind`): the end of the range is
cut to the length first, and the offset is subtracted from it.
-/

namespace CabOS

/-- Slices have at most `isize::MAX` bytes. -/
def sliceBound : ℕ := 2 ^ 63

namespace LimineFramebuffer

/-- The number of bytes that a call with a buffer of `len` bytes moves.  If the sum or the
difference wraps around, the range ends before it starts, and the slice operations panic; with
overflow checks the arithmetic panics before. -/
def transferLength (length offset len : ℕ) : Option ℕ :=
  let stop := min (wadd offset len) length
  let n := wsub stop offset
  if n ≤ len ∧ offset ≤ stop then some n else none

/-- Read from the framebuffer into a buffer: the number of bytes and the buffer. -/
def read (memory buffer : List UInt8) (offset : ℕ) : Option (ℕ × List UInt8) :=
  (transferLength memory.length offset buffer.length).map fun n =>
  (n, splice buffer 0 (slice memory offset n))

/-- Write a buffer to the framebuffer: the number of bytes and the framebuffer. -/
def write (memory buffer : List UInt8) (offset : ℕ) : Option (ℕ × List UInt8) :=
  (transferLength memory.length offset buffer.length).map fun n =>
  (n, splice memory offset (buffer.take n))

variable {memory buffer : List UInt8} {offset : ℕ}

/-- From an offset up to the end on, the part of the range inside the framebuffer is moved. -/
lemma transferLength_eq {length len : ℕ} (hlength : length < sliceBound) (hlen : len < sliceBound)
    (hoffset : offset ≤ length) :
    transferLength length offset len = some (min len (length - offset)) := by
  have hbound : sliceBound + sliceBound = usizeBound := rfl
  have hle : offset ≤ min (offset + len) length := by omega
  rw [transferLength, wadd_eq (by omega), wsub_eq (by omega) hle, if_pos ⟨by omega, hle⟩,
    Option.some_inj]
  omega

/-- Behind the end both calls panic. -/
lemma transferLength_eq_none {length len : ℕ} (hoffset : length < offset) :
    transferLength length offset len = none :=
  if_neg fun h => absurd (h.2.trans (min_le_right _ _)) (Nat.not_le.mpr hoffset)

/-- A read up to the end. -/
lemma read_eq (hmemory : memory.length < sliceBound) (hbuffer : buffer.length < sliceBound)
    (hoffset : offset ≤ memory.length) :
    read memory buffer offset = some (min buffer.length (memory.length - offset),
      splice buffer 0 (slice memory offset (min buffer.length (memory.length - offset)))) := by
  rw [read, transferLength_eq hmemory hbuffer hoffset, Option.map_some]

/-- A write up to the end. -/
lemma write_eq (hmemory : memory.length < sliceBound) (hbuffer : buffer.length < sliceBound)
    (hoffset : offset ≤ memory.length) :
    write memory buffer offset = some (min buffer.length (memory.length - offset),
      splice memory offset (buffer.take (min buffer.length (memory.length - offset)))) := by
  rw [write, transferLength_eq hmemory hbuffer hoffset, Option.map_some]

/-- What a read leaves in the buffer. -/
lemma getElem?_read (hoffset : offset ≤ memory.length) (i : ℕ) :
    (splice buffer 0 (slice memory offset (min buffer.length (memory.length - offset))))[i]? =
      if i < min buffer.length (memory.length - offset) then memory[offset + i]? else
      buffer[i]? := by
  have hlen : (slice memory offset (min buffer.length (memory.length - offset))).length =
      min buffer.length (memory.length - offset) := length_slice (by omega)
  rw [getElem?_splice (by omega), hlen]
  simp only [Nat.zero_le, true_and, Nat.zero_add, Nat.sub_zero]
  split_ifs with hi
  · exact getElem?_slice hi
  · rfl

/-- What a write leaves in the framebuffer. -/
lemma getElem?_write (hoffset : offset ≤ memory.length) (i : ℕ) :
    (splice memory offset (buffer.take (min buffer.length (memory.length - offset))))[i]? =
      if offset ≤ i ∧ i < offset +
        min buffer.length (memory.length - offset) then buffer[i - offset]?
      else memory[i]? := by
  have hlen : (buffer.take (min buffer.length (memory.length - offset))).length =
      min buffer.length (memory.length - offset) := by
    rw [List.length_take]
    omega
  rw [getElem?_splice (by omega), hlen]
  split_ifs with hi
  · rw [List.getElem?_take, if_pos (by omega)]
  · rfl

end LimineFramebuffer

/-! ## Open files of the framebuffer -/

/-- Block devices and the framebuffer are seekable; no device file has a size of its own. -/
instance : SeekableVNode DevINode where
  seekable node :=
    match node.device with
    | some .block => true
    | some (.char (.limineFramebuffer _)) => true
    | some (.char .stream) => false
    | none => false
  size _ := 0

/-- An open file of the framebuffer, with the bytes of the framebuffer. -/
structure FramebufferFile where
  file : OpenFile DevINode
  memory : List UInt8

namespace FramebufferFile

/-- Read from the position on. -/
def read (f : FramebufferFile) (buffer : List UInt8) : Option (ℕ × List UInt8 × FramebufferFile) :=
  (LimineFramebuffer.read f.memory buffer f.file.offset).map fun r =>
    (r.1, r.2, { f with file := { f.file with offset := wadd f.file.offset r.1 } })

/-- Write from the position on. -/
def write (f : FramebufferFile) (buffer : List UInt8) : Option (ℕ × FramebufferFile) :=
  (LimineFramebuffer.write f.memory buffer f.file.offset).map fun r =>
    (r.1, ⟨{ f.file with offset := wadd f.file.offset r.1 }, r.2⟩)

/-- Move the position. -/
def seek (f : FramebufferFile) (offset : Int64) (whence : Int32) :
    Except FsError (ℕ × FramebufferFile) :=
  match OpenFile.seek offset whence f.file with
  | .ok position file => .ok (position, { f with file := file })
  | .error e _ => .error e

/-- A seek from the start. -/
lemma seek_seekSet {file : File DevINode} (hseek : SeekableVNode.seekable file.vnode) (position : ℕ)
    (memory : List UInt8) {offset : ℕ} (hoffset : offset < sliceBound) :
    seek ⟨⟨file, position⟩, memory⟩ (Int64.ofNat offset) seekSet =
      .ok (offset, ⟨⟨file, offset⟩, memory⟩) := by
  have hint : (Int64.ofNat offset).toInt = offset := Int64.toInt_ofNat_of_lt hoffset
  have hbound : sliceBound + sliceBound = usizeBound := rfl
  have hinside : ¬((offset : ℤ) < 0 ∨ (usizeBound : ℤ) ≤ (offset : ℤ)) := by omega
  simp only [seek, OpenFile.seek, exec_bind, exec_get, hseek, Bool.not_true, Bool.false_eq_true,
    if_false, if_true,
    exec_pure, hint, zero_add, if_neg hinside, exec_set, Int.toNat_natCast]

end FramebufferFile

open LimineFramebuffer List Option

/-- `read` and `write` move the part of their range that is inside, return its size and change
nothing else, and what is written through an open file is read back from the same position: all this
exactly if the offset is not behind the end of the framebuffer. -/
theorem framebuffer_transfers {memory buffer : List UInt8} {offset : ℕ}
    (hmemory : memory.length < sliceBound)
    (hbuffer : buffer.length < sliceBound) :
    ((∃ out, read memory buffer offset = some (min buffer.length (memory.length - offset), out) ∧
        ∀ i, out[i]? =
          if i < min buffer.length (memory.length - offset) then
          memory[offset + i]? else buffer[i]?) ∧
      (∃ out, write memory buffer offset = some (min buffer.length (memory.length - offset), out) ∧
        ∀ i, out[i]? =
          if offset ≤ i ∧ i < offset +
            min buffer.length (memory.length - offset) then buffer[i - offset]?
          else memory[i]?) ∧
      ∀ f : FramebufferFile, f.memory = memory → f.file.offset = offset →
        SeekableVNode.seekable f.file.vnode = true →
        ∃ f₁ f₂, f.write buffer = some (min buffer.length (memory.length - offset), f₁) ∧
          f₁.seek (Int64.ofNat offset) seekSet = .ok (offset, f₂) ∧
          ∀ target : List UInt8, target.length < sliceBound → ∃ out f₃,
            f₂.read target = some (min target.length (memory.length - offset), out, f₃) ∧
            ∀ i < min (min buffer.length target.length)
            (memory.length - offset), out[i]? = buffer[i]?) ↔
    offset ≤ memory.length := by
  refine ⟨fun ⟨⟨out, hread, _⟩, _⟩ => ?_, fun hoffset => ?_⟩
  · by_contra hbehind
    rw [LimineFramebuffer.read, transferLength_eq_none (Nat.not_le.mp hbehind)] at hread
    cases hread
  refine ⟨⟨_, read_eq hmemory hbuffer hoffset, getElem?_read hoffset⟩,
    ⟨_, write_eq hmemory hbuffer hoffset, getElem?_write hoffset⟩, fun f hf hposition hseek => ?_⟩
  set written :=
    splice memory offset (buffer.take (min buffer.length (memory.length - offset))) with hwritten
  have hlen : written.length = memory.length := by
    refine length_splice ?_
    rw [length_take]
    omega
  have hwrite : f.write buffer = some (min buffer.length (memory.length - offset),
      ⟨⟨f.file.toFile, wadd offset (min buffer.length (memory.length - offset))⟩, written⟩) := by
    rw [FramebufferFile.write, hf, hposition, write_eq hmemory hbuffer hoffset, map_some]
  refine ⟨_, _, hwrite, FramebufferFile.seek_seekSet hseek _ _ (by omega), fun target htarget => ?_⟩
  have hread := read_eq (hlen ▸ hmemory : written.length < sliceBound) htarget (hlen ▸ hoffset)
  rw [hlen] at hread
  refine ⟨_, _, by rw [FramebufferFile.read, hread, map_some], fun i hi => ?_⟩
  rw [← hlen, getElem?_read (hlen ▸ hoffset), if_pos (by omega), hwritten, getElem?_write hoffset,
    if_pos (by omega),
    Nat.add_sub_cancel_left]

/-- The node of a framebuffer. -/
def framebufferNode : DevINode := ⟨1, some (.char (.limineFramebuffer ⟨none, 4⟩)), none⟩

/-- Three bytes are written over the end of a framebuffer of four bytes. -/
theorem framebuffer_transfers_end : LimineFramebuffer.write [0, 0, 0, 0]
    [7, 8, 9] 2 = some (2, [0, 0, 7, 8]) ∧
    ∃ f₁ f₂ : FramebufferFile,
    FramebufferFile.write ⟨⟨⟨framebufferNode⟩, 2⟩, [0, 0, 0, 0]⟩ [7, 8, 9] = some (2, f₁) ∧
      f₁.seek 2 seekSet = .ok (2, f₂) ∧ ∃ out f₃, f₂.read [0, 0] = some (2, out, f₃) ∧
      out[1]? = some 8 := by
  obtain ⟨-, -, hfile⟩ := (framebuffer_transfers (show [0, 0, 0, 0].length < sliceBound by decide)
    (show [7, 8, 9].length < sliceBound by decide)).mpr (show 2 ≤ [0, 0, 0, 0].length by decide)
  obtain ⟨f₁, f₂, hwrite, hseek, hread⟩ := hfile ⟨⟨⟨framebufferNode⟩, 2⟩, _⟩ rfl rfl rfl
  obtain ⟨out, f₃, hout, hbytes⟩ := hread [0, 0] (by decide)
  exact ⟨by decide, f₁, f₂, hwrite, hseek, out, f₃, hout, hbytes 1 (by decide)⟩

/-- Behind the end of a framebuffer of four bytes both calls panic. -/
theorem framebuffer_panics_behind : ∃ f : FramebufferFile,
    FramebufferFile.seek ⟨⟨⟨framebufferNode⟩, 0⟩, [0, 0, 0, 0]⟩ 5 seekSet = .ok (5, f) ∧
    f.read [7] = none ∧ f.write [7] = none := by
  refine ⟨_, FramebufferFile.seek_seekSet rfl 0 _ (show 5 < sliceBound by decide), ?_, ?_⟩
  · decide
  · decide

end CabOS
