import CabOS.Fs.Ramfs
import CabOS.Memory.UserCopy

/-!
# Open files

An open file has a position, from which a read goes on and which a seek moves.  If the file returns
as many of its bytes as there are, it does not matter how a read is cut into pieces: the pieces are
those of one read, and both leave the same position (`runCalls_eq_read`).
-/

namespace CabOS

open List

/-- What a seek uses of a file. -/
class SeekableVNode (V : Type) extends ReadableVNode V where
  seekable : V → Bool
  size : V → ℕ

/-- Only the files of the in-memory file system are seekable; the size of a directory is not used.
-/
instance : SeekableVNode RamInode where
  seekable node :=
    match node.kind with
    | .file _ => true
    | .dir => false
  size node :=
    match node.kind with
    | .file data => data.length
    | .dir => 0

/-- The position is given. -/
def seekSet : Int32 := 0

/-- The position is given from the current one. -/
def seekCur : Int32 := 1

/-- The position is given from the end. -/
def seekEnd : Int32 := 2

namespace OpenFile

variable {V : Type}

/-- Read into a buffer of the given length. -/
def read [ReadableVNode V] (len : ℕ) : EStateM FsError (OpenFile V) (List UInt8) := do
  let file ← get
  let bytes ← MonadExcept.ofExcept (ReadableVNode.readUnaligned file.vnode file.offset len)
  set { file with offset := wadd file.offset bytes.length }
  pure bytes

/-- Move the position. -/
def seek [SeekableVNode V] (offset : Int64) (whence : Int32) : EStateM FsError (OpenFile V) ℕ := do
  let file ← get
  if !SeekableVNode.seekable file.vnode then throw .invalidOperation
  let base : ℤ ←
    if whence = seekSet then pure 0
    else if whence = seekCur then pure (file.offset : ℤ)
    else if whence = seekEnd then pure (SeekableVNode.size file.vnode : ℤ)
    else throw .invalidInput
  -- the sum of two numbers of 64 bits always fits in the 128 bits of the source
  let newOffset := base + offset.toInt
  if newOffset < 0 ∨ (usizeBound : ℤ) ≤ newOffset then throw .invalidInput
  set { file with offset := newOffset.toNat }
  pure newOffset.toNat

/-- A read, or a question for the position. -/
inductive Call where
  | read (len : ℕ)
  | tell
  deriving DecidableEq, Repr

/-- The number of bytes that a call asks for. -/
def Call.len : Call → ℕ
  | .read len => len
  | .tell => 0

section

variable [SeekableVNode V]

/-- The bytes that a call returns; an answer to the question for the position is not looked at. -/
def Call.exec : Call → EStateM FsError (OpenFile V) (List UInt8)
  | .read len => OpenFile.read len
  | .tell => fun file => .ok [] (finalState (seek 0 seekCur) file)

/-- Make the calls one after the other and put the bytes together. -/
def runCalls : List Call → EStateM FsError (OpenFile V) (List UInt8)
  | [] => pure []
  | call :: calls => do
    let bytes ← call.exec
    let rest ← runCalls calls
    pure (bytes ++ rest)

end

/-! ## Reads in pieces -/

/-- The file has a fixed content, and a read returns what is there of it. -/
def ReadsContent [ReadableVNode V] (vnode : V) (data : List UInt8) : Prop :=
  ∀ offset len, ReadableVNode.readUnaligned vnode offset len = .ok (slice data offset len)

variable {data : List UInt8} {vnode : V} {offset : ℕ}

/-- One read. -/
lemma read_eq [ReadableVNode V] (h : ReadsContent vnode data) (hdata : data.length < usizeBound)
    (hoffset : offset < usizeBound) (len : ℕ) :
    read len ⟨⟨vnode⟩, offset⟩ =
      .ok (slice data offset len) ⟨⟨vnode⟩, offset + (slice data offset len).length⟩ := by
  have hlen : offset + (slice data offset len).length < usizeBound := by
    simp only [slice, length_take, length_drop]
    omega
  simp only [read, exec_bind, exec_get, exec_ofExcept, h offset len, exec_set,
    exec_pure, wadd_eq hlen]

/-- The question for the position does not move it, whether the file can be asked or not. -/
lemma exec_tell [SeekableVNode V] (hoffset : offset < usizeBound) :
    Call.tell.exec (⟨⟨vnode⟩, offset⟩ : OpenFile V) = .ok [] ⟨⟨vnode⟩, offset⟩ := by
  have hne : seekCur ≠ seekSet := by decide
  have hinside : ¬((offset : ℤ) < 0 ∨ (usizeBound : ℤ) ≤ (offset : ℤ)) := by omega
  have hfinal : finalState (seek 0 seekCur) (⟨⟨vnode⟩, offset⟩ : OpenFile V) =
    ⟨⟨vnode⟩, offset⟩ := by
    cases hseekable : SeekableVNode.seekable vnode with
    | false => simp [finalState, seek, hseekable]
    | true =>
      refine finalState_of_ok (a := offset) ?_
      simp only [seek, exec_bind, exec_get, hseekable, Bool.not_true, Bool.false_eq_true, if_false,
        if_neg hne, if_true,
        exec_pure, if_neg hinside, exec_set, Int64.toInt_zero, add_zero, Int.toNat_natCast]
  exact congrArg (EStateM.Result.ok []) hfinal

/-- Reads of any sizes, with questions for the position between them, return the bytes of one read
of the sum of the sizes and leave the same position. -/
theorem runCalls_eq_read [SeekableVNode V] (h : ReadsContent vnode data)
    (hdata : data.length < usizeBound)
    (hoffset : offset < usizeBound) (calls : List Call) :
    runCalls calls ⟨⟨vnode⟩, offset⟩ = read (calls.map Call.len).sum ⟨⟨vnode⟩, offset⟩ ∧
      read (calls.map Call.len).sum ⟨⟨vnode⟩, offset⟩ =
        .ok (slice data offset (calls.map Call.len).sum)
          ⟨⟨vnode⟩, offset + (slice data offset (calls.map Call.len).sum).length⟩ := by
  refine ⟨?_, read_eq h hdata hoffset _⟩
  rw [read_eq h hdata hoffset]
  induction calls generalizing offset with
  | nil => simp [runCalls, slice]
  | cons call calls ih =>
    cases call with
    | tell =>
      simp only [runCalls, exec_bind, exec_tell hoffset, ih hoffset, exec_pure, nil_append,
        map_cons, Call.len,
        sum_cons, Nat.zero_add]
    | read len =>
      have hlen : offset + (slice data offset len).length < usizeBound := by
        simp only [slice, length_take, length_drop]
        omega
      simp only [runCalls, Call.exec, exec_bind, read_eq h hdata hoffset, ih hlen, exec_pure,
        map_cons, Call.len,
        sum_cons, ← slice_append_slice, length_append, Nat.add_assoc]

/-- A file in memory returns as many of its bytes as there are. -/
lemma readsContent_ramInode (number : ℕ) (data : List UInt8) (fsId : Option ℕ) :
    ReadsContent (⟨number, .file data, fsId⟩ : RamInode) data :=
  RamInode.readUnaligned_file number fsId

/-- Three reads and a question at the end of a file of five bytes. -/
theorem runCalls_eq_read_five_bytes :
    runCalls [.read 2, .tell, .read 0, .read 9]
      ⟨⟨(⟨1, .file [1, 2, 3, 4, 5], none⟩ : RamInode)⟩, 1⟩ =
        .ok [2, 3, 4, 5] ⟨⟨⟨1, .file [1, 2, 3, 4, 5], none⟩⟩, 5⟩ := by
  obtain ⟨hcalls, hread⟩ :=
    runCalls_eq_read (readsContent_ramInode 1 [1, 2, 3, 4, 5] none) (by decide)
      (show 1 < usizeBound by decide) [.read 2, .tell, .read 0, .read 9]
  exact hcalls.trans hread

end OpenFile

end CabOS
