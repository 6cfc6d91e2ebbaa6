import CabOS.Fs.Vfs

/-!
# Files in memory

A file of the in-memory file system is a vector of bytes.  Reads stop at its end, a page is filled
up with zeros, and a write behind the end makes the file longer.
-/

namespace CabOS

/-- What a node of the in-memory file system is. -/
inductive RamInodeKind where
  | file (data : List UInt8)
  | dir
  deriving DecidableEq, Repr

/-- A node of the in-memory file system. -/
structure RamInode where
  number : ℕ
  kind : RamInodeKind
  /-- The number of the file system, if it is registered. -/
  fsId : Option ℕ
  deriving DecidableEq, Repr

namespace RamInode

/-- The bytes of a file. -/
def asFile (node : RamInode) : Except FsError (List UInt8) :=
  match node.kind with
  | .file data => .ok data
  | .dir => .error .invalidOperation

/-- The bytes that are read into a buffer of the given length. -/
def readUnaligned (node : RamInode) (offset len : ℕ) : Except FsError (List UInt8) := do
  let data ← node.asFile
  if offset ≥ data.length then
    return []
  return slice data offset (min len (data.length - offset))

/-- Write a buffer and return the number of bytes. -/
def writeUnaligned (node : RamInode) (offset : ℕ) (buffer : List UInt8) :
    Except FsError (ℕ × RamInode) := do
  let data ← node.asFile
  let data := if offset + buffer.length > data.length then
    data ++ List.replicate (offset + buffer.length - data.length) 0 else data
  return (buffer.length, { node with kind := .file (splice data offset buffer) })

/-- The bytes of a page. -/
def readPage (node : RamInode) (offset : ℕ) : Except FsError (ℕ → UInt8) := do
  let data ← node.asFile
  if offset ≥ data.length then
    return fun _ => 0
  let len := min pageSize (data.length - offset)
  return fun k => if k < len then (slice data offset len)[k]?.getD 0 else 0

/-- The key of a node whose file system is registered. -/
def getInodeKey (node : RamInode) : Except FsError INodeKey :=
  match node.fsId with
  | some id => .ok ⟨id, node.number⟩
  | none => .error .notFound

end RamInode

/-- The file system of a node need not be registered: no key leads to a node. -/
instance : ReadableVNode RamInode where
  prepareMmap _ _ := .error .notImplemented
  readUnaligned := RamInode.readUnaligned
  readPage := RamInode.readPage
  getInodeKey := RamInode.getInodeKey
  getInode _ := .error .notFound

namespace RamInode

variable {data : List UInt8} (number : ℕ)

/-- A read returns what is there of the bytes that are asked for. -/
lemma readUnaligned_file (fsId : Option ℕ) (offset len : ℕ) :
    readUnaligned ⟨number, .file data, fsId⟩ offset len = .ok (slice data offset len) := by
  change (if offset ≥ data.length then _ else _) = _
  split_ifs with hle
  · simp [slice, List.drop_eq_nil_of_le hle]
    rfl
  · have hlen : (data.drop offset).length = data.length - offset := List.length_drop ..
    refine congrArg Except.ok ?_
    rw [slice, slice, ← hlen, ← List.take_eq_take_min]

/-- A file in memory holds its bytes. -/
lemma hasContents (fsId : Option ℕ) : HasContents (⟨number, .file data, fsId⟩ : RamInode) data := by
  refine ⟨fun _ => rfl, readUnaligned_file number fsId, fun offset => ?_⟩
  change ∃ bytes, (if offset ≥ data.length then _ else _) = _ ∧ _
  split_ifs with hle
  · refine ⟨_, rfl, fun k _ => ?_⟩
    rw [List.getElem?_eq_none (by omega), Option.getD_none]
  · refine ⟨_, rfl, fun k hk => ?_⟩
    by_cases hlt : k < min pageSize (data.length - offset)
    · simp only [if_pos hlt, getElem?_slice hlt]
    · have hnone : data[offset + k]? = none := List.getElem?_eq_none (by omega)
      simp only [if_neg hlt, hnone, Option.getD_none]

end RamInode

end CabOS
