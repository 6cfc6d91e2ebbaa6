import CabOS.Library.Splice
import CabOS.Memory.UserVirtualMemory

/-!
# Files

What the memory system and the program loader use of a file: bytes at an offset, pages, and the key
under which the file system finds the file again.
-/

namespace CabOS

/-- The name of a file in the whole system. -/
structure INodeKey where
  filesystemId : ℕ
  inumber : ℕ
  deriving DecidableEq, Repr

/-- Files that can be read. -/
class ReadableVNode (V : Type) extends VNode V where
  /-- The bytes that are read from an offset on into a buffer of the given length. -/
  readUnaligned : V → ℕ → ℕ → Except FsError (List UInt8)
  /-- The bytes of the page that is read from an offset on. -/
  readPage : V → ℕ → Except FsError (ℕ → UInt8)
  getInodeKey : V → Except FsError INodeKey
  /-- The file with a key. -/
  getInode : INodeKey → Except FsError V

/-- The file is an ordinary one that holds the bytes `data`; behind its end a page is filled with
zeros. -/
structure HasContents {V : Type} [ReadableVNode V] (file : V) (data : List UInt8) : Prop where
  prepareMmap : ∀ offset, VNode.prepareMmap file offset = .error .notImplemented
  readUnaligned : ∀ offset len,
    ReadableVNode.readUnaligned file offset len = .ok (slice data offset len)
  readPage : ∀ offset, ∃ bytes, ReadableVNode.readPage file offset = .ok bytes ∧
    ∀ k < pageSize, bytes k = data[offset + k]?.getD 0

end CabOS
