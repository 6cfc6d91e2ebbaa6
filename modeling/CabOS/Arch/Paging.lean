import Mathlib

/-!
# Pages

The page size, which all supported architectures share, and the attributes of a page that do not
depend on the architecture.
-/

namespace CabOS

/-- The number of bytes of a page. -/
def pageSize : ℕ := 4096

/-- Architecture-independent page attributes. -/
abbrev PagingOptions := BitVec 64

namespace PagingOptions

/-- The page is present. -/
def present : PagingOptions := 1#64 <<< 0

/-- The page can be written. -/
def writable : PagingOptions := 1#64 <<< 1

/-- The page can be executed. -/
def executable : PagingOptions := 1#64 <<< 2

/-- User programs can use the page. -/
def userAccessible : PagingOptions := 1#64 <<< 3

/-- The page may be cached. -/
def cacheable : PagingOptions := 1#64 <<< 5

/-- The range is mapped by someone else and only reserved here. -/
def shadow : PagingOptions := 1#64 <<< 8

/-- The page is device memory. -/
def deviceMemory : PagingOptions := 1#64 <<< 9

end PagingOptions

end CabOS
