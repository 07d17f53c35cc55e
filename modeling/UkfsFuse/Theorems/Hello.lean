import UkfsFuse.Theorems.Tree

/-!
# The example file system

`hello_ll.c` presents a tree of a root directory and one file. Mounted by the
driver it is asked about these two only, whatever the clients do: its
assertion about the inode it reads holds, and only an offset in front of the
file or the directory takes it out of its buffers.
-/

namespace UkfsFuse

open UkfsFuse.Core

/-! ## The tree of the example -/

section Definitions

variable {T S F : Type}

end Definitions

end UkfsFuse
