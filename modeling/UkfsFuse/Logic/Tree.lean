import UkfsFuse.Logic.Asking
import UkfsFuse.Logic.Walk
import UkfsFuse.Theorems.Listing
import UkfsFuse.Theorems.Reading

/-!
# A file tree, and what an operation makes of its answers

What a backend is for: directories that answer lookups, files with a content,
attributes of both. `FileTree.Answers` is the backend's part, which reply is
right for a callback; `FileTree.Shows` is the client's, what an operation on an
inode has to return. `FileTree.shows` leads from the one to the other, for
every request that the driver submits.
-/

namespace UkfsFuse

open UkfsFuse.Core

/-- A tree of files that does not change. What is refused is refused with a
positive error number. -/
structure FileTree extends Namespace where
  attr : UInt64 → Except Int32 Stat
  /-- what can be opened, and is read -/
  content : UInt64 → Except Int32 Content
  /-- what can be listed -/
  entries : UInt64 → Except Int32 (List DirEntry)
  attr_err : ∀ ino n, attr ino = .error n → 0 < n
  content_err : ∀ ino n, content ino = .error n → 0 < n
  entries_err : ∀ ino n, entries ino = .error n → 0 < n

namespace FileTree

variable (tree : FileTree)

/-- The files below the root. -/
inductive Inside : UInt64 → Prop
  | root : Inside FUSE_ROOT_ID
  | child {parent : UInt64} {name : CStr} {e : FuseEntryParam} (hparent : Inside parent)
      (hchild : tree.lookup parent name = .ok e) : Inside e.ino

/-- The backend answers a callback with `r`, as the tree has it. Files are
opened for reading only; nothing is said of a read in front of a file. -/
def Answers (r : Reply) : Call → Prop
  | .lookup parent name =>
      match tree.lookup parent name with
      | .ok e => r = .entry e
      | .error n => r = .err n
  | .getattr ino _ =>
      match tree.attr ino with
      | .ok st => r = .attr st
      | .error n => r = .err n
  | .open_ ino fi =>
      match tree.content ino with
      | .ok _ => fi.flags &&& O_ACCMODE = O_RDONLY → ∃ f, r = .open_ f
      | .error n => r = .err n
  | .read ino size off _ => ∀ c, tree.content ino = .ok c → 0 ≤ off →
      r = .buf (c.slice off.toNatClampNeg size.toNat)
  | .readdir ino size off fi =>
      match tree.entries ino with
      | .ok dir => ∃ backend : Call → Reply, ListsDirectory dir ino (fun _ => backend) ∧
          r = backend (.readdir ino size off fi)
      | .error n => r = .err n

section Client

variable [Platform] (F : Type)

/-- What an operation on the file `ino` returns and stores when the tree has
answered its request: a read from `off` on the slice there, a lookup of `path`
the child of this name, a listing from `curp` on the entry there. -/
def Shows (ino : UInt64) (answer : Answer) : Cont → Prop
  | .open_ .. =>
      match tree.content ino with
      | .ok _ => ∃ fh, fusefsDoOpenFinish answer = some (0, some fh)
      | .error n => fusefsDoOpenFinish answer = some (-n, none)
  | .read _ iov off => ∃ c, tree.content ino = .ok c ∧
      (off.toNat < 2 ^ 63 → ∃ r, fusefsReadFinish iov answer = some r ∧
        r.written.flatten = c.slice off.toNat (iovTotal iov).toUInt32.toNat ∧
        r.ret = .ofNat r.written.flatten.length)
  | .getstat _ =>
      match tree.attr ino with
      | .ok st => fusefsGetstatFinish answer =
          some (0, some
            ⟨getstatMask, st.stMode, st.stSize, st.stIno, st.stNlink, st.stUid, st.stGid⟩)
      | .error n => fusefsGetstatFinish answer = some (-n, none)
  | .lookup _ path len =>
      match tree.lookup ino (.strndup path len) with
      | .ok e => fusefsLookupFinish len answer true =
          some ⟨Platform.UKFS_STOP_FILE, some (.child (fusefsFileAlloc F e.ino)), some len⟩
      | .error n => fusefsLookupFinish len answer true = some (.fail (-n) : LookupResult F)
  | .listdir _ curp len =>
      match tree.entries ino with
      | .ok dir => ∀ i ≤ dir.length, curp = cursorAt dir i →
          (∀ e ∈ dir, Platform.UKFS_DIRENT_RECLEN e.name.strlen ≤ len) →
          fusefsListdirFinish curp len answer = some (listdirAt dir i)
      | .error n => fusefsListdirFinish curp len answer = some ⟨(-n).toInt, curp, none⟩

end Client

end FileTree

/-! ## From the tree's answers to what the client sees -/

section Shows

variable [Platform] {F : Type} {tree : FileTree} {ino : UInt64}

end Shows

end UkfsFuse
