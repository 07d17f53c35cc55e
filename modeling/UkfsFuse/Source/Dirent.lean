import UkfsFuse.Source.Reply

/-!
# Directory entries on the wire (`fuse_add_direntry`)
-/

namespace UkfsFuse

open UkfsFuse.Core

/-- `FUSE_NAME_OFFSET` -/
def FUSE_NAME_OFFSET : Nat := 24

/-- `FUSE_DIRENT_ALIGN(x)`: up to the next multiple of 8. -/
def FUSE_DIRENT_ALIGN (x : Nat) : Nat := (x + 8 - 1) / 8 * 8

def S_IFMT : UInt32 := 0xf000

/-- The bytes `fuse_add_direntry` writes for an entry. -/
def direntBytes (name : CStr) (stbuf : Stat) (off : Int64) : List UInt8 :=
  let entlen := FUSE_NAME_OFFSET + name.strlen
  u64Bytes stbuf.stIno ++ (u64Bytes off.toUInt64 ++ (u32Bytes (.ofNat name.strlen) ++
    (u32Bytes ((stbuf.stMode &&& S_IFMT) >>> 12) ++
      (name.bytes ++ List.replicate (FUSE_DIRENT_ALIGN entlen - entlen) 0))))

/-- `fuse_add_direntry`: the padded size of the entry and, unless `buf` is
`NULL` or too small, the bytes written. -/
def fuseAddDirentry (bufsize : Option Nat) (name : CStr) (stbuf : Stat) (off : Int64) :
    Nat × Option (List UInt8) :=
  let entlenPadded := FUSE_DIRENT_ALIGN (FUSE_NAME_OFFSET + name.strlen)
  match bufsize with
  | none => (entlenPadded, none)
  | some size =>
      if entlenPadded > size then (entlenPadded, none)
      else (entlenPadded, some (direntBytes name stbuf off))

/-- `struct fuse_dirent`, its name by the `namelen` bytes that follow. -/
structure FuseDirent where
  ino : UInt64
  off : UInt64
  namelen : UInt32
  type : UInt32
  name : List UInt8
deriving DecidableEq, Repr

/-- `fd->namelen` of the first entry of a reply; `none` when it lies behind the
end of the reply. -/
def FuseDirent.firstNamelen (reply : List UInt8) : Option UInt32 :=
  if 20 ≤ reply.length then some ((Mem.ofList reply).u32At 16) else none

/-- The first `struct fuse_dirent` of a reply; `none` when header or name reach
behind the end of the reply. -/
def FuseDirent.first (reply : List UInt8) : Option FuseDirent :=
  let m := Mem.ofList reply
  let namelen := m.u32At 16
  if FUSE_NAME_OFFSET + namelen.toNat ≤ reply.length then
    some {
      ino := m.u64At 0
      off := m.u64At 8
      namelen := namelen
      type := m.u32At 20
      name := m.read FUSE_NAME_OFFSET namelen.toNat }
  else none

end UkfsFuse
