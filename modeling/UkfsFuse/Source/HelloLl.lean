import UkfsFuse.Source.Dirent
import UkfsFuse.Source.Dispatch

/-!
# The example backend (`hello_ll.c`)

The directory buffer of `hello_ll_readdir`, for any list of entries,
`reply_buf_limited`, and the five callbacks the daemon's requests lead to.
-/

namespace UkfsFuse

open UkfsFuse.Core

/-- `dirbuf_add`: the entry's cookie is the size of the buffer with it. -/
def dirbufAdd (b : List UInt8) (name : CStr) (ino : UInt64) : List UInt8 :=
  let oldsize := b.length
  let size := oldsize + (fuseAddDirentry none name {} 0).1
  match (fuseAddDirentry (some (size - oldsize)) name { stIno := ino } (.ofNat size)).2 with
  | some bytes => b ++ bytes
  | none => b ++ List.replicate (size - oldsize) 0

/-- `reply_buf_limited`; a negative offset would read in front of the buffer. -/
def replyBufLimited (buf : List UInt8) (off : Int64) (maxsize : UInt64) : Option Reply :=
  if off < Int64.ofNat buf.length then
    if off < 0 then none
    else
      let off := off.toNatClampNeg
      some (.buf ((buf.drop off).take (min (buf.length - off) maxsize.toNat)))
  else some (.buf [])

def ENOTDIR : Int32 := 20

/-- `hello_ll_readdir`, with the entries `adds` for its three. -/
def helloLlReaddir (adds : List (CStr × UInt64)) (ino size : UInt64) (off : Int64) :
    Option Reply :=
  if ino ≠ 1 then some (.err ENOTDIR)
  else replyBufLimited (adds.foldl (fun b add => dirbufAdd b add.1 add.2) []) off size

/-! ## The other callbacks -/

def O_ACCMODE : Int32 := 3
def O_RDONLY : Int32 := 0

end UkfsFuse
