import UkfsFuse.Core.Bytes

/-!
# The wire structures (`fuse_kernel.h`)

Opcodes, the 40-byte request header as field accesses into the message
buffer, and the request payloads the driver uses. A payload is written with
`toBytes` (the `memcpy` of the filled struct) and read back in place with
`ofMem`; the two are inverse.
-/

namespace UkfsFuse

open UkfsFuse.Core

/-! ## Opcodes -/

def FUSE_LOOKUP : UInt32 := 1
def FUSE_GETATTR : UInt32 := 3
def FUSE_OPEN : UInt32 := 14
def FUSE_READ : UInt32 := 15
def FUSE_INIT : UInt32 := 26
def FUSE_READDIR : UInt32 := 28
def FUSE_INTERRUPT : UInt32 := 36
def CUSE_INIT : UInt32 := 4096

/-! ## `struct fuse_in_header` -/

def sizeofFuseInHeader : Nat := 40

/-- The fields of `struct fuse_in_header`, by their offset in the message. -/
structure FuseInHeader where
  len : UInt32
  opcode : UInt32
  unique : UInt64
  nodeid : UInt64
  uid : UInt32
  gid : UInt32
  pid : UInt32
deriving DecidableEq, Repr

/-- `(struct fuse_in_header *)buf` -/
def FuseInHeader.ofMem (buf : Mem) : FuseInHeader where
  len := buf.u32At 0
  opcode := buf.u32At 4
  unique := buf.u64At 8
  nodeid := buf.u64At 16
  uid := buf.u32At 24
  gid := buf.u32At 28
  pid := buf.u32At 32

namespace HeaderField

def setLen (buf : Mem) (v : UInt32) : Mem := buf.write 0 (u32Bytes v)
def setOpcode (buf : Mem) (v : UInt32) : Mem := buf.write 4 (u32Bytes v)
def setUnique (buf : Mem) (v : UInt64) : Mem := buf.write 8 (u64Bytes v)
def setNodeid (buf : Mem) (v : UInt64) : Mem := buf.write 16 (u64Bytes v)
def setUid (buf : Mem) (v : UInt32) : Mem := buf.write 24 (u32Bytes v)
def setGid (buf : Mem) (v : UInt32) : Mem := buf.write 28 (u32Bytes v)
def setPid (buf : Mem) (v : UInt32) : Mem := buf.write 32 (u32Bytes v)

end HeaderField

/-! ## Request payloads -/

structure FuseGetattrIn where
  getattrFlags : UInt32 := 0
  dummy : UInt32 := 0
  fh : UInt64 := 0
deriving DecidableEq, Repr

structure FuseOpenIn where
  flags : UInt32 := 0
  openFlags : UInt32 := 0
deriving DecidableEq, Repr

structure FuseReadIn where
  fh : UInt64 := 0
  offset : UInt64 := 0
  size : UInt32 := 0
  readFlags : UInt32 := 0
  lockOwner : UInt64 := 0
  flags : UInt32 := 0
  padding : UInt32 := 0
deriving DecidableEq, Repr

def FuseGetattrIn.toBytes (a : FuseGetattrIn) : List UInt8 :=
  u32Bytes a.getattrFlags ++ (u32Bytes a.dummy ++ u64Bytes a.fh)

def FuseGetattrIn.ofMem (m : Mem) (off : Nat) : FuseGetattrIn where
  getattrFlags := m.u32At off
  dummy := m.u32At (off + 4)
  fh := m.u64At (off + 8)

def FuseOpenIn.toBytes (a : FuseOpenIn) : List UInt8 :=
  u32Bytes a.flags ++ u32Bytes a.openFlags

def FuseOpenIn.ofMem (m : Mem) (off : Nat) : FuseOpenIn where
  flags := m.u32At off
  openFlags := m.u32At (off + 4)

def FuseReadIn.toBytes (a : FuseReadIn) : List UInt8 :=
  u64Bytes a.fh ++ (u64Bytes a.offset ++ (u32Bytes a.size ++ (u32Bytes a.readFlags ++
    (u64Bytes a.lockOwner ++ (u32Bytes a.flags ++ u32Bytes a.padding)))))

def FuseReadIn.ofMem (m : Mem) (off : Nat) : FuseReadIn where
  fh := m.u64At off
  offset := m.u64At (off + 8)
  size := m.u32At (off + 16)
  readFlags := m.u32At (off + 20)
  lockOwner := m.u64At (off + 24)
  flags := m.u32At (off + 32)
  padding := m.u32At (off + 36)

@[simp] theorem FuseGetattrIn.length_toBytes (a : FuseGetattrIn) : a.toBytes.length = 16 := by
  simp [toBytes]

@[simp] theorem FuseOpenIn.length_toBytes (a : FuseOpenIn) : a.toBytes.length = 8 := by
  simp [toBytes]

@[simp] theorem FuseReadIn.length_toBytes (a : FuseReadIn) : a.toBytes.length = 40 := by
  simp [toBytes]

theorem FuseGetattrIn.ofMem_write (m : Mem) (off : Nat) (a : FuseGetattrIn) :
    ofMem (m.write off a.toBytes) off = a := by
  simp (disch := omega) only [toBytes, ofMem, Mem.write_append, length_u32Bytes,
    Nat.add_assoc, Nat.reduceAdd, u32At_write, u64At_write, u32At_write_u32, u32At_write_u64]

theorem FuseOpenIn.ofMem_write (m : Mem) (off : Nat) (a : FuseOpenIn) :
    ofMem (m.write off a.toBytes) off = a := by
  simp (disch := omega) only [toBytes, ofMem, Mem.write_append, length_u32Bytes,
    u32At_write, u32At_write_u32]

theorem FuseReadIn.ofMem_write (m : Mem) (off : Nat) (a : FuseReadIn) :
    ofMem (m.write off a.toBytes) off = a := by
  simp (disch := omega) only [toBytes, ofMem, Mem.write_append, length_u32Bytes, length_u64Bytes,
    Nat.add_assoc, Nat.reduceAdd, u32At_write, u64At_write, u32At_write_u32, u32At_write_u64,
    u64At_write_u32, u64At_write_u64]

section Frame

variable {m : Mem} {o off : Nat} {bs : List UInt8}

/-- A payload does not see what is written in front of it. -/
theorem FuseGetattrIn.ofMem_write_before (h : o + bs.length ≤ off) :
    ofMem (m.write o bs) off = ofMem m off := by
  simp (disch := omega) only [ofMem, u32At_write_disjoint, u64At_write_disjoint]

theorem FuseOpenIn.ofMem_write_before (h : o + bs.length ≤ off) :
    ofMem (m.write o bs) off = ofMem m off := by
  simp (disch := omega) only [ofMem, u32At_write_disjoint]

theorem FuseReadIn.ofMem_write_before (h : o + bs.length ≤ off) :
    ofMem (m.write o bs) off = ofMem m off := by
  simp (disch := omega) only [ofMem, u32At_write_disjoint, u64At_write_disjoint]

end Frame

/-! ## `struct fuse_open_out` -/

def FOPEN_DIRECT_IO : UInt32 := (1 : UInt32) <<< 0
def FOPEN_KEEP_CACHE : UInt32 := (1 : UInt32) <<< 1
def FOPEN_NONSEEKABLE : UInt32 := (1 : UInt32) <<< 2
def FOPEN_CACHE_DIR : UInt32 := (1 : UInt32) <<< 3
def FOPEN_NOFLUSH : UInt32 := (1 : UInt32) <<< 5
def FOPEN_PARALLEL_DIRECT_WRITES : UInt32 := (1 : UInt32) <<< 6
def FOPEN_PASSTHROUGH : UInt32 := (1 : UInt32) <<< 7

structure FuseOpenOut where
  fh : UInt64 := 0
  openFlags : UInt32 := 0
  backingId : Int32 := 0
deriving DecidableEq, Repr

def sizeofFuseOpenOut : Nat := 16

end UkfsFuse
