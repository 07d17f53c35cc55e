import UkfsFuse.Source.Opt

/-!
# The command line of a file system (`helper.c`)

`fuse_parse_cmdline` runs the option parser over a table of its own. `sscanf`
is a parameter: the two formats of the table store an `unsigned`.
-/

namespace UkfsFuse

open UkfsFuse.Core AllocM

/-- `struct fuse_cmdline_opts` -/
structure FuseCmdlineOpts where
  singlethread : Int32 := 0
  foreground : Int32 := 0
  debug : Int32 := 0
  nodefaultSubtype : Int32 := 0
  mountpoint : Option CStr := none
  showVersion : Int32 := 0
  showHelp : Int32 := 0
  cloneFd : Int32 := 0
  maxIdleThreads : UInt32 := 0
  maxThreads : UInt32 := 0

namespace FuseCmdlineOpts

/-- `offsetof` of the fields, on a 64-bit platform. -/
def offSinglethread : Nat := 0
def offForeground : Nat := 4
def offDebug : Nat := 8
def offNodefaultSubtype : Nat := 12
def offShowVersion : Nat := 24
def offShowHelp : Nat := 28
def offCloneFd : Nat := 32
/-- A store of an `int` at an offset of the table. -/
def setInt (opts : FuseCmdlineOpts) (off : Nat) (value : Int32) : FuseCmdlineOpts :=
  if off = offSinglethread then { opts with singlethread := value }
  else if off = offForeground then { opts with foreground := value }
  else if off = offDebug then { opts with debug := value }
  else if off = offNodefaultSubtype then { opts with nodefaultSubtype := value }
  else if off = offShowVersion then { opts with showVersion := value }
  else if off = offShowHelp then { opts with showHelp := value }
  else if off = offCloneFd then { opts with cloneFd := value }
  else opts

end FuseCmdlineOpts

open FuseCmdlineOpts

/-! The templates of the table. -/

def templDebug : CStr := ⟨[0x64, 0x65, 0x62, 0x75, 0x67], by decide⟩
/-- `FUSE_HELPER_OPT(t, p)` -/
def helperOpt (t : CStr) (off : Nat) : FuseOpt := ⟨t, some off, 1⟩

end UkfsFuse
