import UkfsFuse.Core.TSys
import UkfsFuse.Source.Driver

/-!
# References to files (`ukfs-fuse.c`, `uk/file.h`)

What the operations of the driver do to reference counts, and the `_release`
function of its nodes, which may run in any number of threads and calls itself
through `uk_file_release`. A node is the number of those allocated before it,
so a freed one is not mistaken for a later one at the same address.

`handles`, `root`, `life` and `frees` are not fields of the program: they say
how many references to a file its callers hold, where a node came from, how far
its release has got, and how often its memory was freed.
-/

namespace UkfsFuse

open UkfsFuse.Core

/-- A `struct uk_file`: node `n` of this driver, or a file of another one. -/
inductive FileRef (F : Type)
  | fuse (n : Nat)
  | other (f : F)
deriving DecidableEq, Repr

/-- How far the release of a node has got. -/
inductive Life (T : Type)
  /-- it has not begun -/
  | held
  /-- begun in thread `t`, which has not given back the node's `upref` -/
  | releasing (t : T)
  /-- `t` is about to free the node -/
  | freeing (t : T)
  | freed
deriving DecidableEq, Repr

/-- The node may still hold a reference to its `upref`. -/
def Life.Live {T : Type} : Life T → Prop
  | .held | .releasing _ => True
  | .freeing _ | .freed => False

instance {T : Type} (life : Life T) : Decidable life.Live := by
  cases life <;> unfold Life.Live <;> infer_instance

/-- A node; its `upref` may be another one. -/
structure CountedNode (T F : Type) where
  file : FusefsFile (FileRef F)
  root : Bool
  life : Life T
  frees : Nat

/-- Where a call of `fusefs_release(node, UK_FILE_RELEASE_OBJ)` is. -/
inductive Hook
  /-- at `if (ff->upref)` -/
  | upref (n : Nat)
  /-- at `uk_free(ff)` -/
  | free (n : Nat)
deriving DecidableEq, Repr

/-- Nodes, reference counts, and the running calls of `fusefs_release` of every
thread, innermost first. -/
structure RefState (T F : Type) where
  nodes : List (CountedNode T F)
  /-- the value of `f->refcnt` -/
  count : FileRef F → Nat
  handles : FileRef F → Nat
  stack : T → List Hook

/-- The calls a caller makes, and the steps of the releases they lead to. -/
inductive RefAct (T F : Type)
  /-- `fusefs_vopen`; `allocOk` is the outcome of `fusefs_file_alloc` -/
  | vopen (allocOk : Bool)
  | graft (n : Nat) (ref : FileRef F)
  /-- `fusefs_lookup`, with the answer to its request if it makes one -/
  | lookup (n : Nat) (path : List UInt8) (len : Nat) (strndupOk : Bool) (answer : Answer)
      (allocOk : Bool)
  /-- `uk_file_release(x)`, for a handle on `x` -/
  | release (t : T) (x : FileRef F)
  /-- the next statement of the innermost `fusefs_release` of `t` -/
  | hook (t : T)

namespace RefState

variable {T F : Type} [DecidableEq F]

/-- `uk_file_acquire(x)`; the caller of the operation gets the reference. -/
def acquire (s : RefState T F) (x : FileRef F) : RefState T F :=
  { s with
    count := Function.update s.count x (s.count x + 1)
    handles := Function.update s.handles x (s.handles x + 1) }

/-- `fusefs_file_alloc` for a caller: `UK_FILE_REFCNT_INIT_VALUE` is one. -/
def addNode (s : RefState T F) (ff : FusefsFile (FileRef F)) (root : Bool) : RefState T F :=
  { s with
    nodes := s.nodes ++ [⟨ff, root, .held, 0⟩]
    count := Function.update s.count (.fuse s.nodes.length) 1
    handles := Function.update s.handles (.fuse s.nodes.length) 1 }

omit [DecidableEq F] in
def setNode (s : RefState T F) (n : Nat) (node : CountedNode T F) : RefState T F :=
  { s with nodes := s.nodes.set n node }

/-- `fusefs_graft` -/
def graft (s : RefState T F) (n : Nat) (node : CountedNode T F) (ref : FileRef F) :
    Option (RefState T F) :=
  (fusefsGraft node.file ref).map fun ff =>
    { s.setNode n { node with file := ff } with
      count := Function.update s.count ref (s.count ref + 1) }

/-- What a lookup on node `n` hands out: `uk_file_acquire` on a file that was
there, a new file with the reference it is born with. -/
def lookedUp (s : RefState T F) (n : Nat) (r : LookupResult (FileRef F)) : RefState T F :=
  match r.target with
  | none => s
  | some .self => s.acquire (.fuse n)
  | some (.upref f) => s.acquire f
  | some (.child ff) => s.addNode ff false

variable [DecidableEq T]

omit [DecidableEq F] in
/-- `_release` is called on a file by `t`; that of another file system is not
part of this model. -/
def enter (s : RefState T F) (t : T) : FileRef F → Option (RefState T F)
  | .other _ => some s
  | .fuse n =>
      (s.nodes[n]?).map fun node =>
        { s.setNode n { node with life := .releasing t } with
          stack := Function.update s.stack t (.upref n :: s.stack t) }

/-- `uk_file_release(x)`, which calls `_release` when the last reference goes;
`none` when there was none to give back. -/
def ukFileRelease (s : RefState T F) (t : T) (x : FileRef F) : Option (RefState T F) :=
  match s.count x with
  | 0 => none
  | 1 => ({ s with count := Function.update s.count x 0 } : RefState T F).enter t x
  | c + 2 => some { s with count := Function.update s.count x (c + 1) }

/-- A caller gives up a handle on `x`. -/
def release (s : RefState T F) (t : T) (x : FileRef F) : Option (RefState T F) :=
  if s.handles x = 0 then none
  else ({ s with
    handles := Function.update s.handles x (s.handles x - 1) } : RefState T F).ukFileRelease t x

/-- `fusefs_release`, one statement at a time; the call that a
`uk_file_release(ff->upref)` leads to runs before the `uk_free(ff)`. -/
def hook (s : RefState T F) (t : T) : Option (RefState T F) :=
  match s.stack t with
  | [] => none
  | .upref n :: rest =>
      (s.nodes[n]?).bind fun node =>
        let s := { s.setNode n { node with life := .freeing t } with
          stack := Function.update s.stack t (.free n :: rest) }
        match node.file.upref with
        | some f => s.ukFileRelease t f
        | none => some s
  | .free n :: rest =>
      (s.nodes[n]?).map fun node =>
        { s.setNode n { node with life := .freed, frees := node.frees + 1 } with
          stack := Function.update s.stack t rest }

/-- One step. A caller uses files on which handles are held, and grafts roots
of mounts. -/
def step [Platform] (s : RefState T F) : RefAct T F → Option (RefState T F)
  | .vopen allocOk => some (if allocOk then s.addNode (fusefsFileAlloc _ 1) true else s)
  | .graft n ref =>
      (s.nodes[n]?).bind fun node =>
        if 0 < s.handles (.fuse n) ∧ 0 < s.handles ref ∧ node.root = true then s.graft n node ref
        else none
  | .lookup n path len strndupOk answer allocOk =>
      (s.nodes[n]?).bind fun node =>
        if 0 < s.handles (.fuse n) then
          match fusefsLookupEnter node.file path len strndupOk with
          | .ret r => some (s.lookedUp n r)
          | .submit _ => (fusefsLookupFinish len answer allocOk).map (s.lookedUp n)
        else none
  | .release t x => s.release t x
  | .hook t => s.hook t

end RefState

/-- No node exists, no release runs, and all references to the files of other
file systems are handles. -/
structure RefState.Start {T F : Type} (s : RefState T F) : Prop where
  nodes : s.nodes = []
  count : s.count = s.handles
  fresh : ∀ n, s.count (.fuse n) = 0
  stack : ∀ t, s.stack t = []

/-- Any calls by any threads, in any order. -/
def refSystem (T F : Type) [DecidableEq T] [DecidableEq F] [Platform] :
    TSys (RefState T F) (RefAct T F) :=
  .ofFun RefState.Start RefState.step

end UkfsFuse
