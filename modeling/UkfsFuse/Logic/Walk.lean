import Mathlib.Data.List.Basic
import UkfsFuse.Logic.Completion

/-!
# Walking a path

A backend namespace answers lookups by directory inode. The tree walk keeps
the inodes of the directories above it on a stack; the driver's walk only has
the node the previous call returned.
-/

namespace UkfsFuse

open UkfsFuse.Core

/-- A backend's directory tree: every accepted name has a non-zero inode,
every refusal a positive error number. -/
structure Namespace where
  lookup : UInt64 → CStr → Except Int32 FuseEntryParam
  ino_ne : ∀ dir name e, lookup dir name = .ok e → e.ino ≠ 0
  err_pos : ∀ dir name n, lookup dir name = .error n → 0 < n

/-- The LOOKUP callback of a namespace. -/
def Namespace.backend (ns : Namespace) (_ : FuseReq) : Call → Reply
  | .lookup parent name =>
      match ns.lookup parent name with
      | .ok e => .entry e
      | .error n => .err n
  | _ => .err ENOSYS

/-! ## Components -/

/-- The empty component or `.` -/
def IsHere (c : CStr) : Prop := c.bytes = [] ∨ c.bytes = [0x2e]

/-- `..` -/
def IsUp (c : CStr) : Prop := c.bytes = [0x2e, 0x2e]

instance (c : CStr) : Decidable (IsHere c) := inferInstanceAs (Decidable (_ ∨ _))

instance (c : CStr) : Decidable (IsUp c) := inferInstanceAs (Decidable (_ = _))

/-! ## The tree's walk -/

/-- `FUSE_ROOT_ID` -/
def FUSE_ROOT_ID : UInt64 := 1

/-- The directory on top of a stack of inodes; below them lies the root. -/
def top (stack : List UInt64) : UInt64 := stack.headD FUSE_ROOT_ID

/-- What a step of the walk gives. -/
inductive TreeStep
  | node (ino : UInt64)
  /-- `..` at the root leaves the file system -/
  | leaves
  | refused (n : Int32)
deriving DecidableEq

/-- The steps the tree gives for a sequence of components, up to the first
that leaves the file system or is refused. -/
def treeWalk (ns : Namespace) : List UInt64 → List CStr → List TreeStep
  | _, [] => []
  | stack, c :: cs =>
      if IsHere c then .node (top stack) :: treeWalk ns stack cs
      else if IsUp c then
        match stack with
        | [] => [.leaves]
        | _ :: above => .node (top above) :: treeWalk ns above cs
      else
        match ns.lookup (top stack) c with
        | .ok e => .node e.ino :: treeWalk ns (e.ino :: stack) cs
        | .error n => [.refused n]

/-! ## The driver's walk -/

/-- What one call of `fusefs_lookup` meets: the daemon's buffer, the next
`unique`, the rest of the path string, and the outcomes of its allocations. -/
structure WalkEnv where
  buf : Mem
  unique : UInt64
  rest : List UInt8
  strndupOk : Bool
  callocOk : Bool
  mallocOk : Bool
  allocOk : Bool

/-- What a call reached. -/
inductive Reached (F : Type)
  | node (ret : Int32) (ff : FusefsFile F)
  | outside (ret : Int32) (f : F)
  | failed (ret : Int32)
  /-- the client is not woken -/
  | hangs
deriving DecidableEq

section Walk

variable [Platform] {F : Type}

/-- One component looked up on node `ff`. -/
def walkStep (op : FuseLowlevelOps) (ns : Namespace) (ff : FusefsFile F) (env : WalkEnv)
    (c : CStr) : Reached F :=
  match fusefsLookup (roundTrip op env.buf env.unique env.callocOk env.mallocOk ns.backend) ff
    (c.bytes ++ env.rest) c.strlen env.strndupOk env.allocOk with
  | none => .hangs
  | some r =>
      match r.target with
      | none => .failed r.ret
      | some .self => .node r.ret ff
      | some (.upref f) => .outside r.ret f
      | some (.child child) => .node r.ret child

/-- Successive lookups, each on the node the one before returned. -/
def driverWalk (step : FusefsFile F → WalkEnv → CStr → Reached F) :
    FusefsFile F → List (WalkEnv × CStr) → List (Reached F)
  | _, [] => []
  | ff, (env, c) :: cs =>
      match step ff env c with
      | .node ret ff' =>
          .node ret ff' :: (if ret = Platform.UKFS_STOP_FILE then driverWalk step ff' cs else [])
      | r => [r]

/-- A call's result is the one the tree gives, on a mount grafted on `ref`. -/
def Reached.Shows (ref : F) : Reached F → TreeStep → Prop
  | .node ret ff, .node ino => ret = Platform.UKFS_STOP_FILE ∧ ff.nodeid = ino
  | .outside ret f, .leaves => ret = Platform.UKFS_STOP_MNT ∧ f = ref
  | .failed ret, .refused n => ret = -n
  | _, _ => False

/-- The allocations a lookup needs succeed and its message fits. When the
backend would itself refuse with `ENOMEM`, a failed `strndup` returns the
same. -/
def CallFine (ns : Namespace) (dir : UInt64) (env : WalkEnv) (c : CStr) : Prop :=
  match ns.lookup dir c with
  | .ok _ => env.strndupOk ∧ (RequestIn.lookup dir c).Fits ∧ env.callocOk ∧ env.mallocOk ∧
      env.allocOk
  | .error n => (env.strndupOk ∧ (RequestIn.lookup dir c).Fits ∧ env.callocOk) ∨
      (env.strndupOk = false ∧ n = ENOMEM)

/-- Along the tree's walk every `..` is asked at the root and every lookup
meets fine conditions. -/
def WalkFine (ns : Namespace) : List UInt64 → List (WalkEnv × CStr) → Prop
  | _, [] => True
  | stack, (env, c) :: cs =>
      if IsHere c then WalkFine ns stack cs
      else if IsUp c then stack = []
      else CallFine ns (top stack) env c ∧
        match ns.lookup (top stack) c with
        | .ok e => WalkFine ns (e.ino :: stack) cs
        | .error _ => True

/-! ## One component -/

variable {op : FuseLowlevelOps} {ns : Namespace} {ff : FusefsFile F} {env : WalkEnv} {c : CStr}

theorem enter_here (hc : IsHere c) (strndupOk : Bool) :
    fusefsLookupEnter ff (c.bytes ++ env.rest) c.strlen strndupOk =
      .ret ⟨Platform.UKFS_STOP_FILE, some .self, some c.strlen⟩ := by
  rcases hc with hc | hc <;> simp [fusefsLookupEnter, CStr.strlen, hc]

theorem enter_up (hc : IsUp c) (strndupOk : Bool) :
    fusefsLookupEnter ff (c.bytes ++ env.rest) c.strlen strndupOk =
      match ff.upref with
      | some f => .ret ⟨Platform.UKFS_STOP_MNT, some (.upref f), some c.strlen⟩
      | none => .ret ⟨Platform.UKFS_STOP_MNT, some .self, some c.strlen⟩ := by
  simp only [IsUp] at hc
  cases hupref : ff.upref <;> simp [fusefsLookupEnter, CStr.strlen, hc, hupref]

theorem enter_name (hhere : ¬ IsHere c) (hup : ¬ IsUp c) (strndupOk : Bool) :
    fusefsLookupEnter ff (c.bytes ++ env.rest) c.strlen strndupOk =
      if strndupOk then .submit (.lookup ff.nodeid c) else .ret (.fail (-ENOMEM)) := by
  have hno : ¬ (c.strlen = 0 ∨ (c.strlen = 1 ∧ (c.bytes ++ env.rest)[0]? = some 0x2e)) := by
    rintro (h | ⟨h, h0⟩)
    · exact hhere (.inl (List.length_eq_zero_iff.mp h))
    · obtain ⟨b, hb⟩ := List.length_eq_one_iff.mp h
      refine hhere (.inr ?_)
      rw [hb] at h0 ⊢
      simpa using h0
  have hno2 : ¬ (c.strlen = 2 ∧ (c.bytes ++ env.rest)[0]? = some 0x2e ∧
      (c.bytes ++ env.rest)[1]? = some 0x2e) := by
    rintro ⟨h, h0, h1⟩
    obtain ⟨b, b', hb⟩ := List.length_eq_two.mp (show c.bytes.length = 2 from h)
    refine hup ?_
    rw [hb] at h0 h1
    simp only [IsUp, hb]
    simp at h0 h1
    rw [h0, h1]
  simp only [fusefsLookupEnter, if_neg hno, if_neg hno2, CStr.strndup_append]
  cases strndupOk <;> rfl

/-! What a call reaches: `.` stays, `..` is answered by the node's own `upref`,
a name goes through daemon and backend. -/

theorem walkStep_here (hc : IsHere c) :
    walkStep op ns ff env c = .node Platform.UKFS_STOP_FILE ff := by
  simp only [walkStep, fusefsLookup, enter_here hc]

theorem walkStep_up_grafted (hc : IsUp c) {ref : F} (hupref : ff.upref = some ref) :
    walkStep op ns ff env c = .outside Platform.UKFS_STOP_MNT ref := by
  simp only [walkStep, fusefsLookup, enter_up hc, hupref]

/-- A node without an `upref` answers `..` with itself. -/
theorem walkStep_up_bare (hc : IsUp c) (hupref : ff.upref = none) :
    walkStep op ns ff env c = .node Platform.UKFS_STOP_MNT ff := by
  simp only [walkStep, fusefsLookup, enter_up hc, hupref]

/-- The answer the backend's reply leaves for the client. -/
theorem roundTrip_lookup (hop : op.lookup = true)
    (hfits : (RequestIn.lookup ff.nodeid c).Fits) {r : Reply}
    (hr : ns.backend ⟨env.unique, 0, 0, 1⟩ (.lookup ff.nodeid c) = r)
    (hraises : r.RaisesDone env.mallocOk) :
    roundTrip op env.buf env.unique true env.mallocOk ns.backend (.lookup ff.nodeid c) =
      some (atUp (r.acts (fuseSessionNewVersioned op) env.mallocOk)
        (.init env.unique (.lookup ff.nodeid c))).answer := by
  have hknown : (RequestIn.lookup ff.nodeid c).Known := trivial
  refine roundTrip_reply hknown hfits ?_ hraises
  simp only [replyGiven, RequestIn.handling, FuseUkfsRequest.init, RequestIn.call,
    FuseLowlevelOps.implements, hop, if_true, ← hr]

section Name

variable (hhere : ¬ IsHere c) (hup : ¬ IsUp c) (hop : op.lookup = true)

include hhere hup

theorem walkStep_strndup (hdup : env.strndupOk = false) :
    walkStep op ns ff env c = .failed (-ENOMEM) := by
  simp only [walkStep, fusefsLookup, enter_name hhere hup, hdup]
  rfl

theorem walkStep_overrun (hdup : env.strndupOk = true)
    (hfits : ¬ (RequestIn.lookup ff.nodeid c).Fits) : walkStep op ns ff env c = .hangs := by
  simp only [walkStep, fusefsLookup, enter_name hhere hup, hdup, if_true,
    roundTrip_overrun hfits, Option.bind_none]

theorem walkStep_noReq (hdup : env.strndupOk = true)
    (hfits : (RequestIn.lookup ff.nodeid c).Fits) (hcalloc : env.callocOk = false) :
    walkStep op ns ff env c = .hangs := by
  have hknown : (RequestIn.lookup ff.nodeid c).Known := trivial
  simp only [walkStep, fusefsLookup, enter_name hhere hup, hdup, if_true, hcalloc,
    roundTrip_noReq hknown hfits, Option.bind_none]

include hop

theorem walkStep_accepted (hdup : env.strndupOk = true)
    (hfits : (RequestIn.lookup ff.nodeid c).Fits) (hcalloc : env.callocOk = true)
    {e : FuseEntryParam} (he : ns.lookup ff.nodeid c = .ok e) :
    walkStep op ns ff env c =
      if env.mallocOk ∧ env.allocOk then
        .node Platform.UKFS_STOP_FILE (fusefsFileAlloc F e.ino)
      else .failed (-ENOMEM) := by
  have hr : ns.backend ⟨env.unique, 0, 0, 1⟩ (.lookup ff.nodeid c) = .entry e := by
    simp only [Namespace.backend, he]
  have htrip := roundTrip_lookup hop hfits hr trivial
  rw [Reply.acts, fuseReplyEntry_new] at htrip
  simp only [walkStep, fusefsLookup, enter_name hhere hup, hdup, if_true, hcalloc, htrip,
    Option.bind_some]
  cases hm : env.mallocOk <;> cases ha : env.allocOk <;> rfl

theorem walkStep_refused (hdup : env.strndupOk = true)
    (hfits : (RequestIn.lookup ff.nodeid c).Fits) (hcalloc : env.callocOk = true)
    {n : Int32} (hn : ns.lookup ff.nodeid c = .error n) :
    walkStep op ns ff env c = .failed (-n) := by
  have hr : ns.backend ⟨env.unique, 0, 0, 1⟩ (.lookup ff.nodeid c) = .err n := by
    simp only [Namespace.backend, hn]
  have htrip := roundTrip_lookup hop hfits hr trivial
  have hne : -n ≠ 0 := by
    intro h
    have hpos := ns.err_pos _ _ _ hn
    have hzero : n = 0 := by
      rw [← Int32.neg_neg (a := n), h]
      rfl
    rw [hzero] at hpos
    exact absurd hpos (by decide)
  have hanswer : (atUp (fuseReplyErr n) (.init env.unique (.lookup ff.nodeid c))).answer =
      ⟨-n, none, 0⟩ := rfl
  simp only [walkStep, fusefsLookup, enter_name hhere hup, hdup, if_true, hcalloc, htrip,
    Option.bind_some, Reply.acts, hanswer, fusefsLookupFinish, if_pos hne, LookupResult.fail]

end Name

end Walk

end UkfsFuse
