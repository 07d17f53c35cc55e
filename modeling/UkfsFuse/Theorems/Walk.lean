import Mathlib.Data.List.Forall2
import UkfsFuse.Logic.Walk

/-!
# Path walking

Child nodes do not remember where they came from: `..` asked on one of them
returns the node itself and claims to have left the file system. A walk
follows the backend's tree exactly when no `..` is asked below the root (and
memory and message size suffice).
-/

namespace UkfsFuse

open UkfsFuse.Core

/-- The root node after `fusefs_vopen` and `fusefs_graft`. -/
def mountRoot {F : Type} (ref : F) : FusefsFile F :=
  { fusefsFileAlloc F FUSE_ROOT_ID with upref := some ref }

example {F : Type} (ref : F) :
    fusefsGraft (fusefsFileAlloc F FUSE_ROOT_ID) ref = some (mountRoot ref) := rfl

/-- The walk of the driver from the mount root follows the backend's tree. -/
def WalkFollows [Platform] {F : Type} (op : FuseLowlevelOps) (ns : Namespace) (ref : F)
    (cs : List (WalkEnv × CStr)) : Prop :=
  List.Forall₂ (Reached.Shows ref) (driverWalk (walkStep op ns) (mountRoot ref) cs)
    (treeWalk ns [] (cs.map Prod.snd))

section Steps

variable [Platform] {F : Type} {ref : F} {step : FusefsFile F → WalkEnv → CStr → Reached F}
  {ff ff' : FusefsFile F} {env : WalkEnv} {c : CStr} {cs : List (WalkEnv × CStr)}

/-- `ff` is the node of the directory on top of the stack. -/
structure OnStack (ref : F) (stack : List UInt64) (ff : FusefsFile F) : Prop where
  nodeid : ff.nodeid = top stack
  upref : ff.upref = if stack = [] then some ref else none

theorem driverWalk_node (h : step ff env c = .node Platform.UKFS_STOP_FILE ff') :
    driverWalk step ff ((env, c) :: cs) =
      .node Platform.UKFS_STOP_FILE ff' :: driverWalk step ff' cs := by
  simp only [driverWalk, h, if_true]

theorem driverWalk_stop (h : step ff env c = .node Platform.UKFS_STOP_MNT ff') :
    driverWalk step ff ((env, c) :: cs) = [.node Platform.UKFS_STOP_MNT ff'] := by
  have hne : ¬ Platform.UKFS_STOP_MNT = Platform.UKFS_STOP_FILE := fun h =>
    Platform.stop_ne h.symm
  simp only [driverWalk, h, if_neg hne]

theorem driverWalk_outside {ret : Int32} {f : F} (h : step ff env c = .outside ret f) :
    driverWalk step ff ((env, c) :: cs) = [.outside ret f] := by
  simp only [driverWalk, h]

theorem driverWalk_failed {ret : Int32} (h : step ff env c = .failed ret) :
    driverWalk step ff ((env, c) :: cs) = [.failed ret] := by
  simp only [driverWalk, h]

theorem driverWalk_hangs (h : step ff env c = .hangs) :
    driverWalk step ff ((env, c) :: cs) = [.hangs] := by
  simp only [driverWalk, h]

/-- A walk that ends on its first component follows a tree walk that goes on
only if the results agree and the tree's walk ends there too. -/
theorem forall₂_single {r : Reached F} {t : TreeStep} {ts : List TreeStep} :
    List.Forall₂ (Reached.Shows ref) [r] (t :: ts) ↔ r.Shows ref t ∧ ts = [] := by
  rw [List.forall₂_cons]
  refine and_congr_right fun _ => ?_
  exact List.forall₂_nil_left_iff

end Steps

section Name

variable [Platform] {F : Type} {ref : F} {op : FuseLowlevelOps} {ns : Namespace}
  {ff : FusefsFile F} {env : WalkEnv} {c : CStr} {cs : List (WalkEnv × CStr)}

/-- A name the backend accepts: the walk goes on at the child. -/
theorem accepted_follows (hop : op.lookup = true) (hhere : ¬ IsHere c) (hup : ¬ IsUp c)
    {e : FuseEntryParam} (he : ns.lookup ff.nodeid c = .ok e) {stack : List UInt64}
    {ts : List TreeStep} {rest : Prop}
    (ih : ∀ child : FusefsFile F, OnStack ref (e.ino :: stack) child →
      (List.Forall₂ (Reached.Shows ref) (driverWalk (walkStep op ns) child cs) ts ↔ rest)) :
    List.Forall₂ (Reached.Shows ref) (driverWalk (walkStep op ns) ff ((env, c) :: cs))
        (.node e.ino :: ts) ↔
      (env.strndupOk = true ∧ (RequestIn.lookup ff.nodeid c).Fits ∧ env.callocOk = true ∧
        env.mallocOk = true ∧ env.allocOk = true) ∧ rest := by
  cases hdup : env.strndupOk with
  | false =>
      rw [driverWalk_failed (walkStep_strndup hhere hup hdup), forall₂_single]
      exact iff_of_false (fun h => h.1) (by simp)
  | true =>
      by_cases hfits : (RequestIn.lookup ff.nodeid c).Fits
      · cases hcalloc : env.callocOk with
        | false =>
            rw [driverWalk_hangs (walkStep_noReq hhere hup hdup hfits hcalloc), forall₂_single]
            exact iff_of_false (fun h => h.1) (by simp)
        | true =>
            have hstep := walkStep_accepted hhere hup hop hdup hfits hcalloc he
            by_cases hmem : env.mallocOk = true ∧ env.allocOk = true
            · rw [if_pos hmem] at hstep
              have hshows : (Reached.node Platform.UKFS_STOP_FILE
                  (fusefsFileAlloc F e.ino)).Shows ref (.node e.ino) := ⟨rfl, rfl⟩
              have hchild : OnStack ref (e.ino :: stack) (fusefsFileAlloc F e.ino) := ⟨rfl, rfl⟩
              rw [driverWalk_node hstep, List.forall₂_cons, and_iff_right hshows, ih _ hchild]
              simp [hfits, hmem.1, hmem.2]
            · rw [if_neg hmem] at hstep
              rw [driverWalk_failed hstep, forall₂_single]
              refine iff_of_false (fun h => h.1) ?_
              rintro ⟨⟨-, -, -, hm, ha⟩, -⟩
              exact hmem ⟨hm, ha⟩
      · rw [driverWalk_hangs (walkStep_overrun hhere hup hdup hfits), forall₂_single]
        refine iff_of_false (fun h => h.1) ?_
        rintro ⟨⟨-, h, -⟩, -⟩
        exact hfits h

/-- A name the backend refuses: the walk ends with its negated error. -/
theorem refused_follows (hop : op.lookup = true) (hhere : ¬ IsHere c) (hup : ¬ IsUp c) {n : Int32}
    (hn : ns.lookup ff.nodeid c = .error n) :
    List.Forall₂ (Reached.Shows ref) (driverWalk (walkStep op ns) ff ((env, c) :: cs))
        [.refused n] ↔
      (env.strndupOk = true ∧ (RequestIn.lookup ff.nodeid c).Fits ∧ env.callocOk = true) ∨
        (env.strndupOk = false ∧ n = ENOMEM) := by
  cases hdup : env.strndupOk with
  | false =>
      rw [driverWalk_failed (walkStep_strndup hhere hup hdup), forall₂_single]
      constructor
      · rintro ⟨hret, -⟩
        have hneg : - -ENOMEM = - -n := congrArg Neg.neg hret
        rw [Int32.neg_neg, Int32.neg_neg] at hneg
        exact .inr ⟨rfl, hneg.symm⟩
      · rintro (⟨h, -⟩ | ⟨-, rfl⟩)
        · exact absurd h (by simp)
        · exact ⟨rfl, rfl⟩
  | true =>
      by_cases hfits : (RequestIn.lookup ff.nodeid c).Fits
      · cases hcalloc : env.callocOk with
        | false =>
            rw [driverWalk_hangs (walkStep_noReq hhere hup hdup hfits hcalloc), forall₂_single]
            exact iff_of_false (fun h => h.1) (by simp)
        | true =>
            rw [driverWalk_failed (walkStep_refused hhere hup hop hdup hfits hcalloc hn),
              forall₂_single]
            exact iff_of_true ⟨rfl, rfl⟩ (.inl ⟨rfl, hfits, rfl⟩)
      · rw [driverWalk_hangs (walkStep_overrun hhere hup hdup hfits), forall₂_single]
        refine iff_of_false (fun h => h.1) ?_
        rintro (⟨-, h, -⟩ | ⟨h, -⟩)
        · exact hfits h
        · exact absurd h (by simp)

end Name

/-- From any directory of the tree, not only from the root. -/
theorem walk_follows_from [Platform] {F : Type} {op : FuseLowlevelOps} (hop : op.lookup = true)
    (ns : Namespace) (ref : F) (cs : List (WalkEnv × CStr)) {stack : List UInt64}
    {ff : FusefsFile F} (hff : OnStack ref stack ff) :
    List.Forall₂ (Reached.Shows ref) (driverWalk (walkStep op ns) ff cs)
        (treeWalk ns stack (cs.map Prod.snd)) ↔
      WalkFine ns stack cs := by
  induction cs generalizing stack ff with
  | nil => exact iff_of_true .nil trivial
  | cons head cs ih =>
      obtain ⟨env, c⟩ := head
      simp only [List.map_cons, treeWalk, WalkFine]
      by_cases hhere : IsHere c
      · rw [if_pos hhere, if_pos hhere, driverWalk_node (walkStep_here hhere), List.forall₂_cons]
        have hshows : (Reached.node Platform.UKFS_STOP_FILE ff).Shows ref (.node (top stack)) :=
          ⟨rfl, hff.nodeid⟩
        rw [and_iff_right hshows]
        exact ih hff
      · rw [if_neg hhere, if_neg hhere]
        by_cases hup : IsUp c
        · rw [if_pos hup, if_pos hup]
          cases stack with
          | nil =>
              have hupref : ff.upref = some ref := hff.upref
              rw [driverWalk_outside (walkStep_up_grafted hup hupref), forall₂_single]
              exact iff_of_true ⟨⟨rfl, rfl⟩, rfl⟩ rfl
          | cons ino above =>
              -- below the root `..` stays and reports that it left
              have hupref : ff.upref = none := hff.upref
              rw [driverWalk_stop (walkStep_up_bare hup hupref), forall₂_single]
              refine iff_of_false ?_ (by simp)
              rintro ⟨⟨hret, -⟩, -⟩
              exact Platform.stop_ne hret.symm
        · rw [if_neg hup, if_neg hup, ← hff.nodeid]
          cases hlook : ns.lookup ff.nodeid c with
          | ok e =>
              rw [accepted_follows hop hhere hup hlook fun child => ih]
              simp only [CallFine, hlook]
          | error n =>
              rw [refused_follows hop hhere hup hlook]
              simp only [CallFine, hlook, and_true]

/-- The walk follows the tree exactly when every `..` on its way is asked at
the mount root and every lookup has the memory and the room it needs. -/
theorem walk_follows_iff [Platform] {F : Type} (op : FuseLowlevelOps) (hop : op.lookup = true)
    (ns : Namespace) (ref : F) (cs : List (WalkEnv × CStr)) :
    WalkFollows op ns ref cs ↔ WalkFine ns [] cs :=
  walk_follows_from hop ns ref cs ⟨rfl, rfl⟩

/-- A tree with one directory `d` (inode 2) in the root. -/
def oneDirectory : Namespace where
  lookup dir name := if dir = 1 ∧ name.bytes = [0x64] then .ok { ino := 2 } else .error ENOENT
  ino_ne dir name e h := by
    split_ifs at h
    obtain rfl := Except.ok.inj h
    decide
  err_pos dir name n h := by
    split_ifs at h
    obtain rfl := Except.error.inj h
    decide

/-- Enough memory, and a buffer with stale bytes. -/
def plentyEnv : WalkEnv := ⟨fun _ => 0x5a, 1, [], true, true, true, true⟩

/-- `d` and `.`: inside the condition. -/
theorem walk_down_follows :
    letI := sampleHeaders
    WalkFollows .full oneDirectory ()
      [(plentyEnv, ⟨[0x64], by decide⟩), (plentyEnv, ⟨[0x2e], by decide⟩)] := by
  let := sampleHeaders
  refine (walk_follows_iff .full rfl oneDirectory () _).mpr ?_
  have hname : CallFine oneDirectory 1 plentyEnv ⟨[0x64], by decide⟩ :=
    ⟨rfl, by decide, rfl, rfl, rfl⟩
  exact ⟨hname, trivial⟩

/-- `d/..` returns `d` again, with `UKFS_STOP_MNT`, and not the root. -/
theorem walk_up_strays :
    letI := sampleHeaders
    let cs := [(plentyEnv, ⟨[0x64], by decide⟩), (plentyEnv, ⟨[0x2e, 0x2e], by decide⟩)]
    treeWalk oneDirectory [] (cs.map Prod.snd) = [.node 2, .node 1] ∧
      ¬ WalkFollows .full oneDirectory () cs := by
  let := sampleHeaders
  refine ⟨by decide, ?_⟩
  have hdriver : driverWalk (walkStep .full oneDirectory) (mountRoot ())
      [(plentyEnv, ⟨[0x64], by decide⟩), (plentyEnv, ⟨[0x2e, 0x2e], by decide⟩)] =
      [.node 0 (fusefsFileAlloc Unit 2), .node 1 (fusefsFileAlloc Unit 2)] := by
    decide
  intro hfollows
  rw [WalkFollows, hdriver] at hfollows
  rcases hfollows with _ | ⟨-, htail⟩
  rcases htail with _ | ⟨hshows, -⟩
  exact absurd hshows.1 (by decide)

end UkfsFuse
