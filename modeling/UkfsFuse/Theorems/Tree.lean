import UkfsFuse.Logic.Identifiers
import UkfsFuse.Logic.Tree
import UkfsFuse.Theorems.Linear

/-!
# Clients see the backend's tree

Whatever the interleaving of clients, daemon and backend: when the backend's
replies are those of a file tree, every file the driver makes is a file of the
tree, only opened files are read, and every operation returns what the tree
has for it.
-/

namespace UkfsFuse

open UkfsFuse.Core

/-! ## Files and requests in one step -/

section Effects

variable {T S F : Type} [DecidableEq T] [Platform] {ops : S → FuseLowlevelOps} {s s' : Sys T S F}
  {a : SysAct T S F}

/-- A step makes the root of a mount or the child a lookup has found; files
that exist keep their inodes. -/
structure FilesEffect (s s' : Sys T S F) : Prop where
  old : ∀ (n : Nat) node, s.nodes[n]? = some node →
    ∃ node', s'.nodes[n]? = some node' ∧ node'.file.nodeid = node.file.nodeid
  new : ∀ (n : Nat) node', s'.nodes[n]? = some node' →
    (∃ node, s.nodes[n]? = some node ∧ node'.file.nodeid = node.file.nodeid) ∨
    node'.file.nodeid = FUSE_ROOT_ID ∨
    ∃ t m path len e, s.pc t = .woken (.lookup m path len) ∧
      (s.record t).answer.replyData = some (.entry e) ∧ node'.file.nodeid = e.ino

omit [DecidableEq T] [Platform] in
theorem FilesEffect.of_eq (h : s'.nodes = s.nodes) : FilesEffect s s' where
  old _ node hn := ⟨node, h ▸ hn, rfl⟩
  new _ node' hn := .inl ⟨node', h ▸ hn, rfl⟩

omit [DecidableEq T] [Platform] in
/-- One more file. -/
theorem FilesEffect.append {node : Node S F} (h : s'.nodes = s.nodes ++ [node])
    (hnew : node.file.nodeid = FUSE_ROOT_ID ∨
      ∃ t m path len e, s.pc t = .woken (.lookup m path len) ∧
        (s.record t).answer.replyData = some (.entry e) ∧ node.file.nodeid = e.ino) :
    FilesEffect s s' where
  old n node' hn := by
    refine ⟨node', ?_, rfl⟩
    rw [h, List.getElem?_append_left (List.getElem?_eq_some_iff.mp hn).1, hn]
  new n node' hn := by
    rw [h, List.getElem?_append] at hn
    split at hn
    · exact .inl ⟨node', hn, rfl⟩
    · obtain rfl := List.mem_singleton.mp (List.mem_of_getElem? hn)
      exact .inr hnew

omit [DecidableEq T] [Platform] in
/-- A file changes, but not its inode. -/
theorem FilesEffect.modify {i : Nat} {f : Node S F → Node S F}
    (h : s'.nodes = s.nodes.modify i f)
    (hf : ∀ node, s.nodes[i]? = some node → (f node).file.nodeid = node.file.nodeid) :
    FilesEffect s s' := by
  have hget : ∀ n : Nat, s'.nodes[n]? = (s.nodes[n]?).map fun node =>
      if i = n then f node else node := fun n => by
    rw [h, List.getElem?_modify]
    split <;> simp [*]
  have hino : ∀ (n : Nat) node, s.nodes[n]? = some node →
      (if i = n then f node else node).file.nodeid = node.file.nodeid := by
    intro n node hn
    split
    · subst i
      exact hf node hn
    · rfl
  refine ⟨fun n node hn => ⟨_, by rw [hget, hn]; rfl, hino n node hn⟩, fun n node' hn => ?_⟩
  rw [hget] at hn
  obtain ⟨node, hnode, rfl⟩ := Option.map_eq_some_iff.mp hn
  exact .inl ⟨node, hnode, hino n node hnode⟩

theorem Sys.Step.files (hs : s.Step ops a s') : FilesEffect s s' := by
  cases hs with
  | startNone t d buf startOk hpc hq hnone => exact .append rfl (.inl rfl)
  | startDaemon t d buf se hpc hq hreg hd => exact .append rfl (.inl rfl)
  | graft a n node f hn =>
      refine .modify rfl fun node' hn' => ?_
      obtain rfl := Option.some.inj (hn.symm.trans hn')
      rfl
  | submit a t n node input k s' hact hpc hn hasks hopen hs =>
      obtain ⟨queue, -, rfl⟩ := Option.map_eq_some_iff.mp hs
      exact .of_eq rfl
  | finish t k ok hpc =>
      rcases Sys.finish_cases (s := s) (t := t) (s.record t).answer ok k with ⟨v, -, heq⟩ |
        ⟨n, iov, off, e, fh, -, -, heq⟩ | ⟨n, path, len, e, rfl, hdata, heq⟩
      · rw [heq]
        exact .of_eq rfl
      · rw [heq]
        exact .modify rfl fun _ _ => rfl
      · rw [heq]
        exact .append rfl (.inr ⟨t, n, path, len, e, hpc, hdata, rfl⟩)
  | _ => exact .of_eq rfl

end Effects

/-! ## Runs with the tree as backend -/

section Definitions

variable {T S F : Type}

/-- The backend's replies are the tree's. -/
def Presents (tree : FileTree) (s : Sys T S F) (a : SysAct T S F) : Prop :=
  ∀ (h : Nat) r mallocOk hd call, a = .reply h r mallocOk → s.handles[h]? = some hd →
    hd.what = .callback call → tree.Answers r call

/-- The backend has opened the file `ino`, which can be, with the handle `fh`. -/
def FileTree.Opened (tree : FileTree) (s : Sys T S F) (ino fh : UInt64) : Prop :=
  (∃ c, tree.content ino = .ok c) ∧
    ∃ fi f, s.Answered (.callback (.open_ ino fi)) (.open_ f) ∧ f.fh = fh

/-- A callback is for a file of the tree, and its reply is the tree's. -/
def FileTree.Serves (tree : FileTree) (hd : Handle T S) : Prop :=
  ∀ call, hd.what = .callback call → tree.Inside call.ino ∧
    ∀ r mallocOk, hd.answer = some (r, mallocOk) → tree.Answers r call

/-- Along the runs every inode comes from the tree, through the requests of
waiting clients, the backend's callbacks and its replies. -/
structure TreeInv (tree : FileTree) (s : Sys T S F) : Prop where
  inside : ∀ (n : Nat) node, s.nodes[n]? = some node → tree.Inside node.file.nodeid
  asked : ∀ t k, (s.pc t).cont = some k → ∃ node, s.nodes[k.node]? = some node ∧
    AskedOf node.file.nodeid (s.record t).input k
  handle : ∀ hd ∈ s.handles, tree.Serves hd

end Definitions

section Runs

variable {T S F : Type} [DecidableEq T] [Platform] {ops : S → FuseLowlevelOps} {tree : FileTree}
  {s s' : Sys T S F} {a : SysAct T S F} {t : T} {k : Cont} {owner : T → Option (Place T)}

omit [Platform] in
theorem AskedOf.call_ino {ino : UInt64} {input : RequestIn} {call : Call}
    (h : AskedOf ino input k) (hcall : input.call = some call) : call.ino = ino := by
  cases h <;> obtain rfl := Option.some.inj hcall <;> rfl

omit [DecidableEq T] in
/-- The answer of a client that has been woken is one of the tree's. -/
theorem TreeInv.woken (h : TreeInv tree s) (hsound : Sound ops s owner)
    (hpc : s.pc t = .woken k) : ∃ hd ∈ s.handles, ∃ call r, hd.what = .callback call ∧
      (s.record t).input.call = some call ∧ tree.Answers r call ∧
      (s.record t).answer = ⟨r.error, r.payload, r.size⟩ := by
  obtain ⟨hd, hmem, call, r, hwhat, hcall, hanswer, heq⟩ := hsound.woken_answer hpc
  exact ⟨hd, hmem, call, r, hwhat, hcall, (h.handle hd hmem call hwhat).2 r true hanswer, heq⟩

omit [DecidableEq T] in
/-- The entry a lookup has found is a child of its file. -/
theorem TreeInv.child (h : TreeInv tree s) (hsound : Sound ops s owner) {n len : Nat}
    {path : List UInt8} {e : FuseEntryParam} (hpc : s.pc t = .woken (.lookup n path len))
    (hdata : (s.record t).answer.replyData = some (.entry e)) : tree.Inside e.ino := by
  obtain ⟨node, hn, hasked⟩ := h.asked t _ (by rw [hpc]; rfl)
  obtain ⟨-, -, call, r, -, hcall, hr, hanswer⟩ := h.woken hsound hpc
  have hino := h.inside _ _ hn
  generalize (s.record t).input = input at hasked hcall
  cases hasked with
  | lookup n path len =>
      obtain rfl := Option.some.inj hcall
      rw [hanswer] at hdata
      simp only [FileTree.Answers] at hr
      split at hr <;> subst hr
      · rename_i e' he
        obtain rfl : e' = e := by simpa [Reply.payload] using hdata
        exact .child hino he
      · exact absurd hdata (by simp [Reply.payload])

/-- The handles after a step serve the tree. -/
theorem TreeInv.handles_step (h : TreeInv tree s) (hsound : Sound ops s owner)
    (ha : Presents tree s a) (heff : HandleEffect ops s a s') :
    ∀ hd ∈ s'.handles, tree.Serves hd := by
  cases heff with
  | keep heq => rw [heq]; exact h.handle
  | make d se buf ok req r what hpc hproc heq =>
      rw [heq]
      intro hd hmem
      rcases List.mem_append.mp hmem with hold | hnew
      · exact h.handle hd hold
      · obtain rfl := List.mem_singleton.mp hnew
        -- a new callback is for the file of its request
        obtain ⟨hout, -, hwhat⟩ := hsound.accounted.handed_over hpc hproc
        obtain ⟨k, hk⟩ := hout.cont
        obtain ⟨node, hn, hasked⟩ := h.asked req k hk
        obtain ⟨call', hcall, hfull⟩ :=
          handling_full ((hsound.accounted.placed.threads req).known hout)
        rw [((hsound.threads d).2 se buf _ hpc).1, hfull] at hwhat
        rintro call rfl
        obtain rfl := Handled.callback.inj hwhat
        rw [hasked.call_ino hcall]
        exact ⟨h.inside _ _ hn, fun r m hanswer => absurd hanswer (by simp)⟩
  | change b hd hd' hh heq hwhat horigin hanswer =>
      rw [heq]
      refine Sys.forall_mem_set h.handle fun call hcall => ?_
      rw [hwhat] at hcall
      have hold := h.handle hd (List.mem_of_getElem? hh) call hcall
      refine ⟨hold.1, fun r m hnew => ?_⟩
      rcases hanswer with hsame | ⟨r', m', hact, hreplied⟩
      · exact hold.2 r m (hsame ▸ hnew)
      · obtain ⟨rfl, rfl⟩ := Prod.mk.inj (Option.some.inj (hnew.symm.trans hreplied))
        exact ha b r m hd call hact hh hcall

theorem TreeInv.step (h : TreeInv tree s) (hsound : Sound ops s owner) (ha : Presents tree s a)
    (hs : s.step ops a = some s') : TreeInv tree s' := by
  have hstep : s.Step ops a s' := .of_step hs
  have hfiles := hstep.files
  refine ⟨fun n node' hn => ?_, fun u k hk => ?_, h.handles_step hsound ha hstep.handleEffect⟩
  · rcases hfiles.new n node' hn with ⟨node, hnode, heq⟩ | heq |
      ⟨t, m, path, len, e, hpc, hdata, heq⟩
    · rw [heq]
      exact h.inside n node hnode
    · rw [heq]
      exact .root
    · rw [heq]
      exact h.child hsound hpc hdata
  · -- the file of a request keeps its inode
    rcases hstep.cont_cases hk with hold | hnew
    · obtain ⟨node, hn, hasked⟩ := h.asked u k hold
      obtain ⟨node', hn', hino⟩ := hfiles.old _ node hn
      have hfree : ¬ (s.pc u).Free := fun hfree => by simp [hfree.cont] at hold
      refine ⟨node', hn', ?_⟩
      rw [hino, hstep.input_kept u hfree]
      exact hasked
    · obtain ⟨node, hn, hasked, -⟩ := hnew
      obtain ⟨node', hn', hino⟩ := hfiles.old _ node hn
      exact ⟨node', hn', hino ▸ hasked⟩

theorem Mounted.nodes (h : Mounted ops s) :
    ∃ home, s.nodes = [⟨fusefsFileAlloc F FUSE_ROOT_ID, home⟩] := by
  obtain ⟨record, se, t, d, buf, -, hexec⟩ := h
  simp only [TSys.exec, Sys.step, Sys.boot, QueueState.fresh, Sys.vopen, if_true, Sys.setPc,
    QueueState.callInit, QueueState.move, QueueState.tick, Sys.start, Option.bind_fun_some,
    Option.bind_some, Option.map_some, Function.update_self, Function.update_idem,
    Function.update_eq_self, List.nil_append] at hexec
  split at hexec
  · obtain rfl := Option.some.inj hexec
    exact ⟨some se, rfl⟩
  · exact absurd hexec (by simp)

theorem TreeInv.start (h : Mounted ops s) : TreeInv tree s := by
  obtain ⟨home, hnodes⟩ := h.nodes
  obtain ⟨hhandles, se, -, hpc⟩ := h.threads
  refine ⟨fun n node hn => ?_, fun t k hk => ?_, by simp [hhandles]⟩
  · rw [hnodes] at hn
    rw [List.mem_singleton.mp (List.mem_of_getElem? hn)]
    exact .root
  · rcases hpc t with hidle | ⟨buf, hloop⟩
    · simp [hidle, Pc.cont] at hk
    · simp [hloop, Pc.cont] at hk

omit [DecidableEq T] in
/-- A file whose handle the driver has is open. -/
theorem TreeInv.opened (h : TreeInv tree s) (hsound : Sound ops s owner) {ino fh : UInt64}
    (hknown : s.HandleKnown ops ino fh) : tree.Opened s ino fh := by
  rcases hknown with ⟨fi, f, hopen, hfh⟩ | ⟨-, hd, hmem, hnone, -⟩
  · refine ⟨?_, fi, f, hopen, hfh⟩
    obtain ⟨hd, hmem, hwhat, hanswer⟩ := hopen
    have hr := (h.handle hd hmem _ hwhat).2 _ _ hanswer
    simp only [FileTree.Answers] at hr
    split at hr
    · exact ⟨_, ‹_›⟩
    · exact absurd hr (by simp)
  · -- the backend opens its files itself
    rw [(hsound.handles hd hmem).full] at hnone
    exact absurd hnone (by decide)

end Runs

end UkfsFuse
