import UkfsFuse.Logic.Opening

/-!
# Where inodes and file handles come from

A reply stays where it is, behind the handle it was given to; so what was
returned by the backend once was returned by it for ever. `FromBackend` follows
the two identifiers from there: through the node a lookup makes of an inode and
an open stores a handle in, into the records of requests, and back to the
backend.
-/

namespace UkfsFuse

open UkfsFuse.Core

/-- The inode a callback is invoked for. -/
def Call.ino : Call → UInt64
  | .lookup parent _ => parent
  | .getattr ino _ | .open_ ino _ | .read ino _ _ _ | .readdir ino _ _ _ => ino

/-- The operation a thread waits for an answer in. -/
def Pc.cont {T S : Type} : Pc T S → Option Cont
  | .waiting k | .woken k => some k
  | _ => none

section Definitions

variable {T S F : Type} (ops : S → FuseLowlevelOps) (s : Sys T S F)

/-- A request that libfuse handled as `what` was replied to by `r`, and the
reply had its memory. -/
def Sys.Answered (what : Handled) (r : Reply) : Prop :=
  ∃ hd ∈ s.handles, hd.what = what ∧ hd.answer = some (r, true)

/-- `FUSE_ROOT_ID`, or an inode returned by a successful LOOKUP. -/
def Sys.InodeKnown (ino : UInt64) : Prop :=
  ino = 1 ∨ ∃ parent name e, s.Answered (.callback (.lookup parent name)) (.entry e) ∧ e.ino = ino

/-- libfuse has answered an OPEN of `ino` itself, its session has no open
callback. -/
def Sys.OpenedByLibfuse (ino : UInt64) : Prop :=
  ∃ hd ∈ s.handles, (ops hd.se).open_ = false ∧
    (∃ fi, hd.what = .own (.open_ fi) ∧ hd.answer = some (.open_ fi, true)) ∧
    ∃ node, s.nodes[hd.origin.node]? = some node ∧ node.file.nodeid = ino

/-- A handle returned by a successful OPEN of `ino`, or 0 from libfuse. -/
def Sys.HandleKnown (ino fh : UInt64) : Prop :=
  (∃ fi f, s.Answered (.callback (.open_ ino fi)) (.open_ f) ∧ f.fh = fh) ∨
    (fh = 0 ∧ s.OpenedByLibfuse ops ino)

/-- The identifiers of a request. -/
def Sys.InputKnown : RequestIn → Prop
  | .lookup ino _ | .getattr ino | .open_ ino _ | .readdir ino _ _ _ => s.InodeKnown ino
  | .read ino fh _ _ => s.InodeKnown ino ∧ s.HandleKnown ops ino fh
  | .other .. => True

/-- The identifiers a callback gets. -/
def Sys.CallKnown : Call → Prop
  | .read ino _ _ fi => s.InodeKnown ino ∧ s.HandleKnown ops ino fi.fh
  | call => s.InodeKnown call.ino

/-- The request the operation of `t` waits for: its kind, and for an OPEN its
file. -/
def Sys.Asked (t : T) : Cont → Prop
  | .open_ n _ _ => (s.origin t).node = n ∧
      ∃ node, s.nodes[n]? = some node ∧ (s.record t).input = .open_ node.file.nodeid 0
  | .lookup .. => ∃ parent name, (s.record t).input = .lookup parent name
  | _ => True

/-- The identifiers of a file. -/
def Sys.FileKnown (ff : FusefsFile F) : Prop :=
  s.InodeKnown ff.nodeid ∧ (ff.fh ≠ FH_UNSET → s.HandleKnown ops ff.nodeid ff.fh)

/-- A handle: the call it stands for, and libfuse's own replies are its own. -/
def Sys.HandleOk (hd : Handle T S) : Prop :=
  (∀ call, hd.what = .callback call → s.CallKnown ops call) ∧
    ∀ r answer, hd.what = .own r → hd.answer = some answer → answer.1 = r

/-- Everywhere the identifiers are the backend's. -/
structure FromBackend : Prop where
  file : ∀ (n : Nat) node, s.nodes[n]? = some node → s.FileKnown ops node.file
  /-- a reader that has found a handle, or stored one, will use a known one -/
  ready : ∀ t n iov off, s.pc t = .readSubmit n iov off →
    ∃ node, s.nodes[n]? = some node ∧ s.HandleKnown ops node.file.nodeid node.file.fh
  asked : ∀ t k, (s.pc t).cont = some k →
    s.InputKnown ops (s.record t).input ∧ s.Asked t k
  handle : ∀ hd ∈ s.handles, s.HandleOk ops hd

end Definitions

/-! ## Replies and inodes stay -/

section Frames

variable {T S F : Type} {ops : S → FuseLowlevelOps} {s s' : Sys T S F} {ino fh : UInt64}

/-- Every reply of `s` has been given in `s'`. -/
def Sys.Remembers (s s' : Sys T S F) : Prop :=
  ∀ hd ∈ s.handles, hd.answer ≠ none → ∃ hd' ∈ s'.handles,
    hd'.what = hd.what ∧ hd'.se = hd.se ∧ hd'.origin = hd.origin ∧ hd'.answer = hd.answer

theorem Sys.Remembers.of_eq (h : s'.handles = s.handles) : s.Remembers s' :=
  fun hd hmem _ => ⟨hd, h ▸ hmem, rfl, rfl, rfl, rfl⟩

/-- One handle changes; if it has been replied to, in nothing that counts. -/
theorem Sys.Remembers.set {h : Nat} {hd hd' : Handle T S} (hh : s.handles[h]? = some hd)
    (hhandles : s'.handles = s.handles.set h hd')
    (hsame : hd.answer ≠ none → hd'.what = hd.what ∧ hd'.se = hd.se ∧ hd'.origin = hd.origin ∧
      hd'.answer = hd.answer) : s.Remembers s' := by
  intro old hmem hanswer
  obtain ⟨i, hi⟩ := List.getElem?_of_mem hmem
  rw [hhandles]
  by_cases hih : h = i
  · subst hih
    obtain rfl := Option.some.inj (hh.symm.trans hi)
    have hlt := (List.getElem?_eq_some_iff.mp hh).1
    exact ⟨hd', List.mem_of_getElem? (List.getElem?_set_self hlt), hsame hanswer⟩
  · exact ⟨old, List.mem_of_getElem? ((List.getElem?_set_ne hih).trans hi), rfl, rfl, rfl, rfl⟩

/-- Files keep their inodes, and get handles of the backend only. -/
structure Sys.FilesKept (ops : S → FuseLowlevelOps) (s s' : Sys T S F) : Prop where
  old : ∀ (n : Nat) node, s.nodes[n]? = some node → ∃ node', s'.nodes[n]? = some node' ∧
    node'.file.nodeid = node.file.nodeid ∧
    (node'.file.fh = node.file.fh ∨ s.HandleKnown ops node.file.nodeid node'.file.fh)
  new : ∀ (n : Nat) node', s'.nodes[n]? = some node' →
    n < s.nodes.length ∨ s.FileKnown ops node'.file

theorem Sys.FilesKept.of_eq (h : s'.nodes = s.nodes) : s.FilesKept ops s' where
  old _ node hn := ⟨node, h ▸ hn, rfl, .inl rfl⟩
  new _ _ hn := .inl (h ▸ (List.getElem?_eq_some_iff.mp hn).1)

theorem Sys.FilesKept.append {nodes : List (Node S F)} (h : s'.nodes = s.nodes ++ nodes)
    (hnew : ∀ node ∈ nodes, s.FileKnown ops node.file) : s.FilesKept ops s' where
  old n node hn := by
    refine ⟨node, ?_, rfl, .inl rfl⟩
    rw [h, List.getElem?_append_left (List.getElem?_eq_some_iff.mp hn).1, hn]
  new n node' hn := by
    by_cases hlt : n < s.nodes.length
    · exact .inl hlt
    · rw [h, List.getElem?_append_right (Nat.le_of_not_lt hlt)] at hn
      exact .inr (hnew node' (List.mem_of_getElem? hn))

/-- One file changes, its inode does not. -/
theorem Sys.FilesKept.modify {i : Nat} {f : Node S F → Node S F}
    (h : s'.nodes = s.nodes.modify i f)
    (hf : ∀ node, s.nodes[i]? = some node → (f node).file.nodeid = node.file.nodeid ∧
      ((f node).file.fh = node.file.fh ∨
        s.HandleKnown ops node.file.nodeid (f node).file.fh)) : s.FilesKept ops s' where
  old n node hn := by
    rw [h, List.getElem?_modify, hn]
    by_cases hi : i = n
    · subst hi
      exact ⟨f node, by simp, hf node hn⟩
    · exact ⟨node, by simp [hi], rfl, .inl rfl⟩
  new n node' hn := by
    have hlt := (List.getElem?_eq_some_iff.mp hn).1
    rw [h, List.length_modify] at hlt
    exact .inl hlt

/-- What was known stays known: `s'` has the replies and the inodes of `s`. -/
structure Sys.Extends (s s' : Sys T S F) : Prop where
  replies : s.Remembers s'
  inodes : ∀ (n : Nat) node, s.nodes[n]? = some node →
    ∃ node', s'.nodes[n]? = some node' ∧ node'.file.nodeid = node.file.nodeid

theorem Sys.FilesKept.extends_ (h : s.FilesKept ops s') (hreplies : s.Remembers s') :
    s.Extends s' where
  replies := hreplies
  inodes n node hn := by
    obtain ⟨node', hn', hino, -⟩ := h.old n node hn
    exact ⟨node', hn', hino⟩

namespace Sys.Extends

theorem answered (h : s.Extends s') {what : Handled} {r : Reply} (ha : s.Answered what r) :
    s'.Answered what r := by
  obtain ⟨hd, hmem, hwhat, hanswer⟩ := ha
  obtain ⟨hd', hmem', hwhat', -, -, hanswer'⟩ := h.replies hd hmem (by simp [hanswer])
  exact ⟨hd', hmem', hwhat'.trans hwhat, hanswer'.trans hanswer⟩

theorem inodeKnown (h : s.Extends s') (hi : s.InodeKnown ino) : s'.InodeKnown ino := by
  refine hi.imp_right ?_
  rintro ⟨parent, name, e, ha, he⟩
  exact ⟨parent, name, e, h.answered ha, he⟩

theorem openedByLibfuse (h : s.Extends s') (hl : s.OpenedByLibfuse ops ino) :
    s'.OpenedByLibfuse ops ino := by
  obtain ⟨hd, hmem, hop, ⟨fi, hwhat, hanswer⟩, node, hn, hino⟩ := hl
  obtain ⟨hd', hmem', hwhat', hse, horigin, hanswer'⟩ := h.replies hd hmem (by simp [hanswer])
  obtain ⟨node', hn', hino'⟩ := h.inodes _ node hn
  exact ⟨hd', hmem', by rw [hse]; exact hop, ⟨fi, hwhat'.trans hwhat, hanswer'.trans hanswer⟩,
    node', by rw [horigin]; exact hn', hino'.trans hino⟩

theorem handleKnown (h : s.Extends s') (hk : s.HandleKnown ops ino fh) :
    s'.HandleKnown ops ino fh := by
  rcases hk with ⟨fi, f, ha, hf⟩ | ⟨hzero, hl⟩
  · exact .inl ⟨fi, f, h.answered ha, hf⟩
  · exact .inr ⟨hzero, h.openedByLibfuse hl⟩

theorem inputKnown (h : s.Extends s') {input : RequestIn} (hi : s.InputKnown ops input) :
    s'.InputKnown ops input := by
  cases input with
  | read ino fh offset size => exact ⟨h.inodeKnown hi.1, h.handleKnown hi.2⟩
  | other _ _ => trivial
  | _ => exact h.inodeKnown hi

theorem callKnown (h : s.Extends s') {call : Call} (hc : s.CallKnown ops call) :
    s'.CallKnown ops call := by
  cases call with
  | read ino size off fi => exact ⟨h.inodeKnown hc.1, h.handleKnown hc.2⟩
  | _ => exact h.inodeKnown hc

end Sys.Extends

/-- What a step has to keep; what is new has to be known before it. -/
theorem FromBackend.keep (h : FromBackend ops s) (hreplies : s.Remembers s')
    (hfiles : s.FilesKept ops s')
    (hready : ∀ t n iov off, s'.pc t = .readSubmit n iov off → s.pc t = .readSubmit n iov off ∨
      ∃ node, s'.nodes[n]? = some node ∧ s.HandleKnown ops node.file.nodeid node.file.fh)
    (hasked : ∀ t k, (s'.pc t).cont = some k →
      ((s.pc t).cont = some k ∧ (s'.record t).input = (s.record t).input ∧
        s'.origin t = s.origin t) ∨
        (s.InputKnown ops (s'.record t).input ∧ s'.Asked t k))
    (hhandles : ∀ hd ∈ s'.handles,
      (∃ old ∈ s.handles, hd.what = old.what ∧ hd.answer = old.answer) ∨ s.HandleOk ops hd) :
    FromBackend ops s' := by
  have hext := hfiles.extends_ hreplies
  have hok : ∀ {hd}, s.HandleOk ops hd → s'.HandleOk ops hd := fun hold =>
    ⟨fun call hc => hext.callKnown (hold.1 call hc), hold.2⟩
  exact {
    file := by
      intro n node' hn
      rcases hfiles.new n node' hn with hlt | ⟨hi, hk⟩
      · obtain ⟨node, hnode⟩ : ∃ node, s.nodes[n]? = some node :=
          ⟨_, List.getElem?_eq_getElem hlt⟩
        obtain ⟨node'', hn', hino, hfh⟩ := hfiles.old n node hnode
        obtain rfl := Option.some.inj (hn.symm.trans hn')
        obtain ⟨hi, hk⟩ := h.file n node hnode
        rw [Sys.FileKnown, hino]
        refine ⟨hext.inodeKnown hi, fun hset => hext.handleKnown ?_⟩
        rcases hfh with hfh | hfh
        · rw [hfh] at hset ⊢
          exact hk hset
        · exact hfh
      · exact ⟨hext.inodeKnown hi, fun hset => hext.handleKnown (hk hset)⟩
    ready := by
      intro t n iov off hpc
      rcases hready t n iov off hpc with hold | ⟨node', hn', hk⟩
      · obtain ⟨node, hn, hk⟩ := h.ready t n iov off hold
        obtain ⟨node', hn', hino, hfh⟩ := hfiles.old n node hn
        refine ⟨node', hn', hext.handleKnown ?_⟩
        rw [hino]
        rcases hfh with hfh | hfh
        · rw [hfh]
          exact hk
        · exact hfh
      · exact ⟨node', hn', hext.handleKnown hk⟩
    asked := by
      intro t k hk
      rcases hasked t k hk with ⟨hold, hinput, horigin⟩ | ⟨hin, hask⟩
      · obtain ⟨hin, hask⟩ := h.asked t k hold
        rw [hinput]
        refine ⟨hext.inputKnown hin, ?_⟩
        cases k with
        | open_ n iov off =>
            obtain ⟨hnode, node, hn, heq⟩ := hask
            obtain ⟨node', hn', hino⟩ := hext.inodes n node hn
            exact ⟨by rw [horigin]; exact hnode, node', hn', by rw [hinput, heq, hino]⟩
        | lookup n len =>
            obtain ⟨parent, name, heq⟩ := hask
            exact ⟨parent, name, hinput.trans heq⟩
        | _ => trivial
      · exact ⟨hext.inputKnown hin, hask⟩
    handle := by
      intro hd hmem
      rcases hhandles hd hmem with ⟨old, hold, hwhat, hanswer⟩ | hnew
      · obtain ⟨hcall, hown⟩ := hok (h.handle old hold)
        exact ⟨fun call hc => hcall call (hwhat ▸ hc),
          fun r answer hr ha => hown r answer (hwhat ▸ hr) (hanswer ▸ ha)⟩
      · exact hok hnew }

/-- No thread has moved. -/
theorem FromBackend.still (h : FromBackend ops s) (hreplies : s.Remembers s')
    (hfiles : s.FilesKept ops s') (hpc : s'.pc = s.pc)
    (hinput : ∀ u, (s'.record u).input = (s.record u).input) (horigin : s'.origin = s.origin)
    (hhandles : ∀ hd ∈ s'.handles,
      (∃ old ∈ s.handles, hd.what = old.what ∧ hd.answer = old.answer) ∨ s.HandleOk ops hd) :
    FromBackend ops s' := by
  refine h.keep hreplies hfiles ?_ ?_ hhandles
  · intro t n iov off ht
    exact .inl (by rw [← hpc]; exact ht)
  · intro t k hk
    exact .inl ⟨by rw [← hpc]; exact hk, hinput t, by rw [horigin]⟩

variable [DecidableEq T] {t : T}

/-- The thread `t` does not wait afterwards. -/
theorem FromBackend.leave (h : FromBackend ops s) {v : Pc T S} (hv : v.cont = none)
    (hpc : s'.pc = Function.update s.pc t v)
    (hinput : ∀ u, (s'.record u).input = (s.record u).input) (horigin : s'.origin = s.origin)
    (hhandles : s'.handles = s.handles) (hfiles : s.FilesKept ops s')
    (hready : ∀ n iov off, v = .readSubmit n iov off →
      ∃ node, s'.nodes[n]? = some node ∧ s.HandleKnown ops node.file.nodeid node.file.fh) :
    FromBackend ops s' := by
  refine h.keep (.of_eq hhandles) hfiles ?_ ?_ fun hd hmem => .inl ⟨hd, hhandles ▸ hmem, rfl, rfl⟩
  · intro u n iov off hu
    rw [hpc] at hu
    by_cases hut : u = t
    · subst hut
      rw [Function.update_self] at hu
      exact .inr (hready n iov off hu)
    · rw [Function.update_of_ne hut] at hu
      exact .inl hu
  · intro u k hk
    rw [hpc] at hk
    by_cases hut : u = t
    · subst hut
      rw [Function.update_self, hv] at hk
      exact absurd hk (by simp)
    · rw [Function.update_of_ne hut] at hk
      exact .inl ⟨hk, hinput u, by rw [horigin]⟩

end Frames

/-! ## What the replies bring -/

section Replies

variable {T S F : Type} [Platform] {ops : S → FuseLowlevelOps} {s : Sys T S F} {t : T}
  {owner : T → Option (Place T)}

omit [Platform] in
/-- A callback gets the identifiers of its request. -/
theorem Sys.InputKnown.call {op : FuseLowlevelOps} {input : RequestIn} {call : Call}
    (h : s.InputKnown ops input) (hcall : input.handling op = .callback call) :
    s.CallKnown ops call := by
  cases input with
  | other n hn => exact absurd hcall (by simp [RequestIn.handling, RequestIn.call])
  | read ino fh offset size =>
      simp only [RequestIn.handling, RequestIn.call] at hcall
      split_ifs at hcall
      obtain rfl := Handled.callback.inj hcall
      exact h
  | _ =>
      simp only [RequestIn.handling, RequestIn.call] at hcall
      split_ifs at hcall
      obtain rfl := Handled.callback.inj hcall
      exact h

omit [Platform] in
/-- A request names the inode of its file, and a READ the handle found there. -/
theorem Asks.inputKnown (h : FromBackend ops s) {n : Nat} {node : Node S F} {input : RequestIn}
    {k : Cont} (hn : s.nodes[n]? = some node) (hasks : Asks node.file n input k)
    (hread : ∀ iov off, k = .read n iov off → s.pc t = .readSubmit n iov off) :
    s.InputKnown ops input := by
  have hino : s.InodeKnown node.file.nodeid := (h.file n node hn).1
  cases hasks with
  | read iov off =>
      obtain ⟨node', hn', hk⟩ := h.ready t n iov off (hread iov off rfl)
      obtain rfl := Option.some.inj (hn.symm.trans hn')
      exact ⟨hino, hk⟩
  | _ => exact hino

/-- The entry a client has been woken with is a reply to a LOOKUP. -/
theorem FromBackend.entry (h : FromBackend ops s) (hacc : Accounted ops s owner) {n len : Nat}
    {path : List UInt8} {e : FuseEntryParam} (hpc : s.pc t = .woken (.lookup n path len))
    (hdata : (s.record t).answer.replyData = some (.entry e)) : s.InodeKnown e.ino := by
  obtain ⟨hd, hmem, r, m, hserving, hanswer, heq⟩ := hacc.woken_reply hpc
  obtain ⟨-, parent, name, hinput⟩ := h.asked t _ (by rw [hpc]; rfl)
  rw [heq] at hdata
  obtain ⟨rfl, ⟨⟩⟩ := Reply.leaves_of_object hdata
  have hwhat := hserving.what
  rw [hinput, RequestIn.handling] at hwhat
  simp only [RequestIn.call] at hwhat
  split_ifs at hwhat
  · exact .inr ⟨parent, name, e, ⟨hd, hmem, hwhat, hanswer⟩, rfl⟩
  · exact absurd ((h.handle hd hmem).2 _ _ hwhat hanswer) (by simp)

/-- The handle `fusefs_do_open` stores is from the reply to an OPEN of its file. -/
theorem FromBackend.opened (h : FromBackend ops s) (hacc : Accounted ops s owner) {n : Nat}
    {iov : List UInt64} {off fh : UInt64} {e : Int32} (hpc : s.pc t = .woken (.open_ n iov off))
    (hfin : fusefsDoOpenFinish (s.record t).answer = some (e, some fh)) :
    ∃ node, s.nodes[n]? = some node ∧ s.HandleKnown ops node.file.nodeid fh := by
  obtain ⟨hd, hmem, r, m, hserving, hanswer, heq⟩ := hacc.woken_reply hpc
  obtain ⟨-, hnode, node, hn, hinput⟩ := h.asked t _ (by rw [hpc]; rfl)
  rw [heq] at hfin
  obtain ⟨-, rfl, f, rfl, rfl⟩ := doOpenFinish_answerIn.mp hfin
  refine ⟨node, hn, ?_⟩
  have hwhat := hserving.what
  rw [hinput, RequestIn.handling] at hwhat
  simp only [RequestIn.call] at hwhat
  split_ifs at hwhat with hop
  · exact .inl ⟨_, f, ⟨hd, hmem, hwhat, hanswer⟩, rfl⟩
  · -- libfuse opens every file with the handle 0
    obtain rfl := Reply.open_.inj ((h.handle hd hmem).2 _ _ hwhat hanswer)
    refine .inr ⟨rfl, hd, hmem, by simpa [FuseLowlevelOps.implements] using hop,
      ⟨_, hwhat, hanswer⟩, node, ?_, rfl⟩
    rw [hserving.origin, hnode]
    exact hn

end Replies

/-! ## The steps -/

section Steps

variable {T S F : Type} [DecidableEq T] [Platform] {ops : S → FuseLowlevelOps}
  {s s' : Sys T S F} {t d : T} {owner : T → Option (Place T)}

omit [DecidableEq T] [Platform] in
theorem Pc.Free.cont {p : Pc T S} (h : p.Free) : p.cont = none := by
  cases p <;> first | rfl | exact h.elim

omit [DecidableEq T] [Platform] in
theorem Pc.Outstanding.cont {p : Pc T S} (h : p.Outstanding) : ∃ k, p.cont = some k := by
  cases p <;> first | exact ⟨_, rfl⟩ | exact h.elim

omit [DecidableEq T] [Platform] in
/-- A new file that nobody has opened. -/
theorem fileKnown_alloc {ino : UInt64} (h : s.InodeKnown ino) :
    s.FileKnown ops (fusefsFileAlloc F ino) :=
  ⟨h, fun hset => absurd rfl hset⟩

omit [Platform] in
theorem FromBackend.submit (h : FromBackend ops s) {n : Nat} {node : Node S F} {input : RequestIn}
    {k : Cont} (hn : s.nodes[n]? = some node) (hasks : Asks node.file n input k)
    (hread : ∀ iov off, k = .read n iov off → s.pc t = .readSubmit n iov off)
    (hs : s.submit t n input k = some s') : FromBackend ops s' := by
  obtain ⟨queue, -, rfl⟩ := Option.map_eq_some_iff.mp hs
  refine h.keep (.of_eq rfl) (.of_eq rfl) ?_ ?_ fun hd hmem => .inl ⟨hd, hmem, rfl, rfl⟩
  · intro u m iov off hu
    by_cases hut : u = t
    · subst hut
      simp at hu
    · simp only [ne_eq, hut, not_false_eq_true, Function.update_of_ne] at hu
      exact .inl hu
  · intro u k' hk
    by_cases hut : u = t
    · subst hut
      obtain rfl : k = k' := by simpa [Pc.cont] using hk
      refine .inr ⟨by simpa [FuseUkfsRequest.init] using hasks.inputKnown h hn hread, ?_⟩
      cases hasks with
      | open_ iov off hunset => simp [Sys.Asked, FuseUkfsRequest.init, hn]
      | lookup path len => simp [Sys.Asked, FuseUkfsRequest.init]
      | _ => trivial
    · simp only [ne_eq, hut, not_false_eq_true, Function.update_of_ne] at hk ⊢
      exact .inl ⟨hk, trivial, trivial⟩

theorem FromBackend.finish (h : FromBackend ops s) (hacc : Accounted ops s owner) {k : Cont}
    (hpc : s.pc t = .woken k) (ok : Bool) :
    FromBackend ops (s.finish t (s.record t).answer ok k) := by
  rcases Sys.finish_cases (s := s) (t := t) (s.record t).answer ok k with ⟨v, hv, heq⟩ |
    ⟨n, iov, off, e, fh, rfl, hfin, heq⟩ | ⟨n, path, len, e, rfl, hdata, heq⟩
  · rw [heq]
    refine h.leave (t := t) hv.free.cont rfl (fun _ => rfl) rfl rfl (.of_eq rfl) ?_
    rintro n iov off rfl
    exact hv.elim
  · rw [heq]
    obtain ⟨node, hn, hknown⟩ := h.opened hacc hpc hfin
    refine h.leave (t := t) rfl rfl (fun _ => rfl) rfl rfl (.modify rfl ?_) ?_
    · intro node' hn'
      obtain rfl := Option.some.inj (hn.symm.trans hn')
      exact ⟨rfl, .inr hknown⟩
    · intro n' iov' off' hv
      obtain ⟨rfl, -, -⟩ := Pc.readSubmit.inj hv
      exact ⟨{ node with file := { node.file with fh := fh } },
        by simp [Sys.setFh, Sys.setPc, hn], hknown⟩
  · rw [heq]
    refine h.leave (t := t) rfl rfl (fun _ => rfl) rfl rfl (.append rfl ?_) (by simp)
    intro node hmem
    rw [List.mem_singleton.mp hmem]
    exact fileKnown_alloc (h.entry hacc hpc hdata)

variable (ops) in
omit [DecidableEq T] [Platform] in
/-- At boot nothing has been asked. -/
theorem FromBackend.boot (record : T → FuseUkfsRequest) :
    FromBackend ops (.boot record : Sys T S F) where
  file _ _ h := absurd h (by simp [Sys.boot])
  ready _ _ _ _ h := absurd h (by simp [Sys.boot])
  asked _ _ h := absurd h (by simp [Sys.boot, Pc.cont])
  handle _ h := absurd h (by simp [Sys.boot])

/-- One step of the system. -/
theorem FromBackend.step (h : FromBackend ops s) (hacc : Accounted ops s owner) {a : SysAct T S F}
    (hs : s.Step ops a s') : FromBackend ops s' := by
  have hsame : ∀ hd ∈ s.handles, (∃ old ∈ s.handles, hd.what = old.what ∧
      hd.answer = old.answer) ∨ s.HandleOk ops hd := fun hd hmem => .inl ⟨hd, hmem, rfl, rfl⟩
  have hdaemon : ∀ d se buf pc, FromBackend ops (s.setPc d (.daemon se buf pc)) := fun _ _ _ _ =>
    h.leave rfl rfl (fun _ => rfl) rfl rfl (.of_eq rfl) (by simp)
  have hroot : ∀ {t : T}, FromBackend ops { s.setPc t .idle with
      nodes := s.nodes ++ [⟨fusefsFileAlloc F 1, s.registered⟩] } := by
    intro t
    refine h.leave (t := t) (v := .idle) rfl rfl (fun _ => rfl) rfl rfl (.append rfl ?_) (by simp)
    intro node hmem
    rw [List.mem_singleton.mp hmem]
    exact fileKnown_alloc (.inl rfl)
  cases hs with
  | stay a => exact h
  | mount se => exact h.still (.of_eq rfl) (.of_eq rfl) rfl (fun _ => rfl) rfl hsame
  | vopen t queue hpc hq =>
      exact h.leave (t := t) (v := .vopenInit) rfl rfl (fun _ => rfl) rfl rfl (.of_eq rfl) (by simp)
  | startNone t d buf startOk hpc hq => exact hroot
  | startDaemon t d buf se hpc hq hreg hd =>
      have hstart : FromBackend ops { s.setPc t .idle with
          nodes := s.nodes ++ [⟨fusefsFileAlloc F 1, s.registered⟩] } := hroot
      exact hstart.leave (t := d) (v := .daemon se buf .loop) rfl rfl (fun _ => rfl) rfl rfl
        (.of_eq rfl) (by simp)
  | graft a n node f hn =>
      refine h.still (.of_eq rfl) (.modify rfl ?_) rfl (fun _ => rfl) rfl hsame
      intro node' hn'
      obtain rfl := Option.some.inj (hn.symm.trans hn')
      exact ⟨rfl, .inl rfl⟩
  | goto a t v hpc hv hset =>
      refine h.leave (t := t) hv.cont rfl (fun _ => rfl) rfl rfl (.of_eq rfl) ?_
      intro n iov off heq
      obtain ⟨node, hn, hfh⟩ := hset n iov off heq
      exact ⟨node, hn, (h.file n node hn).2 hfh⟩
  | submit a t n node input k s' hact hpc hn hasks hopen hs hread =>
      exact h.submit hn hasks hread hs
  | down t k m ok hpc hq hdone =>
      refine h.keep (.of_eq rfl) (.of_eq rfl) ?_ ?_ hsame
      · intro u n iov off hu
        by_cases hut : u = t
        · subst hut
          simp [Sys.setPc] at hu
        · simp only [Sys.setPc, ne_eq, hut, not_false_eq_true, Function.update_of_ne] at hu
          exact .inl hu
      · intro u k' hk
        by_cases hut : u = t
        · subst hut
          exact .inl ⟨by simpa [Sys.setPc, hpc, Pc.cont] using hk, by simp, rfl⟩
        · simp only [Sys.setPc, ne_eq, hut, not_false_eq_true, Function.update_of_ne] at hk ⊢
          exact .inl ⟨hk, trivial, trivial⟩
  | finish t k ok hpc => exact h.finish hacc hpc ok
  | callPop d se buf ok queue hpc hq =>
      exact h.still (.of_eq rfl) (.of_eq rfl) rfl (fun _ => rfl) rfl hsame
  | ret d se buf ok req queue hpc hat hq =>
      exact h.leave (t := d) (v := .daemon se buf (.popped req)) rfl rfl (fun _ => rfl) rfl rfl
        (.of_eq rfl) (by simp)
  | unknown d se buf ok req hpc hmsg => exact hdaemon _ _ _ _
  | overrun d se buf ok req hpc hmsg => exact hdaemon _ _ _ _
  | message d se buf msg ok req hpc hmsg => exact hdaemon _ _ _ _
  | failed d se buf ok req hpc => exact hdaemon _ _ _ _
  | fail d se buf ok req act acts hpc =>
      exact h.leave (t := d) (v := .daemon se buf (.failing req acts)) rfl rfl
        (input_applyAct act req) rfl rfl (.of_eq rfl) (by simp)
  | noReq d se buf ok req hpc hproc => exact hdaemon _ _ _ _
  | handle d se buf ok req r what hpc hproc =>
      obtain ⟨hout, -, hwhat⟩ := hacc.handed_over hpc hproc
      obtain ⟨k, hk⟩ := hout.cont
      have hinput := (h.asked req k hk).1
      refine FromBackend.still (hdaemon d se buf (.inCallback s.handles.length)) ?_ (.of_eq rfl) rfl
        (fun _ => rfl) rfl ?_
      · exact fun hd hmem _ => ⟨hd, List.mem_append_left _ hmem, rfl, rfl, rfl, rfl⟩
      · intro hd hmem
        rcases List.mem_append.mp hmem with hold | hnew
        · exact .inl ⟨hd, hold, rfl, rfl⟩
        · obtain rfl := List.mem_singleton.mp hnew
          refine .inr ⟨fun call hcall => ?_, fun r' answer _ hanswer => absurd hanswer (by simp)⟩
          exact hinput.call (hwhat ▸ hcall)
  | returned d se buf ok b hpc => exact hdaemon _ _ _ _
  | device d se buf ok req hpc => exact hdaemon _ _ _ _
  | queue t queue hq => exact h.still (.of_eq rfl) (.of_eq rfl) rfl (fun _ => rfl) rfl hsame
  | reply b hd r mallocOk hh hacc' =>
      obtain ⟨hcall, -⟩ := h.handle hd (List.mem_of_getElem? hh)
      refine h.still (.set hh rfl fun hanswer => absurd hacc'.1 hanswer) (.of_eq rfl) rfl
        (fun _ => rfl) rfl
        (Sys.forall_mem_set hsame (.inr ⟨hcall, fun r' answer hown hanswer => ?_⟩))
      obtain rfl := Option.some.inj hanswer
      have hmatch := hacc'.2
      rw [show hd.what = .own r' from hown] at hmatch
      exact hmatch
  | replyStep b hd act rest hh htodo =>
      refine h.still (.set hh rfl fun _ => ⟨rfl, rfl, rfl, rfl⟩) (.of_eq rfl) rfl
        (input_applyAct act hd.ukfsReq) rfl
        (Sys.forall_mem_set hsame (.inl ⟨hd, List.mem_of_getElem? hh, rfl, rfl⟩))

end Steps

end UkfsFuse
