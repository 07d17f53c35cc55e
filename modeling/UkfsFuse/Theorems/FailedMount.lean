import UkfsFuse.Logic.Mounting
import UkfsFuse.Source.Mount
import UkfsFuse.Theorems.Remount

/-!
# Mounts that fail half-way

`fusefs_vopen` returns a node whether or not there is a daemon for it. Its
value is right, and every request is served, exactly when the allocation of the
node fails, which is the one failure it looks at, or when nothing does.
-/

namespace UkfsFuse

open UkfsFuse.Core QueuePc

section Definitions

variable {T S F : Type}

/-- libfuse gets to the end of its handler, or waits for the backend to. -/
def Handled.Ends : Handled → Prop
  | .callback _ | .own _ => True
  | .unterminated | .otherHandler _ => False

/-- A daemon gets from this point of its loop to its next pop. -/
def Sys.GoesOn (s : Sys T S F) : DaemonPc T → Prop
  | .overrun _ => False
  | .inCallback h => ∃ hd, s.handles[h]? = some hd ∧ hd.what.Ends
  | _ => True

/-- Thread `d` is a running daemon: it pops from the queue again and again. -/
def Sys.Pops (s : Sys T S F) (d : T) : Prop :=
  s.queue.pc d ≠ .assertFailed ∧ ∃ se buf pc, s.pc d = .daemon se buf pc ∧ s.GoesOn pc

/-- The request of `t` has been pushed and not completed. -/
def Sys.Pending (s : Sys T S F) (t : T) : Prop :=
  (∃ k, s.pc t = .waiting k) ∧ s.queue.pc t = .out ∧ (s.record t).done = 0

/-- Every such request has a running daemon. -/
def NoneStranded (s : Sys T S F) : Prop := ∀ t, s.Pending t → ∃ d, s.Pops d

/-- One mount with the outcomes `env`, which finds the session `registered`;
and the names looked up fit the daemon's buffer. -/
def MountsAs (env : MountEnv) (registered : Option S) (s : Sys T S F) : SysAct T S F → Prop
  | .vopen _ allocOk => allocOk = env.fileOk ∧ s.nodes = [] ∧ ∀ u, ¬ (s.pc u).Mounting
  | .start _ _ _ startOk => startOk = env.daemonOk ∧ s.registered = registered
  | .call _ (.lookup _ path len) _ => (RequestIn.lookup 1 (.strndup path len)).Fits
  | _ => True

variable (T S F) [DecidableEq T] [Platform] (ops : S → FuseLowlevelOps)

/-- What a mount owes, whatever fails in it. -/
structure MountKept (env : MountEnv) (registered : Option S) : Prop where
  /-- in every later run no request is stranded -/
  served : ((fuseSystem T S F ops).restrict (MountsAs env registered)).Invariant NoneStranded
  /-- a failure of `fuse_daemon_start` is one of `fusefs_vopen` -/
  reported : ∀ e, (fusefsVopen env registered : VopenResult S F).started = some e → e ≠ 0 →
    ∃ err, (fusefsVopen env registered : VopenResult S F).ret = .error err

end Definitions

section Steps

variable {T S F : Type} {s s' : Sys T S F} {t : T}

theorem Sys.Pops.session_ne_none {d : T} (h : s.Pops d) : (s.pc d).session ≠ none := by
  obtain ⟨-, se, buf, pc, hpc, -⟩ := h
  simp [hpc, Pc.session]

theorem handling_ends {op : FuseLowlevelOps} {input : RequestIn} (h : input.Known) :
    (input.handling op).Ends := by
  cases input with
  | other n hn => exact h.elim
  | _ =>
      simp only [RequestIn.handling, RequestIn.call]
      split_ifs <;> trivial

/-- No request is too long, and no daemon is stuck. -/
structure DaemonsGoOn (s : Sys T S F) : Prop where
  fits : ∀ t, (s.pc t).Outstanding → (s.record t).input.Fits
  daemons : ∀ d se buf pc, s.pc d = .daemon se buf pc → s.GoesOn pc

/-- The handlers of `s` are in `s'` what they were. -/
def HandlersKept (s s' : Sys T S F) : Prop :=
  ∀ (h : Nat) hd, s.handles[h]? = some hd → ∃ hd', s'.handles[h]? = some hd' ∧ hd'.what = hd.what

theorem HandlersKept.of_eq (h : s'.handles = s.handles) : HandlersKept s s' :=
  fun _ hd hh => ⟨hd, h ▸ hh, rfl⟩

theorem HandlersKept.set {b : Nat} {hd hd' : Handle T S} (hh : s.handles[b]? = some hd)
    (hhandles : s'.handles = s.handles.set b hd') (hwhat : hd'.what = hd.what) :
    HandlersKept s s' := by
  intro i x hi
  rw [hhandles]
  by_cases hib : b = i
  · subst hib
    obtain rfl := Option.some.inj (hh.symm.trans hi)
    exact ⟨hd', List.getElem?_set_self (List.getElem?_eq_some_iff.mp hh).1, hwhat⟩
  · exact ⟨x, (List.getElem?_set_ne hib).trans hi, rfl⟩

theorem HandlersKept.goesOn (h : HandlersKept s s') {pc : DaemonPc T} (hpc : s.GoesOn pc) :
    s'.GoesOn pc := by
  cases pc with
  | inCallback i =>
      obtain ⟨hd, hi, hends⟩ := hpc
      obtain ⟨hd', hi', hwhat⟩ := h i hd hi
      exact ⟨hd', hi', by rw [hwhat]; exact hends⟩
  | overrun req => exact hpc
  | _ => trivial

/-- What a step has to keep. -/
theorem DaemonsGoOn.keep (h : DaemonsGoOn s) (hhandlers : HandlersKept s s')
    (hout : ∀ u, (s'.pc u).Outstanding →
      ((s.pc u).Outstanding ∧ (s'.record u).input = (s.record u).input) ∨
        (s'.record u).input.Fits)
    (hdaemon : ∀ d se buf pc, s'.pc d = .daemon se buf pc → s.pc d = .daemon se buf pc ∨
      s'.GoesOn pc) : DaemonsGoOn s' where
  fits u hu := by
    rcases hout u hu with ⟨hold, hinput⟩ | hfits
    · rw [hinput]
      exact h.fits u hold
    · exact hfits
  daemons d se buf pc hd :=
    (hdaemon d se buf pc hd).elim (fun hold => hhandlers.goesOn (h.daemons d se buf pc hold)) id

variable [DecidableEq T]

/-- Only the thread `t` has moved. -/
theorem DaemonsGoOn.move (h : DaemonsGoOn s) {v : Pc T S} (hpc : s'.pc = Function.update s.pc t v)
    (hhandlers : HandlersKept s s') (hinput : ∀ u, (s'.record u).input = (s.record u).input)
    (hout : v.Outstanding → (s.pc t).Outstanding)
    (hv : ∀ se buf pc, v = .daemon se buf pc → s'.GoesOn pc) : DaemonsGoOn s' := by
  refine h.keep hhandlers ?_ ?_
  · intro u hu
    rw [hpc] at hu
    refine .inl ⟨?_, hinput u⟩
    by_cases hut : u = t
    · subst hut
      rw [Function.update_self] at hu
      exact hout hu
    · rwa [Function.update_of_ne hut] at hu
  · intro d se buf pc hd
    rw [hpc] at hd
    by_cases hdt : d = t
    · subst hdt
      rw [Function.update_self] at hd
      exact .inr (hv se buf pc hd)
    · rw [Function.update_of_ne hdt] at hd
      exact .inl hd

variable [Platform] {ops : S → FuseLowlevelOps} {owner : T → Option (Place T)}
  {env : MountEnv} {registered : Option S}

/-- A step of the mount: a record in a daemon's hands fits its buffer. -/
theorem DaemonsGoOn.step (h : DaemonsGoOn s) (hacc : Accounted ops s owner) {a : SysAct T S F}
    (hok : MountsAs env registered s a) (hs : s.Step ops a s') : DaemonsGoOn s' := by
  have hheld : ∀ {d se buf pc req}, s.pc d = .daemon se buf pc → req ∈ pc.inHand →
      (s.pc req).Outstanding ∧ (s.record req).input.Known := by
    intro d se buf pc req hpc hreq
    have hmem : req ∈ s.hands d := List.mem_append_right _ (by rw [hpc]; exact hreq)
    exact ⟨hacc.placed.outstanding_of (p := .daemon d) hmem, hacc.placed.known_inHand hmem⟩
  have hdaemon : ∀ {d se buf pc} buf' pc', s.pc d = .daemon se buf pc → s.GoesOn pc' →
      DaemonsGoOn (s.setPc d (.daemon se buf' pc')) := by
    intro d se buf pc buf' pc' hpc hgo
    refine h.move (t := d) rfl (.of_eq rfl) (fun _ => rfl) False.elim ?_
    rintro se' buf'' pc'' heq
    obtain ⟨-, -, rfl⟩ := Pc.daemon.inj heq
    exact hgo
  have hleave : ∀ {t : T} {v : Pc T S} {s' : Sys T S F}, v.Free → s'.pc = Function.update s.pc t v →
      s'.record = s.record → s'.handles = s.handles → DaemonsGoOn s' := by
    intro t v s' hv hpc hrecord hhandles
    refine h.move hpc (.of_eq hhandles) (fun u => by rw [hrecord])
      (fun hout => absurd hout hv.not_outstanding) ?_
    rintro se buf pc rfl
    exact hv.elim
  cases hs with
  | stay a => exact h
  | mount se => exact h.keep (.of_eq rfl) (fun _ hu => .inl ⟨hu, rfl⟩) fun _ _ _ _ => .inl
  | graft a n node f hn =>
      exact h.keep (.of_eq rfl) (fun _ hu => .inl ⟨hu, rfl⟩) fun _ _ _ _ => .inl
  | vopen t queue hpc hq =>
      exact h.move (t := t) (v := .vopenInit) rfl (.of_eq rfl) (fun _ => rfl) False.elim (by simp)
  | startNone t d buf startOk hpc hq => exact hleave (t := t) (v := .idle) trivial rfl rfl rfl
  | startDaemon t d buf se hpc hq hreg hd =>
      have hstart : DaemonsGoOn { s.setPc t .idle with
          nodes := s.nodes ++ [⟨fusefsFileAlloc F 1, s.registered⟩] } :=
        hleave (t := t) (v := .idle) trivial rfl rfl rfl
      refine hstart.move (t := d) (v := .daemon se buf .loop) rfl (.of_eq rfl) (fun _ => rfl)
        False.elim ?_
      intro se' buf' pc heq
      obtain ⟨-, -, rfl⟩ := Pc.daemon.inj heq
      trivial
  | goto a t v hpc hv => exact hleave (t := t) hv rfl rfl rfl
  | submit a t n node input k s' hact hpc hn hasks hopen hs hread hname =>
      obtain ⟨queue, -, rfl⟩ := Option.map_eq_some_iff.mp hs
      refine h.keep (.of_eq rfl) ?_ ?_
      · intro u hu
        by_cases hut : u = t
        · subst hut
          refine .inr ?_
          simp only [Function.update_self]
          cases hasks with
          | lookup path len =>
              obtain ⟨ok, rfl⟩ := hname path len rfl
              exact hok
          | _ => trivial
        · simp only [ne_eq, hut, not_false_eq_true, Function.update_of_ne] at hu ⊢
          exact .inl ⟨hu, trivial⟩
      · intro d se buf pc hd
        by_cases hdt : d = t
        · subst hdt
          simp at hd
        · simp only [ne_eq, hdt, not_false_eq_true, Function.update_of_ne] at hd
          exact .inl hd
  | down t k m ok hpc hq hdone =>
      refine h.move (t := t) (v := .woken k) rfl (.of_eq rfl) ?_ (fun _ => by rw [hpc]; trivial)
        (by simp)
      intro u
      by_cases hut : u = t
      · subst hut; simp
      · simp [hut]
  | finish t k ok hpc =>
      obtain ⟨v, nodes, hv, heq⟩ := Sys.finish_eq (s := s) (t := t) (s.record t).answer ok k
      rw [heq]
      exact hleave (t := t) hv rfl rfl rfl
  | callPop d se buf ok queue hpc hq =>
      exact h.keep (.of_eq rfl) (fun _ hu => .inl ⟨hu, rfl⟩) fun _ _ _ _ => .inl
  | ret d se buf ok req queue hpc hat hq =>
      exact (hdaemon buf (.popped req) hpc trivial).keep (.of_eq rfl)
        (fun _ hu => .inl ⟨hu, rfl⟩) fun _ _ _ _ => .inl
  | unknown d se buf ok req hpc hmsg => exact hdaemon _ _ hpc trivial
  | overrun d se buf ok req hpc hmsg =>
      obtain ⟨hout, hknown⟩ := hheld hpc (List.mem_singleton_self req)
      rw [daemonMessage_of_fits buf hknown (h.fits req hout)] at hmsg
      exact absurd hmsg (by simp)
  | message d se buf msg ok req hpc hmsg => exact hdaemon _ _ hpc trivial
  | failed d se buf ok req hpc => exact hdaemon _ _ hpc trivial
  | fail d se buf ok req act acts hpc =>
      exact (hdaemon buf (.failing req acts) hpc trivial).keep (.of_eq rfl)
        (fun u hu => .inl ⟨hu, input_applyAct act req u⟩) fun _ _ _ _ => .inl
  | noReq d se buf ok req hpc hproc => exact hdaemon _ _ hpc trivial
  | handle d se buf ok req r what hpc hproc =>
      obtain ⟨-, hknown⟩ := hheld hpc (List.mem_singleton_self req)
      obtain ⟨-, -, rfl⟩ := hacc.handed_over hpc hproc
      refine h.move (t := d) (v := .daemon se buf (.inCallback s.handles.length)) rfl ?_
        (fun _ => rfl) False.elim ?_
      · intro i hd hi
        exact ⟨hd, (List.getElem?_append_left (List.getElem?_eq_some_iff.mp hi).1).trans hi, rfl⟩
      · intro se' buf' pc heq
        obtain ⟨-, -, rfl⟩ := Pc.daemon.inj heq
        exact ⟨_, List.getElem?_concat_length, handling_ends hknown⟩
  | returned d se buf ok b hpc => exact hdaemon _ _ hpc trivial
  | device d se buf ok req hpc => exact hdaemon _ _ hpc trivial
  | queue t queue hq =>
      exact h.keep (.of_eq rfl) (fun _ hu => .inl ⟨hu, rfl⟩) fun _ _ _ _ => .inl
  | reply b hd r mallocOk hh hacc =>
      exact h.keep (.set hh rfl rfl) (fun _ hu => .inl ⟨hu, rfl⟩) fun _ _ _ _ => .inl
  | replyStep b hd act rest hh htodo =>
      exact h.keep (.set hh rfl rfl) (fun u hu => .inl ⟨hu, input_applyAct act hd.ukfsReq u⟩)
        fun _ _ _ _ => .inl

omit [Platform] in
/-- The `start` step of the system is the rest of `fusefs_vopen`. -/
theorem start_fusefsVopen {d : T} {buf : Mem} (hfile : env.fileOk = true)
    (hs : s.start t d buf env.daemonOk = some s') :
    ∃ ff, (fusefsVopen env s.registered : VopenResult S F).ret = .ok ff ∧
      s'.nodes = s.nodes ++ [⟨ff, s.registered⟩] ∧
      ∀ se, (fusefsVopen env s.registered : VopenResult S F).daemon = some se →
        s'.pc d = .daemon se buf .loop := by
  unfold Sys.start at hs
  split at hs
  · cases hreg : s.registered with
    | none =>
        simp only [hreg] at hs
        obtain rfl := Option.some.inj hs
        simp [fusefsVopen, hfile]
    | some se =>
        cases hok : env.daemonOk with
        | false =>
            have hstart : ((fuseDaemonStart env).2 && fuseDaemonThread env) = false := hok
            simp only [hreg, hok] at hs
            obtain rfl := Option.some.inj hs
            simp [fusefsVopen, hfile, hstart]
        | true =>
            have hstart : ((fuseDaemonStart env).2 && fuseDaemonThread env) = true := hok
            simp only [hreg, hok] at hs
            split at hs
            · obtain rfl := Option.some.inj hs
              simp [fusefsVopen, hfile, hstart, Sys.setPc]
            · exact absurd hs (by simp)
  · exact absurd hs (by simp)

omit [DecidableEq T] [Platform] in
/-- With a session and no failure the daemon is there. -/
theorem fusefsVopen_daemon (hfile : env.fileOk = true) (hok : env.daemonOk = true) (se : S) :
    (fusefsVopen env (some se) : VopenResult S F).daemon = some se := by
  have hstart : ((fuseDaemonStart env).2 && fuseDaemonThread env) = true := hok
  simp [fusefsVopen, hfile, hstart]

omit [DecidableEq T] [Platform] in
theorem daemonOk_iff : env.daemonOk = true ↔
    env.allocatorOk = true ∧ env.daOk = true ∧ env.threadOk = true ∧ env.bufOk = true := by
  rcases env with ⟨file, allocator, da, thread, buf⟩
  cases allocator <;> cases da <;> cases thread <;> simp [MountEnv.daemonOk, fuseDaemonStart,
    fuseDaemonThread]

/-- The mount and what it has started. -/
structure MountHolds (env : MountEnv) (s : Sys T S F) : Prop where
  one : OneMount s
  unused : QueueUnused s
  goOn : DaemonsGoOn s
  opened : ∀ t, (s.pc t).Mounting → env.fileOk = true
  daemon : s.nodes ≠ [] → ∃ d se, (s.pc d).session = some se

theorem MountHolds.step (h : MountHolds env s) (hacc : Accounted ops s owner)
    (hcomplete : env.fileOk = true → registered ≠ none ∧ env.daemonOk = true) {a : SysAct T S F}
    (hok : MountsAs env registered s a) (hs : s.step ops a = some s') : MountHolds env s' := by
  have hstep : s.Step ops a s' := .of_step hs
  refine ⟨h.one.step ?_ hstep, h.unused.step h.one hacc.placed hstep, h.goOn.step hacc hok hstep,
    ?_, ?_⟩
  · cases a with
    | vopen t allocOk =>
        cases allocOk with
        | true => exact hok.2
        | false => trivial
    | _ => trivial
  · intro t ht
    rcases hstep.mounting ht with hold | rfl
    · exact h.opened t hold
    · exact hok.1.symm
  · intro hne
    by_cases hnil : s.nodes = []
    · obtain ⟨t, d, buf, ok, rfl⟩ := hstep.first_node h.one hnil hne
      obtain ⟨rfl, rfl⟩ := hok
      have hmounting : (s.pc t).Mounting := by
        simp only [Sys.step, Sys.start] at hs
        split at hs
        · rename_i hpc hq
          rw [hpc]
          trivial
        · exact absurd hs (by simp)
      have hfile := h.opened t hmounting
      obtain ⟨hreg, hdaemonOk⟩ := hcomplete hfile
      obtain ⟨se, hse⟩ := Option.ne_none_iff_exists'.mp hreg
      obtain ⟨ff, -, -, hdaemon⟩ := start_fusefsVopen hfile hs
      refine ⟨d, se, ?_⟩
      rw [hdaemon se (by rw [hse]; exact fusefsVopen_daemon hfile hdaemonOk se)]
      rfl
    · obtain ⟨d, se, hd⟩ := h.daemon hnil
      exact ⟨d, se, hstep.session hd⟩

omit [DecidableEq T] [Platform] in
/-- The one `fuse_ukfs_queue_init` of the mount finds the queue unused. -/
theorem MountHolds.quiet (h : MountHolds env s) (hplaced : Placed s owner) (a : SysAct T S F) :
    QuietMount s a := by
  cases a with
  | queue t =>
      have hempty : (s.queue.pc t).fn = some .init → s.queue.q = ⟨[], none, 0⟩ := by
        intro hfn
        refine h.unused (h.one.mounting t ?_).1
        rw [hplaced.initializer hfn]
        trivial
      cases hpc : s.queue.pc t with
      | initHead => simp [QuietMount, QuietInit, hpc, hempty (by rw [hpc]; rfl)]
      | initLock => simp [QuietMount, QuietInit, hpc, hempty (by rw [hpc]; rfl)]
      | initCount => simp [QuietMount, QuietInit, hpc, hempty (by rw [hpc]; rfl)]
      | _ => simp [QuietMount, QuietInit, hpc]
  | _ => trivial

/-- Every state of a complete mount, or of one that has made no node. -/
theorem mountHolds_reachable
    (hcomplete : env.fileOk = true → registered ≠ none ∧ env.daemonOk = true)
    (hs : ((fuseSystem T S F ops).restrict (MountsAs env registered)).Reachable s) :
    MountHolds env s ∧ ((fuseSystem T S F ops).restrict QuietMount).Reachable s := by
  induction hs with
  | start hinit =>
      have hquiet := TSys.Reachable.start (m := (fuseSystem T S F ops).restrict QuietMount) hinit
      obtain ⟨record, rfl⟩ := hinit
      exact ⟨{ one := .boot record
               unused := fun _ => rfl
               goOn := ⟨fun _ h => h.elim, fun _ _ _ _ h => absurd h (by simp [Sys.boot])⟩
               opened := fun _ h => h.elim
               daemon := fun h => absurd rfl h }, hquiet⟩
  | step hreach hstep ih =>
      obtain ⟨hholds, hquiet⟩ := ih
      obtain ⟨owner, hacc⟩ := accounted_reachable hreach.of_restrict
      exact ⟨hholds.step hacc hcomplete hstep.1 hstep.2,
        hquiet.step ⟨hholds.quiet hacc.placed _, hstep.2⟩⟩

/-- Then every request has its daemon. -/
theorem noneStranded_of_complete
    (hcomplete : env.fileOk = true → registered ≠ none ∧ env.daemonOk = true) :
    ((fuseSystem T S F ops).restrict (MountsAs env registered)).Invariant NoneStranded := by
  rintro s hs t ⟨⟨k, hk⟩, -, -⟩
  obtain ⟨hholds, hquiet⟩ := mountHolds_reachable hcomplete hs
  have hqueue := (queueSimulation (F := F) ops).invariant (queueInv_invariant T T) s hquiet
  obtain ⟨d, se, hd⟩ := hholds.daemon (hholds.one.client t (by rw [hk]; trivial))
  refine ⟨d, hqueue.noAssert d, ?_⟩
  cases hpc : s.pc d with
  | daemon se' buf pc => exact ⟨se', buf, pc, rfl, hholds.goOn.daemons d se' buf pc hpc⟩
  | _ => rw [hpc] at hd; exact absurd hd (by simp [Pc.session])

omit [Platform] in
/-- Without a session or without memory there is a node and no daemon. -/
theorem start_alone {d : T} {buf : Mem} {ok : Bool} (hfail : s.registered = none ∨ ok = false)
    (hpc : s.pc t = .vopenInit) (hq : s.queue.pc t = .out) :
    s.start t d buf ok = some { s.setPc t .idle with
      nodes := s.nodes ++ [⟨fusefsFileAlloc F 1, s.registered⟩] } := by
  rcases hfail with hreg | rfl
  · simp [Sys.start, hpc, hq, hreg]
  · cases hreg : s.registered <;> simp [Sys.start, hpc, hq, hreg]

variable (F ops) in
/-- And otherwise the first getstat waits for ever. -/
theorem getstat_stranded (t : T) (hfile : env.fileOk = true)
    (hfail : registered = none ∨ env.daemonOk = false) :
    ∃ s, ((fuseSystem T S F ops).restrict (MountsAs env registered)).Reachable s ∧
      s.Pending t ∧ ∀ d, (s.pc d).session = none := by
  classical
  have hinit : ((fuseSystem T S F ops).restrict (MountsAs env registered)).Reachable
      { (.boot fun _ => .init 0 (.getattr 0) : Sys T S F) with registered := registered } := by
    have hboot : ((fuseSystem T S F ops).restrict (MountsAs env registered)).Reachable
        (.boot fun _ => .init 0 (.getattr 0)) := .start ⟨_, rfl⟩
    cases registered with
    | none => exact hboot
    | some se => exact TSys.Reachable.step (a := SysAct.mount se) hboot ⟨trivial, rfl⟩
  have hexec : (TSys.exec (fun (s : Sys T S F) a => if MountsAs env registered s a then
      s.step ops a else none)
      { (.boot fun _ => .init 0 (.getattr 0) : Sys T S F) with registered := registered }
      [.vopen t true, .queue t, .queue t, .queue t, .start t t (fun _ => 0) env.daemonOk,
        .call t (.getstat 0) true, .queue t, .queue t, .queue t, .queue t]).map
      (fun s => (s.pc, s.queue.pc t, (s.record t).done)) =
      some (Function.update (fun _ => .idle) t (.waiting (.getstat 0)), .out, 0) := by
    simp [TSys.exec, MountsAs, hfile, Sys.step, Sys.boot, QueueState.fresh, Sys.vopen,
      QueueState.callInit, QueueState.tick, QueueState.move, Sys.setPc, Pc.Mounting, start_alone,
      hfail, Sys.call, Sys.submit, QueueState.callPush, FuseUkfsQueue.mutexLock,
      FuseUkfsQueue.mutexInit, FuseUkfsQueue.tailqInit, FuseUkfsQueue.semaphoreInit,
      FuseUkfsRequest.init]
  obtain ⟨s, hs, hobs⟩ := TSys.exists_reachable_of_guarded _ hinit _ hexec
  obtain ⟨hpc, hq, hdone⟩ := by simpa only [Prod.mk.injEq] using hobs
  refine ⟨s, hs, ⟨⟨_, by rw [hpc, Function.update_self]⟩, hq, hdone⟩, fun d => ?_⟩
  rw [hpc]
  by_cases hd : d = t
  · rw [hd, Function.update_self]
    rfl
  · rw [Function.update_of_ne hd]
    rfl

end Steps

/-- A mount strands no request, and reports what `fuse_daemon_start` does not
achieve, exactly when nothing fails but perhaps the allocation of its node. -/
theorem mount_kept_iff (T S F : Type) [DecidableEq T] [Inhabited T] [Platform]
    (ops : S → FuseLowlevelOps) (env : MountEnv) (registered : Option S) :
    MountKept T S F ops env registered ↔
      (env.fileOk = true → registered ≠ none ∧ env.allocatorOk = true ∧ env.daOk = true ∧
        env.threadOk = true ∧ env.bufOk = true) := by
  rw [← daemonOk_iff]
  constructor
  · intro h hfile
    by_contra hfail
    have hfail' : registered = none ∨ env.daemonOk = false := by
      by_cases hreg : registered = none
      · exact .inl hreg
      · exact .inr (by simpa using fun hok => hfail ⟨hreg, hok⟩)
    obtain ⟨s, hs, hpending, hnone⟩ :=
      getstat_stranded F ops (default : T) hfile hfail'
    obtain ⟨d, hpops⟩ := h.served s hs default hpending
    exact hpops.session_ne_none (hnone d)
  · intro hcomplete
    refine ⟨noneStranded_of_complete hcomplete, fun e he hne => ?_⟩
    cases hfile : env.fileOk with
    | false => simp [fusefsVopen, hfile] at he
    | true =>
        obtain ⟨hreg, hok⟩ := hcomplete hfile
        obtain ⟨se, rfl⟩ := Option.ne_none_iff_exists'.mp hreg
        obtain ⟨hallocator, hda, hthread, -⟩ := daemonOk_iff.mp hok
        simp [fusefsVopen, hfile, fuseDaemonStart, hallocator, hda, hthread] at he
        exact absurd he.symm hne

/-- The daemon's thread is not created: `fuse_daemon_start` fails, the caller
of `fusefs_vopen` gets a node, and its getstat is never answered. -/
theorem unreported_start_strands_getstat :
    letI := sampleHeaders
    let env : MountEnv := ⟨true, true, true, false, true⟩
    ¬ ((fuseSystem (Fin 1) Unit Unit fun _ => .full).restrict
      (MountsAs env (some ()))).Invariant NoneStranded ∧
    (fusefsVopen env (some ()) : VopenResult Unit Unit).started = some (-ENOMEM) ∧
    (fusefsVopen env (some ()) : VopenResult Unit Unit).ret = .ok (fusefsFileAlloc Unit 1) := by
  let := sampleHeaders
  refine ⟨fun hinv => ?_, rfl, rfl⟩
  have hstart : MountEnv.daemonOk ⟨true, true, true, false, true⟩ = false := rfl
  obtain ⟨s, hs, hpending, hnone⟩ :=
    getstat_stranded Unit (fun _ : Unit => .full) (0 : Fin 1) (by rfl) (.inr hstart)
  obtain ⟨d, hpops⟩ := hinv s hs 0 hpending
  exact hpops.session_ne_none (hnone d)

end UkfsFuse
