import UkfsFuse.Logic.Mounting

/-!
# Several mounts

Every `fusefs_vopen` starts a daemon for the session registered at that time,
and all daemons pop from the one queue. A request record names neither mount
nor session, so the daemon that removes a record decides whose callbacks are
called. Requests stay in their mount exactly when no daemon removes a record
of another mount.
-/

namespace UkfsFuse

open UkfsFuse.Core QueuePc

section Definitions

variable {T S F : Type}

/-- A daemon that is about to remove the first record of the queue serves the
mount of the node the record was issued from. -/
def TakesOwn (s : Sys T S F) : SysAct T S F → Prop
  | .queue d => ∀ se req, s.queue.pc d = .popRemove → (s.pc d).session = some se →
      s.queue.q.head.head? = some req → s.Home (s.origin req).node se
  | _ => True

/-- Requests stay in their mount. -/
structure MountsApart (s : Sys T S F) : Prop where
  /-- in the hands of its daemons -/
  taken : ∀ d se req, (s.pc d).session = some se → req ∈ s.hands d →
    s.Home (s.origin req).node se
  /-- and with the callbacks of its session -/
  dispatched : ∀ hd ∈ s.handles, s.Home hd.origin.node hd.se

end Definitions

section Frames

variable {T S F : Type} {s s' : Sys T S F} {t d : T} {owner : T → Option (Place T)}

/-- What a step has to keep: nodes their mounts, handles their requests and
sessions, and daemons take nothing. -/
theorem MountsApart.keep (h : MountsApart s) (hhome : ∀ n se, s.Home n se → s'.Home n se)
    (hhandles : ∀ hd ∈ s'.handles, ∃ old ∈ s.handles, hd.origin = old.origin ∧ hd.se = old.se)
    (htaken : ∀ u se req, (s'.pc u).session = some se → req ∈ s'.hands u →
      (s.pc u).session = some se ∧ req ∈ s.hands u ∧ s'.origin req = s.origin req) :
    MountsApart s' where
  taken := by
    intro u se req hse hreq
    obtain ⟨hse', hreq', horigin⟩ := htaken u se req hse hreq
    rw [horigin]
    exact hhome _ _ (h.taken u se req hse' hreq')
  dispatched := by
    intro hd hmem
    obtain ⟨old, hold, horigin, hse⟩ := hhandles hd hmem
    rw [horigin, hse]
    exact hhome _ _ (h.dispatched old hold)

/-- No thread has moved. -/
theorem MountsApart.still (h : MountsApart s) (hhome : ∀ n se, s.Home n se → s'.Home n se)
    (hhandles : ∀ hd ∈ s'.handles, ∃ old ∈ s.handles, hd.origin = old.origin ∧ hd.se = old.se)
    (horigin : s'.origin = s.origin) (hpc : s'.pc = s.pc) (hqueue : s'.queue = s.queue) :
    MountsApart s' := by
  refine h.keep hhome hhandles fun u se req hse hreq => ?_
  rw [hpc] at hse
  rw [Sys.hands, hqueue, hpc] at hreq
  exact ⟨hse, hreq, by rw [horigin]⟩

/-- Only the thread `t` has moved. -/
theorem MountsApart.moved (h : MountsApart s) (hhome : ∀ n se, s.Home n se → s'.Home n se)
    (hhandles : s'.handles = s.handles) (horigin : s'.origin = s.origin)
    (hpc : ∀ u, u ≠ t → s'.pc u = s.pc u) (hqueue : ∀ u, u ≠ t → s'.queue.pc u = s.queue.pc u)
    (ht : ∀ se req, (s'.pc t).session = some se → req ∈ s'.hands t →
      (s.pc t).session = some se ∧ req ∈ s.hands t) : MountsApart s' := by
  refine h.keep hhome (fun hd hmem => ⟨hd, hhandles ▸ hmem, rfl, rfl⟩) ?_
  intro u se req hse hreq
  by_cases hu : u = t
  · subst hu
    obtain ⟨hse', hreq'⟩ := ht se req hse hreq
    exact ⟨hse', hreq', by rw [horigin]⟩
  · rw [hpc u hu] at hse
    rw [Sys.hands, hqueue u hu, hpc u hu] at hreq
    exact ⟨hse, hreq, by rw [horigin]⟩

/-- A record a daemon has taken is that of a waiting client. -/
theorem Placed.hands_outstanding (h : Placed s owner) {req : T} (hreq : req ∈ s.hands d) :
    (s.pc req).Outstanding :=
  h.outstanding_of (p := .daemon d) hreq

variable [DecidableEq T]

/-- The thread `t` is no daemon afterwards. -/
theorem MountsApart.setPc (h : MountsApart s) {v : Pc T S} (hv : v.session = none)
    (hpc : s'.pc = Function.update s.pc t v) (hhome : ∀ n se, s.Home n se → s'.Home n se)
    (hhandles : s'.handles = s.handles) (horigin : s'.origin = s.origin)
    (hqueue : ∀ u, u ≠ t → s'.queue.pc u = s.queue.pc u) : MountsApart s' := by
  refine h.moved (t := t) hhome hhandles horigin ?_ hqueue ?_
  · intro u hu
    rw [hpc, Function.update_of_ne hu]
  · intro se req hse
    rw [hpc, Function.update_self, hv] at hse
    exact absurd hse (by simp)

/-- A daemon goes on with what it has, or without it. -/
theorem MountsApart.setDaemon (h : MountsApart s) {se : S} {buf buf' : Mem} {pc pc' : DaemonPc T}
    (hd : s.pc d = .daemon se buf pc) (hin : pc'.inHand ⊆ pc.inHand) :
    MountsApart (s.setPc d (.daemon se buf' pc')) := by
  refine h.moved (t := d) (fun _ _ => id) rfl rfl ?_ (fun _ _ => rfl) ?_
  · intro u hu
    simp [Sys.setPc, hu]
  · intro se' req hse hreq
    simp only [Sys.setPc, Function.update_self, Pc.session, Sys.hands, Pc.inHand_daemon,
      List.mem_append] at hse hreq
    refine ⟨by rw [hd]; exact hse, ?_⟩
    rw [Sys.hands, hd, Pc.inHand_daemon, List.mem_append]
    exact hreq.imp_right fun hmem => hin hmem

end Frames

section Steps

variable {T S F : Type} [DecidableEq T] [Platform] {ops : S → FuseLowlevelOps}
  {s s' : Sys T S F} {t d : T} {owner : T → Option (Place T)}

omit [Platform] in
/-- A statement inside a queue function. -/
theorem MountsApart.queue (h : MountsApart s) {queue : QueueState T T}
    (hown : TakesOwn s (.queue t)) (he : TickEffect s.queue t queue) :
    MountsApart { s with queue := queue } := by
  have hmoved : ∀ v, queue.pc = Function.update s.queue.pc t v →
      (QueuePc.inHand v ⊆ QueuePc.inHand (s.queue.pc t)) →
      MountsApart { s with queue := queue } := by
    intro v hpc hin
    refine h.moved (t := t) (fun _ _ => id) rfl rfl (fun _ _ => rfl) ?_ ?_
    · intro u hu
      show queue.pc u = _
      rw [hpc, Function.update_of_ne hu]
    · intro se req hse hreq
      simp only [Sys.hands, hpc, Function.update_self, List.mem_append] at hreq
      exact ⟨hse, List.mem_append.mpr (hreq.imp_left fun hmem => hin hmem)⟩
  cases he with
  | move v hpc hhead hins hhand hfn => exact hmoved v hpc (by rw [hhand]; exact fun _ => id)
  | insert req hat hpc hhead => exact hmoved _ hpc (by simp [QueuePc.inHand])
  | reset hat hpc hhead => exact hmoved _ hpc (by simp [QueuePc.inHand])
  | remove req rest hat hreq hpc hhead =>
      -- the one statement by which a daemon takes a record
      refine { taken := ?_, dispatched := h.dispatched }
      intro u se req' hse hmem
      by_cases hu : u = t
      · subst hu
        have hcase : req' = req ∨ req' ∈ (s.pc u).inHand := by
          simpa [Sys.hands, hpc, QueuePc.inHand] using hmem
        rcases hcase with rfl | hold
        · exact hown se req' hat hse (by rw [hreq]; rfl)
        · exact h.taken u se req' hse (List.mem_append.mpr (.inr hold))
      · refine h.taken u se req' hse ?_
        simpa [Sys.hands, hpc, hu] using hmem

/-- One step of the system. -/
theorem MountsApart.step (h : MountsApart s) (hplaced : Placed s owner) {a : SysAct T S F}
    (hown : TakesOwn s a) (hs : s.Step ops a s') : MountsApart s' := by
  have hsame : ∀ hd ∈ s.handles, ∃ old ∈ s.handles, hd.origin = old.origin ∧ hd.se = old.se :=
    fun hd hmem => ⟨hd, hmem, rfl, rfl⟩
  cases hs with
  | stay a => exact h
  | mount se =>
      exact h.still (fun _ _ => id) hsame rfl rfl rfl
  | graft a n node f hn =>
      exact h.still (fun _ _ hhome => hhome.modify rfl fun _ => rfl) hsame rfl rfl rfl
  | vopen t queue hpc hq =>
      obtain ⟨-, rfl⟩ := QueueState.callInit_eq hq
      exact h.setPc (t := t) rfl rfl (fun _ _ => id) rfl rfl fun u hu => by
        simp [QueueState.move, hu]
  | startNone t d buf startOk hpc hq =>
      exact h.setPc (t := t) rfl rfl (fun _ _ hhome => hhome.append rfl) rfl rfl fun _ _ => rfl
  | startDaemon t d buf se hpc hq hreg hd =>
      -- the new daemon has taken nothing yet
      refine h.keep (fun _ _ hhome => hhome.append rfl) hsame ?_
      intro u se' req hse hreq
      by_cases hud : u = d
      · subst hud
        have hout : s.queue.pc u = .out := hplaced.queue_out (by rw [hd]; rfl)
        simp [Sys.hands, Sys.setPc, hout, QueuePc.inHand, DaemonPc.inHand] at hreq
      · by_cases hut : u = t
        · subst hut
          simp [Sys.setPc, hud, Pc.session] at hse
        · simp only [Sys.setPc, Sys.hands, ne_eq, hud, hut, not_false_eq_true,
            Function.update_of_ne] at hse hreq
          exact ⟨hse, hreq, rfl⟩
  | goto a t v hpc hv =>
      exact h.setPc (t := t) hv.session rfl (fun _ _ => id) rfl rfl fun _ _ => rfl
  | submit a t n node input k s' hact hpc hn hasks hopen hs =>
      obtain ⟨queue, hq, rfl⟩ := Option.map_eq_some_iff.mp hs
      obtain ⟨-, rfl⟩ := QueueState.callPush_eq hq
      refine h.keep (fun _ _ => id) hsame ?_
      intro u se req hse hreq
      by_cases hu : u = t
      · subst hu
        simp [Pc.session] at hse
      · have hmem : req ∈ s.hands u := by
          simpa [Sys.hands, QueueState.move, hu] using hreq
        -- the record of a free client is in nobody's hands
        have hreqt : req ≠ t := by
          rintro rfl
          exact hpc.not_outstanding (hplaced.hands_outstanding hmem)
        exact ⟨by simpa [hu] using hse, hmem, Function.update_of_ne hreqt _ _⟩
  | down t k m ok hpc hq hdone =>
      exact h.setPc (t := t) rfl rfl (fun _ _ => id) rfl rfl fun _ _ => rfl
  | finish t k ok hpc =>
      have hhome := fun n se (hn : s.Home n se) =>
        home_finish (t := t) hn (s.record t).answer ok k
      obtain ⟨v, nodes, hv, heq⟩ := Sys.finish_eq (s := s) (t := t) (s.record t).answer ok k
      rw [heq] at hhome ⊢
      exact h.setPc (t := t) hv.session rfl hhome rfl rfl fun _ _ => rfl
  | callPop d se buf ok queue hpc hq =>
      obtain ⟨-, rfl⟩ := QueueState.callPop_eq hq
      refine h.moved (t := d) (fun _ _ => id) rfl rfl (fun _ _ => rfl) ?_ ?_
      · intro u hu
        simp [QueueState.move, hu]
      · intro se' req hse hreq
        simp [Sys.hands, QueueState.move, QueuePc.inHand, hpc, DaemonPc.inHand] at hreq
  | ret d se buf ok req queue hpc hat hq =>
      obtain ⟨req', hat', rfl⟩ := QueueState.ret_eq hq
      obtain rfl : req = req' := by rw [hat] at hat'; exact QueuePc.popReturn.inj hat'
      refine h.moved (t := d) (fun _ _ => id) rfl rfl ?_ ?_ ?_
      · intro u hu
        simp [Sys.setPc, hu]
      · intro u hu
        simp [QueueState.move, hu]
      · intro se' req' hse hreq
        simp only [Sys.setPc, Function.update_self, Pc.session] at hse
        simp only [Sys.hands, QueueState.move, Sys.setPc, Function.update_self, QueuePc.inHand,
          Pc.inHand_daemon, DaemonPc.inHand, List.nil_append] at hreq
        exact ⟨by rw [hpc]; exact hse, by
          simpa [Sys.hands, hat, hpc, QueuePc.inHand, DaemonPc.inHand] using hreq⟩
  | unknown d se buf ok req hpc hmsg => exact h.setDaemon hpc fun _ => id
  | overrun d se buf ok req hpc hmsg => exact h.setDaemon hpc fun _ => id
  | message d se buf msg ok req hpc hmsg => exact h.setDaemon hpc fun _ => id
  | failed d se buf ok req hpc => exact h.setDaemon hpc (by simp [DaemonPc.inHand])
  | fail d se buf ok req act acts hpc =>
      have hact : MountsApart (s.applyAct act req) :=
        h.still (fun _ _ => id) hsame rfl rfl rfl
      have hfailing : (s.applyAct act req).pc d = .daemon se buf (.failing req (act :: acts)) := hpc
      exact hact.setDaemon hfailing fun _ => id
  | noReq d se buf ok req hpc hproc => exact h.setDaemon hpc fun _ => id
  | handle d se buf ok req r what hpc hproc =>
      have hdaemon : MountsApart (s.setPc d (.daemon se buf (.inCallback s.handles.length))) :=
        h.setDaemon hpc (by simp [DaemonPc.inHand])
      refine { taken := hdaemon.taken, dispatched := ?_ }
      intro hd hmem
      rcases List.mem_append.mp hmem with hmem | hmem
      · exact h.dispatched hd hmem
      · rw [List.mem_singleton.mp hmem]
        refine h.taken d se req (by rw [hpc]; rfl) ?_
        simp [Sys.hands, hpc, DaemonPc.inHand]
  | returned d se buf ok b hpc => exact h.setDaemon hpc (by simp [DaemonPc.inHand])
  | device d se buf ok req hpc => exact h.setDaemon hpc (by simp [DaemonPc.inHand])
  | queue t queue hq => exact h.queue hown (QueueState.tickEffect hq)
  | reply b hd r mallocOk hh hacc =>
      exact h.still (fun _ _ => id)
        (Sys.forall_mem_set hsame ⟨hd, List.mem_of_getElem? hh, rfl, rfl⟩) rfl rfl rfl
  | replyStep b hd act rest hh htodo =>
      exact h.still (fun _ _ => id)
        (Sys.forall_mem_set hsame ⟨hd, List.mem_of_getElem? hh, rfl, rfl⟩) rfl rfl rfl

/-- Only that keeps mounts apart: a daemon that removes a record of another
mount can go on and call its own session's callbacks for it. -/
theorem foreign_removal_crosses (hs : (fuseSystem T S F ops).Reachable s) {se : S} {req : T}
    (hat : s.queue.pc d = .popRemove) (hse : (s.pc d).session = some se)
    (hhead : s.queue.q.head.head? = some req) (hfits : (s.record req).input.Fits)
    (hforeign : ¬ s.Home (s.origin req).node se) :
    ∃ s', (fuseSystem T S F ops).Run s
      [.queue d, .queue d, .run d true, .run d true, .run d true] s' ∧ ¬ MountsApart s' := by
  obtain ⟨owner, hacc⟩ := accounted_reachable hs
  obtain ⟨se', buf, hloop⟩ := hacc.placed.popper (t := d) (by rw [hat]; rfl)
  obtain rfl : se' = se := by rw [hloop] at hse; exact Option.some.inj hse
  obtain ⟨rest, hlist⟩ : ∃ rest, s.queue.q.head = req :: rest :=
    List.head?_eq_some_iff.mp hhead
  have hqueued : s.InPlace .queued req := by simp [Sys.InPlace, hlist]
  have hknown : (s.record req).input.Known :=
    (hacc.placed.threads req).known (hacc.placed.outstanding_of hqueued)
  have hmsg := daemonMessage_of_fits buf hknown hfits
  have hproc := process_requestMessage buf (ops se') hknown hfits
  have hexec : (TSys.exec (Sys.step ops) s
      [.queue d, .queue d, .run d true, .run d true, .run d true]).map
        (fun s' => (s'.nodes, s'.handles)) =
      some (s.nodes, s.handles ++ [⟨req, se', ⟨(s.record req).unique, 0, 0, 1⟩,
        (s.record req).input.handling (ops se'), none, [], s.origin req⟩]) := by
    simp [TSys.exec, Sys.step, QueueState.tick, hat, hlist, QueueState.move, Sys.run, hloop,
      Sys.runDaemon, QueueState.ret, Sys.setPc, hmsg, hproc]
  obtain ⟨s', hrun, hend⟩ := Option.map_eq_some_iff.mp hexec
  obtain ⟨hnodes, hhandles⟩ := Prod.mk.inj hend
  refine ⟨s', TSys.run_of_exec hrun, fun hapart => hforeign ?_⟩
  have hhome := hapart.dispatched _ (hhandles ▸ List.mem_append_right _ (.head _))
  rwa [Sys.Home, hnodes] at hhome

end Steps

/-- In every run in which daemons remove records of their own mount only,
every request is dispatched to the callbacks of the session that was
registered when the mount of its node was opened. -/
theorem requests_stay_in_their_mount (T S F : Type) [DecidableEq T] [Platform]
    (ops : S → FuseLowlevelOps) :
    ((fuseSystem T S F ops).restrict TakesOwn).Invariant MountsApart := by
  intro s hs
  induction hs with
  | start hinit =>
      obtain ⟨record, rfl⟩ := hinit
      exact ⟨fun d se req hse => absurd hse (by simp [Sys.boot, Pc.session]),
        fun hd hmem => absurd hmem (by simp [Sys.boot])⟩
  | step hreach hstep ih =>
      obtain ⟨owner, hacc⟩ := accounted_reachable hreach.of_restrict
      exact ih.step hacc.placed hstep.1 (.of_step hstep.2)

/-- Two mounts: the daemon of the second removes a GETATTR request issued from
the root of the first. -/
theorem second_daemon_serves_first_mount :
    letI := sampleHeaders
    ¬ (fuseSystem (Fin 4) Bool Unit fun _ => .full).Invariant fun s =>
      ∀ hd ∈ s.handles, s.Home hd.origin.node hd.se := by
  let := sampleHeaders
  have hcross : ∃ s, (fuseSystem (Fin 4) Bool Unit fun _ => .full).Reachable s ∧
      (s.nodes.map Node.home, s.handles.map fun hd => (hd.origin.node, hd.se)) =
        ([some false, some true], [(0, true)]) := by
    refine TSys.exists_reachable_of_exec
      [ -- a mount of the session `false`, its daemon is thread 1
        .mount false, .vopen 0 true, .queue 0, .queue 0, .queue 0, .start 0 1 (fun _ => 0) true,
        -- a mount of the session `true`, its daemon is thread 2
        .mount true, .vopen 0 true, .queue 0, .queue 0, .queue 0, .start 0 2 (fun _ => 0) true,
        -- thread 3 pushes a request of node 0, thread 2 pops and serves it
        .call 3 (.getstat 0) true, .queue 3, .queue 3, .queue 3, .queue 3,
        .run 2 true, .queue 2, .queue 2, .queue 2, .queue 2, .run 2 true, .run 2 true, .run 2 true]
      ⟨fun _ => .init 0 (.getattr 0), rfl⟩ _ ?_
    decide
  intro hinv
  obtain ⟨s, hs, hobs⟩ := hcross
  obtain ⟨hhomes, hhandles⟩ := Prod.mk.inj hobs
  obtain ⟨hd, hmem, horigin⟩ := List.mem_map.mp (hhandles ▸ List.mem_singleton_self (0, true))
  obtain ⟨hnode, hse⟩ := Prod.mk.inj horigin
  obtain ⟨node, hn, hhome⟩ := hinv s hs hd hmem
  have hfirst : (s.nodes.map Node.home)[0]? = some (some true) := by
    rw [List.getElem?_map, ← hnode, hn, Option.map_some, hhome, hse]
  rw [hhomes] at hfirst
  exact absurd hfirst (by decide)

end UkfsFuse
