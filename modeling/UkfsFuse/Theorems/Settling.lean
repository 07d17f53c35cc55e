import UkfsFuse.Logic.Asking
import UkfsFuse.Logic.Handles
import UkfsFuse.Logic.Settling
import UkfsFuse.Theorems.Lifecycle

/-!
# Nobody waits forever

One fuse mount, and a backend that answers every handle some time: whatever the
order in which threads and backend take their steps, when no operation begins
any more the steps come to an end, and then every client has returned, every
handle has been replied to and the daemon waits for the next request. The one
exception is a daemon that has run over the end of its buffer, with a name that
does not fit. It does not occur when the names looked up fit, and no client
stops at a reply object that it cannot read when the backend replies with what
the operations read (`Orderly`).
-/

namespace UkfsFuse

open UkfsFuse.Core QueuePc

variable {T S F : Type}

/-- Neither an operation nor a mount begins with the step. -/
def SysAct.GoesOn : SysAct T S F → Prop
  | .call .. | .mount _ => False
  | _ => True

/-- The runs of one mount in which no operation begins. -/
def settlingSystem (T S F : Type) [DecidableEq T] [Platform] (ops : S → FuseLowlevelOps) :
    TSys (Sys T S F) (SysAct T S F) :=
  (mountSystem T S F ops).restrict fun _ a => a.GoesOn

/-- A client that has returned from its operation or has stopped at a reply object
it cannot read, or a daemon that waits. -/
def Sys.Rests (s : Sys T S F) (t : T) : Prop :=
  (s.pc t).Returned ∨ ∃ se buf, s.pc t = .daemon se buf .loop ∧ s.queue.pc t = .popDown

/-- A daemon has run over the end of its buffer. -/
def Sys.Jammed (s : Sys T S F) : Prop :=
  ∃ d se buf req, s.pc d = .daemon se buf (.overrun req) ∧ ¬ (s.record req).input.Fits

/-- Nothing is left to do. -/
structure Settled (s : Sys T S F) : Prop where
  replied : ∀ hd ∈ s.handles, hd.answer ≠ none ∧ hd.todo = []
  rests : (s.queue.q.head = [] ∧ ∀ t, s.Rests t) ∨ s.Jammed

/-- From `s` on the operations come to an end. -/
structure Settles [DecidableEq T] [Platform] (ops : S → FuseLowlevelOps) (s : Sys T S F) :
    Prop where
  ends : ∃ n, ∀ as s', (settlingSystem T S F ops).Run s as s' → as.length ≤ n
  settled : ∀ as s', (settlingSystem T S F ops).Run s as s' →
    (settlingSystem T S F ops).Final s' → Settled s'
  settles : ∃ as s', (settlingSystem T S F ops).Run s as s' ∧ Settled s'

/-- The names looked up fit the daemon's buffer, and the backend replies to a
callback with what its operation reads. -/
def Orderly (s : Sys T S F) : SysAct T S F → Prop
  | .call _ (.lookup _ path len) _ => (RequestIn.lookup 1 (.strndup path len)).Fits
  | .reply h r _ => ∀ hd call, s.handles[h]? = some hd → hd.what = .callback call → r.Meant call
  | _ => True

/-- No daemon has left its buffer, and no client reads what is not there. -/
def Undisturbed (s : Sys T S F) : Prop := ¬ s.Jammed ∧ ∀ t, s.pc t ≠ .undefined_

section Runs

variable [DecidableEq T] [Platform] {ops : S → FuseLowlevelOps} {s s' : Sys T S F}
  {a : SysAct T S F} {owner : T → Option (Place T)}

/-- Somebody is there for everything that waits. -/
structure Live (s : Sys T S F) : Prop where
  queue : QueueInv s.queue
  held : LockHeld s.queue
  daemon : ∃ d, (s.pc d).IsDaemon
  callbacks : s.AllCallbacks
  running : ∀ d se buf b, s.pc d = .daemon se buf (.inCallback b) → b < s.handles.length
  jammed : ∀ d se buf req, s.pc d = .daemon se buf (.overrun req) → ¬ (s.record req).input.Fits
  reading : ∀ t n, (s.pc t).reading = some n → n < s.nodes.length
  within : ∃ A : Finset T, s.Within A

theorem Mounted.queue_fresh (h : Mounted ops s) :
    s.queue = .fresh ⟨[], none, 0⟩ ∧ ∃ d, (s.pc d).IsDaemon ∧ ∀ u, u ≠ d → s.pc u = .idle := by
  obtain ⟨record, se, t, d, buf, hfull, hexec⟩ := h
  simp only [TSys.exec, Sys.step, Sys.boot, QueueState.fresh, Sys.vopen, if_true, Sys.setPc,
    QueueState.callInit, QueueState.move, QueueState.tick, Sys.start, Option.bind_fun_some,
    Option.bind_some, Option.map_some, Function.update_self, Function.update_idem,
    Function.update_eq_self, List.nil_append] at hexec
  split at hexec
  · obtain rfl := Option.some.inj hexec
    refine ⟨rfl, d, by simp [Pc.IsDaemon], fun u hu => by simp [hu]⟩
  · exact absurd hexec (by simp)

theorem Live.start (h : Mounted ops s) : Live s := by
  obtain ⟨hhandles, se, -, hpc⟩ := h.threads
  obtain ⟨hqueue, d, hd, hidle⟩ := h.queue_fresh
  have hnot : ∀ u se' buf pc, s.pc u = .daemon se' buf pc → pc = .loop := by
    intro u se' buf pc hu
    rcases hpc u with heq | ⟨buf', heq⟩
    · rw [heq] at hu; exact absurd hu (by simp)
    · rw [heq] at hu; exact (Pc.daemon.inj hu).2.2.symm
  exact {
    queue := by rw [hqueue]; exact .fresh ⟨[], none, 0⟩
    held := by rw [hqueue]; exact lockHeld_free rfl
    daemon := ⟨d, hd⟩
    callbacks := by
      rw [Sys.AllCallbacks, hhandles]
      exact fun hd hmem => absurd hmem (by simp)
    running := fun u se' buf b hu => absurd (hnot _ _ _ _ hu) (by simp)
    jammed := fun u se' buf req hu => absurd (hnot _ _ _ _ hu) (by simp)
    reading := fun t n hn => by
      rcases hpc t with heq | ⟨buf', heq⟩ <;> rw [heq] at hn <;>
        exact absurd hn (by simp [Pc.reading])
    within := ⟨{d}, fun u hu => ⟨hidle u (by simpa using hu), by rw [hqueue]; rfl⟩⟩ }

theorem sound_reachable (hs : (mountSystem T S F ops).Reachable s) :
    ∃ owner, Sound ops s owner := by
  induction hs with
  | start hinit => exact Sound.start hinit
  | step _ hstep ih =>
      obtain ⟨owner, h⟩ := ih
      exact h.step hstep.1 hstep.2

omit [DecidableEq T] in
/-- A client that has been woken has the answer to its callback. -/
theorem Sound.woken_answer (h : Sound ops s owner) {t : T} {k : Cont} (hpc : s.pc t = .woken k) :
    ∃ hd ∈ s.handles, ∃ call r, hd.what = .callback call ∧
      (s.record t).input.call = some call ∧ hd.answer = some (r, true) ∧
      (s.record t).answer = ⟨r.error, r.payload, r.size⟩ := by
  obtain ⟨hd, hmem, r, m, hserving, hanswer, heq⟩ := h.accounted.woken_reply hpc
  obtain ⟨rfl, hrecord⟩ := (h.handles hd hmem).reply r m hanswer
  have hknown := (h.accounted.placed.threads t).known (by rw [hpc]; trivial)
  obtain ⟨call, hcall, hfull⟩ := handling_full hknown
  have hwhat : hd.what = .callback call := by
    rw [hserving.what, (h.handles hd hmem).full, hfull]
  exact ⟨hd, hmem, call, r, hwhat, hcall, hanswer, by rw [heq, Reply.answerIn_onRecord hrecord]⟩

omit [DecidableEq T] in
/-- A handle the daemon makes is one of a callback. -/
theorem Sound.made_call (h : Sound ops s owner) {d req : T} {se : S} {buf : Mem} {ok : Bool}
    {r : FuseReq} {what : Handled} (hpc : s.pc d = .daemon se buf (.handover req))
    (hproc : fuseSessionProcessBufInternal (fuseSessionNewVersioned (ops se)) buf
      FUSE_DAEMON_BUF_SIZE ok = .handled r what) : ∃ call, what = .callback call := by
  obtain ⟨hout, -, hwhat⟩ := h.accounted.handed_over hpc hproc
  obtain ⟨call, -, hfull⟩ := handling_full ((h.accounted.placed.threads req).known hout)
  rw [((h.threads d).2 se buf _ hpc).1, hfull] at hwhat
  exact ⟨call, hwhat⟩

omit [DecidableEq T] [Platform] in
theorem Contract.not_mounts (ha : Contract a) : ¬ a.Mounts := by
  cases a <;> first | exact id | exact absurd ha id

theorem Live.queue_step (h : Live s) (hsound : Sound ops s owner) (hstep : s.Step ops a s') :
    QueueInv s'.queue ∧ LockHeld s'.queue := by
  rcases hstep.queue_eq with heq | ⟨t, rfl, hq⟩ | ⟨qa, hnot, hq⟩
  · rw [heq]
    exact ⟨h.queue, h.held⟩
  · -- nobody is inside `fuse_ukfs_queue_init`
    have hinit : (s.queue.pc t).fn ≠ some .init := fun hfn =>
      (hsound.threads t).1 (hsound.accounted.placed.initializer hfn)
    have hquiet : QuietInit s.queue (.tick t) := by
      simp only [QuietInit]
      split <;> first | trivial | exact absurd (by rw [‹s.queue.pc t = _›]; rfl) hinit
    exact ⟨h.queue.tick hquiet hq, h.held.tick h.queue hq⟩
  · have hquiet : QuietInit s.queue qa := by
      cases qa with
      | tick t => exact absurd rfl (hnot t)
      | _ => trivial
    exact ⟨h.queue.step hquiet hq, h.held.step h.queue hq⟩

theorem Live.step (h : Live s) (hsound : Sound ops s owner) (ha : Contract a)
    (hs : s.step ops a = some s') : Live s' := by
  have hstep : s.Step ops a s' := .of_step hs
  have heff := hstep.pcEffect ha.not_mounts
  have hhandles := hstep.handleEffect
  obtain ⟨hqueue, hheld⟩ := h.queue_step hsound hstep
  refine ⟨hqueue, hheld, ?_, ?_, ?_, ?_, ?_, ?_⟩
  · exact h.daemon.imp fun d hd => heff.isDaemon hd
  · rw [Sys.AllCallbacks]
    cases hhandles with
    | keep heq => rw [heq]; exact h.callbacks
    | make d se buf ok req r what hpc hproc heq =>
        rw [heq]
        intro hd hmem
        rcases List.mem_append.mp hmem with hmem | hmem
        · exact h.callbacks hd hmem
        · rw [List.mem_singleton.mp hmem]
          exact hsound.made_call hpc hproc
    | change b hd hd' hh heq hwhat horigin hanswer =>
        rw [heq]
        refine Sys.forall_mem_set h.callbacks ?_
        rw [hwhat]
        exact h.callbacks hd (List.mem_of_getElem? hh)
  · intro d se buf b hd
    rcases heff.daemon_cases hd with hold | ⟨hlt, -⟩
    · exact Nat.lt_of_lt_of_le (h.running d se buf b hold) hhandles.length_le
    · exact hlt b rfl
  · intro d se buf req hd
    rcases heff.daemon_cases hd with hold | ⟨-, hover⟩
    · -- the record waits in the hands of the daemon
      have hhand : s.InPlace (.daemon d) req := by
        simp [Sys.InPlace, Sys.hands, hold, DaemonPc.inHand]
      have hout := hsound.accounted.placed.outstanding_of hhand
      rw [hstep.input_kept req fun hfree => hfree.not_outstanding hout]
      exact h.jammed d se buf req hold
    · obtain ⟨buf', hpopped, hmsg⟩ := hover req rfl
      have hhand : s.InPlace (.daemon d) req := by
        simp [Sys.InPlace, Sys.hands, hpopped, DaemonPc.inHand]
      have hout := hsound.accounted.placed.outstanding_of hhand
      rw [hstep.input_kept req fun hfree => hfree.not_outstanding hout]
      intro hfits
      have hknown := (hsound.accounted.placed.threads req).known hout
      rw [daemonMessage_of_fits buf' hknown hfits] at hmsg
      exact absurd hmsg (by simp)
  · intro t n hn
    rcases step_readsNode hs ha.not_mounts t n hn with hold | hlt
    · exact Nat.lt_of_lt_of_le (h.reading t n hold) hstep.nodes_length_le
    · exact Nat.lt_of_lt_of_le hlt hstep.nodes_length_le
  · obtain ⟨A, hA⟩ := h.within
    exact hstep.within ha.not_mounts hA

theorem live_reachable (hs : (mountSystem T S F ops).Reachable s) : Live s := by
  induction hs with
  | start hinit => exact .start hinit
  | step hreach hstep ih =>
      obtain ⟨owner, hsound⟩ := sound_reachable hreach
      exact ih.step hsound hstep.1 hstep.2

/-! ## Who can go on -/

section Enabled

omit [Platform] in
theorem Sys.submit_enabled {t : T} {n : Nat} {input : RequestIn} {k : Cont}
    (hout : s.queue.pc t = .out) : s.submit t n input k ≠ none := by
  simp [Sys.submit, QueueState.callPush, hout]

/-- A thread that is in the middle of an operation goes on, unless it waits. -/
theorem Live.client_runs (h : Live s) (hsound : Sound ops s owner) {t : T}
    (hnone : s.run ops t true = none) (hdaemon : ¬ (s.pc t).IsDaemon) :
    (s.pc t).Returned ∨ ∃ k, s.pc t = .waiting k := by
  have hfree : (s.pc t).Free → s.queue.pc t = .out := fun hf =>
    hsound.accounted.placed.queue_out hf.fn
  cases hpc : s.pc t with
  | idle => exact .inl trivial
  | undefined_ => exact .inl trivial
  | waiting k => exact .inr ⟨k, rfl⟩
  | daemon se buf pc => exact absurd (by rw [hpc]; trivial) hdaemon
  | vopenInit => exact absurd hpc (hsound.threads t).1
  | woken k => simp [Sys.run, Sys.runClient, hpc] at hnone
  | readTest n iov off =>
      obtain ⟨node, hn⟩ : ∃ node, s.nodes[n]? = some node :=
        ⟨_, List.getElem?_eq_getElem (h.reading t n (by rw [hpc]; rfl))⟩
      simp only [Sys.run, Sys.runClient, hpc, hn, Option.bind_some] at hnone
      split_ifs at hnone
      exact absurd hnone (Sys.submit_enabled (hfree (by rw [hpc]; trivial)))
  | readSubmit n iov off =>
      obtain ⟨node, hn⟩ : ∃ node, s.nodes[n]? = some node :=
        ⟨_, List.getElem?_eq_getElem (h.reading t n (by rw [hpc]; rfl))⟩
      simp only [Sys.run, Sys.runClient, hpc, hn, Option.bind_some] at hnone
      split at hnone
      · exact absurd hnone (by simp)
      · exact absurd hnone (Sys.submit_enabled (hfree (by rw [hpc]; trivial)))

/-- A daemon goes on, unless it waits for a request or has left its buffer. -/
theorem Live.daemon_runs (h : Live s) {d : T} {se : S} {buf : Mem} {pc : DaemonPc T}
    (hpc : s.pc d = .daemon se buf pc) (hnone : s.run ops d true = none) :
    (pc = .loop ∧ s.queue.pc d ≠ .out ∧ ∀ req, s.queue.pc d ≠ .popReturn req) ∨
      ∃ req, pc = .overrun req := by
  simp only [Sys.run, hpc] at hnone
  cases pc with
  | loop =>
      refine .inl ⟨rfl, fun hout => ?_, fun req hat => ?_⟩
      · simp [Sys.runDaemon, hout, QueueState.callPop] at hnone
      · simp [Sys.runDaemon, hat, QueueState.ret] at hnone
  | overrun req => exact .inr ⟨req, rfl⟩
  | popped req =>
      simp only [Sys.runDaemon] at hnone
      split at hnone <;> exact absurd hnone (by simp)
  | failing req acts => cases acts <;> exact absurd hnone (by simp [Sys.runDaemon])
  | handover req =>
      simp only [Sys.runDaemon] at hnone
      split at hnone <;> exact absurd hnone (by simp)
  | device req => exact absurd hnone (by simp [Sys.runDaemon])
  | inCallback b =>
      obtain ⟨hd, hh⟩ : ∃ hd, s.handles[b]? = some hd :=
        ⟨_, List.getElem?_eq_getElem (h.running d se buf b hpc)⟩
      obtain ⟨call, hwhat⟩ := h.callbacks hd (List.mem_of_getElem? hh)
      have hreturns : hd.Returns := by simp [Handle.Returns, hwhat]
      simp [Sys.runDaemon, hh, hreturns] at hnone

/-- The backend can reply to what it has not replied to. -/
theorem Live.replied (h : Live s) (hreply : ∀ b, s.reply ops b (.err 0) true = none)
    (hstep : ∀ b, s.replyStep b = none) (hd : Handle T S) (hmem : hd ∈ s.handles) :
    hd.answer ≠ none ∧ hd.todo = [] := by
  obtain ⟨b, hh⟩ := List.getElem?_of_mem hmem
  obtain ⟨call, hwhat⟩ := h.callbacks hd hmem
  constructor
  · intro hanswer
    have hacc : hd.Accepts (.err 0) := by simp [Handle.Accepts, hanswer, hwhat]
    have hnone := hreply b
    simp [Sys.reply, hh, hacc] at hnone
  · have hnone := hstep b
    cases htodo : hd.todo with
    | nil => rfl
    | cons act rest => simp [Sys.replyStep, hh, htodo] at hnone

/-- The record of a waiting client is nowhere, if nobody can go on and no daemon
has left its buffer. -/
theorem Live.not_waiting (h : Live s) (hsound : Sound ops s owner)
    (hrun : ∀ t, s.run ops t true = none) (hqueue : ∀ t, s.queue.tick t = none)
    (hreplied : ∀ hd ∈ s.handles, hd.answer ≠ none ∧ hd.todo = [])
    (hdaemons : ∀ d se buf pc, s.pc d = .daemon se buf pc → pc = .loop ∧ s.queue.pc d = .popDown)
    (hempty : s.queue.q.head = []) (t : T) (k : Cont) : s.pc t ≠ .waiting k := by
  intro hpc
  have hplaced := hsound.accounted.placed
  have hidle := h.queue.idle_of_stops h.held fun u => stops_of_tick (hqueue u)
  obtain ⟨p, hp⟩ := Option.ne_none_iff_exists'.mp (hsound.covered t (by rw [hpc]; trivial))
  have hin := (hplaced.places p t).mpr hp
  cases p with
  | pushing =>
      rcases hidle t with hq | ⟨req, hq⟩ | ⟨hq, -⟩ <;>
        simp [Sys.InPlace, hq, toInsert] at hin
  | queued => simp [Sys.InPlace, hempty] at hin
  | daemon d =>
      simp only [Sys.InPlace, Sys.hands, List.mem_append] at hin
      rcases hin with hin | hin
      · have hfn : (s.queue.pc d).fn = some .pop := by
          cases hq : s.queue.pc d <;> rw [hq] at hin <;>
            first | rfl | exact absurd hin (by simp [QueuePc.inHand])
        obtain ⟨se, buf, hloop⟩ := hplaced.popper hfn
        rw [(hdaemons d se buf _ hloop).2] at hin
        exact absurd hin (by simp [QueuePc.inHand])
      · cases hd : s.pc d with
        | daemon se buf pc =>
            obtain ⟨rfl, -⟩ := hdaemons d se buf pc hd
            simp [hd, DaemonPc.inHand] at hin
        | _ => simp [hd, Pc.inHand] at hin
  | backend b =>
      obtain ⟨hd, hh, -, hpending⟩ := hin
      obtain ⟨hanswer, htodo⟩ := hreplied hd (List.mem_of_getElem? hh)
      rcases hpending with hnone | hup
      · exact hanswer hnone
      · rw [htodo] at hup
        exact absurd hup (by simp)
  | completed =>
      have hdone : 0 < (s.record t).done := by simpa [Sys.InPlace, hpc] using hin
      have hout : s.queue.pc t = .out := by
        rcases hidle t with hq | ⟨req, hq⟩ | ⟨hq, -⟩
        · exact hq
        · obtain ⟨se, buf, hloop⟩ := hplaced.popper (t := t) (by rw [hq]; rfl)
          rw [hpc] at hloop
          exact absurd hloop (by simp)
        · obtain ⟨se, buf, hloop⟩ := hplaced.popper (t := t) (by rw [hq]; rfl)
          rw [hpc] at hloop
          exact absurd hloop (by simp)
      have hnone := hrun t
      obtain ⟨m, hm⟩ := Nat.exists_eq_succ_of_ne_zero (Nat.pos_iff_ne_zero.mp hdone)
      simp [Sys.run, Sys.runClient, Sys.down, hpc, hout, hm] at hnone

theorem Live.settled (h : Live s) (hsound : Sound ops s owner)
    (hfinal : (settlingSystem T S F ops).Final s) : Settled s := by
  have hnone : ∀ a, Contract a → a.GoesOn → s.step ops a = none := by
    intro a ha hgo
    by_contra hne
    obtain ⟨s', hs⟩ := Option.ne_none_iff_exists'.mp hne
    exact hfinal a s' ⟨hgo, ha, hs⟩
  have hrun : ∀ t, s.run ops t true = none := fun t => hnone (.run t true) rfl trivial
  have hqueue : ∀ t, s.queue.tick t = none := fun t =>
    Option.map_eq_none_iff.mp (hnone (.queue t) trivial trivial)
  have hreplied : ∀ hd ∈ s.handles, hd.answer ≠ none ∧ hd.todo = [] := fun hd hmem =>
    h.replied (fun b => hnone (.reply b (.err 0) true) ⟨rfl, trivial⟩ trivial)
      (fun b => hnone (.replyStep b) trivial trivial) hd hmem
  refine ⟨hreplied, ?_⟩
  by_cases hjam : s.Jammed
  · exact .inr hjam
  have hidle := h.queue.idle_of_stops h.held fun u => stops_of_tick (hqueue u)
  have hwaits : ∀ d se buf pc, s.pc d = .daemon se buf pc →
      pc = .loop ∧ s.queue.pc d = .popDown ∧ s.queue.q.head = [] := by
    intro d se buf pc hpc
    rcases h.daemon_runs hpc (hrun d) with ⟨hloop, hout, hret⟩ | ⟨req, rfl⟩
    · rcases hidle d with hq | ⟨req, hq⟩ | ⟨hq, -, hhead⟩
      · exact absurd hq hout
      · exact absurd hq (hret req)
      · exact ⟨hloop, hq, hhead⟩
    · exact absurd ⟨d, se, buf, req, hpc, h.jammed d se buf req hpc⟩ hjam
  have hempty : s.queue.q.head = [] := by
    obtain ⟨d, hd⟩ := h.daemon
    cases hpc : s.pc d <;> rw [hpc] at hd <;> first | exact hd.elim | skip
    exact (hwaits d _ _ _ hpc).2.2
  refine .inl ⟨hempty, fun t => ?_⟩
  by_cases hdaemon : (s.pc t).IsDaemon
  · cases hpc : s.pc t <;> rw [hpc] at hdaemon <;> first | exact hdaemon.elim | skip
    obtain ⟨rfl, hq, -⟩ := hwaits t _ _ _ hpc
    exact .inr ⟨_, _, hpc, hq⟩
  · rcases h.client_runs hsound (hrun t) hdaemon with hreturned | ⟨k, hwait⟩
    · exact .inl hreturned
    · exact absurd hwait (h.not_waiting hsound hrun hqueue hreplied
        (fun d se buf pc hpc => ⟨(hwaits d se buf pc hpc).1, (hwaits d se buf pc hpc).2.1⟩)
        hempty t k)

end Enabled

/-! ## The work goes down -/

/-- What the measure needs along a run. -/
structure Working (ops : S → FuseLowlevelOps) (A : Finset T) (s : Sys T S F) : Prop where
  reachable : (mountSystem T S F ops).Reachable s
  within : s.Within A

theorem work_descends (ops : S → FuseLowlevelOps) (A : Finset T) :
    (settlingSystem T S F ops).Descends (Working ops A) (Sys.work A) := by
  have hstep : ∀ s a s', Working ops A s → (settlingSystem T S F ops).step s a s' →
      s'.Within A ∧ s'.work A < s.work A := by
    rintro s a s' ⟨hreach, hA⟩ ⟨hgo, ha, hs⟩
    obtain ⟨owner, hsound⟩ := sound_reachable hreach
    have hmoved : ∀ t, Advances t s s' → ¬ (s.pc t = .idle ∧ s.queue.pc t = .out) →
        s'.Within A ∧ s'.work A < s.work A := by
      intro t hadv hbusy
      have ht : t ∈ A := by
        by_contra hnot
        exact hbusy (hA t hnot)
      exact ⟨hadv.within hA ht, hadv.work_lt ht⟩
    have hshared : s'.pc = s.pc ∧ s'.queue = s.queue ∧ s'.sharedWork < s.sharedWork →
        s'.Within A ∧ s'.work A < s.work A := by
      rintro ⟨hpc, hqueue, hless⟩
      refine ⟨fun t ht => ?_, work_lt_of_shared hpc hqueue hless⟩
      rw [hpc, hqueue]
      exact hA t ht
    cases a with
    | mount se => exact hgo.elim
    | call t op ok => exact hgo.elim
    | vopen t ok => exact ha.elim
    | start t d buf ok => exact ha.elim
    | run t ok =>
        refine hmoved t (run_advances hs) fun ⟨hidle, _⟩ => ?_
        simp [Sys.step, Sys.run, Sys.runClient, hidle] at hs
    | queue t =>
        obtain ⟨queue, hq, rfl⟩ := Option.map_eq_some_iff.mp hs
        refine hmoved t (tick_advances hq) fun ⟨_, hout⟩ => ?_
        simp [QueueState.tick, hout] at hq
    | reply b r ok => exact hshared (reply_sharedWork_lt hs)
    | replyStep b =>
        exact hshared (replyStep_sharedWork_lt hs fun hd hmem =>
          (hsound.accounted.placed.handles hd hmem).unanswered)
  exact ⟨fun s a s' h hs => ⟨h.reachable.step hs.2, (hstep s a s' h hs).1⟩,
    fun s a s' h hs => (hstep s a s' h hs).2⟩

/-! ## Orderly runs -/

/-- What is asked fits, and what is replied is read. -/
structure OrderlyInv (s : Sys T S F) : Prop where
  asked : ∀ t k, (s.pc t).cont = some k →
    (s.record t).input.Fits ∧ ∃ ino, AskedOf ino (s.record t).input k
  handle : ∀ hd ∈ s.handles, ∀ call r m, hd.what = .callback call → hd.answer = some (r, m) →
    r.Meant call
  defined : ∀ t, s.pc t ≠ .undefined_

omit [DecidableEq T] [Platform] in
theorem AskedOf.fits {ino : UInt64} {input : RequestIn} {k : Cont} (h : AskedOf ino input k)
    (hname : ∀ n path len, k = .lookup n path len →
      (RequestIn.lookup 1 (.strndup path len)).Fits) : input.Fits := by
  cases h with
  | lookup n path len => exact hname n path len rfl
  | _ => trivial

omit [Platform] in
theorem OrderlyInv.handles_step (h : OrderlyInv s) (ha : Orderly s a)
    (heff : HandleEffect ops s a s') : ∀ hd ∈ s'.handles, ∀ call r m,
      hd.what = .callback call → hd.answer = some (r, m) → r.Meant call := by
  cases heff with
  | keep heq => rw [heq]; exact h.handle
  | make d se buf ok req r what hpc hproc heq =>
      rw [heq]
      intro hd hmem call r' m hwhat hanswer
      rcases List.mem_append.mp hmem with hold | hnew
      · exact h.handle hd hold call r' m hwhat hanswer
      · obtain rfl := List.mem_singleton.mp hnew
        exact absurd hanswer (by simp)
  | change b hd hd' hh heq hwhat horigin hanswer =>
      rw [heq]
      refine Sys.forall_mem_set h.handle fun call r m hcall hnew => ?_
      rw [hwhat] at hcall
      rcases hanswer with hsame | ⟨r', m', rfl, hreplied⟩
      · exact h.handle hd (List.mem_of_getElem? hh) call r m hcall (hsame ▸ hnew)
      · obtain ⟨rfl, rfl⟩ := Prod.mk.inj (Option.some.inj (hnew.symm.trans hreplied))
        exact ha hd call hh hcall

theorem OrderlyInv.step (h : OrderlyInv s) (hsound : Sound ops s owner) (ha : Orderly s a)
    (hs : s.step ops a = some s') : OrderlyInv s' := by
  have hstep : s.Step ops a s' := .of_step hs
  refine ⟨fun u k hk => ?_, h.handles_step ha hstep.handleEffect, fun u hu => ?_⟩
  · rcases hstep.cont_cases hk with hold | ⟨node, -, hasked, hname⟩
    · have hfree : ¬ (s.pc u).Free := fun hfree => by simp [hfree.cont] at hold
      rw [hstep.input_kept u hfree]
      exact h.asked u k hold
    · refine ⟨hasked.fits fun n path len hk => ?_, _, hasked⟩
      obtain ⟨ok, rfl⟩ := hname n path len hk
      exact ha
  · rcases hstep.undefined hu with hold | ⟨k, ok, hpc, hfinish⟩
    · exact h.defined u hold
    · obtain ⟨hd, hmem, call, r, hwhat, hcall, hanswer, heq⟩ := hsound.woken_answer hpc
      obtain ⟨-, ino, hasked⟩ := h.asked u k (by rw [hpc]; rfl)
      have hrecord := ((hsound.handles hd hmem).reply r true hanswer).2
      rw [heq] at hfinish
      refine Sys.finish_defined hasked hcall (r.sound_onRecord hrecord) ?_ hfinish
      exact h.handle hd hmem call r true hwhat hanswer

theorem OrderlyInv.start (h : Mounted ops s) : OrderlyInv s := by
  obtain ⟨hhandles, se, -, hpc⟩ := h.threads
  refine ⟨fun t k hk => ?_, by simp [hhandles], fun t ht => ?_⟩
  · rcases hpc t with hidle | ⟨buf, hloop⟩
    · simp [hidle, Pc.cont] at hk
    · simp [hloop, Pc.cont] at hk
  · rcases hpc t with hidle | ⟨buf, hloop⟩
    · simp [hidle] at ht
    · simp [hloop] at ht

theorem orderlyInv_reachable (hs : ((mountSystem T S F ops).restrict Orderly).Reachable s) :
    OrderlyInv s := by
  induction hs with
  | start hinit => exact .start hinit
  | step hreach hstep ih =>
      obtain ⟨owner, hsound⟩ := sound_reachable hreach.of_restrict
      exact ih.step hsound hstep.1 hstep.2.2

theorem undisturbed_reachable (hs : ((mountSystem T S F ops).restrict Orderly).Reachable s) :
    Undisturbed s := by
  have horder := orderlyInv_reachable hs
  obtain ⟨owner, hsound⟩ := sound_reachable hs.of_restrict
  refine ⟨fun hjam => ?_, horder.defined⟩
  obtain ⟨d, se, buf, req, hpc, hlong⟩ := hjam
  -- the record is in the daemon's hands, so that its client waits
  have hhand : s.InPlace (.daemon d) req := by
    simp [Sys.InPlace, Sys.hands, hpc, DaemonPc.inHand]
  obtain ⟨k, hk⟩ := (hsound.accounted.placed.outstanding_of hhand).cont
  exact hlong (horder.asked req k hk).1

end Runs

/-- From every reachable state of every interleaving: without new operations
the runs end, and they end with every request answered. -/
theorem settles_reachable {T S F : Type} [DecidableEq T] [Platform] {ops : S → FuseLowlevelOps}
    {s : Sys T S F} (hs : (mountSystem T S F ops).Reachable s) : Settles ops s := by
  obtain ⟨A, hA⟩ := (live_reachable hs).within
  have hdesc := work_descends (F := F) ops A
  have hworking : Working ops A s := ⟨hs, hA⟩
  have hsettled : ∀ as s', (settlingSystem T S F ops).Run s as s' →
      (settlingSystem T S F ops).Final s' → Settled s' := by
    intro as s' hrun hfinal
    have hreach := (hdesc.holds hworking hrun).reachable
    obtain ⟨owner, hsound⟩ := sound_reachable hreach
    exact (live_reachable hreach).settled hsound hfinal
  refine ⟨⟨s.work A, fun as s' hrun => ?_⟩, hsettled, ?_⟩
  · have hle := hdesc.length_le hworking hrun
    omega
  · obtain ⟨as, s', hrun, hfinal⟩ := hdesc.exists_final hworking
    exact ⟨as, s', hrun, hsettled as s' hrun hfinal⟩

/-- The operations of a mount come to an end, and in orderly runs every client
returns. -/
theorem requests_settle (T S F : Type) [DecidableEq T] [Platform] (ops : S → FuseLowlevelOps) :
    (mountSystem T S F ops).Invariant (Settles ops) ∧
      ((mountSystem T S F ops).restrict Orderly).Invariant Undisturbed :=
  ⟨fun _ hs => settles_reachable hs, fun _ hs => undisturbed_reachable hs⟩

end UkfsFuse
