import UkfsFuse.Logic.Places

/-!
# The life of a request record, step by step

Every step leaves the records where they are, or takes one of them one place
further, or loses it: one rule for each kind of step.
-/

namespace UkfsFuse

open UkfsFuse.Core QueuePc

/-! ## What reply functions leave to do -/

theorem Tidy.tail {act : ReplyAct} {rest : List ReplyAct} (h : Tidy (act :: rest)) : Tidy rest := by
  cases act with
  | up =>
      obtain rfl : rest = [.freeReq] := h
      exact ⟨.inr (.inr rfl), trivial⟩
  | _ => exact h.2

/-- An effect before `done` is raised, or one that changes nothing. -/
theorem Tidy.quiet {act : ReplyAct} {rest : List ReplyAct} (h : Tidy (act :: rest))
    (hact : act ≠ .up) (hrest : .up ∉ rest) (req : FuseUkfsRequest) : act.apply req = req := by
  have hhead : .up ∈ rest ∨ act = .deviceWrite ∨ act = .freeReq := by
    cases act with
    | up => exact absurd rfl hact
    | _ => exact h.1
  rcases hhead with hup | rfl | rfl
  · exact absurd hup hrest
  · rfl
  · rfl

section ReplyFunctions

variable [Platform] (se : FuseSession) (mallocOk : Bool)

omit [Platform] in
theorem fuseReplyErr_tidy (e : Int32) : Tidy (fuseReplyErr e) := by
  simp [fuseReplyErr, Tidy]

omit [Platform] in
theorem replyObject_tidy (n : Nat) (data : ReplyData) : Tidy (replyObject n data mallocOk) := by
  cases mallocOk <;> simp [replyObject, Tidy]

theorem Reply.acts_tidy (r : Reply) : Tidy (r.acts se mallocOk) := by
  cases r with
  | err e => exact fuseReplyErr_tidy e
  | entry e =>
      simp only [Reply.acts, fuseReplyEntry]
      split_ifs
      · exact fuseReplyErr_tidy _
      · exact replyObject_tidy ..
  | attr st => exact replyObject_tidy ..
  | open_ f => cases mallocOk <;> simp [Reply.acts, fuseReplyOpen, Tidy]
  | buf bs =>
      simp only [Reply.acts, fuseReplyBuf]
      split_ifs <;> simp [Tidy]
  | iov segs => cases mallocOk <;> simp [Reply.acts, fuseReplyIov, fuseReplyErr, Tidy]
  | data v =>
      rw [Reply.acts]
      rcases fuseReplyData_cases v mallocOk with ⟨-, heq⟩ | ⟨-, -, heq⟩ | ⟨-, -, -, heq⟩ |
        ⟨-, -, -, -, heq⟩ | ⟨-, -, -, -, heq⟩ <;> rw [heq]
      · simp [Tidy]
      · exact fuseReplyErr_tidy _
      · simp [Tidy]
      · exact fuseReplyErr_tidy _
      · simp [Tidy]

end ReplyFunctions

/-- The daemon knows the opcode of every request the driver issues. -/
theorem daemonMessage_known {buf : Mem} {req : FuseUkfsRequest} (h : req.input.Known) :
    daemonMessage buf req ≠ .unknownOpcode := by
  by_cases hfits : req.input.Fits
  · rw [daemonMessage_of_fits buf h hfits]
    simp
  · rw [daemonMessage_overrun buf hfits]
    simp

/-! ## The steps -/

section Steps

variable {T S F : Type} [DecidableEq T] {s s' : Sys T S F} {t d : T}
  {owner : T → Option (Place T)}

theorem onlyMoved_setPc (v : Pc T S) : OnlyMoved t s (s.setPc t v) where
  queue _ _ := rfl
  pc u hu := by simp [Sys.setPc, hu]
  record _ _ := rfl
  raised _ _ := rfl

omit [DecidableEq T] in
/-- Node table, session and counters are of no concern. -/
theorem Placed.of_eq (h : Placed s owner) (hqueue : s'.queue = s.queue) (hpc : s'.pc = s.pc)
    (hrecord : s'.record = s.record) (hraised : s'.raised = s.raised)
    (hhandles : s'.handles = s.handles) : Placed s' owner where
  places := h.places.same fun p u => by
    cases p <;> simp [Sys.InPlace, Sys.hands, hqueue, hpc, hrecord, hhandles]
  nodup := by rw [hqueue]; exact h.nodup
  threads u := by rw [hqueue, hpc, hrecord, hraised]; exact h.threads u
  handles := by rw [hhandles]; exact h.handles

/-- A thread that waits for nothing and is in no queue function goes from one
point to another. -/
theorem Placed.setPc (h : Placed s owner) {v : Pc T S} (hout : s.queue.pc t = .out)
    (hpc : ¬ (s.pc t).Outstanding) (hv : ¬ v.Outstanding) (hhand : v.inHand = (s.pc t).inHand)
    (hfail : ¬ v.Failing) : Placed (s.setPc t v) owner := by
  have hnone := h.owner_none hpc
  refine h.stay (onlyMoved_setPc v) rfl rfl ?_ (fun _ _ => .rfl) ?_ ?_ h.handles
  · simp [Sys.hands, Sys.setPc, hhand]
  · refine iff_of_false ?_ fun hc => hpc hc.outstanding
    simp only [Sys.setPc, Function.update_self]
    exact fun hc => hv hc.outstanding
  · simp only [Sys.setPc, Function.update_self]
    rw [hnone]
    exact .idle (.inl (by rw [hout]; rfl)) hv hfail

/-- A client between two requests goes on. -/
theorem Placed.goto (h : Placed s owner) {v : Pc T S} (hpc : (s.pc t).Free) (hv : v.Free) :
    Placed (s.setPc t v) owner :=
  h.setPc (h.queue_out hpc.fn) hpc.not_outstanding hv.not_outstanding
    (hv.inHand.trans hpc.inHand.symm) hv.not_failing

/-- A daemon goes on with the record it has in its hands. -/
theorem Placed.setDaemon (h : Placed s owner) {se se' : S} {buf buf' : Mem} {pc pc' : DaemonPc T}
    (hpc : s.pc d = .daemon se buf pc) (hloop : (s.pc d).fn d = none)
    (hhand : pc'.inHand = pc.inHand) (hfail : ¬ (Pc.daemon se' buf' pc' : Pc T S).Failing) :
    Placed (s.setPc d (.daemon se' buf' pc')) owner := by
  refine h.setPc (h.queue_out hloop) ?_ id ?_ hfail
  · rw [hpc]; exact id
  · rw [hpc]; exact hhand

/-- The call of `fuse_ukfs_queue_init`. -/
theorem Placed.vopen (h : Placed s owner) {queue : QueueState T T} (hpc : s.pc t = .idle)
    (hq : s.queue.callInit t = some queue) :
    Placed { s.setPc t .vopenInit with queue := queue } owner := by
  obtain ⟨hout, rfl⟩ := QueueState.callInit_eq hq
  have hfree : (s.pc t).Free := by rw [hpc]; trivial
  have hnone := h.owner_none hfree.not_outstanding
  refine h.stay (t := t) ⟨?_, ?_, fun _ _ => rfl, fun _ _ => rfl⟩ rfl ?_ ?_ (fun _ _ => .rfl) ?_ ?_
    h.handles
  · intro u hu; simp [QueueState.move, hu]
  · intro u hu; simp [Sys.setPc, hu]
  · simp [QueueState.move, hout, toInsert]
  · simp [Sys.hands, Sys.setPc, QueueState.move, hpc, hout, QueuePc.inHand]
  · simp [Sys.setPc, hpc]
  · simp only [Sys.setPc, QueueState.move, Function.update_self]
    rw [hnone]
    exact .idle (.inr rfl) id id

/-- The call of `fuse_ukfs_queue_pop`. -/
theorem Placed.callPop (h : Placed s owner) {se : S} {buf : Mem} {queue : QueueState T T}
    (hpc : s.pc d = .daemon se buf .loop) (hq : s.queue.callPop d = some queue) :
    Placed { s with queue := queue } owner := by
  obtain ⟨hout, rfl⟩ := QueueState.callPop_eq hq
  refine h.stay (t := d) ⟨?_, fun _ _ => rfl, fun _ _ => rfl, fun _ _ => rfl⟩ rfl ?_ ?_
    (fun _ _ => .rfl) .rfl ?_ h.handles
  · intro u hu; simp [QueueState.move, hu]
  · simp [QueueState.move, hout, toInsert]
  · simp [Sys.hands, QueueState.move, hout, QueuePc.inHand]
  · simp only [QueueState.move, Function.update_self]
    exact { h.threads d with sync := .inr (by rw [hpc]; rfl) }

/-- Its return. -/
theorem Placed.ret (h : Placed s owner) {se : S} {buf : Mem} {req : T} {queue : QueueState T T}
    (hpc : s.pc d = .daemon se buf .loop) (hat : s.queue.pc d = .popReturn req)
    (hq : s.queue.ret d = some queue) :
    Placed { s.setPc d (.daemon se buf (.popped req)) with queue := queue } owner := by
  obtain ⟨req', hat', rfl⟩ := QueueState.ret_eq hq
  obtain rfl : req' = req := by rw [hat] at hat'; exact (QueuePc.popReturn.inj hat').symm
  have hnone : owner d = none := h.owner_none (by rw [hpc]; exact id)
  refine h.stay (t := d) ⟨?_, ?_, fun _ _ => rfl, fun _ _ => rfl⟩ rfl ?_ ?_
    (fun _ _ => .rfl) ?_ ?_ h.handles
  · intro u hu; simp [QueueState.move, hu]
  · intro u hu; simp [Sys.setPc, hu]
  · simp [QueueState.move, hat, toInsert]
  · simp [Sys.hands, Sys.setPc, QueueState.move, hpc, hat, QueuePc.inHand,
      DaemonPc.inHand]
  · simp [Sys.setPc, hpc]
  · simp only [Sys.setPc, QueueState.move, Function.update_self]
    rw [hnone]
    exact .idle (.inl rfl) id id

omit [DecidableEq T] in
/-- A record in a daemon's hands is a known request. -/
theorem Placed.known_inHand (h : Placed s owner) {req : T} (hreq : req ∈ s.hands d) :
    (s.record req).input.Known :=
  (h.threads req).known (h.outstanding_of (p := .daemon d) hreq)

/-- `uk_semaphore_down(&req.done)`: the record is completed before and after. -/
theorem Placed.down (h : Placed s owner) {k : Cont} {m : Nat} (hpc : s.pc t = .waiting k)
    (hq : s.queue.pc t = .out) (hdone : (s.record t).done = m + 1) :
    Placed { s.setPc t (.woken k) with
      record := Function.update s.record t { s.record t with done := m } } owner := by
  have hcomp : s.InPlace .completed t := by
    show (s.pc t).Completed (s.record t).done
    rw [hpc, hdone]
    exact Nat.succ_pos m
  have hown := (h.places _ _).mp hcomp
  have ht := h.threads t
  refine h.stay (t := t) ⟨fun _ _ => rfl, ?_, ?_, fun _ _ => rfl⟩ rfl rfl ?_ (fun _ _ => .rfl)
    ?_ ?_ h.handles
  · intro u hu; simp [Sys.setPc, hu]
  · intro u hu; simp [hu]
  · simp [Sys.hands, Sys.setPc, hpc]
  · exact iff_of_true (by simp [Sys.setPc]) hcomp
  · simp only [Sys.setPc, Function.update_self]
    exact {
      sync := .inl (by rw [hq]; rfl)
      outstanding := fun _ => trivial
      once := ht.once
      never := fun _ ho => absurd hown ho
      semaphore := fun k hk => by simp at hk
      known := fun _ => ht.known (by rw [hpc]; trivial)
      notFailing := id }

/-! ### A record begins and ends its life -/

/-- A request is initialised, and is about to be pushed. -/
theorem Placed.submit (h : Placed s owner) {n : Nat} {input : RequestIn} {k : Cont}
    (hpc : (s.pc t).Free) (hknown : input.Known) (hs : s.submit t n input k = some s') :
    Placed s' (Function.update owner t (some .pushing)) := by
  obtain ⟨queue, hq, rfl⟩ := Option.map_eq_some_iff.mp hs
  obtain ⟨hout, rfl⟩ := QueueState.callPush_eq hq
  have hnone := h.owner_none hpc.not_outstanding
  refine h.next (t := t) ⟨?_, ?_, ?_, ?_⟩ (h.places.gain hnone ?_) h.nodup ?_ ?_ ?_ h.handles
  · intro u hu; simp [QueueState.move, hu]
  · intro u hu; simp [hu]
  · intro u hu; simp [hu]
  · intro u hu; simp [hu]
  · intro p u
    by_cases hu : u = t
    · subst hu
      -- the record was in no place before
      have hold : ∀ p, ¬ s.InPlace p u := fun p hp => by
        rw [(h.places p u).mp hp] at hnone; exact absurd hnone (by simp)
      have hold' := hold p
      cases p with
      | pushing => simp [Sys.InPlace, QueueState.move, toInsert]
      | queued => simp [Sys.InPlace, QueueState.move]
      | daemon d =>
          refine iff_of_false ?_ (by simpa using hold')
          by_cases hd : d = u
          · subst hd
            simp [Sys.InPlace, Sys.hands, QueueState.move, QueuePc.inHand]
          · simpa [Sys.InPlace, Sys.hands, QueueState.move, hd] using hold'
      | backend b => simp [Sys.InPlace]
      | completed => simpa [Sys.InPlace, FuseUkfsRequest.init] using hold'
    · cases p with
      | daemon d =>
          by_cases hd : d = t
          · subst hd
            simp [Sys.InPlace, Sys.hands, QueueState.move, QueuePc.inHand, hout,
              hpc.inHand]
          · simp [Sys.InPlace, Sys.hands, QueueState.move, hd]
      | _ => simp [Sys.InPlace, QueueState.move, hu]
  · simp only [QueueState.move, Function.update_self]
    exact {
      sync := .inr rfl
      outstanding := fun _ => trivial
      once := fun ho => absurd ho (by simp)
      never := fun _ _ => rfl
      semaphore := fun _ _ => rfl
      known := fun _ => hknown
      notFailing := id }
  · intro u hu; simp [hu]
  · intro u hu; simp [hu]

/-- The answer is read and the operation goes on. -/
theorem Placed.finish (h : Placed s owner) {k : Cont} {v : Pc T S} (hpc : s.pc t = .woken k)
    (hv : v.Free) : Placed (s.setPc t v) (Function.update owner t none) := by
  have hcomp : s.InPlace .completed t := by
    show (s.pc t).Completed (s.record t).done
    rw [hpc]
    trivial
  have hown := (h.places _ _).mp hcomp
  have hout := h.queue_out (t := t) (by rw [hpc]; rfl)
  refine h.next (onlyMoved_setPc v) (h.places.drop hown ?_) h.nodup ?_ ?_ ?_ h.handles
  · intro p u
    cases p with
    | daemon d =>
        by_cases hd : d = t
        · subst hd
          simp [Sys.InPlace, Sys.hands, Sys.setPc, hpc, hv.inHand]
        · simp [Sys.InPlace, Sys.hands, Sys.setPc, hd]
    | completed =>
        by_cases hu : u = t
        · subst hu
          have hnot : ¬ v.Completed (s.record u).done := fun hc =>
            hv.not_outstanding hc.outstanding
          simp [Sys.InPlace, Sys.setPc, hnot]
        · simp [Sys.InPlace, Sys.setPc, hu]
    | _ => simp [Sys.InPlace, Sys.setPc]
  · simp only [Sys.setPc, Function.update_self]
    exact .idle (.inl (by rw [hout]; rfl)) hv.not_outstanding hv.not_failing
  · intro u hu; simp [hu]
  · intro u hu; simp [hu]

/-! ### Through the queue -/

/-- `UK_TAILQ_INSERT_TAIL` -/
theorem Placed.insert (h : Placed s owner) {req : T} {queue : QueueState T T}
    (hat : s.queue.pc t = .pushInsert req)
    (hpc : queue.pc = Function.update s.queue.pc t (.pushUnlock req))
    (hhead : queue.q.head = s.queue.q.head ++ [req]) :
    Placed { s with queue := queue } (Function.update owner t (some .queued)) := by
  obtain ⟨rfl, k, hwait⟩ := h.pusher (by rw [hat]; rfl)
  have hpush : s.InPlace .pushing req := by simp [Sys.InPlace, hat, toInsert]
  have hown := (h.places _ _).mp hpush
  have hnotin : req ∉ s.queue.q.head := by
    intro hin
    have hqueued : s.InPlace .queued req := hin
    exact absurd (h.places.exclusive hpush hqueued) (by simp)
  have ht := h.threads req
  refine h.next (t := req) ⟨?_, fun _ _ => rfl, fun _ _ => rfl, fun _ _ => rfl⟩
    (h.places.move hown ?_) ?_ ?_ ?_ ?_ h.handles
  · intro u hu; simp [hpc, hu]
  · intro p u
    cases p with
    | pushing =>
        by_cases hu : u = req
        · subst hu; simp [Sys.InPlace, hpc, toInsert]
        · simp [Sys.InPlace, hpc, hu]
    | queued =>
        show u ∈ queue.q.head ↔ _
        simp [Sys.InPlace, hhead, or_comm]
    | daemon d =>
        by_cases hd : d = req
        · subst hd; simp [Sys.InPlace, Sys.hands, hpc, hat, QueuePc.inHand]
        · simp [Sys.InPlace, Sys.hands, hpc, hd]
    | _ => simp [Sys.InPlace]
  · show queue.q.head.Nodup
    rw [hhead]
    exact List.nodup_append.mpr ⟨h.nodup, List.nodup_singleton req, by
      rintro a ha b hb rfl
      exact hnotin (List.mem_singleton.mp hb ▸ ha)⟩
  · simp only [hpc, Function.update_self]
    exact {
      sync := .inr (by rw [hwait]; rfl)
      outstanding := fun _ => by rw [hwait]; trivial
      once := fun ho => absurd ho (by simp)
      never := fun hp _ => ht.never hp (by rw [hown]; simp)
      semaphore := ht.semaphore
      known := ht.known
      notFailing := ht.notFailing }
  · intro u hu; simp [hu]
  · intro u hu; simp [hu]

/-- A record whose place says nothing else about `done` than before. -/
theorem hand_over {req : T} {p : Place T} (p' : Place T)
    (hown : owner req = some p) (hp : p ≠ .completed) (hp' : p' ≠ .completed) (u : T) :
    (Function.update owner req (some p') u ≠ none → owner u ≠ none) ∧
      (Function.update owner req (some p') u = some .completed ↔ owner u = some .completed) := by
  by_cases hu : u = req
  · subst hu
    simp [hown, hp, hp']
  · simp [hu]

/-- `UK_TAILQ_FIRST` and `UK_TAILQ_REMOVE` -/
theorem Placed.remove (h : Placed s owner) {req : T} {rest : List T} {queue : QueueState T T}
    (hat : s.queue.pc d = .popRemove) (hreq : s.queue.q.head = req :: rest)
    (hpc : queue.pc = Function.update s.queue.pc d (.popUnlock req))
    (hhead : queue.q.head = rest) :
    Placed { s with queue := queue } (Function.update owner req (some (.daemon d))) := by
  obtain ⟨se, buf, hloop⟩ := h.popper (t := d) (by rw [hat]; rfl)
  have hqueued : s.InPlace .queued req := by simp [Sys.InPlace, hreq]
  have hown := (h.places _ _).mp hqueued
  have hnodup := h.nodup
  rw [hreq] at hnodup
  have hnotin : req ∉ rest := (List.nodup_cons.mp hnodup).1
  have hover := hand_over (.daemon d) hown (by simp) (by simp)
  have hd := h.threads d
  refine h.next (t := d) ⟨?_, fun _ _ => rfl, fun _ _ => rfl, fun _ _ => rfl⟩
    (h.places.move hown ?_) ?_ ?_ (fun u _ => (hover u).1) (fun u _ => (hover u).2) h.handles
  · intro u hu; simp [hpc, hu]
  · intro p u
    cases p with
    | pushing =>
        by_cases hu : u = d
        · subst hu; simp [Sys.InPlace, hpc, hat, toInsert]
        · simp [Sys.InPlace, hpc, hu]
    | queued =>
        show u ∈ queue.q.head ↔ _
        by_cases hu : u = req
        · subst hu; simp [Sys.InPlace, hhead, hnotin]
        · simp [Sys.InPlace, hhead, hreq, hu]
    | daemon d' =>
        by_cases hd' : d' = d
        · subst hd'
          simp [Sys.InPlace, Sys.hands, hpc, hat, hloop, QueuePc.inHand,
            DaemonPc.inHand]
        · simp [Sys.InPlace, Sys.hands, hpc, hd']
    | _ => simp [Sys.InPlace]
  · show queue.q.head.Nodup
    rw [hhead]
    exact (List.nodup_cons.mp hnodup).2
  · simp only [hpc, Function.update_self]
    exact { hd.reown (hover d).1 (hover d).2 with sync := .inr (by rw [hloop]; rfl) }

/-- `UK_TAILQ_INIT`: whatever was queued is lost. -/
theorem Placed.reset (h : Placed s owner) {queue : QueueState T T}
    (hat : s.queue.pc t = .initHead) (hpc : queue.pc = Function.update s.queue.pc t .initLock)
    (hhead : queue.q.head = []) :
    Placed { s with queue := queue }
      (fun u => if owner u = some .queued then none else owner u) := by
  have ht := h.threads t
  have hsome : ∀ u, (if owner u = some .queued then none else owner u) ≠ none →
      owner u ≠ none := by
    intro u
    split_ifs <;> simp
  have hcomp : ∀ u, (if owner u = some .queued then none else owner u) = some .completed ↔
      owner u = some .completed := by
    intro u
    split_ifs with hu <;> simp [hu]
  refine h.next (t := t) ⟨?_, fun _ _ => rfl, fun _ _ => rfl, fun _ _ => rfl⟩
    (h.places.vacate .queued ?_) ?_ ?_ (fun u _ => hsome u) (fun u _ => hcomp u) h.handles
  · intro u hu; simp [hpc, hu]
  · intro p u
    cases p with
    | pushing =>
        by_cases hu : u = t
        · subst hu; simp [Sys.InPlace, hpc, hat, toInsert]
        · simp [Sys.InPlace, hpc, hu]
    | queued => simp [Sys.InPlace, hhead]
    | daemon d =>
        by_cases hd : d = t
        · subst hd; simp [Sys.InPlace, Sys.hands, hpc, hat, QueuePc.inHand]
        · simp [Sys.InPlace, Sys.hands, hpc, hd]
    | _ => simp [Sys.InPlace]
  · show queue.q.head.Nodup
    rw [hhead]
    exact List.nodup_nil
  · simp only [hpc, Function.update_self]
    refine { ht.reown (hsome t) (hcomp t) with sync := .inr ?_ }
    rcases ht.sync with hnone | hfn
    · rw [hat] at hnone; exact absurd hnone (by simp [QueuePc.fn])
    · rw [← hfn, hat]; rfl

/-- Any other statement inside the queue functions. -/
theorem Placed.tickMove (h : Placed s owner) {queue : QueueState T T} {v : QueuePc T}
    (hpc : queue.pc = Function.update s.queue.pc t v) (hhead : queue.q.head = s.queue.q.head)
    (hins : toInsert v = toInsert (s.queue.pc t)) (hhand : QueuePc.inHand v = (s.queue.pc t).inHand)
    (hfn : v.fn = none ∨ v.fn = (s.queue.pc t).fn) : Placed { s with queue := queue } owner := by
  refine h.stay (t := t) ⟨?_, fun _ _ => rfl, fun _ _ => rfl, fun _ _ => rfl⟩ hhead ?_
    ?_ (fun _ _ => .rfl) .rfl ?_ h.handles
  · intro u hu; simp [hpc, hu]
  · simp [hpc, hins]
  · simp [Sys.hands, hpc, hhand]
  · simp only [hpc, Function.update_self]
    refine { h.threads t with sync := ?_ }
    rcases hfn with hnone | hsame
    · exact .inl hnone
    · rw [hsame]; exact (h.threads t).sync

/-! ### Through daemon and backend -/

/-- A record nobody looks at is lost. -/
theorem drop_place {req : T} {p : Place T} (hown : owner req = some p) (hp : p ≠ .completed)
    (u : T) :
    (Function.update owner req none u ≠ none → owner u ≠ none) ∧
      (Function.update owner req none u = some .completed ↔ owner u = some .completed) := by
  by_cases hu : u = req
  · subst hu
    simp [hown, hp]
  · simp [hu]

/-- `fuse_session_process_buf_internal` has made a handle of the record. -/
theorem Placed.handle (h : Placed s owner) {se : S} {buf buf' : Mem} {req : T} {r : FuseReq}
    {what : Handled} {o : Origin} (hpc : s.pc d = .daemon se buf (.handover req)) :
    Placed { s.setPc d (.daemon se buf' (.inCallback s.handles.length)) with
        handles := s.handles ++ [⟨req, se, r, what, none, [], o⟩] }
      (Function.update owner req (some (.backend s.handles.length))) := by
  have hheld : s.InPlace (.daemon d) req := by
    simp [Sys.InPlace, Sys.hands, hpc, DaemonPc.inHand]
  have hown := (h.places _ _).mp hheld
  have hout := h.queue_out (t := d) (by rw [hpc]; rfl)
  have hover := hand_over (.backend s.handles.length) hown (by simp) (by simp)
  have hd := h.threads d
  refine h.next (t := d) ⟨fun _ _ => rfl, ?_, fun _ _ => rfl, fun _ _ => rfl⟩
    (h.places.move hown ?_) h.nodup ?_ (fun u _ => (hover u).1) (fun u _ => (hover u).2) ?_
  · intro u hu; simp [Sys.setPc, hu]
  · intro p u
    cases p with
    | daemon d' =>
        by_cases hd' : d' = d
        · subst hd'
          simp [Sys.InPlace, Sys.hands, Sys.setPc, hpc, hout, QueuePc.inHand, DaemonPc.inHand]
        · simp [Sys.InPlace, Sys.hands, Sys.setPc, hd']
    | backend b =>
        rcases Nat.lt_trichotomy b s.handles.length with hlt | rfl | hgt
        · simp [Sys.InPlace, List.getElem?_append_left hlt, hlt.ne]
        · simp [Sys.InPlace, Handle.Pending, eq_comm]
        · have hout : (s.handles ++ [⟨req, se, r, what, none, [], o⟩])[b]? = none := by
            simp only [List.getElem?_eq_none_iff, List.length_append, List.length_singleton]
            omega
          have hout' : s.handles[b]? = none := by
            simp only [List.getElem?_eq_none_iff]
            omega
          simp [Sys.InPlace, hout, hout', hgt.ne']
    | completed =>
        by_cases hu : u = d
        · subst hu; simp [Sys.InPlace, Sys.setPc, hpc]
        · simp [Sys.InPlace, Sys.setPc, hu]
    | _ => simp [Sys.InPlace, Sys.setPc]
  · simp only [Sys.setPc, Function.update_self]
    have hnone : owner d = none := h.owner_none (by rw [hpc]; exact id)
    have hnone' : Function.update owner req (some (.backend s.handles.length)) d = none := by
      by_contra hne
      exact (hover d).1 hne hnone
    rw [hnone']
    exact .idle (.inl (by rw [hout]; rfl)) id id
  · intro hd hmem
    rcases List.mem_append.mp hmem with hmem | hmem
    · exact h.handles hd hmem
    · obtain rfl := List.mem_singleton.mp hmem
      exact ⟨fun _ => rfl, trivial⟩

/-- Without a handle the record is lost when the device has been told. -/
theorem Placed.device (h : Placed s owner) {se : S} {buf : Mem} {req : T}
    (hpc : s.pc d = .daemon se buf (.device req)) :
    Placed (s.setPc d (.daemon se buf .loop)) (Function.update owner req none) := by
  have hheld : s.InPlace (.daemon d) req := by
    simp [Sys.InPlace, Sys.hands, hpc, DaemonPc.inHand]
  have hown := (h.places _ _).mp hheld
  have hout := h.queue_out (t := d) (by rw [hpc]; rfl)
  have hlost := drop_place hown (by simp)
  refine h.next (onlyMoved_setPc _) (h.places.drop hown ?_) h.nodup ?_ (fun u _ => (hlost u).1)
    (fun u _ => (hlost u).2) h.handles
  · intro p u
    cases p with
    | daemon d' =>
        by_cases hd' : d' = d
        · subst hd'
          simp [Sys.InPlace, Sys.hands, Sys.setPc, hpc, hout, QueuePc.inHand, DaemonPc.inHand]
        · simp [Sys.InPlace, Sys.hands, Sys.setPc, hd']
    | completed =>
        by_cases hu : u = d
        · subst hu; simp [Sys.InPlace, Sys.setPc, hpc]
        · simp [Sys.InPlace, Sys.setPc, hu]
    | _ => simp [Sys.InPlace, Sys.setPc]
  · simp only [Sys.setPc, Function.update_self]
    have hnone : owner d = none := h.owner_none (by rw [hpc]; exact id)
    have hnone' : Function.update owner req none d = none := by
      by_contra hne
      exact (hlost d).1 hne hnone
    rw [hnone']
    exact .idle (.inl (by rw [hout]; rfl)) id id

omit [DecidableEq T] in
/-- Handle `h` is all that has changed at the backend. -/
theorem inPlace_set {h b : Nat} {hd hd' : Handle T S} {u : T} (hh : s.handles[h]? = some hd)
    (hs : s'.handles = s.handles.set h hd') :
    s'.InPlace (.backend b) u ↔
      if b = h then hd'.ukfsReq = u ∧ hd'.Pending else s.InPlace (.backend b) u := by
  have hlt : h < s.handles.length := (List.getElem?_eq_some_iff.mp hh).1
  split_ifs with hb
  · subst hb
    simp [Sys.InPlace, hs, hlt]
  · simp [Sys.InPlace, hs, Ne.symm hb]

section Reply

variable [Platform] {b : Nat} {hd : Handle T S} {r : Reply} {mallocOk : Bool} {se : FuseSession}

omit [DecidableEq T] in
/-- The handles after a reply call. -/
theorem reply_ok (h : Placed s owner) :
    ∀ x ∈ s.handles.set b { hd with answer := some (r, mallocOk), todo := r.acts se mallocOk },
      x.Ok :=
  Sys.forall_mem_set h.handles ⟨fun hne => absurd hne (by simp), r.acts_tidy se mallocOk⟩

omit [DecidableEq T] in
/-- A reply call: the record stays with the backend until `done` is raised. -/
theorem Placed.reply_up (h : Placed s owner) (hh : s.handles[b]? = some hd) (hacc : hd.Accepts r)
    (hup : .up ∈ r.acts se mallocOk) :
    Placed { s with handles := s.handles.set b { hd with
      answer := some (r, mallocOk), todo := r.acts se mallocOk } } owner := by
  refine h.stay (t := hd.ukfsReq) ⟨fun _ _ => rfl, fun _ _ => rfl, fun _ _ => rfl,
    fun _ _ => rfl⟩ rfl rfl rfl ?_ .rfl (h.threads _) (reply_ok h)
  intro p u
  rw [inPlace_set hh rfl]
  split_ifs with hp
  · subst hp
    simp [Sys.InPlace, hh, Handle.Pending, hup, hacc.1]
  · rfl

/-- A reply function that is not going to raise `done` loses the record. -/
theorem Placed.reply_lost (h : Placed s owner) (hh : s.handles[b]? = some hd)
    (hacc : hd.Accepts r) (hup : .up ∉ r.acts se mallocOk) :
    Placed { s with handles := s.handles.set b { hd with
      answer := some (r, mallocOk), todo := r.acts se mallocOk } }
      (Function.update owner hd.ukfsReq none) := by
  have hheld : s.InPlace (.backend b) hd.ukfsReq := ⟨hd, hh, rfl, .inl hacc.1⟩
  have hown := (h.places _ _).mp hheld
  have hlost := drop_place hown (by simp)
  refine h.next (t := hd.ukfsReq) ⟨fun _ _ => rfl, fun _ _ => rfl, fun _ _ => rfl,
    fun _ _ => rfl⟩ (h.places.drop hown ?_) h.nodup ?_ (fun u _ => (hlost u).1)
    (fun u _ => (hlost u).2) (reply_ok h)
  · intro p u
    cases p with
    | backend p =>
        rw [inPlace_set hh rfl]
        split_ifs with hp
        · subst hp
          simp only [Handle.Pending, hup, reduceCtorEq, or_self, and_false, false_iff, not_and,
            not_not, true_and]
          rintro ⟨hd', hh', rfl, -⟩
          rw [hh] at hh'
          rw [Option.some.inj hh']
        · simp [hp]
    | _ => simp [Sys.InPlace, Sys.hands]
  · exact (h.threads _).reown (hlost _).1 (hlost _).2

end Reply

section ReplyStep

variable {b : Nat} {hd : Handle T S} {act : ReplyAct} {rest : List ReplyAct}

omit [DecidableEq T] in
theorem Placed.tidy_todo (h : Placed s owner) (hh : s.handles[b]? = some hd)
    (htodo : hd.todo = act :: rest) : Tidy (act :: rest) :=
  htodo ▸ (h.handles hd (List.mem_of_getElem? hh)).tidy

omit [DecidableEq T] in
/-- A reply function that runs was called. -/
theorem Placed.answered (h : Placed s owner) (hh : s.handles[b]? = some hd)
    (htodo : hd.todo = act :: rest) : hd.answer ≠ none := by
  intro hnone
  have hnil := (h.handles hd (List.mem_of_getElem? hh)).unanswered hnone
  rw [htodo] at hnil
  exact absurd hnil (by simp)

omit [DecidableEq T] in
/-- The handles after an effect. -/
theorem replyStep_ok (h : Placed s owner) (hh : s.handles[b]? = some hd)
    (htodo : hd.todo = act :: rest) : ∀ x ∈ s.handles.set b { hd with todo := rest }, x.Ok :=
  have hanswered := h.answered hh htodo
  Sys.forall_mem_set h.handles ⟨fun hne => absurd hne hanswered, (h.tidy_todo hh htodo).tail⟩

theorem onlyMoved_applyAct :
    OnlyMoved hd.ukfsReq s { s.applyAct act hd.ukfsReq with
      handles := s.handles.set b { hd with todo := rest } } where
  queue _ _ := rfl
  pc _ _ := rfl
  record u hu := by simp [Sys.applyAct, hu]
  raised u hu := by
    simp only [Sys.applyAct]
    split_ifs
    · simp [hu]
    · rfl

/-- `done` is raised: the record is completed. -/
theorem Placed.replyStep_up (h : Placed s owner) (hh : s.handles[b]? = some hd)
    (htodo : hd.todo = .up :: rest) :
    Placed { s.applyAct .up hd.ukfsReq with handles := s.handles.set b { hd with todo := rest } }
      (Function.update owner hd.ukfsReq (some .completed)) := by
  have hanswered := h.answered hh htodo
  have ht := h.threads hd.ukfsReq
  obtain rfl : rest = [.freeReq] := h.tidy_todo hh htodo
  have hheld : s.InPlace (.backend b) hd.ukfsReq := ⟨hd, hh, rfl, .inr (by simp [htodo])⟩
  have hown := (h.places _ _).mp hheld
  have hout := h.outstanding_of hheld
  obtain ⟨k, hwait⟩ : ∃ k, s.pc hd.ukfsReq = .waiting k := by
    cases hpc : s.pc hd.ukfsReq with
    | waiting k => exact ⟨k, rfl⟩
    | woken k =>
        have hcomp : s.InPlace .completed hd.ukfsReq := by
          show (s.pc hd.ukfsReq).Completed _
          rw [hpc]; trivial
        exact absurd (h.places.exclusive hheld hcomp) (by simp)
    | _ => rw [hpc] at hout; exact hout.elim
  have hzero := ht.never hout (by rw [hown]; simp)
  refine h.next onlyMoved_applyAct (h.places.move hown ?_) h.nodup ?_ ?_ ?_
    (replyStep_ok h hh htodo)
  · intro p u
    cases p with
    | backend p =>
        rw [inPlace_set hh rfl]
        split_ifs with hp
        · subst hp
          simp only [Handle.Pending, hanswered, List.mem_singleton, reduceCtorEq, or_self,
            and_false, false_and, false_or, true_and, false_iff, not_and, not_not]
          rintro ⟨hd', hh', rfl, -⟩
          rw [hh] at hh'
          rw [Option.some.inj hh']
        · simp [hp, Sys.InPlace]
    | completed =>
        by_cases hu : u = hd.ukfsReq
        · subst hu
          simp [Sys.InPlace, Sys.applyAct, ReplyAct.apply, hwait]
        · simp [Sys.InPlace, Sys.applyAct, hu]
    | _ => simp [Sys.InPlace, Sys.hands, Sys.applyAct]
  · simp only [Sys.applyAct, if_true, Function.update_self]
    exact {
      sync := ht.sync
      outstanding := fun _ => hout
      once := fun _ => by rw [hzero]
      never := fun _ ho => absurd rfl ho
      semaphore := fun k hk => by
        show (s.record hd.ukfsReq).done + 1 = _
        rw [ht.semaphore k hk]
      known := ht.known
      notFailing := ht.notFailing }
  · intro u hu; simp [hu]
  · intro u hu; simp [hu]

/-- Any other effect leaves `done` and the input alone. -/
theorem Placed.replyStep_keep (h : Placed s owner) (hh : s.handles[b]? = some hd)
    (htodo : hd.todo = act :: rest) (hact : act ≠ .up) :
    Placed { s.applyAct act hd.ukfsReq with handles := s.handles.set b { hd with todo := rest } }
      owner := by
  have hanswered := h.answered hh htodo
  have ht := h.threads hd.ukfsReq
  have hrecord : ∀ req : FuseUkfsRequest,
      (act.apply req).done = req.done ∧ (act.apply req).input = req.input := by
    intro req
    cases act <;> first | exact absurd rfl hact | exact ⟨rfl, rfl⟩
  refine h.stay onlyMoved_applyAct rfl rfl rfl ?_ ?_ ?_ (replyStep_ok h hh htodo)
  · intro p u
    rw [inPlace_set hh rfl]
    split_ifs with hp
    · subst hp
      simp [Sys.InPlace, hh, Handle.Pending, hanswered, htodo, Ne.symm hact]
    · rfl
  · simp [Sys.applyAct, (hrecord _).1]
  · simp only [Sys.applyAct, if_neg hact, Function.update_self]
    exact { ht with
      semaphore := by rw [(hrecord _).1]; exact ht.semaphore
      known := by rw [(hrecord _).2]; exact ht.known }

end ReplyStep

/-! ### Mounting -/

/-- `fusefs_vopen` returns. -/
theorem Placed.startNone (h : Placed s owner) (nodes : List (Node S F)) (hpc : s.pc t = .vopenInit)
    (hq : s.queue.pc t = .out) : Placed { s.setPc t .idle with nodes := nodes } owner := by
  have hidle : Placed (s.setPc t .idle) owner :=
    h.setPc hq (by rw [hpc]; exact id) id (by rw [hpc]; rfl) id
  exact hidle.of_eq rfl rfl rfl rfl rfl

/-- A thread begins its life as a daemon. -/
theorem Placed.daemon (h : Placed s owner) {se : S} {buf : Mem} (hd : s.pc d = .idle) :
    Placed (s.setPc d (.daemon se buf .loop)) owner := by
  refine h.setPc (h.queue_out ?_) ?_ id ?_ id
  · rw [hd]; rfl
  · rw [hd]; exact id
  · rw [hd]; rfl

omit [DecidableEq T] in
/-- At boot there is no request. -/
theorem Placed.boot (record : T → FuseUkfsRequest) :
    Placed (Sys.boot record : Sys T S F) fun _ => none where
  places := .nothing fun p t => by
    cases p <;> simp [Sys.InPlace, Sys.boot, Sys.hands, QueueState.fresh, toInsert, QueuePc.inHand]
  nodup := List.nodup_nil
  threads _ := .idle (.inl rfl) id id
  handles _ hmem := absurd hmem (by simp [Sys.boot])

end Steps

end UkfsFuse
