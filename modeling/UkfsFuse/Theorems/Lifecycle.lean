import UkfsFuse.Logic.Answers

/-!
# The life of a request

One fuse mount, any number of clients, and a backend that answers every handle
once, when it likes, with one of the five reply functions written for the
record: in every interleaving a record is in one place at a time, `done` is
raised once, the client reads the answer to its own request, and nobody
touches its record afterwards.
-/

namespace UkfsFuse

open UkfsFuse.Core QueuePc

section Mount

variable (T S F : Type) [DecidableEq T] [Platform] (ops : S → FuseLowlevelOps)

variable {T S F} in
/-- A session of a backend with all five callbacks was registered,
`fusefs_vopen` has run once and its daemon thread has been started. -/
def Mounted (s : Sys T S F) : Prop :=
  ∃ record se t d buf, ops se = .full ∧
    TSys.exec (Sys.step ops) (.boot record)
      [.mount se, .vopen t true, .queue t, .queue t, .queue t, .start t d buf true] = some s

variable {T S F} in
/-- Clients, daemon and backend go on, and no allocation fails. -/
def Contract : SysAct T S F → Prop
  | .mount _ | .queue _ | .replyStep _ => True
  | .call _ _ strndupOk => strndupOk = true
  | .run _ allocOk => allocOk = true
  | .reply _ r mallocOk => mallocOk = true ∧ r.OnRecord true
  | .vopen .. | .start .. => False

/-- The runs of one fuse mount. -/
def mountSystem : TSys (Sys T S F) (SysAct T S F) where
  init := Mounted ops
  step s a s' := Contract a ∧ s.step ops a = some s'

/-- What one fuse mount guarantees its clients. -/
structure LifecycleSafe (s : Sys T S F) : Prop where
  /-- an outstanding record is in exactly one place -/
  place : ∀ t, (s.pc t).Outstanding → ∃! p, s.InPlace p t
  /-- and in the queue only once -/
  queuedOnce : s.queue.q.head.Nodup
  /-- `done` has been raised once for a completed record, and not for another -/
  raised : ∀ t, (s.pc t).Outstanding →
    (s.InPlace .completed t → s.raised t = 1) ∧ (¬ s.InPlace .completed t → s.raised t = 0)
  /-- a client reads what the backend supplied for this very request: for the
  one handle that was made for it, whose callback has the request's parameters -/
  answer : ∀ t k, s.pc t = .woken k → ∃ hd r call, hd ∈ s.handles ∧ hd.ukfsReq = t ∧
    hd.origin = s.origin t ∧
    (∀ (i j : Nat) hd', s.handles[i]? = some hd → s.handles[j]? = some hd' →
      hd'.origin.serial = (s.origin t).serial → i = j) ∧
    (s.record t).input.call = some call ∧ hd.what = .callback call ∧
    hd.answer = some (r, true) ∧ (s.record t).answer = ⟨r.error, r.payload, r.size⟩
  /-- no step of queue, daemon or libfuse touches a record whose `done` has
  been raised, or that is gone -/
  untouched : ∀ a s' t, s.step ops a = some s' → t ∈ s.touched a →
    (s.pc t).Outstanding ∧ s.raised t = 0

end Mount

section Invariant

variable {T S F : Type} [DecidableEq T] [Platform] {ops : S → FuseLowlevelOps} {s s' : Sys T S F}
  {t d : T} {owner : T → Option (Place T)}

/-- No thread mounts, and every daemon serves a full backend and gets its
request handles. -/
def ThreadSound (ops : S → FuseLowlevelOps) (v : Pc T S) : Prop :=
  v ≠ .vopenInit ∧ ∀ se buf pc, v = .daemon se buf pc → ops se = .full ∧ ∀ req, pc ≠ .device req

/-- A handle of a full backend, with a reply that writes the record. -/
structure HandleSound (ops : S → FuseLowlevelOps) (hd : Handle T S) : Prop where
  full : ops hd.se = .full
  reply : ∀ r mallocOk, hd.answer = some (r, mallocOk) → mallocOk = true ∧ r.OnRecord true
  noDevice : .deviceWrite ∉ hd.todo

/-- What holds along the runs of one mount. -/
structure Sound (ops : S → FuseLowlevelOps) (s : Sys T S F) (owner : T → Option (Place T)) :
    Prop where
  accounted : Accounted ops s owner
  covered : Covered s owner
  threads : ∀ u, ThreadSound ops (s.pc u)
  handles : ∀ hd ∈ s.handles, HandleSound ops hd

theorem onRecord_acts {op : FuseLowlevelOps} {r : Reply} (h : r.OnRecord true) :
    .up ∈ r.acts (fuseSessionNewVersioned op) true ∧
      .deviceWrite ∉ r.acts (fuseSessionNewVersioned op) true := by
  have hcomp : Completes (r.acts (fuseSessionNewVersioned op) true) (.init 0 (.getattr 0)) r :=
    completes_of_onRecord h
  have honce := hcomp.once
  exact ⟨List.count_pos_iff.mp (by omega), hcomp.noDevice⟩

omit [Platform] in
/-- A full backend has the callback for every request of the driver. -/
theorem handling_full {input : RequestIn} (h : input.Known) :
    ∃ call, input.call = some call ∧ input.handling .full = .callback call := by
  cases input with
  | other n hn => exact h.elim
  | _ => exact ⟨_, rfl, rfl⟩

omit [Platform] in
theorem process_not_noReq (se : FuseSession) (msg : Mem) (size : Nat) :
    fuseSessionProcessBufInternal se msg size true ≠ .noReq := by
  simp only [fuseSessionProcessBufInternal, Bool.not_true, Bool.false_eq_true, if_false]
  split_ifs <;> simp

/-! ## The start -/

theorem Mounted.reachable (h : Mounted ops s) : (fuseSystem T S F ops).Reachable s := by
  obtain ⟨record, se, t, d, buf, -, hexec⟩ := h
  exact .of_exec _ ⟨record, rfl⟩ hexec

theorem Mounted.threads (h : Mounted ops s) :
    s.handles = [] ∧ ∃ se, ops se = .full ∧
      ∀ u, s.pc u = .idle ∨ ∃ buf, s.pc u = .daemon se buf .loop := by
  obtain ⟨record, se, t, d, buf, hfull, hexec⟩ := h
  simp only [TSys.exec, Sys.step, Sys.boot, QueueState.fresh, Sys.vopen, if_true, Sys.setPc,
    QueueState.callInit, QueueState.move, QueueState.tick, Sys.start, Option.bind_fun_some,
    Option.bind_some, Option.map_some, Function.update_self, Function.update_idem,
    Function.update_eq_self, List.nil_append] at hexec
  split at hexec
  · obtain rfl := Option.some.inj hexec
    refine ⟨rfl, se, hfull, fun u => ?_⟩
    by_cases hu : u = d
    · subst hu
      exact .inr ⟨buf, by simp⟩
    · exact .inl (by simp [hu])
  · exact absurd hexec (by simp)

omit [DecidableEq T] [Platform] in
theorem threadSound_idle : ThreadSound ops (.idle : Pc T S) := ⟨by simp, by simp⟩

theorem Sound.start (h : Mounted ops s) : ∃ owner, Sound ops s owner := by
  obtain ⟨owner, hacc⟩ := accounted_reachable h.reachable
  obtain ⟨hhandles, se, hfull, hpc⟩ := h.threads
  refine ⟨owner, hacc, ?_, ?_, ?_⟩
  · intro u hu
    rcases hpc u with hidle | ⟨buf, hloop⟩
    · rw [hidle] at hu; exact hu.elim
    · rw [hloop] at hu; exact hu.elim
  · intro u
    rcases hpc u with hidle | ⟨buf, hloop⟩
    · rw [hidle]; exact threadSound_idle
    · rw [hloop]
      refine ⟨by simp, ?_⟩
      rintro se' buf' pc hpc
      obtain ⟨rfl, -, rfl⟩ := Pc.daemon.inj hpc
      exact ⟨hfull, by simp⟩
  · rw [hhandles]
    exact fun hd hmem => absurd hmem (by simp)

/-! ## The steps -/

omit [Platform] in
/-- Only the point one thread is at has changed. -/
theorem threads_update {v : Pc T S} (h : ∀ u, ThreadSound ops (s.pc u)) (hv : ThreadSound ops v)
    (u : T) : ThreadSound ops (Function.update s.pc t v u) := by
  by_cases hut : u = t
  · subst hut; simpa using hv
  · simpa [hut] using h u

omit [DecidableEq T] [Platform] in
theorem Pc.Free.sound {v : Pc T S} (hv : v.Free) : ThreadSound ops v := by
  refine ⟨?_, ?_⟩
  · rintro rfl; exact hv.elim
  · rintro se buf pc rfl; exact hv.elim

omit [DecidableEq T] [Platform] in
/-- A daemon goes on with its session. -/
theorem ThreadSound.daemon {se : S} {buf buf' : Mem} {pc pc' : DaemonPc T}
    (h : ThreadSound ops (.daemon se buf pc)) (hpc : ∀ req, pc' ≠ .device req) :
    ThreadSound ops (.daemon se buf' pc') := by
  refine ⟨by simp, ?_⟩
  rintro se' buf'' pc'' heq
  obtain ⟨rfl, -, rfl⟩ := Pc.daemon.inj heq
  exact ⟨(h.2 _ _ _ rfl).1, hpc⟩

omit [DecidableEq T] in
/-- The contract loses no record. -/
theorem Sound.lossless (h : Sound ops s owner) {a : SysAct T S F} (ha : Contract a) :
    Lossless ops s a := by
  cases a with
  | queue t =>
      intro hinit
      have hpc := h.accounted.placed.initializer (t := t) (by rw [hinit]; rfl)
      exact (h.threads t).1 hpc
  | run d ok =>
      intro se buf req hpc
      exact ((h.threads d).2 se buf _ hpc).2 req rfl
  | reply b r mallocOk =>
      obtain ⟨rfl, hrecord⟩ := ha
      exact fun hd _ => (onRecord_acts hrecord).1
  | _ => trivial

/-- Threads and handles after a step of the contract. -/
theorem sound_parts (h : Sound ops s owner) {a : SysAct T S F} (ha : Contract a)
    (hs : s.Step ops a s') :
    (∀ u, ThreadSound ops (s'.pc u)) ∧ ∀ hd ∈ s'.handles, HandleSound ops hd := by
  cases hs with
  | stay a => exact ⟨h.threads, h.handles⟩
  | mount se => exact ⟨h.threads, h.handles⟩
  | graft a n node f hn => exact ⟨h.threads, h.handles⟩
  | vopen t queue hpc hq => exact ha.elim
  | startNone t d buf startOk hpc hq => exact ha.elim
  | startDaemon t d buf se hpc hq hreg hd => exact ha.elim
  | goto a t v hpc hv => exact ⟨threads_update h.threads hv.sound, h.handles⟩
  | submit a t n node input k s' hact hpc hn hasks hopen hs =>
      obtain ⟨queue, -, rfl⟩ := Option.map_eq_some_iff.mp hs
      exact ⟨threads_update h.threads ⟨by simp, by simp⟩, h.handles⟩
  | down t k m ok hpc hq hdone =>
      exact ⟨threads_update h.threads ⟨by simp, by simp⟩, h.handles⟩
  | finish t k ok hpc =>
      obtain ⟨v, nodes, hv, heq⟩ := Sys.finish_eq (s := s) (t := t) (s.record t).answer ok k
      rw [heq]
      exact ⟨threads_update h.threads hv.sound, h.handles⟩
  | callPop d se buf ok queue hpc hq => exact ⟨h.threads, h.handles⟩
  | ret d se buf ok req queue hpc hat hq =>
      exact ⟨threads_update h.threads ((hpc ▸ h.threads d).daemon (by simp)), h.handles⟩
  | unknown d se buf ok req hpc hmsg =>
      exact ⟨threads_update h.threads ((hpc ▸ h.threads d).daemon (by simp)), h.handles⟩
  | overrun d se buf ok req hpc hmsg =>
      exact ⟨threads_update h.threads ((hpc ▸ h.threads d).daemon (by simp)), h.handles⟩
  | message d se buf msg ok req hpc hmsg =>
      exact ⟨threads_update h.threads ((hpc ▸ h.threads d).daemon (by simp)), h.handles⟩
  | failed d se buf ok req hpc =>
      exact ⟨threads_update h.threads ((hpc ▸ h.threads d).daemon (by simp)), h.handles⟩
  | fail d se buf ok req act acts hpc =>
      exact ⟨threads_update h.threads ((hpc ▸ h.threads d).daemon (by simp)), h.handles⟩
  | noReq d se buf ok req hpc hproc =>
      obtain rfl : ok = true := ha
      exact absurd hproc (process_not_noReq _ _ _)
  | handle d se buf ok req r what hpc hproc =>
      refine ⟨threads_update h.threads ((hpc ▸ h.threads d).daemon (by simp)), fun hd hmem => ?_⟩
      rcases List.mem_append.mp hmem with hmem | hmem
      · exact h.handles hd hmem
      · rw [List.mem_singleton.mp hmem]
        exact ⟨((h.threads d).2 se buf _ hpc).1, by simp, by simp⟩
  | returned d se buf ok b hpc =>
      exact ⟨threads_update h.threads ((hpc ▸ h.threads d).daemon (by simp)), h.handles⟩
  | device d se buf ok req hpc =>
      exact ⟨threads_update h.threads ((hpc ▸ h.threads d).daemon (by simp)), h.handles⟩
  | queue t queue hq => exact ⟨h.threads, h.handles⟩
  | reply b hd r mallocOk hh hacc =>
      obtain ⟨rfl, hrecord⟩ := ha
      refine ⟨h.threads, Sys.forall_mem_set h.handles
        ⟨(h.handles hd (List.mem_of_getElem? hh)).full, ?_, (onRecord_acts hrecord).2⟩⟩
      intro r' m hanswer
      obtain ⟨rfl, rfl⟩ := Prod.mk.inj (Option.some.inj hanswer)
      exact ⟨rfl, hrecord⟩
  | replyStep b hd act rest hh htodo =>
      have hold := h.handles hd (List.mem_of_getElem? hh)
      refine ⟨h.threads, Sys.forall_mem_set h.handles
        ⟨hold.full, hold.reply, fun hdev => hold.noDevice ?_⟩⟩
      rw [htodo]
      exact List.mem_cons_of_mem _ hdev

/-- One step of one mount. -/
theorem Sound.step (h : Sound ops s owner) {a : SysAct T S F} (ha : Contract a)
    (hs : s.step ops a = some s') : ∃ owner', Sound ops s' owner' := by
  have hstep : s.Step ops a s' := .of_step hs
  obtain ⟨owner', hacc, hcov⟩ := h.accounted.step hstep
  obtain ⟨hthreads, hhandles⟩ := sound_parts h ha hstep
  exact ⟨owner', hacc, hcov (h.lossless ha) h.covered, hthreads, hhandles⟩

/-! ## What clients rely on -/

omit [DecidableEq T] [Platform] in
/-- A record in the queue, in a daemon's hands or behind a pending handle has
not been completed. -/
theorem Placed.not_raised (h : Placed s owner) {p : Place T} (hp : s.InPlace p t)
    (hne : p ≠ .completed) : (s.pc t).Outstanding ∧ s.raised t = 0 := by
  have hown := (h.places _ _).mp hp
  have hout := h.outstanding_of hp
  refine ⟨hout, (h.threads t).never hout ?_⟩
  rw [hown]
  intro heq
  exact hne (Option.some.inj heq)

omit [DecidableEq T] in
/-- The places of the records a step touches. -/
theorem Sound.touched (h : Sound ops s owner) {a : SysAct T S F} (ht : t ∈ s.touched a) :
    ∃ p, s.InPlace p t ∧ p ≠ .completed := by
  cases a with
  | run d ok =>
      have hdaemon : t ∈ s.hands d := by
        simp only [Sys.touched] at ht
        split at ht
        · rename_i hpc hq
          simpa [Sys.hands, hpc, hq, QueuePc.inHand, DaemonPc.inHand] using ht
        · rename_i hpc
          simp [Sys.hands, hpc, List.mem_singleton.mp ht, DaemonPc.inHand]
        · rename_i hpc
          simp [Sys.hands, hpc, List.mem_singleton.mp ht, DaemonPc.inHand]
        · rename_i hpc
          simp [Sys.hands, hpc, List.mem_singleton.mp ht, DaemonPc.inHand]
        · exact absurd ht (by simp)
      exact ⟨.daemon d, hdaemon, by simp⟩
  | queue u =>
      simp only [Sys.touched] at ht
      split at ht
      · rename_i req hpc
        obtain ⟨rfl, -⟩ := h.accounted.placed.pusher (t := u) (by rw [hpc]; rfl)
        rcases List.mem_cons.mp ht with rfl | hlast
        · exact ⟨.pushing, by simp [Sys.InPlace, hpc, toInsert], by simp⟩
        · rw [Option.mem_toList] at hlast
          exact ⟨.queued, List.mem_of_getLast? hlast, by simp⟩
      · exact ⟨.queued, List.mem_of_mem_take ht, by simp⟩
      · exact absurd ht (by simp)
  | replyStep b =>
      simp only [Sys.touched] at ht
      split at ht
      · rename_i req se r what answer act rest o hh
        split_ifs at ht with hact
        · rw [List.mem_singleton.mp ht]
          have hmem := List.mem_of_getElem? hh
          have htidy := (h.accounted.placed.handles _ hmem).tidy
          have hdevice := (h.handles _ hmem).noDevice
          refine ⟨.backend b, ⟨_, hh, rfl, .inr ?_⟩, by simp⟩
          -- what is left to do and touches the record comes before `done`
          show .up ∈ act :: rest
          cases act with
          | up => exact List.mem_cons_self
          | freeReq => exact absurd hact (by simp [ReplyAct.touches])
          | deviceWrite => exact absurd List.mem_cons_self hdevice
          | _ =>
              rcases htidy.1 with hup | hdev | hfree
              · exact List.mem_cons_of_mem _ hup
              · exact absurd hdev (by simp)
              · exact absurd hfree (by simp)
        · exact absurd ht (by simp)
      · exact absurd ht (by simp)
  | _ => exact absurd ht (by simp [Sys.touched])

theorem Sound.safe (h : Sound ops s owner) : LifecycleSafe T S F ops s where
  place t ht := h.accounted.placed.places.existsUnique (h.covered t ht)
  queuedOnce := h.accounted.placed.nodup
  raised t ht := by
    have hok := h.accounted.placed.threads t
    refine ⟨fun hp => hok.once ((h.accounted.placed.places _ _).mp hp), fun hp => ?_⟩
    exact hok.never ht fun hown => hp ((h.accounted.placed.places _ _).mpr hown)
  answer t k hpc := by
    have hcomp : s.InPlace .completed t := by
      show (s.pc t).Completed (s.record t).done
      rw [hpc]
      trivial
    obtain ⟨hd, r, m, hmem, hserving, hanswer, heq⟩ := h.accounted.record_at hcomp
    have hsound := h.handles hd hmem
    obtain ⟨rfl, hrecord⟩ := hsound.reply r m hanswer
    have hknown := (h.accounted.placed.threads t).known (by rw [hpc]; trivial)
    obtain ⟨call, hcall, hwhat⟩ := handling_full hknown
    refine ⟨hd, r, call, hmem, hserving.record, hserving.origin, ?_, hcall, ?_, hanswer, ?_⟩
    · intro i j hd' hi hj hserial
      refine h.accounted.single i j hd hd' hi hj ?_
      rw [hserial, hserving.origin]
    · rw [hserving.what, hsound.full, hwhat]
    · rw [heq, Reply.answerIn_onRecord hrecord]
  untouched a s' t hs ht := by
    obtain ⟨p, hp, hne⟩ := h.touched ht
    exact h.accounted.placed.not_raised hp hne

end Invariant

/-- The life of a request: in every reachable state of every interleaving. -/
theorem request_lifecycle (T S F : Type) [DecidableEq T] [Platform] (ops : S → FuseLowlevelOps) :
    (mountSystem T S F ops).Invariant (LifecycleSafe T S F ops) := by
  intro s hs
  have hsound : ∃ owner, Sound ops s owner := by
    induction hs with
    | start hinit => exact Sound.start hinit
    | step _ hstep ih =>
        obtain ⟨owner, h⟩ := ih
        exact h.step hstep.1 hstep.2
  obtain ⟨owner, h⟩ := hsound
  exact h.safe

end UkfsFuse
