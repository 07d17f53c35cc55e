import UkfsFuse.Logic.Lifecycle

/-!
# Which answer a client reads

`Accounted` adds to `Placed` what is in the records: one that has not reached
the backend is as the client initialised it, one behind a handle belongs to
the request the handle was made for, and a completed one holds what the reply
to that handle had written when `done` was raised. A request has at most one
handle.
-/

namespace UkfsFuse

open UkfsFuse.Core QueuePc

section Definitions

variable {T S F : Type} [Platform]

/-- The record is as its client initialised it. -/
def FuseUkfsRequest.Clean (req : FuseUkfsRequest) : Prop := req = .init req.unique req.input

/-- What a reply leaves in a record by the time it raises `done`. -/
def Reply.answerIn (se : FuseSession) (mallocOk : Bool) (r : Reply) (req : FuseUkfsRequest) :
    Answer :=
  (atUp (r.acts se mallocOk) (.init req.unique req.input)).answer

variable (ops : S → FuseLowlevelOps) (s : Sys T S F)

/-- The request in the record of `t` has no handle. -/
structure Unserved (t : T) : Prop where
  clean : (s.record t).Clean
  noHandle : ∀ hd ∈ s.handles, hd.origin.serial ≠ (s.origin t).serial

/-- The handle was made for the request in the record of `t`. -/
structure Serving (hd : Handle T S) (t : T) : Prop where
  record : hd.ukfsReq = t
  origin : hd.origin = s.origin t
  req : hd.req = ⟨(s.record t).unique, 0, 0, 1⟩
  what : hd.what = (s.record t).input.handling (ops hd.se)

/-- What the record of `t` holds, by its place. -/
def RecordOk (t : T) : Option (Place T) → Prop
  | none => True
  | some .pushing | some .queued => Unserved s t
  | some (.daemon d) =>
      Unserved s t ∧ ∀ se buf, s.pc d = .daemon se buf (.handover t) →
        (s.record t).input.Fits ∧ ∃ old, buf = requestMessage old (s.record t)
  | some (.backend h) =>
      ∃ hd, s.handles[h]? = some hd ∧ Serving ops s hd t ∧
        (hd.answer = none → (s.record t).Clean) ∧
        ∀ r mallocOk, hd.answer = some (r, mallocOk) →
          (applyActs (hd.todo.takeWhile (· ≠ .up)) (s.record t)).answer =
            r.answerIn (fuseSessionNewVersioned (ops hd.se)) mallocOk (s.record t)
  | some .completed =>
      ∃ hd r mallocOk, hd ∈ s.handles ∧ Serving ops s hd t ∧ hd.answer = some (r, mallocOk) ∧
        (s.record t).answer =
          r.answerIn (fuseSessionNewVersioned (ops hd.se)) mallocOk (s.record t)

/-- Every record is in its place, and holds what belongs there. -/
structure Accounted (owner : T → Option (Place T)) : Prop where
  placed : Placed s owner
  serialLt : ∀ t, owner t ≠ none → (s.origin t).serial < s.serial
  handleLt : ∀ hd ∈ s.handles, hd.origin.serial < s.serial
  distinct : ∀ t u, owner t ≠ none → owner u ≠ none →
    (s.origin t).serial = (s.origin u).serial → t = u
  single : ∀ (i j : Nat) (hd hd' : Handle T S), s.handles[i]? = some hd →
    s.handles[j]? = some hd' → hd.origin.serial = hd'.origin.serial → i = j
  records : ∀ t, RecordOk ops s t (owner t)

/-- Every outstanding record is in some place. -/
def Covered (owner : T → Option (Place T)) : Prop := ∀ t, (s.pc t).Outstanding → owner t ≠ none

/-- The step loses no record: it does not empty the queue, no request goes to
the device, and a reply function raises `done`. -/
def Lossless : SysAct T S F → Prop
  | .queue t => s.queue.pc t ≠ .initHead
  | .run d _ => ∀ se buf req, s.pc d ≠ .daemon se buf (.device req)
  | .reply h r mallocOk => ∀ hd, s.handles[h]? = some hd →
      .up ∈ r.acts (fuseSessionNewVersioned (ops hd.se)) mallocOk
  | _ => True

/-- The records after a step: all are accounted for, and none is lost if the
step loses none. -/
def Follows (a : SysAct T S F) (owner : T → Option (Place T)) (s' : Sys T S F) : Prop :=
  ∃ owner', Accounted ops s' owner' ∧ (Lossless ops s a → Covered s owner → Covered s' owner')

end Definitions

section Reply

variable [Platform] {op : FuseLowlevelOps} {r : Reply} {req : FuseUkfsRequest} {mallocOk : Bool}

/-- What a reply on the record leaves for the client. -/
theorem Reply.answerIn_onRecord (h : r.OnRecord true) :
    r.answerIn (fuseSessionNewVersioned op) true req = ⟨r.error, r.payload, r.size⟩ := by
  cases r with
  | err e => rfl
  | entry e =>
      rw [Reply.answerIn, Reply.acts, fuseReplyEntry_new]
      rfl
  | attr st => rfl
  | open_ f => rfl
  | buf bs => rfl
  | iov segs => exact h.elim
  | data v => exact h.elim

/-- The reply that leaves an object with the client. -/
inductive Reply.Leaves : Reply → ReplyData → Prop
  | entry (e : FuseEntryParam) : Leaves (.entry e) (.entry e)
  | attr (st : Stat) : Leaves (.attr st) (.attr st)
  | open_ (f : FuseFileInfo) : Leaves (.open_ f) (.openOut (fillOpenOut f))
  | buf (bs : List UInt8) : Leaves (.buf bs) (.bytes bs)

omit [Platform] in
theorem Reply.Leaves.onRecord {data : ReplyData} (h : r.Leaves data) : r.OnRecord true := by
  cases h with
  | buf bs => exact .inl rfl
  | _ => trivial

/-- An object is left only with the memory for it. -/
theorem Reply.leaves_of_object {data : ReplyData}
    (h : (r.answerIn (fuseSessionNewVersioned op) mallocOk req).replyData = some data) :
    mallocOk = true ∧ r.Leaves data := by
  have hnone : ∀ {P : Prop}, (none : Option ReplyData) = some data → P :=
    fun h => absurd h (by simp)
  cases r with
  | err e => exact hnone h
  | entry e =>
      rw [Reply.answerIn, Reply.acts, fuseReplyEntry_new] at h
      cases mallocOk with
      | true =>
          obtain rfl := Option.some.inj h
          exact ⟨rfl, .entry e⟩
      | false => exact hnone h
  | attr st =>
      cases mallocOk with
      | true =>
          obtain rfl := Option.some.inj h
          exact ⟨rfl, .attr st⟩
      | false => exact hnone h
  | open_ f =>
      cases mallocOk with
      | true =>
          obtain rfl := Option.some.inj h
          exact ⟨rfl, .open_ f⟩
      | false => exact hnone h
  | buf bs =>
      cases mallocOk with
      | true =>
          obtain rfl := Option.some.inj h
          exact ⟨rfl, .buf bs⟩
      | false =>
          by_cases hbs : bs = []
          · subst hbs; exact hnone h
          · exact hnone ((fuseReplyBuf_fail hbs).data.symm.trans h)
  | iov segs =>
      cases mallocOk with
      | true => exact hnone h
      | false => exact hnone h
  | data v =>
      rw [Reply.answerIn, Reply.acts] at h
      rcases fuseReplyData_cases v mallocOk with ⟨-, heq⟩ | ⟨-, -, heq⟩ | ⟨-, -, -, heq⟩ |
        ⟨-, -, -, -, heq⟩ | ⟨-, -, -, -, heq⟩ <;> rw [heq] at h <;> exact hnone h

end Reply

section Frames

variable {T S F : Type} [Platform] {ops : S → FuseLowlevelOps} {s s' : Sys T S F} {t : T}
  {owner owner' : T → Option (Place T)}

/-- Record and request are as before, and so are the handles of this record,
but for replies that are past `done`; no handle was made for the request. -/
theorem RecordOk.change {o : Option (Place T)} (h : RecordOk ops s t o)
    (hrecord : s'.record t = s.record t) (horigin : s'.origin t = s.origin t)
    (hkeep : ∀ (i : Nat) hd, s.handles[i]? = some hd → hd.ukfsReq = t →
      ∃ todo, s'.handles[i]? = some { hd with todo := todo } ∧
        (o = some (.backend i) → todo = hd.todo))
    (hnew : (∀ hd ∈ s.handles, hd.origin.serial ≠ (s.origin t).serial) →
      ∀ hd ∈ s'.handles, hd.origin.serial ≠ (s.origin t).serial)
    (hmsg : ∀ d se buf, o = some (.daemon d) → s'.pc d = .daemon se buf (.handover t) →
      s.pc d = .daemon se buf (.handover t)) : RecordOk ops s' t o := by
  have hunserved : Unserved s t → Unserved s' t := fun hu =>
    ⟨by rw [hrecord]; exact hu.clean, by rw [horigin]; exact hnew hu.noHandle⟩
  have hserving : ∀ hd, Serving ops s hd t → Serving ops s' hd t := fun hd hs =>
    ⟨hs.record, by rw [horigin]; exact hs.origin, by rw [hrecord]; exact hs.req,
      by rw [hrecord]; exact hs.what⟩
  match o, h with
  | none, _ => trivial
  | some .pushing, h => exact hunserved h
  | some .queued, h => exact hunserved h
  | some (.daemon d), h =>
      refine ⟨hunserved h.1, fun se buf hpc => ?_⟩
      rw [hrecord]
      exact h.2 se buf (hmsg d se buf rfl hpc)
  | some (.backend b), h =>
      obtain ⟨hd, hh, hs, hclean, hanswer⟩ := h
      obtain ⟨todo, hh', htodo⟩ := hkeep b hd hh hs.record
      obtain rfl := htodo rfl
      refine ⟨hd, hh', hserving hd hs, ?_, ?_⟩
      · rw [hrecord]; exact hclean
      · rw [hrecord]; exact hanswer
  | some .completed, h =>
      obtain ⟨hd, r, m, hh, hs, hanswer, heq⟩ := h
      obtain ⟨i, hi⟩ := List.getElem?_of_mem hh
      obtain ⟨todo, hi', -⟩ := hkeep i hd hi hs.record
      have hs' := hserving hd hs
      refine ⟨_, r, m, List.mem_of_getElem? hi', ⟨hs'.record, hs'.origin, hs'.req, hs'.what⟩,
        hanswer, ?_⟩
      rw [hrecord]; exact heq

/-- The record, its request and the handles are as before. -/
theorem RecordOk.frame {o : Option (Place T)} (h : RecordOk ops s t o)
    (hrecord : s'.record t = s.record t) (horigin : s'.origin t = s.origin t)
    (hhandles : s'.handles = s.handles)
    (hmsg : ∀ d se buf, o = some (.daemon d) → s'.pc d = .daemon se buf (.handover t) →
      s.pc d = .daemon se buf (.handover t)) : RecordOk ops s' t o := by
  refine h.change hrecord horigin ?_ ?_ hmsg
  · rw [hhandles]
    exact fun _ hd hi _ => ⟨hd.todo, hi, fun _ => rfl⟩
  · rw [hhandles]
    exact id

/-- A step that neither numbers a request nor makes a handle. -/
theorem Accounted.next (h : Accounted ops s owner) (hplaced : Placed s' owner')
    (hserial : s'.serial = s.serial) (horigin : s'.origin = s.origin)
    (hhandles : ∀ i : Nat, (s'.handles[i]?).map Handle.origin = (s.handles[i]?).map Handle.origin)
    (hsome : ∀ u, owner' u ≠ none → owner u ≠ none)
    (hrecords : ∀ u, RecordOk ops s' u (owner' u)) : Accounted ops s' owner' := by
  -- every handle of the new state is one of the old by its origin
  have hold : ∀ (i : Nat) hd', s'.handles[i]? = some hd' →
      ∃ hd, s.handles[i]? = some hd ∧ hd.origin = hd'.origin := by
    intro i hd' hi
    have hmap := hhandles i
    rw [hi] at hmap
    obtain ⟨hd, hhd, heq⟩ := Option.map_eq_some_iff.mp hmap.symm
    exact ⟨hd, hhd, heq⟩
  exact {
    placed := hplaced
    serialLt := fun u hu => by rw [hserial, horigin]; exact h.serialLt u (hsome u hu)
    handleLt := by
      intro hd' hmem
      obtain ⟨i, hi⟩ := List.getElem?_of_mem hmem
      obtain ⟨hd, hhd, heq⟩ := hold i hd' hi
      rw [hserial, ← heq]
      exact h.handleLt hd (List.mem_of_getElem? hhd)
    distinct := by
      rw [horigin]
      exact fun u v hu hv => h.distinct u v (hsome u hu) (hsome v hv)
    single := by
      intro i j hd hd' hi hj heq
      obtain ⟨x, hx, hxo⟩ := hold i hd hi
      obtain ⟨y, hy, hyo⟩ := hold j hd' hj
      exact h.single i j x y hx hy (by rw [hxo, hyo]; exact heq)
    records := hrecords }

/-- A step that leaves records and handles alone: what is known of the records
in their new places has to be known already. -/
theorem Accounted.keep (h : Accounted ops s owner) (hplaced : Placed s' owner')
    (hrecord : s'.record = s.record) (hserial : s'.serial = s.serial)
    (horigin : s'.origin = s.origin) (hhandles : s'.handles = s.handles)
    (hsome : ∀ u, owner' u ≠ none → owner u ≠ none)
    (hrecords : ∀ u, RecordOk ops s u (owner' u))
    (hmsg : ∀ u d se buf, owner' u = some (.daemon d) → s'.pc d = .daemon se buf (.handover u) →
      s.pc d = .daemon se buf (.handover u)) : Accounted ops s' owner' :=
  h.next hplaced hserial horigin (fun i => by rw [hhandles]) hsome fun u =>
    (hrecords u).frame (by rw [hrecord]) (by rw [horigin]) hhandles (hmsg u)

theorem Accounted.record_at (h : Accounted ops s owner) {p : Place T} (hp : s.InPlace p t) :
    RecordOk ops s t (some p) := by
  rw [← (h.placed.places p t).mp hp]
  exact h.records t

/-- What a client reads when it has been woken: the reply to its request. -/
theorem Accounted.woken_reply (h : Accounted ops s owner) {k : Cont} (hpc : s.pc t = .woken k) :
    ∃ hd ∈ s.handles, ∃ r mallocOk, Serving ops s hd t ∧ hd.answer = some (r, mallocOk) ∧
      (s.record t).answer =
        r.answerIn (fuseSessionNewVersioned (ops hd.se)) mallocOk (s.record t) := by
  have hcomp : s.InPlace .completed t := by
    show (s.pc t).Completed _
    rw [hpc]
    trivial
  obtain ⟨hd, r, m, hmem, hserving, hanswer, heq⟩ := h.record_at hcomp
  exact ⟨hd, hmem, r, m, hserving, hanswer, heq⟩

variable [DecidableEq T]

/-- Only the record of `t` has a new place. -/
theorem Accounted.records_update (h : Accounted ops s owner) {o : Option (Place T)}
    (ho : RecordOk ops s t o) (u : T) : RecordOk ops s u (Function.update owner t o u) := by
  by_cases hu : u = t
  · subst hu; simpa using ho
  · simpa [hu] using h.records u

omit [Platform] in
theorem some_of_update {o : Option (Place T)} (ho : owner t ≠ none) (u : T)
    (hu : Function.update owner t o u ≠ none) : owner u ≠ none := by
  by_cases hut : u = t
  · subst hut; exact ho
  · simpa [hut] using hu

omit [Platform] in
/-- A thread that moves, but not to the hand-over of a message. -/
theorem handover_of_update {v : Pc T S} {pc : T → Pc T S}
    (hv : ∀ se buf u, v ≠ .daemon se buf (.handover u)) {d u : T} {se : S} {buf : Mem}
    (hd : Function.update pc t v d = .daemon se buf (.handover u)) :
    pc d = .daemon se buf (.handover u) := by
  by_cases hdt : d = t
  · subst hdt
    rw [Function.update_self] at hd
    exact absurd hd (hv se buf u)
  · simpa [hdt] using hd

/-! ### No record is lost -/

omit [Platform] [DecidableEq T] in
/-- Nobody has become a waiting client. -/
theorem Covered.keep (h : Covered s owner)
    (hpc : ∀ u, (s'.pc u).Outstanding → (s.pc u).Outstanding) : Covered s' owner :=
  fun u hu => h u (hpc u hu)

omit [Platform] in
/-- A record has a new place, its client may be new too. -/
theorem Covered.update (h : Covered s owner) {p : Place T}
    (hpc : ∀ u, u ≠ t → (s'.pc u).Outstanding → (s.pc u).Outstanding) :
    Covered s' (Function.update owner t (some p)) := by
  intro u hu
  by_cases hut : u = t
  · subst hut; simp
  · rw [Function.update_of_ne hut]
    exact h u (hpc u hut hu)

omit [Platform] in
/-- The thread that moves does not wait afterwards. -/
theorem outstanding_of_update {v : Pc T S} {pc : T → Pc T S} (hv : ¬ v.Outstanding) (u : T)
    (hu : (Function.update pc t v u).Outstanding) : (pc u).Outstanding := by
  by_cases hut : u = t
  · subst hut
    rw [Function.update_self] at hu
    exact absurd hu hv
  · simpa [hut] using hu

omit [Platform] in
theorem outstanding_of_ne {v : Pc T S} {pc : T → Pc T S} (u : T) (hut : u ≠ t)
    (hu : (Function.update pc t v u).Outstanding) : (pc u).Outstanding := by
  simpa [hut] using hu

end Frames

/-! ## The steps -/

section Steps

variable {T S F : Type} [DecidableEq T] [Platform] {ops : S → FuseLowlevelOps}
  {s s' : Sys T S F} {t d : T} {owner : T → Option (Place T)}

/-- A step that changes nothing but the place a thread is at. -/
theorem Accounted.setPc (h : Accounted ops s owner) {v : Pc T S} (hplaced : Placed s' owner)
    (hpc : s'.pc = Function.update s.pc t v) (hrecord : s'.record = s.record)
    (hserial : s'.serial = s.serial) (horigin : s'.origin = s.origin)
    (hhandles : s'.handles = s.handles) (hv : ∀ se buf u, v ≠ .daemon se buf (.handover u)) :
    Accounted ops s' owner :=
  h.keep hplaced hrecord hserial horigin hhandles (fun _ => id) h.records fun u d se buf _ hd => by
    rw [hpc] at hd
    exact handover_of_update hv hd

theorem Accounted.submit (h : Accounted ops s owner) {n : Nat} {input : RequestIn} {k : Cont}
    (hpc : (s.pc t).Free) (hknown : input.Known) (hs : s.submit t n input k = some s') :
    Accounted ops s' (Function.update owner t (some .pushing)) := by
  have hplaced := h.placed.submit hpc hknown hs
  obtain ⟨queue, hq, rfl⟩ := Option.map_eq_some_iff.mp hs
  -- the new serial is that of no record and no handle
  have hfresh : ∀ u, u ≠ t → Function.update owner t (some .pushing) u ≠ none →
      (s.origin u).serial < s.serial := by
    intro u hu ho
    rw [Function.update_of_ne hu] at ho
    exact h.serialLt u ho
  exact {
    placed := hplaced
    serialLt := by
      intro u hu
      by_cases hut : u = t
      · subst hut; simp
      · have hlt := hfresh u hut hu
        simp only [ne_eq, hut, not_false_eq_true, Function.update_of_ne]
        omega
    handleLt := fun hd hmem => Nat.lt_succ_of_lt (h.handleLt hd hmem)
    distinct := by
      intro u v hu hv heq
      by_cases hut : u = t
      · by_cases hvt : v = t
        · rw [hut, hvt]
        · subst hut
          have hlt := hfresh v hvt hv
          simp only [Function.update_self, ne_eq, hvt, not_false_eq_true,
            Function.update_of_ne] at heq
          omega
      · by_cases hvt : v = t
        · subst hvt
          have hlt := hfresh u hut hu
          simp only [Function.update_self, ne_eq, hut, not_false_eq_true,
            Function.update_of_ne] at heq
          omega
        · simp only [ne_eq, hut, hvt, not_false_eq_true, Function.update_of_ne] at hu hv heq
          exact h.distinct u v hu hv heq
    single := h.single
    records := by
      intro u
      by_cases hut : u = t
      · subst hut
        simp only [Function.update_self]
        refine ⟨?_, ?_⟩
        · simp [FuseUkfsRequest.Clean, FuseUkfsRequest.init]
        · intro hd hmem
          have hlt := h.handleLt hd hmem
          simp only [Function.update_self]
          omega
      · rw [Function.update_of_ne hut]
        refine (h.records u).frame (by simp [hut]) (by simp [hut]) rfl ?_
        intro d se buf _ hd
        exact handover_of_update (by simp) hd }

theorem Accounted.down (h : Accounted ops s owner) {k : Cont} {m : Nat}
    (hpc : s.pc t = .waiting k) (hq : s.queue.pc t = .out) (hdone : (s.record t).done = m + 1) :
    Accounted ops { s.setPc t (.woken k) with
      record := Function.update s.record t { s.record t with done := m } } owner := by
  have hplaced := h.placed.down hpc hq hdone
  have hcomp : s.InPlace .completed t := by
    show (s.pc t).Completed (s.record t).done
    rw [hpc, hdone]
    exact Nat.succ_pos m
  have hown := (h.placed.places _ _).mp hcomp
  refine h.next hplaced rfl rfl (fun _ => rfl) (fun _ => id) ?_
  intro u
  by_cases hut : u = t
  · subst hut
    obtain ⟨hd, r, ok, hmem, hserving, hanswer, heq⟩ := h.record_at hcomp
    rw [hown]
    refine ⟨hd, r, ok, hmem, ⟨hserving.record, hserving.origin, ?_, ?_⟩, hanswer, ?_⟩
    · simpa using hserving.req
    · simpa using hserving.what
    · simpa [FuseUkfsRequest.answer, Reply.answerIn] using heq
  · refine (h.records u).frame (by simp [hut]) rfl rfl ?_
    intro d se buf _ hd
    exact handover_of_update (by simp) hd

theorem Accounted.finish (h : Accounted ops s owner) {k : Cont} {v : Pc T S}
    {nodes : List (Node S F)} (hpc : s.pc t = .woken k) (hv : v.Free) :
    Accounted ops { s.setPc t v with nodes := nodes } (Function.update owner t none) := by
  have hplaced : Placed { s.setPc t v with nodes := nodes } (Function.update owner t none) :=
    (h.placed.finish hpc hv).of_eq rfl rfl rfl rfl rfl
  have hcomp : s.InPlace .completed t := by
    show (s.pc t).Completed (s.record t).done
    rw [hpc]
    trivial
  have hown := (h.placed.places _ _).mp hcomp
  refine h.keep hplaced rfl rfl rfl rfl (some_of_update (by rw [hown]; simp))
    (h.records_update trivial) ?_
  intro u d se buf _ hd
  refine handover_of_update ?_ hd
  rintro se' buf' u' rfl
  exact hv.elim

/-- A statement inside the queue functions. -/
theorem Accounted.queue (h : Accounted ops s owner) {queue : QueueState T T}
    (hq : s.queue.tick t = some queue) :
    Follows ops s (.queue t) owner { s with queue := queue } := by
  cases QueueState.tickEffect hq with
  | move v hpc hhead hins hhand hfn =>
      have hplaced := h.placed.tickMove hpc hhead hins hhand hfn
      exact ⟨owner, h.keep hplaced rfl rfl rfl rfl (fun _ => id) h.records fun _ _ _ _ _ hd => hd,
        fun _ hcov => hcov⟩
  | insert req hat hpc hhead =>
      obtain ⟨rfl, -⟩ := h.placed.pusher (by rw [hat]; rfl)
      have hpush : s.InPlace .pushing req := by simp [Sys.InPlace, hat, toInsert]
      have hown := (h.placed.places _ _).mp hpush
      have hunserved : Unserved s req := h.record_at hpush
      exact ⟨_, h.keep (h.placed.insert hat hpc hhead) rfl rfl rfl rfl
        (some_of_update (by rw [hown]; simp)) (h.records_update hunserved) fun _ _ _ _ _ hd => hd,
        fun _ hcov => hcov.update fun _ _ => id⟩
  | remove req rest hat hreq hpc hhead =>
      have hqueued : s.InPlace .queued req := by simp [Sys.InPlace, hreq]
      have hown := (h.placed.places _ _).mp hqueued
      have hunserved : Unserved s req := h.record_at hqueued
      obtain ⟨se, buf, hloop⟩ := h.placed.popper (t := t) (by rw [hat]; rfl)
      have hdaemon : RecordOk ops s req (some (.daemon t)) :=
        ⟨hunserved, fun se' buf' hpc' => by rw [hloop] at hpc'; exact absurd hpc' (by simp)⟩
      exact ⟨_, h.keep (h.placed.remove hat hreq hpc hhead) rfl rfl rfl rfl
        (some_of_update (by rw [hown]; simp)) (h.records_update hdaemon) fun _ _ _ _ _ hd => hd,
        fun _ hcov => hcov.update fun _ _ => id⟩
  | reset hat hpc hhead =>
      refine ⟨_, h.keep (h.placed.reset hat hpc hhead) rfl rfl rfl rfl ?_ ?_
        fun _ _ _ _ _ hd => hd, fun hless => absurd hat hless⟩
      · intro u
        split_ifs <;> simp
      · intro u
        split_ifs
        · trivial
        · exact h.records u

/-- The daemon has built the message of its request. -/
theorem Accounted.message (h : Accounted ops s owner) {se : S} {buf msg : Mem} {req : T}
    (hpc : s.pc d = .daemon se buf (.popped req))
    (hmsg : daemonMessage buf (s.record req) = .message msg) :
    Accounted ops (s.setPc d (.daemon se msg (.handover req))) owner := by
  have hplaced : Placed (s.setPc d (.daemon se msg (.handover req))) owner :=
    h.placed.setDaemon hpc (by rw [hpc]; rfl) rfl id
  have hheld : s.InPlace (.daemon d) req := by
    simp [Sys.InPlace, Sys.hands, hpc, DaemonPc.inHand]
  have hown := (h.placed.places _ _).mp hheld
  have hknown := h.placed.known_inHand (d := d) hheld
  have hfits : (s.record req).input.Fits := by
    by_contra hover
    rw [daemonMessage_overrun buf hover] at hmsg
    exact absurd hmsg (by simp)
  obtain rfl : requestMessage buf (s.record req) = msg := by
    rw [daemonMessage_of_fits buf hknown hfits] at hmsg
    exact Built.message.inj hmsg
  refine h.next hplaced rfl rfl (fun _ => rfl) (fun _ => id) ?_
  intro u
  by_cases hu : u = req
  · subst hu
    have hold := h.records u
    rw [hown] at hold ⊢
    refine ⟨⟨hold.1.clean, hold.1.noHandle⟩, fun se' buf' hpc' => ?_⟩
    simp only [Sys.setPc, Function.update_self, Pc.daemon.injEq, and_true] at hpc'
    obtain ⟨-, rfl⟩ := hpc'
    exact ⟨hfits, buf, rfl⟩
  · refine (h.records u).frame rfl rfl rfl ?_
    intro d' se' buf' _ hd'
    by_cases hdd : d' = d
    · subst hdd
      simp only [Sys.setPc, Function.update_self, Pc.daemon.injEq, DaemonPc.handover.injEq] at hd'
      exact absurd hd'.2.2.symm hu
    · simpa [Sys.setPc, hdd] using hd'

omit [DecidableEq T] in
/-- The message a daemon hands over is that of the request it has in its hands. -/
theorem Accounted.handed_over (h : Accounted ops s owner) {se : S} {buf : Mem} {ok : Bool} {req : T}
    {r : FuseReq} {what : Handled} (hpc : s.pc d = .daemon se buf (.handover req))
    (hproc : fuseSessionProcessBufInternal (fuseSessionNewVersioned (ops se)) buf
      FUSE_DAEMON_BUF_SIZE ok = .handled r what) :
    (s.pc req).Outstanding ∧ r = ⟨(s.record req).unique, 0, 0, 1⟩ ∧
      what = (s.record req).input.handling (ops se) := by
  have hheld : s.InPlace (.daemon d) req := by
    simp [Sys.InPlace, Sys.hands, hpc, DaemonPc.inHand]
  have hknown := h.placed.known_inHand (d := d) hheld
  obtain ⟨-, hmsg⟩ := h.record_at hheld
  obtain ⟨hfits, old, rfl⟩ := hmsg se buf hpc
  refine ⟨h.placed.outstanding_of hheld, ?_⟩
  cases ok with
  | false => rw [process_noReq] at hproc; exact absurd hproc (by simp)
  | true =>
      rw [process_requestMessage old (ops se) hknown hfits] at hproc
      obtain ⟨hr, hwhat⟩ := Processed.handled.inj hproc
      exact ⟨hr.symm, hwhat.symm⟩

/-- libfuse makes a handle of the request whose message it finds. -/
theorem Accounted.handle (h : Accounted ops s owner) {se : S} {buf : Mem} {ok : Bool} {req : T}
    {r : FuseReq} {what : Handled} (hpc : s.pc d = .daemon se buf (.handover req))
    (hproc : fuseSessionProcessBufInternal (fuseSessionNewVersioned (ops se)) buf
      FUSE_DAEMON_BUF_SIZE ok = .handled r what) :
    Accounted ops { s.setPc d (.daemon se buf (.inCallback s.handles.length)) with
        handles := s.handles ++ [⟨req, se, r, what, none, [], s.origin req⟩] }
      (Function.update owner req (some (.backend s.handles.length))) := by
  have hplaced : Placed { s.setPc d (.daemon se buf (.inCallback s.handles.length)) with
        handles := s.handles ++ [⟨req, se, r, what, none, [], s.origin req⟩] }
      (Function.update owner req (some (.backend s.handles.length))) := h.placed.handle hpc
  have hheld : s.InPlace (.daemon d) req := by
    simp [Sys.InPlace, Sys.hands, hpc, DaemonPc.inHand]
  have hown := (h.placed.places _ _).mp hheld
  have hunserved : Unserved s req := (h.record_at hheld).1
  obtain ⟨-, hserving⟩ := h.handed_over hpc hproc
  have hserial : (s.origin req).serial < s.serial := h.serialLt req (by rw [hown]; simp)
  -- a handle of the new state is an old one or the one just made
  have hget : ∀ (i : Nat) hd, (s.handles ++ [⟨req, se, r, what, none, [], s.origin req⟩])[i]? =
      some hd → s.handles[i]? = some hd ∨ (i = s.handles.length ∧ hd.origin = s.origin req) := by
    intro i hd hi
    rcases Nat.lt_trichotomy i s.handles.length with hlt | rfl | hgt
    · rw [List.getElem?_append_left hlt] at hi
      exact .inl hi
    · rw [List.getElem?_concat_length] at hi
      exact .inr ⟨rfl, by rw [← Option.some.inj hi]⟩
    · rw [List.getElem?_eq_none (by simp; omega)] at hi
      exact absurd hi (by simp)
  exact {
    placed := hplaced
    serialLt := fun u hu => h.serialLt u (some_of_update (by rw [hown]; simp) u hu)
    handleLt := by
      intro hd hmem
      rcases List.mem_append.mp hmem with hold | hnew
      · exact h.handleLt hd hold
      · rw [List.mem_singleton.mp hnew]
        exact hserial
    distinct := fun u v hu hv => h.distinct u v (some_of_update (by rw [hown]; simp) u hu)
      (some_of_update (by rw [hown]; simp) v hv)
    single := by
      intro i j hd hd' hi hj heq
      rcases hget i hd hi with hi' | ⟨rfl, hio⟩
      · rcases hget j hd' hj with hj' | ⟨rfl, hjo⟩
        · exact h.single i j hd hd' hi' hj' heq
        · rw [hjo] at heq
          exact absurd heq (hunserved.noHandle hd (List.mem_of_getElem? hi'))
      · rcases hget j hd' hj with hj' | ⟨rfl, hjo⟩
        · rw [hio] at heq
          exact absurd heq.symm (hunserved.noHandle hd' (List.mem_of_getElem? hj'))
        · rfl
    records := by
      intro u
      by_cases hu : u = req
      · subst hu
        rw [Function.update_self]
        refine ⟨⟨u, se, r, what, none, [], s.origin u⟩, by simp, ⟨rfl, rfl, hserving.1,
          hserving.2⟩, fun _ => hunserved.clean, ?_⟩
        intro r' m hanswer
        exact absurd hanswer (by simp)
      · rw [Function.update_of_ne hu]
        by_cases hnone : owner u = none
        · rw [hnone]; trivial
        refine (h.records u).change rfl rfl ?_ ?_ ?_
        · intro i hd hi _
          rw [List.getElem?_append_left (List.getElem?_eq_some_iff.mp hi).1]
          exact ⟨hd.todo, hi, fun _ => rfl⟩
        · intro hold hd hmem
          rcases List.mem_append.mp hmem with hmem | hmem
          · exact hold hd hmem
          · rw [List.mem_singleton.mp hmem]
            intro heq
            exact hu (h.distinct u req hnone (by rw [hown]; simp) heq.symm)
        · intro d' se' buf' _ hd'
          exact handover_of_update (by simp) hd' }

omit [DecidableEq T] in
/-- Handle `b` changes, and keeps the request it was made for. -/
theorem Accounted.records_set (h : Accounted ops s owner) {b : Nat} {hd hd' : Handle T S} {u : T}
    (hh : s.handles[b]? = some hd) (hu : u ≠ hd.ukfsReq)
    (hhandles : s'.handles = s.handles.set b hd') (horigin : hd'.origin = hd.origin)
    (hrecord : s'.record u = s.record u)
    (horigins : s'.origin = s.origin) (hpc : s'.pc = s.pc) :
    RecordOk ops s' u (owner u) := by
  refine (h.records u).change hrecord (by rw [horigins]) ?_ ?_ ?_
  · intro i x hi hx
    have hib : i ≠ b := by
      rintro rfl
      rw [hh] at hi
      rw [← Option.some.inj hi] at hx
      exact hu hx.symm
    rw [hhandles, List.getElem?_set_ne hib.symm]
    exact ⟨x.todo, hi, fun _ => rfl⟩
  · intro hold x hmem
    rw [hhandles] at hmem
    exact Sys.forall_mem_set hold (horigin ▸ hold hd (List.mem_of_getElem? hh)) x hmem
  · intro d se buf _ hd
    rwa [hpc] at hd

omit [DecidableEq T] [Platform] in
theorem origin_set {b : Nat} {hd : Handle T S} (hd' : Handle T S) (hh : s.handles[b]? = some hd)
    (horigin : hd'.origin = hd.origin) (i : Nat) :
    ((s.handles.set b hd')[i]?).map Handle.origin = (s.handles[i]?).map Handle.origin := by
  by_cases hib : b = i
  · subst hib
    rw [List.getElem?_set_self (List.getElem?_eq_some_iff.mp hh).1, hh]
    simp [horigin]
  · rw [List.getElem?_set_ne hib]

/-- A reply call on a handle nobody has replied to. -/
theorem Accounted.reply (h : Accounted ops s owner) {b : Nat} {hd : Handle T S} {r : Reply}
    {mallocOk : Bool} (hh : s.handles[b]? = some hd) (hacc : hd.Accepts r) :
    Follows ops s (.reply b r mallocOk) owner { s with handles := s.handles.set b { hd with
      answer := some (r, mallocOk)
      todo := r.acts (fuseSessionNewVersioned (ops hd.se)) mallocOk } } := by
  have hheld : s.InPlace (.backend b) hd.ukfsReq := ⟨hd, hh, rfl, .inl hacc.1⟩
  have hown := (h.placed.places _ _).mp hheld
  have horigin := origin_set { hd with
    answer := some (r, mallocOk)
    todo := r.acts (fuseSessionNewVersioned (ops hd.se)) mallocOk } hh rfl
  have hother : ∀ u, u ≠ hd.ukfsReq → RecordOk ops { s with handles := s.handles.set b { hd with
      answer := some (r, mallocOk)
      todo := r.acts (fuseSessionNewVersioned (ops hd.se)) mallocOk } } u (owner u) :=
    fun u hu => h.records_set hh hu rfl rfl rfl rfl rfl
  by_cases hup : .up ∈ r.acts (fuseSessionNewVersioned (ops hd.se)) mallocOk
  · refine ⟨owner, h.next (h.placed.reply_up hh hacc hup) rfl rfl horigin (fun _ => id) ?_,
      fun _ hcov => hcov⟩
    intro u
    by_cases hu : u = hd.ukfsReq
    · subst hu
      obtain ⟨hd', hh', hserving, hclean, -⟩ := h.record_at hheld
      obtain rfl : hd = hd' := by rw [hh] at hh'; exact Option.some.inj hh'
      rw [hown]
      refine ⟨_, List.getElem?_set_self (List.getElem?_eq_some_iff.mp hh).1,
        ⟨rfl, hserving.origin, hserving.req, hserving.what⟩, fun hnone => absurd hnone (by simp),
        ?_⟩
      rintro r' m hanswer
      obtain ⟨rfl, rfl⟩ := Prod.mk.inj (Option.some.inj hanswer)
      have hrecord : s.record hd.ukfsReq = .init _ _ := hclean hacc.1
      show (applyActs _ (s.record hd.ukfsReq)).answer = _
      rw [Reply.answerIn, atUp, ← hrecord]
    · exact hother u hu
  · refine ⟨_, h.next (h.placed.reply_lost hh hacc hup) rfl rfl horigin
      (some_of_update (by rw [hown]; simp)) ?_, fun hless => absurd (hless hd hh) hup⟩
    intro u
    by_cases hu : u = hd.ukfsReq
    · subst hu
      rw [Function.update_self]
      trivial
    · rw [Function.update_of_ne hu]
      exact hother u hu

omit [Platform] in
/-- An effect of a reply function leaves the request in the record. -/
theorem input_applyAct (act : ReplyAct) (u v : T) :
    ((s.applyAct act u).record v).input = (s.record v).input := by
  show (Function.update s.record u (act.apply (s.record u)) v).input = _
  by_cases huv : v = u
  · subst huv
    rw [Function.update_self]
    cases act <;> rfl
  · rw [Function.update_of_ne huv]

/-- An effect of a reply function. -/
theorem Accounted.replyStep (h : Accounted ops s owner) {b : Nat} {hd : Handle T S}
    {act : ReplyAct} {rest : List ReplyAct} (hh : s.handles[b]? = some hd)
    (htodo : hd.todo = act :: rest) :
    Follows ops s (.replyStep b) owner { s.applyAct act hd.ukfsReq with
      handles := s.handles.set b { hd with todo := rest } } := by
  have horigin := origin_set { hd with todo := rest } hh rfl
  have hother : ∀ u, u ≠ hd.ukfsReq → RecordOk ops { s.applyAct act hd.ukfsReq with
      handles := s.handles.set b { hd with todo := rest } } u (owner u) :=
    fun u hu => h.records_set hh hu rfl rfl (by simp [Sys.applyAct, hu]) rfl rfl
  have hlt := (List.getElem?_eq_some_iff.mp hh).1
  have hanswered := h.placed.answered hh htodo
  obtain ⟨⟨r, m⟩, hanswer⟩ := Option.ne_none_iff_exists'.mp hanswered
  by_cases hact : act = .up
  · -- what the record holds is what its client will read
    subst hact
    have hheld : s.InPlace (.backend b) hd.ukfsReq := ⟨hd, hh, rfl, .inr (by simp [htodo])⟩
    have hown := (h.placed.places _ _).mp hheld
    refine ⟨_, h.next (h.placed.replyStep_up hh htodo) rfl rfl horigin
      (some_of_update (by rw [hown]; simp)) ?_, fun _ hcov => hcov.update fun _ _ => id⟩
    intro u
    by_cases hu : u = hd.ukfsReq
    · subst hu
      obtain ⟨hd', hh', hserving, -, hrecord⟩ := h.record_at hheld
      obtain rfl : hd = hd' := by rw [hh] at hh'; exact Option.some.inj hh'
      have hrecord' := hrecord r m hanswer
      rw [htodo] at hrecord'
      rw [Function.update_self]
      refine ⟨{ hd with todo := rest }, r, m, List.mem_iff_getElem?.mpr ⟨b, by simp [hlt]⟩,
        ⟨rfl, hserving.origin, ?_, ?_⟩, hanswer, ?_⟩
      · simpa [Sys.applyAct, ReplyAct.apply] using hserving.req
      · simpa [Sys.applyAct, ReplyAct.apply] using hserving.what
      · simpa [Sys.applyAct, ReplyAct.apply, applyActs, FuseUkfsRequest.answer,
          Reply.answerIn] using hrecord'
    · rw [Function.update_of_ne hu]
      exact hother u hu
  · refine ⟨owner, h.next (h.placed.replyStep_keep hh htodo hact) rfl rfl horigin (fun _ => id) ?_,
      fun _ hcov => hcov⟩
    intro u
    by_cases hu : u = hd.ukfsReq
    · subst hu
      by_cases hrest : .up ∈ rest
      · -- the effect was one of those before `done` is raised
        have hheld : s.InPlace (.backend b) hd.ukfsReq :=
          ⟨hd, hh, rfl, .inr (by simp [htodo, hrest])⟩
        have hown := (h.placed.places _ _).mp hheld
        obtain ⟨hd', hh', hserving, -, hrecord⟩ := h.record_at hheld
        obtain rfl : hd = hd' := by rw [hh] at hh'; exact Option.some.inj hh'
        have hsame : (act.apply (s.record hd.ukfsReq)).unique = (s.record hd.ukfsReq).unique ∧
            (act.apply (s.record hd.ukfsReq)).input = (s.record hd.ukfsReq).input := by
          cases act <;> exact ⟨rfl, rfl⟩
        rw [hown]
        refine ⟨{ hd with todo := rest }, by simp [hlt], ⟨rfl, hserving.origin, ?_, ?_⟩,
          fun hnone => absurd hnone hanswered, ?_⟩
        · simpa [Sys.applyAct, hsame] using hserving.req
        · simpa [Sys.applyAct, hsame] using hserving.what
        · rintro r' m' hanswer'
          have hrecord' := hrecord r' m' hanswer'
          rw [htodo] at hrecord'
          simpa [Sys.applyAct, hact, applyActs, Reply.answerIn, hsame] using hrecord'
      · -- the record is past `done`, or was never going to be completed
        have hquiet := (h.placed.tidy_todo hh htodo).quiet hact hrest (s.record hd.ukfsReq)
        have hrecord : (s.applyAct act hd.ukfsReq).record = s.record := by
          simp [Sys.applyAct, hquiet]
        refine (h.records hd.ukfsReq).change (by rw [← hrecord]) rfl ?_ ?_ fun _ _ _ _ => id
        · intro i x hi hx
          by_cases hib : i = b
          · subst hib
            obtain rfl : hd = x := by rw [hh] at hi; exact Option.some.inj hi
            refine ⟨rest, by simp [hlt], fun hback => ?_⟩
            obtain ⟨hd', hh', -, hpending⟩ := (h.placed.places _ _).mpr hback
            obtain rfl : hd = hd' := by rw [hh] at hh'; exact Option.some.inj hh'
            rcases hpending with hnone | hup
            · exact absurd hnone hanswered
            · rw [htodo] at hup
              exact absurd hup (by simp [Ne.symm hact, hrest])
          · exact ⟨x.todo, by simp [List.getElem?_set_ne (Ne.symm hib), hi], fun _ => rfl⟩
        · exact fun hold => Sys.forall_mem_set hold (hold hd (List.mem_of_getElem? hh))
    · exact hother u hu

/-- One step of the system. -/
theorem Accounted.step (h : Accounted ops s owner) {a : SysAct T S F} (hs : s.Step ops a s') :
    Follows ops s a owner s' := by
  cases hs with
  | stay a => exact ⟨_, h, fun _ hcov => hcov⟩
  | mount se =>
      exact ⟨_, h.keep (h.placed.of_eq rfl rfl rfl rfl rfl) rfl rfl rfl rfl (fun _ => id) h.records
        fun _ _ _ _ _ hd => hd, fun _ hcov => hcov⟩
  | graft a n node f hn =>
      exact ⟨_, h.keep (h.placed.of_eq rfl rfl rfl rfl rfl) rfl rfl rfl rfl (fun _ => id) h.records
        fun _ _ _ _ _ hd => hd, fun _ hcov => hcov⟩
  | vopen t queue hpc hq =>
      exact ⟨_, h.setPc (h.placed.vopen hpc hq) rfl rfl rfl rfl rfl (by simp),
        fun _ hcov => hcov.keep (outstanding_of_update id)⟩
  | startNone t d buf startOk hpc hq =>
      exact ⟨_, h.setPc (h.placed.startNone _ hpc hq) rfl rfl rfl rfl rfl (by simp),
        fun _ hcov => hcov.keep (outstanding_of_update id)⟩
  | startDaemon t d buf se hpc hq hreg hd =>
      have hstart := h.setPc (h.placed.startNone
        (s.nodes ++ [⟨fusefsFileAlloc F 1, s.registered⟩]) hpc hq) rfl rfl rfl rfl rfl (by simp)
      refine ⟨_, hstart.setPc (hstart.placed.daemon (Sys.setPc_idle hd)) rfl rfl rfl rfl rfl
        (by simp), fun _ hcov => hcov.keep fun u hu => ?_⟩
      exact outstanding_of_update (t := t) id u (outstanding_of_update id u hu)
  | goto a t v hpc hv =>
      refine ⟨_, h.setPc (h.placed.goto hpc hv) rfl rfl rfl rfl rfl ?_,
        fun _ hcov => hcov.keep (outstanding_of_update hv.not_outstanding)⟩
      rintro se buf u rfl
      exact hv.elim
  | submit a t n node input k s' hact hpc hn hasks hopen hs =>
      refine ⟨_, h.submit hpc hasks.known hs, fun _ hcov => ?_⟩
      obtain ⟨queue, -, rfl⟩ := Option.map_eq_some_iff.mp hs
      exact hcov.update outstanding_of_ne
  | down t k m ok hpc hq hdone =>
      refine ⟨_, h.down hpc hq hdone, fun _ hcov => hcov.keep fun u hu => ?_⟩
      by_cases hut : u = t
      · subst hut; rw [hpc]; trivial
      · exact outstanding_of_ne u hut hu
  | finish t k ok hpc =>
      obtain ⟨v, nodes, hv, heq⟩ := Sys.finish_eq (s := s) (t := t) (s.record t).answer ok k
      rw [heq]
      refine ⟨_, h.finish hpc hv, fun _ hcov u hu => ?_⟩
      by_cases hut : u = t
      · subst hut
        simp only [Sys.setPc, Function.update_self] at hu
        exact absurd hu hv.not_outstanding
      · rw [Function.update_of_ne hut]
        exact hcov u (outstanding_of_ne u hut hu)
  | callPop d se buf ok queue hpc hq =>
      exact ⟨_, h.keep (h.placed.callPop hpc hq) rfl rfl rfl rfl (fun _ => id) h.records
        fun _ _ _ _ _ hd => hd, fun _ hcov => hcov⟩
  | ret d se buf ok req queue hpc hat hq =>
      exact ⟨_, h.setPc (h.placed.ret hpc hat hq) rfl rfl rfl rfl rfl (by simp),
        fun _ hcov => hcov.keep (outstanding_of_update id)⟩
  | unknown d se buf ok req hpc hmsg =>
      have hheld : req ∈ s.hands d := by simp [Sys.hands, hpc, DaemonPc.inHand]
      have hknown := h.placed.known_inHand hheld
      exact absurd hmsg (daemonMessage_known hknown)
  | overrun d se buf ok req hpc hmsg =>
      exact ⟨_, h.setPc (h.placed.setDaemon hpc (by rw [hpc]; rfl) rfl id) rfl rfl rfl rfl rfl
        (by simp), fun _ hcov => hcov.keep (outstanding_of_update id)⟩
  | message d se buf msg ok req hpc hmsg =>
      exact ⟨_, h.message hpc hmsg, fun _ hcov => hcov.keep (outstanding_of_update id)⟩
  | failed d se buf ok req hpc =>
      exact absurd (by rw [hpc]; trivial) (h.placed.threads d).notFailing
  | fail d se buf ok req act acts hpc =>
      exact absurd (by rw [hpc]; trivial) (h.placed.threads d).notFailing
  | noReq d se buf ok req hpc hproc =>
      exact ⟨_, h.setPc (h.placed.setDaemon hpc (by rw [hpc]; rfl) rfl id) rfl rfl rfl rfl rfl
        (by simp), fun _ hcov => hcov.keep (outstanding_of_update id)⟩
  | handle d se buf ok req r what hpc hproc =>
      refine ⟨_, h.handle hpc hproc, fun _ hcov => hcov.update fun u _ hu => ?_⟩
      exact outstanding_of_update id u hu
  | returned d se buf ok b hpc =>
      exact ⟨_, h.setPc (h.placed.setDaemon hpc (by rw [hpc]; rfl) rfl id) rfl rfl rfl rfl rfl
        (by simp), fun _ hcov => hcov.keep (outstanding_of_update id)⟩
  | device d se buf ok req hpc =>
      have hheld : s.InPlace (.daemon d) req := by
        simp [Sys.InPlace, Sys.hands, hpc, DaemonPc.inHand]
      have hown := (h.placed.places _ _).mp hheld
      refine ⟨_, h.keep (h.placed.device hpc) rfl rfl rfl rfl
        (some_of_update (by rw [hown]; simp)) (h.records_update trivial) ?_,
        fun hless => absurd hpc (hless se buf req)⟩
      intro u d' se' buf' _ hd'
      exact handover_of_update (by simp) hd'
  | queue t queue hq => exact h.queue hq
  | reply b hd r mallocOk hh hacc => exact h.reply hh hacc
  | replyStep b hd act rest hh htodo => exact h.replyStep hh htodo

omit [DecidableEq T] in
/-- At boot there is nothing to account for. -/
theorem Accounted.boot (record : T → FuseUkfsRequest) :
    Accounted ops (Sys.boot record : Sys T S F) fun _ => none where
  placed := .boot record
  serialLt _ ht := absurd rfl ht
  handleLt _ hmem := absurd hmem (by simp [Sys.boot])
  distinct _ _ ht := absurd rfl ht
  single _ _ _ _ hi := absurd hi (by simp [Sys.boot])
  records _ := trivial

/-- In every reachable state of every run, whatever fails in it. -/
theorem accounted_reachable (hs : (fuseSystem T S F ops).Reachable s) :
    ∃ owner, Accounted ops s owner := by
  induction hs with
  | start hinit =>
      obtain ⟨record, rfl⟩ := hinit
      exact ⟨_, .boot record⟩
  | step _ hstep ih =>
      obtain ⟨owner, h⟩ := ih
      obtain ⟨owner', h', -⟩ := h.step (.of_step hstep)
      exact ⟨owner', h'⟩

end Steps

end UkfsFuse
