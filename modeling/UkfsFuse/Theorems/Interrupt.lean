import UkfsFuse.Logic.InterruptChecks
import UkfsFuse.Logic.InterruptLasting

/-!
# Requests and interrupts in every run

Any number of threads receive messages, dispatch and reply, and interrupt what
others are at. As long as the backend uses only requests that it has, and does
not reply to one that another thread is in a function on, nothing undefined
happens and nobody waits in vain; the two lists, the reference counts and the
memory agree; and an interrupt reaches its request, whichever of them is first,
unless a request of another `unique` comes in between and throws it out.
-/

namespace UkfsFuse

open UkfsFuse.Core

section Definitions

variable {T R Fn : Type}

namespace ReqState

/-- What the backend keeps to: it uses requests that it has been given and not
replied to, and does not reply to one while a thread (an interrupt function called
there included) is in `fuse_req_interrupt_func` or `fuse_req_interrupted` on it. Its
interrupt functions wait for nothing. -/
def BackendOk (s : ReqState T R Fn) : ReqAct T R Fn → Prop
  | .reply _ r => s.held r = true ∧ ∀ t, (s.pc t).used ≠ some r
  | .interruptFunc _ r _ | .interrupted _ r => s.held r = true
  | _ => True

/-- Thread `t` waits for the lock of request `r`. -/
def WaitsFor (s : ReqState T R Fn) (t : T) (r : R) : Prop :=
  (s.req r).lock ≠ none ∧ ((∃ q, s.pc t = .lockCurr q r) ∨ ∃ func, s.pc t = .lockReq r func)

/-- Somebody has the request, or it is pending. -/
def Kept (s : ReqState T R Fn) (ys : List R) (r : R) : Prop :=
  ∃ p, Counted (some p) ∧ s.InPlace ys p r

/-- A thread in `fuse_free_req` has given back the last reference, and is at
`destroy_req`. -/
def Doomed (s : ReqState T R Fn) (r : R) : Prop := ∃ t next, s.pc t = .destroy r next

/-- What a step does to the pending interrupts `ys`: nothing, or one more is
pending behind them, or `check_interrupt` looks through them. -/
inductive PendingStep [DecidableEq R] (s s' : ReqState T R Fn) (ys : List R) :
    ReqAct T R Fn → List R → Prop
  | keep (a : ReqAct T R Fn) : PendingStep s s' ys a ys
  | come (t : T) (q : R) (hpc : s.pc t = .interrupt q) : PendingStep s s' ys (.run t) (ys ++ [q])
  | check (t : T) (r : R) (ys' : List R) (hpc : s.pc t = .check r)
      (hchecked : ReqChecked s s' t r ys ys') : PendingStep s s' ys (.run t) ys'

end ReqState

/-- Nothing undefined happens, and nobody waits in vain. -/
structure RequestsSafe [DecidableEq T] [DecidableEq R] (noInterrupt : Bool)
    (s : ReqState T R Fn) : Prop where
  defined : ∀ t, s.pc t ≠ .idle → ¬ s.Blocked t → ∃ s', s.run noInterrupt t = some s'
  /-- the mutex is there, and the thread that has it goes on -/
  waits : ∀ t, s.Blocked t → ∃ r u, s.WaitsFor t r ∧ r ∈ s.live ∧ (s.req r).lock = some u ∧
    s.pc u ≠ .idle ∧ ¬ s.Blocked u

/-- The lists, the reference counts and the memory agree. -/
structure RequestsAccounted (s : ReqState T R Fn) (xs ys : List R) : Prop where
  flight : s.links.Ring .list (xs.map .req)
  pending : s.links.Ring .interrupts (ys.map .req)
  nodup : (xs ++ ys).Nodup
  listed : ∀ r ∈ xs ++ ys, r ∈ s.live
  /-- a request is at one place at most -/
  once : ∀ p p' r, s.InPlace ys p r → s.InPlace ys p' r → p = p'
  /-- one reference for that place, and one for each thread that has found it -/
  counted : ∀ r ∈ s.live, ∃ n : Nat, Counts s.pc (fun v => v.curr = some r) n ∧
    (s.Kept ys r ∧ (s.req r).refCnt = n + 1 ∨ ¬ s.Kept ys r ∧ (s.req r).refCnt = n)
  /-- it is allocated exactly while there is one, and from the last one to `destroy_req` -/
  allocated : ∀ r, r ∈ s.live ↔ s.Kept ys r ∨ (∃ t, (s.pc t).curr = some r) ∨ s.Doomed r
  doomed : ∀ r ∈ s.live, (s.req r).refCnt = 0 ↔ s.Doomed r
  /-- nobody uses one that is not allocated -/
  freed : ∀ r, r ∉ s.live → ¬ s.Kept ys r ∧ ∀ t, (s.pc t).curr ≠ some r ∧ (s.pc t).used ≠ some r
  /-- when all functions have returned, only what the backend has and what is
  pending is left, with one reference and unlocked -/
  rest : (∀ t, s.pc t = .idle) → (∀ r, r ∈ s.live ↔ s.held r = true ∨ r ∈ ys) ∧
    (∀ r ∈ s.live, (s.req r).refCnt = 1 ∧ (s.req r).lock = none) ∧
    ∀ r ∈ xs, s.held r = true

/-- Interrupts reach their requests. -/
structure InterruptsDelivered [DecidableEq T] [DecidableEq R] (noInterrupt : Bool)
    (s : ReqState T R Fn) (xs ys : List R) : Prop where
  flight : s.links.Ring .list (xs.map .req)
  pending : s.links.Ring .interrupts (ys.map .req)
  /-- none is pending twice, or for a request in flight -/
  waiting : ∀ q ∈ ys, (∃ unique, (s.req q).u = .i unique) ∧
    (∀ q' ∈ ys, (s.req q').u = (s.req q).u → q' = q) ∧
    ∀ r ∈ xs, (s.req q).u ≠ .i (s.req r).unique
  /-- an interrupt finds its request, or one is pending afterwards -/
  finds : ∀ t q, s.pc t = .interrupt q → ∃ unique s', ∃ ys' : List R, (s.req q).u = .i unique ∧
    s.run noInterrupt t = some s' ∧ s'.links.Ring .interrupts (ys'.map .req) ∧
    ((∃ r ∈ xs, (s.req r).unique = unique ∧ s'.pc t = .lockCurr q r) ∨
      (∀ r ∈ xs, (s.req r).unique ≠ unique) ∧ ∃ q' ∈ ys', (s'.req q').u = .i unique)
  /-- a pending one stays, in its place, until a `check_interrupt` takes it: that of
  its own request, or one that finds none and takes the oldest -/
  stays : ∀ a s', s.BackendOk a → s.step noInterrupt a = some s' → ∃ ys' : List R,
    s'.links.Ring .interrupts (ys'.map .req) ∧ s.PendingStep s' ys a ys'
  /-- a request is told of the pending one before it is dispatched -/
  found : ∀ t r, s.pc t = .check r → ∃ s', s.run noInterrupt t = some s' ∧
    ((∃ q ∈ ys, (s.req q).u = .i (s.req r).unique) → (s'.req r).interrupted = true)
  /-- and is interrupted then until it is freed -/
  lasts : ∀ a s', s.step noInterrupt a = some s' → ∀ r ∈ s.live,
    (s.req r).interrupted = true → (s'.req r).interrupted = true
  /-- one in flight is told by the thread that has found it -/
  marked : ∀ t r, (s.pc t).marked = some r → (s.req r).interrupted = true
  /-- its function has been called then, or is about to be -/
  told : ∀ r, s.Told r
  /-- no two functions of one request run at a time -/
  alone : ∀ t u r, (s.pc t).calling = some r → (s.pc u).calling = some r → t = u

end Definitions

section Runs

variable {T R Fn : Type} [DecidableEq T] [DecidableEq R] {noInterrupt : Bool}
  {s s' : ReqState T R Fn} {xs ys : List R} {owner : R → Option (ReqPlace T)} {t u : T} {r : R}
  {a : ReqAct T R Fn}

/-! ## One step -/

/-- The next statement of a thread that does not wait is defined, and keeps the
invariant. -/
theorem ReqInv.run (h : ReqInv noInterrupt s xs ys owner) (hbusy : s.pc t ≠ .idle)
    (hfree : ¬ s.Blocked t) : ∃ s' ys', s.run noInterrupt t = some s' ∧
      ReqGood noInterrupt s' ys' ∧ s.PendingStep s' ys (.run t) ys' := by
  have kept : (∃ s', s.run noInterrupt t = some s' ∧ ReqGood noInterrupt s' ys) →
      ∃ s' ys', s.run noInterrupt t = some s' ∧ ReqGood noInterrupt s' ys' ∧
        s.PendingStep s' ys (.run t) ys' :=
    fun ⟨s', hrun, hgood⟩ => ⟨s', ys, hrun, hgood, .keep _⟩
  have good : (∃ s', s.run noInterrupt t = some s' ∧ ReqInv noInterrupt s' xs ys owner) →
      ∃ s' ys', s.run noInterrupt t = some s' ∧ ReqGood noInterrupt s' ys' ∧
        s.PendingStep s' ys (.run t) ys' :=
    fun ⟨s', hrun, hinv⟩ => ⟨s', ys, hrun, ⟨xs, owner, hinv⟩, .keep _⟩
  cases hpc : s.pc t with
  | idle => exact absurd hpc hbusy
  | check r =>
      obtain ⟨s', ys', hrun, hgood, hchecked⟩ := h.check hpc
      exact ⟨s', ys', hrun, hgood, .check t r ys' hpc hchecked⟩
  | dispatch r =>
      obtain ⟨s', hrun, hinv⟩ := h.dispatch hpc
      exact ⟨s', ys, hrun, ⟨xs, _, hinv⟩, .keep _⟩
  | free r next => exact kept (h.free hpc)
  | destroy r next => exact kept (h.destroy hpc)
  | interrupt q =>
      obtain ⟨unique, hu⟩ := (h.ok q).asks (.inr ⟨t, by rw [hpc]; rfl⟩)
      obtain ⟨s', ys', hrun, hgood, rfl | rfl, -⟩ := h.interrupt hpc hu
      · exact ⟨s', _, hrun, hgood, .keep _⟩
      · exact ⟨s', _, hrun, hgood, .come t q hpc⟩
  | lockCurr q c => exact good (h.lockCurr hpc (by simpa [ReqState.Blocked, hpc] using hfree))
  | mark q c => exact good (h.mark hpc)
  | callCurr q c f => exact good (h.callCurr hpc)
  | unlockCurr q c => exact good (h.unlockCurr hpc)
  | drop q c => exact kept (h.drop hpc)
  | lockReq r func => exact good (h.lockReq hpc (by simpa [ReqState.Blocked, hpc] using hfree))
  | setFunc r func => exact good (h.setFunc hpc)
  | test r func => exact good (h.test hpc)
  | callReq r f => exact good (h.callReq hpc)
  | unlockReq r => exact good (h.unlockReq hpc)
  | query r => exact good (h.query hpc)

theorem ReqInv.process (h : ReqInv noInterrupt s xs ys owner) (hidle : s.pc t = .idle)
    {unique : UInt64} {ch : Bool} {message : Message}
    (hs : s.process noInterrupt t r unique ch message = some s') : ReqGood noInterrupt s' ys := by
  by_cases hr : r ∈ s.live
  · cases message <;> simp [ReqState.process, ReqState.fuseLlAllocReq, hr] at hs
  · have hmem : ∀ l : List R, r ∈ r :: l := fun l => List.mem_cons_self
    have hset : ∀ y : R, y ≠ r → Function.update s.called r [] y = s.called y :=
      fun y hy => Function.update_of_ne hy ..
    cases message with
    | refused =>
        simp only [ReqState.process, ReqState.fuseLlAllocReq, hr, if_false, Option.map_some,
          Option.some.injEq] at hs
        subst hs
        exact ⟨xs, _, h.alloc hidle hr rfl rfl rfl ⟨rfl, rfl, rfl, rfl, rfl, hset⟩ .free⟩
    | interrupt target =>
        simp only [ReqState.process, ReqState.fuseLlAllocReq, hr, if_false, Option.bind_eq_bind,
          Option.bind_some, ReqState.modify, hmem, if_true, Option.pure_def] at hs
        split at hs
        · obtain rfl := Option.some.inj hs
          exact ⟨xs, _, h.alloc hidle hr rfl rfl rfl ⟨rfl, rfl, rfl, rfl, rfl, hset⟩ .free⟩
        · obtain rfl := Option.some.inj hs
          refine ⟨xs, _, h.alloc hidle hr
            (x := ⟨unique, 1, none, ch, false, .i target⟩) rfl rfl rfl
            ⟨rfl, ?_, rfl, rfl, rfl, hset⟩ (.interrupt target rfl)⟩
          simp [ReqState.setPc]
    | request =>
        simp only [ReqState.process, ReqState.fuseLlAllocReq, hr, if_false, Option.bind_eq_bind,
          Option.bind_some, Option.pure_def] at hs
        split at hs
        · obtain rfl := Option.some.inj hs
          exact ⟨xs, _, h.alloc hidle hr rfl rfl rfl
            ⟨rfl, rfl, rfl, rfl, rfl, hset⟩ .dispatch⟩
        · rename_i hmode
          obtain rfl := Option.some.inj hs
          exact ⟨xs, _, h.alloc hidle hr rfl rfl rfl ⟨rfl, rfl, rfl, rfl, rfl, hset⟩
            (.check rfl (by simpa using hmode))⟩

theorem ReqInv.step (h : ReqInv noInterrupt s xs ys owner) (hok : s.BackendOk a)
    (hs : s.step noInterrupt a = some s') :
    ∃ ys', ReqGood noInterrupt s' ys' ∧ s.PendingStep s' ys a ys' := by
  have henter : ∀ t (o : Option (ReqState T R Fn)), s.enter t o = some s' →
      s.pc t = .idle ∧ o = some s' := by
    intro t o ho
    unfold ReqState.enter at ho
    split at ho
    · exact ⟨‹_›, ho⟩
    · exact absurd ho (by simp)
  cases a with
  | process t r unique ch message =>
      obtain ⟨hidle, hs⟩ := henter t _ hs
      exact ⟨ys, h.process hidle hs, .keep _⟩
  | dummy t r unique =>
      obtain ⟨hidle, hs⟩ := henter t _ hs
      by_cases hr : r ∈ s.live
      · simp [ReqState.fuseLlAllocReq, hr] at hs
      · simp only [ReqState.fuseLlAllocReq, hr, if_false, Option.map_some,
          Option.some.injEq] at hs
        subst hs
        exact ⟨ys, ⟨xs, _, h.alloc hidle hr rfl rfl rfl ⟨rfl, rfl, rfl, rfl, rfl,
          fun y hy => Function.update_of_ne hy ..⟩ .dispatch⟩, .keep _⟩
  | reply t r =>
      obtain ⟨hidle, hs⟩ := henter t _ hs
      obtain rfl := Option.some.inj hs
      exact ⟨ys, ⟨xs, _, h.reply hidle hok.1 hok.2⟩, .keep _⟩
  | interruptFunc t r func =>
      obtain ⟨hidle, hs⟩ := henter t _ hs
      obtain rfl := Option.some.inj hs
      exact ⟨ys, ⟨xs, owner, h.use hidle hok .enterFunc rfl⟩, .keep _⟩
  | interrupted t r =>
      obtain ⟨hidle, hs⟩ := henter t _ hs
      obtain rfl := Option.some.inj hs
      exact ⟨ys, ⟨xs, owner, h.use hidle hok .enterQuery rfl⟩, .keep _⟩
  | run t =>
      simp only [ReqState.step] at hs
      split at hs
      · exact absurd hs (by simp)
      · rename_i hfree
        have hbusy : s.pc t ≠ .idle := fun hidle => by simp [ReqState.run, hidle] at hs
        obtain ⟨s'', ys', hrun, hgood, hpending⟩ := h.run hbusy hfree
        obtain rfl := Option.some.inj (hs.symm.trans hrun)
        exact ⟨ys', hgood, hpending⟩

/-! ## Whole runs -/

omit [DecidableEq T] [DecidableEq R] in
theorem Blocked.waitsFor (hb : s.Blocked t) :
    ∃ r, s.WaitsFor t r ∧ ((s.pc t).curr = some r ∨ (s.pc t).used = some r) := by
  unfold ReqState.Blocked at hb
  split at hb
  · rename_i q r hpc
    exact ⟨r, ⟨hb, .inl ⟨q, hpc⟩⟩, .inl (by rw [hpc]; rfl)⟩
  · rename_i r func hpc
    exact ⟨r, ⟨hb, .inr ⟨func, hpc⟩⟩, .inr (by rw [hpc]; rfl)⟩
  · exact hb.elim

theorem ReqInv.safe (h : ReqInv noInterrupt s xs ys owner) : RequestsSafe noInterrupt s where
  defined t hbusy hfree := by
    obtain ⟨s', -, hrun, -⟩ := h.run hbusy hfree
    exact ⟨s', hrun⟩
  waits t hb := by
    obtain ⟨r, hwaits, hhas⟩ := Blocked.waitsFor hb
    have hlive : r ∈ s.live := hhas.elim h.curr_live fun hu => (h.used_live hu).2
    obtain ⟨u, hu⟩ := Option.ne_none_iff_exists'.mp hwaits.1
    have hlocked := ((h.ok r).lock hlive u).mp hu
    refine ⟨r, u, hwaits, hlive, hu, ?_, ?_⟩
    · intro hidle
      rw [hidle] at hlocked
      exact absurd hlocked (by simp [ReqPc.locked])
    · cases hpc : s.pc u <;> simp_all [ReqPc.locked, ReqState.Blocked]

omit [DecidableEq T] [DecidableEq R] in
theorem ReqInv.kept_iff (h : ReqInv noInterrupt s xs ys owner) :
    s.Kept ys r ↔ Counted (owner r) := by
  constructor
  · rintro ⟨p, hcounted, hp⟩
    rwa [(h.places p r).mp hp]
  · intro hcounted
    obtain ⟨p, hp⟩ := Option.ne_none_iff_exists'.mp (counted_ne_none hcounted)
    exact ⟨p, hp ▸ hcounted, (h.places p r).mpr hp⟩

omit [DecidableEq T] [DecidableEq R] in
theorem ReqInv.doomed_owner (h : ReqInv noInterrupt s xs ys owner) :
    s.Doomed r ↔ ∃ t, owner r = some (.thread .doomed t) := by
  constructor
  · rintro ⟨t, next, hpc⟩
    exact ⟨t, h.atThread (by rw [hpc]; rfl)⟩
  · rintro ⟨t, hown⟩
    have hat : (s.pc t).part .doomed = some r := (h.places (.thread .doomed t) r).mpr hown
    cases hpc : s.pc t with
    | destroy r' next =>
        obtain rfl : r' = r := by simpa [hpc, ReqPc.part] using hat
        exact ⟨t, next, hpc⟩
    | _ => simp [hpc, ReqPc.part] at hat

omit [DecidableEq T] [DecidableEq R] in
/-- A place of the first reference counts, but for the way to `destroy_req`. -/
theorem ReqInv.ne_none_iff (h : ReqInv noInterrupt s xs ys owner) :
    owner r ≠ none ↔ s.Kept ys r ∨ s.Doomed r := by
  rw [h.kept_iff, h.doomed_owner]
  cases howner : owner r with
  | none => simp
  | some p =>
      refine iff_of_true (by simp) ?_
      rcases p with ⟨_ | _ | _, t⟩ | _ | _ <;> simp

omit [DecidableEq T] [DecidableEq R] in
/-- `ref_cnt` is zero on the way to `destroy_req` only. -/
theorem ReqInv.doomed_iff (h : ReqInv noInterrupt s xs ys owner) (hr : r ∈ s.live) :
    (s.req r).refCnt = 0 ↔ s.Doomed r := by
  constructor
  · intro hzero
    obtain ⟨n, hn, href⟩ := (h.ok r).count
    have href := href hr
    rw [hzero] at href
    have hnot : ¬ Counted (owner r) := fun hcounted => by
      rw [if_pos hcounted] at href
      omega
    rw [if_neg hnot] at href
    have hcurr : ¬ ∃ t, (s.pc t).curr = some r := fun ⟨t, ht⟩ => by
      have hpos := hn.pos ht
      omega
    refine (h.ne_none_iff.mp (((h.ok r).live.mp hr).resolve_right hcurr)).resolve_left ?_
    exact fun hkept => hnot (h.kept_iff.mp hkept)
  · intro hdoomed
    obtain ⟨t, hown⟩ := h.doomed_owner.mp hdoomed
    exact (h.ok r).doomed t hown

omit [DecidableEq T] [DecidableEq R] in
theorem ReqInv.accounted (h : ReqInv noInterrupt s xs ys owner) : RequestsAccounted s xs ys where
  flight := h.lists.flight
  pending := h.lists.pending
  nodup := by
    refine List.nodup_append.mpr ⟨(List.nodup_cons.mp h.lists.flight.nodup).2.of_map,
      (List.nodup_cons.mp h.lists.pending.nodup).2.of_map, ?_⟩
    rintro r hxs q hys rfl
    exact (h.lists.disjoint (r := r)).1 hxs hys
  listed r hr := (List.mem_append.mp hr).elim h.flight_live h.pending_live
  once p p' r hp hp' := h.places.exclusive hp hp'
  counted r hr := by
    obtain ⟨n, hn, href⟩ := (h.ok r).count
    refine ⟨n, hn, ?_⟩
    rw [h.kept_iff, href hr]
    by_cases hcounted : Counted (owner r)
    · exact .inl ⟨hcounted, by rw [if_pos hcounted]⟩
    · exact .inr ⟨hcounted, by rw [if_neg hcounted, Int.add_zero]⟩
  allocated r := by
    rw [(h.ok r).live, h.ne_none_iff, or_assoc, or_comm (a := s.Doomed r)]
  doomed r hr := h.doomed_iff hr
  freed r hr := by
    obtain ⟨hnone, -, -, hnot⟩ := h.unknown hr
    refine ⟨fun hkept => ?_, fun t => ⟨(hnot t).1, (hnot t).2.1⟩⟩
    have hcounted := h.kept_iff.mp hkept
    rw [hnone] at hcounted
    exact hcounted
  rest hidle := by
    have hcurr : ∀ t r, (s.pc t).curr ≠ some r := fun t r => by
      rw [hidle t]
      simp [ReqPc.curr]
    have hown : ∀ r, owner r ≠ none ↔ s.held r = true ∨ r ∈ ys := by
      intro r
      constructor
      · intro hne
        obtain ⟨p, hp⟩ := Option.ne_none_iff_exists'.mp hne
        have hat := (h.places p r).mpr hp
        cases p with
        | thread part t =>
            have hpart : (s.pc t).part part = some r := hat
            rw [hidle t] at hpart
            cases part <;> exact absurd hpart (by simp [ReqPc.part])
        | backend => exact .inl hat
        | pending => exact .inr hat
      · rintro (hheld | hys)
        · rw [(h.places .backend r).mp hheld]
          simp
        · rw [h.pending_owner hys]
          simp
    have hlive : ∀ r, r ∈ s.live ↔ owner r ≠ none := fun r => by
      rw [(h.ok r).live]
      exact or_iff_left (not_exists.mpr fun t => hcurr t r)
    refine ⟨fun r => (hlive r).trans (hown r), fun r hr => ⟨?_, ?_⟩, fun r hr => ?_⟩
    · obtain ⟨n, hn, href⟩ := (h.ok r).count
      have hzero : n = 0 := by
        by_contra hne
        obtain ⟨t, ht⟩ := hn.exists_of_pos (Nat.pos_of_ne_zero hne)
        exact hcurr t r ht
      have hcounted : Counted (owner r) := by
        rcases (hown r).mp ((hlive r).mp hr) with hheld | hys
        · rw [(h.places .backend r).mp hheld]
          trivial
        · rw [h.pending_owner hys]
          trivial
      rw [href hr, hzero, if_pos hcounted]
      rfl
    · refine Option.eq_none_iff_forall_ne_some.mpr fun t ht => ?_
      have hlocked := ((h.ok r).lock hr t).mp ht
      rw [hidle t] at hlocked
      exact absurd hlocked (by simp [ReqPc.locked])
    · rcases ((h.ok r).flight hr).2 with hback | ⟨t, hnext⟩ | ⟨t, next, hfree⟩
      · exact (h.places .backend r).mpr hback
      · have hat := (h.places (.thread .next t) r).mpr hnext
        have hpart : (s.pc t).part .next = some r := hat
        rw [hidle t] at hpart
        exact absurd hpart (by simp [ReqPc.part])
      · rw [hidle t] at hfree
        exact absurd hfree (by simp)

omit [DecidableEq T] [DecidableEq R] in
/-- A function of a request runs under its lock. -/
theorem ReqInv.calling (h : ReqInv noInterrupt s xs ys owner) (hc : (s.pc t).calling = some r) :
    (s.req r).lock = some t := by
  have hlocked : (s.pc t).locked = some r := by
    cases hpc : s.pc t <;> simp_all [ReqPc.calling, ReqPc.locked]
  have hlive : r ∈ s.live :=
    (ReqPc.locked_cases hlocked).elim h.curr_live fun hu => (h.used_live hu).2
  exact ((h.ok r).lock hlive t).mpr hlocked

theorem ReqInv.delivered (h : ReqInv noInterrupt s xs ys owner) :
    InterruptsDelivered noInterrupt s xs ys where
  flight := h.lists.flight
  pending := h.lists.pending
  waiting q hq := ⟨(h.ok q).asks (.inl hq),
    fun _ hq' heq => List.inj_on_of_nodup_map h.apart.targets hq' hq heq, h.apart.flight q hq⟩
  finds t q hpc := by
    obtain ⟨unique, hu⟩ := (h.ok q).asks (.inr ⟨t, by rw [hpc]; rfl⟩)
    obtain ⟨s', ys', hrun, ⟨_, _, hinv⟩, -, hwhere⟩ := h.interrupt hpc hu
    exact ⟨unique, s', ys', hu, hrun, hinv.lists.pending, hwhere⟩
  stays a s' hok hs := by
    obtain ⟨ys', ⟨_, _, hinv⟩, hpending⟩ := h.step hok hs
    exact ⟨ys', hinv.lists.pending, hpending⟩
  found t r hpc := by
    obtain ⟨s', ys', hrun, -, hchecked⟩ := h.check hpc
    refine ⟨s', hrun, fun ⟨q, hq, hu⟩ => ?_⟩
    cases hchecked with
    | usedUp c hc hu' hgone hint hnext => exact hint
    | thrownOut c ys' hys hnone hnext => exact absurd hu (hnone q hq)
    | none hnil hnext => exact absurd hq (by simp [hnil])
  lasts _ _ hs _ hr hint := ReqState.step_lasts hs hr hint
  marked t r hr := (h.ok r).marked t hr
  told r := (h.ok r).told
  alone t u r ht hu := Option.some.inj ((h.calling ht).symm.trans (h.calling hu))

end Runs

/-- The interrupt of request 7 comes first and is used up when the request does;
what the backend registers later is called at once, and nothing is left. -/
example :
    (TSys.exec (ReqState.step false)
      (.boot (fun _ => ⟨0, 0, none, false, false, .ni none⟩) ⟨id, id⟩)
      ([.process () 0 9 false (.interrupt 7), .run (), .process () 1 7 false .request, .run (),
        .run (), .interruptFunc () 1 (some "stop"), .run (), .run (), .run (), .run (), .run (),
        .reply () 1, .run (), .run ()] : List (ReqAct Unit Nat String))).map
      (fun s => (s.live, s.called 1, s.links.next .list)) = some ([], ["stop"], .list) := by
  decide

end UkfsFuse
