import UkfsFuse.Logic.Interrupt

/-!
# Steps that hand on no request

A thread goes on in a function and keeps the requests it has. The next statement
is defined, and the invariant holds after it.
-/

namespace UkfsFuse

open UkfsFuse.Core

variable {T R Fn : Type} [DecidableEq T] [DecidableEq R] {noInterrupt : Bool}
  {s s' : ReqState T R Fn} {xs ys : List R} {owner : R → Option (ReqPlace T)} {t u : T}
  {v : ReqPc R Fn} {r c q : R}

omit [DecidableEq R] in
theorem places_same (h : Owned (s.InPlace ys) owner) (hpc : s'.pc = Function.update s.pc t v)
    (hpart : ∀ part, v.part part = (s.pc t).part part) (hheld : s'.held = s.held) :
    Owned (s'.InPlace ys) owner := by
  refine h.same fun p r => ?_
  cases p with
  | thread part u =>
      show (s'.pc u).part part = some r ↔ (s.pc u).part part = some r
      rw [hpc]
      by_cases hut : u = t
      · subst hut
        rw [Function.update_self, hpart]
      · rw [Function.update_of_ne hut]
  | backend => simp [ReqState.InPlace, hheld]
  | pending => rfl

omit [DecidableEq R] in
theorem LockOk.same {live : List R} {req req' : R → LlReq T Fn} {pc : T → ReqPc R Fn}
    (h : LockOk live req pc) (hlock : ∀ r, (req' r).lock = (req r).lock)
    (hv : v.locked = (pc t).locked) : LockOk live req' (Function.update pc t v) := by
  intro r hr u
  rw [hlock]
  by_cases hut : u = t
  · subst hut
    rw [Function.update_self, hv]
    exact h r hr u
  · rw [Function.update_of_ne hut]
    exact h r hr u

theorem LockOk.acquire {live : List R} {req : R → LlReq T Fn} {pc : T → ReqPc R Fn}
    (h : LockOk live req pc) {x : LlReq T Fn} (hfree : (req r).lock = none)
    (hx : x.lock = some t) (ht : (pc t).locked = none) (hv : v.locked = some r) :
    LockOk live (Function.update req r x) (Function.update pc t v) := by
  intro y hy u
  by_cases hut : u = t
  · subst hut
    rw [Function.update_self, hv]
    by_cases hyr : y = r
    · subst hyr
      simp [hx]
    · rw [Function.update_of_ne hyr, h y hy u, ht]
      simp [Ne.symm hyr]
  · rw [Function.update_of_ne hut, ← h y hy u]
    by_cases hyr : y = r
    · subst hyr
      simp [hx, hfree, Ne.symm hut]
    · rw [Function.update_of_ne hyr]

theorem LockOk.release {live : List R} {req : R → LlReq T Fn} {pc : T → ReqPc R Fn}
    (h : LockOk live req pc) {x : LlReq T Fn} (hr : r ∈ live) (hx : x.lock = none)
    (ht : (pc t).locked = some r) (hv : v.locked = none) :
    LockOk live (Function.update req r x) (Function.update pc t v) := by
  have hmine := (h r hr t).mpr ht
  intro y hy u
  by_cases hut : u = t
  · subst hut
    rw [Function.update_self, hv]
    by_cases hyr : y = r
    · subst hyr
      simp [hx]
    · rw [Function.update_of_ne hyr, h y hy u, ht]
      simp [Ne.symm hyr]
  · rw [Function.update_of_ne hut, ← h y hy u]
    by_cases hyr : y = r
    · subst hyr
      simp [hx, hmine, Ne.symm hut]
    · rw [Function.update_of_ne hyr]

/-- Fields a step may write without a second look at lists and references. -/
structure SameReq (x y : LlReq T Fn) : Prop where
  unique : y.unique = x.unique
  refCnt : y.refCnt = x.refCnt
  ch : y.ch = x.ch
  interrupted : x.interrupted = true → y.interrupted = true

omit [DecidableEq T] [DecidableEq R] in
theorem SameReq.refl (x : LlReq T Fn) : SameReq x x := ⟨rfl, rfl, rfl, id⟩

omit [DecidableEq T] in
theorem sameReq_update {x : LlReq T Fn} (hx : SameReq (s.req r) x) (y : R) :
    SameReq (s.req y) (Function.update s.req r x y) := by
  by_cases hy : y = r
  · subst hy
    simpa using hx
  · simpa [hy] using SameReq.refl _

/-- From one place to the next in a function that hands on no request. -/
inductive ReqPc.Goes : ReqPc R Fn → ReqPc R Fn → Prop
  | lockCurr {q c : R} : Goes (.lockCurr q c) (.mark q c)
  | call {q c : R} {f : Fn} : Goes (.mark q c) (.callCurr q c f)
  | mark {q c : R} : Goes (.mark q c) (.unlockCurr q c)
  | callCurr {q c : R} {f : Fn} : Goes (.callCurr q c f) (.unlockCurr q c)
  | unlockCurr {q c : R} : Goes (.unlockCurr q c) (.drop q c)
  | enterFunc {r : R} {func : Option Fn} : Goes .idle (.lockReq r func)
  | lockReq {r : R} {func : Option Fn} : Goes (.lockReq r func) (.setFunc r func)
  | setFunc {r : R} {func : Option Fn} : Goes (.setFunc r func) (.test r func)
  | callNow {r : R} {func : Option Fn} {f : Fn} : Goes (.test r func) (.callReq r f)
  | test {r : R} {func : Option Fn} : Goes (.test r func) (.unlockReq r)
  | callReq {r : R} {f : Fn} : Goes (.callReq r f) (.unlockReq r)
  | unlockReq {r : R} : Goes (.unlockReq r) .idle
  | enterQuery {r : R} : Goes .idle (.query r)
  | query {r : R} : Goes (.query r) .idle

namespace ReqPc.Goes

variable {w v : ReqPc R Fn}

omit [DecidableEq R] in
theorem part (h : w.Goes v) (part : ReqPart) : v.part part = w.part part := by
  cases h <;> cases part <;> rfl

omit [DecidableEq R] in
theorem curr (h : w.Goes v) : v.curr = w.curr := by cases h <;> rfl

omit [DecidableEq R] in
theorem asking (h : w.Goes v) : v.asking = w.asking := by cases h <;> rfl

omit [DecidableEq R] in
theorem not_check (h : w.Goes v) (r : R) : v ≠ .check r := by cases h <;> simp

omit [DecidableEq R] in
theorem not_free (h : w.Goes v) (r : R) (next : Option R) : w ≠ .free r next := by
  cases h <;> simp

end ReqPc.Goes

/-- The thread `t` goes on and keeps the requests it has. -/
structure QuietStep (s s' : ReqState T R Fn) (t : T) (v : ReqPc R Fn) : Prop where
  live : s'.live = s.live
  links : s'.links = s.links
  held : s'.held = s.held
  pc : s'.pc = Function.update s.pc t v
  goes : (s.pc t).Goes v
  req : ∀ r, SameReq (s.req r) (s'.req r)

omit [DecidableEq R] in
theorem ReqInv.quiet (h : ReqInv noInterrupt s xs ys owner) (hq : QuietStep s s' t v)
    (hlock : LockOk s.live s'.req s'.pc) (hused : ∀ r, v.used = some r → owner r = some .backend)
    (hu : ∀ r, (s'.req r).u = (s.req r).u ∨
      owner r = some .backend ∧ ∃ func, (s'.req r).u = .ni func)
    (hmarked : ∀ r, v.marked = some r → (s'.req r).interrupted = true)
    (htold : ∀ r, s'.Told r) : ReqInv noInterrupt s' xs ys owner := by
  have hkeep : ∀ r, owner r ≠ some .backend → (s'.req r).u = (s.req r).u := fun r hne =>
    (hu r).resolve_right fun hback => hne hback.1
  have hpending : ∀ r ∈ ys, (s'.req r).u = (s.req r).u := fun r hr =>
    hkeep r (by rw [h.pending_owner hr]; simp)
  have hcurr : ∀ u r, (s'.pc u).curr = some r ↔ (s.pc u).curr = some r := fun u r =>
    ⟨(pc_view hq.pc (p := fun w => w.curr = some r)).1 (by rw [hq.goes.curr]; exact id),
      (pc_view hq.pc (p := fun w => w.curr = some r)).2 (by rw [hq.goes.curr]; exact id)⟩
  have hok : ∀ r, ReqOk noInterrupt s' xs ys (owner r) r := fun r => {
    flight := fun hr => by
      obtain ⟨hno, hwhere⟩ := (h.ok r).flight hr
      refine ⟨hno, hwhere.imp_right (Or.imp_right fun ⟨u, next, hfree⟩ => ⟨u, next, ?_⟩)⟩
      exact (pc_view hq.pc (p := fun w => w = .free r next)).2
        (fun hw => absurd hw (hq.goes.not_free r next)) hfree
    live := by
      rw [hq.live, (h.ok r).live]
      simp only [hcurr]
    count := by
      obtain ⟨n, hn, href⟩ := (h.ok r).count
      refine ⟨n, ?_, fun hr => ?_⟩
      · rw [hq.pc]
        exact hn.stay (by rw [hq.goes.curr])
      · rw [(hq.req r).refCnt]
        exact href (by rwa [hq.live] at hr)
    doomed := fun u hown => by rw [(hq.req r).refCnt]; exact (h.ok r).doomed u hown
    lock := by rw [hq.live]; exact hlock r
    uses := fun u hur => by
      by_cases hut : u = t
      · subst hut
        rw [hq.pc, Function.update_self] at hur
        exact hused r hur
      · rw [hq.pc, Function.update_of_ne hut] at hur
        exact (h.ok r).uses u hur
    ch := by
      rw [hq.live, (hq.req r).ch]
      exact (h.ok r).ch
    asks := fun hasks => by
      have hold : r ∈ ys ∨ ∃ u, (s.pc u).asking = some r := hasks.imp_right fun ⟨u, hat⟩ =>
        ⟨u, (pc_view hq.pc (p := fun w => w.asking = some r)).1
          (by rw [hq.goes.asking]; exact id) hat⟩
      have hne : owner r ≠ some .backend := by
        rcases hold with hmem | ⟨u, hat⟩
        · rw [h.pending_owner hmem]; simp
        · rw [h.atThread (ReqPc.asking_own hat)]; simp
      rw [hkeep r hne]
      exact (h.ok r).asks hold
    normal := fun hnormal => by
      simp only [hcurr] at hnormal
      rcases hu r with heq | ⟨-, hni⟩
      · rw [heq]
        exact (h.ok r).normal hnormal
      · exact hni
    fresh := fun u hat => by
      have hold : s.pc u = .check r := (pc_view hq.pc (p := fun w => w = .check r)).1
        (fun hv => absurd hv (hq.goes.not_check r)) hat
      have hown := h.atThread (t := u) (p := .own) (r := r) (by rw [hold]; rfl)
      rw [hkeep r (by rw [hown]; simp)]
      exact (h.ok r).fresh u hold
    marked := fun u hur => by
      by_cases hut : u = t
      · subst hut
        rw [hq.pc, Function.update_self] at hur
        exact hmarked r hur
      · rw [hq.pc, Function.update_of_ne hut] at hur
        exact (hq.req r).interrupted ((h.ok r).marked u hur)
    told := htold r }
  exact {
    lists := by rw [hq.links]; exact h.lists
    places := places_same h.places hq.pc hq.goes.part hq.held
    nodup := by rw [hq.live]; exact h.nodup
    ok := hok
    apart := by
      refine ⟨?_, fun q hqy r hr => ?_⟩
      · rw [List.map_congr_left hpending]
        exact h.apart.targets
      · rw [hpending q hqy, (hq.req r).unique]
        exact h.apart.flight q hqy r hr }

omit [DecidableEq R] in
/-- Nothing that was to be told has changed. -/
theorem told_keep (h : s.Told r) (hlive : s'.live = s.live) (hpc : s'.pc = Function.update s.pc t v)
    (hreq : ∀ r, (s'.req r).interrupted = (s.req r).interrupted ∧ (s'.req r).u = (s.req r).u)
    (hcalled : s'.called = s.called) (htest : ∀ r func, s.pc t ≠ .test r func) : s'.Told r := by
  intro hr hint f hf
  rw [(hreq r).1] at hint
  rw [(hreq r).2] at hf
  rw [hlive] at hr
  rw [hcalled]
  refine (h hr hint f hf).imp_right (Exists.imp fun u hat => ?_)
  have hut : u ≠ t := fun heq => htest r (some f) (heq ▸ hat)
  rw [hpc, Function.update_of_ne hut, hat]

omit [DecidableEq T] in
theorem fields_update {x : LlReq T Fn} (hx : x.interrupted = (s.req r).interrupted)
    (hu : x.u = (s.req r).u) (y : R) :
    (Function.update s.req r x y).interrupted = (s.req y).interrupted ∧
      (Function.update s.req r x y).u = (s.req y).u := by
  by_cases hy : y = r
  · subst hy
    simpa using ⟨hx, hu⟩
  · simp [hy]

omit [DecidableEq T] in
theorem lock_update {x : LlReq T Fn} (hx : x.lock = (s.req r).lock) (y : R) :
    (Function.update s.req r x y).lock = (s.req y).lock := by
  by_cases hy : y = r
  · subst hy
    simpa using hx
  · simp [hy]

/-! ### `find_interrupted` -/

theorem ReqInv.lockCurr (h : ReqInv noInterrupt s xs ys owner) (hpc : s.pc t = .lockCurr q c)
    (hfree : (s.req c).lock = none) :
    ∃ s', s.run noInterrupt t = some s' ∧ ReqInv noInterrupt s' xs ys owner := by
  have hlive : c ∈ s.live := h.curr_live (t := t) (by rw [hpc]; rfl)
  have hfields := fields_update (s := s) (r := c) (x := { s.req c with lock := some t }) rfl rfl
  refine ⟨_, by simp only [ReqState.run, hpc, ReqState.modify, hlive, if_true]; rfl, ?_⟩
  refine h.quiet (t := t) (v := .mark q c) ⟨rfl, rfl, rfl, rfl, hpc ▸ .lockCurr, ?_⟩ ?_ ?_ ?_ ?_ ?_
  · exact sameReq_update ⟨rfl, rfl, rfl, id⟩
  · exact h.lock.acquire hfree rfl (by rw [hpc]; rfl) rfl
  · simp [ReqPc.used]
  · exact fun y => .inl (hfields y).2
  · simp [ReqPc.marked]
  · exact fun y => told_keep (h.ok y).told rfl rfl hfields rfl (by simp [hpc])

theorem ReqInv.mark (h : ReqInv noInterrupt s xs ys owner) (hpc : s.pc t = .mark q c) :
    ∃ s', s.run noInterrupt t = some s' ∧ ReqInv noInterrupt s' xs ys owner := by
  have hlive : c ∈ s.live := h.curr_live (t := t) (by rw [hpc]; rfl)
  obtain ⟨func, hfunc⟩ := (h.ok c).normal (.inr ⟨t, by rw [hpc]; rfl⟩)
  have hu : ∀ y, (Function.update s.req c { s.req c with interrupted := true } y).u =
      (s.req y).u := by
    intro y
    by_cases hy : y = c
    · subst hy; simp
    · simp [hy]
  have hquiet : ∀ (v : ReqPc R Fn) called, (ReqPc.mark q c).Goes v →
      (∀ f, func = some f → f ∈ called c) → (∀ y, y ≠ c → called y = s.called y) →
      ReqInv noInterrupt { s.setPc t v with
        req := Function.update s.req c { s.req c with interrupted := true }
        called := called } xs ys owner := by
    intro v called hv hnow hcalled
    refine h.quiet (t := t) (v := v) ⟨rfl, rfl, rfl, rfl, hpc ▸ hv, ?_⟩ ?_ ?_ ?_ ?_ ?_
    · exact sameReq_update ⟨rfl, rfl, rfl, fun _ => rfl⟩
    · refine h.lock.same (lock_update rfl) ?_
      rw [hpc]
      cases hv <;> rfl
    · cases hv <;> simp [ReqPc.used]
    · exact fun y => .inl (hu y)
    · intro y hy
      cases hv <;> obtain rfl := Option.some.inj hy <;> simp
    · intro y hy hint f hf
      rw [hu y] at hf
      by_cases hyc : y = c
      · subst hyc
        rw [hfunc] at hf
        exact .inl (hnow f (ReqUnion.ni.inj hf))
      · simp only [Function.update_of_ne hyc] at hint
        show f ∈ called y ∨ _
        rw [hcalled y hyc]
        refine ((h.ok y).told hy hint f hf).imp_right (Exists.imp fun u hat => ?_)
        have hut : u ≠ t := by
          rintro rfl
          rw [hpc] at hat
          exact absurd hat (by simp)
        simp [ReqState.setPc, hut, hat]
  cases func with
  | none =>
      refine ⟨_, ?_, hquiet (.unlockCurr q c) s.called .mark (by simp) fun _ _ => rfl⟩
      simp [ReqState.run, hpc, ReqState.markCurr, ReqState.modify, ReqState.get, hlive, hfunc,
        ReqUnion.niFunc, ReqState.setPc]
  | some f =>
      refine ⟨_, ?_, hquiet (.callCurr q c f)
        (Function.update s.called c (s.called c ++ [f])) .call (by simp)
        fun y hy => by simp [hy]⟩
      simp [ReqState.run, hpc, ReqState.markCurr, ReqState.modify, ReqState.get, hlive, hfunc,
        ReqUnion.niFunc, ReqState.setPc]

theorem ReqInv.callCurr (h : ReqInv noInterrupt s xs ys owner) {f : Fn}
    (hpc : s.pc t = .callCurr q c f) :
    ∃ s', s.run noInterrupt t = some s' ∧ ReqInv noInterrupt s' xs ys owner := by
  refine ⟨_, by simp only [ReqState.run, hpc]; rfl, ?_⟩
  refine h.quiet (t := t) (v := .unlockCurr q c) ⟨rfl, rfl, rfl, rfl, hpc ▸ .callCurr, ?_⟩
    ?_ ?_ ?_ ?_ ?_
  · exact fun y => .refl _
  · exact h.lock.same (fun _ => rfl) (by rw [hpc]; rfl)
  · simp [ReqPc.used]
  · exact fun y => .inl rfl
  · exact fun y hy => (h.ok y).marked t (by rw [hpc]; exact hy)
  · exact fun y => told_keep (h.ok y).told rfl rfl (fun _ => ⟨rfl, rfl⟩) rfl (by simp [hpc])

theorem ReqInv.unlockCurr (h : ReqInv noInterrupt s xs ys owner) (hpc : s.pc t = .unlockCurr q c) :
    ∃ s', s.run noInterrupt t = some s' ∧ ReqInv noInterrupt s' xs ys owner := by
  have hlive : c ∈ s.live := h.curr_live (t := t) (by rw [hpc]; rfl)
  have hfields := fields_update (s := s) (r := c) (x := { s.req c with lock := none }) rfl rfl
  refine ⟨_, by simp only [ReqState.run, hpc, ReqState.modify, hlive, if_true]; rfl, ?_⟩
  refine h.quiet (t := t) (v := .drop q c)
    ⟨rfl, rfl, rfl, rfl, hpc ▸ .unlockCurr, ?_⟩ ?_ ?_ ?_ ?_ ?_
  · exact sameReq_update ⟨rfl, rfl, rfl, id⟩
  · exact h.lock.release hlive rfl (by rw [hpc]; rfl) rfl
  · simp [ReqPc.used]
  · exact fun y => .inl (hfields y).2
  · exact fun y hy => (hfields y).1.trans ((h.ok y).marked t (by rw [hpc]; exact hy))
  · exact fun y => told_keep (h.ok y).told rfl rfl hfields rfl (by simp [hpc])

/-! ### `fuse_req_interrupt_func` and `fuse_req_interrupted` -/

theorem ReqInv.lockReq (h : ReqInv noInterrupt s xs ys owner) {func : Option Fn}
    (hpc : s.pc t = .lockReq r func) (hfree : (s.req r).lock = none) :
    ∃ s', s.run noInterrupt t = some s' ∧ ReqInv noInterrupt s' xs ys owner := by
  obtain ⟨hown, hlive⟩ := h.used_live (t := t) (r := r) (by rw [hpc]; rfl)
  have hfields := fields_update (s := s) (r := r) (x := { s.req r with lock := some t }) rfl rfl
  refine ⟨_, by simp only [ReqState.run, hpc, ReqState.modify, hlive, if_true]; rfl, ?_⟩
  refine h.quiet (t := t) (v := .setFunc r func) ⟨rfl, rfl, rfl, rfl, hpc ▸ .lockReq, ?_⟩
    ?_ ?_ ?_ ?_ ?_
  · exact sameReq_update ⟨rfl, rfl, rfl, id⟩
  · exact h.lock.acquire hfree rfl (by rw [hpc]; rfl) rfl
  · exact fun y hy => Option.some.inj hy ▸ hown
  · exact fun y => .inl (hfields y).2
  · simp [ReqPc.marked]
  · exact fun y => told_keep (h.ok y).told rfl rfl hfields rfl (by simp [hpc])

theorem ReqInv.setFunc (h : ReqInv noInterrupt s xs ys owner) {func : Option Fn}
    (hpc : s.pc t = .setFunc r func) :
    ∃ s', s.run noInterrupt t = some s' ∧ ReqInv noInterrupt s' xs ys owner := by
  obtain ⟨hown, hlive⟩ := h.used_live (t := t) (r := r) (by rw [hpc]; rfl)
  refine ⟨_, by simp only [ReqState.run, hpc, ReqState.modify, hlive, if_true]; rfl, ?_⟩
  refine h.quiet (t := t) (v := .test r func)
    ⟨rfl, rfl, rfl, rfl, hpc ▸ .setFunc, ?_⟩ ?_ ?_ ?_ ?_ ?_
  · exact sameReq_update ⟨rfl, rfl, rfl, id⟩
  · exact h.lock.same (lock_update rfl) (by rw [hpc]; rfl)
  · exact fun y hy => Option.some.inj hy ▸ hown
  · intro y
    by_cases hy : y = r
    · subst hy
      exact .inr ⟨hown, func, by simp [ReqState.setPc]⟩
    · exact .inl (by simp [ReqState.setPc, hy])
  · simp [ReqPc.marked]
  · -- the `if` is still to come
    intro y hy hint f hf
    by_cases hyr : y = r
    · subst hyr
      simp only [ReqState.setPc, Function.update_self] at hf
      obtain rfl := ReqUnion.ni.inj hf
      exact .inr ⟨t, by simp [ReqState.setPc]⟩
    · simp only [ReqState.setPc, Function.update_of_ne hyr] at hint hf
      refine ((h.ok y).told hy hint f hf).imp_right (Exists.imp fun u hat => ?_)
      have hut : u ≠ t := by
        rintro rfl
        rw [hpc] at hat
        exact absurd hat (by simp)
      simp [ReqState.setPc, hut, hat]

theorem ReqInv.test (h : ReqInv noInterrupt s xs ys owner) {func : Option Fn}
    (hpc : s.pc t = .test r func) :
    ∃ s', s.run noInterrupt t = some s' ∧ ReqInv noInterrupt s' xs ys owner := by
  obtain ⟨hown, hlive⟩ := h.used_live (t := t) (r := r) (by rw [hpc]; rfl)
  have hquiet : ∀ (v : ReqPc R Fn) called, (ReqPc.test r func).Goes v →
      (∀ y f, f ∈ s.called y → f ∈ called y) →
      (∀ f, (s.req r).interrupted = true → func = some f → f ∈ called r) →
      ReqInv noInterrupt { s.setPc t v with called := called } xs ys owner := by
    intro v called hv hold hnow
    refine h.quiet (t := t) (v := v) ⟨rfl, rfl, rfl, rfl, hpc ▸ hv, ?_⟩ ?_ ?_ ?_ ?_ ?_
    · exact fun y => .refl _
    · refine h.lock.same (fun _ => rfl) ?_
      rw [hpc]
      cases hv <;> rfl
    · intro y hy
      have hyr : r = y := by
        cases hv <;> exact Option.some.inj hy
      exact hyr ▸ hown
    · exact fun y => .inl rfl
    · cases hv <;> simp [ReqPc.marked]
    · intro y hy hint f hf
      rcases (h.ok y).told hy hint f hf with hin | ⟨u, hat⟩
      · exact .inl (hold y f hin)
      · by_cases hut : u = t
        · subst hut
          rw [hpc] at hat
          obtain ⟨rfl, hfunc⟩ := ReqPc.test.inj hat
          exact .inl (hnow f hint hfunc)
        · exact .inr ⟨u, by simp [ReqState.setPc, hut, hat]⟩
  cases hint : (s.req r).interrupted with
  | false =>
      refine ⟨_, ?_, hquiet (.unlockReq r) s.called .test (fun _ _ h => h)
        fun f h => absurd h (by simp [hint])⟩
      cases func <;>
        simp [ReqState.run, hpc, ReqState.testReq, ReqState.get, hlive, hint, ReqState.setPc]
  | true =>
      cases func with
      | none =>
          refine ⟨_, ?_, hquiet (.unlockReq r) s.called .test (fun _ _ h => h) (by simp)⟩
          simp [ReqState.run, hpc, ReqState.testReq, ReqState.get, hlive, ReqState.setPc]
      | some f =>
          refine ⟨_, ?_, hquiet (.callReq r f) (Function.update s.called r (s.called r ++ [f]))
            .callNow (fun y g hg => ?_) (by simp)⟩
          · simp [ReqState.run, hpc, ReqState.testReq, ReqState.get, hlive, hint, ReqState.setPc]
          · by_cases hy : y = r
            · subst hy
              simp [hg]
            · simpa [hy] using hg

theorem ReqInv.callReq (h : ReqInv noInterrupt s xs ys owner) {f : Fn}
    (hpc : s.pc t = .callReq r f) :
    ∃ s', s.run noInterrupt t = some s' ∧ ReqInv noInterrupt s' xs ys owner := by
  obtain ⟨hown, hlive⟩ := h.used_live (t := t) (r := r) (by rw [hpc]; rfl)
  refine ⟨_, by simp only [ReqState.run, hpc]; rfl, ?_⟩
  refine h.quiet (t := t) (v := .unlockReq r)
    ⟨rfl, rfl, rfl, rfl, hpc ▸ .callReq, ?_⟩ ?_ ?_ ?_ ?_ ?_
  · exact fun y => .refl _
  · exact h.lock.same (fun _ => rfl) (by rw [hpc]; rfl)
  · exact fun y hy => Option.some.inj hy ▸ hown
  · exact fun y => .inl rfl
  · simp [ReqPc.marked]
  · exact fun y => told_keep (h.ok y).told rfl rfl (fun _ => ⟨rfl, rfl⟩) rfl (by simp [hpc])

theorem ReqInv.unlockReq (h : ReqInv noInterrupt s xs ys owner) (hpc : s.pc t = .unlockReq r) :
    ∃ s', s.run noInterrupt t = some s' ∧ ReqInv noInterrupt s' xs ys owner := by
  obtain ⟨hown, hlive⟩ := h.used_live (t := t) (r := r) (by rw [hpc]; rfl)
  have hfields := fields_update (s := s) (r := r) (x := { s.req r with lock := none }) rfl rfl
  refine ⟨_, by simp only [ReqState.run, hpc, ReqState.modify, hlive, if_true]; rfl, ?_⟩
  refine h.quiet (t := t) (v := .idle) ⟨rfl, rfl, rfl, rfl, hpc ▸ .unlockReq, ?_⟩ ?_ ?_ ?_ ?_ ?_
  · exact sameReq_update ⟨rfl, rfl, rfl, id⟩
  · exact h.lock.release hlive rfl (by rw [hpc]; rfl) rfl
  · simp [ReqPc.used]
  · exact fun y => .inl (hfields y).2
  · simp [ReqPc.marked]
  · exact fun y => told_keep (h.ok y).told rfl rfl hfields rfl (by simp [hpc])

theorem ReqInv.query (h : ReqInv noInterrupt s xs ys owner) (hpc : s.pc t = .query r) :
    ∃ s', s.run noInterrupt t = some s' ∧ ReqInv noInterrupt s' xs ys owner := by
  obtain ⟨hown, hlive⟩ := h.used_live (t := t) (r := r) (by rw [hpc]; rfl)
  refine ⟨s.setPc t .idle, by simp [ReqState.run, hpc, ReqState.get, hlive], ?_⟩
  refine h.quiet (t := t) (v := .idle) ⟨rfl, rfl, rfl, rfl, hpc ▸ .query, ?_⟩ ?_ ?_ ?_ ?_ ?_
  · exact fun y => .refl _
  · exact h.lock.same (fun _ => rfl) (by rw [hpc]; rfl)
  · simp [ReqPc.used]
  · exact fun y => .inl rfl
  · simp [ReqPc.marked]
  · exact fun y => told_keep (h.ok y).told rfl rfl (fun _ => ⟨rfl, rfl⟩) rfl (by simp [hpc])

omit [DecidableEq R] in
/-- The backend calls a function on a request it has. -/
theorem ReqInv.use (h : ReqInv noInterrupt s xs ys owner) (hpc : s.pc t = .idle)
    (hheld : s.held r = true) (hv : ReqPc.Goes .idle v) (huses : v.used = some r) :
    ReqInv noInterrupt (s.setPc t v) xs ys owner := by
  have hown := (h.places .backend r).mp hheld
  refine h.quiet (t := t) (v := v) ⟨rfl, rfl, rfl, rfl, hpc ▸ hv, ?_⟩ ?_ ?_ ?_ ?_ ?_
  · exact fun y => .refl _
  · refine h.lock.same (fun _ => rfl) ?_
    rw [hpc]
    rcases hv with rfl | ⟨func, rfl⟩ <;> rfl
  · intro y hy
    rw [huses] at hy
    exact Option.some.inj hy ▸ hown
  · exact fun y => .inl rfl
  · cases hv <;> simp [ReqPc.marked, ReqPc.used] at huses ⊢
  · exact fun y => told_keep (h.ok y).told rfl rfl (fun _ => ⟨rfl, rfl⟩) rfl (by simp [hpc])

end UkfsFuse
