import UkfsFuse.Logic.InterruptMoves

/-!
# The functions that count references

`fuse_free_req` with `destroy_req`, and the critical sections that move
interrupts: `check_interrupt`, `_do_interrupt` and the end of
`find_interrupted`.
-/

namespace UkfsFuse

open UkfsFuse.Core

variable {T R Fn : Type} [DecidableEq T] [DecidableEq R] {noInterrupt : Bool}
  {s s' : ReqState T R Fn} {xs ys : List R} {owner : R → Option (ReqPlace T)} {t u : T}
  {v : ReqPc R Fn} {r c q : R}

/-! ## `fuse_free_req` -/

/-- Where a thread goes after `fuse_free_req`. -/
def afterFree (refCnt : Int) (r : R) (next : Option R) : ReqPc R Fn :=
  if refCnt = 0 then .destroy r next else
    match next with
    | none => .idle
    | some x => .dispatch x

omit [DecidableEq R] in
@[simp] theorem afterFree_subjects (n : Int) (next : Option R) :
    (afterFree n r next : ReqPc R Fn).subjects = [] := by
  unfold afterFree
  split_ifs
  · rfl
  · cases next <;> rfl

omit [DecidableEq R] in
theorem afterFree_part (n : Int) (next : Option R) (part : ReqPart) :
    (afterFree n r next : ReqPc R Fn).part part = match part with
      | .own => none
      | .next => next
      | .doomed => if n = 0 then some r else none := by
  unfold afterFree
  split_ifs
  · cases part <;> rfl
  · cases next <;> cases part <;> rfl

/-- The state after `fuse_free_req` has given up the reference. -/
structure ReqFreed (s s' : ReqState T R Fn) (t : T) (r : R) (next : Option R)
    (y : LlReq T Fn) : Prop where
  live : s'.live = s.live
  req : s'.req = Function.update s.req r y
  held : s'.held = s.held
  called : s'.called = s.called
  pc : s'.pc = Function.update s.pc t (afterFree y.refCnt r next)
  refCnt : y.refCnt = (s.req r).refCnt - 1
  lock : y.lock = (s.req r).lock
  ch : y.ch = false
  interrupted : y.interrupted = (s.req r).interrupted
  u : y.u = .ni none ∨ y.u = (s.req r).u

theorem ReqInv.freed (h : ReqInv noInterrupt s xs ys owner) {next : Option R} {y : LlReq T Fn}
    (hpc : s.pc t = .free r next) (hs : ReqFreed s s' t r next y)
    (hlists : ReqLists s'.links (xs.erase r) ys fun x => Counted (owner x) ∧ x ∉ xs ∧ x ∉ ys) :
    ReqGood noInterrupt s' ys := by
  have hown := h.atThread (t := t) (p := .own) (r := r) (by rw [hpc]; rfl)
  have hlive := h.owned_live (r := r) (by rw [hown]; simp)
  have hxs : xs.Nodup := (List.nodup_cons.mp h.lists.flight.nodup).2.of_map
  have hys : r ∉ ys := h.not_pending (by simp [hown])
  have hreqr : s'.req r = y := by rw [hs.req, Function.update_self]
  -- the references that are left are those of the threads that have found it
  obtain ⟨n, hn, href⟩ := (h.ok r).count
  have href := href hlive
  simp only [hown, counted_own, if_true] at href
  have hy : y.refCnt = n := by rw [hs.refCnt, href]; omega
  let o : Option (ReqPlace T) := if y.refCnt = 0 then some (.thread .doomed t) else none
  have ho : ¬ Counted o := by
    simp only [o]
    split_ifs <;> simp
  have hvsub := not_mem_subjects (y := r) (v := (afterFree y.refCnt r next : ReqPc R Fn)) (by simp)
  have hlocked : ∀ u, (s'.pc u).locked = some r ↔ (s.pc u).locked = some r := fun u =>
    ⟨(pc_view hs.pc (p := fun w => w.locked = some r)).1 fun hv => absurd hv hvsub.2.1,
      (pc_view hs.pc (p := fun w => w.locked = some r)).2 fun hw => by
        rw [hpc] at hw
        exact absurd hw (by simp [ReqPc.locked])⟩
  have hcurr : ∀ u, (s'.pc u).curr = some r ↔ (s.pc u).curr = some r := fun u =>
    ⟨(pc_view hs.pc (p := fun w => w.curr = some r)).1 fun hv => absurd hv hvsub.1,
      (pc_view hs.pc (p := fun w => w.curr = some r)).2 fun hw => by
        rw [hpc] at hw
        exact absurd hw (by simp [ReqPc.curr])⟩
  have hchange : ReqChange s s' xs (xs.erase r) ys ys t (afterFree y.refCnt r next) r := {
    pc := hs.pc
    nodup := by rw [hs.live]; exact h.nodup
    kept := fun x hx => {
      live := by rw [hs.live]
      req := by rw [hs.req, Function.update_of_ne hx]
      called := by rw [hs.called]
      flight := (List.mem_erase_of_ne hx).mp
      pending := id
      same := sameFor_of_not_mem (by simp [hpc, ReqPc.subjects, hx]) (by simp) } }
  refine ⟨xs.erase r, Function.update owner r o, h.change hchange ?_ ?_ ?_ ?_⟩
  · refine hlists.mono fun x hx => ?_
    have hxr : x ≠ r := fun heq => by
      rw [heq, Function.update_self] at hx
      exact ho hx.1
    rwa [Function.update_of_ne hxr, List.mem_erase_of_ne hxr] at hx
  · refine places_put h.places hs.pc (fun part x hx => ?_) (fun _ _ => by rw [hs.held])
      (fun _ _ => .rfl) (fun part => ?_) (fun part u hut => ?_) ?_ ?_
    · rw [afterFree_part, hpc]
      cases part with
      | own => simp [ReqPc.part, Ne.symm hx]
      | next => simp [ReqPc.part]
      | doomed => simp [ReqPc.part, Ne.symm hx]
    · rw [afterFree_part]
      cases part with
      | own => simp only [o]; split_ifs <;> simp
      | next =>
          -- another request is dispatched next
          have hne : next ≠ some r := fun heq => by
            have hat := h.atThread (t := t) (p := .next) (r := r) (by rw [hpc, heq]; rfl)
            rw [hown] at hat
            exact absurd hat (by simp)
          simp only [o]
          split_ifs <;> simp [hne]
      | doomed => simp only [o]; split_ifs <;> simp
    · refine ⟨by simp [hown, Ne.symm hut], ?_⟩
      simp only [o]
      split_ifs <;> simp [Ne.symm hut]
    · rw [hs.held]
      simp only [o]
      split_ifs <;> simp [h.not_held (r := r) (by simp [hown])]
    · simp only [o]
      split_ifs <;> simp [hys]
  · exact {
      flight := fun hx => absurd hx hxs.not_mem_erase
      live := by
        simp only [hcurr, hs.live]
        refine iff_of_true hlive ?_
        by_cases hzero : y.refCnt = 0
        · exact .inl (by simp [o, hzero])
        · exact .inr (hn.exists_of_pos (by omega))
      count := by
        refine ⟨n, ?_, fun _ => by rw [hreqr, if_neg ho, hy]; simp⟩
        rw [hs.pc]
        exact hn.stay (iff_of_false hvsub.1 (by rw [hpc]; simp [ReqPc.curr]))
      doomed := fun u hu => by
        rw [hreqr]
        by_contra hne
        simp [o, hne] at hu
      lock := fun _ u => by rw [hreqr, hs.lock, hlocked]; exact (h.ok r).lock hlive u
      uses := fun u hu => by
        have hback := (h.ok r).uses u ((pc_view hs.pc (p := fun w => w.used = some r)).1
          (fun hv => absurd hv hvsub.2.2.1) hu)
        rw [hown] at hback
        exact absurd hback (by simp)
      ch := fun _ _ => by rw [hreqr, hs.ch]
      asks := fun hasks => by
        obtain ⟨u, hu⟩ := hasks.resolve_left hys
        have hat := (pc_view hs.pc (p := fun w => w.asking = some r)).1
          (fun hv => absurd hv hvsub.2.2.2.1) hu
        have hthread := h.atThread (ReqPc.asking_own hat)
        rw [hown] at hthread
        obtain rfl : t = u := by simpa using hthread
        rw [hpc] at hat
        exact absurd hat (by simp [ReqPc.asking])
      normal := fun hnormal => by
        obtain ⟨u, hu⟩ := hnormal.resolve_left hxs.not_mem_erase
        rw [hreqr]
        rcases hs.u with hnil | hsame
        · exact ⟨none, hnil⟩
        · rw [hsame]
          exact (h.ok r).normal (.inr ⟨u, (hcurr u).mp hu⟩)
      fresh := fun u hu => by
        have hat := (pc_view hs.pc (p := fun w => w = .check r)).1
          (fun hv => absurd hv hvsub.2.2.2.2.1) hu
        have hthread := h.atThread (t := u) (p := .own) (r := r) (by rw [hat]; rfl)
        rw [hown] at hthread
        obtain rfl : t = u := by simpa using hthread
        rw [hpc] at hat
        exact absurd hat (by simp)
      marked := fun u hu => by
        rw [hreqr, hs.interrupted]
        exact (h.ok r).marked u ((pc_view hs.pc (p := fun w => w.marked = some r)).1
          (fun hv => absurd hv hvsub.2.2.2.2.2.1) hu)
      told := fun _ hint f hf => by
        rw [hreqr] at hint hf
        rw [hs.interrupted] at hint
        rw [hs.called]
        rcases hs.u with hnil | hsame
        · rw [hnil] at hf
          exact absurd hf (by simp)
        · refine ((h.ok r).told hlive hint f (hsame ▸ hf)).imp_right
            (Exists.imp fun u hu => ?_)
          refine (pc_view hs.pc (p := fun w => w = .test r (some f))).2 (fun hw => ?_) hu
          rw [hpc] at hw
          exact absurd hw (by simp) }
  · exact h.apart.sub hchange (.refl ys) hys fun hx => absurd hx hxs.not_mem_erase

omit [DecidableEq R] in
theorem afterFree_eq (s : ReqState T R Fn) (n : Int) (next : Option R) :
    (if n = 0 then some (s.setPc t (.destroy r next)) else some (s.done t next)) =
      some (s.setPc t (afterFree n r next)) := by
  unfold afterFree
  split_ifs
  · rfl
  · cases next <;> rfl

theorem ReqInv.free (h : ReqInv noInterrupt s xs ys owner) {next : Option R}
    (hpc : s.pc t = .free r next) :
    ∃ s', s.run noInterrupt t = some s' ∧ ReqGood noInterrupt s' ys := by
  have hown := h.atThread (t := t) (p := .own) (r := r) (by rw [hpc]; rfl)
  have hcounted : Counted (owner r) := by simp [hown]
  have hlive := h.owned_live (counted_ne_none hcounted)
  cases hno : noInterrupt with
  | true =>
      subst hno
      have hxs : r ∉ xs := fun hin => absurd ((h.ok r).flight hin).1 (by simp)
      have hlists : ReqLists s.links (xs.erase r) ys fun x =>
          Counted (owner x) ∧ x ∉ xs ∧ x ∉ ys := by
        rw [List.erase_of_not_mem hxs]
        exact h.lists
      let y : LlReq T Fn := { s.req r with refCnt := (s.req r).refCnt - 1, ch := false }
      have hfreed : ReqFreed s { s with
          req := Function.update s.req r y
          pc := Function.update s.pc t (afterFree y.refCnt r next) } t r next y :=
        ⟨rfl, rfl, rfl, rfl, rfl, rfl, rfl, rfl, rfl, .inr rfl⟩
      refine ⟨_, ?_, h.freed hpc hfreed hlists⟩
      simp only [ReqState.run, hpc, ReqState.fuseFreeReq, ReqState.modify, ReqState.get,
        ReqState.putChan, hlive, if_true, Option.bind_eq_bind, Option.bind_some,
        Function.update_self, Function.update_idem, Option.pure_def, afterFree_eq]
      rfl
  | false =>
      subst hno
      obtain ⟨hprev, hnext⟩ := h.neighbours_valid hcounted
      have hys : r ∉ ys := h.not_pending (by simp [hown])
      have hlists : ReqLists (s.links.del (.req r)) (xs.erase r) ys fun x =>
          Counted (owner x) ∧ x ∉ xs ∧ x ∉ ys := by
        by_cases hxs : r ∈ xs
        · obtain ⟨l, l', -, hsplit, herase⟩ := List.exists_erase_eq hxs
          rw [herase]
          subst hsplit
          exact h.lists.delFlight
        · rw [List.erase_of_not_mem hxs, h.lists.delOwn ⟨hcounted, hxs, hys⟩]
          exact h.lists
      let y : LlReq T Fn :=
        { s.req r with u := .ni none, refCnt := (s.req r).refCnt - 1, ch := false }
      have hfreed : ReqFreed s { s with
          req := Function.update s.req r y
          links := s.links.del (.req r)
          pc := Function.update s.pc t (afterFree y.refCnt r next) } t r next y :=
        ⟨rfl, rfl, rfl, rfl, rfl, rfl, rfl, rfl, rfl, .inl rfl⟩
      refine ⟨_, ?_, h.freed hpc hfreed hlists⟩
      have hdel : ∀ req, ({ s with req := req } : ReqState T R Fn).listDelReq r =
          some { s with req := req, links := s.links.del (.req r) } :=
        fun req => if_pos ⟨hlive, hprev, hnext⟩
      simp only [ReqState.run, hpc, ReqState.fuseFreeReq, ReqState.modify, ReqState.get,
        ReqState.putChan, hdel, hlive, if_true, Bool.false_eq_true, if_false,
        Option.bind_eq_bind, Option.bind_some, Function.update_self, Function.update_idem,
        Option.pure_def, afterFree_eq]
      rfl

theorem ReqInv.destroy (h : ReqInv noInterrupt s xs ys owner) {next : Option R}
    (hpc : s.pc t = .destroy r next) :
    ∃ s', s.run noInterrupt t = some s' ∧ ReqGood noInterrupt s' ys := by
  have hown := h.atThread (t := t) (p := .doomed) (r := r) (by rw [hpc]; rfl)
  have hlive := h.owned_live (r := r) (by rw [hown]; simp)
  -- `ref_cnt` is zero, and counts the threads that have found the request
  obtain ⟨n, hn, href⟩ := (h.ok r).count
  have hcurr : ∀ u, (s.pc u).curr ≠ some r := fun u hu => by
    have hpos := hn.pos hu
    have hzero := (h.ok r).doomed t hown
    rw [href hlive, hown] at hzero
    simp only [counted_doomed, if_false] at hzero
    omega
  have hlock := h.unlocked hlive hcurr (by simp [hown])
  have hch := (h.ok r).ch hlive (by simp [hown])
  have hxs : r ∉ xs := fun hin => by
    have hcounted := h.flight_counted hin
    rw [hown] at hcounted
    exact hcounted
  have hys : r ∉ ys := h.not_pending (by simp [hown])
  obtain ⟨v, hv, hdone⟩ : ∃ v : ReqPc R Fn, (v = .idle ∧ next = none ∨
      ∃ x, v = .dispatch x ∧ next = some x) ∧
        ∀ s : ReqState T R Fn, s.done t next = s.setPc t v := by
    cases next with
    | none => exact ⟨_, .inl ⟨rfl, rfl⟩, fun _ => rfl⟩
    | some x => exact ⟨_, .inr ⟨x, rfl, rfl⟩, fun _ => rfl⟩
  refine ⟨({ s with live := s.live.erase r } : ReqState T R Fn).setPc t v, ?_, xs,
    Function.update owner r none, h.discardUnlisted (t := t) (v := v) ?_ rfl ?_ hcurr hxs hys⟩
  · simp [ReqState.run, hpc, ReqState.destroyReq, ReqState.get, hlive, hch, hlock, hdone]
  · have hvsub : v.subjects = [] := by rcases hv with ⟨rfl, -⟩ | ⟨x, rfl, -⟩ <;> rfl
    refine ⟨rfl, fun _ _ => rfl, rfl, rfl, rfl, fun y _ => ?_, fun part y => ?_, by simp [hvsub]⟩
    · exact sameFor_of_not_mem (by simp [hpc, ReqPc.subjects]) (by simp [hvsub])
    · rw [hpc]
      cases part with
      | own => rcases hv with ⟨rfl, -⟩ | ⟨x, rfl, -⟩ <;> simp [ReqPc.part]
      | next =>
          have hne : next ≠ some r := fun heq => by
            have hat := h.atThread (t := t) (p := .next) (r := r) (by rw [hpc, heq]; rfl)
            rw [hown] at hat
            exact absurd hat (by simp)
          have hvnext : v.part .next = next := by
            rcases hv with ⟨rfl, rfl⟩ | ⟨x, rfl, rfl⟩ <;> rfl
          rw [hvnext]
          exact ⟨fun heq => ⟨heq, fun hyr => hne (hyr ▸ heq)⟩, fun heq => heq.1⟩
      | doomed =>
          rcases hv with ⟨rfl, -⟩ | ⟨x, rfl, -⟩ <;> simp [ReqPc.part, eq_comm]
  · simp [hown, eq_comm]

end UkfsFuse
