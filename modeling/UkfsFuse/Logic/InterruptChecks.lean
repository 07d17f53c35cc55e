import UkfsFuse.Logic.InterruptFinds

/-!
# A request looks for its interrupt

`check_interrupt` and the `list_add_req` that follows it, in one critical
section: the interrupt of the request, if it has come already, is used up; else
the first pending one is given back to the kernel.
-/

namespace UkfsFuse

open UkfsFuse.Core

variable {T R Fn : Type} [DecidableEq T] [DecidableEq R] {noInterrupt : Bool}
  {s s' : ReqState T R Fn} {xs ys : List R} {owner : R → Option (ReqPlace T)} {t u : T}
  {v : ReqPc R Fn} {r c q : R} {links : Links (ReqNode R)}

/-- `req->interrupted = 1`, before anybody could ask -/
def ReqState.marked (s : ReqState T R Fn) (r : R) : ReqState T R Fn :=
  { s with req := Function.update s.req r { s.req r with interrupted := true } }

theorem ReqInv.marked (h : ReqInv noInterrupt s xs ys owner) (hpc : s.pc t = .check r) :
    ReqInv noInterrupt (s.marked r) xs ys owner := by
  have hreqr : (s.marked r).req r = { s.req r with interrupted := true } :=
    Function.update_self ..
  have hown := h.atThread (t := t) (p := .own) (r := r) (by rw [hpc]; rfl)
  have hchange : ReqChange s (s.marked r) xs xs ys ys t (s.pc t) r := {
    pc := (Function.update_eq_self t s.pc).symm
    nodup := h.nodup
    kept := fun y hy => ⟨.rfl, Function.update_of_ne hy .., rfl, id, id,
      ⟨.rfl, .rfl, id, id, id, id, fun next h => ⟨next, h⟩, fun _ h => h⟩⟩ }
  have hinv := h.change (o := owner r) hchange ?_ ?_ ?_ ?_
  · rwa [Function.update_eq_self] at hinv
  · rw [Function.update_eq_self]
    exact h.lists
  · rw [Function.update_eq_self]
    exact h.places.same fun p y => by cases p <;> rfl
  · exact { h.ok r with
      count := by
        obtain ⟨n, hn, href⟩ := (h.ok r).count
        exact ⟨n, hn, by rw [hreqr]; exact href⟩
      doomed := by rw [hreqr]; exact (h.ok r).doomed
      lock := by rw [hreqr]; exact (h.ok r).lock
      ch := by rw [hreqr]; exact (h.ok r).ch
      asks := by rw [hreqr]; exact (h.ok r).asks
      normal := by rw [hreqr]; exact (h.ok r).normal
      fresh := by rw [hreqr]; exact (h.ok r).fresh
      marked := fun _ _ => by rw [hreqr]
      told := fun _ _ f hf => by
        rw [hreqr] at hf
        rw [((h.ok r).fresh t hpc).2] at hf
        exact absurd hf (by simp) }
  · exact h.apart.sub hchange (.refl ys) (h.not_pending (by simp [hown]))
      fun hin => ⟨hin, by rw [hreqr]⟩

omit [DecidableEq T] [DecidableEq R] in
theorem ReqOk.fly {o : Option (ReqPlace T)} (h : ReqOk noInterrupt s xs ys o r)
    (hmode : noInterrupt = false) (ho : ∃ t, o = some (.thread .next t))
    (hu : ∃ func, (s.req r).u = .ni func) {xs' : List R} : ReqOk noInterrupt s xs' ys o r :=
  { h with
    flight := fun _ => ⟨hmode, .inr (.inl ho)⟩
    normal := fun _ => hu }

omit [DecidableEq T] [DecidableEq R] in
theorem ReqInv.not_flight (h : ReqInv noInterrupt s xs ys owner) (hpc : s.pc t = .check r) :
    r ∉ xs := by
  intro hin
  have hown := h.atThread (t := t) (p := .own) (r := r) (by rw [hpc]; rfl)
  rcases ((h.ok r).flight hin).2 with heq | ⟨u, heq⟩ | ⟨u, next, hfree⟩
  · simp [hown] at heq
  · simp [hown] at heq
  · have hat := h.atThread (t := u) (p := .own) (r := r) (by rw [hfree]; rfl)
    rw [hown] at hat
    obtain rfl : t = u := by simpa using hat
    rw [hpc] at hfree
    exact absurd hfree (by simp)

/-- The request is in flight, and no interrupt for it is pending. -/
theorem ReqInv.enlist (h : ReqInv noInterrupt s xs ys owner) (hpc : s.pc t = .check r)
    (hno : ∀ q ∈ ys, (s.req q).u ≠ .i (s.req r).unique) :
    ReqInv noInterrupt ({ s with links := s.links.add (.req r) .list }.setPc t (.dispatch r))
      (xs ++ [r]) ys (Function.update owner r (some (.thread .next t))) := by
  have hown := h.atThread (t := t) (p := .own) (r := r) (by rw [hpc]; rfl)
  obtain ⟨hmode, hu⟩ := (h.ok r).fresh t hpc
  have hys : r ∉ ys := h.not_pending (by simp [hown])
  have hxs := h.not_flight hpc
  let s' := { s with links := s.links.add (.req r) .list }.setPc t (.dispatch r)
  have hsame : ∀ y, SameFor y (s.pc t) (.dispatch r) := fun y => by
    rw [hpc]
    constructor <;> simp [ReqPc.curr, ReqPc.locked, ReqPc.used, ReqPc.asking, ReqPc.marked]
  have hchange : ReqChange s s' xs (xs ++ [r]) ys ys t (.dispatch r) r := {
    pc := rfl
    nodup := h.nodup
    kept := fun y hy => ⟨.rfl, rfl, rfl, by simp [hy], id, hsame y⟩ }
  refine h.change hchange ?_ ?_ ?_ ⟨h.apart.targets, ?_⟩
  · refine (h.lists.addFlight ⟨by simp [hown], hxs, hys⟩).mono fun y hy => ?_
    have hyr : y ≠ r := by
      rintro rfl
      exact hy.2.1 (by simp)
    simp only [Function.update_of_ne hyr, List.mem_append, not_or] at hy
    exact ⟨⟨hy.1, hy.2.1.1, hy.2.2⟩, hyr⟩
  · refine places_put h.places rfl (fun part y hy => ?_) (fun _ _ => rfl) (fun _ _ => .rfl)
      (fun part => ?_) (fun part u hut => by simp [hown, Ne.symm hut]) ?_ (by simp [hys])
    · rw [hpc]
      cases part <;> simp [ReqPc.part, Ne.symm hy]
    · cases part <;> simp [ReqPc.part]
    · simpa [s', ReqState.setPc] using h.not_held (by simp [hown])
  · have hframe : ReqOk noInterrupt s' xs ys (owner r) r :=
      (h.ok r).frame rfl ⟨.rfl, rfl, rfl, id, id, hsame r⟩
    have hnext : ReqOk noInterrupt s' xs ys (some (.thread .next t)) r :=
      hframe.hand (by simp [hown]) trivial (fun hin => absurd hin hxs)
        fun _ u hused => absurd (hframe.uses u hused) (by simp [hown])
    exact hnext.fly hmode ⟨t, rfl⟩ ⟨none, hu⟩
  · intro q hq x hx
    rcases List.mem_append.mp hx with hx | hx
    · exact h.apart.flight q hq x hx
    · rw [List.mem_singleton.mp hx]
      exact hno q hq

/-- The first pending interrupt is taken, to be answered with `EAGAIN`. -/
theorem ReqInv.take (h : ReqInv noInterrupt s xs (c :: ys) owner) (hpc : s.pc t = .dispatch r)
    (hlists : ReqLists links xs ys fun y =>
      Counted (Function.update owner c (some (.thread .own t)) y) ∧ y ∉ xs ∧ y ∉ ys) :
    ReqInv noInterrupt ({ s with links := links }.setPc t (.free c (some r))) xs ys
      (Function.update owner c (some (.thread .own t))) := by
  have hown : owner c = some .pending := h.pending_owner List.mem_cons_self
  have hys : c ∉ ys := fun hin => by
    have hnodup := (List.nodup_cons.mp h.lists.pending.nodup).2.of_map
    exact (List.nodup_cons.mp hnodup).1 hin
  have hxs : c ∉ xs := fun hin => (h.lists.disjoint (r := c)).1 hin List.mem_cons_self
  let s' := { s with links := links }.setPc t (.free c (some r))
  have hchange : ReqChange s s' xs xs (c :: ys) ys t (.free c (some r)) c := {
    pc := rfl
    nodup := h.nodup
    kept := fun y hy => ⟨.rfl, rfl, rfl, id, List.mem_cons_of_mem c,
      sameFor_of_not_mem (by simp [hpc, ReqPc.subjects]) (by simp [ReqPc.subjects, hy])⟩ }
  have hsame : SameFor c (s.pc t) (.free c (some r)) := by
    rw [hpc]
    constructor <;> simp [ReqPc.curr, ReqPc.locked, ReqPc.used, ReqPc.asking, ReqPc.marked]
  refine h.change hchange hlists ?_ ?_ (h.apart.sub hchange (List.sublist_cons_self c ys) hys
    fun hin => absurd hin hxs)
  · refine places_put h.places rfl (fun part y hy => ?_) (fun _ _ => rfl)
      (fun y hy => by simp [hy]) (fun part => ?_)
      (fun part u hut => by simp [hown, Ne.symm hut]) ?_ (by simp [hys])
    · rw [hpc]
      cases part <;> simp [ReqPc.part, Ne.symm hy]
    · -- the request that is dispatched is not a pending interrupt
      have hrc : r ≠ c := by
        rintro rfl
        have hat := h.atThread (t := t) (p := .next) (r := r) (by rw [hpc]; rfl)
        rw [hown] at hat
        exact absurd hat (by simp)
      cases part <;> simp [ReqPc.part, hrc]
    · simpa [s', ReqState.setPc] using h.not_held (by simp [hown])
  · have hframe : ReqOk noInterrupt s' xs ys (owner c) c :=
      (h.ok c).frame rfl ⟨.rfl, rfl, rfl, id, List.mem_cons_of_mem c, hsame⟩
    exact hframe.hand (by simp [hown]) trivial (fun hin => absurd hin hxs)
      fun _ u hused => absurd (hframe.uses u hused) (by simp [hown])

/-- The interrupt of a request that has just come is used up. -/
def ReqState.usedUp (s : ReqState T R Fn) (t : T) (r c : R) : ReqState T R Fn :=
  { s.marked r with
    live := s.live.erase c
    links := s.links.del (.req c)
    req := Function.update (s.marked r).req c { (s.marked r).req c with ch := false }
    pc := Function.update s.pc t (.check r) }

theorem ReqInv.usedUp (h : ReqInv noInterrupt s xs ys owner) (hpc : s.pc t = .check r)
    (hc : c ∈ ys) (hu : (s.req c).u = .i (s.req r).unique) :
    ReqInv noInterrupt (s.usedUp t r c) xs (ys.erase c) (Function.update owner c none) ∧
      r ≠ c ∧ ∀ q ∈ ys.erase c, (s.req q).u ≠ .i (s.req r).unique := by
  have hown := h.atThread (t := t) (p := .own) (r := r) (by rw [hpc]; rfl)
  have hcown := h.pending_owner hc
  have hrc : r ≠ c := by
    rintro rfl
    rw [hown] at hcown
    exact absurd hcown (by simp)
  have hxs : c ∉ xs := fun hin => (h.lists.disjoint (r := c)).1 hin hc
  have hnodup : ys.Nodup := (List.nodup_cons.mp h.lists.pending.nodup).2.of_map
  refine ⟨?_, hrc, fun q hq heq => ?_⟩
  · refine (h.marked hpc).discard (t := t) (v := .check r)
      ⟨rfl, fun y hy => Function.update_of_ne hy .., rfl, rfl, rfl, fun y _ => ?_,
        fun part y => ?_, by simp [ReqPc.subjects, Ne.symm hrc]⟩ (by simp [hcown]) ?_ hxs ?_
    · have hsame : (s.marked r).pc t = .check r := hpc
      rw [hsame]
      exact ⟨.rfl, .rfl, id, id, id, id, fun next h => ⟨next, h⟩, fun _ h => h⟩
    · have hsame : (s.marked r).pc t = .check r := hpc
      rw [hsame, iff_self_and]
      rintro hpart rfl
      have hat := h.atThread (t := t) (p := part) (r := y) (by rw [hpc]; exact hpart)
      rw [hcown] at hat
      exact absurd hat (by simp)
    · exact fun u => h.not_found hu u
    · obtain ⟨l, l', -, hsplit, herase⟩ := List.exists_erase_eq hc
      have hdel : ReqLists (s.links.del (.req c)) xs (ys.erase c) fun y =>
          Counted (owner y) ∧ y ∉ xs ∧ y ∉ ys := by
        have hlists := h.lists
        rw [herase]
        rw [hsplit] at hlists ⊢
        exact hlists.delPending
      exact hdel.mono fun y hy => ⟨hy.1, hy.2.2⟩
  · -- no two pending interrupts are for the same request
    have hqc := List.inj_on_of_nodup_map h.apart.targets (List.mem_of_mem_erase hq) hc
      (by rw [heq, hu])
    rw [hqc] at hq
    exact hnodup.not_mem_erase hq

/-- What `check_interrupt` makes of the pending interrupts `ys`: the one of the
request is used up, or the oldest is to be answered with `EAGAIN`. -/
inductive ReqChecked (s s' : ReqState T R Fn) (t : T) (r : R) (ys : List R) : List R → Prop
  | usedUp (q : R) (hq : q ∈ ys) (hu : (s.req q).u = .i (s.req r).unique) (hgone : q ∉ s'.live)
      (hint : (s'.req r).interrupted = true) (hnext : s'.pc t = .dispatch r) :
      ReqChecked s s' t r ys (ys.erase q)
  | thrownOut (q : R) (ys' : List R) (hq : ys = q :: ys')
      (hnone : ∀ q ∈ ys, (s.req q).u ≠ .i (s.req r).unique)
      (hnext : s'.pc t = .free q (some r)) : ReqChecked s s' t r ys ys'
  | none (hnil : ys = []) (hnext : s'.pc t = .dispatch r) : ReqChecked s s' t r ys []

theorem ReqInv.check (h : ReqInv noInterrupt s xs ys owner) (hpc : s.pc t = .check r) :
    ∃ s' ys', s.run noInterrupt t = some s' ∧ ReqGood noInterrupt s' ys' ∧
      ReqChecked s s' t r ys ys' := by
  have hown := h.atThread (t := t) (p := .own) (r := r) (by rw [hpc]; rfl)
  have hlive := h.owned_live (r := r) (by rw [hown]; simp)
  have hys : r ∉ ys := h.not_pending (by simp [hown])
  have hrun : s.run noInterrupt t = s.check t r := by simp [ReqState.run, hpc]
  have hget : s.get r = some (s.req r) := by simp [ReqState.get, hlive]
  rw [hrun, ReqState.check, ReqState.checkInterrupt]
  simp only [hget, Option.bind_eq_bind, Option.bind_some, h.find_pending]
  cases hpending : ys.find? fun y => (s.req y).u.iUnique = some (s.req r).unique with
  | some c =>
      have hc := List.mem_of_find?_eq_some hpending
      have hclive := h.pending_live hc
      have hu := h.find_target hpending
      obtain ⟨hinv, hrc, hno⟩ := h.usedUp hpc hc hu
      have hcown := h.pending_owner hc
      have hlock := h.unlocked hclive (h.not_found hu) (by simp [hcown])
      obtain ⟨hprev, hnext⟩ := h.neighbours_valid (r := c) (by simp [hcown])
      have hrlive : r ∈ s.live.erase c := (List.mem_erase_of_ne hrc).mpr hlive
      have hlast := valid_prev (s := s.usedUp t r c) .list trivial hinv.lists.flight
        fun _ hx => hinv.flight_live hx
      refine ⟨_, _, ?_, ⟨_, _, hinv.enlist (t := t) (r := r) (by simp [ReqState.usedUp])
        fun q hq => ?_⟩, .usedUp c hc hu h.nodup.not_mem_erase
          (by simp [ReqState.usedUp, ReqState.marked, ReqState.setPc, hrc])
          (by simp [ReqState.setPc])⟩
      · let s₁ : ReqState T R Fn := { s.marked r with links := s.links.del (.req c) }
        let s₂ : ReqState T R Fn :=
          { s₁ with req := Function.update s₁.req c { s₁.req c with ch := false } }
        let s₃ : ReqState T R Fn := { s₂ with live := s.live.erase c }
        have hmark : s.modify r (fun x => { x with interrupted := true }) = some (s.marked r) :=
          if_pos hlive
        have hdel : (s.marked r).listDelReq c = some s₁ := if_pos ⟨hclive, hprev, hnext⟩
        have hput : s₁.putChan c = some s₂ := if_pos hclive
        have hdestroy : s₂.destroyReq c = some s₃ := by
          have hgetc : s₂.get c = some (s₂.req c) := if_pos hclive
          rw [ReqState.destroyReq, hgetc, Option.bind_some]
          exact if_pos (by simpa [s₂, s₁, ReqState.marked, Ne.symm hrc] using hlock)
        have hadd : s₃.listAddReq r .list = some { s₃ with links := s₃.links.add (.req r) .list } :=
          if_pos ⟨hrlive, hlast⟩
        simp only [Option.map_some, hmark, hdel, hput, hdestroy, Option.bind_some, Option.pure_def,
          hadd]
        simp [ReqState.usedUp, ReqState.done, ReqState.setPc, ReqState.marked, s₃, s₂, s₁]
      · have hqc : q ≠ c := fun heq => by
          have hnodup : ys.Nodup := (List.nodup_cons.mp h.lists.pending.nodup).2.of_map
          exact hnodup.not_mem_erase (heq ▸ hq)
        have hqr : q ≠ r := fun heq => hys (heq ▸ List.mem_of_mem_erase hq)
        simpa [ReqState.usedUp, ReqState.marked, hqc, hqr, hrc] using hno q hq
  | none =>
      have hnone : ∀ q ∈ ys, (s.req q).u ≠ .i (s.req r).unique := fun q hq heq => by
        have hne := List.find?_eq_none.mp hpending q hq
        simp [heq, ReqUnion.iUnique] at hne
      have hinv := h.enlist hpc hnone
      simp only [Option.map_none, h.lists.pending.next_head]
      cases ys with
      | nil =>
          have hadd : s.listAddReq r .list =
              some { s with links := s.links.add (.req r) .list } :=
            if_pos ⟨hlive, valid_prev _ trivial h.lists.flight fun _ hx => h.flight_live hx⟩
          refine ⟨_, _, ?_, ⟨_, _, hinv⟩, .none rfl (by simp [ReqState.setPc])⟩
          simp [hadd, ReqState.done]
      | cons c ys =>
          have hcown := h.pending_owner (r := c) List.mem_cons_self
          have hclive := h.pending_live (r := c) List.mem_cons_self
          obtain ⟨hprev, hnext⟩ := h.neighbours_valid (r := c) (by simp [hcown])
          have hnodup : (c :: ys).Nodup := (List.nodup_cons.mp h.lists.pending.nodup).2.of_map
          have hxs : c ∉ xs := fun hin => (h.lists.disjoint (r := c)).1 hin List.mem_cons_self
          have hrc : r ≠ c := fun heq => hys (heq ▸ List.mem_cons_self)
          have hrxs := h.not_flight hpc
          have hlists := (h.lists.delPending (l := [])).init hxs (List.nodup_cons.mp hnodup).1
            (by simp)
          have hadded := hlists.addFlight (r := r)
            (.inl ⟨by simp [hown], hrxs, hys⟩)
          have hlast := valid_prev (s := s) .list trivial hlists.flight
            fun _ hx => h.flight_live hx
          refine ⟨_, ys, ?_, ⟨_, _, hinv.take (t := t) (r := r) (by simp [ReqState.setPc])
            (hadded.mono fun y hy => ?_)⟩, .thrownOut c ys rfl hnone (by simp [ReqState.setPc])⟩
          · have hdel : s.listDelReq c = some { s with links := s.links.del (.req c) } :=
              if_pos ⟨hclive, hprev, hnext⟩
            have hinit : ({ s with links := s.links.del (.req c) } :
                ReqState T R Fn).listInitReq c =
                some { s with links := (s.links.del (.req c)).init (.req c) } := if_pos hclive
            have hadd : ({ s with links := (s.links.del (.req c)).init (.req c) } :
                ReqState T R Fn).listAddReq r .list = some { s with
                  links := ((s.links.del (.req c)).init (.req c)).add (.req r) .list } :=
              if_pos ⟨hlive, hlast⟩
            simp only [List.map_cons, List.headD_cons, hdel, hinit, hadd, Option.bind_some,
              Option.pure_def]
            simp [ReqState.setPc]
          · obtain ⟨hcounted, hyxs, hyys⟩ := hy
            have hyr : y ≠ r := fun heq => hyxs (by simp [heq])
            refine ⟨?_, hyr⟩
            by_cases hyc : y = c
            · exact .inr hyc
            · rw [Function.update_of_ne hyc, Function.update_of_ne hyr] at hcounted
              exact .inl ⟨hcounted, fun hin => hyxs (by simp [hin]), by simp [hyc, hyys]⟩

end UkfsFuse
