import UkfsFuse.Logic.InterruptEnds

/-!
# An interrupt looks for its request

`_do_interrupt` up to where `find_interrupted` unlocks the session, and what both
do when the session is locked again.
-/

namespace UkfsFuse

open UkfsFuse.Core

variable {T R Fn : Type} [DecidableEq T] [DecidableEq R] {noInterrupt : Bool}
  {s s' : ReqState T R Fn} {xs ys : List R} {owner : R → Option (ReqPlace T)} {t u : T}
  {v : ReqPc R Fn} {r c q : R}

/-! ## Interrupts -/

omit [DecidableEq T] in
/-- The loop over `se->interrupts` -/
theorem ReqInv.find_pending (h : ReqInv noInterrupt s xs ys owner) (unique : UInt64) :
    s.findReq .interrupts (fun y => y.u.iUnique.map (· = unique)) =
      some ((ys.find? fun r => (s.req r).u.iUnique = some unique).map .req) := by
  refine findReq_eq h.lists.pending fun r hr => ⟨h.pending_live hr, ?_⟩
  obtain ⟨w, hw⟩ := (h.ok r).asks (.inl hr)
  simp [hw, ReqUnion.iUnique]

omit [DecidableEq T] [DecidableEq R] in
/-- The interrupt it finds is for that request. -/
theorem ReqInv.find_target (h : ReqInv noInterrupt s xs ys owner) {unique : UInt64}
    (hfind : (ys.find? fun r => (s.req r).u.iUnique = some unique) = some c) :
    (s.req c).u = .i unique := by
  obtain ⟨w, hw⟩ := (h.ok c).asks (.inl (List.mem_of_find?_eq_some hfind))
  have hfound := List.find?_some hfind
  simp only [hw, ReqUnion.iUnique, Option.some.injEq, decide_eq_true_eq] at hfound
  rw [hw, hfound]

omit [DecidableEq T] in
/-- The loop over `se->list` -/
theorem ReqInv.find_flight (h : ReqInv noInterrupt s xs ys owner) (unique : UInt64) :
    s.findReq .list (fun y => some (y.unique = unique)) =
      some ((xs.find? fun r => (s.req r).unique = unique).map .req) :=
  findReq_eq h.lists.flight fun _ hr => ⟨h.flight_live hr, rfl⟩

/-- `find_interrupted` takes a reference. -/
theorem ReqInv.find (h : ReqInv noInterrupt s xs ys owner) (hpc : s.pc t = .interrupt q)
    (hc : c ∈ xs) :
    ReqInv noInterrupt { s.setPc t (.lockCurr q c) with
      req := Function.update s.req c { s.req c with refCnt := (s.req c).refCnt + 1 } }
      xs ys owner := by
  have hlive := h.flight_live hc
  have hcounted := h.flight_counted hc
  have hu := (h.ok c).normal (.inl hc)
  let s' : ReqState T R Fn := { s.setPc t (.lockCurr q c) with
    req := Function.update s.req c { s.req c with refCnt := (s.req c).refCnt + 1 } }
  have hpc' : s'.pc = Function.update s.pc t (.lockCurr q c) := rfl
  have hview : ∀ p : ReqPc R Fn → Prop, (p (.lockCurr q c) ↔ p (.interrupt q)) →
      ∀ u, p (s'.pc u) ↔ p (s.pc u) := fun p hp u =>
    ⟨(pc_view hpc').1 (by rw [hpc]; exact hp.mp), (pc_view hpc').2 (by rw [hpc]; exact hp.mpr)⟩
  have hreqc : s'.req c = { s.req c with refCnt := (s.req c).refCnt + 1 } :=
    Function.update_self ..
  have hchange : ReqChange s s' xs xs ys ys t (.lockCurr q c) c := {
    pc := rfl
    nodup := h.nodup
    kept := fun y hy => {
      live := .rfl
      req := Function.update_of_ne hy ..
      called := rfl
      flight := id
      pending := id
      same := by
        rw [hpc]
        constructor <;>
          simp [ReqPc.curr, ReqPc.locked, ReqPc.used, ReqPc.asking, ReqPc.marked, Ne.symm hy] } }
  have hinv := h.change (o := owner c) hchange ?_ ?_ ?_ ?_
  · rwa [Function.update_eq_self] at hinv
  · rw [Function.update_eq_self]
    exact h.lists
  · rw [Function.update_eq_self]
    refine places_same h.places hpc' (fun part => ?_) rfl
    rw [hpc]
    cases part <;> rfl
  · exact { h.ok c with
      flight := fun hin => by
        obtain ⟨hno, hwhere⟩ := (h.ok c).flight hin
        refine ⟨hno, hwhere.imp_right (Or.imp_right
          (Exists.imp fun u => Exists.imp fun next hu => ?_))⟩
        exact (hview (fun w => w = .free c next) (by simp) u).mpr hu
      live := iff_of_true hlive (.inl (counted_ne_none hcounted))
      count := by
        obtain ⟨n, hn, href⟩ := (h.ok c).count
        refine ⟨n + 1, hn.enter (by rw [hpc]; simp [ReqPc.curr]) rfl, fun _ => ?_⟩
        rw [hreqc, if_pos hcounted]
        simp only [href hlive, if_pos hcounted]
        push_cast
        omega
      doomed := fun u hown => by
        rw [hown] at hcounted
        exact absurd hcounted id
      lock := fun hlive u => by
        rw [hreqc, hview (fun w => w.locked = some c) (by simp [ReqPc.locked]) u]
        exact (h.ok c).lock hlive u
      uses := fun u hu => (h.ok c).uses u
        ((hview (fun w => w.used = some c) (by simp [ReqPc.used]) u).mp hu)
      ch := fun _ hno => absurd hcounted hno
      asks := fun hasks => by
        rw [hreqc]
        exact (h.ok c).asks (hasks.imp_right (Exists.imp fun u hu =>
          (hview (fun w => w.asking = some c) .rfl u).mp hu))
      normal := fun _ => by rw [hreqc]; exact hu
      fresh := fun u hu => by
        rw [hreqc]
        exact (h.ok c).fresh u ((hview (fun w => w = .check c) (by simp) u).mp hu)
      marked := fun u hu => by
        rw [hreqc]
        have hmarked := hview (fun w => w.marked = some c) (by simp [ReqPc.marked]) u
        exact (h.ok c).marked u (hmarked.mp hu)
      told := fun hlive hint f hf => by
        rw [hreqc] at hint hf
        exact ((h.ok c).told hlive hint f hf).imp_right (Exists.imp fun u hu =>
          (hview (fun w => w = .test c (some f)) (by simp) u).mpr hu) }
  · have hys : c ∉ ys := fun hin => by
      exact (h.lists.disjoint (r := c)).1 hc hin
    exact h.apart.sub hchange (.refl ys) hys fun _ => ⟨hc, by rw [hreqc]⟩

omit [DecidableEq T] [DecidableEq R] in
theorem ReqOk.pend {o : Option (ReqPlace T)} (h : ReqOk noInterrupt s xs ys o r)
    (hu : ∃ unique, (s.req r).u = .i unique) {ys' : List R} : ReqOk noInterrupt s xs ys' o r :=
  { h with asks := fun _ => hu }

/-- An interrupt for a request that is not in flight has to wait. -/
theorem ReqInv.pend (h : ReqInv noInterrupt s xs ys owner) (hpc : s.pc t = .interrupt q)
    {unique : UInt64} (hu : (s.req q).u = .i unique)
    (hflight : ∀ c ∈ xs, (s.req c).unique ≠ unique) (hpending : ∀ c ∈ ys, (s.req c).u ≠ .i unique) :
    ReqInv noInterrupt ({ s with links := s.links.add (.req q) .interrupts }.setPc t .idle) xs
      (ys ++ [q]) (Function.update owner q (some .pending)) := by
  have hown := h.atThread (t := t) (p := .own) (r := q) (by rw [hpc]; rfl)
  have hys : q ∉ ys := h.not_pending (by simp [hown])
  have hxs : q ∉ xs := fun hin => by
    obtain ⟨func, hni⟩ := (h.ok q).normal (.inl hin)
    rw [hu] at hni
    exact absurd hni (by simp)
  let s' := { s with links := s.links.add (.req q) .interrupts }.setPc t .idle
  have hkept : ∀ y, SameFor y (s.pc t) .idle → ReqKept s s' xs xs ys ys t .idle y :=
    fun y hy => ⟨.rfl, rfl, rfl, id, id, hy⟩
  have hchange : ReqChange s s' xs xs ys (ys ++ [q]) t .idle q := {
    pc := rfl
    nodup := h.nodup
    kept := fun y hy => ⟨.rfl, rfl, rfl, id, by simp [hy],
      sameFor_of_not_mem (by simp [hpc, ReqPc.subjects, hy]) (by simp [ReqPc.subjects])⟩ }
  refine h.change hchange ?_ ?_ ?_ ⟨?_, ?_⟩
  · refine (h.lists.addPending ⟨by simp [hown], hxs, hys⟩).mono fun y hy => ?_
    have hyq : y ≠ q := by
      rintro rfl
      exact hy.2.2 (by simp)
    simp only [Function.update_of_ne hyq, List.mem_append, not_or] at hy
    exact ⟨⟨hy.1, hy.2.1, hy.2.2.1⟩, hyq⟩
  · refine places_put h.places rfl (fun part y hy => ?_) (fun _ _ => rfl) (by simp +contextual)
      (fun part => ?_) (fun part u hut => by simp [hown, Ne.symm hut]) ?_ (by simp)
    · rw [hpc]
      cases part <;> simp [ReqPc.part, Ne.symm hy]
    · cases part <;> simp [ReqPc.part]
    · simpa [s', ReqState.setPc] using h.not_held (by simp [hown])
  · have hsame : SameFor q (s.pc t) .idle := by
      rw [hpc]
      constructor <;> simp [ReqPc.curr, ReqPc.locked, ReqPc.used, ReqPc.asking, ReqPc.marked]
    have hframe : ReqOk noInterrupt s' xs ys (owner q) q := (h.ok q).frame rfl (hkept q hsame)
    have hpending : ReqOk noInterrupt s' xs ys (some .pending) q :=
      hframe.hand (by simp [hown]) trivial (fun hin => absurd hin hxs)
        fun _ u hused => absurd (hframe.uses u hused) (by simp [hown])
    exact hpending.pend ⟨unique, hu⟩
  · show ((ys ++ [q]).map fun q => (s.req q).u).Nodup
    rw [List.map_append]
    refine List.nodup_append.mpr ⟨h.apart.targets, by simp, ?_⟩
    rintro a ha b hb rfl
    obtain ⟨c, hc, heq⟩ := List.mem_map.mp ha
    simp only [List.map_cons, List.map_nil, List.mem_singleton] at hb
    exact hpending c hc (by rw [heq, hb, hu])
  · intro c hc x hx
    rcases List.mem_append.mp hc with hc | hc
    · exact h.apart.flight c hc x hx
    · rw [List.mem_singleton.mp hc]
      show (s.req q).u ≠ .i (s.req x).unique
      rw [hu]
      exact fun heq => hflight x hx (ReqUnion.i.inj heq).symm

/-- The interrupt finds its request in flight, or one is pending afterwards. -/
theorem ReqInv.interrupt (h : ReqInv noInterrupt s xs ys owner) (hpc : s.pc t = .interrupt q)
    {unique : UInt64} (hu : (s.req q).u = .i unique) :
    ∃ s' ys', s.run noInterrupt t = some s' ∧ ReqGood noInterrupt s' ys' ∧
      (ys' = ys ∨ ys' = ys ++ [q]) ∧
      ((∃ c ∈ xs, (s.req c).unique = unique ∧ s'.pc t = .lockCurr q c) ∨
        (∀ c ∈ xs, (s.req c).unique ≠ unique) ∧ ∃ c ∈ ys', (s'.req c).u = .i unique) := by
  have hown := h.atThread (t := t) (p := .own) (r := q) (by rw [hpc]; rfl)
  have hlive := h.owned_live (r := q) (by rw [hown]; simp)
  have hnot := h.not_found hu
  have hxs : q ∉ xs := fun hin => by
    obtain ⟨func, hni⟩ := (h.ok q).normal (.inl hin)
    rw [hu] at hni
    exact absurd hni (by simp)
  have hys : q ∉ ys := h.not_pending (by simp [hown])
  have hrun : s.run noInterrupt t = s.doInterrupt t q := by simp [ReqState.run, hpc]
  have htarget : (s.req q).u.iUnique = some unique := by rw [hu]; rfl
  simp only [hrun, ReqState.doInterrupt, ReqState.get, hlive, if_true, Option.bind_eq_bind,
    Option.bind_some, htarget, h.find_flight unique]
  cases hflight : xs.find? fun r => (s.req r).unique = unique with
  | some c =>
      have hc := List.mem_of_find?_eq_some hflight
      have hfound : (s.req c).unique = unique := by simpa using List.find?_some hflight
      refine ⟨_, ys, ?_, ⟨xs, owner, h.find hpc hc⟩, .inl rfl, .inl ⟨c, hc, hfound, ?_⟩⟩
      · simp [ReqState.modify, h.flight_live hc, ReqState.setPc]
      · simp [ReqState.setPc]
  | none =>
      have hnone : ∀ c ∈ xs, (s.req c).unique ≠ unique := by
        simpa using List.find?_eq_none.mp hflight
      have hfind := h.find_pending unique
      cases hpending : ys.find? fun r => (s.req r).u.iUnique = some unique with
      | some c =>
          -- another interrupt waits for the same request
          have hlock := h.unlocked hlive hnot (by simp [hown])
          have hc := List.mem_of_find?_eq_some hpending
          have hcq : c ≠ q := fun heq => hys (heq ▸ hc)
          have hcu : (s.req c).u = .i unique := h.find_target hpending
          refine ⟨{ s with
            live := s.live.erase q
            req := Function.update s.req q { s.req q with ch := false }
            pc := Function.update s.pc t .idle }, ys, ?_, ⟨xs, _,
            h.discardUnlisted (t := t) (v := .idle) ⟨rfl, fun y hy => Function.update_of_ne hy ..,
              rfl, rfl, rfl, fun y hy => ?_, fun part y => ?_, by simp [ReqPc.subjects]⟩ rfl
              (by simp [hown, eq_comm]) hnot hxs hys⟩,
            .inl rfl, .inr ⟨hnone, c, hc, by simpa [hcq] using hcu⟩⟩
          · rw [hpending] at hfind
            simp [hfind, ReqState.putChan, ReqState.modify, ReqState.destroyReq, ReqState.get,
              hlive, hlock, ReqState.setPc]
          · exact sameFor_of_not_mem (by simp [hpc, ReqPc.subjects, hy])
              (by simp [ReqPc.subjects])
          · rw [hpc]
            cases part <;> simp [ReqPc.part, eq_comm]
      | none =>
          have hother : ∀ c ∈ ys, (s.req c).u ≠ .i unique := fun c hc heq => by
            have hne := List.find?_eq_none.mp hpending c hc
            simp [heq, ReqUnion.iUnique] at hne
          refine ⟨_, _, ?_, ⟨_, _, h.pend hpc hu hnone hother⟩, .inr rfl,
            .inr ⟨hnone, q, by simp, hu⟩⟩
          rw [hpending] at hfind
          simp [hfind, ReqState.listAddReq, hlive, h.last_valid]

/-! ## The reference is given back -/

/-- The state after `curr->ref_cnt--` and the `destroy_req(curr)` that may
follow; the interrupt itself is still to be destroyed. -/
def ReqState.dropped (s : ReqState T R Fn) (t : T) (q c : R) : ReqState T R Fn :=
  { s.setPc t (.free q none) with
    live := if (s.req c).refCnt - 1 = 0 then s.live.erase c else s.live
    req := Function.update s.req c { s.req c with refCnt := (s.req c).refCnt - 1 } }

theorem ReqInv.dropped (h : ReqInv noInterrupt s xs ys owner) (hpc : s.pc t = .drop q c) :
    ReqInv noInterrupt (s.dropped t q c) xs ys owner ∧
      ((s.req c).refCnt - 1 = 0 →
        owner c = none ∧ ∀ u, ((s.dropped t q c).pc u).curr ≠ some c) := by
  have hlive : c ∈ s.live := h.curr_live (t := t) (by rw [hpc]; rfl)
  have hu := (h.ok c).normal (.inr ⟨t, by rw [hpc]; rfl⟩)
  have hys : c ∉ ys := fun hin => by
    obtain ⟨func, hni⟩ := hu
    obtain ⟨unique, hi⟩ := (h.ok c).asks (.inl hin)
    rw [hni] at hi
    exact absurd hi (by simp)
  have hpc' : (s.dropped t q c).pc = Function.update s.pc t (.free q none) := rfl
  have hreqc : (s.dropped t q c).req c = { s.req c with refCnt := (s.req c).refCnt - 1 } :=
    Function.update_self ..
  have hview : ∀ p : ReqPc R Fn → Prop, (p (.free q none) → p (.drop q c)) →
      ∀ u, p ((s.dropped t q c).pc u) → p (s.pc u) := fun p hp u =>
    (pc_view hpc').1 (by rw [hpc]; exact hp)
  have hback : ∀ p : ReqPc R Fn → Prop, (p (.drop q c) → p (.free q none)) →
      ∀ u, p (s.pc u) → p ((s.dropped t q c).pc u) := fun p hp u =>
    (pc_view hpc').2 (by rw [hpc]; exact hp)
  obtain ⟨n, hn, href⟩ := (h.ok c).count
  have href := href hlive
  have hpos := hn.pos (t := t) (by rw [hpc]; rfl)
  obtain ⟨m, rfl⟩ := Nat.exists_eq_succ_of_ne_zero (Nat.ne_of_gt hpos)
  have hm : Counts (s.dropped t q c).pc (fun v => v.curr = some c) m :=
    hn.leave (by rw [hpc]; rfl) (by simp [ReqPc.curr])
  have hcount : (s.req c).refCnt - 1 = m + if Counted (owner c) then 1 else 0 := by
    rw [href]
    push_cast
    omega
  -- a request that is to be destroyed has its references in that thread alone
  have hdoomed : ∀ u, owner c ≠ some (.thread .doomed u) := fun u hown => by
    have hzero := (h.ok c).doomed u hown
    rw [href, hown] at hzero
    simp only [counted_doomed, if_false] at hzero
    omega
  have hcounted : Counted (owner c) ↔ owner c ≠ none := by
    refine ⟨counted_ne_none, fun hne => ?_⟩
    obtain ⟨p, hp⟩ := Option.ne_none_iff_exists'.mp hne
    rw [hp]
    cases p with
    | thread part u =>
        cases part with
        | doomed => exact absurd hp (hdoomed u)
        | _ => trivial
    | _ => trivial
  have hgone : (s.req c).refCnt - 1 = 0 → owner c = none ∧
      ∀ u, ((s.dropped t q c).pc u).curr ≠ some c := fun hzero => by
    have hnot : ¬ Counted (owner c) := fun hcnt => by
      rw [hcount, if_pos hcnt] at hzero
      omega
    have hm0 : m = 0 := by
      rw [hcount, if_neg hnot] at hzero
      omega
    refine ⟨by_contra fun hne => hnot (hcounted.mpr hne), fun u hu => ?_⟩
    exact absurd (hm.pos hu) (by omega)
  have hkeep : ∀ y, y ∈ (s.dropped t q c).live → y ∈ s.live := fun y hy => by
    simp only [ReqState.dropped] at hy
    split_ifs at hy
    · exact List.mem_of_mem_erase hy
    · exact hy
  have hchange : ReqChange s (s.dropped t q c) xs xs ys ys t (.free q none) c := {
    pc := rfl
    nodup := by
      simp only [ReqState.dropped]
      split_ifs
      · exact h.nodup.erase c
      · exact h.nodup
    kept := fun y hy => {
      live := by
        simp only [ReqState.dropped]
        split_ifs
        · exact List.mem_erase_of_ne hy
        · exact .rfl
      req := Function.update_of_ne hy ..
      called := rfl
      flight := id
      pending := id
      same := by
        rw [hpc]
        constructor <;>
          simp [ReqPc.curr, ReqPc.locked, ReqPc.used, ReqPc.asking, ReqPc.marked, Ne.symm hy] } }
  have hinv := h.change (o := owner c) hchange ?_ ?_ ?_ ?_
  · rw [Function.update_eq_self] at hinv
    exact ⟨hinv, hgone⟩
  · rw [Function.update_eq_self]
    exact h.lists
  · rw [Function.update_eq_self]
    refine places_same h.places hpc' (fun part => ?_) rfl
    rw [hpc]
    cases part <;> rfl
  · exact {
      flight := fun hin => by
        obtain ⟨hno, hwhere⟩ := (h.ok c).flight hin
        refine ⟨hno, hwhere.imp_right (Or.imp_right
          (Exists.imp fun u => Exists.imp fun next hfree => ?_))⟩
        exact hback (fun w => w = .free c next) (by simp) u hfree
      live := by
        by_cases hzero : (s.req c).refCnt - 1 = 0
        · obtain ⟨hnone, hno⟩ := hgone hzero
          refine iff_of_false ?_ ?_
          · simp only [ReqState.dropped, if_pos hzero]
            exact h.nodup.not_mem_erase
          · simpa [hnone] using hno
        · simp only [ReqState.dropped, if_neg hzero]
          refine iff_of_true hlive ?_
          by_cases hne : owner c = none
          · right
            rw [hcount, hne] at hzero
            simp only [counted_none, if_false] at hzero
            exact hm.exists_of_pos (by omega)
          · exact .inl hne
      count := ⟨m, hm, fun _ => by rw [hreqc]; exact hcount⟩
      doomed := fun u hown => absurd hown (hdoomed u)
      lock := fun hin u => by
        rw [hreqc]
        refine ((h.ok c).lock hlive u).trans ⟨hback (fun w => w.locked = some c) ?_ u,
          hview (fun w => w.locked = some c) ?_ u⟩ <;> simp [ReqPc.locked]
      uses := fun u hu => (h.ok c).uses u
        (hview (fun w => w.used = some c) (by simp [ReqPc.used]) u hu)
      ch := fun _ hno => by rw [hreqc]; exact (h.ok c).ch hlive hno
      asks := fun hasks => by
        rw [hreqc]
        exact (h.ok c).asks (hasks.imp_right (Exists.imp fun u hu =>
          hview (fun w => w.asking = some c) (by simp [ReqPc.asking]) u hu))
      normal := fun _ => by rw [hreqc]; exact hu
      fresh := fun u hu => by
        rw [hreqc]
        exact (h.ok c).fresh u (hview (fun w => w = .check c) (by simp) u hu)
      marked := fun u hu => by
        rw [hreqc]
        exact (h.ok c).marked u (hview (fun w => w.marked = some c) (by simp [ReqPc.marked]) u hu)
      told := fun _ hint f hf => by
        rw [hreqc] at hint hf
        exact ((h.ok c).told hlive hint f hf).imp_right (Exists.imp fun u hu =>
          hback (fun w => w = .test c (some f)) (by simp) u hu) }
  · exact h.apart.sub hchange (.refl ys) hys fun hin => ⟨hin, by rw [hreqc]⟩

theorem ReqInv.drop (h : ReqInv noInterrupt s xs ys owner) (hpc : s.pc t = .drop q c) :
    ∃ s', s.run noInterrupt t = some s' ∧ ReqGood noInterrupt s' ys := by
  have hlive : c ∈ s.live := h.curr_live (t := t) (by rw [hpc]; rfl)
  obtain ⟨hinv, hgone⟩ := h.dropped hpc
  obtain ⟨unique, hu⟩ := (h.ok q).asks (.inr ⟨t, by rw [hpc]; rfl⟩)
  have hqc : q ≠ c := by
    rintro rfl
    exact h.not_found hu t (by rw [hpc]; rfl)
  have hu' : ((s.dropped t q c).req q).u = .i unique := by
    simpa [ReqState.dropped, hqc] using hu
  have hown := hinv.atThread (t := t) (p := .own) (r := q)
    (by simp [ReqState.dropped, ReqState.setPc, ReqPc.part])
  have hqlive := hinv.owned_live (r := q) (by rw [hown]; simp)
  have hxs : q ∉ xs := fun hin => by
    obtain ⟨func, hni⟩ := (hinv.ok q).normal (.inl hin)
    rw [hu'] at hni
    exact absurd hni (by simp)
  have hys : q ∉ ys := hinv.not_pending (by simp [hown])
  have hlock : (s.req q).lock = none := by
    simpa [ReqState.dropped, hqc] using
      hinv.unlocked hqlive (hinv.not_found hu') (by simp [hown])
  -- what `destroy_req(curr)` relies on
  have hdestroy : (s.req c).refCnt - 1 = 0 → (s.req c).ch = false ∧ (s.req c).lock = none := by
    intro hzero
    obtain ⟨hnone, hnot⟩ := hgone hzero
    refine ⟨(h.ok c).ch hlive (by simp [hnone]), ?_⟩
    refine Option.eq_none_iff_forall_ne_some.mpr fun u hu => ?_
    have hlocked := ((h.ok c).lock hlive u).mp hu
    have hut : u ≠ t := by
      rintro rfl
      rw [hpc] at hlocked
      exact absurd hlocked (by simp [ReqPc.locked])
    rcases ReqPc.locked_cases hlocked with hc | hused
    · exact hnot u (by simpa [ReqState.dropped, ReqState.setPc, hut] using hc)
    · rw [(h.ok c).uses u hused] at hnone
      exact absurd hnone (by simp)
  refine ⟨{ s.dropped t q c with
    live := (s.dropped t q c).live.erase q
    req := Function.update (s.dropped t q c).req q { (s.dropped t q c).req q with ch := false }
    pc := Function.update s.pc t .idle }, ?_, xs, _,
    hinv.discardUnlisted (t := t) (v := .idle) ⟨rfl, fun y hy => Function.update_of_ne hy ..,
      rfl, rfl, ?_, fun y hy => ?_, fun part y => ?_, by simp [ReqPc.subjects]⟩ rfl
      (by simp [hown, eq_comm]) (hinv.not_found hu') hxs hys⟩
  · have hrun : s.run noInterrupt t = s.dropCurr t q c := by simp [ReqState.run, hpc]
    rw [hrun, ReqState.dropCurr]
    by_cases hzero : (s.req c).refCnt - 1 = 0
    · obtain ⟨hch, hclock⟩ := hdestroy hzero
      simp only [ReqState.dropped, if_pos hzero] at hqlive
      simp [ReqState.modify, ReqState.get, ReqState.destroyReq, ReqState.putChan, ReqState.dropped,
        ReqState.setPc, hlive, hzero, hch, hclock, hqlive, hqc, hlock]
    · simp only [ReqState.dropped, if_neg hzero] at hqlive
      simp [ReqState.modify, ReqState.get, ReqState.destroyReq, ReqState.putChan, ReqState.dropped,
        ReqState.setPc, hlive, hzero, hqlive, hqc, hlock]
  · simp [ReqState.dropped, ReqState.setPc]
  · exact sameFor_of_not_mem (by simp [ReqState.dropped, ReqState.setPc, ReqPc.subjects, hy])
      (by simp [ReqPc.subjects])
  · cases part <;> simp [ReqState.dropped, ReqState.setPc, ReqPc.part, eq_comm]

end UkfsFuse
