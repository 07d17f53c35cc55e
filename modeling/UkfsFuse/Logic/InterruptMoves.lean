import UkfsFuse.Logic.InterruptSteps

/-!
# A request from its allocation to its end

`fuse_ll_alloc_req`, the call of the handler, the reply, and `fuse_free_req`
with `destroy_req`. A request that nobody refers to any more is `discarded`.
-/

namespace UkfsFuse

open UkfsFuse.Core

variable {T R Fn : Type} [DecidableEq T] [DecidableEq R] {noInterrupt : Bool}
  {s s' : ReqState T R Fn} {xs xs' ys ys' : List R} {owner : R → Option (ReqPlace T)} {t u : T}
  {v : ReqPc R Fn} {r : R}

/-- What a step has to leave behind, with the pending interrupts `ys`. -/
def ReqGood (noInterrupt : Bool) (s : ReqState T R Fn) (ys : List R) : Prop :=
  ∃ xs owner, ReqInv noInterrupt s xs ys owner

/-! ## A request is allocated -/

/-- How a request begins its life: to be freed at once, as an interrupt, to be
checked for one, or to be dispatched. -/
inductive ReqBegins (noInterrupt : Bool) (t : T) (r : R) (x : LlReq T Fn) :
    ReqPc R Fn → ReqPlace T → Prop
  | free : ReqBegins noInterrupt t r x (.free r none) (.thread .own t)
  | interrupt (unique : UInt64) (hu : x.u = .i unique) :
      ReqBegins noInterrupt t r x (.interrupt r) (.thread .own t)
  | check (hu : x.u = .ni none) (hmode : noInterrupt = false) :
      ReqBegins noInterrupt t r x (.check r) (.thread .own t)
  | dispatch : ReqBegins noInterrupt t r x (.dispatch r) (.thread .next t)

/-- The state after the allocation, of request `r` by thread `t`. -/
structure ReqAllocated (s s' : ReqState T R Fn) (t : T) (r : R) (x : LlReq T Fn)
    (v : ReqPc R Fn) : Prop where
  live : s'.live = r :: s.live
  req : s'.req = Function.update s.req r x
  links : s'.links = s.links.init (.req r)
  pc : s'.pc = Function.update s.pc t v
  held : s'.held = s.held
  called : ∀ y, y ≠ r → s'.called y = s.called y

omit [DecidableEq T] [DecidableEq R] in
/-- Nobody knows of a request that is not allocated. -/
theorem ReqInv.unknown (h : ReqInv noInterrupt s xs ys owner) (hr : r ∉ s.live) :
    owner r = none ∧ r ∉ xs ∧ r ∉ ys ∧ ∀ u, (s.pc u).curr ≠ some r ∧ (s.pc u).used ≠ some r ∧
      ∀ part, (s.pc u).part part ≠ some r := by
  have hnone : owner r = none := by
    by_contra hne
    exact hr (h.owned_live hne)
  refine ⟨hnone, fun hin => hr (h.flight_live hin), fun hin => hr (h.pending_live hin),
    fun u => ⟨fun hu => hr (h.curr_live hu), fun hu => hr (h.used_live hu).2, fun part hu => ?_⟩⟩
  rw [h.atThread hu] at hnone
  exact absurd hnone (by simp)

theorem ReqInv.alloc (h : ReqInv noInterrupt s xs ys owner) {x : LlReq T Fn} {p : ReqPlace T}
    (hidle : s.pc t = .idle) (hr : r ∉ s.live) (hcount : x.refCnt = 1) (hlock : x.lock = none)
    (hint : x.interrupted = false) (hs : ReqAllocated s s' t r x v)
    (hv : ReqBegins noInterrupt t r x v p) :
    ReqInv noInterrupt s' xs ys (Function.update owner r (some p)) := by
  obtain ⟨hnone, hxs, hys, hnot⟩ := h.unknown hr
  have hpc : ∀ u, s'.pc u = v ∧ u = t ∨ s'.pc u = s.pc u ∧ u ≠ t := fun u => by
    rw [hs.pc]
    by_cases hut : u = t
    · subst hut
      exact .inl ⟨Function.update_self .., rfl⟩
    · exact .inr ⟨Function.update_of_ne hut .., hut⟩
  have hreqr : s'.req r = x := by rw [hs.req, Function.update_self]
  have hreqne : ∀ y, y ≠ r → s'.req y = s.req y := fun y hy => by
    rw [hs.req, Function.update_of_ne hy]
  have hcurr : ∀ u, (s'.pc u).curr ≠ some r := fun u => by
    rcases hpc u with ⟨hu, -⟩ | ⟨hu, -⟩ <;> rw [hu]
    · cases hv <;> simp [ReqPc.curr]
    · exact (hnot u).1
  have hused : ∀ u, (s'.pc u).used ≠ some r := fun u => by
    rcases hpc u with ⟨hu, -⟩ | ⟨hu, -⟩ <;> rw [hu]
    · cases hv <;> simp [ReqPc.used]
    · exact (hnot u).2.1
  have hcounted : Counted (some p) := by cases hv <;> trivial
  have hchange : ReqChange s s' xs xs ys ys t v r := {
    pc := hs.pc
    nodup := by rw [hs.live]; exact List.nodup_cons.mpr ⟨hr, h.nodup⟩
    kept := fun y hy => {
      live := by rw [hs.live, List.mem_cons, or_iff_right hy]
      req := hreqne y hy
      called := hs.called y hy
      flight := id
      pending := id
      same := sameFor_of_not_mem (by rw [hidle]; simp [ReqPc.subjects])
        (by cases hv <;> simp [ReqPc.subjects, hy]) } }
  refine h.change hchange ?_ ?_ ?_ ?_
  · rw [hs.links]
    refine (h.lists.init hxs hys (by rw [hnone]; exact fun hc => hc.1)).mono fun y hy => ?_
    by_cases hyr : y = r
    · exact .inr hyr
    · rw [Function.update_of_ne hyr] at hy
      exact .inl hy
  · refine places_put h.places hs.pc ?_ (fun y _ => by rw [hs.held]) (fun _ _ => .rfl) ?_ ?_ ?_ ?_
    · intro part y hy
      rw [hidle]
      cases hv <;> cases part <;> simp [ReqPc.part, Ne.symm hy]
    · intro part
      cases hv <;> cases part <;> simp [ReqPc.part]
    · intro part u hut
      rw [hnone]
      cases hv <;> simp [Ne.symm hut]
    · rw [hs.held]
      cases hv <;> simp [h.not_held (r := r) (by simp [hnone])]
    · cases hv <;> simp [hys]
  · exact {
      flight := fun hin => absurd hin hxs
      live := iff_of_true (by rw [hs.live]; exact List.mem_cons_self) (.inl (by simp))
      count := ⟨0, .zero hcurr, fun _ => by rw [hreqr, hcount, if_pos hcounted]; rfl⟩
      doomed := fun u hown => by
        rw [hown] at hcounted
        exact absurd hcounted id
      lock := fun _ u => by
        rw [hreqr, hlock]
        exact iff_of_false (by simp) fun hu => (ReqPc.locked_cases hu).elim (hcurr u) (hused u)
      uses := fun u hu => absurd hu (hused u)
      ch := fun _ hno => absurd hcounted hno
      asks := fun hasks => by
        obtain ⟨u, hat⟩ := hasks.resolve_left hys
        rcases hpc u with ⟨hu, -⟩ | ⟨hu, -⟩ <;> rw [hu] at hat
        · cases hv with
          | interrupt unique hi => exact ⟨unique, by rw [hreqr, hi]⟩
          | _ => exact absurd hat (by simp [ReqPc.asking])
        · exact absurd (ReqPc.asking_own hat) ((hnot u).2.2 .own)
      normal := fun hnormal => by
        obtain ⟨u, hat⟩ := hnormal.resolve_left hxs
        exact absurd hat (hcurr u)
      fresh := fun u hat => by
        rcases hpc u with ⟨hu, -⟩ | ⟨hu, -⟩ <;> rw [hu] at hat
        · cases hv with
          | check hni hmode => exact ⟨hmode, by rw [hreqr, hni]⟩
          | _ => exact absurd hat (by simp)
        · exact absurd (by rw [hat]; rfl) ((hnot u).2.2 .own)
      marked := fun u hu => absurd (ReqPc.marked_curr hu) (hcurr u)
      told := fun _ hyint => by
        rw [hreqr, hint] at hyint
        exact absurd hyint (by simp) }
  · exact h.apart.sub hchange (.refl ys) hys fun hin => absurd hin hxs

/-! ## A request is handed on -/

/-- Thread `t` gives request `r` away, or is given it, and nothing else
changes. -/
theorem ReqInv.pass (h : ReqInv noInterrupt s xs ys owner) {p : ReqPlace T} {held : R → Bool}
    (hold : Counted (owner r)) (hnew : Counted (some p)) (hsame : ∀ y, SameFor y (s.pc t) v)
    (hplaces : Owned (({ s.setPc t v with held := held } : ReqState T R Fn).InPlace ys)
      (Function.update owner r (some p)))
    (hflight : r ∈ xs → p = .backend ∨ v = .free r none)
    (huses : p ≠ .backend → ∀ u, (s.pc u).used ≠ some r) :
    ReqInv noInterrupt { s.setPc t v with held := held } xs ys
      (Function.update owner r (some p)) := by
  have hkept : ∀ y, ReqKept s { s.setPc t v with held := held } xs xs ys ys t v y :=
    fun y => ⟨.rfl, rfl, rfl, id, id, hsame y⟩
  have hframe : ReqOk noInterrupt { s.setPc t v with held := held } xs ys (owner r) r :=
    (h.ok r).frame rfl (hkept r)
  refine h.change ⟨rfl, h.nodup, fun y _ => hkept y⟩ ?_ hplaces ?_ h.apart
  · exact h.lists.mono fun y hy => ⟨counted_put hold hy.1, hy.2⟩
  · refine hframe.hand hold hnew (fun hx => (hflight hx).imp_right fun hv => ?_) fun hp u hu => ?_
    · exact .inr ⟨t, none, by simp [ReqState.setPc, hv]⟩
    · exact huses hp u ((pc_view rfl (p := fun w => w.used = some r)).1 (hsame r).used hu)

/-- The handler is called: the backend has the request. -/
theorem ReqInv.dispatch (h : ReqInv noInterrupt s xs ys owner) (hpc : s.pc t = .dispatch r) :
    ∃ s', s.run noInterrupt t = some s' ∧
      ReqInv noInterrupt s' xs ys (Function.update owner r (some .backend)) := by
  have hown := h.atThread (t := t) (p := .next) (r := r) (by rw [hpc]; rfl)
  refine ⟨_, by simp only [ReqState.run, hpc]; rfl, ?_⟩
  refine h.pass (by rw [hown]; trivial) trivial (fun y => ?_) ?_ (fun _ => .inl rfl)
    fun hne => absurd rfl hne
  · exact sameFor_of_not_mem (by simp [hpc, ReqPc.subjects]) (by simp [ReqPc.subjects])
  · refine places_put h.places rfl ?_ (fun y hy => by simp [hy]) (fun _ _ => .rfl) ?_ ?_ ?_ ?_
    · intro part y hy
      rw [hpc]
      cases part <;> simp [ReqPc.part, Ne.symm hy]
    · intro part
      cases part <;> simp [ReqPc.part]
    · intro part u hut
      simp [hown, Ne.symm hut]
    · simp
    · simpa using h.not_pending (by simp [hown])

/-- One of the reply functions is called on a request of the backend. -/
theorem ReqInv.reply (h : ReqInv noInterrupt s xs ys owner) (hidle : s.pc t = .idle)
    (hheld : s.held r = true) (hused : ∀ u, (s.pc u).used ≠ some r) :
    ReqInv noInterrupt { s.setPc t (.free r none) with held := Function.update s.held r false }
      xs ys (Function.update owner r (some (.thread .own t))) := by
  have hown := (h.places .backend r).mp hheld
  refine h.pass (by rw [hown]; trivial) trivial (fun y => ?_) ?_ (fun _ => .inr rfl)
    fun _ => hused
  · rw [hidle]
    constructor <;> simp [ReqPc.curr, ReqPc.locked, ReqPc.used, ReqPc.asking, ReqPc.marked]
  · refine places_put h.places rfl ?_ (fun y hy => by simp [hy]) (fun _ _ => .rfl) ?_ ?_ ?_ ?_
    · intro part y hy
      rw [hidle]
      cases part <;> simp [ReqPc.part, Ne.symm hy]
    · intro part
      cases part <;> simp [ReqPc.part]
    · intro part u hut
      simp [hown, Ne.symm hut]
    · simp
    · simpa using h.not_pending (by simp [hown])

/-! ## A request is given up -/

/-- Whoever has request `r` destroys it; it may have been in `se->interrupts`. -/
structure ReqDiscarded (s s' : ReqState T R Fn) (t : T) (v : ReqPc R Fn) (r : R) : Prop where
  live : s'.live = s.live.erase r
  req : ∀ y, y ≠ r → s'.req y = s.req y
  called : s'.called = s.called
  held : s'.held = s.held
  pc : s'.pc = Function.update s.pc t v
  same : ∀ y, y ≠ r → SameFor y (s.pc t) v
  part : ∀ part y, v.part part = some y ↔ (s.pc t).part part = some y ∧ y ≠ r
  subjects : r ∉ v.subjects

theorem ReqInv.discard (h : ReqInv noInterrupt s xs ys owner) (hs : ReqDiscarded s s' t v r)
    (hown : owner r ≠ some .backend ∧ ∀ part u, owner r = some (.thread part u) → u = t)
    (hcurr : ∀ u, (s.pc u).curr ≠ some r) (hxs : r ∉ xs)
    (hlists : ReqLists s'.links xs (ys.erase r) fun y =>
      Counted (owner y) ∧ y ≠ r ∧ y ∉ xs ∧ y ∉ ys) :
    ReqInv noInterrupt s' xs (ys.erase r) (Function.update owner r none) := by
  have hnodup : ys.Nodup := (List.nodup_cons.mp h.lists.pending.nodup).2.of_map
  have hys : r ∉ ys.erase r := hnodup.not_mem_erase
  have hlive : r ∉ s'.live := by rw [hs.live]; exact h.nodup.not_mem_erase
  -- no thread does anything with `r` any more
  have hnot : ∀ u, r ∉ (s'.pc u).subjects ∨ (s'.pc u = s.pc u ∧ u ≠ t) := fun u => by
    rw [hs.pc]
    by_cases hut : u = t
    · subst hut
      rw [Function.update_self]
      exact .inl hs.subjects
    · rw [Function.update_of_ne hut]
      exact .inr ⟨rfl, hut⟩
  have hpart : ∀ u, u ≠ t → ∀ part, (s.pc u).part part ≠ some r := fun u hut part hu =>
    hut (hown.2 part u (h.atThread hu))
  have hgone : ∀ u, (s'.pc u).curr ≠ some r ∧ (s'.pc u).used ≠ some r ∧
      (s'.pc u).asking ≠ some r ∧ s'.pc u ≠ .check r := fun u => by
    rcases hnot u with hsub | ⟨hsame, hut⟩
    · obtain ⟨hc, -, hu, ha, hk, -, -, -⟩ := not_mem_subjects hsub
      exact ⟨hc, hu, ha, hk⟩
    · rw [hsame]
      refine ⟨hcurr u, fun hu => hown.1 ((h.ok r).uses u hu),
        fun ha => hpart u hut .own (ReqPc.asking_own ha), fun hk => hpart u hut .own ?_⟩
      rw [hk]
      rfl
  have hchange : ReqChange s s' xs xs ys (ys.erase r) t v r := {
    pc := hs.pc
    nodup := by rw [hs.live]; exact h.nodup.erase r
    kept := fun y hy => {
      live := by rw [hs.live, List.mem_erase_of_ne hy]
      req := hs.req y hy
      called := by rw [hs.called]
      flight := id
      pending := (List.mem_erase_of_ne hy).mp
      same := hs.same y hy } }
  refine h.change hchange ?_ ?_ ?_ ?_
  · refine hlists.mono fun y hy => ?_
    have hyr : y ≠ r := fun heq => by
      rw [heq, Function.update_self] at hy
      exact hy.1
    rw [Function.update_of_ne hyr, List.mem_erase_of_ne hyr] at hy
    exact ⟨hy.1, hyr, hy.2⟩
  · refine places_put h.places hs.pc (fun part y hy => ?_) (fun y _ => by rw [hs.held])
      (fun y hy => List.mem_erase_of_ne hy) (fun part => ?_) (fun part u hut => ?_) ?_ ?_
    · rw [hs.part]
      exact and_iff_left hy
    · rw [hs.part]
      simp
    · exact ⟨fun hr => hut (hown.2 part u hr), by simp⟩
    · rw [hs.held]
      exact iff_of_false (fun hheld => hown.1 ((h.places .backend r).mp hheld)) (by simp)
    · exact iff_of_false hys (by simp)
  · exact {
      flight := fun hin => absurd hin hxs
      live := iff_of_false hlive (by simpa using fun u => (hgone u).1)
      count := ⟨0, .zero fun u => (hgone u).1, fun hin => absurd hin hlive⟩
      doomed := fun u hr => absurd hr (by simp)
      lock := fun hin => absurd hin hlive
      uses := fun u hu => absurd hu (hgone u).2.1
      ch := fun hin => absurd hin hlive
      asks := fun hasks => by
        obtain ⟨u, hu⟩ := hasks.resolve_left hys
        exact absurd hu (hgone u).2.2.1
      normal := fun hnormal => by
        obtain ⟨u, hu⟩ := hnormal.resolve_left hxs
        exact absurd hu (hgone u).1
      fresh := fun u hu => absurd hu (hgone u).2.2.2
      marked := fun u hu => absurd (ReqPc.marked_curr hu) (hgone u).1
      told := fun hin => absurd hin hlive }
  · exact h.apart.sub hchange List.erase_sublist hys fun hin => absurd hin hxs

/-- A request in neither list is destroyed. -/
theorem ReqInv.discardUnlisted (h : ReqInv noInterrupt s xs ys owner)
    (hs : ReqDiscarded s s' t v r) (hlinks : s'.links = s.links)
    (hown : owner r ≠ some .backend ∧ ∀ part u, owner r = some (.thread part u) → u = t)
    (hcurr : ∀ u, (s.pc u).curr ≠ some r) (hxs : r ∉ xs) (hys : r ∉ ys) :
    ReqInv noInterrupt s' xs ys (Function.update owner r none) := by
  have hkeep : ys.erase r = ys := List.erase_of_not_mem hys
  have hinv := h.discard hs hown hcurr hxs (by
    rw [hkeep, hlinks]
    exact h.lists.mono fun y hy => ⟨hy.1, hy.2.2⟩)
  rwa [hkeep] at hinv

end UkfsFuse
