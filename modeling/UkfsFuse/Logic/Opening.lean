import UkfsFuse.Logic.Answers

/-!
# Readers opening a file

`fusefs_read` tests `ff->fh`, and `fusefs_do_open` stores the backend's handle
a whole round trip later. `OpenInv` follows a file through that window: as long
as readers open alone, the one reader in the window is the one that will be
given a handle, and the file is unopened until it stores it.
-/

namespace UkfsFuse

open UkfsFuse.Core

section Definitions

variable {T S F : Type}

/-- The node whose file the thread is opening: it is in `fusefs_do_open`. -/
def Pc.opening : Pc T S → Option Nat
  | .waiting (.open_ n _ _) | .woken (.open_ n _ _) => some n
  | _ => none

/-- `ff->fh` of node `n`. -/
def Sys.fhOf (s : Sys T S F) (n : Nat) : Option UInt64 :=
  (s.nodes[n]?).map fun node => node.file.fh

/-- The request is an OPEN, and the backend has received it. -/
def Handled.IsOpen : Handled → Prop
  | .callback (.open_ _ _) => True
  | _ => False

/-- A request and the reply to it. -/
structure Outcome where
  what : Handled
  origin : Origin
  reply : Reply
  mallocOk : Bool
deriving DecidableEq

/-- What became of handle `h`, once it has been replied to. -/
def Sys.outcome (s : Sys T S F) (h : Nat) : Option Outcome :=
  (s.handles[h]?).bind fun hd =>
    hd.answer.map fun answer => ⟨hd.what, hd.origin, answer.1, answer.2⟩

/-- The backend has answered an OPEN successfully, with the handle `fh`. -/
def Outcome.Opened (o : Outcome) (fh : UInt64) : Prop :=
  o.what.IsOpen ∧ ∃ f, o.reply = .open_ f ∧ f.fh = fh

/-- The request of `t` has been replied to otherwise than by `fuse_reply_open`. -/
def Refused (s : Sys T S F) (t : T) : Prop :=
  ∃ h o, s.outcome h = some o ∧ o.origin = s.origin t ∧ ∀ f, o.reply ≠ .open_ f

/-- A reader that finds `ff->fh` unset is the only one that is opening the
file, but for those whose OPEN has been refused; a backend opens with a handle
other than `(uint64_t)-1`, and `fuse_reply_open` gets its memory. -/
def OpensAlone (s : Sys T S F) : SysAct T S F → Prop
  | .run t _ => ∀ n iov off, s.pc t = .readTest n iov off → s.fhOf n = some FH_UNSET →
      ∀ u, (s.pc u).opening = some n → Refused s u
  | .reply h (.open_ f) mallocOk => ∀ hd, s.handles[h]? = some hd → hd.what.IsOpen →
      mallocOk = true ∧ f.fh ≠ FH_UNSET
  | _ => True

/-- A file is opened at most once, and keeps its handle. -/
structure LazyOpenSafe (s : Sys T S F) : Prop where
  /-- the backend has answered at most one OPEN of a file successfully -/
  once : ∀ i j o o' fh fh', s.outcome i = some o → s.outcome j = some o' → o.Opened fh →
    o'.Opened fh' → o.origin.node = o'.origin.node → i = j
  /-- its handle is on the way to the file, or stored in it -/
  kept : ∀ i o fh, s.outcome i = some o → o.Opened fh →
    (∃ t, (s.pc t).opening = some o.origin.node ∧ s.origin t = o.origin) ∨
      s.fhOf o.origin.node = some fh

/-- The thread is opening node `n`, and may still be given a handle. -/
def Opens (s : Sys T S F) (t : T) (n : Nat) : Prop :=
  (s.pc t).opening = some n ∧ ¬ Refused s t

/-- What holds along the runs of `OpensAlone`. -/
structure OpenInv (s : Sys T S F) : Prop where
  node : ∀ t n, (s.pc t).opening = some n → (s.origin t).node = n
  input : ∀ t ino flags, (s.pc t).Outstanding → (s.record t).input = .open_ ino flags →
    (s.pc t).opening ≠ none
  unset : ∀ t n, Opens s t n → s.fhOf n = some FH_UNSET
  alone : ∀ t u n, Opens s t n → Opens s u n → t = u
  given : ∀ i o fh, s.outcome i = some o → o.Opened fh → o.mallocOk = true ∧ fh ≠ FH_UNSET
  safe : LazyOpenSafe s

end Definitions

/-! ## What `fusefs_do_open` stores -/

section Replies

variable {op : FuseLowlevelOps} {req : FuseUkfsRequest}

/-- A handle comes from a `struct fuse_open_out`. -/
theorem doOpenFinish_eq_some {answer : Answer} {e : Int32} {fh : UInt64}
    (h : fusefsDoOpenFinish answer = some (e, some fh)) :
    e = 0 ∧ ∃ out, answer.replyData = some (.openOut out) ∧ out.fh = fh := by
  rcases doOpenFinish_cases h with ⟨-, -, hfh⟩ | ⟨-, -, -, hfh⟩ | ⟨out, -, hdata, rfl, hfh⟩
  · exact absurd hfh (by simp)
  · exact absurd hfh (by simp)
  · exact ⟨rfl, out, hdata, (Option.some.inj hfh).symm⟩

/-- A handle is stored exactly when the reply was `fuse_reply_open`, and then
it is the backend's. -/
theorem doOpenFinish_answerIn [Platform] {r : Reply} {mallocOk : Bool} {e : Int32} {fh : UInt64} :
    fusefsDoOpenFinish (r.answerIn (fuseSessionNewVersioned op) mallocOk req) = some (e, some fh) ↔
      e = 0 ∧ mallocOk = true ∧ ∃ f, r = .open_ f ∧ f.fh = fh := by
  constructor
  · intro h
    obtain ⟨rfl, out, hdata, rfl⟩ := doOpenFinish_eq_some h
    obtain ⟨rfl, hleaves⟩ := Reply.leaves_of_object hdata
    cases hleaves with
    | open_ f => exact ⟨rfl, rfl, f, rfl, rfl⟩
  · rintro ⟨rfl, rfl, f, rfl, rfl⟩
    rfl

end Replies

/-! ## Reading the invariant -/

section Reading

variable {T S F : Type} {s s' : Sys T S F} {t : T} {owner : T → Option (Place T)}

theorem Pc.Free.opening {p : Pc T S} (h : p.Free) : p.opening = none := by
  cases p <;> first | rfl | exact h.elim

theorem Pc.opening_woken (k : Cont) :
    (woken k : Pc T S).opening = (waiting k : Pc T S).opening := by
  cases k <;> rfl

theorem outcome_eq_some {i : Nat} {o : Outcome} (h : s.outcome i = some o) :
    ∃ hd, s.handles[i]? = some hd ∧ hd.what = o.what ∧ hd.origin = o.origin ∧
      hd.answer = some (o.reply, o.mallocOk) := by
  obtain ⟨hd, hi, hanswer⟩ := Option.bind_eq_some_iff.mp h
  obtain ⟨answer, hsome, rfl⟩ := Option.map_eq_some_iff.mp hanswer
  exact ⟨hd, hi, rfl, rfl, hsome⟩

theorem outcome_of_handles (h : s'.handles = s.handles) : s'.outcome = s.outcome := by
  funext i
  rw [Sys.outcome, h, Sys.outcome]

/-- Who has been refused depends on requests and replies only. -/
theorem Refused.of_eq (h : Refused s t) (horigin : s'.origin t = s.origin t)
    (houtcome : s'.outcome = s.outcome) : Refused s' t := by
  rw [Refused, horigin, houtcome]
  exact h

/-- A step that moves no reader in or out of `fusefs_do_open`, and no reply. -/
theorem OpenInv.keep (h : OpenInv s) (hopening : ∀ u, (s'.pc u).opening = (s.pc u).opening)
    (hout : ∀ u, (s'.pc u).Outstanding → (s.pc u).Outstanding)
    (hinput : ∀ u, (s'.record u).input = (s.record u).input) (horigin : s'.origin = s.origin)
    (houtcome : s'.outcome = s.outcome)
    (hfh : ∀ n fh, s.fhOf n = some fh → s'.fhOf n = some fh) : OpenInv s' := by
  have hopens : ∀ u n, Opens s' u n → Opens s u n := fun u n ho =>
    ⟨hopening u ▸ ho.1, fun hr => ho.2 (hr.of_eq (by rw [horigin]) houtcome)⟩
  exact {
    node := fun u n ho => by
      rw [hopening] at ho
      rw [horigin]
      exact h.node u n ho
    input := fun u ino flags hu hin => by
      rw [hinput] at hin
      rw [hopening]
      exact h.input u ino flags (hout u hu) hin
    unset := fun u n ho => hfh _ _ (h.unset u n (hopens u n ho))
    alone := fun u v n hu hv => h.alone u v n (hopens u n hu) (hopens v n hv)
    given := by rw [houtcome]; exact h.given
    safe := {
      once := by rw [houtcome]; exact h.safe.once
      kept := by
        intro i o fh hi ho
        rw [houtcome] at hi
        refine (h.safe.kept i o fh hi ho).imp ?_ (hfh _ _)
        rintro ⟨u, hu, horig⟩
        exact ⟨u, by rw [hopening]; exact hu, by rw [horigin]; exact horig⟩ } }

variable [Platform] {ops : S → FuseLowlevelOps}

/-- A request is replied to once. -/
theorem Accounted.outcome_single (h : Accounted ops s owner) {i j : Nat} {o o' : Outcome}
    (hi : s.outcome i = some o) (hj : s.outcome j = some o') (horigin : o.origin = o'.origin) :
    i = j := by
  obtain ⟨hd, hi, -, ho, -⟩ := outcome_eq_some hi
  obtain ⟨hd', hj, -, ho', -⟩ := outcome_eq_some hj
  exact h.single i j hd hd' hi hj (by rw [ho, ho', horigin])

/-- A reader whose OPEN was answered by `fuse_reply_open` has not been refused. -/
theorem Accounted.not_refused (h : Accounted ops s owner) {i : Nat} {o : Outcome}
    {f : FuseFileInfo} (hi : s.outcome i = some o) (hreply : o.reply = .open_ f)
    (horigin : s.origin t = o.origin) : ¬ Refused s t := by
  rintro ⟨j, o', hj, horigin', hnot⟩
  obtain rfl := h.outcome_single hi hj (by rw [horigin', horigin])
  obtain rfl : o = o' := by rw [hi] at hj; exact Option.some.inj hj
  exact hnot f hreply

theorem Accounted.woken_outcome (h : Accounted ops s owner) {k : Cont}
    (hpc : s.pc t = .woken k) :
    ∃ i o se, s.outcome i = some o ∧ o.origin = s.origin t ∧
      (s.record t).answer =
        o.reply.answerIn (fuseSessionNewVersioned (ops se)) o.mallocOk (s.record t) := by
  obtain ⟨hd, hmem, r, m, hserving, hanswer, heq⟩ := h.woken_reply hpc
  obtain ⟨i, hi⟩ := List.getElem?_of_mem hmem
  exact ⟨i, ⟨hd.what, hd.origin, r, m⟩, hd.se, by simp [Sys.outcome, hi, hanswer],
    hserving.origin, heq⟩

/-- The reader whose OPEN waits for a reply. -/
theorem OpenInv.pending (h : OpenInv s) (hacc : Accounted ops s owner) {b : Nat}
    {hd : Handle T S} (hh : s.handles[b]? = some hd) (hnone : hd.answer = none)
    (hopen : hd.what.IsOpen) :
    (s.pc hd.ukfsReq).opening = some hd.origin.node ∧ s.origin hd.ukfsReq = hd.origin := by
  have hheld : s.InPlace (.backend b) hd.ukfsReq := ⟨hd, hh, rfl, .inl hnone⟩
  obtain ⟨hd', hh', hserving, -, -⟩ := hacc.record_at hheld
  obtain rfl : hd = hd' := by rw [hh] at hh'; exact Option.some.inj hh'
  -- only an OPEN request ends in the callback for OPEN
  have hinput : ∃ ino flags, (s.record hd.ukfsReq).input = .open_ ino flags := by
    rw [hserving.what] at hopen
    cases hin : (s.record hd.ukfsReq).input with
    | open_ ino flags => exact ⟨ino, flags, rfl⟩
    | other n hn => rw [hin] at hopen; exact hopen.elim
    | _ =>
        rw [hin] at hopen
        simp only [RequestIn.handling, RequestIn.call] at hopen
        split_ifs at hopen <;> exact hopen.elim
  obtain ⟨ino, flags, hinput⟩ := hinput
  have hsome := h.input hd.ukfsReq ino flags (hacc.placed.outstanding_of hheld) hinput
  obtain ⟨n, hn⟩ := Option.ne_none_iff_exists'.mp hsome
  refine ⟨?_, hserving.origin.symm⟩
  rw [hn, hserving.origin, h.node _ n hn]

end Reading

/-! ## The steps -/

section Steps

variable {T S F : Type} [DecidableEq T] [Platform] {ops : S → FuseLowlevelOps}
  {s s' : Sys T S F} {t d : T} {owner : T → Option (Place T)}

omit [Platform] in
/-- Only the point one thread is at has changed, and not inside `fusefs_do_open`. -/
theorem OpenInv.setPc (h : OpenInv s) {v : Pc T S} (hold : (s.pc t).opening = none)
    (hv : v.opening = none) (hout : ¬ v.Outstanding) (hpc : s'.pc = Function.update s.pc t v)
    (hrecord : s'.record = s.record) (horigin : s'.origin = s.origin)
    (hhandles : s'.handles = s.handles)
    (hfh : ∀ n fh, s.fhOf n = some fh → s'.fhOf n = some fh) : OpenInv s' := by
  refine h.keep ?_ ?_ (fun u => by rw [hrecord]) horigin ?_ hfh
  · intro u
    rw [hpc]
    by_cases hu : u = t
    · subst hu
      rw [Function.update_self, hv, hold]
    · rw [Function.update_of_ne hu]
  · rw [hpc]
    exact outstanding_of_update hout
  · funext i
    simp only [Sys.outcome, hhandles]

omit [DecidableEq T] [Platform] in
theorem fhOf_append {nodes : List (Node S F)} (hnodes : s'.nodes = s.nodes ++ nodes) (n : Nat)
    (fh : UInt64) (h : s.fhOf n = some fh) : s'.fhOf n = some fh := by
  obtain ⟨node, hn, hfh⟩ := Option.map_eq_some_iff.mp h
  rw [Sys.fhOf, hnodes, List.getElem?_append_left (List.getElem?_eq_some_iff.mp hn).1, hn,
    Option.map_some, hfh]

omit [DecidableEq T] [Platform] in
/-- `fusefs_graft` leaves the handle alone. -/
theorem fhOf_setFile {i : Nat} {node : Node S F} {f : F} (hi : s.nodes[i]? = some node) (n : Nat)
    (fh : UInt64) (h : s.fhOf n = some fh) :
    (s.setFile i { node.file with upref := some f }).fhOf n = some fh := by
  rw [← h]
  show ((s.nodes.modify i _)[n]?).map _ = (s.nodes[n]?).map _
  rw [List.getElem?_modify]
  by_cases hin : i = n
  · subst hin
    simp [hi]
  · simp [hin]

omit [DecidableEq T] [Platform] in
theorem fhOf_setFh (i n : Nat) (fh : UInt64) :
    (s.setFh i fh).fhOf n = if i = n then (s.fhOf n).map fun _ => fh else s.fhOf n := by
  show ((s.nodes.modify i _)[n]?).map _ = _
  rw [List.getElem?_modify]
  by_cases hin : i = n
  · simp [hin, Sys.fhOf, Function.comp_def]
  · simp [hin, Sys.fhOf]

omit [Platform] in
/-- A request is initialised; if it is an OPEN, no other may be under way. -/
theorem OpenInv.submit (h : OpenInv s) {n : Nat} {node : Node S F} {input : RequestIn} {k : Cont}
    (hpc : (s.pc t).Free) (hn : s.nodes[n]? = some node) (hasks : Asks node.file n input k)
    (halone : ∀ iov off, k = .open_ n iov off → s.fhOf n = some FH_UNSET →
      ∀ u, (s.pc u).opening = some n → Refused s u)
    (hs : s.submit t n input k = some s') : OpenInv s' := by
  have hopening : ∀ m, (.waiting k : Pc T S).opening = some m →
      m = n ∧ s.fhOf n = some FH_UNSET ∧ ∃ iov off, k = .open_ n iov off := by
    intro m hm
    cases hasks with
    | open_ iov off hunset =>
        exact ⟨(Option.some.inj hm).symm, by rw [Sys.fhOf, hn, Option.map_some, hunset],
          iov, off, rfl⟩
    | _ => exact absurd hm (by simp [Pc.opening])
  obtain ⟨hpc', hrecord, horigin, hhandles, hnodes⟩ : s'.pc = Function.update s.pc t (.waiting k) ∧
      s'.record = Function.update s.record t (.init s.unique input) ∧
      s'.origin = Function.update s.origin t ⟨s.serial, n⟩ ∧ s'.handles = s.handles ∧
      s'.nodes = s.nodes := by
    obtain ⟨queue, -, rfl⟩ := Option.map_eq_some_iff.mp hs
    exact ⟨rfl, rfl, rfl, rfl, rfl⟩
  have houtcome := outcome_of_handles hhandles
  have hfh : ∀ m, s'.fhOf m = s.fhOf m := fun m => by rw [Sys.fhOf, hnodes, Sys.fhOf]
  -- the other readers are as far as they were
  have hothers : ∀ u m, u ≠ t → Opens s' u m → Opens s u m := by
    intro u m hu ho
    refine ⟨by simpa [hpc', hu] using ho.1, fun hr => ho.2 (hr.of_eq ?_ houtcome)⟩
    rw [horigin, Function.update_of_ne hu]
  have hself : ∀ m, Opens s' t m → m = n ∧ s.fhOf n = some FH_UNSET ∧
      ∃ iov off, k = .open_ n iov off :=
    fun m hm => hopening m (by simpa [hpc'] using hm.1)
  -- a reader that was opening the file already has been refused
  have hnew : ∀ u m, u ≠ t → Opens s' t m → Opens s' u m → False := by
    intro u m hu ht ho
    obtain ⟨rfl, hunset, iov, off, hk⟩ := hself m ht
    obtain ⟨hold, hlive⟩ := hothers u _ hu ho
    exact hlive (halone iov off hk hunset u hold)
  exact {
    node := by
      intro u m hm
      rw [hpc'] at hm
      rw [horigin]
      by_cases hu : u = t
      · subst hu
        rw [Function.update_self] at hm ⊢
        exact (hopening m hm).1.symm
      · rw [Function.update_of_ne hu] at hm ⊢
        exact h.node u m hm
    input := by
      intro u ino flags hout hin
      rw [hpc'] at hout ⊢
      rw [hrecord] at hin
      by_cases hu : u = t
      · subst hu
        rw [Function.update_self] at hin ⊢
        cases hasks with
        | open_ iov off hunset => simp [Pc.opening]
        | _ => exact absurd hin (by simp [FuseUkfsRequest.init])
      · rw [Function.update_of_ne hu] at hout hin ⊢
        exact h.input u ino flags hout hin
    unset := by
      intro u m hm
      rw [hfh]
      by_cases hu : u = t
      · subst hu
        obtain ⟨rfl, hunset, -⟩ := hself m hm
        exact hunset
      · exact h.unset u m (hothers u m hu hm)
    alone := by
      intro u v m hu hv
      by_cases hut : u = t
      · by_cases hvt : v = t
        · rw [hut, hvt]
        · subst hut
          exact (hnew v m hvt hu hv).elim
      · by_cases hvt : v = t
        · subst hvt
          exact (hnew u m hut hv hu).elim
        · exact h.alone u v m (hothers u m hut hu) (hothers v m hvt hv)
    given := by rw [houtcome]; exact h.given
    safe := {
      once := by rw [houtcome]; exact h.safe.once
      kept := by
        intro i o fh hi ho
        rw [houtcome] at hi
        rw [hfh]
        refine (h.safe.kept i o fh hi ho).imp_left ?_
        rintro ⟨u, hu, hu'⟩
        have hut : u ≠ t := by
          rintro rfl
          rw [hpc.opening] at hu
          exact absurd hu (by simp)
        exact ⟨u, by simpa [hpc', hut] using hu, by simpa [horigin, hut] using hu'⟩ } }

omit [Platform] in
/-- A client goes on with its answer: the files others are opening stay unset,
and no handle is lost. -/
theorem OpenInv.leave (h : OpenInv s) {v : Pc T S} (hv : v.Free)
    (hpc : s'.pc = Function.update s.pc t v) (hrecord : s'.record = s.record)
    (horigin : s'.origin = s.origin) (hhandles : s'.handles = s.handles)
    (hunset : ∀ u m, u ≠ t → Opens s u m → s'.fhOf m = some FH_UNSET)
    (hkept : ∀ i o fh, s.outcome i = some o → o.Opened fh →
      (∃ u, u ≠ t ∧ (s.pc u).opening = some o.origin.node ∧ s.origin u = o.origin) ∨
        s'.fhOf o.origin.node = some fh) : OpenInv s' := by
  have houtcome := outcome_of_handles hhandles
  have hne : ∀ u, (s'.pc u).opening ≠ none → u ≠ t := by
    rintro u hu rfl
    rw [hpc, Function.update_self, hv.opening] at hu
    exact hu rfl
  have hold : ∀ u, u ≠ t → s'.pc u = s.pc u := fun u hu => by rw [hpc, Function.update_of_ne hu]
  have hothers : ∀ u m, Opens s' u m → u ≠ t ∧ Opens s u m := by
    intro u m ho
    have hu := hne u (by rw [ho.1]; simp)
    exact ⟨hu, hold u hu ▸ ho.1, fun hr => ho.2 (hr.of_eq (by rw [horigin]) houtcome)⟩
  exact {
    node := by
      intro u m hm
      rw [hold u (hne u (by rw [hm]; simp))] at hm
      rw [horigin]
      exact h.node u m hm
    input := by
      intro u ino flags hout hin
      have hu : u ≠ t := by
        rintro rfl
        rw [hpc, Function.update_self] at hout
        exact hv.not_outstanding hout
      rw [hold u hu] at hout ⊢
      rw [hrecord] at hin
      exact h.input u ino flags hout hin
    unset := fun u m hm => hunset u m (hothers u m hm).1 (hothers u m hm).2
    alone := fun u w m hu hw => h.alone u w m (hothers u m hu).2 (hothers w m hw).2
    given := by rw [houtcome]; exact h.given
    safe := {
      once := by rw [houtcome]; exact h.safe.once
      kept := by
        intro i o fh hi ho
        rw [houtcome] at hi
        refine (hkept i o fh hi ho).imp_left ?_
        rintro ⟨u, hu, hopening, horig⟩
        exact ⟨u, by rw [hold u hu]; exact hopening, by rw [horigin]; exact horig⟩ } }

/-- A reader returns from `fusefs_do_open`, with a handle or with an error. -/
theorem OpenInv.finishOpen (h : OpenInv s) (hacc : Accounted ops s owner) {n : Nat}
    {iov : List UInt64} {off : UInt64} (hpc : s.pc t = .woken (.open_ n iov off)) (ok : Bool) :
    OpenInv (s.finish t (s.record t).answer ok (.open_ n iov off)) := by
  obtain ⟨i, o, se, hi, horigin, hanswer⟩ := hacc.woken_outcome hpc
  have hopening : (s.pc t).opening = some n := by rw [hpc]; rfl
  have hfin : ∀ e fh, fusefsDoOpenFinish (s.record t).answer = some (e, some fh) ↔
      e = 0 ∧ o.mallocOk = true ∧ ∃ f, o.reply = .open_ f ∧ f.fh = fh := by
    intro e fh
    rw [hanswer]
    exact doOpenFinish_answerIn
  -- a successful OPEN of this reader is the one it was woken for
  have hmine : ∀ j o' fh, s.outcome j = some o' → o'.Opened fh → s.origin t = o'.origin →
      fusefsDoOpenFinish (s.record t).answer = some (0, some fh) := by
    intro j o' fh hj ho' horigin'
    obtain rfl := hacc.outcome_single hi hj (by rw [horigin, horigin'])
    obtain rfl : o = o' := by rw [hi] at hj; exact Option.some.inj hj
    exact (hfin 0 fh).mpr ⟨rfl, (h.given i o fh hi ho').1, ho'.2⟩
  have hnothing : ∀ v : Pc T S, v.Free →
      (∀ fh, fusefsDoOpenFinish (s.record t).answer ≠ some (0, some fh)) →
        OpenInv (s.setPc t v) := by
    intro v hv hnone
    refine h.leave (t := t) hv rfl rfl rfl rfl (fun u m _ hm => h.unset u m hm) ?_
    intro j o' fh hj ho'
    refine (h.safe.kept j o' fh hj ho').imp_left ?_
    rintro ⟨u, hu, horig⟩
    refine ⟨u, ?_, hu, horig⟩
    rintro rfl
    exact hnone fh (hmine j o' fh hj ho' horig)
  simp only [Sys.finish]
  split
  · rename_i hres
    exact hnothing .undefined_ trivial fun fh => by rw [hres]; simp
  · rename_i hres
    exact hnothing .idle trivial fun fh => by rw [hres]; simp
  · rename_i e fh hstore
    obtain ⟨-, -, f, hf, hffh⟩ := (hfin e fh).mp hstore
    have hself : Opens s t n := ⟨hopening, hacc.not_refused hi hf horigin.symm⟩
    refine h.leave (t := t) (v := .readSubmit n iov off) trivial rfl rfl rfl rfl ?_ ?_
    · intro u m hu hm
      have hnm : n ≠ m := by
        rintro rfl
        exact hu (h.alone u t n hm hself)
      show (s.setFh n fh).fhOf m = _
      rw [fhOf_setFh, if_neg hnm]
      exact h.unset u m hm
    · intro j o' fh' hj ho'
      show _ ∨ (s.setFh n fh).fhOf _ = _
      rw [fhOf_setFh]
      rcases h.safe.kept j o' fh' hj ho' with ⟨u, hu, horig⟩ | hstored
      · by_cases hut : u = t
        · -- the handle that is stored now
          subst hut
          have hsame := hmine j o' fh' hj ho' horig
          rw [hstore] at hsame
          obtain rfl : fh = fh' := (Option.some.inj (Prod.mk.inj (Option.some.inj hsame)).2)
          have hn : n = o'.origin.node := by rw [hopening] at hu; exact Option.some.inj hu
          rw [if_pos hn, ← hn, h.unset u n hself]
          exact .inr rfl
        · exact .inl ⟨u, hut, hu, horig⟩
      · -- no handle is overwritten: the reader's file had none
        right
        have hne : n ≠ o'.origin.node := by
          rintro rfl
          rw [h.unset t _ hself] at hstored
          exact (h.given j o' fh' hj ho').2 (Option.some.inj hstored).symm
        rw [if_neg hne, hstored]

omit [DecidableEq T] in
/-- A reply function is called: an OPEN becomes successful only if no other
OPEN of the file is. -/
theorem OpenInv.reply (h : OpenInv s) (hacc : Accounted ops s owner) {b : Nat} {hd : Handle T S}
    {r : Reply} {mallocOk : Bool} {todo : List ReplyAct} (hh : s.handles[b]? = some hd)
    (hnone : hd.answer = none)
    (hgiven : ∀ f, r = .open_ f → hd.what.IsOpen → mallocOk = true ∧ f.fh ≠ FH_UNSET) :
    OpenInv { s with handles := s.handles.set b { hd with
      answer := some (r, mallocOk)
      todo := todo } } := by
  generalize hs' : ({ s with handles := s.handles.set b { hd with
    answer := some (r, mallocOk)
    todo := todo } } : Sys T S F) = s'
  obtain ⟨hpc, hrecord, horigin, hfh⟩ : s'.pc = s.pc ∧ s'.record = s.record ∧
      s'.origin = s.origin ∧ ∀ n, s'.fhOf n = s.fhOf n := by
    subst hs'
    exact ⟨rfl, rfl, rfl, fun _ => rfl⟩
  have hlt := (List.getElem?_eq_some_iff.mp hh).1
  have hself : s'.outcome b = some ⟨hd.what, hd.origin, r, mallocOk⟩ := by
    subst hs'
    simp [Sys.outcome, hlt]
  have hother : ∀ i, i ≠ b → s'.outcome i = s.outcome i := by
    subst hs'
    intro i hi
    simp [Sys.outcome, List.getElem?_set_ne (Ne.symm hi)]
  have hfresh : ∀ i o, s.outcome i = some o → i ≠ b ∧ o.origin ≠ hd.origin := by
    intro i o hi
    obtain ⟨x, hx, -, hxo, hxa⟩ := outcome_eq_some hi
    have hib : i ≠ b := by
      rintro rfl
      rw [hh] at hx
      rw [← Option.some.inj hx, hnone] at hxa
      exact absurd hxa (by simp)
    exact ⟨hib, fun heq => hib (hacc.single i b x hd hx hh (by rw [hxo, heq]))⟩
  have hopens : ∀ u n, Opens s' u n → Opens s u n := by
    rintro u n ⟨hu, hlive⟩
    refine ⟨by rw [hpc] at hu; exact hu, ?_⟩
    rintro ⟨i, o, hi, ho, hnot⟩
    exact hlive ⟨i, o, by rw [hother i (hfresh i o hi).1, hi], by rw [horigin]; exact ho, hnot⟩
  -- nobody else has opened the file
  have hfirst : hd.what.IsOpen → ∀ j o' fh', s.outcome j = some o' → o'.Opened fh' →
      hd.origin.node ≠ o'.origin.node := by
    intro hopen j o' fh' hj ho' hnode
    obtain ⟨hopening, horig⟩ := h.pending hacc hh hnone hopen
    have hlive : Opens s hd.ukfsReq hd.origin.node := by
      refine ⟨hopening, ?_⟩
      rintro ⟨i, o, hi, ho, -⟩
      exact (hfresh i o hi).2 (by rw [ho, horig])
    rcases h.safe.kept j o' fh' hj ho' with ⟨t, ht, horig'⟩ | hstored
    · obtain ⟨-, f, hf, -⟩ := ho'
      have hsame := h.alone t hd.ukfsReq _ ⟨ht, hacc.not_refused hj hf horig'⟩ (hnode ▸ hlive)
      exact (hfresh j o' hj).2 (by rw [← horig', hsame, horig])
    · rw [← hnode, h.unset _ _ hlive] at hstored
      exact (h.given j o' fh' hj ho').2 (Option.some.inj hstored).symm
  have hcases : ∀ i o, s'.outcome i = some o →
      (i = b ∧ o = ⟨hd.what, hd.origin, r, mallocOk⟩) ∨ (i ≠ b ∧ s.outcome i = some o) := by
    intro i o hi
    by_cases hib : i = b
    · subst hib
      rw [hself] at hi
      exact .inl ⟨rfl, (Option.some.inj hi).symm⟩
    · exact .inr ⟨hib, by rw [← hother i hib, hi]⟩
  exact {
    node := by rw [hpc, horigin]; exact h.node
    input := by rw [hpc, hrecord]; exact h.input
    unset := fun u n hu => by rw [hfh]; exact h.unset u n (hopens u n hu)
    alone := fun u v n hu hv => h.alone u v n (hopens u n hu) (hopens v n hv)
    given := by
      intro i o fh hi ho
      rcases hcases i o hi with ⟨rfl, rfl⟩ | ⟨-, hi⟩
      · obtain ⟨hopen, f, hf, rfl⟩ := ho
        exact hgiven f hf hopen
      · exact h.given i o fh hi ho
    safe := {
      once := by
        intro i j o o' fh fh' hi hj ho ho' hnode
        rcases hcases i o hi with ⟨rfl, rfl⟩ | ⟨-, hi⟩
        · rcases hcases j o' hj with ⟨rfl, -⟩ | ⟨-, hj⟩
          · rfl
          · exact absurd hnode (hfirst ho.1 j o' fh' hj ho')
        · rcases hcases j o' hj with ⟨rfl, rfl⟩ | ⟨-, hj⟩
          · exact absurd hnode.symm (hfirst ho'.1 i o fh hi ho)
          · exact h.safe.once i j o o' fh fh' hi hj ho ho' hnode
      kept := by
        intro i o fh hi ho
        rw [hpc, horigin, hfh]
        rcases hcases i o hi with ⟨rfl, rfl⟩ | ⟨-, hi⟩
        · exact .inl ⟨_, h.pending hacc hh hnone ho.1⟩
        · exact h.safe.kept i o fh hi ho } }

omit [DecidableEq T] [Platform] in
/-- The effects of a reply function come after the reply. -/
theorem outcome_set {b : Nat} {hd : Handle T S} {todo : List ReplyAct}
    (hh : s.handles[b]? = some hd)
    (hhandles : s'.handles = s.handles.set b { hd with todo := todo }) :
    s'.outcome = s.outcome := by
  funext i
  rw [Sys.outcome, hhandles, Sys.outcome]
  by_cases hib : b = i
  · subst hib
    rw [List.getElem?_set_self (List.getElem?_eq_some_iff.mp hh).1, hh]
    rfl
  · rw [List.getElem?_set_ne hib]

omit [DecidableEq T] [Platform] in
theorem outcome_append {hd : Handle T S} (hnone : hd.answer = none)
    (hhandles : s'.handles = s.handles ++ [hd]) : s'.outcome = s.outcome := by
  funext i
  rw [Sys.outcome, hhandles, Sys.outcome]
  by_cases hi : i < s.handles.length
  · rw [List.getElem?_append_left hi]
  · rw [List.getElem?_append_right (by omega),
      List.getElem?_eq_none (by omega : s.handles.length ≤ i)]
    cases i - s.handles.length with
    | zero => simp [hnone]
    | succ k => rfl

/-- One step of the system. -/
theorem OpenInv.step (h : OpenInv s) (hacc : Accounted ops s owner) {a : SysAct T S F}
    (halone : OpensAlone s a) (hs : s.Step ops a s') : OpenInv s' := by
  have hdaemon : ∀ {d se buf buf' pc pc'}, s.pc d = .daemon se buf pc →
      OpenInv (s.setPc d (.daemon se buf' pc')) := by
    intro d se buf buf' pc pc' hpc
    exact h.setPc (t := d) (by rw [hpc]; rfl) rfl (by simp [Pc.Outstanding]) rfl rfl rfl rfl
      fun _ _ => id
  cases hs with
  | stay a => exact h
  | mount se => exact h.keep (fun _ => rfl) (fun _ => id) (fun _ => rfl) rfl rfl fun _ _ => id
  | graft a n node f hn =>
      exact h.keep (fun _ => rfl) (fun _ => id) (fun _ => rfl) rfl rfl (fhOf_setFile hn)
  | vopen t queue hpc hq =>
      exact h.setPc (t := t) (by rw [hpc]; rfl) rfl (by simp [Pc.Outstanding]) rfl rfl rfl rfl
        fun _ _ => id
  | startNone t d buf startOk hpc hq =>
      exact h.setPc (t := t) (by rw [hpc]; rfl) rfl (by simp [Pc.Outstanding]) rfl rfl rfl rfl
        (fhOf_append rfl)
  | startDaemon t d buf se hpc hq hreg hd =>
      have hstart : OpenInv { s.setPc t .idle with
          nodes := s.nodes ++ [⟨fusefsFileAlloc F 1, s.registered⟩] } :=
        h.setPc (t := t) (by rw [hpc]; rfl) rfl (by simp [Pc.Outstanding]) rfl rfl rfl rfl
          (fhOf_append rfl)
      have hidle : (s.setPc t .idle).pc d = .idle := Sys.setPc_idle hd
      exact hstart.setPc (t := d) (by show ((s.setPc t .idle).pc d).opening = none; rw [hidle]; rfl)
        rfl (by simp [Pc.Outstanding]) rfl rfl rfl rfl fun _ _ => id
  | goto a t v hpc hv =>
      exact h.setPc (t := t) hpc.opening hv.opening hv.not_outstanding rfl rfl rfl rfl
        fun _ _ => id
  | submit a t n node input k s' hact hpc hn hasks hopen hs =>
      refine h.submit hpc hn hasks ?_ hs
      intro iov off hk hunset
      obtain ⟨hread, ok, rfl⟩ := hopen iov off hk
      exact halone n iov off hread hunset
  | down t k m ok hpc hq hdone =>
      refine h.keep ?_ ?_ ?_ rfl rfl fun _ _ => id
      · intro u
        by_cases hu : u = t
        · subst hu
          simp only [Sys.setPc, Function.update_self, hpc, Pc.opening_woken]
        · simp [Sys.setPc, hu]
      · intro u hout
        by_cases hu : u = t
        · subst hu; rw [hpc]; trivial
        · exact outstanding_of_ne u hu hout
      · intro u
        by_cases hu : u = t
        · subst hu; simp
        · simp [hu]
  | finish t k ok hpc =>
      by_cases hopen : ∃ n iov off, k = .open_ n iov off
      · obtain ⟨n, iov, off, rfl⟩ := hopen
        exact h.finishOpen hacc hpc ok
      · have hold : (s.pc t).opening = none := by
          rw [hpc]
          cases k with
          | open_ n iov off => exact absurd ⟨n, iov, off, rfl⟩ hopen
          | _ => rfl
        rcases Sys.finish_cases (s := s) (t := t) (s.record t).answer ok k with ⟨v, hv, heq⟩ |
          ⟨n, iov, off, e, fh, hk, -⟩ | ⟨n, path, len, e, -, -, heq⟩
        · rw [heq]
          exact h.setPc (t := t) hold hv.free.opening hv.free.not_outstanding rfl rfl rfl rfl
            fun _ _ => id
        · exact absurd ⟨n, iov, off, hk⟩ hopen
        · rw [heq]
          exact h.setPc (t := t) hold rfl (by simp [Pc.Outstanding]) rfl rfl rfl rfl
            (fhOf_append rfl)
  | callPop d se buf ok queue hpc hq =>
      exact h.keep (fun _ => rfl) (fun _ => id) (fun _ => rfl) rfl rfl fun _ _ => id
  | ret d se buf ok req queue hpc hat hq =>
      exact (hdaemon hpc).keep (fun _ => rfl) (fun _ => id) (fun _ => rfl) rfl rfl fun _ _ => id
  | unknown d se buf ok req hpc hmsg => exact hdaemon hpc
  | overrun d se buf ok req hpc hmsg => exact hdaemon hpc
  | message d se buf msg ok req hpc hmsg => exact hdaemon hpc
  | failed d se buf ok req hpc => exact hdaemon hpc
  | fail d se buf ok req act acts hpc =>
      exact (hdaemon hpc).keep (fun _ => rfl) (fun _ => id) (input_applyAct act req) rfl rfl
        fun _ _ => id
  | noReq d se buf ok req hpc hproc => exact hdaemon hpc
  | handle d se buf ok req r what hpc hproc =>
      exact (hdaemon hpc).keep (fun _ => rfl) (fun _ => id) (fun _ => rfl) rfl
        (outcome_append rfl rfl) fun _ _ => id
  | returned d se buf ok b hpc => exact hdaemon hpc
  | device d se buf ok req hpc => exact hdaemon hpc
  | queue t queue hq =>
      exact h.keep (fun _ => rfl) (fun _ => id) (fun _ => rfl) rfl rfl fun _ _ => id
  | reply b hd r mallocOk hh hacc' =>
      refine h.reply hacc hh hacc'.1 ?_
      rintro f rfl
      exact halone hd hh
  | replyStep b hd act rest hh htodo =>
      exact h.keep (fun _ => rfl) (fun _ => id) (input_applyAct act hd.ukfsReq) rfl
        (outcome_set hh rfl) fun _ _ => id

end Steps

end UkfsFuse
