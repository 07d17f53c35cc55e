import UkfsFuse.Logic.Identifiers
import UkfsFuse.Logic.Operation

/-!
# What the driver asks, and which replies it can read

A waiting client has submitted the request of its operation. It can go on with
a reply object of the kind the operation reads; the source is undefined for
any other, and for a listing that ends within its first entry.
-/

namespace UkfsFuse

open UkfsFuse.Core

/-- The file an operation is on. -/
def Cont.node : Cont → Nat
  | .open_ n _ _ | .read n _ _ | .getstat n | .lookup n _ _ | .listdir n _ _ => n

/-- The request that an operation on the file `ino` waits for. -/
inductive AskedOf (ino : UInt64) : RequestIn → Cont → Prop
  | lookup (n : Nat) (path : List UInt8) (len : Nat) :
      AskedOf ino (.lookup ino (.strndup path len)) (.lookup n path len)
  | getstat (n : Nat) : AskedOf ino (.getattr ino) (.getstat n)
  | listdir (n : Nat) (curp : UInt64) (len : Nat) :
      AskedOf ino (.readdir ino 0 curp 4096) (.listdir n curp len)
  | open_ (n : Nat) (iov : List UInt64) (off : UInt64) :
      AskedOf ino (.open_ ino 0) (.open_ n iov off)
  | read (n : Nat) (iov : List UInt64) (fh off : UInt64) :
      AskedOf ino (.read ino fh off (iovTotal iov).toUInt32) (.read n iov off)

/-- The operation behind the callback reads this reply object: one of its own
kind, and a listing that is empty or starts with a whole entry. -/
def Call.Reads : Call → ReplyData → Prop
  | .lookup .., .entry _ => True
  | .getattr .., .attr _ => True
  | .open_ .., .openOut _ => True
  | .read .., .bytes _ => True
  | .readdir .., .bytes bs => bs = [] ∨ FuseDirent.first bs ≠ none
  | _, _ => False

/-- The reply leaves the operation no object, or one that it reads. -/
def Reply.Meant (r : Reply) (call : Call) : Prop := ∀ data, r.payload = some data → call.Reads data

section Finish

variable [Platform] {answer : Answer}

omit [Platform] in
theorem doOpenFinish_ne_none
    (h : ∀ data, answer.replyData = some data → ∃ out, data = .openOut out) :
    fusefsDoOpenFinish answer ≠ none := by
  unfold fusefsDoOpenFinish
  split
  · simp
  · cases hdata : answer.replyData with
    | none => simp
    | some data =>
        obtain ⟨out, rfl⟩ := h data hdata
        simp

omit [Platform] in
theorem readFinish_ne_none {iov : List UInt64} (hsound : answer.Sound)
    (h : ∀ data, answer.replyData = some data → ∃ bs, data = .bytes bs) :
    fusefsReadFinish iov answer ≠ none := by
  unfold fusefsReadFinish
  split
  · simp
  · cases hdata : answer.replyData with
    | none => simp
    | some data =>
        obtain ⟨bs, rfl⟩ := h data hdata
        simp [hsound.size bs hdata]

omit [Platform] in
theorem getstatFinish_ne_none (h : ∀ data, answer.replyData = some data → ∃ st, data = .attr st) :
    fusefsGetstatFinish answer ≠ none := by
  unfold fusefsGetstatFinish
  split
  · simp
  · cases hdata : answer.replyData with
    | none => simp
    | some data =>
        obtain ⟨st, rfl⟩ := h data hdata
        simp

theorem lookupFinish_ne_none {F : Type} {len : Nat} {allocOk : Bool}
    (h : ∀ data, answer.replyData = some data → ∃ e, data = .entry e) :
    fusefsLookupFinish (F := F) len answer allocOk ≠ none := by
  unfold fusefsLookupFinish
  split
  · simp
  · cases hdata : answer.replyData with
    | none => simp
    | some data =>
        obtain ⟨e, rfl⟩ := h data hdata
        cases allocOk <;> simp

omit [Platform] in
/-- A whole entry has a whole header. -/
theorem firstNamelen_ne_none {bs : List UInt8} (h : FuseDirent.first bs ≠ none) :
    FuseDirent.firstNamelen bs ≠ none := by
  unfold FuseDirent.first at h
  unfold FuseDirent.firstNamelen
  have hlen : 20 ≤ bs.length := by
    by_contra hshort
    refine h (if_neg fun hfit => ?_)
    rw [FUSE_NAME_OFFSET] at hfit
    omega
  simp [hlen]

theorem listdirFinish_ne_none {curp : UInt64} {len : Nat} (hsound : answer.Sound)
    (h : ∀ data, answer.replyData = some data →
      ∃ bs, data = .bytes bs ∧ (bs = [] ∨ FuseDirent.first bs ≠ none)) :
    fusefsListdirFinish curp len answer ≠ none := by
  unfold fusefsListdirFinish
  split
  · simp
  split
  · simp
  rename_i herror hempty
  cases hdata : answer.replyData with
  | none => exact absurd (.inl hdata) hempty
  | some data =>
      obtain ⟨bs, rfl, hbs⟩ := h data hdata
      rcases hbs with rfl | hfirst
      · exact absurd (.inr (hsound.size [] hdata)) hempty
      · obtain ⟨namelen, hname⟩ := Option.ne_none_iff_exists'.mp (firstNamelen_ne_none hfirst)
        obtain ⟨fd, hfd⟩ := Option.ne_none_iff_exists'.mp hfirst
        simp only [hname, hfd]
        split <;> simp

end Finish

section Steps

variable {T S F : Type} [DecidableEq T] [Platform] {ops : S → FuseLowlevelOps} {s s' : Sys T S F}
  {a : SysAct T S F}

omit [Platform] in
/-- A request is one of the inode of its file. -/
theorem Asks.askedOf {ff : FusefsFile F} {n : Nat} {input : RequestIn} {k : Cont}
    (h : Asks ff n input k) : k.node = n ∧ AskedOf ff.nodeid input k := by
  cases h with
  | lookup path len => exact ⟨rfl, .lookup n path len⟩
  | getstat => exact ⟨rfl, .getstat n⟩
  | listdir curp len => exact ⟨rfl, .listdir n curp len⟩
  | open_ iov off hunset => exact ⟨rfl, .open_ n iov off⟩
  | read iov off => exact ⟨rfl, .read n iov ff.fh off⟩

omit [DecidableEq T] [Platform] in
/-- A thread that goes to where it waits for nothing leaves the others waiting. -/
theorem cont_of_update [DecidableEq T] {t u : T} {v : Pc T S} {k : Cont} {pc : T → Pc T S}
    (hv : v.cont = none) (h : (Function.update pc t v u).cont = some k) : (pc u).cont = some k := by
  by_cases hut : u = t
  · subst hut
    rw [Function.update_self, hv] at h
    exact absurd h (by simp)
  · rwa [Function.update_of_ne hut] at h

/-- A thread that waits has waited before, or has just submitted a request of
its file; a lookup was called with the name it asks for. -/
theorem Sys.Step.cont_cases (hs : s.Step ops a s') {u : T} {k : Cont}
    (h : (s'.pc u).cont = some k) : (s.pc u).cont = some k ∨
      ∃ node, s.nodes[k.node]? = some node ∧ AskedOf node.file.nodeid (s'.record u).input k ∧
        ∀ n path len, k = .lookup n path len → ∃ ok, a = .call u (.lookup n path len) ok := by
  cases hs with
  | vopen t queue hpc hq => exact .inl (cont_of_update rfl h)
  | startNone t d buf startOk hpc hq hnone => exact .inl (cont_of_update rfl h)
  | startDaemon t d buf se hpc hq hreg hd => exact .inl (cont_of_update rfl (cont_of_update rfl h))
  | goto a t v hpc hv hset => exact .inl (cont_of_update hv.cont h)
  | submit a t n node input k' s' hact hpc hn hasks hopen hs' hread hname =>
      obtain ⟨queue, -, heq⟩ := Option.map_eq_some_iff.mp hs'
      rw [← heq] at h
      by_cases hut : u = t
      · subst hut
        obtain rfl : k' = k := by simpa [Pc.cont] using h
        obtain ⟨rfl, hasked⟩ := hasks.askedOf
        refine .inr ⟨node, hn, ?_, fun n path len hk => ?_⟩
        · rw [← heq]
          simpa [FuseUkfsRequest.init] using hasked
        · subst hk
          exact hname path len rfl
      · exact .inl (by simpa [Function.update_of_ne hut] using h)
  | down t k' m ok hpc hq hdone =>
      left
      by_cases hut : u = t
      · subst hut
        rw [hpc]
        simpa [Sys.setPc, Pc.cont] using h
      · simpa [Sys.setPc, Function.update_of_ne hut] using h
  | finish t k' ok hpc =>
      obtain ⟨v, nodes, hv, heq⟩ := Sys.finish_eq (s := s) (t := t) (s.record t).answer ok k'
      rw [heq] at h
      exact .inl (cont_of_update hv.cont h)
  | ret d se buf ok req queue hpc hat hq => exact .inl (cont_of_update rfl h)
  | unknown d se buf ok req hpc hmsg => exact .inl (cont_of_update rfl h)
  | overrun d se buf ok req hpc hmsg => exact .inl (cont_of_update rfl h)
  | message d se buf msg ok req hpc hmsg => exact .inl (cont_of_update rfl h)
  | failed d se buf ok req hpc => exact .inl (cont_of_update rfl h)
  | fail d se buf ok req act acts hpc => exact .inl (cont_of_update rfl h)
  | noReq d se buf ok req hpc hproc => exact .inl (cont_of_update rfl h)
  | handle d se buf ok req r what hpc hproc => exact .inl (cont_of_update rfl h)
  | returned d se buf ok b hpc => exact .inl (cont_of_update rfl h)
  | device d se buf ok req hpc => exact .inl (cont_of_update rfl h)
  | _ => exact .inl h

/-- An operation goes on with an answer that it reads. -/
theorem Sys.finish_defined {t : T} {ino : UInt64} {input : RequestIn} {call : Call}
    {answer : Answer} {k : Cont} {ok : Bool} (hasked : AskedOf ino input k)
    (hcall : input.call = some call) (hsound : answer.Sound)
    (hreads : ∀ data, answer.replyData = some data → call.Reads data) :
    (s.finish t answer ok k).pc t ≠ .undefined_ := by
  cases hasked with
  | open_ n iov off =>
      obtain rfl := Option.some.inj hcall
      have hdefined : fusefsDoOpenFinish answer ≠ none := doOpenFinish_ne_none fun data hdata => by
        have hkind := hreads data hdata
        cases data <;> first | exact ⟨_, rfl⟩ | exact hkind.elim
      simp only [Sys.finish]
      split
      · exact absurd ‹_› hdefined
      all_goals simp [Sys.setPc]
  | read n iov fh off =>
      obtain rfl := Option.some.inj hcall
      have hdefined : fusefsReadFinish iov answer ≠ none :=
        readFinish_ne_none hsound fun data hdata => by
          have hkind := hreads data hdata
          cases data <;> first | exact ⟨_, rfl⟩ | exact hkind.elim
      simp only [Sys.finish]
      split
      · exact absurd ‹_› hdefined
      · simp [Sys.setPc]
  | getstat n =>
      obtain rfl := Option.some.inj hcall
      have hdefined : fusefsGetstatFinish answer ≠ none :=
        getstatFinish_ne_none fun data hdata => by
          have hkind := hreads data hdata
          cases data <;> first | exact ⟨_, rfl⟩ | exact hkind.elim
      simp only [Sys.finish]
      split
      · exact absurd ‹_› hdefined
      · simp [Sys.setPc]
  | lookup n path len =>
      obtain rfl := Option.some.inj hcall
      have hdefined : fusefsLookupFinish (F := F) len answer ok ≠ none :=
        lookupFinish_ne_none fun data hdata => by
          have hkind := hreads data hdata
          cases data <;> first | exact ⟨_, rfl⟩ | exact hkind.elim
      simp only [Sys.finish]
      split
      · exact absurd ‹_› hdefined
      all_goals simp [Sys.setPc]
  | listdir n curp len =>
      obtain rfl := Option.some.inj hcall
      have hdefined : fusefsListdirFinish curp len answer ≠ none :=
        listdirFinish_ne_none hsound fun data hdata => by
          have hkind := hreads data hdata
          cases data <;> first | exact ⟨_, rfl, hkind⟩ | exact hkind.elim
      simp only [Sys.finish]
      split
      · exact absurd ‹_› hdefined
      · simp [Sys.setPc]

/-- Only an operation that has read its answer is where the source is
undefined. -/
theorem Sys.Step.undefined (hs : s.Step ops a s') {u : T} (h : s'.pc u = .undefined_) :
    s.pc u = .undefined_ ∨ ∃ k ok, s.pc u = .woken k ∧
      (s.finish u (s.record u).answer ok k).pc u = .undefined_ := by
  have hupdate : ∀ {t : T} {v : Pc T S} {pc : T → Pc T S}, v ≠ .undefined_ →
      Function.update pc t v u = .undefined_ → pc u = .undefined_ := by
    intro t v pc hv hu
    by_cases hut : u = t
    · subst hut
      rw [Function.update_self] at hu
      exact absurd hu hv
    · rwa [Function.update_of_ne hut] at hu
  cases hs with
  | vopen t queue hpc hq => exact .inl (hupdate (by simp) h)
  | startNone t d buf startOk hpc hq hnone => exact .inl (hupdate (by simp) h)
  | startDaemon t d buf se hpc hq hreg hd =>
      exact .inl (hupdate (by simp) (hupdate (by simp) h))
  | goto a t v hpc hv hset hdefined => exact .inl (hupdate hdefined h)
  | submit a t n node input k s' hact hpc hn hasks hopen hs' =>
      obtain ⟨queue, -, rfl⟩ := Option.map_eq_some_iff.mp hs'
      exact .inl (hupdate (by simp) h)
  | down t k m ok hpc hq hdone => exact .inl (hupdate (by simp) h)
  | finish t k ok hpc =>
      by_cases hut : u = t
      · subst hut
        exact .inr ⟨k, ok, hpc, h⟩
      · obtain ⟨v, nodes, -, heq⟩ := Sys.finish_eq (s := s) (t := t) (s.record t).answer ok k
        rw [heq] at h
        exact .inl (by simpa [Sys.setPc, Function.update_of_ne hut] using h)
  | ret d se buf ok req queue hpc hat hq => exact .inl (hupdate (by simp) h)
  | unknown d se buf ok req hpc hmsg => exact .inl (hupdate (by simp) h)
  | overrun d se buf ok req hpc hmsg => exact .inl (hupdate (by simp) h)
  | message d se buf msg ok req hpc hmsg => exact .inl (hupdate (by simp) h)
  | failed d se buf ok req hpc => exact .inl (hupdate (by simp) h)
  | fail d se buf ok req act acts hpc => exact .inl (hupdate (by simp) h)
  | noReq d se buf ok req hpc hproc => exact .inl (hupdate (by simp) h)
  | handle d se buf ok req r what hpc hproc => exact .inl (hupdate (by simp) h)
  | returned d se buf ok b hpc => exact .inl (hupdate (by simp) h)
  | device d se buf ok req hpc => exact .inl (hupdate (by simp) h)
  | _ => exact .inl h

end Steps

end UkfsFuse
