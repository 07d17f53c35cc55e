import Mathlib.Data.List.Induction
import UkfsFuse.Logic.Sessions

/-!
# Descriptors of a session

`fuse_session_destroy` closes `se->fd` unless it is `-1`. A descriptor gets
there by `fuse_session_custom_io` only, but a new session is cleared memory:
until then its `fd` is 0, and descriptor 0 is not its own.
-/

namespace UkfsFuse

open UkfsFuse.Core

/-- No session has been created. -/
def Sessions.start : Sessions := ⟨[], none, []⟩

namespace SessionCall

/-- The session a call is made on. -/
def target : SessionCall → Option Nat
  | .new .. => none
  | .customIo i .. | .mount i | .unmount i | .destroy i => some i

/-- The descriptor the call installs on session `i`. -/
def installs (i : Nat) : SessionCall → Option Int32
  | .customIo j fd io callocOk =>
      if j = i ∧ 0 ≤ fd ∧ io = some true ∧ callocOk = true then some fd else none
  | _ => none

end SessionCall

/-- The descriptor that the last successful `fuse_session_custom_io` on session
`i` installed. -/
def installed (calls : List SessionCall) (i : Nat) : Option Int32 :=
  (calls.filterMap (·.installs i)).getLast?

/-- What was closed for session `i` is the descriptor installed on it. -/
def ClosesOwn (calls : List SessionCall) (i : Nat) (s : Sessions) : Prop :=
  ∀ se, s.all[i]? = some se → ∀ fd ∈ se.closed, installed calls i = some fd

/-! ## One session -/

/-- `last` was the last descriptor installed on the session, and `destroyed`
says whether it was destroyed since. -/
structure SessionObject.Holds (se : SessionObject) (last : Option Int32) (destroyed : Prop) :
    Prop where
  fd : se.fd = last.getD 0
  nonneg : 0 ≤ se.fd
  mountpoint : se.mountpoint = false
  closed : se.closed = if se.main = .done then [se.fd] else []
  done : se.main = .done ↔ destroyed

namespace SessionObject

variable {se : SessionObject} {last : Option Int32} {destroyed : Prop} {fd : Int32}
  {io : Option Bool} {callocOk : Bool}

theorem customIo_succeeds (hok : 0 ≤ fd ∧ io = some true ∧ callocOk = true) :
    se.fuseSessionCustomIo fd io callocOk = (0, { se with io := true, fd := fd }) := by
  obtain ⟨hfd, rfl, rfl⟩ := hok
  simp [fuseSessionCustomIo, Int32.not_lt.mpr hfd]

variable (se) in
/-- A call that fails returns an error and leaves the descriptor. -/
theorem customIo_fails (hbad : ¬ (0 ≤ fd ∧ io = some true ∧ callocOk = true)) :
    (se.fuseSessionCustomIo fd io callocOk).1 ≠ 0 ∧
      ∃ io', (se.fuseSessionCustomIo fd io callocOk).2 = { se with io := io' } := by
  unfold fuseSessionCustomIo
  split_ifs with hfd hio hcalloc
  · exact ⟨show (-EBADF : Int32) ≠ 0 by decide, se.io, rfl⟩
  · exact ⟨show (-EINVAL : Int32) ≠ 0 by decide, se.io, rfl⟩
  · exact absurd ⟨Int32.not_lt.mp hfd, not_not.mp hio, hcalloc⟩ hbad
  · exact ⟨show (-ENOMEM : Int32) ≠ 0 by decide, false, rfl⟩

/-- A fresh session holds descriptor 0. -/
theorem holds_new {op : Option BackendOps} (h : fuseSessionNew op callocOk = some se)
    (hnot : ¬ destroyed) : se.Holds none destroyed := by
  unfold fuseSessionNew at h
  split at h
  · obtain rfl := Option.some.inj h
    exact ⟨rfl, show (0 : Int32) ≤ 0 by decide, rfl, rfl, by simp [hnot]⟩
  · exact absurd h (by simp)

theorem Holds.customIo (h : se.Holds last destroyed) (hlive : se.main ≠ .done) (fd : Int32)
    (io : Option Bool) (callocOk : Bool) :
    (se.fuseSessionCustomIo fd io callocOk).2.Holds
      ((if 0 ≤ fd ∧ io = some true ∧ callocOk = true then some fd else none).or last)
      destroyed := by
  have hclosed := h.closed
  rw [if_neg hlive] at hclosed
  by_cases hok : 0 ≤ fd ∧ io = some true ∧ callocOk = true
  · rw [customIo_succeeds hok, if_pos hok]
    exact ⟨rfl, hok.1, h.mountpoint, hclosed.trans (if_neg hlive).symm, h.done⟩
  · obtain ⟨-, io', hfail⟩ := se.customIo_fails hok
    rw [hfail, if_neg hok]
    exact ⟨h.fd, h.nonneg, h.mountpoint, h.closed, h.done⟩

/-- There is no mount point to unmount. -/
theorem Holds.unmount (h : se.Holds last destroyed) :
    se.fuseSessionUnmount.Holds last destroyed := by
  rwa [fuseSessionUnmount, h.mountpoint, if_neg Bool.false_ne_true]

theorem Holds.ne_neg_one (h : se.Holds last destroyed) : se.fd ≠ -1 := by
  intro hfd
  have hnonneg := h.nonneg
  rw [hfd] at hnonneg
  exact absurd hnonneg (by decide)

/-- Destruction closes whatever `fd` is. -/
theorem Holds.destroy (h : se.Holds last destroyed) (hlive : se.main ≠ .done) {destroyed' : Prop}
    (hdestroyed : destroyed') :
    ({ se.fuseSessionDestroy with main := .done } : SessionObject).Holds last destroyed' := by
  refine ⟨?_, ?_, ?_, ?_, by simp [hdestroyed]⟩
  · exact fuseSessionDestroy_fd.trans h.fd
  · show 0 ≤ se.fuseSessionDestroy.fd
    rw [fuseSessionDestroy_fd]
    exact h.nonneg
  · exact fuseSessionDestroy_mountpoint.trans h.mountpoint
  · show se.fuseSessionDestroy.closed = [se.fuseSessionDestroy.fd]
    rw [fuseSessionDestroy_closed, if_pos h.ne_neg_one, h.closed, if_neg hlive,
      fuseSessionDestroy_fd, List.nil_append]

end SessionObject

/-! ## All sessions -/

/-- What the calls made of the sessions. -/
structure Traced (calls : List SessionCall) (s : Sessions) : Prop where
  holds : ∀ i (se : SessionObject), s.all[i]? = some se →
    se.Holds (installed calls i) (.destroy i ∈ calls)
  fresh : ∀ i, s.all[i]? = none → installed calls i = none ∧ .destroy i ∉ calls

section Trace

variable {calls : List SessionCall} {c : SessionCall} {s s' : Sessions} {i : Nat}

theorem installed_concat : installed (calls ++ [c]) i = (c.installs i).or (installed calls i) := by
  cases hc : c.installs i <;> simp [installed, List.getLast?_append, hc]

variable (calls) in
/-- A call on another session does not count. -/
theorem installed_of_ne (h : c.target ≠ some i) :
    installed (calls ++ [c]) i = installed calls i ∧
      (.destroy i ∈ calls ++ [c] ↔ .destroy i ∈ calls) := by
  rw [installed_concat]
  cases c <;> simp_all [SessionCall.target, SessionCall.installs, eq_comm]

theorem Sessions.onSession_eq_some {f : SessionObject → SessionObject}
    (h : s.onSession i f = some s') :
    ∃ se, s.all[i]? = some se ∧ se.main ≠ .done ∧ s' = s.set i (f se) := by
  obtain ⟨se, hse, hrest⟩ := Option.bind_eq_some_iff.mp h
  split at hrest
  · exact absurd hrest (by simp)
  · exact ⟨se, hse, ‹_›, (Option.some.inj hrest).symm⟩

/-- A call on session `i`, which has become `se'`. -/
theorem Traced.set (h : Traced calls s) (hc : c.target = some i) {se se' : SessionObject}
    (hse : s.all[i]? = some se)
    (hholds : se'.Holds (installed (calls ++ [c]) i) (.destroy i ∈ calls ++ [c])) :
    Traced (calls ++ [c]) (s.set i se') := by
  have hlt := (List.getElem?_eq_some_iff.mp hse).1
  have hother : ∀ j, i ≠ j → c.target ≠ some j := fun j hij hcj =>
    hij (Option.some.inj (hc.symm.trans hcj))
  refine ⟨fun j x hx => ?_, fun j hj => ?_⟩
  · by_cases hij : i = j
    · subst hij
      obtain rfl := Option.some.inj ((List.getElem?_set_self hlt).symm.trans hx)
      exact hholds
    · obtain ⟨hinst, hdestroy⟩ := installed_of_ne calls (hother j hij)
      rw [hinst, propext hdestroy]
      exact h.holds j x ((List.getElem?_set_ne hij).symm.trans hx)
  · by_cases hij : i = j
    · subst hij
      exact absurd ((List.getElem?_set_self hlt).symm.trans hj) (by simp)
    · obtain ⟨hinst, hdestroy⟩ := installed_of_ne calls (hother j hij)
      rw [hinst, hdestroy]
      exact h.fresh j ((List.getElem?_set_ne hij).symm.trans hj)

/-- A new session, or none. -/
theorem Traced.new (h : Traced calls s) {op : Option BackendOps} {callocOk : Bool}
    (hcall : s.call (.new op callocOk) = some s') : Traced (calls ++ [.new op callocOk]) s' := by
  have hnone : ∀ j, installed (calls ++ [.new op callocOk]) j = installed calls j ∧
      (.destroy j ∈ calls ++ [.new op callocOk] ↔ .destroy j ∈ calls) := fun j =>
    installed_of_ne calls (Option.some_ne_none j).symm
  have hstep : s.step (.new op callocOk) = some s' := hcall
  cases Sessions.Step.of_step hstep with
  | noSession =>
      refine ⟨fun j x hx => ?_, fun j hj => ?_⟩
      · rw [(hnone j).1, propext (hnone j).2]
        exact h.holds j x hx
      · rw [(hnone j).1, (hnone j).2]
        exact h.fresh j hj
  | @new _ _ se hnew =>
      refine ⟨fun j x hx => ?_, fun j hj => ?_⟩
      · rw [(hnone j).1, propext (hnone j).2]
        rcases lt_trichotomy j s.all.length with hlt | rfl | hgt
        · exact h.holds j x ((List.getElem?_append_left hlt).symm.trans hx)
        · obtain ⟨hinst, hdestroy⟩ := h.fresh s.all.length (List.getElem?_eq_none le_rfl)
          obtain rfl : se = x := by simpa using hx
          rw [hinst]
          exact SessionObject.holds_new hnew hdestroy
        · exact absurd (hx.symm.trans (List.getElem?_eq_none (by simp; omega))) (by simp)
      · rw [(hnone j).1, (hnone j).2]
        refine h.fresh j (List.getElem?_eq_none ?_)
        have hlen := List.getElem?_eq_none_iff.mp hj
        rw [List.length_append] at hlen
        omega

theorem Traced.call (h : Traced calls s) (hcall : s.call c = some s') :
    Traced (calls ++ [c]) s' := by
  cases c with
  | new op callocOk => exact h.new hcall
  | customIo i fd io callocOk =>
      obtain ⟨se, hse, hlive, rfl⟩ := Sessions.onSession_eq_some hcall
      refine h.set rfl hse ?_
      rw [installed_concat]
      have hholds := (h.holds i se hse).customIo hlive fd io callocOk
      simpa [SessionCall.installs] using hholds
  | mount i =>
      obtain ⟨s₁, hs₁, rfl⟩ := Option.map_eq_some_iff.mp hcall
      obtain ⟨se, hse, -, rfl⟩ := Sessions.onSession_eq_some hs₁
      have hsame : se.Holds (installed (calls ++ [.mount i]) i)
          (.destroy i ∈ calls ++ [.mount i]) := by
        rw [installed_concat]
        simpa [SessionCall.installs] using h.holds i se hse
      have hset := h.set rfl hse hsame
      exact ⟨hset.holds, hset.fresh⟩
  | unmount i =>
      obtain ⟨se, hse, -, rfl⟩ := Sessions.onSession_eq_some hcall
      refine h.set rfl hse ?_
      rw [installed_concat]
      simpa [SessionCall.installs] using (h.holds i se hse).unmount
  | destroy i =>
      obtain ⟨se, hse, hlive, rfl⟩ := Sessions.onSession_eq_some hcall
      refine h.set rfl hse ?_
      rw [installed_concat]
      exact (h.holds i se hse).destroy hlive (by simp)

end Trace

theorem traced_of_calls {calls : List SessionCall} {s : Sessions}
    (h : TSys.exec Sessions.call .start calls = some s) : Traced calls s := by
  induction calls using List.reverseRecOn generalizing s with
  | nil =>
      obtain rfl : Sessions.start = s := Option.some.inj h
      exact ⟨by simp [Sessions.start], by simp [installed]⟩
  | append_singleton calls c ih =>
      rw [TSys.exec_concat] at h
      obtain ⟨s₁, hs₁, hcall⟩ := Option.bind_eq_some_iff.mp h
      exact (ih hs₁).call hcall

/-- In every sequence of calls, what is closed for a session is the descriptor
installed on it if and only if one was installed by the time of its destruction. -/
theorem destroy_closes_own_iff (calls : List SessionCall) (s : Sessions)
    (hcalls : TSys.exec Sessions.call .start calls = some s) (i : Nat) :
    ClosesOwn calls i s ↔ (.destroy i ∈ calls → ∃ fd, installed calls i = some fd) := by
  have htraced := traced_of_calls hcalls
  constructor
  · intro hown hdestroy
    obtain ⟨se, hse⟩ : ∃ se, s.all[i]? = some se := by
      by_contra hnone
      have hgone := Option.eq_none_iff_forall_ne_some.mpr (by simpa using hnone)
      exact (htraced.fresh i hgone).2 hdestroy
    have hholds := htraced.holds i se hse
    have hclosed := hholds.closed
    rw [if_pos (hholds.done.mpr hdestroy)] at hclosed
    exact ⟨se.fd, hown se hse se.fd (by simp [hclosed])⟩
  · intro hinstalled se hse fd hfd
    have hholds := htraced.holds i se hse
    rw [hholds.closed] at hfd
    split at hfd
    · rename_i hdone
      obtain ⟨fd', hfd'⟩ := hinstalled (hholds.done.mp hdone)
      rw [List.mem_singleton.mp hfd, hholds.fd, hfd']
      rfl
    · exact absurd hfd (by simp)

/-- A failed call, two that succeed, and a failed one again. -/
theorem destroy_closes_last :
    let calls : List SessionCall := [.new (some {}) true, .customIo 0 (-1) (some true) true,
      .customIo 0 5 (some true) true, .customIo 0 7 (some true) true, .customIo 0 9 none true,
      .mount 0, .unmount 0, .destroy 0]
    ∃ s, TSys.exec Sessions.call .start calls = some s ∧ ClosesOwn calls 0 s := by
  intro calls
  have hlast : installed calls 0 = some 7 := by decide
  obtain ⟨s, hs⟩ := Option.isSome_iff_exists.mp
    (show (TSys.exec Sessions.call .start calls).isSome by decide)
  exact ⟨s, hs, (destroy_closes_own_iff calls s hs 0).mpr fun _ => ⟨7, hlast⟩⟩

/-- A session that is created, mounted, unmounted and destroyed closes
descriptor 0. -/
theorem destroy_closes_zero :
    ¬ ∀ (calls : List SessionCall) (s : Sessions),
      TSys.exec Sessions.call .start calls = some s → ∀ i, ClosesOwn calls i s := by
  intro hown
  have hrun : (TSys.exec Sessions.call .start
      [.new (some {}) true, .mount 0, .unmount 0, .destroy 0]).map
        (fun s => s.all.map SessionObject.closed) = some [[0]] := by decide
  obtain ⟨s, hs, hclosed⟩ := Option.map_eq_some_iff.mp hrun
  obtain ⟨se, hse, hfd⟩ : ∃ se, s.all[0]? = some se ∧ 0 ∈ se.closed := by
    cases hall : s.all with
    | nil => rw [hall] at hclosed; exact absurd hclosed (by simp)
    | cons se rest =>
        rw [hall] at hclosed
        exact ⟨se, rfl, by rw [(List.cons.inj hclosed).1]; simp⟩
  exact absurd (hown _ s hs 0 se hse 0 hfd) (by decide)

end UkfsFuse
