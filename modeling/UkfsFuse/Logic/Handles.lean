import UkfsFuse.Core.SeqObject
import UkfsFuse.Logic.Steps

/-!
# The order of the callbacks

A daemon makes one handle after the other, and a handle stays in the list, so
the list says in which order the callbacks were called. `HandleEffect` says
what one step does to it: nothing, one more handle at its end, or a handle that
is replied to or gets on with its reply.
-/

namespace UkfsFuse

open UkfsFuse.Core

variable {T S F : Type}

/-- The callback a handle was made for. -/
def Handle.call (hd : Handle T S) : Option Call :=
  match hd.what with
  | .callback call => some call
  | _ => none

/-- The callbacks, in the order in which they were called. -/
def Sys.calls (s : Sys T S F) : List Call := s.handles.filterMap Handle.call

/-- All of them are handles of callbacks. -/
def Sys.AllCallbacks (s : Sys T S F) : Prop := ∀ hd ∈ s.handles, ∃ call, hd.what = .callback call

theorem Sys.AllCallbacks.map_calls {s : Sys T S F} (h : s.AllCallbacks) :
    s.calls.map some = s.handles.map Handle.call := by
  unfold Sys.AllCallbacks at h
  unfold Sys.calls
  generalize s.handles = hs at h ⊢
  induction hs with
  | nil => rfl
  | cons hd hs ih =>
      obtain ⟨call, hwhat⟩ := h hd List.mem_cons_self
      have hcall : hd.call = some call := by rw [Handle.call, hwhat]
      rw [List.filterMap_cons_some hcall, List.map_cons, List.map_cons, hcall,
        ih fun x hx => h x (List.mem_cons_of_mem _ hx)]

/-- The callback of a handle has the place of the handle. -/
theorem Sys.AllCallbacks.calls_getElem {s : Sys T S F} (h : s.AllCallbacks) {i : Nat}
    {hd : Handle T S} {call : Call} (hi : s.handles[i]? = some hd) (hcall : hd.call = some call) :
    s.calls[i]? = some call := by
  have hget := congrArg (·[i]?) h.map_calls
  simp only [List.getElem?_map, hi, Option.map_some, hcall] at hget
  obtain ⟨c, hc, heq⟩ := Option.map_eq_some_iff.mp hget
  rw [hc, Option.some.inj heq]

theorem Sys.AllCallbacks.length_calls {s : Sys T S F} (h : s.AllCallbacks) :
    s.calls.length = s.handles.length := by
  have hlen := congrArg List.length h.map_calls
  rwa [List.length_map, List.length_map] at hlen

/-- What a step does to the handles. -/
inductive HandleEffect [DecidableEq T] (ops : S → FuseLowlevelOps) (s : Sys T S F)
    (a : SysAct T S F) (s' : Sys T S F) : Prop
  | keep (hhandles : s'.handles = s.handles)
  | make (d : T) (se : S) (buf : Mem) (ok : Bool) (req : T) (r : FuseReq) (what : Handled)
      (hpc : s.pc d = .daemon se buf (.handover req))
      (hproc : fuseSessionProcessBufInternal (fuseSessionNewVersioned (ops se)) buf
        FUSE_DAEMON_BUF_SIZE ok = .handled r what)
      (hhandles : s'.handles = s.handles ++ [⟨req, se, r, what, none, [], s.origin req⟩])
  | change (b : Nat) (hd hd' : Handle T S) (hh : s.handles[b]? = some hd)
      (hhandles : s'.handles = s.handles.set b hd') (hwhat : hd'.what = hd.what)
      (horigin : hd'.origin = hd.origin)
      (hanswer : hd'.answer = hd.answer ∨
        ∃ r mallocOk, a = .reply b r mallocOk ∧ hd'.answer = some (r, mallocOk))

section Steps

variable [DecidableEq T] {ops : S → FuseLowlevelOps} {s s' : Sys T S F}
  {a : SysAct T S F}

theorem submit_handles {t : T} {n : Nat} {input : RequestIn} {k : Cont}
    (h : s.submit t n input k = some s') : s'.handles = s.handles := by
  obtain ⟨queue, -, rfl⟩ := Option.map_eq_some_iff.mp h
  rfl

omit [DecidableEq T] in
/-- A handle changes, but not the callback it is of. -/
theorem map_call_set {b : Nat} {hd hd' : Handle T S} (hh : s.handles[b]? = some hd)
    (hhandles : s'.handles = s.handles.set b hd') (hwhat : hd'.what = hd.what) :
    s'.handles.map Handle.call = s.handles.map Handle.call := by
  obtain ⟨hlt, hget⟩ := List.getElem?_eq_some_iff.mp hh
  have hcall : hd'.call = hd.call := by rw [Handle.call, Handle.call, hwhat]
  rw [hhandles, List.map_set, hcall, ← hget,
    ← List.getElem_map Handle.call (h := by simpa using hlt), List.set_getElem_self]

omit [DecidableEq T] in
theorem calls_set {b : Nat} {hd hd' : Handle T S} (hh : s.handles[b]? = some hd)
    (hhandles : s'.handles = s.handles.set b hd') (hwhat : hd'.what = hd.what) :
    s'.calls = s.calls := by
  have hcalls : ∀ hs : List (Handle T S),
      hs.filterMap Handle.call = (hs.map Handle.call).filterMap id := fun hs => by
    rw [List.filterMap_map]
    rfl
  rw [Sys.calls, Sys.calls, hcalls, map_call_set hh hhandles hwhat, ← hcalls]

/-- A handle keeps its place, its callback and its request. -/
theorem HandleEffect.kept (h : HandleEffect ops s a s') {i : Nat} {hd : Handle T S}
    (hi : s.handles[i]? = some hd) :
    ∃ hd', s'.handles[i]? = some hd' ∧ hd'.what = hd.what ∧ hd'.origin = hd.origin := by
  have hlt := (List.getElem?_eq_some_iff.mp hi).1
  cases h with
  | keep hhandles => exact ⟨hd, by rw [hhandles, hi], rfl, rfl⟩
  | make d se buf ok req r what hpc hproc hhandles =>
      exact ⟨hd, by rw [hhandles, List.getElem?_append_left hlt, hi], rfl, rfl⟩
  | change b old hd' hh hhandles hwhat horigin hanswer =>
      rw [hhandles]
      by_cases hbi : b = i
      · subst hbi
        obtain rfl := Option.some.inj (hh.symm.trans hi)
        exact ⟨hd', List.getElem?_set_self hlt, hwhat, horigin⟩
      · exact ⟨hd, (List.getElem?_set_ne hbi).trans hi, rfl, rfl⟩

theorem HandleEffect.length_le (h : HandleEffect ops s a s') :
    s.handles.length ≤ s'.handles.length := by
  cases h with
  | keep hhandles => rw [hhandles]
  | make d se buf ok req r what hpc hproc hhandles => simp [hhandles]
  | change b old hd' hh hhandles hwhat horigin hanswer => simp [hhandles]

/-- The order of the callbacks only grows at its end. -/
theorem HandleEffect.calls_prefix (h : HandleEffect ops s a s') : s.calls <+: s'.calls := by
  cases h with
  | keep hhandles => rw [Sys.calls, Sys.calls, hhandles]
  | make d se buf ok req r what hpc hproc hhandles =>
      rw [Sys.calls, Sys.calls, hhandles, List.filterMap_append]
      exact List.prefix_append ..
  | change b old hd' hh hhandles hwhat horigin hanswer =>
      rw [calls_set hh hhandles hwhat]

variable [Platform]

theorem Sys.Step.handleEffect (h : s.Step ops a s') : HandleEffect ops s a s' := by
  cases h with
  | submit a t n node input k s' hact hpc hn hasks hopen hs => exact .keep (submit_handles hs)
  | finish t k ok hpc =>
      obtain ⟨v, nodes, -, heq⟩ := Sys.finish_eq (s := s) (t := t) (s.record t).answer ok k
      exact .keep (by rw [heq]; rfl)
  | handle d se buf ok req r what hpc hproc => exact .make d se buf ok req r what hpc hproc rfl
  | reply b hd r mallocOk hh hacc =>
      exact .change b hd _ hh rfl rfl rfl (.inr ⟨r, mallocOk, rfl, rfl⟩)
  | replyStep b hd act rest hh htodo => exact .change b hd _ hh rfl rfl rfl (.inl rfl)
  | _ => exact .keep rfl

end Steps

end UkfsFuse
