import Mathlib.Data.Fintype.Basic
import UkfsFuse.Logic.Answers

/-!
# Mounts

A node belongs to the session that was registered when the `fusefs_vopen` of
its mount ran, and so does the daemon that `fusefs_vopen` started. In runs with
one mount there is at most one such session.
-/

namespace UkfsFuse

open UkfsFuse.Core

section Definitions

variable {T S F : Type}

/-- The session a daemon thread was started for. -/
def Pc.session : Pc T S → Option S
  | .daemon se _ _ => some se
  | _ => none

/-- Node `n` is of a mount whose `fusefs_vopen` found `se` registered. -/
def Sys.Home (s : Sys T S F) (n : Nat) (se : S) : Prop :=
  ∃ node, s.nodes[n]? = some node ∧ node.home = some se

/-- The thread is in `fusefs_vopen`. -/
def Pc.Mounting : Pc T S → Prop
  | .vopenInit => True
  | _ => False

/-- No `fusefs_vopen` starts when another has, but one that fails at once. -/
def FirstMount (s : Sys T S F) : SysAct T S F → Prop
  | .vopen _ true => s.nodes = [] ∧ ∀ u, ¬ (s.pc u).Mounting
  | _ => True

instance (p : Pc T S) : Decidable p.Mounting := by
  unfold Pc.Mounting
  cases p <;> infer_instance

instance [Fintype T] (s : Sys T S F) (a : SysAct T S F) : Decidable (FirstMount s a) := by
  unfold FirstMount
  split <;> infer_instance

/-- All that is started is started for the mount of node 0. -/
structure OneMount (s : Sys T S F) : Prop where
  mounting : ∀ t, (s.pc t).Mounting → s.nodes = [] ∧ ∀ u, (s.pc u).Mounting → u = t
  client : ∀ t, (s.pc t).Outstanding → s.nodes ≠ []
  daemon : ∀ d se, (s.pc d).session = some se → s.Home 0 se
  backend : ∀ hd ∈ s.handles, s.Home 0 hd.se

end Definitions

section Home

variable {T S F : Type} {s s' : Sys T S F} {t : T}

theorem Pc.Free.session {p : Pc T S} (h : p.Free) : p.session = none := by
  cases p <;> first | rfl | exact h.elim

theorem Sys.Home.append {n : Nat} {se : S} (h : s.Home n se) {nodes : List (Node S F)}
    (hnodes : s'.nodes = s.nodes ++ nodes) : s'.Home n se := by
  obtain ⟨node, hn, hhome⟩ := h
  refine ⟨node, ?_, hhome⟩
  rw [hnodes, List.getElem?_append_left (List.getElem?_eq_some_iff.mp hn).1, hn]

/-- The file of a node changes, not its mount. -/
theorem Sys.Home.modify {n i : Nat} {se : S} (h : s.Home n se) {f : Node S F → Node S F}
    (hnodes : s'.nodes = s.nodes.modify i f) (hf : ∀ node, (f node).home = node.home) :
    s'.Home n se := by
  obtain ⟨node, hn, hhome⟩ := h
  rw [Sys.Home, hnodes, List.getElem?_modify, hn]
  by_cases hi : i = n
  · exact ⟨f node, by simp [hi], by rw [hf, hhome]⟩
  · exact ⟨node, by simp [hi], hhome⟩

variable [DecidableEq T] [Platform]

theorem home_finish {n : Nat} {se : S} (h : s.Home n se) (answer : Answer) (ok : Bool) (k : Cont) :
    (s.finish t answer ok k).Home n se := by
  rcases Sys.finish_cases (s := s) (t := t) answer ok k with ⟨v, -, heq⟩ |
    ⟨i, iov, off, e, fh, -, -, heq⟩ | ⟨i, path, len, e, -, -, heq⟩
  · rw [heq]
    exact h
  · rw [heq]
    exact h.modify rfl fun _ => rfl
  · rw [heq]
    exact h.append rfl

end Home

section Steps

variable {T S F : Type} {s s' : Sys T S F} {t : T}

theorem Pc.Free.not_mounting {p : Pc T S} (h : p.Free) : ¬ p.Mounting := by
  cases p <;> first | exact id | exact h.elim

/-- Nobody has begun to mount or to serve, and nobody waits who may not. -/
theorem OneMount.keep (h : OneMount s) (hhome : ∀ n se, s.Home n se → s'.Home n se)
    (hnodes : s'.nodes = [] ↔ s.nodes = [])
    (hmounting : ∀ u, (s'.pc u).Mounting → (s.pc u).Mounting)
    (hclient : ∀ u, (s'.pc u).Outstanding → (s.pc u).Outstanding ∨ s.nodes ≠ [])
    (hdaemon : ∀ u se, (s'.pc u).session = some se → (s.pc u).session = some se)
    (hhandles : ∀ hd ∈ s'.handles, (∃ old ∈ s.handles, hd.se = old.se) ∨ s.Home 0 hd.se) :
    OneMount s' where
  mounting u hu := by
    obtain ⟨hnil, hsingle⟩ := h.mounting u (hmounting u hu)
    exact ⟨hnodes.mpr hnil, fun v hv => hsingle v (hmounting v hv)⟩
  client u hu := by
    rw [ne_eq, hnodes]
    exact (hclient u hu).elim (h.client u) id
  daemon u se hu := hhome 0 se (h.daemon u se (hdaemon u se hu))
  backend hd hmem := by
    rcases hhandles hd hmem with ⟨old, hold, hse⟩ | hnew
    · rw [hse]
      exact hhome 0 _ (h.backend old hold)
    · exact hhome 0 _ hnew

/-- No thread has moved. -/
theorem OneMount.still (h : OneMount s) (hhome : ∀ n se, s.Home n se → s'.Home n se)
    (hnodes : s'.nodes = [] ↔ s.nodes = []) (hpc : s'.pc = s.pc)
    (hhandles : ∀ hd ∈ s'.handles, ∃ old ∈ s.handles, hd.se = old.se) : OneMount s' :=
  h.keep hhome hnodes (fun _ hu => hpc ▸ hu) (fun _ hu => .inl (hpc ▸ hu))
    (fun _ _ hu => hpc ▸ hu) fun hd hmem => .inl (hhandles hd hmem)

variable [DecidableEq T]

/-- Only the thread `t` has moved. -/
theorem OneMount.move (h : OneMount s) {v : Pc T S} (hv : ¬ v.Mounting)
    (hpc : s'.pc = Function.update s.pc t v) (hhome : ∀ n se, s.Home n se → s'.Home n se)
    (hnodes : s'.nodes = [] ↔ s.nodes = [])
    (hclient : v.Outstanding → (s.pc t).Outstanding ∨ s.nodes ≠ [])
    (hdaemon : ∀ se, v.session = some se → (s.pc t).session = some se)
    (hhandles : ∀ hd ∈ s'.handles, (∃ old ∈ s.handles, hd.se = old.se) ∨ s.Home 0 hd.se) :
    OneMount s' := by
  have hcases : ∀ u, (u = t ∧ s'.pc u = v) ∨ s'.pc u = s.pc u := by
    intro u
    rw [hpc]
    by_cases hu : u = t
    · exact .inl ⟨hu, by rw [hu, Function.update_self]⟩
    · exact .inr (Function.update_of_ne hu _ _)
  refine h.keep hhome hnodes ?_ ?_ ?_ hhandles
  · intro u hu
    rcases hcases u with ⟨rfl, heq⟩ | heq <;> rw [heq] at hu
    · exact absurd hu hv
    · exact hu
  · intro u hu
    rcases hcases u with ⟨rfl, heq⟩ | heq <;> rw [heq] at hu
    · exact hclient hu
    · exact .inl hu
  · intro u se hu
    rcases hcases u with ⟨rfl, heq⟩ | heq <;> rw [heq] at hu
    · exact hdaemon se hu
    · exact hu

variable [Platform] {ops : S → FuseLowlevelOps} {owner : T → Option (Place T)}

omit [Platform] in
/-- The first mount begins. -/
theorem OneMount.vopen (h : OneMount s) {queue : QueueState T T} (hnil : s.nodes = [])
    (hnone : ∀ u, ¬ (s.pc u).Mounting) :
    OneMount { s.setPc t .vopenInit with queue := queue } where
  mounting u hu := by
    refine ⟨hnil, fun v hv => ?_⟩
    have hmine : ∀ w, ((s.setPc t .vopenInit).pc w).Mounting → w = t := by
      intro w hw
      by_contra hne
      exact hnone w (by simpa [Sys.setPc, hne] using hw)
    rw [hmine v hv, hmine u hu]
  client u hu := h.client u (outstanding_of_update id u hu)
  daemon u se hu := by
    by_cases hut : u = t
    · subst hut
      simp [Sys.setPc, Pc.session] at hu
    · exact h.daemon u se (by simpa [Sys.setPc, hut] using hu)
  backend := h.backend

omit [DecidableEq T] [Platform] in
/-- The first mount ends, with a daemon or without: node 0 is its root. -/
theorem OneMount.start (h : OneMount s) (hpc : (s.pc t).Mounting) {node : Node S F}
    (hnodes : s'.nodes = s.nodes ++ [node]) (hhandles : s'.handles = s.handles)
    (hmoved : ∀ u, (u ≠ t ∧ s'.pc u = s.pc u) ∨ s'.pc u = .idle ∨
      ∃ se buf, node.home = some se ∧ s'.pc u = .daemon se buf .loop) : OneMount s' := by
  obtain ⟨hnil, hsingle⟩ := h.mounting t hpc
  have hnobody : ∀ {P : Prop} se, s.Home 0 se → P := by
    rintro P se ⟨node', hn, -⟩
    rw [hnil] at hn
    exact absurd hn (by simp)
  exact {
    mounting := by
      intro u hu
      rcases hmoved u with ⟨hne, heq⟩ | heq | ⟨se, buf, -, heq⟩ <;> rw [heq] at hu
      · exact absurd (hsingle u hu) hne
      · exact hu.elim
      · exact hu.elim
    client := by
      intro u _
      simp [hnodes]
    daemon := by
      intro u se hu
      rcases hmoved u with ⟨-, heq⟩ | heq | ⟨se', buf, hhome, heq⟩ <;> rw [heq] at hu
      · exact hnobody se (h.daemon u se hu)
      · exact absurd hu (by simp [Pc.session])
      · obtain rfl := Option.some.inj hu
        exact ⟨node, by simp [hnodes, hnil], hhome⟩
    backend := by
      intro hd hmem
      exact hnobody _ (h.backend hd (hhandles ▸ hmem)) }

/-- One step of the system. -/
theorem OneMount.step (h : OneMount s) {a : SysAct T S F} (hok : FirstMount s a)
    (hs : s.Step ops a s') : OneMount s' := by
  have hsame : ∀ hd ∈ s.handles, ∃ old ∈ s.handles, hd.se = old.se :=
    fun hd hmem => ⟨hd, hmem, rfl⟩
  have hdaemon : ∀ {d se buf pc} buf' pc', s.pc d = .daemon se buf pc →
      OneMount (s.setPc d (.daemon se buf' pc')) := by
    intro d se buf pc buf' pc' hpc
    exact h.move (t := d) id rfl (fun _ _ => id) .rfl False.elim
      (fun se' hse => by rw [hpc]; exact hse) fun hd hmem => .inl ⟨hd, hmem, rfl⟩
  cases hs with
  | stay a => exact h
  | mount se => exact h.still (fun _ _ => id) .rfl rfl hsame
  | vopen t queue hpc hq => exact h.vopen hok.1 hok.2
  | startNone t d buf startOk hpc hq =>
      refine h.start (t := t) (by rw [hpc]; trivial) rfl rfl fun u => ?_
      by_cases hut : u = t
      · exact .inr (.inl (by simp [Sys.setPc, hut]))
      · exact .inl ⟨hut, by simp [Sys.setPc, hut]⟩
  | startDaemon t d buf se hpc hq hreg hd =>
      refine h.start (t := t) (by rw [hpc]; trivial) rfl rfl fun u => ?_
      by_cases hud : u = d
      · exact .inr (.inr ⟨se, buf, hreg, by simp [Sys.setPc, hud]⟩)
      · by_cases hut : u = t
        · subst hut
          exact .inr (.inl (by simp [Sys.setPc, hud]))
        · exact .inl ⟨hut, by simp [Sys.setPc, hud, hut]⟩
  | graft a n node f hn =>
      refine h.still (fun _ _ hhome => hhome.modify rfl fun _ => rfl) ?_ rfl hsame
      simp [Sys.setFile]
  | goto a t v hpc hv =>
      refine h.move (t := t) hv.not_mounting rfl (fun _ _ => id) .rfl ?_ ?_
        fun hd hmem => .inl ⟨hd, hmem, rfl⟩
      · exact fun hout => absurd hout hv.not_outstanding
      · exact fun se hse => absurd hse (by simp [hv.session])
  | submit a t n node input k s' hact hpc hn hasks hopen hs =>
      obtain ⟨queue, -, rfl⟩ := Option.map_eq_some_iff.mp hs
      refine h.move (t := t) (v := .waiting k) id rfl (fun _ _ => id) .rfl ?_ (by simp [Pc.session])
        fun hd hmem => .inl ⟨hd, hmem, rfl⟩
      intro _
      refine .inr fun hnil => ?_
      rw [hnil] at hn
      exact absurd hn (by simp)
  | down t k m ok hpc hq hdone =>
      exact h.move (t := t) (v := .woken k) id rfl (fun _ _ => id) .rfl
        (fun _ => .inl (by rw [hpc]; trivial)) (by simp [Pc.session])
        fun hd hmem => .inl ⟨hd, hmem, rfl⟩
  | finish t k ok hpc =>
      have hkept : ∀ hd ∈ s.handles, (∃ old ∈ s.handles, hd.se = old.se) ∨ s.Home 0 hd.se :=
        fun hd hmem => .inl ⟨hd, hmem, rfl⟩
      rcases Sys.finish_cases (s := s) (t := t) (s.record t).answer ok k with ⟨v, hv, heq⟩ |
        ⟨n, iov, off, e, fh, -, -, heq⟩ | ⟨n, path, len, e, -, -, heq⟩
      · rw [heq]
        exact h.move (t := t) hv.free.not_mounting rfl (fun _ _ => id) .rfl
          (fun hout => absurd hout hv.free.not_outstanding)
          (fun se hse => absurd hse (by simp [hv.free.session])) hkept
      · rw [heq]
        exact h.move (t := t) (v := .readSubmit n iov off) id rfl
          (fun _ _ hhome => hhome.modify rfl fun _ => rfl) (by simp [Sys.setFh, Sys.setPc])
          False.elim (by simp [Pc.session]) hkept
      · have hnonempty : s.nodes ≠ [] := h.client t (by rw [hpc]; trivial)
        rw [heq]
        exact h.move (t := t) (v := .idle) id rfl (fun _ _ hhome => hhome.append rfl)
          (by simp [Sys.addChild, Sys.setPc, hnonempty]) False.elim (by simp [Pc.session]) hkept
  | callPop d se buf ok queue hpc hq => exact h.still (fun _ _ => id) .rfl rfl hsame
  | ret d se buf ok req queue hpc hat hq =>
      exact (hdaemon buf (.popped req) hpc).still (fun _ _ => id) .rfl rfl hsame
  | unknown d se buf ok req hpc hmsg => exact hdaemon _ _ hpc
  | overrun d se buf ok req hpc hmsg => exact hdaemon _ _ hpc
  | message d se buf msg ok req hpc hmsg => exact hdaemon _ _ hpc
  | failed d se buf ok req hpc => exact hdaemon _ _ hpc
  | fail d se buf ok req act acts hpc =>
      exact (hdaemon buf (.failing req acts) hpc).still (fun _ _ => id) .rfl rfl hsame
  | noReq d se buf ok req hpc hproc => exact hdaemon _ _ hpc
  | handle d se buf ok req r what hpc hproc =>
      refine h.move (t := d) (v := .daemon se buf (.inCallback s.handles.length)) id rfl
        (fun _ _ => id) .rfl False.elim (fun se' hse => by rw [hpc]; exact hse) ?_
      intro hd hmem
      rcases List.mem_append.mp hmem with hold | hnew
      · exact .inl ⟨hd, hold, rfl⟩
      · rw [List.mem_singleton.mp hnew]
        exact .inr (h.daemon d se (by rw [hpc]; rfl))
  | returned d se buf ok b hpc => exact hdaemon _ _ hpc
  | device d se buf ok req hpc => exact hdaemon _ _ hpc
  | queue t queue hq => exact h.still (fun _ _ => id) .rfl rfl hsame
  | reply b hd r mallocOk hh hacc =>
      exact h.still (fun _ _ => id) .rfl rfl
        (Sys.forall_mem_set hsame ⟨hd, List.mem_of_getElem? hh, rfl⟩)
  | replyStep b hd act rest hh htodo =>
      exact h.still (fun _ _ => id) .rfl rfl
        (Sys.forall_mem_set hsame ⟨hd, List.mem_of_getElem? hh, rfl⟩)

/-! ## Before the first mount -/

omit [DecidableEq T] [Platform] in
theorem OneMount.boot (record : T → FuseUkfsRequest) : OneMount (.boot record : Sys T S F) where
  mounting _ h := h.elim
  client _ h := h.elim
  daemon _ _ h := absurd h (by simp [Sys.boot, Pc.session])
  backend _ h := absurd h (by simp [Sys.boot])

/-- Nodes are never removed. -/
theorem Sys.Step.nodes_nil {a : SysAct T S F} (hs : s.Step ops a s') (h : s'.nodes = []) :
    s.nodes = [] := by
  cases hs with
  | startNone t d buf startOk hpc hq => exact absurd h (by simp)
  | startDaemon t d buf se hpc hq hreg hd => exact absurd h (by simp [Sys.setPc])
  | graft a n node f hn => simpa [Sys.setFile] using h
  | submit a t n node input k s' hact hpc hn hasks hopen hs =>
      obtain ⟨queue, -, rfl⟩ := Option.map_eq_some_iff.mp hs
      exact h
  | finish t k ok hpc =>
      rcases Sys.finish_cases (s := s) (t := t) (s.record t).answer ok k with ⟨v, -, heq⟩ |
        ⟨n, iov, off, e, fh, -, -, heq⟩ | ⟨n, path, len, e, -, -, heq⟩ <;> rw [heq] at h
      · exact h
      · simpa [Sys.setFh, Sys.setPc] using h
      · exact absurd h (by simp [Sys.addChild, Sys.setPc])
  | _ => exact h

/-- The first node is the root of a mount. -/
theorem Sys.Step.first_node {a : SysAct T S F} (hs : s.Step ops a s') (hone : OneMount s)
    (hnil : s.nodes = []) (hne : s'.nodes ≠ []) : ∃ t d buf ok, a = .start t d buf ok := by
  cases hs with
  | startNone t d buf startOk hpc hq => exact ⟨t, d, buf, startOk, rfl⟩
  | startDaemon t d buf se hpc hq hreg hd => exact ⟨t, d, buf, true, rfl⟩
  | graft a n node f hn => exact absurd (by simpa [Sys.setFile] using hnil) hne
  | submit a t n node input k s' hact hpc hn hasks hopen hs =>
      rw [hnil] at hn
      exact absurd hn (by simp)
  | finish t k ok hpc => exact absurd hnil (hone.client t (by rw [hpc]; trivial))
  | _ => exact absurd hnil hne

omit [Platform] in
theorem mounting_update {v : Pc T S} {u : T} (hv : ¬ v.Mounting)
    (hu : (Function.update s.pc t v u).Mounting) : (s.pc u).Mounting := by
  by_cases hut : u = t
  · subst hut
    rw [Function.update_self] at hu
    exact absurd hu hv
  · rwa [Function.update_of_ne hut] at hu

/-- A mount begins with the allocation of its node. -/
theorem Sys.Step.mounting {a : SysAct T S F} (hs : s.Step ops a s') {u : T}
    (hu : (s'.pc u).Mounting) : (s.pc u).Mounting ∨ a = .vopen u true := by
  cases hs with
  | vopen t queue hpc hq =>
      by_cases hut : u = t
      · exact .inr (by rw [hut])
      · exact .inl (by simpa [Sys.setPc, hut] using hu)
  | startNone t d buf startOk hpc hq => exact .inl (mounting_update id hu)
  | startDaemon t d buf se hpc hq hreg hd =>
      have hstart : ((s.setPc t .idle).pc u).Mounting := mounting_update (v := .daemon se buf .loop)
        (s := { s.setPc t .idle with nodes := s.nodes ++ [⟨fusefsFileAlloc F 1, s.registered⟩] })
        id hu
      exact .inl (mounting_update id hstart)
  | goto a t v hpc hv => exact .inl (mounting_update hv.not_mounting hu)
  | submit a t n node input k s' hact hpc hn hasks hopen hs =>
      obtain ⟨queue, -, rfl⟩ := Option.map_eq_some_iff.mp hs
      exact .inl (mounting_update id hu)
  | down t k m ok hpc hq hdone => exact .inl (mounting_update id hu)
  | finish t k ok hpc =>
      obtain ⟨v, nodes, hv, heq⟩ := Sys.finish_eq (s := s) (t := t) (s.record t).answer ok k
      rw [heq] at hu
      exact .inl (mounting_update hv.not_mounting hu)
  | ret d se buf ok req queue hpc hat hq => exact .inl (mounting_update id hu)
  | unknown d se buf ok req hpc hmsg => exact .inl (mounting_update id hu)
  | overrun d se buf ok req hpc hmsg => exact .inl (mounting_update id hu)
  | message d se buf msg ok req hpc hmsg => exact .inl (mounting_update id hu)
  | failed d se buf ok req hpc => exact .inl (mounting_update id hu)
  | fail d se buf ok req act acts hpc => exact .inl (mounting_update id hu)
  | noReq d se buf ok req hpc hproc => exact .inl (mounting_update id hu)
  | handle d se buf ok req r what hpc hproc => exact .inl (mounting_update id hu)
  | returned d se buf ok b hpc => exact .inl (mounting_update id hu)
  | device d se buf ok req hpc => exact .inl (mounting_update id hu)
  | _ => exact .inl hu

omit [DecidableEq T] [Platform] in
/-- Nobody uses the queue, but for the thread that mounts. -/
theorem OneMount.initializes (h : OneMount s) (hplaced : Placed s owner) (hnil : s.nodes = []) :
    (s.queue.pc t).fn = none ∨ (s.queue.pc t).fn = some .init := by
  rcases (hplaced.threads t).sync with hnone | hfn
  · exact .inl hnone
  · rw [hfn]
    cases hpc : s.pc t with
    | waiting k => exact absurd hnil (h.client t (by rw [hpc]; trivial))
    | daemon se buf pc =>
        obtain ⟨node, hn, -⟩ := h.daemon t se (by rw [hpc]; rfl)
        rw [hnil] at hn
        exact absurd hn (by simp)
    | vopenInit => exact .inr rfl
    | _ => exact .inl rfl

/-- The queue is as at boot as long as nothing has been mounted. -/
def QueueUnused (s : Sys T S F) : Prop := s.nodes = [] → s.queue.q = ⟨[], none, 0⟩

theorem QueueUnused.step (h : QueueUnused s) (hone : OneMount s) (hplaced : Placed s owner)
    {a : SysAct T S F} (hs : s.Step ops a s') : QueueUnused s' := by
  intro hnil
  have hempty := h (hs.nodes_nil hnil)
  cases hs with
  | vopen t queue hpc hq =>
      obtain ⟨-, rfl⟩ := QueueState.callInit_eq hq
      exact hempty
  | submit a t n node input k s' hact hpc hn hasks hopen hs =>
      obtain ⟨queue, hq, rfl⟩ := Option.map_eq_some_iff.mp hs
      obtain ⟨-, rfl⟩ := QueueState.callPush_eq hq
      exact hempty
  | finish t k ok hpc =>
      obtain ⟨v, nodes, -, heq⟩ := Sys.finish_eq (s := s) (t := t) (s.record t).answer ok k
      rw [heq]
      exact hempty
  | callPop d se buf ok queue hpc hq =>
      obtain ⟨-, rfl⟩ := QueueState.callPop_eq hq
      exact hempty
  | ret d se buf ok req queue hpc hat hq =>
      obtain ⟨req', -, rfl⟩ := QueueState.ret_eq hq
      exact hempty
  | queue t queue hq =>
      have hfn := hone.initializes (t := t) hplaced hnil
      unfold QueueState.tick at hq
      cases hpc : s.queue.pc t with
      | initHead =>
          simp only [hpc, Option.some.injEq] at hq
          subst hq
          simp [QueueState.move, FuseUkfsQueue.tailqInit, hempty]
      | initLock =>
          simp only [hpc, Option.some.injEq] at hq
          subst hq
          simp [QueueState.move, FuseUkfsQueue.mutexInit, hempty]
      | initCount =>
          simp only [hpc, Option.some.injEq] at hq
          subst hq
          simp [QueueState.move, FuseUkfsQueue.semaphoreInit, hempty]
      | out => simp [hpc] at hq
      | _ => simp [hpc, QueuePc.fn] at hfn
  | _ => exact hempty

/-! ## Daemons stay -/

omit [Platform] in
/-- The thread that moves is no daemon, or stays one. -/
theorem session_update {v : Pc T S} {d : T} {se : S}
    (hv : (s.pc t).session = none ∨ v.session = (s.pc t).session)
    (hd : (s.pc d).session = some se) : (Function.update s.pc t v d).session = some se := by
  by_cases hdt : d = t
  · subst hdt
    rw [Function.update_self]
    rcases hv with hnone | hsame
    · rw [hnone] at hd
      exact absurd hd (by simp)
    · rw [hsame, hd]
  · rw [Function.update_of_ne hdt, hd]

/-- A daemon serves its session for ever. -/
theorem Sys.Step.session {a : SysAct T S F} (hs : s.Step ops a s') {d : T} {se : S}
    (hd : (s.pc d).session = some se) : (s'.pc d).session = some se := by
  cases hs with
  | vopen t queue hpc hq => exact session_update (.inl (by rw [hpc]; rfl)) hd
  | startNone t d' buf startOk hpc hq => exact session_update (.inl (by rw [hpc]; rfl)) hd
  | startDaemon t d' buf se' hpc hq hreg hidle =>
      have hmoved : ((s.setPc t .idle).pc d).session = some se :=
        session_update (.inl (by rw [hpc]; rfl)) hd
      refine session_update (s := { s.setPc t .idle with
        nodes := s.nodes ++ [⟨fusefsFileAlloc F 1, s.registered⟩] }) (.inl ?_) hmoved
      exact congrArg Pc.session (Sys.setPc_idle hidle)
  | goto a t v hpc hv => exact session_update (.inl hpc.session) hd
  | submit a t n node input k s' hact hpc hn hasks hopen hs =>
      obtain ⟨queue, -, rfl⟩ := Option.map_eq_some_iff.mp hs
      exact session_update (.inl hpc.session) hd
  | down t k m ok hpc hq hdone => exact session_update (.inl (by rw [hpc]; rfl)) hd
  | finish t k ok hpc =>
      obtain ⟨v, nodes, -, heq⟩ := Sys.finish_eq (s := s) (t := t) (s.record t).answer ok k
      rw [heq]
      exact session_update (.inl (by rw [hpc]; rfl)) hd
  | ret d' se' buf ok req queue hpc hat hq => exact session_update (.inr (by rw [hpc]; rfl)) hd
  | unknown d' se' buf ok req hpc hmsg => exact session_update (.inr (by rw [hpc]; rfl)) hd
  | overrun d' se' buf ok req hpc hmsg => exact session_update (.inr (by rw [hpc]; rfl)) hd
  | message d' se' buf msg ok req hpc hmsg => exact session_update (.inr (by rw [hpc]; rfl)) hd
  | failed d' se' buf ok req hpc => exact session_update (.inr (by rw [hpc]; rfl)) hd
  | fail d' se' buf ok req act acts hpc =>
      exact session_update (.inr (congrArg Pc.session hpc).symm) hd
  | noReq d' se' buf ok req hpc hproc => exact session_update (.inr (by rw [hpc]; rfl)) hd
  | handle d' se' buf ok req r what hpc hproc => exact session_update (.inr (by rw [hpc]; rfl)) hd
  | returned d' se' buf ok b hpc => exact session_update (.inr (by rw [hpc]; rfl)) hd
  | device d' se' buf ok req hpc => exact session_update (.inr (by rw [hpc]; rfl)) hd
  | _ => exact hd

end Steps

end UkfsFuse
