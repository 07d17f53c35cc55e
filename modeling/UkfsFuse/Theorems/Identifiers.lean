import UkfsFuse.Logic.Identifiers
import UkfsFuse.Logic.Mounting

/-!
# The driver invents no identifiers

`FromBackend` holds in every run. With one mount there is one backend, so what
a callback is invoked for was returned by the same callbacks.
-/

namespace UkfsFuse

open UkfsFuse.Core

section Definitions

variable {T S F : Type}

/-- What is asked of the backend names what the backend has returned. -/
structure IdentifiersKnown (ops : S → FuseLowlevelOps) (s : Sys T S F) : Prop where
  /-- there is one backend -/
  one : ∀ hd ∈ s.handles, ∀ hd' ∈ s.handles, hd.se = hd'.se
  /-- the requests on the way to it -/
  requests : ∀ t, (s.pc t).Outstanding → s.InputKnown ops (s.record t).input
  /-- and its callbacks -/
  calls : ∀ hd ∈ s.handles, ∀ call, hd.what = .callback call → s.CallKnown ops call

end Definitions

/-- In every run with one mount, every request names `FUSE_ROOT_ID` or an inode
the backend has returned, and every READ a handle the backend has returned for
that inode, or 0 when libfuse has opened the file. -/
theorem identifiers_come_from_the_backend (T S F : Type) [DecidableEq T] [Platform]
    (ops : S → FuseLowlevelOps) :
    ((fuseSystem T S F ops).restrict FirstMount).Invariant (IdentifiersKnown ops) := by
  suffices hinv : ((fuseSystem T S F ops).restrict FirstMount).Invariant fun s =>
      OneMount s ∧ FromBackend ops s by
    intro s hs
    obtain ⟨hone, hfrom⟩ := hinv s hs
    exact {
      one := by
        intro hd hmem hd' hmem'
        obtain ⟨node, hn, hhome⟩ := hone.backend hd hmem
        obtain ⟨node', hn', hhome'⟩ := hone.backend hd' hmem'
        obtain rfl := Option.some.inj (hn.symm.trans hn')
        exact Option.some.inj (hhome.symm.trans hhome')
      requests := by
        intro t hout
        obtain ⟨k, hk⟩ := hout.cont
        exact (hfrom.asked t k hk).1
      calls := fun hd hmem => (hfrom.handle hd hmem).1 }
  intro s hs
  induction hs with
  | start hinit =>
      obtain ⟨record, rfl⟩ := hinit
      exact ⟨.boot record, .boot ops record⟩
  | step hreach hstep ih =>
      obtain ⟨owner, hacc⟩ := accounted_reachable hreach.of_restrict
      have hs := Sys.Step.of_step hstep.2
      exact ⟨ih.1.step hstep.1 hs, ih.2.step hacc hs⟩

/-- A backend without an open callback: libfuse answers the OPEN of a reader
with the handle 0, which the backend has not returned. -/
theorem unopened_file_is_read :
    letI := sampleHeaders
    ¬ ((fuseSystem (Fin 2) Unit Unit fun _ => { FuseLowlevelOps.full with open_ := false }).restrict
      FirstMount).Invariant fun s => ∀ hd ∈ s.handles, ∀ ino size off fi,
        hd.what = .callback (.read ino size off fi) →
          ∃ fi' f, s.Answered (.callback (.open_ ino fi')) (.open_ f) ∧ f.fh = fi.fh := by
  let := sampleHeaders
  have hrun : ∃ s, ((fuseSystem (Fin 2) Unit Unit
      fun _ => { FuseLowlevelOps.full with open_ := false }).restrict FirstMount).Reachable s ∧
      (s.handles.map Handle.what) =
        [.own (.open_ {}), .callback (.read 1 4 0 {})] := by
    refine TSys.exists_reachable_of_guarded (s := .boot fun _ => .init 0 (.getattr 0))
      [ .mount (), .vopen 0 true, .queue 0, .queue 0, .queue 0, .start 0 1 (fun _ => 0) true,
        -- the OPEN of the root, which libfuse answers itself
        .call 0 (.read 0 [4] 0) true, .run 0 true, .queue 0, .queue 0, .queue 0, .queue 0,
        .run 1 true, .queue 1, .queue 1, .queue 1, .queue 1, .run 1 true, .run 1 true, .run 1 true,
        .reply 0 (.open_ {}) true, .replyStep 0, .replyStep 0, .replyStep 0, .replyStep 0,
        .replyStep 0, .run 1 true, .run 0 true, .run 0 true,
        -- and the READ with the handle of that answer
        .run 0 true, .queue 0, .queue 0, .queue 0, .queue 0,
        .run 1 true, .queue 1, .queue 1, .queue 1, .queue 1, .run 1 true, .run 1 true, .run 1 true]
      ?_ _ ?_
    · exact .start ⟨_, rfl⟩
    · decide
  intro hinv
  obtain ⟨s, hs, hobs⟩ := hrun
  obtain ⟨hd, hmem, hread⟩ := List.mem_map.mp (hobs ▸ List.mem_cons_of_mem _ (.head []) :
    Handled.callback (.read 1 4 0 {}) ∈ s.handles.map Handle.what)
  obtain ⟨fi, f, ⟨hd', hmem', hopen, -⟩, -⟩ := hinv s hs hd hmem 1 4 0 {} hread
  have hnone : Handled.callback (.open_ 1 fi) ∈ s.handles.map Handle.what :=
    hopen ▸ List.mem_map_of_mem hmem'
  rw [hobs] at hnone
  exact absurd hnone (by simp)

end UkfsFuse
