import UkfsFuse.Logic.Opening

/-!
# Lazy open

Nothing keeps a second reader from finding a file unopened while the first
waits for its handle, and the value that means "not opened" is one the backend
may give. A file is opened once in every run in which neither happens.
-/

namespace UkfsFuse

open UkfsFuse.Core

/-- In every run in which readers open alone and the backend's handles are
handles, every file is opened at most once and keeps its handle. -/
theorem lazy_open_once (T S F : Type) [DecidableEq T] [Platform] (ops : S → FuseLowlevelOps) :
    ((fuseSystem T S F ops).restrict OpensAlone).Invariant LazyOpenSafe := by
  suffices hinv : ((fuseSystem T S F ops).restrict OpensAlone).Invariant OpenInv from
    fun s hs => (hinv s hs).safe
  intro s hs
  induction hs with
  | start hinit =>
      obtain ⟨record, rfl⟩ := hinit
      have hpc : ∀ t n, ((Sys.boot record : Sys T S F).pc t).opening ≠ some n := by
        simp [Sys.boot, Pc.opening]
      have houtcome : ∀ i o, (Sys.boot record : Sys T S F).outcome i ≠ some o := by
        simp [Sys.boot, Sys.outcome]
      exact {
        node := fun t n hn => absurd hn (hpc t n)
        input := fun t ino flags hout => hout.elim
        unset := fun t n hn => absurd hn.1 (hpc t n)
        alone := fun t u n hn => absurd hn.1 (hpc t n)
        given := fun i o fh hi => absurd hi (houtcome i o)
        safe := ⟨fun i j o o' fh fh' hi => absurd hi (houtcome i o),
          fun i o fh hi => absurd hi (houtcome i o)⟩ }
  | step hreach hstep ih =>
      obtain ⟨owner, hacc⟩ := accounted_reachable hreach.of_restrict
      exact ih.step hacc hstep.1 (.of_step hstep.2)

/-- Two readers of one file both find it unopened. The backend answers both of
their OPENs, the handle 7 is overwritten by 8. -/
theorem second_reader_opens_again :
    letI := sampleHeaders
    ¬ (fuseSystem (Fin 3) Unit Unit fun _ => .full).Invariant LazyOpenSafe := by
  let := sampleHeaders
  have hrun : ∃ s, (fuseSystem (Fin 3) Unit Unit fun _ => .full).Reachable s ∧
      (s.outcome 0, s.outcome 1, s.fhOf 0) =
        (some ⟨.callback (.open_ 1 {}), ⟨0, 0⟩, .open_ { fh := 7 }, true⟩,
          some ⟨.callback (.open_ 1 {}), ⟨1, 0⟩, .open_ { fh := 8 }, true⟩, some 8) := by
    refine TSys.exists_reachable_of_exec
      [ -- the mount, its daemon is thread 1
        .mount (), .vopen 0 true, .queue 0, .queue 0, .queue 0, .start 0 1 (fun _ => 0) true,
        -- both readers test the handle before either has stored one
        .call 0 (.read 0 [4] 0) true, .call 2 (.read 0 [4] 0) true, .run 0 true, .run 2 true,
        .queue 0, .queue 0, .queue 0, .queue 0, .queue 2, .queue 2, .queue 2, .queue 2,
        -- the daemon serves one and the other
        .run 1 true, .queue 1, .queue 1, .queue 1, .queue 1, .run 1 true, .run 1 true, .run 1 true,
        .reply 0 (.open_ { fh := 7 }) true, .replyStep 0, .replyStep 0, .replyStep 0, .replyStep 0,
        .run 1 true,
        .run 1 true, .queue 1, .queue 1, .queue 1, .queue 1, .run 1 true, .run 1 true, .run 1 true,
        .reply 1 (.open_ { fh := 8 }) true, .replyStep 1, .replyStep 1, .replyStep 1, .replyStep 1,
        -- they store their handles
        .run 0 true, .run 0 true, .run 2 true, .run 2 true]
      ⟨fun _ => .init 0 (.getattr 0), rfl⟩ _ ?_
    decide
  intro hinv
  obtain ⟨s, hs, hobs⟩ := hrun
  obtain ⟨hfirst, hsecond, -⟩ := by simpa only [Prod.mk.injEq] using hobs
  exact absurd ((hinv s hs).once 0 1 _ _ 7 8 hfirst hsecond ⟨trivial, _, rfl, rfl⟩
    ⟨trivial, _, rfl, rfl⟩ rfl) (by decide)

/-- One reader is enough when the backend opens with `(uint64_t)-1`: the file
it has opened looks unopened to its next read. -/
theorem unset_handle_opens_again :
    letI := sampleHeaders
    ¬ (fuseSystem (Fin 2) Unit Unit fun _ => .full).Invariant LazyOpenSafe := by
  let := sampleHeaders
  have hrun : ∃ s, (fuseSystem (Fin 2) Unit Unit fun _ => .full).Reachable s ∧
      (s.outcome 0, s.outcome 1) =
        (some ⟨.callback (.open_ 1 {}), ⟨0, 0⟩, .open_ { fh := FH_UNSET }, true⟩,
          some ⟨.callback (.open_ 1 {}), ⟨1, 0⟩, .open_ { fh := 5 }, true⟩) := by
    refine TSys.exists_reachable_of_exec
      [ .mount (), .vopen 0 true, .queue 0, .queue 0, .queue 0, .start 0 1 (fun _ => 0) true,
        -- a read of no bytes opens the file and returns
        .call 0 (.read 0 [] 0) true, .run 0 true, .queue 0, .queue 0, .queue 0, .queue 0,
        .run 1 true, .queue 1, .queue 1, .queue 1, .queue 1, .run 1 true, .run 1 true, .run 1 true,
        .reply 0 (.open_ { fh := FH_UNSET }) true, .replyStep 0, .replyStep 0, .replyStep 0,
        .replyStep 0, .run 1 true, .run 0 true, .run 0 true, .run 0 true,
        -- and so does the next
        .call 0 (.read 0 [] 0) true, .run 0 true, .queue 0, .queue 0, .queue 0, .queue 0,
        .run 1 true, .queue 1, .queue 1, .queue 1, .queue 1, .run 1 true, .run 1 true, .run 1 true,
        .reply 1 (.open_ { fh := 5 }) true]
      ⟨fun _ => .init 0 (.getattr 0), rfl⟩ _ ?_
    decide
  intro hinv
  obtain ⟨s, hs, hobs⟩ := hrun
  obtain ⟨hfirst, hsecond⟩ := Prod.mk.inj hobs
  exact absurd ((hinv s hs).once 0 1 _ _ FH_UNSET 5 hfirst hsecond ⟨trivial, _, rfl, rfl⟩
    ⟨trivial, _, rfl, rfl⟩ rfl) (by decide)

end UkfsFuse
