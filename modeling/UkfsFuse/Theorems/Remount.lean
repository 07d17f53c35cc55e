import UkfsFuse.Logic.Steps
import UkfsFuse.Theorems.QueueSafety

/-!
# A later mount

Every `fusefs_vopen` initialises the one queue again. That disturbs nothing
exactly when there is nothing to disturb: its statements find the list empty,
the lock free and the count zero. The system refines the queue on its own, so
what holds of the queue in runs with quiet initialisations holds of it here.
-/

namespace UkfsFuse

open UkfsFuse.Core QueuePc

section Refinement

variable {T S F : Type} [DecidableEq T] [Platform] {ops : S → FuseLowlevelOps} {s s' : Sys T S F}

/-- A statement of `fuse_ukfs_queue_init` finds reset what it resets. -/
def QuietMount (s : Sys T S F) : SysAct T S F → Prop
  | .queue t => QuietInit s.queue (.tick t)
  | _ => True

/-- A step of the system is one of the queue, or leaves it alone. -/
theorem Sys.Step.queue_square {a : SysAct T S F} (hs : s.Step ops a s') (hquiet : QuietMount s a) :
    s'.queue = s.queue ∨ ∃ b, QuietInit s.queue b ∧ s.queue.step b = some s'.queue := by
  cases hs with
  | vopen t queue hpc hq => exact .inr ⟨.callInit t, trivial, hq⟩
  | submit a t n node input k s' hact hpc hn hasks hopen hs =>
      obtain ⟨queue, hq, rfl⟩ := Option.map_eq_some_iff.mp hs
      exact .inr ⟨.callPush t t, trivial, hq⟩
  | finish t k ok hpc =>
      obtain ⟨v, nodes, -, heq⟩ := Sys.finish_eq (s := s) (t := t) (s.record t).answer ok k
      rw [heq]
      exact .inl rfl
  | callPop d se buf ok queue hpc hq => exact .inr ⟨.callPop d, trivial, hq⟩
  | ret d se buf ok req queue hpc hat hq => exact .inr ⟨.ret d, trivial, hq⟩
  | queue t queue hq => exact .inr ⟨.tick t, hquiet, hq⟩
  | _ => exact .inl rfl

/-- The system refines the queue: in runs with quiet initialisations of the
one, so do the other's. -/
def queueSimulation (ops : S → FuseLowlevelOps) :
    TSys.Simulation ((queueSystem T T).restrict QuietInit)
      ((fuseSystem T S F ops).restrict QuietMount) where
  abs := Sys.queue
  init_ok := by
    rintro s ⟨record, rfl⟩
    exact ⟨⟨[], none, 0⟩, rfl⟩
  square := by
    rintro s a s' ⟨hquiet, hstep⟩
    exact (Sys.Step.of_step hstep).queue_square hquiet

/-- A statement of `fuse_ukfs_queue_init` leaves the queue as it is exactly
when it is quiet. -/
theorem initStep_iff {t : T} (hinit : InInit (s.queue.pc t))
    (hs : s.step ops (.queue t) = some s') :
    s'.queue.q = s.queue.q ↔ QuietMount s (.queue t) := by
  obtain ⟨queue, hq, rfl⟩ := Option.map_eq_some_iff.mp hs
  unfold QueueState.tick at hq
  cases hpc : s.queue.pc t with
  | initHead =>
      simp only [hpc, Option.some.injEq] at hq
      subst hq
      simp only [QuietMount, QuietInit, hpc, QueueState.move, FuseUkfsQueue.tailqInit]
      constructor
      · intro h; rw [← h]
      · intro h; rw [← h]
  | initLock =>
      simp only [hpc, Option.some.injEq] at hq
      subst hq
      simp only [QuietMount, QuietInit, hpc, QueueState.move, FuseUkfsQueue.mutexInit]
      constructor
      · intro h; rw [← h]
      · intro h; rw [← h]
  | initCount =>
      simp only [hpc, Option.some.injEq] at hq
      subst hq
      simp only [QuietMount, QuietInit, hpc, QueueState.move, FuseUkfsQueue.semaphoreInit]
      constructor
      · intro h; rw [← h]
      · intro h; rw [← h]
  | _ => rw [hpc] at hinit; exact hinit.elim

end Refinement

/-- In every run in which the initialisations of later mounts find the queue
empty, its lock free and its count zero, requests in flight are undisturbed:
every insertion is removed once and in order, and no pop finds the list empty. -/
theorem mount_disturbs_nothing (T S F : Type) [DecidableEq T] [Platform]
    (ops : S → FuseLowlevelOps) :
    ((fuseSystem T S F ops).restrict QuietMount).Invariant fun s => QueueSafe s.queue := by
  have hinv := (queueSimulation (F := F) ops).invariant (queueInv_invariant T T)
  exact fun s hs => (hinv s hs).safe

/-- A request of the first mount is in the queue and announced; a second mount
empties the list, and the daemon's assertion fails. -/
theorem second_mount_loses_request :
    letI := sampleHeaders
    ∃ s, (fuseSystem (Fin 3) Unit Unit fun _ => .full).Reachable s ∧
      (s.queue.inserted, s.queue.removed, s.queue.q.head, s.queue.pc 1) =
        ([(0, 0)], [], [], .assertFailed) := by
  let := sampleHeaders
  refine TSys.exists_reachable_of_exec
    [ -- the first mount, its daemon is thread 1
      .mount (), .vopen 0 true, .queue 0, .queue 0, .queue 0, .start 0 1 (fun _ => 0) true,
      -- thread 0 pushes a GETATTR request
      .call 0 (.getstat 0) true, .queue 0, .queue 0, .queue 0, .queue 0,
      -- thread 2 mounts, its list initialisation comes before the daemon's pop
      .vopen 2 true, .queue 2, .run 1 true, .queue 1, .queue 1, .queue 1]
    ⟨fun _ => .init 0 (.getattr 0), rfl⟩ _ ?_
  decide

end UkfsFuse
