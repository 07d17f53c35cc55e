import UkfsFuse.Core.TSys

/-!
# The request queue (`fuse_queue.c`)

`struct fuse_ukfs_queue` and its three functions, one atomic step at a time.
A thread's `QueuePc` is the next statement it executes inside the queue
functions; between two statements any other thread may run.

`UK_TAILQ` is a list (head first), `uk_mutex` its owner, `uk_semaphore` its
count: `uk_mutex_lock` waits until the lock is free, `uk_semaphore_down` waits
until the count is positive, `uk_semaphore_up` never waits. To initialise a
lock or a semaphore again sets this value and no more: threads that sleep on it
are left to wait for the new one.
-/

namespace UkfsFuse

open UkfsFuse.Core

/-- `struct fuse_ukfs_queue`, for threads `T` and request pointers `R`. -/
structure FuseUkfsQueue (T R : Type) where
  head : List R
  lock : Option T
  count : Nat
deriving Repr, DecidableEq

variable {T R : Type}

namespace FuseUkfsQueue

/-- `UK_TAILQ_INIT(&q->head)` -/
def tailqInit (q : FuseUkfsQueue T R) : FuseUkfsQueue T R := { q with head := [] }

/-- `uk_mutex_init(&q->lock)` -/
def mutexInit (q : FuseUkfsQueue T R) : FuseUkfsQueue T R := { q with lock := none }

/-- `uk_semaphore_init(&q->count, 0)` -/
def semaphoreInit (q : FuseUkfsQueue T R) : FuseUkfsQueue T R := { q with count := 0 }

/-- `uk_mutex_lock(&q->lock)` by thread `t`; blocks while the lock is held. -/
def mutexLock (q : FuseUkfsQueue T R) (t : T) : Option (FuseUkfsQueue T R) :=
  match q.lock with
  | none => some { q with lock := some t }
  | some _ => none

/-- `uk_mutex_unlock(&q->lock)` -/
def mutexUnlock (q : FuseUkfsQueue T R) : FuseUkfsQueue T R := { q with lock := none }

/-- `UK_TAILQ_INSERT_TAIL(&q->head, req, list)` -/
def insertTail (q : FuseUkfsQueue T R) (req : R) : FuseUkfsQueue T R :=
  { q with head := q.head ++ [req] }

/-- `uk_semaphore_up(&q->count)` -/
def semaphoreUp (q : FuseUkfsQueue T R) : FuseUkfsQueue T R :=
  { q with count := q.count + 1 }

/-- `uk_semaphore_down(&q->count)`; blocks while the count is 0. -/
def semaphoreDown (q : FuseUkfsQueue T R) : Option (FuseUkfsQueue T R) :=
  match q.count with
  | 0 => none
  | n + 1 => some { q with count := n }

end FuseUkfsQueue

/-- `fuse_ukfs_queue_init` run without interruption. -/
def fuseUkfsQueueInit (q : FuseUkfsQueue T R) : FuseUkfsQueue T R :=
  q.tailqInit.mutexInit.semaphoreInit

/-- Where a thread is inside the queue functions. -/
inductive QueuePc (R : Type)
  /-- in none of them -/
  | out
  | pushLock (req : R)
  | pushInsert (req : R)
  | pushUnlock (req : R)
  | pushUp (req : R)
  | popDown
  | popLock
  | popRemove
  | popUnlock (req : R)
  /-- `fuse_ukfs_queue_pop` is about to return `req` -/
  | popReturn (req : R)
  | initHead
  | initLock
  | initCount
  /-- `UK_ASSERT(req)` failed -/
  | assertFailed
deriving Repr, DecidableEq

/-- A queue and the threads using it. `pushed` and `returned` record the calls
of push and the returns of pop, `inserted` and `removed` the list operations;
no step reads the four histories. -/
structure QueueState (T R : Type) where
  q : FuseUkfsQueue T R
  pc : T → QueuePc R
  pushed : List (T × R)
  inserted : List (T × R)
  removed : List (T × R)
  returned : List (T × R)

/-- What a thread may do with a queue: call one of its functions, execute the
next statement of the function it is in, or return from pop. -/
inductive QueueAct (T R : Type)
  | callPush (t : T) (req : R)
  | callPop (t : T)
  | callInit (t : T)
  | tick (t : T)
  | ret (t : T)

namespace QueueState

variable [DecidableEq T]

/-- Thread `t` reaches `v`, the queue becomes `q`. -/
def move (s : QueueState T R) (t : T) (v : QueuePc R) (q : FuseUkfsQueue T R) :
    QueueState T R :=
  { s with q := q, pc := Function.update s.pc t v }

/-- The next statement of thread `t`, `none` when it blocks or is in no queue
function. -/
def tick (s : QueueState T R) (t : T) : Option (QueueState T R) :=
  match s.pc t with
  | .out => none
  | .pushLock req => (s.q.mutexLock t).map (s.move t (.pushInsert req))
  | .pushInsert req =>
      some { s.move t (.pushUnlock req) (s.q.insertTail req) with
        inserted := s.inserted ++ [(t, req)] }
  | .pushUnlock req => some (s.move t (.pushUp req) s.q.mutexUnlock)
  | .pushUp _ => some (s.move t .out s.q.semaphoreUp)
  | .popDown => s.q.semaphoreDown.map (s.move t .popLock)
  | .popLock => (s.q.mutexLock t).map (s.move t .popRemove)
  | .popRemove =>
      -- UK_TAILQ_FIRST, UK_ASSERT, UK_TAILQ_REMOVE
      match s.q.head with
      | [] => some (s.move t .assertFailed s.q)
      | req :: rest =>
          some { s.move t (.popUnlock req) { s.q with head := rest } with
            removed := s.removed ++ [(t, req)] }
  | .popUnlock req => some (s.move t (.popReturn req) s.q.mutexUnlock)
  | .popReturn _ => none
  | .initHead => some (s.move t .initLock s.q.tailqInit)
  | .initLock => some (s.move t .initCount s.q.mutexInit)
  | .initCount => some (s.move t .out s.q.semaphoreInit)
  | .assertFailed => none

/-- `fuse_ukfs_queue_push(q, req)` is called by `t`. -/
def callPush (s : QueueState T R) (t : T) (req : R) : Option (QueueState T R) :=
  match s.pc t with
  | .out => some { s.move t (.pushLock req) s.q with pushed := s.pushed ++ [(t, req)] }
  | _ => none

/-- `fuse_ukfs_queue_pop(q)` is called by `t`. -/
def callPop (s : QueueState T R) (t : T) : Option (QueueState T R) :=
  match s.pc t with
  | .out => some (s.move t .popDown s.q)
  | _ => none

/-- `fuse_ukfs_queue_init(q)` is called by `t`. -/
def callInit (s : QueueState T R) (t : T) : Option (QueueState T R) :=
  match s.pc t with
  | .out => some (s.move t .initHead s.q)
  | _ => none

/-- `fuse_ukfs_queue_pop` returns in `t`. -/
def ret (s : QueueState T R) (t : T) : Option (QueueState T R) :=
  match s.pc t with
  | .popReturn req => some { s.move t .out s.q with returned := s.returned ++ [(t, req)] }
  | _ => none

/-- One step of the threads on the queue. -/
def step (s : QueueState T R) : QueueAct T R → Option (QueueState T R)
  | .callPush t req => s.callPush t req
  | .callPop t => s.callPop t
  | .callInit t => s.callInit t
  | .tick t => s.tick t
  | .ret t => s.ret t

/-- No thread is in a queue function and nothing has happened yet. -/
def fresh (q : FuseUkfsQueue T R) : QueueState T R :=
  ⟨q, fun _ => .out, [], [], [], []⟩

end QueueState

/-- Any number of threads using one queue after `fuse_ukfs_queue_init`. -/
def queueSystem (T R : Type) [DecidableEq T] : TSys (QueueState T R) (QueueAct T R) :=
  .ofFun (fun s => ∃ q, s = .fresh (fuseUkfsQueueInit q)) QueueState.step

end UkfsFuse
