import UkfsFuse.Core.Ring
import UkfsFuse.Core.TSys

/-!
# Requests in flight and their interrupts (`fuse_lowlevel.c`)

The two lists of a session, the reference counts and locks of its requests, and
the functions that use them: `fuse_ll_alloc_req`, `fuse_free_req`,
`destroy_req`, `check_interrupt`, `_do_interrupt`, `find_interrupted`,
`fuse_req_interrupt_func` and `fuse_req_interrupted`. Any number of threads
call them; what a thread does between `pthread_mutex_lock(&se->lock)` and the
unlock is one step, because nobody waits for anything in between. Outside, a
step is a statement that others could see.

A function of the model is `none` where the source has no defined behaviour: a
request that is not allocated is read, written or freed, `destroy_req` is
called with `req->ch` set or on a locked mutex, the member of the union `u` is
not the one that was written last, or a loop does not end.

An interrupt function of the backend runs while its caller is in `callCurr` or
`callReq`. What it does with requests there are steps of a thread of its own, for
which the caller does not wait: so it may reply to its request when `_do_interrupt`
has called it. It may not when `fuse_req_interrupt_func` has, which unlocks the
request afterwards; and it has to return, so that it never calls
`fuse_req_interrupt_func`, where it would wait for a lock while its caller has one.

`held` and `called` are not part of the program: the requests the backend has
been given and not replied to, and the interrupt functions that were called.
-/

namespace UkfsFuse

open UkfsFuse.Core

/-- `&se->list`, `&se->interrupts` or a request: what `next` and `prev` point to. -/
inductive ReqNode (R : Type)
  | list
  | interrupts
  | req (r : R)
deriving DecidableEq, Repr

/-- The union `u` of a `struct fuse_req`; `Fn` is a function with its data. -/
inductive ReqUnion (Fn : Type)
  | i (unique : UInt64)
  | ni (func : Option Fn)
deriving DecidableEq, Repr

/-- `u.i.unique`; the null pointer is zero. -/
def ReqUnion.iUnique {Fn : Type} : ReqUnion Fn → Option UInt64
  | .i unique => some unique
  | .ni none => some 0
  | .ni (some _) => none

/-- `u.ni.func` -/
def ReqUnion.niFunc {Fn : Type} : ReqUnion Fn → Option (Option Fn)
  | .i _ => none
  | .ni func => some func

/-- A `struct fuse_req`, but for its links; `ch` says that `req->ch` is set. -/
structure LlReq (T Fn : Type) where
  unique : UInt64
  refCnt : Int
  /-- the owner of `lock` -/
  lock : Option T
  ch : Bool
  interrupted : Bool
  u : ReqUnion Fn

/-- Where a thread is in the functions on requests. -/
inductive ReqPc (R Fn : Type)
  | idle
  /-- in `fuse_session_process_buf_internal`, about to lock the session -/
  | check (req : R)
  /-- about to call the handler of the request -/
  | dispatch (req : R)
  /-- in `fuse_free_req`; then request `next`, if any, is dispatched -/
  | free (req : R) (next : Option R)
  /-- at `destroy_req(req)` at its end -/
  | destroy (req : R) (next : Option R)
  /-- in `_do_interrupt`, about to lock the session -/
  | interrupt (req : R)
  /-- in `find_interrupted`, at `pthread_mutex_lock(&curr->lock)` -/
  | lockCurr (req curr : R)
  | mark (req curr : R)
  /-- in `func(curr, data)`, which may reply to `curr` -/
  | callCurr (req curr : R) (func : Fn)
  | unlockCurr (req curr : R)
  /-- at `curr->ref_cnt--`, and then at the end of `_do_interrupt` -/
  | drop (req curr : R)
  /-- in `fuse_req_interrupt_func`, at `pthread_mutex_lock(&req->lock)` -/
  | lockReq (req : R) (func : Option Fn)
  | setFunc (req : R) (func : Option Fn)
  /-- at `if (req->interrupted && func)` -/
  | test (req : R) (func : Option Fn)
  /-- in `func(req, data)`, which may not reply to `req` -/
  | callReq (req : R) (func : Fn)
  | unlockReq (req : R)
  /-- in `fuse_req_interrupted` -/
  | query (req : R)
deriving DecidableEq, Repr

/-- What `fuse_session_process_buf_internal` finds a message to be. -/
inductive Message
  /-- no handler is called: wrong opcode, or not allowed -/
  | refused
  | interrupt (unique : UInt64)
  | request
deriving DecidableEq, Repr

/-- The requests of a session. -/
structure ReqState (T R Fn : Type) where
  /-- the requests that are allocated -/
  live : List R
  req : R → LlReq T Fn
  links : Links (ReqNode R)
  pc : T → ReqPc R Fn
  held : R → Bool
  called : R → List Fn

/-- What threads do with requests. -/
inductive ReqAct (T R Fn : Type)
  /-- a message is received on the channel `ch`, and the request `req`
  allocated for it -/
  | process (t : T) (req : R) (unique : UInt64) (ch : Bool) (message : Message)
  /-- `do_forget_multi` allocates a request of its own for `op.forget` -/
  | dummy (t : T) (req : R) (unique : UInt64)
  /-- one of the reply functions is called, and calls `fuse_free_req` -/
  | reply (t : T) (req : R)
  | interruptFunc (t : T) (req : R) (func : Option Fn)
  | interrupted (t : T) (req : R)
  /-- the next statement of `t` -/
  | run (t : T)

namespace ReqState

variable {T R Fn : Type} [DecidableEq T] [DecidableEq R]

/-! ## Fields and links -/

/-- The request is read. -/
def get (s : ReqState T R Fn) (r : R) : Option (LlReq T Fn) :=
  if r ∈ s.live then some (s.req r) else none

/-- Some of its fields are written. -/
def modify (s : ReqState T R Fn) (r : R) (f : LlReq T Fn → LlReq T Fn) :
    Option (ReqState T R Fn) :=
  if r ∈ s.live then some { s with req := Function.update s.req r (f (s.req r)) } else none

/-- The memory of the node is there. -/
def Valid (s : ReqState T R Fn) : ReqNode R → Prop
  | .list | .interrupts => True
  | .req r => r ∈ s.live

instance (s : ReqState T R Fn) (a : ReqNode R) : Decidable (s.Valid a) := by
  cases a <;> unfold Valid <;> infer_instance

/-- `list_init_req(req)` -/
def listInitReq (s : ReqState T R Fn) (r : R) : Option (ReqState T R Fn) :=
  if r ∈ s.live then some { s with links := s.links.init (.req r) } else none

/-- `list_del_req(req)` -/
def listDelReq (s : ReqState T R Fn) (r : R) : Option (ReqState T R Fn) :=
  if r ∈ s.live ∧ s.Valid (s.links.prev (.req r)) ∧ s.Valid (s.links.next (.req r)) then
    some { s with links := s.links.del (.req r) }
  else none

/-- `list_add_req(req, head)` -/
def listAddReq (s : ReqState T R Fn) (r : R) (head : ReqNode R) : Option (ReqState T R Fn) :=
  if r ∈ s.live ∧ s.Valid (s.links.prev head) then
    some { s with links := s.links.add (.req r) head }
  else none

/-- `p` of the request at a node. -/
def readNode (s : ReqState T R Fn) (p : LlReq T Fn → Option Bool) : ReqNode R → Option Bool
  | .req r => (s.get r).bind p
  | _ => none

/-- A loop over the list at `head`; `p` reads the fields of a request. -/
def findReq (s : ReqState T R Fn) (head : ReqNode R) (p : LlReq T Fn → Option Bool) :
    Option (Option (ReqNode R)) :=
  s.links.find (s.readNode p) head (s.live.length + 1) (s.links.next head)

/-- `fuse_ll_alloc_req`, with what `fuse_session_process_buf_internal` fills in -/
def fuseLlAllocReq (s : ReqState T R Fn) (r : R) (unique : UInt64) (ch : Bool) :
    Option (ReqState T R Fn) :=
  -- the memory is not in use
  if r ∈ s.live then none
  else some { s with
    live := r :: s.live
    req := Function.update s.req r ⟨unique, 1, none, ch, false, .ni none⟩
    links := s.links.init (.req r)
    called := Function.update s.called r [] }

/-- `destroy_req(req)`; there is no uring in this port. -/
def destroyReq (s : ReqState T R Fn) (r : R) : Option (ReqState T R Fn) :=
  (s.get r).bind fun x =>
    if x.ch = false ∧ x.lock = none then some { s with live := s.live.erase r } else none

/-- `fuse_chan_put(req->ch); req->ch = NULL` -/
def putChan (s : ReqState T R Fn) (r : R) : Option (ReqState T R Fn) :=
  s.modify r fun x => { x with ch := false }

def setPc (s : ReqState T R Fn) (t : T) (v : ReqPc R Fn) : ReqState T R Fn :=
  { s with pc := Function.update s.pc t v }

/-- The end of `fuse_free_req`, and what follows it. -/
def done (s : ReqState T R Fn) (t : T) : Option R → ReqState T R Fn
  | none => s.setPc t .idle
  | some r => s.setPc t (.dispatch r)

/-! ## The functions -/

/-- `check_interrupt(se, req)` -/
def checkInterrupt (s : ReqState T R Fn) (r : R) : Option (ReqState T R Fn × Option R) := do
  let x ← s.get r
  let found ← s.findReq .interrupts fun y => y.u.iUnique.map (· = x.unique)
  match found with
  | some (.req curr) =>
      let s ← s.modify r fun x => { x with interrupted := true }
      let s ← s.listDelReq curr
      let s ← s.putChan curr
      let s ← s.destroyReq curr
      return (s, none)
  | _ =>
      match s.links.next .interrupts with
      | .req curr =>
          let s ← s.listDelReq curr
          let s ← s.listInitReq curr
          return (s, some curr)
      | _ => return (s, none)

/-- `fuse_session_process_buf_internal` with the session locked, and
`fuse_reply_err(intr, EAGAIN)` up to its `fuse_free_req` -/
def check (s : ReqState T R Fn) (t : T) (r : R) : Option (ReqState T R Fn) := do
  let (s, intr) ← s.checkInterrupt r
  let s ← s.listAddReq r .list
  match intr with
  | none => return s.done t (some r)
  | some curr => return s.setPc t (.free curr (some r))

/-- `fuse_free_req(req)` up to its `destroy_req` -/
def fuseFreeReq (noInterrupt : Bool) (s : ReqState T R Fn) (t : T) (r : R) (next : Option R) :
    Option (ReqState T R Fn) := do
  let s ←
    if noInterrupt then s.modify r fun x => { x with refCnt := x.refCnt - 1 }
    else do
      let s ← s.modify r fun x => { x with u := .ni none }
      let s ← s.listDelReq r
      s.modify r fun x => { x with refCnt := x.refCnt - 1 }
  let x ← s.get r
  let s ← s.putChan r
  if x.refCnt = 0 then return s.setPc t (.destroy r next) else return s.done t next

/-- `_do_interrupt` up to where `find_interrupted` unlocks the session, or to
its end -/
def doInterrupt (s : ReqState T R Fn) (t : T) (r : R) : Option (ReqState T R Fn) := do
  let x ← s.get r
  let unique ← x.u.iUnique
  let found ← s.findReq .list fun y => some (y.unique = unique)
  match found with
  | some (.req curr) =>
      let s ← s.modify curr fun y => { y with refCnt := y.refCnt + 1 }
      return s.setPc t (.lockCurr r curr)
  | _ =>
      let found ← s.findReq .interrupts fun y => y.u.iUnique.map (· = unique)
      match found with
      | some _ =>
          let s ← s.putChan r
          let s ← s.destroyReq r
          return s.setPc t .idle
      | none =>
          let s ← s.listAddReq r .interrupts
          return s.setPc t .idle

/-- `find_interrupted` and `_do_interrupt`, the session locked again for good -/
def dropCurr (s : ReqState T R Fn) (t : T) (r curr : R) : Option (ReqState T R Fn) := do
  let s ← s.modify curr fun y => { y with refCnt := y.refCnt - 1 }
  let y ← s.get curr
  let s ← if y.refCnt = 0 then s.destroyReq curr else some s
  let s ← s.putChan r
  let s ← s.destroyReq r
  return s.setPc t .idle

/-- `curr->interrupted = 1; func = curr->u.ni.func` -/
def markCurr (s : ReqState T R Fn) (t : T) (r curr : R) : Option (ReqState T R Fn) := do
  let s ← s.modify curr fun y => { y with interrupted := true }
  let y ← s.get curr
  let func ← y.u.niFunc
  match func with
  | none => return s.setPc t (.unlockCurr r curr)
  | some f =>
      return { s.setPc t (.callCurr r curr f) with
        called := Function.update s.called curr (s.called curr ++ [f]) }

/-- `if (req->interrupted && func) func(req, data)` -/
def testReq (s : ReqState T R Fn) (t : T) (r : R) (func : Option Fn) :
    Option (ReqState T R Fn) := do
  let x ← s.get r
  match x.interrupted, func with
  | true, some f =>
      return { s.setPc t (.callReq r f) with
        called := Function.update s.called r (s.called r ++ [f]) }
  | _, _ => return s.setPc t (.unlockReq r)

/-! ## Steps -/

/-- The thread waits for the lock of a request. -/
def Blocked (s : ReqState T R Fn) (t : T) : Prop :=
  match s.pc t with
  | .lockCurr _ r | .lockReq r _ => (s.req r).lock ≠ none
  | _ => False

instance (s : ReqState T R Fn) (t : T) : Decidable (s.Blocked t) := by
  unfold Blocked
  cases s.pc t <;> infer_instance

/-- The next statement of `t`, if it does not wait. -/
def run (noInterrupt : Bool) (s : ReqState T R Fn) (t : T) : Option (ReqState T R Fn) :=
  match s.pc t with
  | .idle => none
  | .check r => s.check t r
  | .dispatch r => some { s.setPc t .idle with held := Function.update s.held r true }
  | .free r next => s.fuseFreeReq noInterrupt t r next
  | .destroy r next => (s.destroyReq r).map (·.done t next)
  | .interrupt r => s.doInterrupt t r
  | .lockCurr r curr => do
      let s ← s.modify curr fun y => { y with lock := some t }
      return s.setPc t (.mark r curr)
  | .mark r curr => s.markCurr t r curr
  | .callCurr r curr _ => some (s.setPc t (.unlockCurr r curr))
  | .unlockCurr r curr => do
      let s ← s.modify curr fun y => { y with lock := none }
      return s.setPc t (.drop r curr)
  | .drop r curr => s.dropCurr t r curr
  | .lockReq r func => do
      let s ← s.modify r fun x => { x with lock := some t }
      return s.setPc t (.setFunc r func)
  | .setFunc r func => do
      let s ← s.modify r fun x => { x with u := .ni func }
      return s.setPc t (.test r func)
  | .test r func => s.testReq t r func
  | .callReq r _ => some (s.setPc t (.unlockReq r))
  | .unlockReq r => do
      let s ← s.modify r fun x => { x with lock := none }
      return s.setPc t .idle
  | .query r => (s.get r).map fun _ => s.setPc t .idle

/-- `fuse_session_process_buf_internal` for a message, up to the first lock -/
def process (noInterrupt : Bool) (s : ReqState T R Fn) (t : T) (r : R) (unique : UInt64)
    (ch : Bool) : Message → Option (ReqState T R Fn)
  | .refused => (s.fuseLlAllocReq r unique ch).map (·.setPc t (.free r none))
  | .interrupt target => do
      let s ← s.fuseLlAllocReq r unique ch
      if noInterrupt then return s.setPc t (.free r none)
      else
        let s ← s.modify r fun x => { x with u := .i target }
        return s.setPc t (.interrupt r)
  | .request => do
      let s ← s.fuseLlAllocReq r unique ch
      if noInterrupt then return s.done t (some r) else return s.setPc t (.check r)

/-- A thread that is in none of these functions calls one. -/
def enter (s : ReqState T R Fn) (t : T) (s' : Option (ReqState T R Fn)) :
    Option (ReqState T R Fn) :=
  match s.pc t with
  | .idle => s'
  | _ => none

/-- One step; `noInterrupt` is `se->conn.no_interrupt`. -/
def step (noInterrupt : Bool) (s : ReqState T R Fn) : ReqAct T R Fn → Option (ReqState T R Fn)
  | .process t r unique ch message => s.enter t (s.process noInterrupt t r unique ch message)
  | .dummy t r unique => s.enter t ((s.fuseLlAllocReq r unique false).map (·.done t (some r)))
  | .reply t r =>
      s.enter t (some { s.setPc t (.free r none) with held := Function.update s.held r false })
  | .interruptFunc t r func => s.enter t (some (s.setPc t (.lockReq r func)))
  | .interrupted t r => s.enter t (some (s.setPc t (.query r)))
  | .run t => if s.Blocked t then none else s.run noInterrupt t

/-- A session without requests. -/
def boot (req : R → LlReq T Fn) (links : Links (ReqNode R)) : ReqState T R Fn where
  live := []
  req := req
  links := (links.init .list).init .interrupts
  pc := fun _ => .idle
  held := fun _ => false
  called := fun _ => []

end ReqState

end UkfsFuse
