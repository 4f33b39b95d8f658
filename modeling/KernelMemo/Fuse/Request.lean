import KernelMemo.Lib.Heap
import KernelMemo.Lib.TransitionSystem
import Mathlib.Algebra.Group.Nat.Defs
import Mathlib.Data.Int.Notation
import Mathlib.Data.Fintype.Basic

/-! # The requests of a FUSE connection

The machine of `dev.c`: tasks that want an answer (`fuse_get_req`, `fuse_request_send`,
`fuse_request_send_background`, `fuse_request_send_notify_reply`, `fuse_put_request`), the
daemon's reads and writes of `/dev/fuse` (`fuse_dev_do_read`, `fuse_dev_do_write`), the end of a
request (`request_end`, `flush_bg_queue`) and the abort of a connection (`fuse_abort_conn`).

* **Steps.**  A step of a task is what the source does under one lock, or one atomic flag
  operation.  The tasks interleave as they like, up to `fc->lock`, which is held across several
  steps.
* **Faults.**  `fault` is set when a task touches a request that is freed, and when a `BUG_ON`
  or a `WARN_ON` of the source fires.
* **Lost references.**  A function that returns without dropping its reference leaves it in
  `lost`; nothing reads this list.
* **Left out.**  What the requests carry, the `end` callbacks and `num_waiting`.  The queue of
  forgets is a machine of its own; here a read of forgets draws its number. -/

namespace KernelMemo.Fuse

/-- Requests are named by their addresses. -/
abbrev ReqId := ℕ

/-- Open files of `/dev/fuse`. -/
abbrev Dev := ℕ

def EINTR : ℤ := 4
def EIO : ℤ := 5
def E2BIG : ℤ := 7
def EAGAIN : ℤ := 11
def ENOSYS : ℤ := 38
def ECONNABORTED : ℤ := 103
def ENOTCONN : ℤ := 107

def UINT_MAX : ℕ := 4294967295

/-- `struct fuse_req`: the `FR_*` flags, the numbers, the count and the header of the answer. -/
structure Req where
  isreply : Bool
  force : Bool
  background : Bool
  aborted : Bool
  interrupted : Bool
  locked : Bool
  pending : Bool
  sent : Bool
  finished : Bool
  priv : Bool
  /-- `in.h.unique` -/
  unique : ℕ
  intrUnique : ℕ
  count : ℕ
  /-- `out.h.error` -/
  error : ℤ
  /-- `out.h.unique` -/
  outUnique : ℕ
deriving DecidableEq, Repr

/-- `fuse_request_init` -/
def requestInit : Req where
  isreply := false
  force := false
  background := false
  aborted := false
  interrupted := false
  locked := false
  pending := true
  sent := false
  finished := false
  priv := false
  unique := 0
  intrUnique := 0
  count := 1
  error := 0
  outUnique := 0

/-- The places inside `request_end`. -/
inductive EndPc where
  /-- before `test_and_set_bit(FR_FINISHED)` -/
  | finish
  /-- before the lock around `list_del_init(&req->intr_entry)` -/
  | unqueue
  /-- before `spin_lock(&fc->lock)` -/
  | account
  /-- in `flush_bg_queue`, with `fc->lock` held -/
  | flush
  /-- before `wake_up(&req->waitq)` -/
  | wake
deriving DecidableEq, Repr

/-- The place of a task. -/
inductive Pc where
  | idle
  /-- `__fuse_get_req` is behind its wait -/
  | getting (background : Bool)
  /-- the task has a request and has not sent it -/
  | got (r : ReqId)
  /-- at the start of `request_wait_answer` -/
  | waitAnswer (r : ReqId)
  /-- in `wait_event_interruptible` -/
  | waitIntr (r : ReqId)
  /-- `FR_INTERRUPTED` is set, `FR_SENT` comes next -/
  | marked (r : ReqId)
  /-- `request_wait_answer` is in `queue_interrupt` -/
  | queueIntr (r : ReqId)
  /-- before `if (!test_bit(FR_FORCE, &req->flags))` -/
  | testForce (r : ReqId)
  /-- in `wait_event_killable` -/
  | waitKill (r : ReqId)
  /-- killed, before the lock -/
  | killed (r : ReqId)
  /-- in the last `wait_event` -/
  | waitEvent (r : ReqId)
  /-- `__fuse_request_send` has returned -/
  | answered (r : ReqId)
  /-- `fuse_request_send_background` is in `flush_bg_queue` -/
  | sendFlush
  /-- `fuse_dev_do_read` has taken the request off the pending list -/
  | taken (d : Dev) (r : ReqId)
  /-- the request is on the `io` list and is copied to the daemon -/
  | copying (d : Dev) (r : ReqId)
  /-- the request is on the processing list, `FR_SENT` comes next -/
  | moved (r : ReqId)
  /-- `FR_SENT` is set, `FR_INTERRUPTED` comes next -/
  | sent (r : ReqId)
  /-- `fuse_dev_do_read` or `fuse_dev_do_write` is in `queue_interrupt` -/
  | devIntr (r : ReqId)
  /-- `fuse_dev_do_write` has found the answer to an interrupt -/
  | intrReply (r : ReqId) (err : ℤ)
  /-- the request is on the `io` list and its answer is copied -/
  | replying (d : Dev) (r : ReqId)
  /-- in `request_end`, called by `fuse_abort_conn` if `abort` is set -/
  | ending (p : EndPc) (r : ReqId) (abort : Bool)
  /-- `fuse_abort_conn` goes through the devices, with `fc->lock` held -/
  | abortDev (ds : List Dev)
  /-- `fuse_abort_conn` is in `flush_bg_queue` -/
  | abortFlush
  /-- `fuse_abort_conn` before `spin_lock(&fiq->waitq.lock)` -/
  | abortSplice
  /-- the loops of `fuse_abort_conn` behind `spin_unlock(&fc->lock)` -/
  | abortEnd
deriving DecidableEq, Repr

/-- A connection with the tasks `τ`. -/
structure State (τ : Type*) where
  heap : Heap Req
  pc : τ → Pc
  /-- the holder of `fc->lock` -/
  fcLock : Option τ
  connected : Bool
  blocked : Bool
  noInterrupt : Bool
  numBackground : ℕ
  activeBackground : ℕ
  maxBackground : ℕ
  congestionThreshold : ℕ
  bdiInitialized : Bool
  /-- what `set_bdi_congested` and `clear_bdi_congested` have left -/
  congested : Bool
  bgQueue : List ReqId
  /-- `fiq->connected` -/
  fiqConnected : Bool
  reqctr : ℕ
  pending : List ReqId
  interrupts : List ReqId
  devices : List Dev
  /-- `fpq->connected` -/
  pqConnected : Dev → Bool
  io : Dev → List ReqId
  processing : Dev → List ReqId
  toEnd1 : List ReqId
  toEnd2 : List ReqId
  lost : List ReqId
  fault : Bool

/-- What a task does next. -/
inductive Op where
  /-- the wait of `__fuse_get_req` -/
  | blockAlloc (background : Bool)
  /-- `__fuse_get_req` finds `r`, or fails -/
  | getReq (r : Option ReqId) (force : Bool)
  /-- `fuse_request_alloc` finds `r` for a caller that does not wait -/
  | requestAlloc (r : ReqId) (force : Bool)
  /-- `__set_bit(FR_BACKGROUND, &req->flags)` by a caller -/
  | setBackground
  | putRequest
  | requestSend (isreply : Bool)
  | sendBackground
  | sendNotifyReply (unique : ℕ)
  | waitAnswer
  | signal
  | testSent
  | queueInterrupt
  | testForce
  | kill
  | bail
  | woken
  | readInterrupt
  | readForget
  | read (d : Dev)
  | tooLarge (setxattr : Bool)
  | startIo
  | lockRequest
  | unlockRequest
  | copied (ok : Bool)
  | markSent
  | testInterrupted
  | write (d : Dev) (unique : ℕ) (error : ℤ)
  | interruptReply (lenOk : Bool)
  | wrote (ok : Bool)
  | finish
  | unqueue
  | account
  | flush
  | wake
  | abort
  | abortDev
  | abortSplice
  | abortEnd
  | setMaxBackground (val : ℕ)
  | setCongestionThreshold (val : ℕ)
deriving DecidableEq, Repr

structure Event (τ : Type*) where
  task : τ
  op : Op

variable {τ : Type*}

/-! ### Small steps -/

namespace State

/-- The contents of the request `r`. -/
def req (s : State τ) (r : ReqId) : Req := s.heap.mem r

/-- Change the request `r`. -/
def upd (s : State τ) (r : ReqId) (f : Req → Req) : State τ :=
  { s with heap := s.heap.write r (f (s.heap.mem r)) }

/-- An access to the request `r`. -/
def touch (s : State τ) (r : ReqId) : State τ :=
  { s with fault := s.fault || decide (s.heap.life r ≠ .live) }

/-- `BUG_ON` and `WARN_ON` -/
def bugOn (s : State τ) (b : Bool) : State τ := { s with fault := s.fault || b }

def goto [DecidableEq τ] (s : State τ) (t : τ) (p : Pc) : State τ :=
  { s with pc := Function.update s.pc t p }

/-- `list_del(&req->list)`: off whatever list the request is on. -/
def listDel (s : State τ) (r : ReqId) : State τ :=
  { s with
    bgQueue := s.bgQueue.erase r
    pending := s.pending.erase r
    io := fun d => (s.io d).erase r
    processing := fun d => (s.processing d).erase r
    toEnd1 := s.toEnd1.erase r
    toEnd2 := s.toEnd2.erase r }

/-- The value of `fuse_get_unique`, a `u64`. -/
def nextUnique (s : State τ) : ℕ := (s.reqctr + 1) % 2 ^ 64

/-- `fuse_get_unique` -/
def getUnique (s : State τ) : State τ := { s with reqctr := s.reqctr + 1 }

/-- `req->in.h.unique = fuse_get_unique(fiq)` -/
def assignUnique (s : State τ) (r : ReqId) : State τ :=
  (s.upd r fun q => { q with unique := s.nextUnique }).getUnique

/-- `queue_request` -/
def queueRequest (s : State τ) (r : ReqId) : State τ := { s with pending := s.pending ++ [r] }

/-- `fuse_request_send_background_locked`, from `fc->num_background++` to `list_add_tail`. -/
def queueBackground (s : State τ) (r : ReqId) : State τ :=
  let num := s.numBackground + 1
  { s with
    numBackground := num
    blocked := if num = s.maxBackground then true else s.blocked
    congested := if num = s.congestionThreshold ∧ s.bdiInitialized then true else s.congested
    bgQueue := s.bgQueue ++ [r] }

/-- `request_end`, from `spin_lock(&fc->lock)` to `fc->active_background--`. -/
def uncount (s : State τ) (lock : Option τ) : State τ :=
  { s with
    blocked := if s.numBackground = s.maxBackground then false else s.blocked
    congested := if s.numBackground = s.congestionThreshold ∧ s.connected ∧ s.bdiInitialized
      then false else s.congested
    numBackground := s.numBackground - 1
    activeBackground := s.activeBackground - 1
    fcLock := lock }

/-- `list_add_tail(&req->list, &fpq->processing)` -/
def queueProcessing (s : State τ) (d : Dev) (r : ReqId) : State τ :=
  { s with processing := Function.update s.processing d (s.processing d ++ [r]) }

/-- `list_add(&req->list, &fpq->io)` -/
def addIo (s : State τ) (d : Dev) (r : ReqId) : State τ :=
  { s with io := Function.update s.io d (r :: s.io d) }

/-- A reference that nobody will drop. -/
def lose (s : State τ) (r : ReqId) : State τ := { s with lost := r :: s.lost }

/-- `fuse_put_request`, and `fuse_request_free` at zero. -/
def putRequest (s : State τ) (r : ReqId) : State τ :=
  let s := s.touch r
  if (s.req r).count = 1 then { s with heap := s.heap.free r }
  else s.upd r fun q => { q with count := q.count - 1 }

/-- `list_add_tail(&req->intr_entry, &fiq->interrupts)`, behind its two tests. -/
def queueInterrupt (s : State τ) (r : ReqId) : State τ :=
  if (s.req r).finished then s
  else if r ∈ s.interrupts then s
  else { s with interrupts := s.interrupts ++ [r] }

end State

section step

variable [DecidableEq τ] (s : State τ) (t : τ)

/-! ### The task that wants an answer -/

/-- `fuse_block_alloc`, for an initialized connection. -/
def fuseBlockAlloc (forBackground : Bool) : Bool := forBackground && s.blocked

/-- `wait_event_killable_exclusive(fc->blocked_waitq, !fuse_block_alloc(fc, for_background))` -/
def blockAlloc (background : Bool) : Option (State τ) :=
  if fuseBlockAlloc s background then none else some (s.goto t (.getting background))

/-- `fuse_request_alloc`, and the flags that the caller sets. -/
def requestAlloc (r : ReqId) (background force : Bool) : Option (State τ) :=
  (s.heap.alloc r { requestInit with background, force }).map fun h =>
    { s with heap := h }.goto t (.got r)

/-- `__fuse_get_req` behind its wait. -/
def getReq (r : Option ReqId) (background force : Bool) : Option (State τ) :=
  match r with
  | some r => if s.connected then requestAlloc s t r background force else none
  | none => some (s.goto t .idle)

/-- `__fuse_request_send` -/
def requestSend (r : ReqId) (isreply : Bool) : State τ :=
  let s := (s.touch r).bugOn (s.req r).background
  let s := s.upd r fun q => { q with isreply }
  if s.fiqConnected then
    (((s.assignUnique r).queueRequest r).upd r fun q => { q with count := q.count + 1 }).goto t
      (.waitAnswer r)
  else (s.upd r fun q => { q with error := -ENOTCONN }).goto t (.answered r)

/-- `fuse_request_send_background` -/
def requestSendBackground (r : ReqId) : Option (State τ) :=
  if s.fcLock.isSome then none
  else if s.connected then
    let s := (s.touch r).bugOn !(s.req r).background
    let s := s.upd r fun q => { q with isreply := true }
    some ({ s.queueBackground r with fcLock := some t }.goto t .sendFlush)
  else
    let s := (s.touch r).upd r fun q => { q with error := -ENOTCONN }
    some ((s.putRequest r).goto t .idle)

/-- `fuse_request_send_notify_reply`; `fuse_retrieve` forgets the request even when it was not
queued. -/
def requestSendNotifyReply (r : ReqId) (unique : ℕ) : State τ :=
  let s := (s.touch r).upd r fun q => { q with isreply := false, unique := unique }
  if s.fiqConnected then (s.queueRequest r).goto t .idle
  else (s.lose r).goto t .idle

/-- `request_wait_answer`, from its start to the first wait. -/
def waitAnswer (r : ReqId) : State τ :=
  s.goto t (if s.noInterrupt then .testForce r else .waitIntr r)

/-- `set_bit(FR_INTERRUPTED, &req->flags)` -/
def markInterrupted (r : ReqId) : State τ :=
  ((s.touch r).upd r fun q => { q with interrupted := true }).goto t (.marked r)

/-- `if (test_bit(FR_SENT, &req->flags))` -/
def testSent (r : ReqId) : State τ :=
  (s.touch r).goto t (if (s.req r).sent then .queueIntr r else .testForce r)

/-- `if (!test_bit(FR_FORCE, &req->flags))` -/
def testForce (r : ReqId) : State τ :=
  (s.touch r).goto t (if (s.req r).force then .waitEvent r else .waitKill r)

/-- The lock section of `request_wait_answer`. -/
def bail (r : ReqId) : State τ :=
  let s := s.touch r
  if (s.req r).pending then
    let s := (s.listDel r).bugOn (decide ((s.req r).count < 2))
    (s.upd r fun q => { q with count := q.count - 1, error := -EINTR }).goto t (.answered r)
  else s.goto t (.waitEvent r)

/-- A wait of `request_wait_answer` ends because of `FR_FINISHED`. -/
def woken (r : ReqId) : Option (State τ) :=
  if (s.req r).finished then some ((s.touch r).goto t (.answered r)) else none

/-! ### `fuse_dev_do_read` -/

/-- `fuse_read_interrupt` -/
def readInterrupt : Option (State τ) :=
  match s.interrupts with
  | r :: _ =>
      if s.fiqConnected then
        let s := { s.touch r with interrupts := s.interrupts.erase r }
        some (s.upd r fun q => { q with intrUnique := s.nextUnique }).getUnique
      else none
  | [] => none

/-- `fuse_read_single_forget` and `fuse_read_batch_forget`, as far as requests are concerned. -/
def readForget : Option (State τ) :=
  if s.fiqConnected ∧ s.interrupts = [] then some s.getUnique else none

/-- The first lock section of `fuse_dev_do_read`. -/
def read (d : Dev) : Option (State τ) :=
  match s.pending with
  | r :: _ =>
      if s.fiqConnected ∧ s.interrupts = [] ∧ d ∈ s.devices then
        let s := (s.touch r).upd r fun q => { q with pending := false }
        some ((s.listDel r).goto t (.taken d r))
      else none
  | [] => none

/-- `if (nbytes < reqsize)` -/
def tooLarge (r : ReqId) (setxattr : Bool) : State τ :=
  ((s.touch r).upd r fun q => { q with error := if setxattr then -E2BIG else - EIO }).goto t
    (.ending .finish r false)

/-- The section under `fpq->lock` before the copy. -/
def startIo (d : Dev) (r : ReqId) : State τ :=
  ((s.touch r).addIo d r).goto t (.copying d r)

/-- `lock_request` -/
def lockRequest (r : ReqId) : State τ :=
  (s.touch r).upd r fun q => if q.aborted then q else { q with locked := true }

/-- `unlock_request` -/
def unlockRequest (r : ReqId) : State τ :=
  (s.touch r).upd r fun q => if q.aborted then q else { q with locked := false }

/-- `if (!test_bit(FR_PRIVATE, &req->flags)) list_del_init(&req->list)`, and on to
`request_end`. -/
def outEnd (r : ReqId) : State τ :=
  (if (s.req r).priv then s else s.listDel r).goto t (.ending .finish r false)

/-- The last lock section of `fuse_dev_do_read`. -/
def copied (d : Dev) (r : ReqId) (ok : Bool) : State τ :=
  let s := (s.touch r).upd r fun q => { q with locked := false }
  if !s.pqConnected d then outEnd s t r
  else if !ok then outEnd (s.upd r fun q => { q with error := - EIO }) t r
  else if !(s.req r).isreply then outEnd s t r
  else
    ((s.listDel r).queueProcessing d r).goto t (.moved r)

/-- `set_bit(FR_SENT, &req->flags)` -/
def markSent (r : ReqId) : State τ :=
  ((s.touch r).upd r fun q => { q with sent := true }).goto t (.sent r)

/-- `if (test_bit(FR_INTERRUPTED, &req->flags))` -/
def testInterrupted (r : ReqId) : State τ :=
  (s.touch r).goto t (if (s.req r).interrupted then .devIntr r else .idle)

/-! ### `fuse_dev_do_write` -/

/-- `request_find` -/
def requestFind (d : Dev) (unique : ℕ) : Option ReqId :=
  (s.processing d).find? fun r => (s.req r).unique = unique ∨ (s.req r).intrUnique = unique

/-- The first lock section of `fuse_dev_do_write`, for a header that passes the checks. -/
def write (d : Dev) (unique : ℕ) (error : ℤ) : Option (State τ) :=
  if unique = 0 ∨ error ≤ -1000 ∨ 0 < error then none
  else if !s.pqConnected d then some s
  else match requestFind s d unique with
    | none => some s
    | some r =>
        let s := s.touch r
        if (s.req r).intrUnique = unique then some (s.goto t (.intrReply r error))
        else
          let s := ((s.upd r fun q => { q with sent := false }).listDel r).addIo d r
          some ((s.upd r fun q => { q with error, outUnique := unique, locked := true }).goto t
            (.replying d r))

/-- `fuse_dev_do_write` behind the test for an answer to an interrupt. -/
def interruptReply (r : ReqId) (error : ℤ) (lenOk : Bool) : State τ :=
  if !lenOk then s.goto t .idle
  else if error = -ENOSYS then { s with noInterrupt := true }.goto t .idle
  else if error = -EAGAIN then s.goto t (.devIntr r)
  else s.goto t .idle

/-- The last lock section of `fuse_dev_do_write`. -/
def wrote (d : Dev) (r : ReqId) (ok : Bool) : State τ :=
  let s := (s.touch r).upd r fun q => { q with locked := false }
  outEnd (if s.pqConnected d && !ok then s.upd r fun q => { q with error := - EIO } else s) t r

/-! ### `request_end` -/

/-- The task goes on behind `request_end`. -/
def endReturn (abort : Bool) : State τ := s.goto t (if abort then .abortEnd else .idle)

/-- `if (test_and_set_bit(FR_FINISHED, &req->flags)) return` -/
def finish (r : ReqId) (abort : Bool) : State τ :=
  let s := s.touch r
  if (s.req r).finished then endReturn (s.lose r) t abort
  else (s.upd r fun q => { q with finished := true }).goto t (.ending .unqueue r abort)

/-- From `list_del_init(&req->intr_entry)` to `if (test_bit(FR_BACKGROUND, &req->flags))`. -/
def unqueue (r : ReqId) (abort : Bool) : State τ :=
  let s := { s.touch r with interrupts := s.interrupts.erase r }
  ((s.bugOn (s.req r).pending).bugOn (s.req r).sent).goto t
    (.ending (if (s.req r).background then .account else .wake) r abort)

/-- From `spin_lock(&fc->lock)` to `flush_bg_queue(fc)`. -/
def account (r : ReqId) (abort : Bool) : Option (State τ) :=
  if s.fcLock.isSome then none
  else
    let s := (s.touch r).upd r fun q => { q with background := false }
    some ((s.uncount (some t)).goto t (.ending .flush r abort))

/-- One round of `flush_bg_queue`, or its end. -/
def flush (next : Pc) (lock : Option τ) : State τ :=
  match s.bgQueue with
  | r :: _ =>
      if s.activeBackground < s.maxBackground then
        ({ (s.touch r).listDel r with
          activeBackground := s.activeBackground + 1 }.assignUnique r).queueRequest r
      else { s with fcLock := lock }.goto t next
  | [] => { s with fcLock := lock }.goto t next

/-- From `wake_up(&req->waitq)` to the end. -/
def wake (r : ReqId) (abort : Bool) : State τ := endReturn ((s.touch r).putRequest r) t abort

/-! ### `fuse_abort_conn` -/

/-- `fuse_abort_conn`, to the loop over the devices. -/
def abort : Option (State τ) :=
  if s.fcLock.isSome then none
  else if s.connected then
    some ({ s with connected := false, blocked := false, fcLock := some t }.goto t
      (.abortDev s.devices))
  else some s

/-- `req->out.h.error = -ECONNABORTED`, and the flags of a request under I/O. -/
def Req.abortIo (q : Req) : Req :=
  { q with error := -ECONNABORTED, aborted := true, priv := if q.locked then q.priv else true }

/-- Apply `f` to all requests of the list. -/
def State.updAll (s : State τ) (l : List ReqId) (f : Req → Req) : State τ :=
  { s with heap := { s.heap with mem := fun r => if r ∈ l then f (s.heap.mem r)
                                                 else s.heap.mem r } }

/-- An access to all requests of the list. -/
def State.touchAll (s : State τ) (l : List ReqId) : State τ :=
  { s with fault := s.fault || l.any fun r => decide (s.heap.life r ≠ .live) }

/-- One round of the loop over the devices, or its end. -/
def abortDev : List Dev → State τ
  | [] => { s with maxBackground := UINT_MAX }.goto t .abortFlush
  | d :: ds =>
      let unlocked := (s.io d).filter fun r => !(s.req r).locked
      let s := (s.touchAll (s.io d)).updAll (s.io d) Req.abortIo
      { s with
        pqConnected := Function.update s.pqConnected d false
        io := Function.update s.io d ((s.io d).filter fun r => r ∉ unlocked)
        toEnd1 := unlocked.reverse ++ s.toEnd1
        toEnd2 := s.processing d ++ s.toEnd2
        processing := Function.update s.processing d [] }.goto t (.abortDev ds)

/-- The section under `fiq->waitq.lock`, and `spin_unlock(&fc->lock)`. -/
def abortSplice : State τ :=
  let toEnd2 := s.pending ++ s.toEnd2
  let s := (s.touchAll toEnd2).updAll toEnd2 fun q => { q with pending := false }
  { s with fiqConnected := false, toEnd2 := toEnd2, pending := [], fcLock := none }.goto t .abortEnd

/-- One round of the loop over `to_end1` or of `end_requests(fc, &to_end2)`, or the end. -/
def abortEnd : State τ :=
  match s.toEnd1, s.toEnd2 with
  | r :: _, _ =>
      (((s.touch r).upd r fun q => { q with count := q.count + 1 }).listDel r).goto t
        (.ending .finish r true)
  | [], r :: _ =>
      (((s.touch r).upd r fun q => { q with error := -ECONNABORTED, sent := false }).listDel r).goto
        t (.ending .finish r true)
  | [], [] => s.goto t .idle

/-! ### The machine -/

/-- One step of the task `t`. -/
def taskStep (op : Op) : Option (State τ) :=
  match op, s.pc t with
  | .blockAlloc background, .idle => blockAlloc s t background
  | .getReq r force, .getting background => getReq s t r background force
  | .requestAlloc r force, .idle => requestAlloc s t r false force
  | .setBackground, .got r => some ((s.touch r).upd r fun q => { q with background := true })
  | .putRequest, .got r => some ((s.putRequest r).goto t .idle)
  | .putRequest, .answered r => some ((s.putRequest r).goto t .idle)
  | .requestSend isreply, .got r => some (requestSend s t r isreply)
  | .sendBackground, .got r => requestSendBackground s t r
  | .sendNotifyReply unique, .got r => some (requestSendNotifyReply s t r unique)
  | .waitAnswer, .waitAnswer r => some (waitAnswer s t r)
  | .signal, .waitIntr r => some (markInterrupted s t r)
  | .testSent, .marked r => some (testSent s t r)
  | .queueInterrupt, .queueIntr r =>
      some (((s.touch r).queueInterrupt r).goto t (.testForce r))
  | .queueInterrupt, .devIntr r => some (((s.touch r).queueInterrupt r).goto t .idle)
  | .testForce, .testForce r => some (testForce s t r)
  | .kill, .waitKill r => some (s.goto t (.killed r))
  | .bail, .killed r => some (bail s t r)
  | .woken, .waitIntr r => woken s t r
  | .woken, .waitKill r => woken s t r
  | .woken, .waitEvent r => woken s t r
  | .readInterrupt, .idle => readInterrupt s
  | .readForget, .idle => readForget s
  | .read d, .idle => read s t d
  | .tooLarge setxattr, .taken _ r => some (tooLarge s t r setxattr)
  | .startIo, .taken d r => some (startIo s t d r)
  | .lockRequest, .copying _ r => some (lockRequest s r)
  | .lockRequest, .replying _ r => some (lockRequest s r)
  | .unlockRequest, .copying _ r => some (unlockRequest s r)
  | .unlockRequest, .replying _ r => some (unlockRequest s r)
  | .copied ok, .copying d r => some (copied s t d r ok)
  | .markSent, .moved r => some (markSent s t r)
  | .testInterrupted, .sent r => some (testInterrupted s t r)
  | .write d unique error, .idle => write s t d unique error
  | .interruptReply lenOk, .intrReply r error => some (interruptReply s t r error lenOk)
  | .wrote ok, .replying d r => some (wrote s t d r ok)
  | .finish, .ending .finish r abort => some (finish s t r abort)
  | .unqueue, .ending .unqueue r abort => some (unqueue s t r abort)
  | .account, .ending .account r abort => account s t r abort
  | .flush, .ending .flush r abort => some (flush s t (.ending .wake r abort) none)
  | .flush, .sendFlush => some (flush s t .idle none)
  | .flush, .abortFlush => some (flush s t .abortSplice s.fcLock)
  | .wake, .ending .wake r abort => some (wake s t r abort)
  | .abort, .idle => abort s t
  | .abortDev, .abortDev ds => some (abortDev s t ds)
  | .abortSplice, .abortSplice => some (abortSplice s t)
  | .abortEnd, .abortEnd => some (abortEnd s t)
  | .setMaxBackground val, .idle => some { s with maxBackground := val }
  | .setCongestionThreshold val, .idle => some { s with congestionThreshold := val }
  | _, _ => none

end step

/-- A connection behind `FUSE_INIT`: no requests, and all tasks outside. -/
def connection (devices : List Dev) (maxBackground congestionThreshold : ℕ)
    (bdiInitialized : Bool) : State τ where
  heap := { life := fun _ => .unborn, mem := fun _ => requestInit }
  pc := fun _ => .idle
  fcLock := none
  connected := true
  blocked := false
  noInterrupt := false
  numBackground := 0
  activeBackground := 0
  maxBackground := maxBackground
  congestionThreshold := congestionThreshold
  bdiInitialized := bdiInitialized
  congested := false
  bgQueue := []
  fiqConnected := true
  reqctr := 0
  pending := []
  interrupts := []
  devices := devices
  pqConnected := fun _ => true
  io := fun _ => []
  processing := fun _ => []
  toEnd1 := []
  toEnd2 := []
  lost := []
  fault := false

/-- The connection as a transition system. -/
def conn (τ : Type*) [DecidableEq τ] : Lts (State τ) (Event τ) where
  init s := ∃ ds m c b, s = connection ds m c b
  step s e := taskStep s e.task e.op

end KernelMemo.Fuse
