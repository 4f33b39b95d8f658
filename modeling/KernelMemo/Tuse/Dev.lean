import Mathlib.Data.Nat.Notation
import Mathlib.Logic.Function.Basic

/-! # Requests and the tuse device

`old/tuse/dev.c`, with the constructors of `old/tuse/inode.c` that set its queues up.

* **Requests.**  A request is a natural number, given out in the order of arrival; `reqs` is
  the memory behind them.
* **List heads.**  A `list_head` that `INIT_LIST_HEAD` has never seen is zeroed memory:
  adding to it follows a `NULL` pointer.
* **The list head as a request.**  With nothing pending, `list_entry(tiq->pending.next, ...)` is
  the list head of `pending` itself, read as a request.  It is written `none`, and its contents
  are the memory around it.  What becomes of `pending` when its head is put on another list is
  not followed: the call is over then.
* **One call.**  `tuseDevDoRead` runs the passes from `restart:` on.  Each pass is given what
  ends its sleep and what the copy to user space returns.  The call logs its lock and list
  operations, and ends with a result or an oops.  During a call the queue is changed by the call
  itself and, while it sleeps, by requests that arrive: nothing under `old/tuse` queues interrupts
  or disconnects, and another read of the same connection comes before or after this one.
* **`request_end`** is an empty function. -/

namespace KernelMemo.Tuse

/-! ### Data -/

/-- `enum fuse_req_flag` -/
inductive FrFlag where
  | frIsReply
  | frForce
  | frBackground
  | frWaiting
  | frAborted
  | frInterrupted
  | frLocked
  | frPending
  | frSent
  | frFinished
  | frPrivate
deriving DecidableEq, Repr

/-- `FUSE_SETXATTR` -/
def fuseSetxattr : UInt32 := 4

def eio : Int := 5
def e2big : Int := 7
def eagain : Int := 11
def enodev : Int := 19
def erestartsys : Int := 512

/-- `struct tuse_in_header` -/
structure TuseInHeader where
  len : UInt32
  opcode : UInt32
  nodeid : UInt64
  uid : UInt64
  gid : UInt64
  pid : UInt64
deriving DecidableEq, Repr

/-- `struct tuse_req`: the header `in.h`, `out.h.error`, `count`, `flags`; `woken` says whether
its `waitq` has been woken up. -/
structure Req extends TuseInHeader where
  error : Int
  count : ℕ
  woken : Bool
  flags : FrFlag → Bool

namespace Req

/-- `set_bit` -/
def setBit (r : Req) (f : FrFlag) : Req := { r with flags := Function.update r.flags f true }

/-- `clear_bit` -/
def clearBit (r : Req) (f : FrFlag) : Req := { r with flags := Function.update r.flags f false }

end Req

/-- `tuse_request_init` -/
def tuseRequestInit : Req :=
  let r : Req :=
    { len := 0, opcode := 0, nodeid := 0, uid := 0, gid := 0, pid := 0,
      error := 0, count := 1, woken := false, flags := fun _ => false }
  r.setBit .frPending

/-- What the environment fills in: the header, with any length, and `FR_ISREPLY`. -/
structure NewReq extends TuseInHeader where
  isReply : Bool

/-- A request of `tuse_request_alloc`, filled in. -/
def NewReq.toReq (x : NewReq) : Req :=
  let r := { tuseRequestInit with toTuseInHeader := x.toTuseInHeader }
  if x.isReply then r.setBit .frIsReply else r

/-- A `struct list_head`: zeroed memory, or initialised, with the entries behind it. -/
inductive ListHead where
  | zeroed
  | init (l : List (Option ℕ))
deriving DecidableEq, Repr

namespace ListHead

/-- `list_add` -/
def listAdd : ListHead → Option ℕ → Option ListHead
  | zeroed, _ => none
  | init l, r => some (init (r :: l))

/-- `list_add_tail` -/
def listAddTail : ListHead → Option ℕ → Option ListHead
  | zeroed, _ => none
  | init l, r => some (init (l ++ [r]))

/-- `list_del` of an entry that may be on the list. -/
def listDel : ListHead → Option ℕ → ListHead
  | zeroed, _ => zeroed
  | init l, r => init (l.erase r)

/-- The requests on the list. -/
def entries : ListHead → List ℕ
  | zeroed => []
  | init l => l.reduceOption

end ListHead

/-- `struct tuse_iqueue`, and the requests. -/
structure Iqueue where
  connected : Bool
  pending : List ℕ
  interrupts : List ℕ
  reqs : ℕ → Req
  /-- the memory around the list head of `pending`, as a request -/
  head : Req
  next : ℕ

/-- The memory around the list head of `pending`: `in.h.len` is the word of `waitq.lock`, and the
flags are that of `reserved_req_waitq.lock`.  Nobody has these locks. -/
def listHeadInit : Req :=
  { len := 0, opcode := 0, nodeid := 0, uid := 0, gid := 0, pid := 0,
    error := 0, count := 0, woken := false, flags := fun _ => false }

/-- `tuse_iqueue_init` -/
def tuseIqueueInit : Iqueue :=
  { connected := true, pending := [], interrupts := [], reqs := fun _ => tuseRequestInit,
    head := listHeadInit, next := 0 }

/-- `request_pending` -/
def requestPending (q : Iqueue) : Bool := !q.pending.isEmpty || !q.interrupts.isEmpty

namespace Iqueue

/-- The request `r`, or what the list head is as one. -/
def req (q : Iqueue) : Option ℕ → Req
  | some r => q.reqs r
  | none => q.head

/-- Change the request `r`. -/
def modify (q : Iqueue) (r : Option ℕ) (f : Req → Req) : Iqueue :=
  match r with
  | some r => { q with reqs := Function.update q.reqs r (f (q.reqs r)) }
  | none => { q with head := f q.head }

/-- The environment appends a request to `pending`. -/
def append (q : Iqueue) (x : NewReq) : Iqueue :=
  { q with
    pending := q.pending ++ [q.next]
    reqs := Function.update q.reqs q.next x.toReq
    next := q.next + 1 }

def appendAll (q : Iqueue) (xs : List NewReq) : Iqueue := xs.foldl append q

end Iqueue

/-- `struct tuse_pqueue` -/
structure Pqueue where
  connected : Bool
  processing : ListHead
  io : ListHead

/-- The `pq` of `tuse_dev_alloc`: `kzalloc` and no more. -/
def tuseDevAllocPq : Pqueue := { connected := false, processing := .zeroed, io := .zeroed }

/-! ### The read -/

/-- `tiq->waitq.lock` and `tpq->lock`. -/
inductive Lock where
  | waitq
  | pq
deriving DecidableEq, Repr

/-- What a call does to the locks and the lists, in order. -/
inductive Action where
  | lock (l : Lock)
  | unlock (l : Lock)
  /-- `list_del_init` on `pending`, of a request or of the list head itself -/
  | dequeue (r : Option ℕ)
  /-- `list_add` to `io` -/
  | addIo (r : Option ℕ)
  /-- the copy to user space and its result -/
  | copy (r : Option ℕ) (err : Int)
  /-- `list_move_tail` from `io` to `processing` -/
  | moveProcessing (r : Option ℕ)
  /-- `list_del_init` on `io` -/
  | delIo (r : Option ℕ)
  /-- `request_end` -/
  | requestEnd (r : Option ℕ)
deriving DecidableEq, Repr

/-- What ends a sleep on `waitq`. -/
inductive Sleep where
  | signal
  | arrive (x : NewReq) (xs : List NewReq)

/-- What the environment does during one pass: the end of the sleep, if there is one, and the
result of `tuse_copy_one`, if it comes to it. -/
structure Pass where
  sleep : Sleep
  copyErr : Int

/-- The state of a call on one device. -/
structure Call where
  iq : Iqueue
  pq : Pqueue
  log : List Action

def Call.act (s : Call) (a : Action) : Call := { s with log := s.log ++ [a] }

/-- How a pass ends: at `goto restart`, with a result, or by a crash. -/
inductive PassEnd where
  | restart
  | ret (n : Int)
  | oops
deriving DecidableEq, Repr

/-- `wait_event_interruptible_exclusive_locked`: the error and the queue after it. -/
def waitEvent (q : Iqueue) (sleep : Sleep) : Int × Iqueue :=
  if !q.connected || requestPending q then (0, q)
  else match sleep with
    | .signal => (-erestartsys, q)
    | .arrive x xs => (0, q.appendAll (x :: xs))

/-- `request_end` -/
def requestEnd (s : Call) (r : Option ℕ) : Call := s.act (.requestEnd r)

/-- From `out_end:` on. -/
def outEnd (s : Call) (r : Option ℕ) (err : Int) : Call × PassEnd :=
  let s := if (s.iq.req r).flags .frPrivate then s
    else { s with pq := { s.pq with io := s.pq.io.listDel r } }.act (.delIo r)
  (requestEnd (s.act (.unlock .pq)) r, .ret err)

/-- From `spin_lock(&tpq->lock)` on. -/
def readFits (s : Call) (r : Option ℕ) (copyErr : Int) : Call × PassEnd :=
  let s := (s.act (.lock .pq)).act (.addIo r)
  match s.pq.io.listAdd r with
  | none => (s, .oops)
  | some io =>
      let s := { s with pq := { s.pq with io := io } }.act (.unlock .pq)
      let s := s.act (.copy r copyErr)
      let s := { s with iq := s.iq.modify r (·.clearBit .frLocked) }
      if !s.pq.connected then outEnd s r (-enodev)
      else if copyErr ≠ 0 then
        outEnd { s with iq := s.iq.modify r ({ · with error := -eio }) } r copyErr
      else if !(s.iq.req r).flags .frIsReply then outEnd s r (s.iq.req r).len.toNat
      else
        let s := s.act (.moveProcessing r)
        match s.pq.processing.listAddTail r with
        | none => (s, .oops)
        | some processing =>
            let s := { s with
              pq := { s.pq with io := s.pq.io.listDel r, processing := processing } }
            let s := s.act (.unlock .pq)
            ({ s with iq := s.iq.modify r (·.setBit .frSent) }, .ret (s.iq.req r).len.toNat)

/-- The request is too large: it gets an error, and the read starts again. -/
def readTooLarge (s : Call) (r : Option ℕ) : Call × PassEnd :=
  let s := { s with iq := s.iq.modify r ({ · with error := -eio }) }
  let s := if (s.iq.req r).opcode = fuseSetxattr then
    { s with iq := s.iq.modify r ({ · with error := -e2big }) } else s
  (requestEnd s r, .restart)

/-- From `clear_bit(FR_PENDING, &req->flags)` on: `r` is taken off `pending`, which leaves
`rest`. -/
def readRequest (nbytes : UInt64) (copyErr : Int) (s : Call) (r : Option ℕ) (rest : List ℕ) :
    Call × PassEnd :=
  let s := { s with iq := { s.iq.modify r (·.clearBit .frPending) with pending := rest } }
  let s := (s.act (.dequeue r)).act (.unlock .waitq)
  if nbytes < (s.iq.req r).len.toUInt64 then readTooLarge s r else readFits s r copyErr

/-- One pass of `tuse_dev_do_read` from `restart:` on. -/
def readPass (nbytes : UInt64) (nonblock : Bool) (s : Call) (p : Pass) : Call × PassEnd :=
  let s := s.act (.lock .waitq)
  if nonblock && s.iq.connected && !requestPending s.iq then
    (s.act (.unlock .waitq), .ret (-eagain))
  else
    let (err, iq) := waitEvent s.iq p.sleep
    let s := { s with iq := iq }
    if err ≠ 0 then (s.act (.unlock .waitq), .ret err)
    else if !s.iq.connected then (s.act (.unlock .waitq), .ret (-enodev))
    else
      -- `list_entry(tiq->pending.next, struct tuse_req, list)`
      readRequest nbytes p.copyErr s s.iq.pending.head? s.iq.pending.tail

/-- `tuse_dev_do_read`, up to as many passes as are given; `restart` at the end says that it is
still running. -/
def tuseDevDoRead (nbytes : UInt64) (nonblock : Bool) : Call → List Pass → Call × PassEnd
  | s, [] => (s, .restart)
  | s, p :: ps =>
      match readPass nbytes nonblock s p with
      | (s', .restart) => tuseDevDoRead nbytes nonblock s' ps
      | (s', e) => (s', e)

end KernelMemo.Tuse
