import KernelMemo.Lib.GracePeriod
import KernelMemo.Lib.Heap
import KernelMemo.Rcu.ToyRcu

/-! # The RCU-protected `struct foo` of the three samples

`rcu/use_example/sample_synchronize_rcu.c`, `rcu/use_example/sample_call_rcu.c` and
`rcu/toy_impl/sample_use.c` run the same `foo_get_a` and `foo_update_a` over three ways to wait
for readers.  One machine models them all; `Sample` says which file is meant.

* **Memory.**  `kmalloc` hands out an object that was never used before, with arbitrary
  contents; a field of it is `written` once the program has stored to it.  A pointer is an
  object or `NULL`.
* **Threads.**  `Pc` is the place of a thread in `foo_get_a` or `foo_update_a`, with the local
  variables that are live there.  An event is one atomic access or one lock operation of one
  thread, or an RCU callback; accesses are sequentially consistent.  Every thread may call
  either function, again and again, with any argument.
* **Faults.**  Dereferencing `NULL` kills the thread (`Pc.oops`) with whatever lock it holds.
  Nothing stops a thread from following a stale pointer: `accesses` lists the pointers a step
  goes through, and that they are allocated is a theorem. -/

namespace KernelMemo.Rcu

open GracePeriod

/-! ### The memory -/

/-- A field in memory: its bits, and whether the program has stored to it. -/
structure Field (α : Type) where
  bits : α
  written : Bool
deriving DecidableEq, Repr

/-- `struct rcu_head`: what the memory happened to hold, or the callback queued in it. -/
inductive RcuHead where
  | raw (w : UInt64)
  | fooReclaim
deriving DecidableEq, Repr

/-- `struct foo`; only `sample_call_rcu.c` has and uses the field `rcu`. -/
structure Foo where
  a : Field Int32
  b : Field Int8
  c : Field Int64
  rcu : RcuHead
deriving DecidableEq, Repr

/-- The object as `kmalloc` returns it: some bits, none of them stored by the program. -/
def Foo.raw (x : Foo) : Foo :=
  { x with a := ⟨x.a.bits, false⟩, b := ⟨x.b.bits, false⟩, c := ⟨x.c.bits, false⟩ }

abbrev Obj := ℕ

/-- An object or `NULL`. -/
abbrev Ptr := Option Obj

/-! ### The threads -/

/-- The place of a thread in its function.  Every constructor stands before the access that the
comment of the source line names. -/
inductive Pc where
  /-- between two calls -/
  | idle
  /-- `foo_get_a`, before `rcu_read_lock()` -/
  | getEnter
  /-- before `rcu_dereference(gbl_foo)` -/
  | getLocked
  /-- before `->a` -/
  | getLoaded (p : Ptr)
  /-- before `rcu_read_unlock()` -/
  | getRead (retval : Int32)
  /-- before `return retval` -/
  | getUnlocked (retval : Int32)
  /-- `foo_update_a`, before `kmalloc` -/
  | updEnter (newA : Int32)
  /-- before `spin_lock(&foo_mutex)` -/
  | updAlloced (newA : Int32) (newFp : Ptr)
  /-- before `old_fp = rcu_dereference(gbl_foo)` -/
  | updLocked (newA : Int32) (newFp : Ptr)
  /-- before `*new_fp = *old_fp` -/
  | updLoaded (newA : Int32) (newFp oldFp : Ptr)
  /-- before `new_fp->a = new_a` -/
  | updCopied (newA : Int32) (newFp oldFp : Ptr)
  /-- before `rcu_assign_pointer(gbl_foo, new_fp)` -/
  | updSet (newA : Int32) (newFp oldFp : Ptr)
  /-- before `spin_unlock(&foo_mutex)` -/
  | updPublished (oldFp : Ptr)
  /-- before `synchronize_rcu()` or `call_rcu(&old_fp->rcu, foo_reclaim)` -/
  | updUnlocked (oldFp : Ptr)
  /-- inside `synchronize_rcu()` -/
  | updWaiting (oldFp : Ptr)
  /-- before `kfree(old_fp)` -/
  | updWaited (oldFp : Ptr)
  /-- before the end of `foo_update_a` -/
  | updDone
  /-- killed by an access through `NULL` -/
  | oops
deriving DecidableEq, Repr

/-- The atomic steps of `foo_get_a`. -/
inductive GetStep where
  | call
  | readLock
  | dereference
  | readA
  | readUnlock
  | ret (retval : Int32)
deriving DecidableEq, Repr

/-- The atomic steps of `foo_update_a`; `kmalloc` comes with what it returns. -/
inductive UpdateStep where
  | call (newA : Int32)
  | kmalloc (r : Option (Obj × Foo))
  | spinLock
  | dereference
  | copy
  | storeA
  | assign
  | spinUnlock
  | synchronizeStart
  | synchronizeFinish
  | kfree
  | callRcu
  | ret
deriving DecidableEq, Repr

/-- One step of a thread, or the callback queued by the `i`-th `call_rcu`. -/
inductive Event (τ : Type) where
  | get (t : τ) (a : GetStep)
  | update (t : τ) (a : UpdateStep)
  | reclaim (i : ℕ)
deriving DecidableEq, Repr

/-- How `foo_update_a` reclaims the old object. -/
inductive Reclaim where
  | synchronize
  | callRcu
deriving DecidableEq, Repr

variable {τ : Type} [DecidableEq τ]

/-- The state of a sample over the RCU implementation `A`.  `gp t` is the grace period that
the `synchronize_rcu()` of `t` waits for, `callbacks i` what the `i`-th `call_rcu` queued. -/
structure State (A : Api τ) where
  gblFoo : Ptr
  heap : Heap Foo
  fooMutex : Option τ
  rcu : A.State
  pc : τ → Pc
  gp : τ → Option A.Ticket
  callbacks : ℕ → Option (Obj × A.Ticket)
  queued : ℕ

namespace State

variable {A : Api τ} (s : State A)

/-- The thread `t` goes on to `p`. -/
def goto (t : τ) (p : Pc) : State A := { s with pc := Function.update s.pc t p }

@[simp] theorem goto_gblFoo (t : τ) (p : Pc) : (s.goto t p).gblFoo = s.gblFoo := rfl
@[simp] theorem goto_heap (t : τ) (p : Pc) : (s.goto t p).heap = s.heap := rfl
@[simp] theorem goto_fooMutex (t : τ) (p : Pc) : (s.goto t p).fooMutex = s.fooMutex := rfl
@[simp] theorem goto_rcu (t : τ) (p : Pc) : (s.goto t p).rcu = s.rcu := rfl
@[simp] theorem goto_gp (t : τ) (p : Pc) : (s.goto t p).gp = s.gp := rfl
@[simp] theorem goto_callbacks (t : τ) (p : Pc) : (s.goto t p).callbacks = s.callbacks := rfl
@[simp] theorem goto_queued (t : τ) (p : Pc) : (s.goto t p).queued = s.queued := rfl
@[simp] theorem goto_pc_self (t : τ) (p : Pc) : (s.goto t p).pc t = p := by simp [goto]

theorem goto_pc_of_ne {t u : τ} (h : u ≠ t) (p : Pc) : (s.goto t p).pc u = s.pc u := by
  simp [goto, h]

theorem goto_pc (t : τ) (p : Pc) : (s.goto t p).pc = Function.update s.pc t p := rfl

end State

variable {A : Api τ}

/-- `foo_get_a` -/
def fooGetA (s : State A) (t : τ) : GetStep → Option (State A)
  | .call =>
      match s.pc t with
      | .idle => some (s.goto t .getEnter)
      | _ => none
  | .readLock =>
      match s.pc t with
      | .getEnter => (A.readLock s.rcu t).map fun r => { s with rcu := r }.goto t .getLocked
      | _ => none
  | .dereference =>
      match s.pc t with
      | .getLocked => some (s.goto t (.getLoaded s.gblFoo))
      | _ => none
  | .readA =>
      match s.pc t with
      | .getLoaded (some p) => some (s.goto t (.getRead (s.heap.mem p).a.bits))
      | .getLoaded none => some (s.goto t .oops)
      | _ => none
  | .readUnlock =>
      match s.pc t with
      | .getRead retval =>
          (A.readUnlock s.rcu t).map fun r => { s with rcu := r }.goto t (.getUnlocked retval)
      | _ => none
  | .ret retval =>
      match s.pc t with
      | .getUnlocked v => if v = retval then some (s.goto t .idle) else none
      | _ => none

/-- `foo_update_a` -/
def fooUpdateA (v : Reclaim) (s : State A) (t : τ) : UpdateStep → Option (State A)
  | .call newA =>
      match s.pc t with
      | .idle => some (s.goto t (.updEnter newA))
      | _ => none
  | .kmalloc none =>
      match s.pc t with
      | .updEnter newA => some (s.goto t (.updAlloced newA none))
      | _ => none
  | .kmalloc (some (o, x)) =>
      match s.pc t with
      | .updEnter newA => (s.heap.alloc o x.raw).map fun h =>
          { s with heap := h }.goto t (.updAlloced newA (some o))
      | _ => none
  | .spinLock =>
      match s.pc t, s.fooMutex with
      | .updAlloced newA newFp, none =>
          some ({ s with fooMutex := some t }.goto t (.updLocked newA newFp))
      | _, _ => none
  | .dereference =>
      match s.pc t with
      | .updLocked newA newFp => some (s.goto t (.updLoaded newA newFp s.gblFoo))
      | _ => none
  | .copy =>
      match s.pc t with
      | .updLoaded newA (some n) (some o) =>
          some ({ s with heap := s.heap.write n (s.heap.mem o) }.goto t
            (.updCopied newA (some n) (some o)))
      | .updLoaded _ none _ => some (s.goto t .oops)
      | .updLoaded _ (some _) none => some (s.goto t .oops)
      | _ => none
  | .storeA =>
      match s.pc t with
      | .updCopied newA (some n) oldFp =>
          some ({ s with heap := s.heap.write n { s.heap.mem n with a := ⟨newA, true⟩ } }.goto t
            (.updSet newA (some n) oldFp))
      | .updCopied _ none _ => some (s.goto t .oops)
      | _ => none
  | .assign =>
      match s.pc t with
      | .updSet _ newFp oldFp => some ({ s with gblFoo := newFp }.goto t (.updPublished oldFp))
      | _ => none
  | .spinUnlock =>
      match s.pc t with
      | .updPublished oldFp => some ({ s with fooMutex := none }.goto t (.updUnlocked oldFp))
      | _ => none
  | .synchronizeStart =>
      match v, s.pc t with
      | .synchronize, .updUnlocked oldFp => (A.start s.rcu).map fun p =>
          { s with rcu := p.1, gp := Function.update s.gp t (some p.2) }.goto t (.updWaiting oldFp)
      | _, _ => none
  | .synchronizeFinish =>
      match s.pc t, s.gp t with
      | .updWaiting oldFp, some x => (A.finish s.rcu x).map fun r =>
          { s with rcu := r, gp := Function.update s.gp t none }.goto t (.updWaited oldFp)
      | _, _ => none
  | .kfree =>
      match s.pc t with
      | .updWaited (some o) => some ({ s with heap := s.heap.free o }.goto t .updDone)
      | .updWaited none => some (s.goto t .updDone)
      | _ => none
  | .callRcu =>
      match v, s.pc t with
      | .callRcu, .updUnlocked (some o) => (A.start s.rcu).map fun p =>
          { s with
            rcu := p.1
            heap := s.heap.write o { s.heap.mem o with rcu := .fooReclaim }
            callbacks := Function.update s.callbacks s.queued (some (o, p.2))
            queued := s.queued + 1 }.goto t .updDone
      | .callRcu, .updUnlocked none => some (s.goto t .oops)
      | _, _ => none
  | .ret =>
      match s.pc t with
      | .updDone => some (s.goto t .idle)
      | _ => none

/-- `foo_reclaim`, invoked on the `rcu_head` that the `i`-th `call_rcu` queued. -/
def fooReclaim (s : State A) (i : ℕ) : Option (State A) :=
  match s.callbacks i with
  | some (o, x) => (A.finish s.rcu x).map fun r =>
      { s with
        rcu := r
        heap := s.heap.free o
        callbacks := Function.update s.callbacks i none }
  | none => none

/-- One step of the sample. -/
def step (v : Reclaim) (s : State A) : Event τ → Option (State A)
  | .get t a => fooGetA s t a
  | .update t a => fooUpdateA v s t a
  | .reclaim i => fooReclaim s i

/-! ### Start -/

/-- The module is loaded, nothing is allocated and no thread runs. -/
def State.blank (A : Api τ) : State A where
  gblFoo := none
  heap := ⟨fun _ => .unborn, fun _ => ⟨⟨0, false⟩, ⟨0, false⟩, ⟨0, false⟩, .raw 0⟩⟩
  fooMutex := none
  rcu := A.init
  pc _ := .idle
  gp _ := none
  callbacks _ := none
  queued := 0

/-- `gbl_foo = kmalloc(...)` in `init_foo`, when it succeeds. -/
def initFooKmalloc (s : State A) (o : Obj) (x : Foo) : Option (State A) :=
  (s.heap.alloc o x.raw).map fun h => { s with heap := h, gblFoo := some o }

/-- `gbl_foo->a = 5` in `init_foo`. -/
def initFooSetA (s : State A) : Option (State A) :=
  s.gblFoo.map fun o => { s with heap := s.heap.write o { s.heap.mem o with a := ⟨5, true⟩ } }

/-- `init_foo`, when its `kmalloc` succeeds. -/
def initFoo (s : State A) (o : Obj) (x : Foo) : Option (State A) :=
  (initFooKmalloc s o x).bind initFooSetA

/-- The threads of a sample, from the state that `init_foo` leaves. -/
def foo (A : Api τ) (v : Reclaim) : Lts (State A) (Event τ) where
  init s := ∃ o x, initFoo (State.blank A) o x = some s
  step := step v

/-- The three files. -/
inductive Sample where
  | synchronizeRcu
  | callRcu
  | toy
deriving DecidableEq, Repr

/-- The RCU that the file uses. -/
def Sample.api [Fintype τ] : Sample → Api τ
  | .synchronizeRcu => documented
  | .callRcu => documented
  | .toy => toyRcu τ

/-- How `foo_update_a` of the file reclaims. -/
def Sample.reclaim : Sample → Reclaim
  | .synchronizeRcu => .synchronize
  | .callRcu => .callRcu
  | .toy => .synchronize

/-- The machine of the file. -/
def Sample.machine [Fintype τ] (f : Sample) : Lts (State (f.api (τ := τ))) (Event τ) :=
  foo f.api f.reclaim

/-- Every RCU here implements the documented semantics. -/
def Sample.implements [Fintype τ] : (f : Sample) → Implements (f.api (τ := τ))
  | .synchronizeRcu => .refl
  | .callRcu => .refl
  | .toy => toyImplements

/-- What `init_foo` leaves when `kmalloc` returns the object 0, all zero. -/
def loaded (A : Api τ) : State A :=
  (initFoo (State.blank A) 0 ⟨⟨0, false⟩, ⟨0, false⟩, ⟨0, false⟩, .raw 0⟩).getD (State.blank A)

/-- A short run of two threads: the thread 0 loads `gbl_foo` in `foo_get_a`, then the thread 1
replaces the object in `foo_update_a(7)`, and reclaims it when the section is over. -/
def overlap (v : Reclaim) : List (Event (Fin 2)) :=
  [.get 0 .call, .get 0 .readLock, .get 0 .dereference, .update 1 (.call 7),
    .update 1 (.kmalloc (some (1, ⟨⟨1, false⟩, ⟨2, false⟩, ⟨3, false⟩, .raw 4⟩))),
    .update 1 .spinLock, .update 1 .dereference, .update 1 .copy, .update 1 .storeA,
    .update 1 .assign, .update 1 .spinUnlock] ++
  match v with
  | .synchronize => [.get 0 .readA, .get 0 .readUnlock, .update 1 .synchronizeStart,
      .update 1 .synchronizeFinish, .update 1 .kfree, .update 1 .ret, .get 0 (.ret 5)]
  | .callRcu => [.update 1 .callRcu, .update 1 .ret, .get 0 .readA, .get 0 .readUnlock,
      .reclaim 0, .get 0 (.ret 5)]

/-! ### What a step touches -/

/-- An access to an object of type `struct foo`. -/
inductive Access where
  | read (p : Ptr)
  | write (p : Ptr)
  | free (p : Ptr)
deriving DecidableEq, Repr

/-- The pointer an access goes through. -/
def Access.ptr : Access → Ptr
  | read p => p
  | write p => p
  | free p => p

/-- The accesses of a step.  `call_rcu` writes the `rcu_head` of the object, and the callback
is found through it. -/
def accesses (s : State A) : Event τ → List Access
  | .get t .readA =>
      match s.pc t with
      | .getLoaded p => [.read p]
      | _ => []
  | .update t .copy =>
      match s.pc t with
      | .updLoaded _ newFp oldFp => [.read oldFp, .write newFp]
      | _ => []
  | .update t .storeA =>
      match s.pc t with
      | .updCopied _ newFp _ => [.write newFp]
      | _ => []
  | .update t .kfree =>
      match s.pc t with
      | .updWaited oldFp => [.free oldFp]
      | _ => []
  | .update t .callRcu =>
      match s.pc t with
      | .updUnlocked oldFp => [.write oldFp]
      | _ => []
  | .reclaim i =>
      match s.callbacks i with
      | some (o, _) => [.read (some o), .free (some o)]
      | none => []
  | _ => []

/-- The access goes to an allocated object. -/
def Access.Safe (h : Heap Foo) (x : Access) : Prop := ∃ o, x.ptr = some o ∧ h.Live o

/-- `kmalloc` does not fail in this step. -/
def Event.Allocates : Event τ → Bool
  | .update _ (.kmalloc r) => r.isSome
  | _ => true

/-! ### The control flow

What a step does to the place of its thread, to the memory and to `foo_mutex`, once for all
later case analyses.  The RCU implementation only decides when a step is enabled. -/

/-- A step of `foo_get_a` from one place to the next. -/
inductive GetFlow (s : State A) : GetStep → Pc → Pc → Prop
  | call : GetFlow s .call .idle .getEnter
  | readLock : GetFlow s .readLock .getEnter .getLocked
  | dereference : GetFlow s .dereference .getLocked (.getLoaded s.gblFoo)
  | readA (o : Obj) : GetFlow s .readA (.getLoaded (some o)) (.getRead (s.heap.mem o).a.bits)
  | readNull : GetFlow s .readA (.getLoaded none) .oops
  | readUnlock (v : Int32) : GetFlow s .readUnlock (.getRead v) (.getUnlocked v)
  | ret (v : Int32) : GetFlow s (.ret v) (.getUnlocked v) .idle

/-- A step of `foo_update_a` of the thread `t`: the places, then the values of `gbl_foo`, the
heap and `foo_mutex` after it. -/
inductive UpdateFlow (s : State A) (t : τ) :
    UpdateStep → Pc → Pc → Ptr → Heap Foo → Option τ → Prop
  | call (newA : Int32) :
      UpdateFlow s t (.call newA) .idle (.updEnter newA) s.gblFoo s.heap s.fooMutex
  | kmallocFails (newA : Int32) : UpdateFlow s t (.kmalloc none) (.updEnter newA)
      (.updAlloced newA none) s.gblFoo s.heap s.fooMutex
  | kmalloc (newA : Int32) (o : Obj) (x : Foo) (h : Heap Foo) :
      s.heap.alloc o x.raw = some h → UpdateFlow s t (.kmalloc (some (o, x))) (.updEnter newA)
        (.updAlloced newA (some o)) s.gblFoo h s.fooMutex
  | spinLock (newA : Int32) (newFp : Ptr) :
      s.fooMutex = none → UpdateFlow s t .spinLock (.updAlloced newA newFp)
        (.updLocked newA newFp) s.gblFoo s.heap (some t)
  | dereference (newA : Int32) (newFp : Ptr) : UpdateFlow s t .dereference
      (.updLocked newA newFp) (.updLoaded newA newFp s.gblFoo) s.gblFoo s.heap s.fooMutex
  | copy (newA : Int32) (n o : Obj) : UpdateFlow s t .copy (.updLoaded newA (some n) (some o))
      (.updCopied newA (some n) (some o)) s.gblFoo (s.heap.write n (s.heap.mem o)) s.fooMutex
  | copyNull (newA : Int32) (newFp oldFp : Ptr) :
      newFp = none ∨ oldFp = none → UpdateFlow s t .copy (.updLoaded newA newFp oldFp) .oops
        s.gblFoo s.heap s.fooMutex
  | storeA (newA : Int32) (n : Obj) (oldFp : Ptr) : UpdateFlow s t .storeA
      (.updCopied newA (some n) oldFp) (.updSet newA (some n) oldFp) s.gblFoo
      (s.heap.write n { s.heap.mem n with a := ⟨newA, true⟩ }) s.fooMutex
  | storeNull (newA : Int32) (oldFp : Ptr) : UpdateFlow s t .storeA (.updCopied newA none oldFp)
      .oops s.gblFoo s.heap s.fooMutex
  | assign (newA : Int32) (newFp oldFp : Ptr) : UpdateFlow s t .assign
      (.updSet newA newFp oldFp) (.updPublished oldFp) newFp s.heap s.fooMutex
  | spinUnlock (oldFp : Ptr) : UpdateFlow s t .spinUnlock (.updPublished oldFp)
      (.updUnlocked oldFp) s.gblFoo s.heap none
  | synchronizeStart (oldFp : Ptr) : UpdateFlow s t .synchronizeStart (.updUnlocked oldFp)
      (.updWaiting oldFp) s.gblFoo s.heap s.fooMutex
  | synchronizeFinish (oldFp : Ptr) : UpdateFlow s t .synchronizeFinish (.updWaiting oldFp)
      (.updWaited oldFp) s.gblFoo s.heap s.fooMutex
  | kfree (o : Obj) : UpdateFlow s t .kfree (.updWaited (some o)) .updDone s.gblFoo
      (s.heap.free o) s.fooMutex
  | kfreeNull : UpdateFlow s t .kfree (.updWaited none) .updDone s.gblFoo s.heap s.fooMutex
  | callRcu (o : Obj) : UpdateFlow s t .callRcu (.updUnlocked (some o)) .updDone s.gblFoo
      (s.heap.write o { s.heap.mem o with rcu := .fooReclaim }) s.fooMutex
  | callRcuNull : UpdateFlow s t .callRcu (.updUnlocked none) .oops s.gblFoo s.heap s.fooMutex
  | ret : UpdateFlow s t .ret .updDone .idle s.gblFoo s.heap s.fooMutex

theorem getFlow_of_step {v : Reclaim} {s s' : State A} {t : τ} {a : GetStep}
    (hs : step v s (.get t a) = some s') :
    ∃ p, s'.pc = Function.update s.pc t p ∧ GetFlow s a (s.pc t) p ∧
      s'.gblFoo = s.gblFoo ∧ s'.heap = s.heap ∧ s'.fooMutex = s.fooMutex ∧
      s'.callbacks = s.callbacks ∧ s'.queued = s.queued := by
  replace hs : fooGetA s t a = some s' := hs
  cases a with
  | readLock =>
      simp only [fooGetA] at hs
      split at hs
      · rename_i hpc
        obtain ⟨r, -, rfl⟩ := Option.map_eq_some_iff.mp hs
        exact ⟨_, rfl, hpc ▸ .readLock, rfl, rfl, rfl, rfl, rfl⟩
      · cases hs
  | readUnlock =>
      simp only [fooGetA] at hs
      split at hs
      · rename_i hpc
        obtain ⟨r, -, rfl⟩ := Option.map_eq_some_iff.mp hs
        exact ⟨_, rfl, hpc ▸ .readUnlock _, rfl, rfl, rfl, rfl, rfl⟩
      · cases hs
  | ret v =>
      simp only [fooGetA] at hs
      split at hs
      · rename_i hpc
        split_ifs at hs with hv
        cases hs
        exact ⟨_, rfl, hv ▸ hpc ▸ .ret _, rfl, rfl, rfl, rfl, rfl⟩
      · cases hs
  | _ =>
      simp only [fooGetA] at hs
      split at hs <;> cases hs <;> rename_i hpc <;>
        exact ⟨_, rfl, hpc ▸ by constructor, rfl, rfl, rfl, rfl, rfl⟩

theorem updateFlow_of_step {v : Reclaim} {s s' : State A} {t : τ} {a : UpdateStep}
    (hs : step v s (.update t a) = some s') :
    ∃ p, s'.pc = Function.update s.pc t p ∧
      UpdateFlow s t a (s.pc t) p s'.gblFoo s'.heap s'.fooMutex := by
  replace hs : fooUpdateA v s t a = some s' := hs
  cases a with
  | kmalloc r =>
      cases r with
      | none =>
          simp only [fooUpdateA] at hs
          split at hs <;> cases hs
          rename_i hpc
          exact ⟨_, rfl, hpc ▸ .kmallocFails _⟩
      | some ox =>
          simp only [fooUpdateA] at hs
          split at hs
          · rename_i hpc
            obtain ⟨h, halloc, rfl⟩ := Option.map_eq_some_iff.mp hs
            exact ⟨_, rfl, hpc ▸ .kmalloc _ _ _ h halloc⟩
          · cases hs
  | spinLock =>
      simp only [fooUpdateA] at hs
      split at hs <;> cases hs
      rename_i hpc hm
      exact ⟨_, rfl, hpc ▸ .spinLock _ _ hm⟩
  | copy =>
      simp only [fooUpdateA] at hs
      split at hs <;> cases hs <;> rename_i hpc <;> refine ⟨_, rfl, ?_⟩ <;> rw [hpc]
      · exact .copy _ _ _
      · exact .copyNull _ _ _ (.inl rfl)
      · exact .copyNull _ _ _ (.inr rfl)
  | synchronizeStart =>
      simp only [fooUpdateA] at hs
      split at hs
      · rename_i hpc
        obtain ⟨p, -, rfl⟩ := Option.map_eq_some_iff.mp hs
        exact ⟨_, rfl, hpc ▸ .synchronizeStart _⟩
      · cases hs
  | synchronizeFinish =>
      simp only [fooUpdateA] at hs
      split at hs
      · rename_i hpc _
        obtain ⟨p, -, rfl⟩ := Option.map_eq_some_iff.mp hs
        exact ⟨_, rfl, hpc ▸ .synchronizeFinish _⟩
      · cases hs
  | callRcu =>
      simp only [fooUpdateA] at hs
      split at hs
      · rename_i hpc
        obtain ⟨p, -, rfl⟩ := Option.map_eq_some_iff.mp hs
        exact ⟨_, rfl, hpc ▸ .callRcu _⟩
      · rename_i hpc
        cases hs
        exact ⟨_, rfl, hpc ▸ .callRcuNull⟩
      · cases hs
  | _ =>
      simp only [fooUpdateA] at hs
      split at hs <;> cases hs <;> rename_i hpc <;>
        exact ⟨_, rfl, hpc ▸ by constructor⟩

/-- Only `call_rcu` queues a callback. -/
theorem callbacks_of_step {v : Reclaim} {s s' : State A} {t : τ} {a : UpdateStep}
    (hs : step v s (.update t a) = some s') :
    (a ≠ .callRcu ∧ s'.callbacks = s.callbacks ∧ s'.queued = s.queued) ∨
    a = .callRcu ∧ v = .callRcu ∧ (s.pc t = .updUnlocked none ∨ ∃ o x,
      s.pc t = .updUnlocked (some o) ∧ s'.queued = s.queued + 1 ∧
      s'.callbacks = Function.update s.callbacks s.queued (some (o, x))) := by
  replace hs : fooUpdateA v s t a = some s' := hs
  cases a with
  | callRcu =>
      simp only [fooUpdateA] at hs
      split at hs
      · rename_i o hpc
        obtain ⟨p, -, rfl⟩ := Option.map_eq_some_iff.mp hs
        exact .inr ⟨rfl, rfl, .inr ⟨o, p.2, hpc, rfl, rfl⟩⟩
      · rename_i hpc
        exact .inr ⟨rfl, rfl, .inl hpc⟩
      · cases hs
  | kmalloc r =>
      cases r <;> simp only [fooUpdateA] at hs <;> split at hs <;> try cases hs
      · exact .inl ⟨by simp, rfl, rfl⟩
      · obtain ⟨h, -, rfl⟩ := Option.map_eq_some_iff.mp hs
        exact .inl ⟨by simp, rfl, rfl⟩
  | synchronizeStart =>
      simp only [fooUpdateA] at hs
      split at hs <;> try cases hs
      obtain ⟨p, -, rfl⟩ := Option.map_eq_some_iff.mp hs
      exact .inl ⟨by simp, rfl, rfl⟩
  | synchronizeFinish =>
      simp only [fooUpdateA] at hs
      split at hs <;> try cases hs
      obtain ⟨p, -, rfl⟩ := Option.map_eq_some_iff.mp hs
      exact .inl ⟨by simp, rfl, rfl⟩
  | _ =>
      simp only [fooUpdateA] at hs
      split at hs <;> cases hs <;> exact .inl ⟨by simp, rfl, rfl⟩

theorem reclaim_of_step {v : Reclaim} {s s' : State A} {i : ℕ}
    (hs : step v s (.reclaim i) = some s') :
    ∃ o x, s.callbacks i = some (o, x) ∧ s'.heap = s.heap.free o ∧ s'.pc = s.pc ∧
      s'.gblFoo = s.gblFoo ∧ s'.fooMutex = s.fooMutex ∧ s'.queued = s.queued ∧
      s'.callbacks = Function.update s.callbacks i none := by
  simp only [step, fooReclaim] at hs
  split at hs
  · rename_i o x hi
    obtain ⟨r, -, rfl⟩ := Option.map_eq_some_iff.mp hs
    exact ⟨o, x, hi, rfl, rfl, rfl, rfl, rfl, rfl⟩
  · cases hs

/-- A thread moves by its own steps only. -/
theorem pc_of_step {v : Reclaim} {s s' : State A} {e : Event τ} (hs : step v s e = some s')
    (t : τ) : s'.pc t = s.pc t ∨
    (∃ a, e = .get t a ∧ s'.heap = s.heap ∧ GetFlow s a (s.pc t) (s'.pc t)) ∨
    ∃ a, e = .update t a ∧ UpdateFlow s t a (s.pc t) (s'.pc t) s'.gblFoo s'.heap s'.fooMutex := by
  cases e with
  | get u a =>
      obtain ⟨p, hpc, hflow, -, hheap, -⟩ := getFlow_of_step hs
      by_cases hu : t = u
      · subst hu
        exact .inr (.inl ⟨a, rfl, hheap, by rw [hpc, Function.update_self]; exact hflow⟩)
      · exact .inl (by rw [hpc, Function.update_of_ne hu])
  | update u a =>
      obtain ⟨p, hpc, hflow⟩ := updateFlow_of_step hs
      by_cases hu : t = u
      · subst hu
        exact .inr (.inr ⟨a, rfl, by rw [hpc, Function.update_self]; exact hflow⟩)
      · exact .inl (by rw [hpc, Function.update_of_ne hu])
  | reclaim i =>
      obtain ⟨o, x, -, -, hpc, -⟩ := reclaim_of_step hs
      exact .inl (by rw [hpc])

/-- `synchronize_rcu` queues nothing. -/
theorem no_callbacks_of_step {s s' : State A} {e : Event τ}
    (hs : step .synchronize s e = some s') (h : ∀ i, s.callbacks i = none) (i : ℕ) :
    s'.callbacks i = none := by
  cases e with
  | get t a =>
      obtain ⟨p, -, -, -, -, -, hcb, -⟩ := getFlow_of_step hs
      rw [hcb, h]
  | update t a =>
      rcases callbacks_of_step hs with ⟨-, hcb, -⟩ | ⟨-, hv, -⟩
      · rw [hcb, h]
      · cases hv
  | reclaim j =>
      obtain ⟨o, x, hj, -⟩ := reclaim_of_step hs
      rw [h] at hj
      cases hj

end KernelMemo.Rcu
