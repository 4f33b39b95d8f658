import KernelMemo.Rcu.FooSafety

/-! # Loading and unloading a sample

`init_sample_`, `exit_sample_` and the kthreads of the samples, around the machine of
`Foo.lean`.

* **The loader.**  `Main` is the place of the task that runs `init_sample_` and later
  `exit_sample_`.  `kthread_run` may fail; `k[i]` is then an error pointer.
* **The kthreads.**  The first `nr` threads loop over `foo_get_a`, the others over
  `foo_update_a`.  A thread looks at `kthread_should_stop()` between two iterations only, and
  `kthread_stop` returns when its thread has exited.
* **The callbacks.**  `call_rcu` runs `foo_reclaim` when it likes, before or after
  `exit_sample_`: nothing in the module waits for it. -/

namespace KernelMemo.Rcu

open GracePeriod

/-- `k[i]`: not set yet, an error pointer, or the thread. -/
inductive TaskPtr where
  | null
  | err
  | task
deriving DecidableEq, Repr

/-- The place of a kthread. -/
inductive Kthread where
  /-- not created -/
  | absent
  /-- before `kthread_should_stop()` -/
  | loop
  /-- in the body of the loop, before the call -/
  | body
  /-- inside `foo_get_a` or `foo_update_a` -/
  | inside
  | exited
deriving DecidableEq, Repr

/-- The place of the task that loads and unloads the module. -/
inductive Main (n : ℕ) where
  /-- `init_foo`, before `kmalloc` -/
  | start
  /-- before `gbl_foo->a = 5` -/
  | setA
  /-- `init_kthread`, before `k[i] = kthread_run(...)` -/
  | kthreadRun (i : Fin n)
  /-- before `pr_info("pid->...", k[i]->pid, ...)` -/
  | print (i : Fin n)
  /-- at `out:` of `init_sample_` -/
  | out
  /-- `init_sample_` has returned 0 -/
  | running
  /-- `exit_sample_`, before `kthread_stop(k[i])` -/
  | kthreadStop (i : Fin n)
  /-- inside `kthread_stop(k[i])` -/
  | kthreadWait (i : Fin n)
  /-- before `kfree(gbl_foo)` -/
  | kfree
  /-- `exit_sample_` has returned -/
  | exited
  /-- `init_sample_` has returned an error -/
  | failed (err : Int)
  /-- killed by an access through an error pointer -/
  | oops
deriving DecidableEq, Repr

/-- `kmalloc` and `kthread_run` come with what they return. -/
inductive KmodEvent (n : ℕ) where
  | kmalloc (r : Option (Obj × Foo))
  | setA
  | kthreadRun (ok : Bool)
  | print
  | rmmod
  | kthreadStop
  | kthreadWait
  | kfree
  /-- the thread looks at `kthread_should_stop()` -/
  | shouldStop (t : Fin n)
  /-- a step inside `foo_get_a` or `foo_update_a`, or a callback -/
  | foo (e : Event (Fin n))
deriving DecidableEq, Repr

variable {n : ℕ}

/-- The state of a module with `n` kthreads. -/
structure Kmod (A : Api (Fin n)) where
  main : Main n
  k : Fin n → TaskPtr
  thread : Fin n → Kthread
  stop : Fin n → Bool
  foo : State A

/-- `IS_ERR(k)` in `init_kthread`: the address of the array `k` is no error pointer. -/
def isErrK : Bool := false

/-- The loops of `init_kthread`, on to index `i`. -/
def Main.initKthread (i : ℕ) : Main n := if h : i < n then .kthreadRun ⟨i, h⟩ else .running

/-- The loop of `exit_sample_`, on to index `i`. -/
def Main.exitSample (i : ℕ) : Main n := if h : i < n then .kthreadStop ⟨i, h⟩ else .kfree

/-- `kthread_reader`: one `foo_get_a` in each iteration. -/
def kthreadReader (q : Kthread) : GetStep → Option Kthread
  | .call => if q = .body then some .inside else none
  | .ret _ => if q = .inside then some .loop else none
  | _ => if q = .inside then some .inside else none

/-- `kthread_writer`: one `foo_update_a(get_random_int() % 100)` in each iteration. -/
def kthreadWriter (q : Kthread) : UpdateStep → Option Kthread
  | .ret => if q = .inside then some .loop else none
  | .call val => if q = .body ∧ 0 ≤ val ∧ val < 100 then some .inside else none
  | _ => if q = .inside then some .inside else none

/-- `kfree(gbl_foo)` -/
def kfreeGblFoo {A : Api (Fin n)} (s : State A) : State A :=
  match s.gblFoo with
  | some o => { s with heap := s.heap.free o }
  | none => s

/-- One step of the module with `nr` readers. -/
def Kmod.step {A : Api (Fin n)} (v : Reclaim) (nr : ℕ) (s : Kmod A) :
    KmodEvent n → Option (Kmod A)
  | .kmalloc none =>
      match s.main with
      | .start => some { s with main := .failed (-1) }
      | _ => none
  | .kmalloc (some (o, x)) =>
      match s.main with
      | .start => (initFooKmalloc s.foo o x).map fun f => { s with foo := f, main := .setA }
      | _ => none
  | .setA =>
      match s.main with
      | .setA => (initFooSetA s.foo).map fun f => { s with foo := f, main := .initKthread 0 }
      | _ => none
  | .kthreadRun ok =>
      match s.main with
      | .kthreadRun i => some { s with
          k := Function.update s.k i (if ok then .task else .err)
          thread := if ok then Function.update s.thread i .loop else s.thread
          main := if isErrK then .out else .print i }
      | _ => none
  | .print =>
      match s.main with
      | .print i => some { s with
          main := if s.k i = .task then .initKthread (i + 1) else .oops }
      | _ => none
  | .rmmod =>
      match s.main with
      | .running => some { s with main := .exitSample 0 }
      | _ => none
  | .kthreadStop =>
      match s.main with
      | .kthreadStop i => some { s with
          stop := if s.k i = .task then Function.update s.stop i true else s.stop
          main := if s.k i = .task then .kthreadWait i else .oops }
      | _ => none
  | .kthreadWait =>
      match s.main with
      | .kthreadWait i =>
          if s.thread i = .exited then some { s with main := .exitSample (i + 1) } else none
      | _ => none
  | .kfree =>
      match s.main with
      | .kfree => some { s with foo := kfreeGblFoo s.foo, main := .exited }
      | .out => some { s with foo := kfreeGblFoo s.foo, main := .failed (-1) }
      | _ => none
  | .shouldStop t =>
      if s.thread t = .loop then
        some { s with thread := Function.update s.thread t (if s.stop t then .exited else .body) }
      else none
  | .foo (.get t a) =>
      if t < nr then
        (kthreadReader (s.thread t) a).bind fun q => (fooGetA s.foo t a).map fun f =>
          { s with foo := f, thread := Function.update s.thread t q }
      else none
  | .foo (.update t a) =>
      if nr ≤ t then
        (kthreadWriter (s.thread t) a).bind fun q => (fooUpdateA v s.foo t a).map fun f =>
          { s with foo := f, thread := Function.update s.thread t q }
      else none
  | .foo (.reclaim i) => (fooReclaim s.foo i).map fun f => { s with foo := f }

/-- Before the module is loaded. -/
def Kmod.unloaded (A : Api (Fin n)) : Kmod A where
  main := .start
  k _ := .null
  thread _ := .absent
  stop _ := false
  foo := State.blank A

/-- A sample with `nr` readers among its `n` threads, from before `init_sample_` on. -/
def kmod (A : Api (Fin n)) (v : Reclaim) (nr : ℕ) : Lts (Kmod A) (KmodEvent n) where
  init s := s = Kmod.unloaded A
  step := Kmod.step v nr

/-- `kmalloc` and `kthread_run` succeed. -/
def KmodEvent.Succeeds : KmodEvent n → Bool
  | .kmalloc r => r.isSome
  | .kthreadRun ok => ok
  | .foo e => e.Allocates
  | _ => true

/-! ### The control flow

What a step does besides the functions of `Foo.lean`, once for all later case analyses. -/

/-- A step of the loader, or a look at `kthread_should_stop()`. -/
inductive LoaderFlow {A : Api (Fin n)} (s : Kmod A) : KmodEvent n → Kmod A → Prop
  | kmallocFails : s.main = .start →
      LoaderFlow s (.kmalloc none) { s with main := .failed (-1) }
  | kmalloc (o : Obj) (x : Foo) (f : State A) :
      s.main = .start → initFooKmalloc s.foo o x = some f →
      LoaderFlow s (.kmalloc (some (o, x))) { s with foo := f, main := .setA }
  | setA (f : State A) : s.main = .setA → initFooSetA s.foo = some f →
      LoaderFlow s .setA { s with foo := f, main := .initKthread 0 }
  | kthreadRun (i : Fin n) (ok : Bool) : s.main = .kthreadRun i →
      LoaderFlow s (.kthreadRun ok) { s with
        k := Function.update s.k i (if ok then .task else .err)
        thread := if ok then Function.update s.thread i .loop else s.thread
        main := .print i }
  | print (i : Fin n) : s.main = .print i → s.k i = .task →
      LoaderFlow s .print { s with main := .initKthread (i + 1) }
  | printErr (i : Fin n) : s.main = .print i → s.k i ≠ .task →
      LoaderFlow s .print { s with main := .oops }
  | rmmod : s.main = .running → LoaderFlow s .rmmod { s with main := .exitSample 0 }
  | kthreadStop (i : Fin n) : s.main = .kthreadStop i → s.k i = .task →
      LoaderFlow s .kthreadStop { s with
        stop := Function.update s.stop i true
        main := .kthreadWait i }
  | kthreadStopErr (i : Fin n) : s.main = .kthreadStop i → s.k i ≠ .task →
      LoaderFlow s .kthreadStop { s with main := .oops }
  | kthreadWait (i : Fin n) : s.main = .kthreadWait i → s.thread i = .exited →
      LoaderFlow s .kthreadWait { s with main := .exitSample (i + 1) }
  | kfree : s.main = .kfree →
      LoaderFlow s .kfree { s with foo := kfreeGblFoo s.foo, main := .exited }
  | kfreeOut : s.main = .out →
      LoaderFlow s .kfree { s with foo := kfreeGblFoo s.foo, main := .failed (-1) }
  | shouldStop (t : Fin n) : s.thread t = .loop →
      LoaderFlow s (.shouldStop t)
        { s with thread := Function.update s.thread t (if s.stop t then .exited else .body) }

theorem Kmod.flow_of_step {A : Api (Fin n)} {v : Reclaim} {nr : ℕ} {s s' : Kmod A}
    {e : KmodEvent n} (hs : s.step v nr e = some s') : (∃ f, e = .foo f) ∨ LoaderFlow s e s' := by
  cases e with
  | foo f => exact .inl ⟨f, rfl⟩
  | kmalloc r =>
      cases r with
      | none =>
          simp only [Kmod.step] at hs
          split at hs <;> cases hs
          exact .inr (.kmallocFails ‹_›)
      | some ox =>
          simp only [Kmod.step] at hs
          split at hs
          · obtain ⟨f, hf, rfl⟩ := Option.map_eq_some_iff.mp hs
            exact .inr (.kmalloc _ _ f ‹_› hf)
          · cases hs
  | setA =>
      simp only [Kmod.step] at hs
      split at hs
      · obtain ⟨f, hf, rfl⟩ := Option.map_eq_some_iff.mp hs
        exact .inr (.setA f ‹_› hf)
      · cases hs
  | kthreadRun ok =>
      simp only [Kmod.step] at hs
      split at hs <;> cases hs
      exact .inr (.kthreadRun _ ok ‹_›)
  | print =>
      simp only [Kmod.step] at hs
      split at hs <;> cases hs
      rename_i i hm
      by_cases hk : s.k i = .task
      · simp only [if_pos hk]
        exact .inr (.print i hm hk)
      · simp only [if_neg hk]
        exact .inr (.printErr i hm hk)
  | rmmod =>
      simp only [Kmod.step] at hs
      split at hs <;> cases hs
      exact .inr (.rmmod ‹_›)
  | kthreadStop =>
      simp only [Kmod.step] at hs
      split at hs <;> cases hs
      rename_i i hm
      by_cases hk : s.k i = .task
      · simp only [if_pos hk]
        exact .inr (.kthreadStop i hm hk)
      · simp only [if_neg hk]
        exact .inr (.kthreadStopErr i hm hk)
  | kthreadWait =>
      simp only [Kmod.step] at hs
      split at hs
      · split_ifs at hs with hexit
        cases hs
        exact .inr (.kthreadWait _ ‹_› hexit)
      · cases hs
  | kfree =>
      simp only [Kmod.step] at hs
      split at hs <;> cases hs
      · exact .inr (.kfree ‹_›)
      · exact .inr (.kfreeOut ‹_›)
  | shouldStop t =>
      obtain ⟨ht, hs⟩ := Option.ite_none_right_eq_some.mp hs
      cases hs
      exact .inr (.shouldStop t ht)

/-! ### Short runs -/

/-- One `foo_update_a(7)` of the thread, with the object 1. -/
def updateOnce {τ : Type} (v : Reclaim) (t : τ) : List (Event τ) :=
  [.update t (.call 7),
    .update t (.kmalloc (some (1, ⟨⟨1, false⟩, ⟨2, false⟩, ⟨3, false⟩, .raw 4⟩))),
    .update t .spinLock, .update t .dereference, .update t .copy, .update t .storeA,
    .update t .assign, .update t .spinUnlock] ++
  match v with
  | .synchronize => [.update t .synchronizeStart, .update t .synchronizeFinish, .update t .kfree,
      .update t .ret]
  | .callRcu => [.update t .callRcu, .update t .ret]

/-- Load the module, let the thread `t` run `foo_update_a` once, let `rest` happen and unload
the module. -/
def loadUpdateUnload (v : Reclaim) (t : Fin n) (rest : List (KmodEvent n)) :
    List (KmodEvent n) :=
  [.kmalloc (some (0, ⟨⟨0, false⟩, ⟨0, false⟩, ⟨0, false⟩, .raw 0⟩)), .setA] ++
  (List.finRange n).flatMap (fun _ => [.kthreadRun true, .print]) ++
  [.shouldStop t] ++ (updateOnce v t).map .foo ++ rest ++ [.rmmod] ++
  (List.finRange n).flatMap (fun u => [.kthreadStop, .shouldStop u, .kthreadWait]) ++ [.kfree]

end KernelMemo.Rcu
