import KernelMemo.Rcu.FooSafety

/-! # Deadlocks of the toy sample

`rcu/toy_impl/sample_use.c` waits at two locks: `foo_mutex`, a spin lock, and `rcu_gp_mutex`,
the reader-writer lock of the toy RCU.

* **Admission.**  A writer that finds `rcu_gp_mutex` taken waits in `write_lock`.  `Admission`
  says whether new readers overtake it; `toyFoo` is the machine of the sample with the set of
  waiting writers, for either rule.
* **Holders.**  Who holds `foo_mutex` stands between its `spin_lock` and its `spin_unlock`, or
  was killed there (`mutexHeld_of_reachable`).  Who holds `rcu_gp_mutex` for writing stands inside
  `toy_synchronize_rcu` (`writerIs_of_reachable`), and the count of readers is the number of threads
  inside a section (`readers_eq`).
* **Ranks.**  A stuck thread waits for one that comes before it: holders, then waiting writers,
  then readers at the door, then updaters at `foo_mutex` (`Pc.rank`).  So the sample deadlocks
  exactly when a killed thread holds `foo_mutex` and all others spin on it
  (`toyFoo_deadlocked_iff`), which takes a `kmalloc` that fails. -/

namespace KernelMemo.Rcu

open GracePeriod

namespace Pc

/-- Between `spin_lock(&foo_mutex)` and `spin_unlock(&foo_mutex)`. -/
def locking : Pc → Bool
  | updLocked _ _ => true
  | updLoaded _ _ _ => true
  | updCopied _ _ _ => true
  | updSet _ _ _ => true
  | updPublished _ => true
  | _ => false

/-- Between `write_lock(&rcu_gp_mutex)` and `write_unlock(&rcu_gp_mutex)`. -/
def writing : Pc → Bool
  | updWaiting _ => true
  | _ => false

/-- Inside `foo_get_a` or `foo_update_a`; a killed thread is inside no more. -/
def inside : Pc → Bool
  | idle => false
  | oops => false
  | _ => true

/-- A thread that waits here waits for threads at places of lower rank. -/
def rank : Pc → ℕ
  | updAlloced _ _ => 3
  | getEnter => 2
  | updUnlocked _ => 1
  | _ => 0

theorem rank_le (p : Pc) : p.rank ≤ 3 := by
  cases p <;> simp [rank]

theorem inside_iff (p : Pc) : p.inside = true ↔ p ≠ idle ∧ p ≠ oops := by
  cases p <;> simp [inside]

end Pc

/-! ### The holder of `foo_mutex` -/

section Mutex

variable {τ : Type} {A : Api τ} {s : State A} {t : τ} {a : UpdateStep} {q p : Pc} {g : Ptr}
  {hp : Heap Foo} {m : Option τ}

/-- `foo_mutex` stays as it is, is taken, or is given back. -/
theorem UpdateFlow.fooMutex (h : UpdateFlow s t a q p g hp m) :
    m = s.fooMutex ∧ (q.locking = true → p.locking = true ∨ p = .oops) ∨
      s.fooMutex = none ∧ m = some t ∧ p.locking = true ∨ m = none := by
  cases h with
  | spinLock newA newFp hfree => exact .inr (.inl ⟨hfree, rfl, rfl⟩)
  | spinUnlock => exact .inr (.inr rfl)
  | dereference => exact .inl ⟨rfl, fun _ => .inl rfl⟩
  | copy => exact .inl ⟨rfl, fun _ => .inl rfl⟩
  | copyNull => exact .inl ⟨rfl, fun _ => .inr rfl⟩
  | storeA => exact .inl ⟨rfl, fun _ => .inl rfl⟩
  | storeNull => exact .inl ⟨rfl, fun _ => .inr rfl⟩
  | assign => exact .inl ⟨rfl, fun _ => .inl rfl⟩
  | _ => exact .inl ⟨rfl, fun hq => by cases hq⟩

theorem GetFlow.not_locking {b : GetStep} (h : GetFlow s b q p) : q.locking = false := by
  cases h <;> rfl

theorem GetFlow.not_writing {b : GetStep} (h : GetFlow s b q p) :
    q.writing = false ∧ p.writing = false := by
  cases h <;> exact ⟨rfl, rfl⟩

end Mutex

variable {τ : Type} [DecidableEq τ] {A : Api τ}

/-- Who holds `foo_mutex` stands between its two operations on it, or was killed there. -/
def MutexHeld (s : State A) : Prop :=
  ∀ t, s.fooMutex = some t → (s.pc t).locking = true ∨ s.pc t = .oops

theorem MutexHeld.step {v : Reclaim} {s s' : State A} {e : Event τ} (h : MutexHeld s)
    (hs : Rcu.step v s e = some s') : MutexHeld s' := by
  intro u hu
  cases e with
  | get t a =>
      obtain ⟨p, hpc, hflow, -, -, hmutex, -⟩ := getFlow_of_step hs
      rw [hmutex] at hu
      by_cases hut : u = t
      · subst hut
        rcases h u hu with hl | hl
        · rw [hflow.not_locking] at hl
          cases hl
        · exact absurd hl hflow.ne_oops
      · simpa [hpc, hut] using h u hu
  | update t a =>
      obtain ⟨p, hpc, hflow⟩ := updateFlow_of_step hs
      rcases hflow.fooMutex with ⟨hm, hlocking⟩ | ⟨-, hm, hl⟩ | hm
      · rw [hm] at hu
        by_cases hut : u = t
        · subst hut
          rw [hpc, Function.update_self]
          rcases h u hu with hl | hl
          · exact hlocking hl
          · exact absurd hl hflow.ne_oops
        · simpa [hpc, hut] using h u hu
      · rw [hm] at hu
        cases hu
        rw [hpc, Function.update_self]
        exact .inl hl
      · rw [hm] at hu
        cases hu
  | reclaim i =>
      obtain ⟨o, x, -, -, hpc, -, hmutex, -⟩ := reclaim_of_step hs
      rw [hmutex] at hu
      rw [hpc]
      exact h u hu

theorem mutexHeld_of_reachable {v : Reclaim} {s : State A} (h : (foo A v).Reachable s) :
    MutexHeld s := by
  refine h.invariant ?_ fun _ _ _ hc hs => hc.step hs
  rintro c ⟨o, x, hinit⟩ t ht
  rw [initFoo_eq_some hinit] at ht
  cases ht

/-! ### Fresh objects and killed threads -/

/-- `kmalloc` has objects left to hand out. -/
def Fresh (s : State A) : Prop := ∃ n, ∀ o, n ≤ o → s.heap.life o = .unborn

omit [DecidableEq τ] in
/-- A step changes the life of one object at most. -/
theorem UpdateFlow.life_off {s : State A} {t : τ} {a : UpdateStep} {q p : Pc} {g : Ptr}
    {hp : Heap Foo} {m : Option τ} (h : UpdateFlow s t a q p g hp m) :
    ∃ n, ∀ o, o ≠ n → hp.life o = s.heap.life o := by
  cases h with
  | kmalloc newA n x hp halloc => exact ⟨n, fun o ho => Heap.alloc_life_of_ne halloc ho⟩
  | kfree n => exact ⟨n, fun o ho => Heap.free_life_of_ne _ ho⟩
  | _ => exact ⟨0, fun _ _ => rfl⟩

theorem Fresh.step {v : Reclaim} {s s' : State A} {e : Event τ} (h : Fresh s)
    (hs : Rcu.step v s e = some s') : Fresh s' := by
  obtain ⟨n, hn⟩ := h
  have hoff : ∃ k, ∀ o, o ≠ k → s'.heap.life o = s.heap.life o := by
    cases e with
    | get t a =>
        obtain ⟨p, -, -, -, hheap, -⟩ := getFlow_of_step hs
        exact ⟨0, fun o _ => by rw [hheap]⟩
    | update t a =>
        obtain ⟨p, -, hflow⟩ := updateFlow_of_step hs
        exact hflow.life_off
    | reclaim i =>
        obtain ⟨k, x, -, hheap, -⟩ := reclaim_of_step hs
        exact ⟨k, fun o ho => by rw [hheap, Heap.free_life_of_ne _ ho]⟩
  obtain ⟨k, hk⟩ := hoff
  refine ⟨max n (k + 1), fun o ho => ?_⟩
  rw [hk o (by omega), hn o (by omega)]

theorem fresh_of_reachable {v : Reclaim} {s : State A} (h : (foo A v).Reachable s) : Fresh s := by
  refine h.invariant ?_ fun _ _ _ hc hs => hc.step hs
  rintro c ⟨o, x, hinit⟩
  rw [initFoo_eq_some hinit]
  exact ⟨o + 1, fun p hp => by simp [Function.update_of_ne (show p ≠ o by omega)]⟩

/-- While `kmalloc` succeeds, no step kills its thread. -/
theorem ne_oops_of_step [Fintype τ] {R : Implements A} {v : Reclaim} {s s' : State A}
    {e : Event τ} (h : Tracked R s) (ha : s.Allocated) (hs : step v s e = some s')
    (halive : ∀ t, s.pc t ≠ .oops) (u : τ) : s'.pc u ≠ .oops := by
  obtain ⟨g, hg, -⟩ := h.gbl
  intro hp
  rcases pc_of_step hs u with hpc | ⟨a, -, -, hflow⟩ | ⟨a, -, hflow⟩
  · exact halive u (hpc.symm.trans hp)
  · rw [hp] at hflow
    generalize hq : s.pc u = q at hflow
    cases hflow
    obtain ⟨o, w, ho, -⟩ := h.getLoaded hq
    cases ho
  · have hnew := ha u
    rw [hp] at hflow
    generalize hq : s.pc u = q at hflow hnew
    generalize s'.gblFoo = g', s'.heap = hp, s'.fooMutex = m at hflow
    cases hflow with
    | copyNull newA newFp oldFp hnull =>
        rcases hnull with rfl | rfl
        · exact hnew rfl
        · rw [← h.updLoaded hq] at hg
          cases hg
    | storeNull newA oldFp => exact h.updCopied hq rfl
    | callRcuNull =>
        obtain ⟨o, ho, -⟩ := h.oldFp (.inr (.inl hq))
        cases ho

theorem ne_oops_of_run [Fintype τ] (R : Implements A) {v : Reclaim} {s₀ s : State A}
    {es : List (Event τ)} (h₀ : (foo A v).init s₀) (h : (foo A v).run s₀ es = some s)
    (hes : ∀ e ∈ es, e.Allocates) (t : τ) : s.pc t ≠ .oops := by
  obtain ⟨o, x, hinit⟩ := h₀
  have hinv := Lts.run_invariant
    (P := fun c => Tracked R c ∧ c.Allocated ∧ ∀ t, c.pc t ≠ .oops) (E := fun e => e.Allocates)
    ?_ hes h ⟨tracked_initFoo R hinit, allocated_initFoo hinit, ?_⟩
  · exact hinv.2.2 t
  · intro c e d he hc hs
    obtain ⟨htr, ha, halive⟩ := hc
    exact ⟨htr.step hs, ha.step he hs, ne_oops_of_step htr ha hs halive⟩
  · rw [initFoo_eq_some hinit]
    simp [State.blank]

/-! ### The holders of `rcu_gp_mutex` -/

/-- `h` holds `rcu_gp_mutex` for writing. -/
structure WriterIs (s : State (toyRcu τ)) (h : Option τ) : Prop where
  writer : RwLock.writer s.rcu = h.isSome
  writing : ∀ t, (s.pc t).writing = true ↔ h = some t
  gp : ∀ t, h = some t → s.gp t = some ()

/-- A step of `foo_get_a` changes no writer. -/
theorem writer_of_get {v : Reclaim} {s s' : State (toyRcu τ)} {t : τ} {a : GetStep}
    (hs : step v s (.get t a) = some s') :
    RwLock.writer s'.rcu = RwLock.writer s.rcu ∧ s'.gp = s.gp := by
  replace hs : fooGetA s t a = some s' := hs
  cases a with
  | readLock =>
      simp only [fooGetA] at hs
      split at hs
      · obtain ⟨r, hr, rfl⟩ := Option.map_eq_some_iff.mp hs
        obtain ⟨-, rfl⟩ := RwLock.readLock_eq_some hr
        exact ⟨rfl, rfl⟩
      · cases hs
  | readUnlock =>
      simp only [fooGetA] at hs
      split at hs
      · obtain ⟨r, hr, rfl⟩ := Option.map_eq_some_iff.mp hs
        obtain ⟨-, rfl⟩ := RwLock.readUnlock_eq_some hr
        exact ⟨rfl, rfl⟩
      · cases hs
  | ret retval =>
      simp only [fooGetA] at hs
      split at hs
      · split_ifs at hs
        cases hs
        exact ⟨rfl, rfl⟩
      · cases hs
  | _ =>
      simp only [fooGetA] at hs
      split at hs <;> cases hs <;> exact ⟨rfl, rfl⟩

/-- `write_lock`, `write_unlock`, or neither. -/
theorem writer_of_update {s s' : State (toyRcu τ)} {t : τ} {a : UpdateStep}
    (hs : step .synchronize s (.update t a) = some s') :
    (∃ o, s.pc t = .updUnlocked o ∧ s'.pc = Function.update s.pc t (.updWaiting o) ∧
      RwLock.writer s.rcu = false ∧ RwLock.writer s'.rcu = true ∧
      s'.gp = Function.update s.gp t (some ())) ∨
    (∃ o, s.pc t = .updWaiting o ∧ s'.pc = Function.update s.pc t (.updWaited o) ∧
      RwLock.writer s'.rcu = false) ∨
    (s.pc t).writing = false ∧ (s'.pc t).writing = false ∧ s'.rcu = s.rcu ∧ s'.gp = s.gp := by
  replace hs : fooUpdateA .synchronize s t a = some s' := hs
  cases a with
  | synchronizeStart =>
      simp only [fooUpdateA] at hs
      split at hs
      · rename_i o _ hpc
        obtain ⟨⟨r, x⟩, hr, rfl⟩ := Option.map_eq_some_iff.mp hs
        obtain ⟨l, hl, hp⟩ := Option.map_eq_some_iff.mp hr
        obtain ⟨rfl, rfl⟩ := Prod.mk.inj hp
        obtain ⟨hw, -, rfl⟩ := RwLock.writeLock_eq_some hl
        exact .inl ⟨o, hpc, rfl, hw, rfl, rfl⟩
      · cases hs
  | synchronizeFinish =>
      simp only [fooUpdateA] at hs
      split at hs
      · rename_i o x hpc _
        obtain ⟨r, hr, rfl⟩ := Option.map_eq_some_iff.mp hs
        obtain ⟨-, rfl⟩ := RwLock.writeUnlock_eq_some hr
        exact .inr (.inl ⟨o, hpc, rfl, rfl⟩)
      · cases hs
  | kmalloc r =>
      refine .inr (.inr ?_)
      cases r <;> simp only [fooUpdateA] at hs <;> split at hs <;> try cases hs
      · simp [*, Pc.writing]
      · rename_i hpc
        obtain ⟨h, -, rfl⟩ := Option.map_eq_some_iff.mp hs
        simp [hpc, Pc.writing]
  | callRcu => cases hs
  | _ =>
      refine .inr (.inr ?_)
      simp only [fooUpdateA] at hs
      split at hs <;> cases hs <;> simp [*, Pc.writing]

theorem WriterIs.step {s s' : State (toyRcu τ)} {h : Option τ} {e : Event τ} (hh : WriterIs s h)
    (hcb : ∀ i, s.callbacks i = none) (hs : Rcu.step .synchronize s e = some s') :
    ∃ h', WriterIs s' h' := by
  cases e with
  | get t a =>
      obtain ⟨p, hpc, hflow, -⟩ := getFlow_of_step hs
      obtain ⟨hw, hgp⟩ := writer_of_get hs
      have hq : (s.pc t).writing = false ∧ p.writing = false := hflow.not_writing
      refine ⟨h, by rw [hw, hh.writer], fun u => ?_, fun u hu => by rw [hgp]; exact hh.gp u hu⟩
      rw [← hh.writing u, hpc]
      by_cases hu : u = t
      · rw [hu, Function.update_self, hq.1, hq.2]
      · rw [Function.update_of_ne hu]
  | update t a =>
      rcases writer_of_update hs with ⟨o, hq, hpc, hw, hw', hgp⟩ | ⟨o, hq, hpc, hw'⟩ |
        ⟨hq, hq', hrcu, hgp⟩
      · -- nobody holds it before `write_lock`
        have hnone : h = none := by
          have := hh.writer
          rw [hw] at this
          simpa using this.symm
        subst hnone
        refine ⟨some t, hw', fun u => ?_, fun u hu => ?_⟩
        · rw [hpc]
          by_cases hu : u = t
          · simp [hu, Pc.writing]
          · have := hh.writing u
            simp only [reduceCtorEq, iff_false, Bool.not_eq_true] at this
            simp [hu, this, Ne.symm hu]
        · cases hu
          rw [hgp, Function.update_self]
          rfl
      · -- the holder gives it back
        have ht : h = some t := (hh.writing t).mp (by rw [hq]; rfl)
        subst ht
        refine ⟨none, hw', fun u => ?_, fun u hu => by cases hu⟩
        rw [hpc]
        by_cases hu : u = t
        · simp [hu, Pc.writing]
        · have := hh.writing u
          simp only [Option.some.injEq, Ne.symm hu, iff_false, Bool.not_eq_true] at this
          simp [hu, this]
      · obtain ⟨p, hpc, -⟩ := updateFlow_of_step hs
        refine ⟨h, by rw [hrcu, hh.writer], fun u => ?_, fun u hu => by rw [hgp]; exact hh.gp u hu⟩
        rw [← hh.writing u]
        by_cases hu : u = t
        · rw [hu, hq, hq']
        · rw [hpc, Function.update_of_ne hu]
  | reclaim i =>
      obtain ⟨o, x, hi, -⟩ := reclaim_of_step hs
      rw [hcb] at hi
      cases hi

theorem writerIs_of_reachable {s : State (toyRcu τ)}
    (h : (foo (toyRcu τ) .synchronize).Reachable s) : ∃ w, WriterIs s w := by
  have hinv := h.invariant
    (P := fun c : State (toyRcu τ) => (∃ w, WriterIs c w) ∧ ∀ i, c.callbacks i = none) ?_ ?_
  · exact hinv.1
  · rintro c ⟨o, x, hinit⟩
    rw [initFoo_eq_some hinit]
    refine ⟨⟨none, rfl, fun t => ?_, fun t ht => by cases ht⟩, fun _ => rfl⟩
    simp [State.blank, Pc.writing]
  · intro c e d hc hs
    obtain ⟨⟨w, hw⟩, hcb⟩ := hc
    exact ⟨hw.step hcb hs, no_callbacks_of_step hs hcb⟩

/-- The readers of `rcu_gp_mutex` are the threads inside a section. -/
theorem readers_eq [Fintype τ] {s : State (toyRcu τ)} (h : Tracked toyImplements s) :
    RwLock.readers s.rcu = ∑ t, if (s.pc t).reading then 1 else 0 := by
  obtain ⟨d, hrel, hd⟩ := h
  have hrcu : RwLock.readers s.rcu = ∑ t, Sections.depth d.rcu t := hrel.rcu
  rw [hrcu]
  exact Finset.sum_congr rfl fun t _ => by rw [hrel.pc, hd.depth t]

/-! ### The sample with its waiting writers -/

/-- Who goes first at `rcu_gp_mutex` while a writer waits for it. -/
inductive Admission where
  /-- new readers overtake the waiting writer -/
  | readersFirst
  /-- the waiting writer blocks new readers -/
  | writersFirst
deriving DecidableEq, Repr

/-- The toy sample with the threads that wait in `write_lock(&rcu_gp_mutex)`. -/
structure Toy (τ : Type) where
  foo : State (toyRcu τ)
  waiting : Finset τ

/-- A step of the sample, or the arrival of a writer in `write_lock`. -/
inductive ToyEvent (τ : Type) where
  | foo (e : Event τ)
  | wait (t : τ)
deriving DecidableEq, Repr

/-- The thread whose step the event is. -/
def ToyEvent.thread : ToyEvent τ → Option τ
  | .foo (.get t _) => some t
  | .foo (.update t _) => some t
  | .foo (.reclaim _) => none
  | .wait t => some t

/-- The step of the sample in the event. -/
def ToyEvent.sample? : ToyEvent τ → Option (Event τ)
  | .foo e => some e
  | .wait _ => none

/-- `kmalloc` does not fail in this step. -/
def ToyEvent.Allocates : ToyEvent τ → Bool
  | .foo e => e.Allocates
  | .wait _ => true

/-- The rule lets the step pass: a writer takes the lock out of its wait. -/
def Toy.admits (adm : Admission) (s : Toy τ) : Event τ → Bool
  | .get _ .readLock => adm = .readersFirst ∨ s.waiting = ∅
  | .update t .synchronizeStart => t ∈ s.waiting
  | _ => true

/-- The writers that wait after the step. -/
def Toy.stillWaiting (s : Toy τ) : Event τ → Finset τ
  | .update t .synchronizeStart => s.waiting.erase t
  | _ => s.waiting

def toyStep (adm : Admission) (s : Toy τ) : ToyEvent τ → Option (Toy τ)
  | .foo e =>
      if s.admits adm e then
        (step .synchronize s.foo e).map fun c => ⟨c, s.stillWaiting e⟩
      else none
  | .wait t =>
      match s.foo.pc t with
      | .updUnlocked _ =>
          if t ∈ s.waiting then none else some { s with waiting := insert t s.waiting }
      | _ => none

/-- The threads of the sample under the rule, from the state that `init_foo` leaves. -/
def toyFoo (adm : Admission) : Lts (Toy τ) (ToyEvent τ) where
  init s := (foo (toyRcu τ) .synchronize).init s.foo ∧ s.waiting = ∅
  step := toyStep adm

section Machine

variable {adm : Admission}

theorem toyStep_foo {s s' : Toy τ} {e : Event τ}
    (hs : (toyFoo adm).step s (.foo e) = some s') :
    step .synchronize s.foo e = some s'.foo ∧ s'.waiting = s.stillWaiting e := by
  simp only [toyFoo, toyStep] at hs
  split_ifs at hs
  obtain ⟨c, hc, rfl⟩ := Option.map_eq_some_iff.mp hs
  exact ⟨hc, rfl⟩

theorem toyStep_wait {s s' : Toy τ} {t : τ} (hs : (toyFoo adm).step s (.wait t) = some s') :
    (∃ o, s.foo.pc t = .updUnlocked o) ∧ s' = { s with waiting := insert t s.waiting } := by
  simp only [toyFoo, toyStep] at hs
  split at hs
  · rename_i o hpc
    split_ifs at hs
    exact ⟨⟨o, hpc⟩, (Option.some.inj hs).symm⟩
  · cases hs

/-- Either rule only restricts what the sample does. -/
theorem foo_run_of_run {s c : Toy τ} {es : List (ToyEvent τ)}
    (h : (toyFoo adm).run s es = some c) :
    (foo (toyRcu τ) .synchronize).run s.foo (es.filterMap ToyEvent.sample?) = some c.foo := by
  induction es generalizing s with
  | nil => cases h; rfl
  | cons e es ih =>
      rw [Lts.run_cons, Option.bind_eq_some_iff] at h
      obtain ⟨d, hd, hr⟩ := h
      cases e with
      | foo e =>
          rw [List.filterMap_cons_some (f := ToyEvent.sample?) rfl, Lts.run_cons]
          exact Option.bind_eq_some_iff.mpr ⟨d.foo, (toyStep_foo hd).1, ih hr⟩
      | wait t =>
          obtain ⟨-, rfl⟩ := toyStep_wait hd
          rw [List.filterMap_cons_none (f := ToyEvent.sample?) rfl]
          exact ih (s := { s with waiting := insert t s.waiting }) hr

/-- From `toy_synchronize_rcu` a thread goes on through `write_lock` only. -/
theorem synchronizeStart_of_updUnlocked {s s' : State (toyRcu τ)} {t : τ} {a : UpdateStep}
    {o : Ptr} (hs : step .synchronize s (.update t a) = some s')
    (hpc : s.pc t = .updUnlocked o) : a = .synchronizeStart := by
  obtain ⟨p, -, hflow⟩ := updateFlow_of_step hs
  rw [hpc] at hflow
  generalize s'.gblFoo = g, s'.heap = hp, s'.fooMutex = m at hflow
  cases hflow with
  | synchronizeStart => rfl
  | callRcu => cases hs
  | callRcuNull => cases hs

/-- The waiting writers have come as far as `toy_synchronize_rcu`. -/
def Toy.Queued (s : Toy τ) : Prop := ∀ t ∈ s.waiting, ∃ o, s.foo.pc t = .updUnlocked o

theorem Toy.stillWaiting_subset (s : Toy τ) (e : Event τ) : s.stillWaiting e ⊆ s.waiting := by
  unfold Toy.stillWaiting
  split
  · exact Finset.erase_subset _ _
  · exact Finset.Subset.refl _

theorem Toy.Queued.step {s s' : Toy τ} {e : ToyEvent τ} (h : s.Queued)
    (hs : (toyFoo adm).step s e = some s') : s'.Queued := by
  intro u hu
  cases e with
  | foo e =>
      obtain ⟨hf, hw⟩ := toyStep_foo hs
      rw [hw] at hu
      obtain ⟨o, ho⟩ := h u (s.stillWaiting_subset e hu)
      rcases pc_of_step hf u with hpc | ⟨a, -, -, hflow⟩ | ⟨a, rfl, -⟩
      · exact ⟨o, hpc.trans ho⟩
      · rw [ho] at hflow
        cases hflow
      · obtain rfl := synchronizeStart_of_updUnlocked hf ho
        exact absurd rfl (Finset.ne_of_mem_erase hu)
  | wait t =>
      obtain ⟨ht, rfl⟩ := toyStep_wait hs
      rcases Finset.mem_insert.mp hu with rfl | hu
      · exact ht
      · exact h u hu

/-- What holds in every state, whatever `kmalloc` returns. -/
structure Toy.Inv [Fintype τ] (s : Toy τ) : Prop where
  tracked : Tracked toyImplements s.foo
  mutex : MutexHeld s.foo
  writer : ∃ w, WriterIs s.foo w
  fresh : Fresh s.foo
  queued : s.Queued

theorem Toy.inv_of_reachable [Fintype τ] {s : Toy τ} (h : (toyFoo adm).Reachable s) : s.Inv := by
  obtain ⟨s₀, es, h₀, hrun⟩ := h
  have hfoo := foo_run_of_run hrun
  have hreach : (Rcu.foo (toyRcu τ) .synchronize).Reachable s.foo := ⟨_, _, h₀.1, hfoo⟩
  refine ⟨tracked_of_run _ h₀.1 hfoo, mutexHeld_of_reachable hreach,
    writerIs_of_reachable hreach, fresh_of_reachable hreach, ?_⟩
  refine Lts.Reachable.invariant (M := toyFoo adm) ⟨s₀, es, h₀, hrun⟩ ?_
    fun _ _ _ hc hs => hc.step hs
  intro c hc t ht
  rw [hc.2] at ht
  cases ht

/-! ### Progress -/

/-- The event is a step of the thread, and no failing `kmalloc`. -/
def ToyEvent.StepOf (t : τ) (e : ToyEvent τ) : Prop := e.thread = some t ∧ e.Allocates = true

theorem enabled_of_step {s : Toy τ} {t : τ} {e : Event τ}
    (he : ToyEvent.StepOf t (.foo e)) (hadm : s.admits adm e = true)
    (hs : (step .synchronize s.foo e).isSome = true) :
    (toyFoo adm).Enabled ToyEvent.StepOf s t := by
  refine ⟨.foo e, he, ?_⟩
  simp only [toyFoo, toyStep, if_pos hadm, Option.isSome_map, hs]

omit [DecidableEq τ] in
/-- Who holds a lock is inside and does not wait. -/
theorem Pc.inside_of_holding {p : Pc}
    (h : p.locking = true ∨ p.reading = true ∨ p.writing = true) :
    p.inside = true ∧ p.rank = 0 := by
  cases p <;> first | exact ⟨rfl, rfl⟩ | simp [locking, reading, writing] at h

/-- A thread inside that waits for nobody can step. -/
theorem Toy.Inv.enabled_of_rank [Fintype τ] {s : Toy τ} (h : s.Inv) {t : τ}
    (ht : (s.foo.pc t).inside = true) (hr : (s.foo.pc t).rank = 0) :
    (toyFoo adm).Enabled ToyEvent.StepOf s t := by
  cases hpc : s.foo.pc t with
  | idle => rw [hpc] at ht; cases ht
  | oops => rw [hpc] at ht; cases ht
  | getEnter => rw [hpc] at hr; cases hr
  | updAlloced newA newFp => rw [hpc] at hr; cases hr
  | updUnlocked oldFp => rw [hpc] at hr; cases hr
  | getLocked =>
      refine enabled_of_step (e := .get t .dereference) ⟨rfl, rfl⟩ rfl ?_
      simp [step, fooGetA, hpc]
  | getLoaded p =>
      refine enabled_of_step (e := .get t .readA) ⟨rfl, rfl⟩ rfl ?_
      cases p <;> simp [step, fooGetA, hpc]
  | getRead retval =>
      -- the thread is one of the readers that the lock counts
      have hpos : 0 < RwLock.readers s.foo.rcu := by
        rw [readers_eq h.tracked]
        refine Finset.sum_pos' (fun _ _ => Nat.zero_le _) ⟨t, Finset.mem_univ t, ?_⟩
        simp [hpc, Pc.reading]
      refine enabled_of_step (e := .get t .readUnlock) ⟨rfl, rfl⟩ rfl ?_
      simp [step, fooGetA, hpc, toyRcu, toyRcuReadUnlock, RwLock.readUnlock, hpos]
  | getUnlocked retval =>
      refine enabled_of_step (e := .get t (.ret retval)) ⟨rfl, rfl⟩ rfl ?_
      simp [step, fooGetA, hpc]
  | updEnter newA =>
      obtain ⟨n, hn⟩ := h.fresh
      have hunborn := hn n le_rfl
      refine enabled_of_step (e := .update t (.kmalloc (some (n, s.foo.heap.mem n))))
        ⟨rfl, rfl⟩ rfl ?_
      simp [step, fooUpdateA, hpc, Heap.alloc, hunborn]
  | updLocked newA newFp =>
      refine enabled_of_step (e := .update t .dereference) ⟨rfl, rfl⟩ rfl ?_
      simp [step, fooUpdateA, hpc]
  | updLoaded newA newFp oldFp =>
      refine enabled_of_step (e := .update t .copy) ⟨rfl, rfl⟩ rfl ?_
      cases newFp <;> cases oldFp <;> simp [step, fooUpdateA, hpc]
  | updCopied newA newFp oldFp =>
      refine enabled_of_step (e := .update t .storeA) ⟨rfl, rfl⟩ rfl ?_
      cases newFp <;> simp [step, fooUpdateA, hpc]
  | updSet newA newFp oldFp =>
      refine enabled_of_step (e := .update t .assign) ⟨rfl, rfl⟩ rfl ?_
      simp [step, fooUpdateA, hpc]
  | updPublished oldFp =>
      refine enabled_of_step (e := .update t .spinUnlock) ⟨rfl, rfl⟩ rfl ?_
      simp [step, fooUpdateA, hpc]
  | updWaiting oldFp =>
      -- the thread is the writer that the lock knows of
      obtain ⟨w, hw⟩ := h.writer
      have ht' : w = some t := (hw.writing t).mp (by rw [hpc]; rfl)
      have hl : RwLock.writer s.foo.rcu = true := by rw [hw.writer, ht']; rfl
      refine enabled_of_step (e := .update t .synchronizeFinish) ⟨rfl, rfl⟩ rfl ?_
      simp [step, fooUpdateA, hpc, hw.gp t ht', toyRcu, toySynchronizeRcuUnlock,
        smpMbAfterSpinlock, RwLock.writeUnlock, hl]
  | updWaited oldFp =>
      refine enabled_of_step (e := .update t .kfree) ⟨rfl, rfl⟩ rfl ?_
      cases oldFp <;> simp [step, fooUpdateA, hpc]
  | updDone =>
      refine enabled_of_step (e := .update t .ret) ⟨rfl, rfl⟩ rfl ?_
      simp [step, fooUpdateA, hpc]

/-- While a writer holds `rcu_gp_mutex`, some thread inside waits for nobody. -/
theorem Toy.Inv.exists_writer [Fintype τ] {s : Toy τ} (h : s.Inv)
    (hl : RwLock.writer s.foo.rcu = true) :
    ∃ u, (s.foo.pc u).inside = true ∧ (s.foo.pc u).rank = 0 := by
  obtain ⟨w, hw⟩ := h.writer
  rw [hw.writer] at hl
  obtain ⟨u, rfl⟩ := Option.isSome_iff_exists.mp hl
  exact ⟨u, Pc.inside_of_holding (.inr (.inr ((hw.writing u).mpr rfl)))⟩

/-- While readers hold `rcu_gp_mutex`, some thread inside waits for nobody. -/
theorem Toy.Inv.exists_reader [Fintype τ] {s : Toy τ} (h : s.Inv)
    (hr : RwLock.readers s.foo.rcu ≠ 0) :
    ∃ u, (s.foo.pc u).inside = true ∧ (s.foo.pc u).rank = 0 := by
  rw [readers_eq h.tracked] at hr
  obtain ⟨u, -, hu⟩ := Finset.exists_ne_zero_of_sum_ne_zero hr
  exact ⟨u, Pc.inside_of_holding (.inr (.inl (by simpa using hu)))⟩

/-- A thread inside can step, or it waits for one of lower rank, or it spins on a `foo_mutex`
that a killed thread holds. -/
theorem Toy.Inv.enabled_or_waits [Fintype τ] {s : Toy τ} (h : s.Inv) {t : τ}
    (ht : (s.foo.pc t).inside = true) :
    ((toyFoo adm).Enabled ToyEvent.StepOf s t ∨
      ∃ u, (s.foo.pc u).inside = true ∧ (s.foo.pc u).rank < (s.foo.pc t).rank) ∨
    (s.foo.pc t).rank = 3 ∧ ∃ d, s.foo.fooMutex = some d ∧ s.foo.pc d = .oops := by
  cases hpc : s.foo.pc t with
  | getEnter =>
      left
      cases hl : RwLock.writer s.foo.rcu with
      | true =>
          obtain ⟨u, hin, hr⟩ := h.exists_writer hl
          exact .inr ⟨u, hin, by rw [hr]; exact Nat.succ_pos _⟩
      | false =>
          by_cases hadm : s.admits adm (.get t .readLock) = true
          · refine .inl (enabled_of_step ⟨rfl, rfl⟩ hadm ?_)
            simp [step, fooGetA, hpc, toyRcu, toyRcuReadLock, RwLock.readLock, hl]
          · -- a waiting writer blocks the reader
            have hne : s.waiting ≠ ∅ := fun he => hadm (by simp [Toy.admits, he])
            obtain ⟨u, hu⟩ := Finset.nonempty_iff_ne_empty.mpr hne
            obtain ⟨o, ho⟩ := h.queued u hu
            exact .inr ⟨u, by rw [ho]; rfl, by simp [ho, Pc.rank]⟩
  | updAlloced newA newFp =>
      cases hm : s.foo.fooMutex with
      | none =>
          refine .inl (.inl (enabled_of_step (e := .update t .spinLock) ⟨rfl, rfl⟩ rfl ?_))
          simp [step, fooUpdateA, hpc, hm]
      | some d =>
          rcases h.mutex d hm with hd | hd
          · obtain ⟨hin, hr⟩ := Pc.inside_of_holding (.inl hd)
            exact .inl (.inr ⟨d, hin, by rw [hr]; exact Nat.succ_pos _⟩)
          · exact .inr ⟨rfl, d, rfl, hd⟩
  | updUnlocked oldFp =>
      left
      by_cases hwait : t ∈ s.waiting
      · cases hl : RwLock.writer s.foo.rcu with
        | true =>
            obtain ⟨u, hin, hr⟩ := h.exists_writer hl
            exact .inr ⟨u, hin, by rw [hr]; exact Nat.succ_pos _⟩
        | false =>
            by_cases hr : RwLock.readers s.foo.rcu = 0
            · refine .inl (enabled_of_step (e := .update t .synchronizeStart) ⟨rfl, rfl⟩
                (by simp [Toy.admits, hwait]) ?_)
              simp [step, fooUpdateA, hpc, toyRcu, toySynchronizeRcuLock, RwLock.writeLock, hl, hr]
            · obtain ⟨u, hin, hr⟩ := h.exists_reader hr
              exact .inr ⟨u, hin, by rw [hr]; exact Nat.succ_pos _⟩
      · refine .inl ⟨.wait t, ⟨rfl, rfl⟩, ?_⟩
        simp [toyFoo, toyStep, hpc, hwait]
  | _ => exact .inl (.inl (h.enabled_of_rank ht (by rw [hpc]; rfl)))

/-- A step of a thread follows the flow of one of the functions, or begins its wait. -/
theorem flow_of_toyStep {s s' : Toy τ} {t : τ} {e : ToyEvent τ} (he : e.thread = some t)
    (hs : (toyFoo adm).step s e = some s') : (∃ a p, GetFlow s.foo a (s.foo.pc t) p) ∨
      (∃ a p g hp m, UpdateFlow s.foo t a (s.foo.pc t) p g hp m) ∨
      ∃ o, s.foo.pc t = .updUnlocked o := by
  cases e with
  | wait u =>
      cases he
      exact .inr (.inr (toyStep_wait hs).1)
  | foo e =>
      obtain ⟨hf, -⟩ := toyStep_foo hs
      cases e with
      | get u a =>
          cases he
          obtain ⟨p, -, hflow, -⟩ := getFlow_of_step hf
          exact .inl ⟨a, p, hflow⟩
      | update u a =>
          cases he
          obtain ⟨p, -, hflow⟩ := updateFlow_of_step hf
          exact .inr (.inl ⟨a, p, _, _, _, hflow⟩)
      | reclaim i => cases he

/-- A killed thread has no step, nor has one that spins on a taken `foo_mutex`. -/
theorem stuck {s : Toy τ} {t d : τ} (hm : s.foo.fooMutex = some d)
    (ht : s.foo.pc t = .oops ∨ (s.foo.pc t).rank = 3) {e : ToyEvent τ}
    (he : e.thread = some t) : (toyFoo adm).step s e = none := by
  by_contra hne
  obtain ⟨s', hs⟩ := Option.ne_none_iff_exists'.mp hne
  rcases flow_of_toyStep he hs with ⟨a, p, hflow⟩ | ⟨a, p, g, hp, m, hflow⟩ | ⟨o, ho⟩
  · rcases ht with ht | ht
    · exact hflow.ne_oops ht
    · generalize s.foo.pc t = q at hflow ht
      cases hflow <;> cases ht
  · rcases ht with ht | ht
    · exact hflow.ne_oops ht
    · generalize s.foo.pc t = q at hflow ht
      cases hflow with
      | spinLock newA newFp hfree =>
          rw [hm] at hfree
          cases hfree
      | _ => cases ht
  · rw [ho] at ht
    rcases ht with ht | ht <;> cases ht

/-- Whatever `kmalloc` returns: while threads are inside, they are deadlocked exactly when a
killed thread holds `foo_mutex` and each of them spins on it. -/
theorem toyFoo_deadlocked_iff [Fintype τ] {s : Toy τ} (h : (toyFoo adm).Reachable s)
    (hin : ∃ t, (s.foo.pc t).inside = true) :
    (¬ ∃ t, (s.foo.pc t).inside = true ∧ (toyFoo adm).Enabled ToyEvent.StepOf s t) ↔
      (∃ d, s.foo.fooMutex = some d ∧ s.foo.pc d = .oops) ∧
        ∀ t, (s.foo.pc t).inside = true → (s.foo.pc t).rank = 3 := by
  have hinv : s.Inv := Toy.inv_of_reachable h
  constructor
  · intro hdead
    have hspin (t : τ) (ht : (s.foo.pc t).inside = true) : (s.foo.pc t).rank = 3 := by
      by_contra hr
      -- ranks below 3 wait for ranks below 3
      have hwait (u : τ) (hu : (s.foo.pc u).inside = true ∧ (s.foo.pc u).rank < 3) :
          (toyFoo adm).Enabled ToyEvent.StepOf s u ∨ ∃ v, ((s.foo.pc v).inside = true ∧
            (s.foo.pc v).rank < 3) ∧ (s.foo.pc v).rank < (s.foo.pc u).rank := by
        obtain ⟨hu, hlt⟩ := hu
        rcases hinv.enabled_or_waits hu with (he | ⟨v, hv, hvu⟩) | ⟨h3, -⟩
        · exact .inl he
        · exact .inr ⟨v, ⟨hv, by omega⟩, hvu⟩
        · omega
      obtain ⟨u, ⟨hu, -⟩, he⟩ := Lts.exists_enabled (fun u => (s.foo.pc u).rank) hwait
        ⟨ht, lt_of_le_of_ne (Pc.rank_le _) hr⟩
      exact hdead ⟨u, hu, he⟩
    refine ⟨?_, hspin⟩
    obtain ⟨t, ht⟩ := hin
    rcases hinv.enabled_or_waits ht with (he | ⟨u, hu, hlt⟩) | ⟨-, hd⟩
    · exact absurd ⟨t, ht, he⟩ hdead
    · have ht₃ := hspin t ht
      have hu₃ := hspin u hu
      omega
    · exact hd
  · rintro ⟨⟨d, hd, -⟩, hspin⟩ ⟨t, ht, e, he, hs⟩
    rw [stuck hd (.inr (hspin t ht)) he.1] at hs
    cases hs

/-- **Progress of the toy sample.**  In every run in which `kmalloc` does not fail, under
either rule of admission: while a thread is inside `foo_get_a` or `foo_update_a`, one that is
inside has an enabled step. -/
theorem toyFoo_progress [Fintype τ] (adm : Admission) {s₀ s : Toy τ} {es : List (ToyEvent τ)}
    (h₀ : (toyFoo adm).init s₀) (hrun : (toyFoo adm).run s₀ es = some s)
    (hes : ∀ e ∈ es, e.Allocates) (hin : ∃ t, s.foo.pc t ≠ .idle) :
    ∃ t, s.foo.pc t ≠ .idle ∧ (toyFoo adm).Enabled ToyEvent.StepOf s t := by
  have halive (t : τ) : s.foo.pc t ≠ .oops := by
    refine ne_oops_of_run toyImplements h₀.1 (foo_run_of_run hrun) ?_ t
    intro e he
    obtain ⟨e', he', hee⟩ := List.mem_filterMap.mp he
    cases e' with
    | foo f =>
        cases hee
        exact hes _ he'
    | wait t => cases hee
  by_contra hdead
  obtain ⟨t, ht⟩ := hin
  have hiff := toyFoo_deadlocked_iff ⟨s₀, es, h₀, hrun⟩
    ⟨t, (Pc.inside_iff _).mpr ⟨ht, halive t⟩⟩
  obtain ⟨⟨d, -, hd⟩, -⟩ := hiff.mp fun ⟨u, hu, he⟩ =>
    hdead ⟨u, ((Pc.inside_iff _).mp hu).1, he⟩
  exact halive d hd

end Machine

/-- The state that `init_foo` leaves, with nobody in `write_lock`. -/
def toyLoaded (τ : Type) : Toy τ := ⟨loaded _, ∅⟩

/-- The updater 1 waits in `write_lock` for the reader 0, and the reader 2 is at the door. -/
def crowd : List (ToyEvent (Fin 3)) :=
  [.foo (.get 0 .call), .foo (.get 0 .readLock), .foo (.update 1 (.call 7)),
    .foo (.update 1 (.kmalloc (some (1, ⟨⟨1, false⟩, ⟨2, false⟩, ⟨3, false⟩, .raw 4⟩)))),
    .foo (.update 1 .spinLock), .foo (.update 1 .dereference), .foo (.update 1 .copy),
    .foo (.update 1 .storeA), .foo (.update 1 .assign), .foo (.update 1 .spinUnlock), .wait 1,
    .foo (.get 2 .call)]

theorem toyFoo_progress_crowd : ∃ s,
    (toyFoo .writersFirst).run (toyLoaded (Fin 3)) crowd = some s ∧
    ((toyFoo .writersFirst).step s (.foo (.get 2 .readLock))).isNone = true ∧
    ∃ t, s.foo.pc t ≠ .idle ∧ (toyFoo .writersFirst).Enabled ToyEvent.StepOf s t := by
  have hrun : ((toyFoo .writersFirst).run (toyLoaded (Fin 3)) crowd).any (fun s =>
      ((toyFoo .writersFirst).step s (.foo (.get 2 .readLock))).isNone &&
        decide (s.foo.pc 0 ≠ .idle)) = true := by decide +kernel
  obtain ⟨s, hs, h⟩ := (Option.any_eq_true _ _).mp hrun
  obtain ⟨hblocked, hin⟩ := Bool.and_eq_true_iff.mp h
  exact ⟨s, hs, hblocked, toyFoo_progress .writersFirst ⟨⟨0, _, rfl⟩, rfl⟩ hs (by decide)
    ⟨0, of_decide_eq_true hin⟩⟩

/-- The run ends with a thread inside, and no thread has a step any more. -/
def Deadlocks (adm : Admission) (s₀ : Toy τ) (es : List (ToyEvent τ)) : Prop :=
  (toyFoo adm).init s₀ ∧ ∃ s, (toyFoo adm).run s₀ es = some s ∧
    (∃ t, (s.foo.pc t).inside = true) ∧ ∀ t e, e.thread = some t → (toyFoo adm).step s e = none

/-- `kmalloc` fails for the updater `t`, which is killed at `*new_fp = *old_fp`; then the updater
`u` comes. -/
def unchecked (t u : τ) : List (ToyEvent τ) :=
  [.foo (.update t (.call 7)), .foo (.update t (.kmalloc none)), .foo (.update t .spinLock),
    .foo (.update t .dereference), .foo (.update t .copy), .foo (.update u (.call 8)),
    .foo (.update u (.kmalloc (some (1, ⟨⟨1, false⟩, ⟨2, false⟩, ⟨3, false⟩, .raw 4⟩))))]

/-- The updater 1 is alive, but the killed updater 0 has `foo_mutex`. -/
theorem unchecked_deadlocks : Deadlocks .readersFirst (toyLoaded (Fin 2)) (unchecked 0 1) ∧
    Deadlocks .writersFirst (toyLoaded (Fin 2)) (unchecked 0 1) := by
  have hdead (adm : Admission) : Deadlocks adm (toyLoaded (Fin 2)) (unchecked 0 1) := by
    refine ⟨⟨⟨0, _, rfl⟩, rfl⟩, _, rfl, ⟨1, rfl⟩, fun t e he => stuck (d := 0) rfl ?_ he⟩
    match t with
    | 0 => exact .inl rfl
    | 1 => exact .inr rfl
  exact ⟨hdead .readersFirst, hdead .writersFirst⟩

end KernelMemo.Rcu
