import KernelMemo.Rcu.FooRefinement

/-! # Memory safety of the samples

* **Allocation.**  `State.Allocated` says that no updater goes on with a `NULL` from `kmalloc`;
  it holds as long as `kmalloc` succeeds, and then `accesses_safe`: every access of every step
  goes to an allocated object.
* **Frees.**  `kfreed` records the objects that a step gives back.  What is freed stays freed,
  and only allocated objects are given back, so nothing is freed twice.
* **Publication.**  Once an object is `Published`, no updater ever holds it as its `new_fp`
  again, so no step writes it but `call_rcu`, and that only its `rcu_head`.
* **Deferral.**  In `sample_call_rcu.c` every replaced object is on its way to `call_rcu` or
  was handed to it, once. -/

namespace KernelMemo.Rcu

open GracePeriod

/-! ### What one step does to an object

The facts about single steps that the runs below are built from. -/

/-- `new_fp` is an object, as it is when `kmalloc` succeeded. -/
def Pc.Allocated : Pc → Prop
  | updAlloced _ n => n ≠ none
  | updLocked _ n => n ≠ none
  | updLoaded _ n _ => n ≠ none
  | _ => True

section Flow

variable {τ : Type} {A : Api τ} {s : State A}

theorem GetFlow.allocated {a : GetStep} {q p : Pc} (h : GetFlow s a q p) : p.Allocated := by
  cases h <;> trivial

theorem GetFlow.newFp {a : GetStep} {q p : Pc} (h : GetFlow s a q p) : p.newFp = none := by
  cases h <;> rfl

theorem GetFlow.oldFp {a : GetStep} {q p : Pc} (h : GetFlow s a q p) :
    p.oldFp = none ∧ q.oldFp = none := by
  cases h <;> exact ⟨rfl, rfl⟩

theorem GetFlow.ne_oops {a : GetStep} {q p : Pc} (h : GetFlow s a q p) : q ≠ .oops := by
  cases h <;> simp

variable {t : τ} {a : UpdateStep} {q p : Pc} {g : Ptr} {hp : Heap Foo} {m : Option τ}
  (h : UpdateFlow s t a q p g hp m)
include h

theorem UpdateFlow.ne_oops : q ≠ .oops := by
  cases h <;> simp

theorem UpdateFlow.allocated (hq : q.Allocated) (ha : (Event.update t a).Allocates) :
    p.Allocated := by
  cases h with
  | kmallocFails => cases ha
  | kmalloc => simp [Pc.Allocated]
  | spinLock => exact hq
  | dereference => exact hq
  | _ => trivial

/-- An object changes its life when it is handed out and when it is given back. -/
theorem UpdateFlow.life (o : Obj) :
    hp.life o = s.heap.life o ∨ s.heap.life o = .unborn ∧ hp.life o = .live ∨
      a = .kfree ∧ q = .updWaited (some o) ∧ hp.life o = .freed := by
  cases h with
  | kmalloc newA n x hp halloc =>
      by_cases ho : o = n
      · subst ho
        exact .inr (.inl ⟨Heap.alloc_unborn halloc, Heap.alloc_life_self halloc⟩)
      · exact .inl (Heap.alloc_life_of_ne halloc ho)
  | kfree n =>
      by_cases ho : o = n
      · exact .inr (.inr (by simp [ho]))
      · exact .inl (Heap.free_life_of_ne _ ho)
  | _ => exact .inl rfl

theorem UpdateFlow.newFp {o : Obj} (ho : p.newFp = some o) :
    q.newFp = some o ∨ s.heap.life o = .unborn := by
  cases h with
  | kmalloc newA n x hp halloc =>
      cases ho
      exact .inr (Heap.alloc_unborn halloc)
  | spinLock => exact .inl ho
  | dereference => exact .inl ho
  | copy => exact .inl ho
  | storeA => exact .inl ho
  | _ => cases ho

/-- The object that the updater has to reclaim comes with `rcu_assign_pointer` and goes with
`call_rcu` or `kfree`. -/
theorem UpdateFlow.oldFp :
    (p.oldFp = q.oldFp ∧ a ≠ .assign ∧ (a = .callRcu → q = .updUnlocked none)) ∨
    (∃ newA newFp oldFp, a = .assign ∧ q = .updSet newA newFp oldFp ∧ p = .updPublished oldFp) ∨
    (∃ o, a = .callRcu ∧ q = .updUnlocked (some o) ∧ p = .updDone) ∨
    ∃ o, a = .kfree ∧ q = .updWaited (some o) ∧ p = .updDone := by
  cases h with
  | assign => exact .inr (.inl ⟨_, _, _, rfl, rfl, rfl⟩)
  | callRcu o => exact .inr (.inr (.inl ⟨o, rfl, rfl, rfl⟩))
  | kfree o => exact .inr (.inr (.inr ⟨o, rfl, rfl, rfl⟩))
  | callRcuNull => exact .inl ⟨rfl, by simp, fun _ => rfl⟩
  | _ => exact .inl ⟨rfl, by simp, by simp⟩

theorem UpdateFlow.gblFoo : a ≠ .assign ∧ g = s.gblFoo ∨ a = .assign ∧ g = q.newFp := by
  cases h with
  | assign => exact .inr ⟨rfl, rfl⟩
  | _ => exact .inl ⟨by simp, rfl⟩

/-- An object that is no `new_fp` is written by `call_rcu` only, and that its `rcu_head`. -/
theorem UpdateFlow.mem {o : Obj} (hborn : s.heap.life o ≠ .unborn) (hnew : q.newFp ≠ some o) :
    hp.mem o = s.heap.mem o ∨ a = .callRcu ∧ q = .updUnlocked (some o) ∧
      hp.mem o = { s.heap.mem o with rcu := .fooReclaim } := by
  cases h with
  | kmalloc newA n x hp halloc =>
      refine .inl (Heap.alloc_mem_of_ne halloc ?_)
      rintro rfl
      exact hborn (Heap.alloc_unborn halloc)
  | copy newA n o' =>
      refine .inl (Heap.write_mem_of_ne _ _ ?_)
      rintro rfl
      exact hnew rfl
  | storeA newA n oldFp =>
      refine .inl (Heap.write_mem_of_ne _ _ ?_)
      rintro rfl
      exact hnew rfl
  | callRcu n =>
      by_cases ho : o = n
      · subst ho
        exact .inr ⟨rfl, rfl, by simp⟩
      · exact .inl (Heap.write_mem_of_ne _ _ ho)
  | _ => exact .inl rfl

end Flow

variable {τ : Type} [DecidableEq τ] {A : Api τ}

/-! ### Allocation -/

/-- No updater goes on with a `NULL` from `kmalloc`. -/
def State.Allocated (s : State A) : Prop := ∀ t, (s.pc t).Allocated

theorem State.Allocated.step {v : Reclaim} {s s' : State A} {e : Event τ} (h : s.Allocated)
    (he : e.Allocates) (hs : step v s e = some s') : s'.Allocated := by
  intro u
  rcases pc_of_step hs u with hpc | ⟨a, -, -, hflow⟩ | ⟨a, rfl, hflow⟩
  · rw [hpc]
    exact h u
  · exact hflow.allocated
  · exact hflow.allocated (h u) he

omit [DecidableEq τ] in
theorem allocated_initFoo {o : Obj} {x : Foo} {s : State A}
    (h : initFoo (State.blank A) o x = some s) : s.Allocated := by
  rw [initFoo_eq_some h]
  exact fun _ => trivial

theorem allocated_of_run {v : Reclaim} {s₀ s : State A} {es : List (Event τ)}
    (h₀ : (foo A v).init s₀) (h : (foo A v).run s₀ es = some s) (hes : ∀ e ∈ es, e.Allocates) :
    s.Allocated := by
  obtain ⟨o, x, hinit⟩ := h₀
  exact Lts.run_invariant (P := State.Allocated) (fun _ _ _ he hc hs => hc.step he hs) hes h
    (allocated_initFoo hinit)

/-- A step goes to allocated objects, unless it copies to the `NULL` of a `kmalloc`. -/
theorem accesses_safe_of [Fintype τ] {R : Implements A} {s : State A} (h : Tracked R s)
    {e : Event τ} (ha : ∀ t, e = .update t .copy → (s.pc t).Allocated) {x : Access}
    (hx : x ∈ accesses s e) : x.Safe s.heap := by
  have hlive {w : Owner τ} {o : Obj} (hw : s.owns w = some o) : s.heap.Live o :=
    h.ledger.live_of_owns hw
  simp only [accesses] at hx
  split at hx
  · split at hx
    · rename_i t _ p hpc
      obtain rfl := List.mem_singleton.mp hx
      obtain ⟨o, w, rfl, hw, -⟩ := h.getLoaded hpc
      exact ⟨o, rfl, hlive hw⟩
    · cases hx
  · split at hx
    · rename_i t _ newA newFp oldFp hpc
      have hnew := ha t rfl
      rw [hpc] at hnew
      obtain ⟨n, rfl⟩ := Option.ne_none_iff_exists'.mp hnew
      obtain ⟨g, hg, hglive, -⟩ := h.gbl
      have hold : oldFp = some g := (h.updLoaded hpc).trans hg
      rcases List.mem_cons.mp hx with rfl | hx
      · exact ⟨g, hold, hglive⟩
      · obtain rfl := List.mem_singleton.mp hx
        exact ⟨n, rfl, hlive (w := .newFp t) (by simp [State.owns, hpc, Pc.newFp])⟩
    · cases hx
  · split at hx
    · rename_i t _ newA newFp oldFp hpc
      obtain rfl := List.mem_singleton.mp hx
      obtain ⟨n, rfl⟩ := Option.ne_none_iff_exists'.mp (h.updCopied hpc)
      exact ⟨n, rfl, hlive (w := .newFp t) (by simp [State.owns, hpc, Pc.newFp])⟩
    · cases hx
  · split at hx
    · rename_i t _ oldFp hpc
      obtain rfl := List.mem_singleton.mp hx
      obtain ⟨o, rfl, ho⟩ := h.oldFp (.inr (.inr (.inr hpc)))
      exact ⟨o, rfl, hlive ho⟩
    · cases hx
  · split at hx
    · rename_i t _ oldFp hpc
      obtain rfl := List.mem_singleton.mp hx
      obtain ⟨o, rfl, ho⟩ := h.oldFp (.inr (.inl hpc))
      exact ⟨o, rfl, hlive ho⟩
    · cases hx
  · split at hx
    · rename_i i _ o _ hi
      have ho : s.owns (.callback i) = some o := by simp [State.owns, hi]
      rcases List.mem_cons.mp hx with rfl | hx
      · exact ⟨o, rfl, hlive ho⟩
      · obtain rfl := List.mem_singleton.mp hx
        exact ⟨o, rfl, hlive ho⟩
    · cases hx
  · cases hx

/-- Every access of every step goes to an allocated object. -/
theorem accesses_safe [Fintype τ] {R : Implements A} {s : State A} (h : Tracked R s)
    (ha : s.Allocated) {e : Event τ} {x : Access} (hx : x ∈ accesses s e) : x.Safe s.heap :=
  accesses_safe_of h (fun t _ => ha t) hx

/-! ### Frees -/

/-- The object that an access gives back. -/
def Access.freed : Access → Option Obj
  | free p => p
  | _ => none

/-- The objects that a step gives back. -/
def kfreed (s : State A) (e : Event τ) : List Obj := (accesses s e).filterMap Access.freed

omit [DecidableEq τ] in
theorem nodup_kfreed (s : State A) (e : Event τ) : (kfreed s e).Nodup := by
  simp only [kfreed, accesses]
  split
  all_goals try split
  all_goals simp [Access.freed, List.filterMap_cons]
  split <;> simp

omit [DecidableEq τ] in
theorem mem_kfreed {s : State A} {e : Event τ} {o : Obj} : o ∈ kfreed s e ↔
    (∃ t, e = .update t .kfree ∧ s.pc t = .updWaited (some o)) ∨
      ∃ i x, e = .reclaim i ∧ s.callbacks i = some (o, x) := by
  constructor
  · intro ho
    simp only [kfreed, accesses] at ho
    split at ho <;> (try split at ho) <;>
      simp_all [Access.freed]
  · rintro (⟨t, rfl, hpc⟩ | ⟨i, x, rfl, hi⟩)
    · simp [kfreed, accesses, hpc, Access.freed]
    · simp [kfreed, accesses, hi, Access.freed]

theorem live_of_mem_kfreed [Fintype τ] {R : Implements A} {s : State A} (h : Tracked R s)
    {e : Event τ} {o : Obj} (ho : o ∈ kfreed s e) : s.heap.Live o := by
  rcases mem_kfreed.mp ho with ⟨t, -, hpc⟩ | ⟨i, x, -, hi⟩
  · exact h.ledger.live_of_owns (w := .oldFp t) (by simp [State.owns, hpc, Pc.oldFp])
  · exact h.ledger.live_of_owns (w := .callback i) (by simp [State.owns, hi])

theorem life_of_step {v : Reclaim} {s s' : State A} {e : Event τ} (hs : step v s e = some s')
    (o : Obj) : s'.heap.life o = s.heap.life o ∨
      s.heap.life o = .unborn ∧ s'.heap.life o = .live ∨
      o ∈ kfreed s e ∧ s'.heap.life o = .freed := by
  cases e with
  | get t a =>
      obtain ⟨p, -, -, -, hheap, -⟩ := getFlow_of_step hs
      exact .inl (by rw [hheap])
  | update t a =>
      obtain ⟨p, -, hflow⟩ := updateFlow_of_step hs
      rcases hflow.life o with hl | hl | ⟨rfl, hq, hl⟩
      · exact .inl hl
      · exact .inr (.inl hl)
      · exact .inr (.inr ⟨mem_kfreed.mpr (.inl ⟨t, rfl, hq⟩), hl⟩)
  | reclaim i =>
      obtain ⟨n, x, hi, hheap, -⟩ := reclaim_of_step hs
      rw [hheap]
      by_cases ho : o = n
      · subst ho
        exact .inr (.inr ⟨mem_kfreed.mpr (.inr ⟨i, x, rfl, hi⟩), by simp⟩)
      · exact .inl (Heap.free_life_of_ne _ ho)

theorem freed_of_step {v : Reclaim} {s s' : State A} {e : Event τ} (hs : step v s e = some s')
    {o : Obj} (ho : o ∈ kfreed s e) : s'.heap.life o = .freed := by
  rcases mem_kfreed.mp ho with ⟨t, rfl, hpc⟩ | ⟨i, x, rfl, hi⟩
  · obtain ⟨p, -, hflow⟩ := updateFlow_of_step hs
    rw [hpc] at hflow
    generalize s'.gblFoo = g, s'.heap = hp, s'.fooMutex = m at hflow ⊢
    cases hflow
    simp
  · obtain ⟨n, x', hi', hheap, -⟩ := reclaim_of_step hs
    rw [hi] at hi'
    cases hi'
    rw [hheap, Heap.free_life_self]

/-- The objects given back along a run are freed, and none was given back twice. -/
theorem kfreed_of_run [Fintype τ] (R : Implements A) {v : Reclaim} {s₀ s : State A}
    {es : List (Event τ)} (h₀ : (foo A v).init s₀) (h : (foo A v).run s₀ es = some s) :
    (∀ o, o ∈ (foo A v).collect kfreed s₀ es → s.heap.life o = .freed) ∧
      ((foo A v).collect kfreed s₀ es).Nodup := by
  refine Lts.run_history (P := fun es c =>
    (∀ o, o ∈ (foo A v).collect kfreed s₀ es → c.heap.life o = .freed) ∧
      ((foo A v).collect kfreed s₀ es).Nodup) (by simp [Lts.collect]) ?_ h
  intro es c e d hc hprev hs
  obtain ⟨hfreed, hnodup⟩ := hprev
  rw [Lts.collect_snoc _ hc]
  have htr : Tracked R c := tracked_of_run R h₀ hc
  refine ⟨fun o ho => ?_, List.nodup_append.mpr ⟨hnodup, nodup_kfreed c e, ?_⟩⟩
  · rcases List.mem_append.mp ho with ho | ho
    · have hl := hfreed o ho
      rcases life_of_step hs o with hd | ⟨hd, -⟩ | ⟨-, hd⟩
      · rw [hd, hl]
      · rw [hl] at hd
        cases hd
      · exact hd
    · exact freed_of_step hs ho
  · rintro o ho p hp rfl
    have hl := hfreed o ho
    rw [live_of_mem_kfreed htr hp] at hl
    cases hl

/-! ### Publication -/

/-- The object was handed out by `kmalloc`, and no updater has it as its `new_fp`. -/
def Published (s : State A) (o : Obj) : Prop :=
  s.heap.life o ≠ .unborn ∧ ∀ t, (s.pc t).newFp ≠ some o

theorem Published.of_owns [Fintype τ] {R : Implements A} {s : State A} (h : Tracked R s)
    {w : Owner τ} {o : Obj} (hw : s.owns w = some o) (hne : ∀ t, w ≠ .newFp t) :
    Published s o := by
  refine ⟨by rw [h.ledger.live_of_owns hw]; simp, fun t ht => ?_⟩
  exact hne t (h.ledger.unique hw (z := .newFp t) ht)

/-- Published objects stay published. -/
theorem Published.step {v : Reclaim} {s s' : State A} {e : Event τ} {o : Obj}
    (h : Published s o) (hs : step v s e = some s') : Published s' o := by
  obtain ⟨hborn, hnew⟩ := h
  refine ⟨?_, fun u hu => ?_⟩
  · rcases life_of_step hs o with hl | ⟨-, hl⟩ | ⟨-, hl⟩ <;> rw [hl]
    exacts [hborn, by simp, by simp]
  · rcases pc_of_step hs u with hpc | ⟨a, -, -, hflow⟩ | ⟨a, -, hflow⟩
    · rw [hpc] at hu
      exact hnew u hu
    · rw [hflow.newFp] at hu
      cases hu
    · rcases hflow.newFp hu with hq | hq
      · exact hnew u hq
      · exact hborn hq

/-- A published object is written by `call_rcu` only, and that its `rcu_head`. -/
theorem Published.mem {v : Reclaim} {s s' : State A} {e : Event τ} {o : Obj}
    (h : Published s o) (hs : Rcu.step v s e = some s') : s'.heap.mem o = s.heap.mem o ∨
      ∃ t, e = .update t .callRcu ∧ s.pc t = .updUnlocked (some o) ∧
        s'.heap.mem o = { s.heap.mem o with rcu := .fooReclaim } := by
  cases e with
  | get t a =>
      obtain ⟨p, -, -, -, hheap, -⟩ := getFlow_of_step hs
      exact .inl (by rw [hheap])
  | update t a =>
      obtain ⟨p, -, hflow⟩ := updateFlow_of_step hs
      rcases hflow.mem h.1 (h.2 t) with hm | ⟨rfl, hq, hm⟩
      · exact .inl hm
      · exact .inr ⟨t, rfl, hq, hm⟩
  | reclaim i =>
      obtain ⟨n, x, -, hheap, -⟩ := reclaim_of_step hs
      exact .inl (by rw [hheap, Heap.free_mem])

omit [DecidableEq τ] in
/-- The only writes to a published object are those of `call_rcu`. -/
theorem Published.not_written {s : State A} {e : Event τ} {o : Obj} (h : Published s o)
    (hx : Access.write (some o) ∈ accesses s e) : ∃ t, e = .update t .callRcu := by
  simp only [accesses] at hx
  split at hx <;> (try split at hx) <;>
    simp only [List.mem_cons, List.not_mem_nil, or_false, false_or, reduceCtorEq,
      Access.write.injEq] at hx
  · rename_i t _ newA newFp oldFp hpc
    exact absurd (by rw [hpc, hx]; rfl) (h.2 t)
  · rename_i t _ newA newFp oldFp hpc
    exact absurd (by rw [hpc, hx]; rfl) (h.2 t)
  · rename_i t _ oldFp hpc
    exact ⟨t, rfl⟩

theorem Published.of_run {v : Reclaim} {s c : State A} {fs : List (Event τ)} {o : Obj}
    (h : Published s o) (hrun : (foo A v).run s fs = some c) : Published c o :=
  Lts.run_invariant (P := fun c => Published c o) (E := fun _ => True)
    (fun _ _ _ _ hc hs => hc.step hs) (fun _ _ => trivial) hrun h

/-! ### The toy RCU client -/

/-- `rcu/toy_impl/sample_use.c` with any number of threads: in every reachable state every
access goes to an allocated object, nothing was given to `kfree` twice, and the object of
`gbl_foo` is allocated, has `a` set and is never written again. -/
theorem toy_no_use_after_free [Fintype τ] {s₀ s : State (toyRcu τ)} {es : List (Event τ)}
    (h₀ : (foo (toyRcu τ) .synchronize).init s₀)
    (hrun : (foo (toyRcu τ) .synchronize).run s₀ es = some s) (hes : ∀ e ∈ es, e.Allocates) :
    (∀ e x, x ∈ accesses s e → x.Safe s.heap) ∧
    ((foo (toyRcu τ) .synchronize).collect kfreed s₀ es).Nodup ∧
    ∃ g, s.gblFoo = some g ∧ s.heap.Live g ∧ (s.heap.mem g).a.written = true ∧
      ∀ fs c, (foo (toyRcu τ) .synchronize).run s fs = some c →
        ∀ e c', step .synchronize c e = some c' → .write (some g) ∉ accesses c e := by
  have htr : Tracked toyImplements s := tracked_of_run _ h₀ hrun
  obtain ⟨g, hg, hlive, hwritten⟩ := htr.gbl
  refine ⟨fun e x hx => accesses_safe htr (allocated_of_run h₀ hrun hes) hx,
    (kfreed_of_run toyImplements h₀ hrun).2, g, hg, hlive, hwritten, ?_⟩
  intro fs c hfs e c' hs hx
  have hpub : Published s g := .of_owns htr (w := .gbl) hg (by simp)
  obtain ⟨t, rfl⟩ := (hpub.of_run hfs).not_written hx
  -- the toy client has no `call_rcu`
  simp only [step, fooUpdateA, reduceCtorEq] at hs

theorem toy_no_use_after_free_overlap :
    ∃ s, (foo (toyRcu (Fin 2)) .synchronize).run (loaded _) (overlap .synchronize) = some s ∧
      (∀ e x, x ∈ accesses s e → x.Safe s.heap) ∧
      ((foo (toyRcu (Fin 2)) .synchronize).collect kfreed (loaded _)
        (overlap .synchronize)).Nodup ∧
      ∃ g, s.gblFoo = some g ∧ s.heap.Live g ∧ (s.heap.mem g).a.written = true ∧
        ∀ fs c, (foo (toyRcu (Fin 2)) .synchronize).run s fs = some c →
          ∀ e c', step .synchronize c e = some c' → .write (some g) ∉ accesses c e :=
  ⟨_, rfl, toy_no_use_after_free ⟨0, _, rfl⟩ rfl (by simp [overlap, Event.Allocates])⟩

/-! ### The `call_rcu` sample -/

/-- The object that a step replaces as `gbl_foo`. -/
def replaced (s : State A) : Event τ → List Obj
  | .update t .assign =>
      match s.pc t with
      | .updSet _ _ _ => s.gblFoo.toList
      | _ => []
  | _ => []

/-- The object that a step passes to `call_rcu`. -/
def handed (s : State A) : Event τ → List Obj
  | .update t .callRcu =>
      match s.pc t with
      | .updUnlocked oldFp => oldFp.toList
      | _ => []
  | _ => []

/-- Inside or behind `synchronize_rcu`. -/
def Pc.waiting : Pc → Bool
  | updWaiting _ => true
  | updWaited _ => true
  | _ => false

theorem GetFlow.not_waiting {τ : Type} {A : Api τ} {s : State A} {a : GetStep} {q p : Pc}
    (h : GetFlow s a q p) : p.waiting = false := by
  cases h <;> rfl

theorem UpdateFlow.waiting {τ : Type} {A : Api τ} {s : State A} {t : τ} {a : UpdateStep}
    {q p : Pc} {g : Ptr} {hp : Heap Foo} {m : Option τ} (h : UpdateFlow s t a q p g hp m)
    (hp : p.waiting) : q.waiting ∨ a = .synchronizeStart := by
  cases h with
  | synchronizeStart => exact .inr rfl
  | synchronizeFinish => exact .inl rfl
  | _ => cases hp

theorem not_waiting_of_run {s₀ s : State A} {es : List (Event τ)} (h₀ : (foo A .callRcu).init s₀)
    (h : (foo A .callRcu).run s₀ es = some s) (t : τ) : (s.pc t).waiting = false := by
  have hstep (c : State A) (e : Event τ) (d : State A) (_ : True)
      (hc : ∀ t, (c.pc t).waiting = false) (hs : step .callRcu c e = some d) :
      ∀ t, (d.pc t).waiting = false := by
    intro u
    rcases pc_of_step hs u with hpc | ⟨a, -, -, hflow⟩ | ⟨a, rfl, hflow⟩
    · rw [hpc]
      exact hc u
    · exact hflow.not_waiting
    · by_contra hw
      rcases hflow.waiting (by simpa using hw) with hq | rfl
      · rw [hc u] at hq
        cases hq
      · simp only [step, fooUpdateA, reduceCtorEq] at hs
  obtain ⟨o, x, hinit⟩ := h₀
  refine Lts.run_invariant (P := fun c => ∀ t, (c.pc t).waiting = false) (E := fun _ => True)
    hstep (fun _ _ => trivial) h ?_ t
  rw [initFoo_eq_some hinit]
  exact fun _ => rfl

theorem oldFp_of_step [Fintype τ] {R : Implements A} {s s' : State A} {e : Event τ}
    (h : Tracked R s) (hwait : ∀ t, (s.pc t).waiting = false)
    (hs : step .callRcu s e = some s') :
    (replaced s e = [] ∧ handed s e = [] ∧ ∀ u, (s'.pc u).oldFp = (s.pc u).oldFp) ∨
    (∃ t g, s.gblFoo = some g ∧ (s.pc t).oldFp = none ∧ replaced s e = [g] ∧ handed s e = [] ∧
      ∀ u, (s'.pc u).oldFp = if u = t then some g else (s.pc u).oldFp) ∨
    ∃ t o, (s.pc t).oldFp = some o ∧ s'.gblFoo = s.gblFoo ∧ replaced s e = [] ∧
      handed s e = [o] ∧ ∀ u, (s'.pc u).oldFp = if u = t then none else (s.pc u).oldFp := by
  cases e with
  | get t a =>
      obtain ⟨p, hpc, hflow, -⟩ := getFlow_of_step hs
      refine .inl ⟨rfl, rfl, fun u => ?_⟩
      by_cases hu : u = t
      · rw [hpc, hu, Function.update_self, hflow.oldFp.1, hflow.oldFp.2]
      · rw [hpc, Function.update_of_ne hu]
  | update t a =>
      obtain ⟨p, hpc, hflow⟩ := updateFlow_of_step hs
      have hother (u : τ) : (s'.pc u).oldFp = if u = t then p.oldFp else (s.pc u).oldFp := by
        by_cases hu : u = t <;> simp [hpc, hu]
      rcases hflow.oldFp with ⟨hp, hassign, hcall⟩ | ⟨newA, newFp, oldFp, rfl, hq, rfl⟩ |
          ⟨o, rfl, hq, rfl⟩ | ⟨o, rfl, hq, -⟩
      · refine .inl ⟨?_, ?_, fun u => ?_⟩
        · cases a <;> first | rfl | exact absurd rfl hassign
        · cases a <;> first | rfl | skip
          simp only [handed]
          split
          · rename_i oldFp hq
            rw [hcall rfl] at hq
            cases hq
            rfl
          · rfl
        · rw [hother]
          split_ifs with hu
          · rw [hp, hu]
          · rfl
      · obtain ⟨rfl, n, g, rfl, hg, -⟩ := h.updSet hq
        refine .inr (.inl ⟨t, g, hg, by rw [hq]; rfl, by simp [replaced, hq, hg], rfl, fun u => ?_⟩)
        rw [hother, ← hg]
        rfl
      · refine .inr (.inr ⟨t, o, by rw [hq]; rfl, ?_, rfl, by simp [handed, hq], hother⟩)
        exact (hflow.gblFoo.resolve_right (by simp)).2
      · have := hwait t
        rw [hq] at this
        cases this
  | reclaim i =>
      obtain ⟨o, x, -, -, hpc, -⟩ := reclaim_of_step hs
      exact .inl ⟨rfl, rfl, fun u => by rw [hpc]⟩

/-- No thread and no `gbl_foo` has the object any more. -/
def Retired (s : State A) (o : Obj) : Prop :=
  Published s o ∧ s.gblFoo ≠ some o ∧ ∀ t, (s.pc t).oldFp ≠ some o

theorem Retired.step [Fintype τ] {R : Implements A} {s s' : State A} {e : Event τ} {o : Obj}
    (h : Tracked R s) (hwait : ∀ t, (s.pc t).waiting = false) (ho : Retired s o)
    (hs : step .callRcu s e = some s') : Retired s' o := by
  obtain ⟨hpub, hgbl, hold⟩ := ho
  refine ⟨hpub.step hs, ?_, fun u => ?_⟩
  · cases e with
    | get t a =>
        obtain ⟨p, -, -, hg, -⟩ := getFlow_of_step hs
        rwa [hg]
    | update t a =>
        obtain ⟨p, -, hflow⟩ := updateFlow_of_step hs
        rcases hflow.gblFoo with ⟨-, hg⟩ | ⟨-, hg⟩ <;> rw [hg]
        exacts [hgbl, hpub.2 t]
    | reclaim i =>
        obtain ⟨n, x, -, -, -, hg, -⟩ := reclaim_of_step hs
        rwa [hg]
  · rcases oldFp_of_step h hwait hs with ⟨-, -, hu⟩ | ⟨t, g, hg, -, -, -, hu⟩ |
        ⟨t, n, -, -, -, -, hu⟩ <;> rw [hu]
    · exact hold u
    · split_ifs
      · rwa [← hg]
      · exact hold u
    · split_ifs
      · simp
      · exact hold u

/-- The books of the replaced objects: what was replaced is on its way to `call_rcu` or was
handed to it, and nothing is replaced or handed twice. -/
structure Deferral (s : State A) (out handed : List Obj) : Prop where
  nodup_replaced : out.Nodup
  nodup_handed : handed.Nodup
  retired : ∀ o, o ∈ handed → Retired s o
  replaced_iff : ∀ o, o ∈ out ↔ o ∈ handed ∨ ∃ t, (s.pc t).oldFp = some o

theorem Deferral.step [Fintype τ] {R : Implements A} {s s' : State A} {e : Event τ}
    {out back : List Obj} (hd : Deferral s out back) (h : Tracked R s)
    (hwait : ∀ t, (s.pc t).waiting = false) (hs : step .callRcu s e = some s') :
    Deferral s' (out ++ replaced s e) (back ++ handed s e) := by
  obtain ⟨hout, hback, hretired, hiff⟩ := hd
  have hretired' (o : Obj) (ho : o ∈ back) : Retired s' o := (hretired o ho).step h hwait hs
  have hunique {t u : τ} {o : Obj} (ht : (s.pc t).oldFp = some o) (hu : (s.pc u).oldFp = some o) :
      t = u := by
    simpa using h.ledger.unique (w := .oldFp t) (z := .oldFp u) ht hu
  rcases oldFp_of_step h hwait hs with ⟨hr, hh, hu⟩ | ⟨t, g, hg, ht, hr, hh, hu⟩ |
      ⟨t, n, hn, hgbl, hr, hh, hu⟩ <;> rw [hr, hh]
  · simp only [List.append_nil]
    exact ⟨hout, hback, hretired', by simpa only [hu] using hiff⟩
  · -- the object of `gbl_foo` becomes an `old_fp`
    rw [List.append_nil]
    refine ⟨List.nodup_append.mpr ⟨hout, by simp, ?_⟩, hback, hretired', fun o => ?_⟩
    · rintro o ho p hp rfl
      obtain rfl := List.mem_singleton.mp hp
      rcases (hiff o).mp ho with ho | ⟨u, ho⟩
      · exact (hretired o ho).2.1 hg
      · cases h.ledger.unique (w := .gbl) (z := .oldFp u) hg ho
    · rw [List.mem_append, List.mem_singleton, hiff]
      constructor
      · rintro ((ho | ⟨u, ho⟩) | rfl)
        · exact .inl ho
        · have hut : u ≠ t := by
            rintro rfl
            rw [ht] at ho
            cases ho
          exact .inr ⟨u, by rw [hu, if_neg hut, ho]⟩
        · exact .inr ⟨t, by rw [hu, if_pos rfl]⟩
      · rintro (ho | ⟨u, ho⟩)
        · exact .inl (.inl ho)
        · rw [hu] at ho
          split_ifs at ho
          · exact .inr (Option.some.inj ho).symm
          · exact .inl (.inr ⟨u, ho⟩)
  · -- the object of `old_fp` goes to `call_rcu`
    rw [List.append_nil]
    refine ⟨hout, List.nodup_append.mpr ⟨hback, by simp, ?_⟩, fun o ho => ?_, fun o => ?_⟩
    · rintro o ho p hp rfl
      obtain rfl := List.mem_singleton.mp hp
      exact (hretired o ho).2.2 t hn
    · rcases List.mem_append.mp ho with ho | ho
      · exact hretired' o ho
      · obtain rfl := List.mem_singleton.mp ho
        refine ⟨(Published.of_owns h (w := .oldFp t) hn (by simp)).step hs, ?_, fun u hou => ?_⟩
        · rw [hgbl]
          intro hg
          cases h.ledger.unique (w := .gbl) (z := .oldFp t) hg hn
        · rw [hu] at hou
          split_ifs at hou with hut
          exact hut (hunique hou hn)
    · rw [hiff, List.mem_append, List.mem_singleton]
      constructor
      · rintro (ho | ⟨u, ho⟩)
        · exact .inl (.inl ho)
        · by_cases hut : u = t
          · rw [hut, hn] at ho
            exact .inl (.inr (Option.some.inj ho).symm)
          · exact .inr ⟨u, by rw [hu, if_neg hut, ho]⟩
      · rintro ((ho | rfl) | ⟨u, ho⟩)
        · exact .inl ho
        · exact .inr ⟨t, hn⟩
        · rw [hu] at ho
          split_ifs at ho
          exact .inr ⟨u, ho⟩

theorem deferral_of_run [Fintype τ] (R : Implements A) {s₀ s : State A} {es : List (Event τ)}
    (h₀ : (foo A .callRcu).init s₀) (h : (foo A .callRcu).run s₀ es = some s) :
    Deferral s ((foo A .callRcu).collect replaced s₀ es)
      ((foo A .callRcu).collect handed s₀ es) := by
  refine Lts.run_history (P := fun es c => Deferral c ((foo A .callRcu).collect replaced s₀ es)
    ((foo A .callRcu).collect handed s₀ es)) ?_ ?_ h
  · obtain ⟨o, x, hinit⟩ := h₀
    rw [initFoo_eq_some hinit]
    refine ⟨.nil, .nil, by simp [Lts.collect], fun o => ?_⟩
    simp [Lts.collect, State.blank, Pc.oldFp]
  · intro es c e d hc hd hs
    rw [Lts.collect_snoc _ hc, Lts.collect_snoc _ hc]
    exact hd.step (tracked_of_run R h₀ hc) (not_waiting_of_run h₀ hc) hs

/-- An updater that has replaced an object hands it over by its own next steps, which nobody
can block. -/
theorem handed_of_oldFp [Fintype τ] {s : State (documented (τ := τ))} {t : τ} {o : Obj}
    (hwait : ∀ t, (s.pc t).waiting = false) (ho : (s.pc t).oldFp = some o) :
    ∃ fs c, (∀ e ∈ fs, ∃ a, e = .update t a) ∧ (foo documented .callRcu).run s fs = some c ∧
      (foo documented .callRcu).collect handed s fs = [o] := by
  have hcall {s : State (documented (τ := τ))} (hpc : s.pc t = .updUnlocked (some o)) :
      ∃ c, (foo documented .callRcu).run s [.update t .callRcu] = some c ∧
        (foo documented .callRcu).collect handed s [.update t .callRcu] = [o] := by
    obtain ⟨c, hc⟩ : ∃ c, (foo documented .callRcu).step s (.update t .callRcu) = some c := by
      simp only [foo, step, fooUpdateA, hpc]
      exact ⟨_, rfl⟩
    exact ⟨c, by simp [Lts.run_cons, hc], by simp [Lts.collect, hc, handed, hpc]⟩
  have hwt := hwait t
  cases hpc : s.pc t <;> rw [hpc] at ho hwt <;> cases ho <;> try cases hwt
  · have hunlock : (foo documented .callRcu).step s (.update t .spinUnlock) =
        some ({ s with fooMutex := none }.goto t (.updUnlocked (some o))) := by
      simp only [foo, step, fooUpdateA, hpc]
    obtain ⟨c, hc, hcollect⟩ := hcall (s := { s with fooMutex := none }.goto t
      (.updUnlocked (some o))) (State.goto_pc_self _ _ _)
    refine ⟨[.update t .spinUnlock, .update t .callRcu], c, by simp, ?_, ?_⟩
    · rwa [Lts.run_cons, hunlock, Option.bind_some]
    · rw [Lts.collect, hunlock]
      exact hcollect
  · obtain ⟨c, hc, hcollect⟩ := hcall hpc
    exact ⟨_, c, by simp, hc, hcollect⟩

/-- `rcu/use_example/sample_call_rcu.c` with any number of threads.  What `foo_update_a`
replaces goes to `call_rcu` once, when it is not `gbl_foo` any more; the allocated objects are
the disjoint union of what the owners hold; and every access goes to an allocated object. -/
theorem callRcu_deferred_reclamation [Fintype τ] {s₀ s : State (documented (τ := τ))}
    {es : List (Event τ)} (h₀ : (foo documented .callRcu).init s₀)
    (hrun : (foo documented .callRcu).run s₀ es = some s) (hes : ∀ e ∈ es, e.Allocates) :
    ((foo documented .callRcu).collect replaced s₀ es).Nodup ∧
    ((foo documented .callRcu).collect handed s₀ es).Nodup ∧
    (∀ o, o ∈ (foo documented .callRcu).collect replaced s₀ es ↔
      o ∈ (foo documented .callRcu).collect handed s₀ es ∨ ∃ t, (s.pc t).oldFp = some o) ∧
    (∀ o, o ∈ (foo documented .callRcu).collect handed s₀ es →
      s.gblFoo ≠ some o ∧ ∀ t, (s.pc t).oldFp ≠ some o) ∧
    (∀ t o, (s.pc t).oldFp = some o → ∃ fs c, (∀ e ∈ fs, ∃ a, e = .update t a) ∧
      (foo documented .callRcu).run s fs = some c ∧
      (foo documented .callRcu).collect handed s fs = [o]) ∧
    Ledger s.owns s.heap.Live ∧
    ∀ e x, x ∈ accesses s e → x.Safe s.heap := by
  have htr : Tracked .refl s := tracked_of_run _ h₀ hrun
  have hd := deferral_of_run .refl h₀ hrun
  refine ⟨hd.nodup_replaced, hd.nodup_handed, hd.replaced_iff, fun o ho => (hd.retired o ho).2,
    fun t o => handed_of_oldFp (not_waiting_of_run h₀ hrun), htr.ledger, fun e x => ?_⟩
  exact accesses_safe htr (allocated_of_run h₀ hrun hes)

/-- An updater hands over the object that a reader still holds. -/
theorem callRcu_deferred_reclamation_overlap :
    ∃ s, (foo (documented (τ := Fin 2)) .callRcu).run (loaded _) (overlap .callRcu) = some s ∧
      (foo (documented (τ := Fin 2)) .callRcu).collect handed (loaded _) (overlap .callRcu) =
        [0] ∧
      (∀ o, o ∈ (foo (documented (τ := Fin 2)) .callRcu).collect replaced (loaded _)
          (overlap .callRcu) ↔
        o ∈ (foo (documented (τ := Fin 2)) .callRcu).collect handed (loaded _)
          (overlap .callRcu) ∨ ∃ t, (s.pc t).oldFp = some o) ∧
      Ledger s.owns s.heap.Live := by
  have hrun : ((foo (documented (τ := Fin 2)) .callRcu).run (loaded _)
      (overlap .callRcu)).isSome := by decide +kernel
  obtain ⟨s, hs⟩ := Option.isSome_iff_exists.mp hrun
  obtain ⟨-, -, hiff, -, -, hledger, -⟩ := callRcu_deferred_reclamation ⟨0, _, rfl⟩ hs
    (by simp [overlap, Event.Allocates])
  exact ⟨s, hs, by decide +kernel, hiff, hledger⟩

end KernelMemo.Rcu
