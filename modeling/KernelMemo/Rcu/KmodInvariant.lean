import KernelMemo.Rcu.Kmod

/-! # What is allocated while a sample is loaded and after it

`Kmod.Inv` carries the invariant of the threads through `init_sample_` and `exit_sample_`: the
threads run only between their `kthread_run` and the return of their `kthread_stop`, and while
`gbl_foo` is initialised the state of the threads is tracked.  After `exit_sample_` what is
still allocated is what the pending callbacks hold. -/

namespace KernelMemo.Rcu

open GracePeriod

variable {n : ℕ}

namespace Main

/-- From the end of `init_foo` on, up to `kfree(gbl_foo)`. -/
def loaded : Main n → Bool
  | kthreadRun _ => true
  | print _ => true
  | out => true
  | running => true
  | kthreadStop _ => true
  | kthreadWait _ => true
  | kfree => true
  | oops => true
  | _ => false

/-- Nothing has been allocated. -/
def blank : Main n → Bool
  | start => true
  | failed _ => true
  | _ => false

/-- The threads from this index on do not exist. -/
def created : Main n → ℕ
  | start => 0
  | failed _ => 0
  | setA => 0
  | kthreadRun i => i
  | print i => i + 1
  | _ => n

/-- The threads below this index have been stopped. -/
def stopped : Main n → ℕ
  | kthreadStop i => i
  | kthreadWait i => i
  | kfree => n
  | exited => n
  | _ => 0

theorem created_of_blank {m : Main n} (h : m.blank) : m.created = 0 := by
  cases m <;> first | rfl | cases h

theorem loaded_cases {m : Main n} (h : m.loaded) :
    ¬ m.blank ∧ m ≠ setA ∧ m ≠ exited := by
  cases m <;> cases h <;> simp [blank]

theorem initKthread_cases (i : ℕ) (hi : i ≤ n) : (initKthread i : Main n).loaded ∧
    initKthread i ≠ (out : Main n) ∧ (initKthread i : Main n).created = i ∧
    (initKthread i : Main n).stopped = 0 := by
  by_cases h : i < n
  · simp [initKthread, h, loaded, created, stopped]
  · simp [initKthread, loaded, created, stopped, show i = n by omega]

theorem exitSample_cases (i : ℕ) (hi : i ≤ n) : (exitSample i : Main n).loaded ∧
    exitSample i ≠ (out : Main n) ∧ (exitSample i : Main n).created = n ∧
    (exitSample i : Main n).stopped = i := by
  by_cases h : i < n
  · simp [exitSample, h, loaded, created, stopped]
  · simp [exitSample, loaded, created, stopped, show i = n by omega]

end Main

variable {A : Api (Fin n)}

/-- The invariant of a module. -/
structure Kmod.Inv (R : Implements A) (s : Kmod A) : Prop where
  idle : ∀ t, s.thread t ≠ .inside → s.foo.pc t = .idle
  absent : ∀ t : Fin n, s.main.created ≤ t → s.thread t = .absent
  stopped : ∀ t : Fin n, t < s.main.stopped → s.thread t = .exited
  out : s.main ≠ .out
  blank : s.main.blank → s.foo = State.blank A
  setA : s.main = .setA → ∃ o x, initFooKmalloc (State.blank A) o x = some s.foo
  tracked : s.main.loaded → Tracked R s.foo
  exited : s.main = .exited → Ledger (Function.update s.foo.owns .gbl none) s.foo.heap.Live

/-- A step inside `foo_get_a` or `foo_update_a`, or a callback. -/
theorem Kmod.foo_of_step {v : Reclaim} {nr : ℕ} {s s' : Kmod A} {e : Event (Fin n)}
    (hs : s.step v nr (.foo e) = some s') : Rcu.step v s.foo e = some s'.foo ∧
      s'.main = s.main ∧ s'.k = s.k ∧ ((∃ i, e = .reclaim i ∧ s'.thread = s.thread) ∨
        ∃ t q, (s.thread t = .body ∨ s.thread t = .inside) ∧
          s'.thread = Function.update s.thread t q ∧ (q ≠ .inside → s'.foo.pc t = .idle) ∧
          ∀ u, u ≠ t → s'.foo.pc u = s.foo.pc u) := by
  cases e with
  | get t a =>
      simp only [Kmod.step] at hs
      split_ifs at hs
      obtain ⟨q, hq, hs⟩ := Option.bind_eq_some_iff.mp hs
      obtain ⟨f, hf, rfl⟩ := Option.map_eq_some_iff.mp hs
      have hf : Rcu.step v s.foo (.get t a) = some f := hf
      obtain ⟨p, hpc, hflow, -⟩ := getFlow_of_step hf
      refine ⟨hf, rfl, rfl, .inr ⟨t, q, ?_, rfl, fun hne => ?_, fun u hu => ?_⟩⟩
      · cases a <;> simp only [kthreadReader] at hq <;> split_ifs at hq with h
        exacts [.inl h, .inr h, .inr h, .inr h, .inr h, .inr h]
      · cases a <;> simp only [kthreadReader] at hq <;> split_ifs at hq with h <;> cases hq <;>
          try exact absurd rfl hne
        generalize s.foo.pc t = q at hflow
        cases hflow
        simp only [hpc, Function.update_self]
      · simp only [hpc, Function.update_of_ne hu]
  | update t a =>
      simp only [Kmod.step] at hs
      split_ifs at hs
      obtain ⟨q, hq, hs⟩ := Option.bind_eq_some_iff.mp hs
      obtain ⟨f, hf, rfl⟩ := Option.map_eq_some_iff.mp hs
      have hf : Rcu.step v s.foo (.update t a) = some f := hf
      obtain ⟨p, hpc, hflow⟩ := updateFlow_of_step hf
      refine ⟨hf, rfl, rfl, .inr ⟨t, q, ?_, rfl, fun hne => ?_, fun u hu => ?_⟩⟩
      · cases a with
        | call val =>
            simp only [kthreadWriter] at hq
            split_ifs at hq with h
            exact .inl h.1
        | _ =>
            simp only [kthreadWriter] at hq
            split_ifs at hq with h
            exact .inr h
      · cases a <;> simp only [kthreadWriter] at hq <;> split_ifs at hq with h <;> cases hq <;>
          try exact absurd rfl hne
        generalize s.foo.pc t = q, f.gblFoo = g, f.heap = hp, f.fooMutex = m at hflow
        cases hflow
        simp only [hpc, Function.update_self]
      · simp only [hpc, Function.update_of_ne hu]
  | reclaim i =>
      obtain ⟨f, hf, rfl⟩ := Option.map_eq_some_iff.mp hs
      exact ⟨hf, rfl, rfl, .inl ⟨i, rfl, rfl⟩⟩

/-! ### The steps -/

theorem initFooKmalloc_callbacks {o : Obj} {x : Foo} {s : State A}
    (h : initFooKmalloc (State.blank A) o x = some s) (i : ℕ) : s.callbacks i = none := by
  obtain ⟨hp, -, rfl⟩ := Option.map_eq_some_iff.mp h
  rfl

/-- A callback gives its object back, also when `gbl_foo` holds nothing any more. -/
theorem ledger_reclaim {v : Reclaim} {s s' : State A} {i : ℕ}
    (hs : step v s (.reclaim i) = some s')
    (h : Ledger (Function.update s.owns .gbl none) s.heap.Live) :
    Ledger (Function.update s'.owns .gbl none) s'.heap.Live := by
  obtain ⟨o, x, hi, hheap, hpc, -, -, -, hcb⟩ := reclaim_of_step hs
  have hown : Function.update s.owns .gbl none (.callback i) = some o := by
    simp [State.owns, hi]
  rw [hheap]
  refine h.release hown (fun w => ?_) (Heap.free_live _ _)
  cases w with
  | gbl => simp
  | newFp t => simp [State.owns, hpc]
  | oldFp t => simp [State.owns, hpc]
  | callback j => by_cases hj : j = i <;> simp [State.owns, hcb, hj]

variable {R : Implements A} {v : Reclaim} {nr : ℕ} {s s' : Kmod A}

theorem Kmod.Inv.fooStep {e : Event (Fin n)} (h : Inv R s)
    (hs : s.step v nr (.foo e) = some s') : Inv R s' := by
  obtain ⟨hf, hmain, -, hthread⟩ := foo_of_step hs
  -- a thread that makes a step has been created and has not exited
  have hcreated : s.main.created = 0 → ∃ i, e = .reclaim i := by
    intro h0
    rcases hthread with ⟨i, rfl, -⟩ | ⟨t, q, ht, -⟩
    · exact ⟨i, rfl⟩
    · rw [h.absent t (by omega)] at ht
      simp at ht
  have hunloaded : s.main.stopped = n → ∃ i, e = .reclaim i := by
    intro hn
    rcases hthread with ⟨i, rfl, -⟩ | ⟨t, q, ht, -⟩
    · exact ⟨i, rfl⟩
    · rw [h.stopped t (by omega)] at ht
      simp at ht
  have hkeep (u : Fin n) (hu : s.thread u = .absent ∨ s.thread u = .exited) :
      s'.thread u = s.thread u := by
    rcases hthread with ⟨i, rfl, hth⟩ | ⟨t, q, ht, hth, -, -⟩
    · rw [hth]
    · have hut : u ≠ t := by
        rintro rfl
        rcases hu with hu | hu <;> rw [hu] at ht <;> simp at ht
      rw [hth, Function.update_of_ne hut]
  refine ⟨fun u hu => ?_, fun u hu => ?_, fun u hu => ?_, by rw [hmain]; exact h.out,
    fun hm => ?_, fun hm => ?_, fun hm => ?_, fun hm => ?_⟩ <;> try rw [hmain] at hm
  · rcases hthread with ⟨i, rfl, hth⟩ | ⟨t, q, -, hth, hq, hother⟩
    · obtain ⟨o, x, -, -, hpc, -⟩ := reclaim_of_step hf
      rw [hpc]
      exact h.idle u (hth ▸ hu)
    · by_cases hut : u = t
      · subst hut
        rw [hth, Function.update_self] at hu
        exact hq hu
      · rw [hth, Function.update_of_ne hut] at hu
        rw [hother u hut]
        exact h.idle u hu
  · rw [hmain] at hu
    rw [hkeep u (.inl (h.absent u hu)), h.absent u hu]
  · rw [hmain] at hu
    rw [hkeep u (.inr (h.stopped u hu)), h.stopped u hu]
  · obtain ⟨i, rfl⟩ := hcreated (Main.created_of_blank hm)
    obtain ⟨o, x, hi, -⟩ := reclaim_of_step hf
    rw [h.blank hm] at hi
    cases hi
  · obtain ⟨i, rfl⟩ := hcreated (by rw [hm]; rfl)
    obtain ⟨o, x, hi, -⟩ := reclaim_of_step hf
    obtain ⟨_, _, hinit⟩ := h.setA hm
    rw [initFooKmalloc_callbacks hinit i] at hi
    cases hi
  · exact (h.tracked hm).step hf
  · obtain ⟨i, rfl⟩ := hunloaded (by rw [hm]; rfl)
    exact ledger_reclaim hf (h.exited hm)

/-- `kfree(gbl_foo)` in `exit_sample_`: what is left belongs to the callbacks. -/
theorem Kmod.Inv.kfree (h : Inv R s) (hm : s.main = .kfree) :
    Inv R { s with foo := kfreeGblFoo s.foo, main := .exited } := by
  have htr := h.tracked (by rw [hm]; rfl)
  obtain ⟨g, hg, -⟩ := htr.gbl
  have hfoo : kfreeGblFoo s.foo = { s.foo with heap := s.foo.heap.free g } := by
    simp only [kfreeGblFoo, hg]
  rw [hfoo]
  refine ⟨h.idle, fun u hu => absurd u.isLt (Nat.not_lt.mpr hu), fun u _ =>
    h.stopped u (by rw [hm]; exact u.isLt), by simp, by simp [Main.blank], by simp,
    by simp [Main.loaded], fun _ => ?_⟩
  refine htr.ledger.release (w := .gbl) hg (fun w => ?_) (Heap.free_live _ _)
  cases w <;> simp [State.owns]

/-- A step of the loader that leaves the foo state alone and stays in the loaded module. -/
theorem Kmod.Inv.loader (h : Inv R s) (hfoo : s'.foo = s.foo) (hl : s.main.loaded)
    (hl' : s'.main.loaded) (hout : s'.main ≠ .out)
    (hidle : ∀ t, s'.thread t ≠ .inside → s.thread t ≠ .inside)
    (habsent : ∀ t : Fin n, s'.main.created ≤ t → s'.thread t = .absent)
    (hstopped : ∀ t : Fin n, t < s'.main.stopped → s'.thread t = .exited) : Inv R s' := by
  obtain ⟨hblank, hsetA, hexited⟩ := Main.loaded_cases hl'
  exact ⟨fun t ht => hfoo ▸ h.idle t (hidle t ht), habsent, hstopped, hout,
    fun hm => absurd hm hblank, fun hm => absurd hm hsetA, fun _ => hfoo ▸ h.tracked hl,
    fun hm => absurd hm hexited⟩

theorem Kmod.Inv.kmallocFails (h : Inv R s) (hm : s.main = .start) :
    Inv R { s with main := .failed (-1) } :=
  ⟨h.idle, fun u _ => h.absent u (by rw [hm]; exact Nat.zero_le _), by simp [Main.stopped],
    by simp, fun _ => h.blank (by rw [hm]; rfl), by simp, by simp [Main.loaded], by simp⟩

theorem Kmod.Inv.kmalloc (h : Inv R s) (hm : s.main = .start) {o : Obj} {x : Foo} {f : State A}
    (hf : initFooKmalloc s.foo o x = some f) : Inv R { s with foo := f, main := .setA } := by
  rw [h.blank (by rw [hm]; rfl)] at hf
  have hpc : f.pc = (State.blank A).pc := by
    obtain ⟨hp, -, rfl⟩ := Option.map_eq_some_iff.mp hf
    rfl
  exact ⟨fun t _ => by rw [hpc]; rfl,
    fun t _ => h.absent t (by rw [hm]; exact Nat.zero_le _), by simp [Main.stopped],
    by simp, by simp [Main.blank], fun _ => ⟨_, _, hf⟩, by simp [Main.loaded], by simp⟩

theorem Kmod.Inv.initFooSetA (h : Inv R s) (hm : s.main = .setA) {f : State A}
    (hf : Rcu.initFooSetA s.foo = some f) :
    Inv R { s with foo := f, main := .initKthread 0 } := by
  obtain ⟨o, x, hinit⟩ := h.setA hm
  have hfoo : initFoo (State.blank A) o x = some f := by
    rw [initFoo, hinit]
    exact hf
  have htr : Tracked R f := tracked_initFoo R hfoo
  obtain ⟨hl, hout, hc, hst⟩ := Main.initKthread_cases (n := n) 0 (Nat.zero_le _)
  obtain ⟨hblank, hsetA, hexited⟩ := Main.loaded_cases hl
  exact ⟨fun t _ => by rw [initFoo_eq_some hfoo]; rfl,
    fun t _ => h.absent t (by rw [hm]; exact Nat.zero_le _), by simp [hst], hout,
    fun hm => absurd hm hblank, fun hm => absurd hm hsetA, fun _ => htr,
    fun hm => absurd hm hexited⟩

theorem Kmod.Inv.kthreadRun (h : Inv R s) {i : Fin n} (hm : s.main = .kthreadRun i) (ok : Bool) :
    Inv R { s with
      k := Function.update s.k i (if ok then .task else .err)
      thread := if ok then Function.update s.thread i .loop else s.thread
      main := .print i } := by
  refine h.loader rfl (by rw [hm]; rfl) rfl (by simp) (fun t ht hin => ?_) (fun t ht => ?_)
    (fun t ht => absurd ht (Nat.not_lt_zero _))
  · -- a thread that is created now was not inside
    have habsent : s.thread i = .absent := h.absent i (by rw [hm]; exact Nat.le_refl _)
    have hti : t ≠ i := by
      rintro rfl
      rw [habsent] at hin
      cases hin
    cases ok
    · exact ht hin
    · simp only [if_true, Function.update_of_ne hti] at ht
      exact ht hin
  · have ht : i.val + 1 ≤ t.val := ht
    have hti : t ≠ i := by
      rintro rfl
      omega
    have habsent := h.absent t (by rw [hm, Main.created]; omega)
    cases ok
    · exact habsent
    · simpa only [if_true, Function.update_of_ne hti] using habsent

/-- On to the next thread of a loop of the loader. -/
theorem Kmod.Inv.next (h : Inv R s) (hl : s.main.loaded) {m : Main n} {c i : ℕ}
    (hm : m.loaded ∧ m ≠ .out ∧ m.created = c ∧ m.stopped = i)
    (hc : ∀ t : Fin n, c ≤ t → s.thread t = .absent)
    (hi : ∀ t : Fin n, t < i → s.thread t = .exited) : Inv R { s with main := m } := by
  obtain ⟨hl', hout, rfl, rfl⟩ := hm
  exact h.loader rfl hl hl' hout (fun _ ht => ht) hc hi

theorem Kmod.Inv.oops (h : Inv R s) (hl : s.main.loaded) : Inv R { s with main := .oops } :=
  h.next hl (c := n) (i := 0) ⟨rfl, by simp, rfl, rfl⟩
    (fun t ht => absurd t.isLt (Nat.not_lt.mpr ht)) fun t ht => absurd ht (Nat.not_lt_zero _)

theorem Kmod.Inv.shouldStop (h : Inv R s) {t : Fin n} (ht : s.thread t = .loop) :
    Inv R { s with
      thread := Function.update s.thread t (if s.stop t then .exited else .body) } := by
  have hother {u : Fin n} {q : Kthread} (hu : s.thread u = q) (hq : q ≠ .loop) :
      Function.update s.thread t (if s.stop t then .exited else .body) u = q := by
    have hut : u ≠ t := by
      rintro rfl
      exact hq (hu.symm.trans ht)
    rw [Function.update_of_ne hut, hu]
  refine ⟨fun u hu => h.idle u fun hin => hu (hother hin (by simp)),
    fun u hu => hother (h.absent u hu) (by simp), fun u hu => hother (h.stopped u hu) (by simp),
    h.out, h.blank, h.setA, h.tracked, h.exited⟩

/-- Every step of the module keeps the invariant. -/
theorem Kmod.Inv.step {e : KmodEvent n} (h : Inv R s) (hs : s.step v nr e = some s') :
    Inv R s' := by
  have hlast (t : Fin n) (ht : n ≤ t) : s.thread t = .absent :=
    absurd t.isLt (Nat.not_lt.mpr ht)
  rcases flow_of_step hs with ⟨f, rfl⟩ | hflow
  · exact h.fooStep hs
  cases hflow with
  | kmallocFails hm => exact h.kmallocFails hm
  | kmalloc o x f hm hf => exact h.kmalloc hm hf
  | setA f hm hf => exact h.initFooSetA hm hf
  | kthreadRun i ok hm => exact h.kthreadRun hm ok
  | print i hm hk =>
      refine h.next (by rw [hm]; rfl) (Main.initKthread_cases (i + 1) i.isLt) (fun t ht => ?_)
        fun t ht => absurd ht (Nat.not_lt_zero _)
      exact h.absent t (by rw [hm]; exact ht)
  | printErr i hm hk => exact h.oops (by rw [hm]; rfl)
  | rmmod hm =>
      exact h.next (by rw [hm]; rfl) (Main.exitSample_cases 0 (Nat.zero_le _)) hlast
        fun t ht => absurd ht (Nat.not_lt_zero _)
  | kthreadStop i hm hk =>
      exact h.loader rfl (by rw [hm]; rfl) rfl (by simp) (fun _ ht => ht) hlast
        fun t ht => h.stopped t (by rw [hm]; exact ht)
  | kthreadStopErr i hm hk => exact h.oops (by rw [hm]; rfl)
  | kthreadWait i hm hexit =>
      refine h.next (by rw [hm]; rfl) (Main.exitSample_cases (i + 1) i.isLt) hlast fun t ht => ?_
      rcases Nat.lt_succ_iff_lt_or_eq.mp ht with hlt | heq
      · exact h.stopped t (by rw [hm]; exact hlt)
      · rw [Fin.ext heq]
        exact hexit
  | kfree hm => exact h.kfree hm
  | kfreeOut hm => exact absurd hm h.out
  | shouldStop t ht => exact h.shouldStop ht

theorem Kmod.inv_unloaded : Inv R (Kmod.unloaded A) where
  idle _ _ := rfl
  absent _ _ := rfl
  stopped _ ht := absurd ht (Nat.not_lt_zero _)
  out := by simp [Kmod.unloaded]
  blank _ := rfl
  setA h := by cases h
  tracked h := by cases h
  exited h := by cases h

theorem Kmod.inv_of_run {es : List (KmodEvent n)}
    (h : (kmod A v nr).run (Kmod.unloaded A) es = some s) : Inv R s :=
  Lts.run_invariant (P := Inv R) (E := fun _ => True) (fun _ _ _ _ hc hs => hc.step hs)
    (fun _ _ => trivial) h inv_unloaded

end KernelMemo.Rcu
