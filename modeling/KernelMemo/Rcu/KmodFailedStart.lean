import KernelMemo.Rcu.KmodInvariant

/-! # A start in which `kthread_run` fails

`init_kthread` tests `IS_ERR(k)`, which asks whether the address of the array `k` is an error
pointer, and not `IS_ERR(k[i])`.  So the error is never seen, and `k[i]->pid` follows the
error pointer.

* **What is asked.**  `FailsCleanly` says of a run whose start failed what the cleanup at `out:`
  is there for.
* **What happens.**  `Kmod.loader_of_step` is what a step can do to the loader; `StartBooks`
  follows it from the failing `kthread_run` to the end of `init_sample_`. -/

namespace KernelMemo.Rcu

open GracePeriod

variable {n : ℕ}

namespace Main

/-- Inside `init_sample_`, before the test of what `init_kthread` returns. -/
def starting : Main n → Bool
  | start => true
  | setA => true
  | kthreadRun _ => true
  | print _ => true
  | _ => false

/-- `init_sample_` has returned, or its task was killed. -/
def initOver : Main n → Bool
  | start => false
  | setA => false
  | kthreadRun _ => false
  | print _ => false
  | out => false
  | _ => true

end Main

variable {A : Api (Fin n)}

/-- The error pointers that a step follows, by their index in `k`. -/
def errDerefs (s : Kmod A) : KmodEvent n → List (Fin n)
  | .print =>
      match s.main with
      | .print i => if s.k i = .err then [i] else []
      | _ => []
  | .kthreadStop =>
      match s.main with
      | .kthreadStop i => if s.k i = .err then [i] else []
      | _ => []
  | _ => []

/-- A load of `gbl_foo` or a store to it. -/
def Event.onGblFoo {τ : Type} : Event τ → Bool
  | .get _ .dereference => true
  | .update _ .dereference => true
  | .update _ .assign => true
  | _ => false

/-- The run of a module whose start failed leaves nothing behind. -/
structure FailsCleanly (v : Reclaim) (nr : ℕ) (es : List (KmodEvent n)) (s : Kmod A) : Prop where
  /-- No error pointer is followed. -/
  noDeref : (kmod A v nr).collect errDerefs (Kmod.unloaded A) es = []
  /-- `init_sample_` has returned an error. -/
  returns : ∃ err, err ≠ 0 ∧ s.main = .failed err
  /-- The threads have been stopped before `kfree(gbl_foo)`. -/
  stopped : ∀ m c, (kmod A v nr).At (Kmod.unloaded A) es m c → es[m]? = some .kfree →
    ∀ t, c.thread t = .absent ∨ c.thread t = .exited
  /-- There is one `kfree(gbl_foo)`. -/
  freedOnce : es.count .kfree = 1
  /-- After it no step touches `gbl_foo` or what was freed. -/
  untouched : ∀ m k c e, es[m]? = some .kfree → m < k → es[k]? = some (.foo e) →
    (kmod A v nr).At (Kmod.unloaded A) es k c →
    e.onGblFoo = false ∧ ∀ x ∈ accesses c.foo e, x.Safe c.foo.heap

variable {v : Reclaim} {nr : ℕ} {s s' : Kmod A}

theorem Main.not_starting_exitSample (i : ℕ) : (exitSample i : Main n).starting = false := by
  unfold exitSample
  split_ifs <;> rfl

/-- What a step does to the loader.  `kthread_run` always goes on to `pr_info`, and `pr_info`
kills the task when it follows an error pointer; nothing else leaves these two places. -/
theorem Kmod.loader_of_step {e : KmodEvent n} (hs : s.step v nr e = some s') :
    (s'.main = s.main ∧ s'.k = s.k ∧ e ≠ .kfree ∧ ∀ ok, e ≠ .kthreadRun ok) ∨
    (∃ i ok, e = .kthreadRun ok ∧ s.main = .kthreadRun i ∧ s'.main = .print i ∧
      s'.k i = if ok then .task else .err) ∨
    (∃ i, e = .print ∧ s.main = .print i ∧ (s.k i ≠ .task → s'.main = .oops)) ∨
    ((∀ i, s.main ≠ .print i) ∧ s.main ≠ .oops ∧ (∀ ok, e ≠ .kthreadRun ok) ∧
      (s'.main.starting → s.main.starting ∧ e ≠ .kfree)) := by
  rcases flow_of_step hs with ⟨f, rfl⟩ | hflow
  · obtain ⟨-, hmain, hk, -⟩ := foo_of_step hs
    exact .inl ⟨hmain, hk, by simp, by simp⟩
  cases hflow with
  | kthreadRun i ok hm => exact .inr (.inl ⟨i, ok, rfl, hm, rfl, by simp⟩)
  | print i hm hk => exact .inr (.inr (.inl ⟨i, rfl, hm, fun hne => absurd hk hne⟩))
  | printErr i hm hk => exact .inr (.inr (.inl ⟨i, rfl, hm, fun _ => rfl⟩))
  | shouldStop t ht => exact .inl ⟨rfl, rfl, by simp, by simp⟩
  | kmalloc o x f hm hf =>
      refine .inr (.inr (.inr ⟨by simp [hm], by simp [hm], by simp, fun _ => ?_⟩))
      simp [hm, Main.starting]
  | setA f hm hf =>
      refine .inr (.inr (.inr ⟨by simp [hm], by simp [hm], by simp, fun _ => ?_⟩))
      simp [hm, Main.starting]
  | rmmod hm =>
      refine .inr (.inr (.inr ⟨by simp [hm], by simp [hm], by simp, fun hst => ?_⟩))
      rw [Main.not_starting_exitSample] at hst
      cases hst
  | kthreadWait i hm hexit =>
      refine .inr (.inr (.inr ⟨by simp [hm], by simp [hm], by simp, fun hst => ?_⟩))
      rw [Main.not_starting_exitSample] at hst
      cases hst
  | kmallocFails hm | kthreadStop i hm hk | kthreadStopErr i hm hk | kfree hm | kfreeOut hm =>
      exact .inr (.inr (.inr ⟨by simp [hm], by simp [hm], by simp, fun hst => by cases hst⟩))

/-- The history of a start: nothing is freed before `init_sample_` is over, and after a
`kthread_run` that failed the loader stands before the error pointer or was killed by it. -/
structure StartBooks (v : Reclaim) (nr : ℕ) (es : List (KmodEvent n)) (s : Kmod A) : Prop where
  notFreed : s.main.starting → .kfree ∉ es
  failed : .kthreadRun false ∈ es → .kfree ∉ es ∧ ((∃ i, s.main = .print i ∧ s.k i = .err) ∨
    s.main = .oops ∧ (kmod A v nr).collect errDerefs (Kmod.unloaded A) es ≠ [])

theorem StartBooks.step {es : List (KmodEvent n)} {e : KmodEvent n} (h : StartBooks v nr es s)
    (hrun : (kmod A v nr).run (Kmod.unloaded A) es = some s) (hs : s.step v nr e = some s') :
    StartBooks v nr (es ++ [e]) s' := by
  have hplace (hf : .kthreadRun false ∈ es ++ [e]) (hne : e ≠ .kthreadRun false) :=
    h.failed ((List.mem_append.mp hf).resolve_right fun he => hne (List.mem_singleton.mp he).symm)
  have hfree (hes : .kfree ∉ es) (he : e ≠ .kfree) : .kfree ∉ es ++ [e] := by
    rw [List.mem_append, List.mem_singleton, not_or]
    exact ⟨hes, he.symm⟩
  rcases Kmod.loader_of_step hs with ⟨hmain, hk, hne, hnr⟩ | ⟨i, ok, rfl, hm, hmain, hk⟩ |
      ⟨i, rfl, hm, hmain⟩ | ⟨hprint, hoops, hnr, hst⟩
  · refine ⟨fun hst => hfree (h.notFreed (hmain ▸ hst)) hne, fun hf => ?_⟩
    obtain ⟨hes, hpl⟩ := hplace hf (hnr false)
    rw [hmain, hk, Lts.collect_snoc _ hrun]
    refine ⟨hfree hes hne, hpl.imp_right fun ⟨ho, hd⟩ => ⟨ho, ?_⟩⟩
    exact List.append_ne_nil_of_left_ne_nil hd _
  · -- the thread that cannot be created
    have hes : .kfree ∉ es := h.notFreed (by rw [hm]; rfl)
    refine ⟨fun _ => hfree hes (by simp), fun hf => ⟨hfree hes (by simp), .inl ⟨i, hmain, ?_⟩⟩⟩
    cases ok with
    | false => exact hk
    | true =>
        rcases (hplace hf (by simp)).2 with ⟨j, hj, -⟩ | ⟨hj, -⟩ <;> rw [hm] at hj <;> cases hj
  · -- `k[i]->pid`
    have hes : .kfree ∉ es := h.notFreed (by rw [hm]; rfl)
    refine ⟨fun _ => hfree hes (by simp), fun hf => ⟨hfree hes (by simp), .inr ?_⟩⟩
    rcases (hplace hf (by simp)).2 with ⟨j, hj, hk⟩ | ⟨hj, -⟩
    · rw [hm] at hj
      cases hj
      rw [Lts.collect_snoc _ hrun]
      exact ⟨hmain (by simp [hk]), by simp [errDerefs, hm, hk]⟩
    · rw [hm] at hj
      cases hj
  · refine ⟨fun hst' => hfree (h.notFreed (hst hst').1) (hst hst').2, fun hf => ?_⟩
    rcases (hplace hf (hnr false)).2 with ⟨j, hj, -⟩ | ⟨hj, -⟩
    · exact absurd hj (hprint j)
    · exact absurd hj hoops

theorem startBooks_of_run {es : List (KmodEvent n)}
    (h : (kmod A v nr).run (Kmod.unloaded A) es = some s) : StartBooks v nr es s :=
  Lts.run_history (P := StartBooks v nr)
    ⟨fun _ => List.not_mem_nil, fun hf => absurd hf List.not_mem_nil⟩
    (fun _ _ _ _ hc hb hs => hb.step hc hs) h

/-- **A failed start.**  In every run of any sample in which a `kthread_run` failed,
`init_sample_` gets over with the next step of its task at the latest, and whenever it is over
something is left behind: the task was killed by the error pointer, and nothing was freed. -/
theorem not_failsCleanly_of_run {es : List (KmodEvent n)}
    (hrun : (kmod A v nr).run (Kmod.unloaded A) es = some s) (hfail : .kthreadRun false ∈ es) :
    (s.main.initOver → ¬ FailsCleanly v nr es s ∧ s.main = .oops ∧ .kfree ∉ es) ∧
      ∃ fs c, (kmod A v nr).run s fs = some c ∧ c.main.initOver ∧ fs.length ≤ 1 := by
  obtain ⟨hfree, hplace⟩ := (startBooks_of_run hrun).failed hfail
  rcases hplace with ⟨i, hm, hk⟩ | ⟨hm, hderef⟩
  · have hs : (kmod A v nr).step s .print = some { s with main := .oops } := by
      simp [kmod, Kmod.step, hm, hk]
    refine ⟨fun hover => ?_, [.print], _, by rw [Lts.run_cons, hs]; rfl, rfl, le_rfl⟩
    rw [hm] at hover
    cases hover
  · exact ⟨fun _ => ⟨fun h => hderef h.noDeref, hm, hfree⟩, [], s, rfl, by rw [hm]; rfl,
      Nat.zero_le _⟩

/-- `kthread_run` succeeds `i` times and then fails. -/
def failedStart (i : ℕ) : List (KmodEvent n) :=
  [.kmalloc (some (0, ⟨⟨0, false⟩, ⟨0, false⟩, ⟨0, false⟩, .raw 0⟩)), .setA] ++
  (List.replicate i [.kthreadRun true, .print]).flatten ++ [.kthreadRun false, .print]

/-- The thread numbers of the file: the writer cannot be created. -/
theorem not_failsCleanly_writer : ∃ s : Kmod (documented (τ := Fin 11)),
    (kmod documented .callRcu 10).run (Kmod.unloaded documented) (failedStart 10) = some s ∧
    ¬ FailsCleanly .callRcu 10 (failedStart 10) s ∧ s.main = .oops ∧
    .kfree ∉ failedStart (n := 11) 10 := by
  have hrun : ((kmod (documented (τ := Fin 11)) .callRcu 10).run (Kmod.unloaded documented)
      (failedStart 10)).any (fun s => s.main.initOver) = true := by decide +kernel
  obtain ⟨s, hs, hover⟩ := (Option.any_eq_true _ _).mp hrun
  exact ⟨s, hs, (not_failsCleanly_of_run hs (by decide)).1 hover⟩

/-- The first reader cannot be created. -/
theorem not_failsCleanly_reader : ∃ s : Kmod (documented (τ := Fin 11)),
    (kmod documented .synchronize 10).run (Kmod.unloaded documented) (failedStart 0) = some s ∧
    s.main.initOver ∧ ¬ FailsCleanly .synchronize 10 (failedStart 0) s := by
  have hrun : ((kmod (documented (τ := Fin 11)) .synchronize 10).run (Kmod.unloaded documented)
      (failedStart 0)).any (fun s => s.main = .oops) = true := by decide +kernel
  obtain ⟨s, hs, hm⟩ := (Option.any_eq_true _ _).mp hrun
  replace hm : s.main = .oops := of_decide_eq_true hm
  refine ⟨s, hs, by rw [hm]; rfl, fun h => ?_⟩
  obtain ⟨err, -, herr⟩ := h.returns
  rw [hm] at herr
  cases herr

end KernelMemo.Rcu
