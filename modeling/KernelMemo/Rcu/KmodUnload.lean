import KernelMemo.Rcu.KmodInvariant
import Mathlib.Data.Finset.Card

/-! # Heap accounting and unloading

* **`sample_synchronize_rcu.c`.**  No callback is ever queued, so the books of `FooInvariant`
  balance at every instant, and `exit_sample_` gives back the last object.
* **`sample_call_rcu.c`.**  `exit_sample_` waits for the threads and not for the callbacks.
  It leaves nothing behind exactly when every `call_rcu` had been followed by its
  `foo_reclaim` before `kfree(gbl_foo)`; `lateReclaim` is a run where it had not. -/

namespace KernelMemo.Rcu

open GracePeriod

variable {n : ℕ} {A : Api (Fin n)} {R : Implements A} {v : Reclaim} {nr : ℕ} {s s' : Kmod A}

/-- A step of the loader or a look at `kthread_should_stop()` queues no callback. -/
theorem Kmod.callbacks_of_step {e : KmodEvent n}
    (hs : s.step v nr e = some s') (he : ∀ f, e ≠ .foo f) :
    s'.foo.callbacks = s.foo.callbacks ∧ s'.foo.queued = s.foo.queued := by
  have hkfree (s : State A) :
      (kfreeGblFoo s).callbacks = s.callbacks ∧ (kfreeGblFoo s).queued = s.queued := by
    simp only [kfreeGblFoo]
    split <;> exact ⟨rfl, rfl⟩
  rcases Kmod.flow_of_step hs with ⟨f, rfl⟩ | hflow
  · exact absurd rfl (he f)
  cases hflow with
  | kmalloc o x f hm hf =>
      obtain ⟨hp, -, rfl⟩ := Option.map_eq_some_iff.mp hf
      exact ⟨rfl, rfl⟩
  | setA f hm hf =>
      obtain ⟨g, -, rfl⟩ := Option.map_eq_some_iff.mp hf
      exact ⟨rfl, rfl⟩
  | kfree hm => exact hkfree s.foo
  | kfreeOut hm => exact hkfree s.foo
  | _ => exact ⟨rfl, rfl⟩

/-! ### `sample_synchronize_rcu.c` -/

theorem no_callbacks_of_run {es : List (KmodEvent n)}
    (h : (kmod A .synchronize nr).run (Kmod.unloaded A) es = some s) (i : ℕ) :
    s.foo.callbacks i = none := by
  have hstep (c : Kmod A) (e : KmodEvent n) (d : Kmod A) (_ : True)
      (hc : ∀ i, c.foo.callbacks i = none) (hs : c.step .synchronize nr e = some d) (i : ℕ) :
      d.foo.callbacks i = none := by
    by_cases he : ∃ f, e = .foo f
    · obtain ⟨f, rfl⟩ := he
      obtain ⟨hf, -⟩ := Kmod.foo_of_step hs
      exact no_callbacks_of_step hf hc i
    · rw [(Kmod.callbacks_of_step hs fun f hf => he ⟨f, hf⟩).1, hc]
  exact Lts.run_invariant (P := fun c : Kmod A => ∀ i, c.foo.callbacks i = none)
    (E := fun _ => True) hstep (fun _ _ => trivial) h (fun _ => rfl) i

/-- Between `init_foo` and `kfree(gbl_foo)`. -/
def Main.allocated (m : Main n) : Prop := m = .setA ∨ m.loaded

/-- Inside `foo_update_a`. -/
def Pc.updating : Pc → Bool
  | idle => false
  | getEnter => false
  | getLocked => false
  | getLoaded _ => false
  | getRead _ => false
  | getUnlocked _ => false
  | oops => false
  | _ => true

theorem Pc.not_updating {p : Pc} (h : p.updating = false) : p.newFp = none ∧ p.oldFp = none := by
  cases p <;> first | exact ⟨rfl, rfl⟩ | cases h

theorem ledger_blank (A : Api (Fin n)) : Ledger (State.blank A).owns (State.blank A).heap.Live :=
  .empty (fun w => by cases w <;> rfl) fun _ ho => by cases ho

theorem ledger_initFooKmalloc {o : Obj} {x : Foo} {f : State A}
    (h : initFooKmalloc (State.blank A) o x = some f) :
    f.gblFoo = some o ∧ Ledger f.owns f.heap.Live := by
  obtain ⟨hp, halloc, rfl⟩ := Option.map_eq_some_iff.mp h
  refine ⟨rfl, (ledger_blank A).acquire (w := .gbl) rfl ?_ (fun w => ?_) (Heap.alloc_live halloc)⟩
  · rw [Heap.Live, Heap.alloc_unborn halloc]
    simp
  · cases w <;> rfl

theorem Kmod.Inv.ledger (h : Kmod.Inv R s) (hm : s.main ≠ .exited) :
    Ledger s.foo.owns s.foo.heap.Live := by
  by_cases hblank : s.main.blank
  · rw [h.blank hblank]
    exact ledger_blank A
  by_cases hsetA : s.main = .setA
  · obtain ⟨o, x, hinit⟩ := h.setA hsetA
    exact (ledger_initFooKmalloc hinit).2
  · refine (h.tracked ?_).ledger
    generalize s.main = m at hm hblank hsetA
    cases m <;> simp_all [Main.loaded, Main.blank]

theorem Kmod.Inv.gblFoo (h : Kmod.Inv R s) (hm : s.main.allocated) :
    ∃ g, s.foo.gblFoo = some g := by
  rcases hm with hm | hm
  · obtain ⟨o, x, hinit⟩ := h.setA hm
    exact ⟨o, (ledger_initFooKmalloc hinit).1⟩
  · obtain ⟨g, hg, -⟩ := (h.tracked hm).gbl
    exact ⟨g, hg⟩

/-- After `exit_sample_` an allocated object has a callback. -/
theorem Kmod.Inv.not_live (h : Kmod.Inv R s) (hm : s.main = .exited)
    (hcb : ∀ i, s.foo.callbacks i = none) (o : Obj) : ¬ s.foo.heap.Live o := by
  intro ho
  have hidle (t : Fin n) : s.foo.pc t = .idle :=
    h.idle t (by rw [h.stopped t (by rw [hm]; exact t.isLt)]; simp)
  obtain ⟨w, hw⟩ := (h.exited hm).owned ho
  cases w with
  | gbl => simp at hw
  | newFp t => simp [State.owns, hidle, Pc.newFp] at hw
  | oldFp t => simp [State.owns, hidle, Pc.oldFp] at hw
  | callback i => simp [State.owns, hcb] at hw

/-- **Heap accounting.**  In every reachable state of the loaded `sample_synchronize_rcu.c` the
allocated objects are the disjoint union of what `gbl_foo`, the `new_fp`s and the `old_fp`s
hold; with no updater inside `foo_update_a` there is one object, and after `exit_sample_`
there is none. -/
theorem sample_heap_accounting {n nr : ℕ} {s : Kmod (documented (τ := Fin n))}
    {es : List (KmodEvent n)}
    (h : (kmod documented .synchronize nr).run (Kmod.unloaded documented) es = some s) :
    (s.main ≠ .exited → Ledger s.foo.owns s.foo.heap.Live ∧
      ∀ i, s.foo.owns (.callback i) = none) ∧
    (s.main.allocated → (∀ t, (s.foo.pc t).updating = false) → ∃! o, s.foo.heap.Live o) ∧
    (s.main = .exited → ∀ o, ¬ s.foo.heap.Live o) := by
  have hinv : Kmod.Inv .refl s := Kmod.inv_of_run h
  have hcb := no_callbacks_of_run h
  have hown (i : ℕ) : s.foo.owns (.callback i) = none := by simp [State.owns, hcb]
  refine ⟨fun hm => ⟨hinv.ledger hm, hown⟩, fun hm hidle => ?_, fun hm => hinv.not_live hm hcb⟩
  have hledger := hinv.ledger (by rintro hx; rw [hx] at hm; rcases hm with hm | hm <;> cases hm)
  obtain ⟨g, hg⟩ := hinv.gblFoo hm
  have honly (w : Owner (Fin n)) (hw : w ≠ .gbl) : s.foo.owns w = none := by
    cases w with
    | gbl => exact absurd rfl hw
    | newFp t => exact (Pc.not_updating (hidle t)).1
    | oldFp t => exact (Pc.not_updating (hidle t)).2
    | callback i => exact hown i
  refine ⟨g, hledger.live_of_owns (w := .gbl) hg, fun o ho => ?_⟩
  have ho' : s.foo.gblFoo = some o := hledger.eq_of_only honly ho
  exact Option.some.inj (ho'.symm.trans hg)

theorem sample_heap_accounting_update : ∃ s : Kmod (documented (τ := Fin 11)),
    (kmod documented .synchronize 10).run (Kmod.unloaded documented)
      (loadUpdateUnload .synchronize 10 []) = some s ∧
    s.main = .exited ∧ ∀ o, ¬ s.foo.heap.Live o := by
  have hrun : ((kmod documented .synchronize 10).run (Kmod.unloaded documented)
      (loadUpdateUnload (n := 11) .synchronize 10 [])).map Kmod.main = some .exited := by
    decide +kernel
  obtain ⟨s, hs, hm⟩ := Option.map_eq_some_iff.mp hrun
  exact ⟨s, hs, hm, (sample_heap_accounting hs).2.2 hm⟩

/-! ### `sample_call_rcu.c` -/

/-- `call_rcu(&old_fp->rcu, foo_reclaim)` -/
def KmodEvent.isCallRcu : KmodEvent n → Bool
  | .foo (.update _ .callRcu) => true
  | _ => false

/-- `foo_reclaim` runs. -/
def KmodEvent.isReclaim : KmodEvent n → Bool
  | .foo (.reclaim _) => true
  | _ => false

/-- The callbacks that have not run yet. -/
def pending (s : State A) : Finset ℕ :=
  (Finset.range s.queued).filter fun i => (s.callbacks i).isSome

theorem pending_congr {s s' : State A} (hcb : s'.callbacks = s.callbacks)
    (hq : s'.queued = s.queued) : pending s' = pending s := by
  rw [pending, pending, hcb, hq]

theorem pending_callRcu {s s' : State A} {x : Obj × A.Ticket} (hq : s'.queued = s.queued + 1)
    (hcb : s'.callbacks = Function.update s.callbacks s.queued (some x)) :
    (pending s').card = (pending s).card + 1 := by
  have hins : pending s' = insert s.queued (pending s) := by
    ext i
    simp only [pending, hq, hcb, Finset.mem_filter, Finset.mem_range, Finset.mem_insert]
    by_cases hi : i = s.queued
    · simp [hi]
    · simp [hi]
      omega
  rw [hins, Finset.card_insert_of_notMem (by simp [pending])]

theorem pending_reclaim {s s' : State A} {i : ℕ} {x : Obj × A.Ticket}
    (hslots : ∀ i, s.queued ≤ i → s.callbacks i = none) (hi : s.callbacks i = some x)
    (hq : s'.queued = s.queued) (hcb : s'.callbacks = Function.update s.callbacks i none) :
    (pending s').card + 1 = (pending s).card := by
  have hmem : i ∈ pending s := by
    have hlt : i < s.queued := by
      by_contra hge
      rw [hslots i (by omega)] at hi
      cases hi
    simp [pending, hlt, hi]
  have hers : pending s' = (pending s).erase i := by
    ext j
    simp only [pending, hq, hcb, Finset.mem_filter, Finset.mem_range, Finset.mem_erase]
    by_cases hj : j = i <;> simp [hj]
  rw [hers, Finset.card_erase_add_one hmem]

/-- The books of the callbacks: what was queued has run or is pending. -/
structure Kmod.Books (es : List (KmodEvent n)) (s : Kmod A) : Prop where
  slots : ∀ i, s.foo.queued ≤ i → s.foo.callbacks i = none
  balance : (pending s.foo).card + es.countP KmodEvent.isReclaim =
    es.countP KmodEvent.isCallRcu

theorem Kmod.Inv.loaded (h : Kmod.Inv R s) {t : Fin n}
    (ht : s.thread t = .body ∨ s.thread t = .inside) : s.main.loaded := by
  have hcreated : s.main.created ≠ 0 := by
    intro h0
    rw [h.absent t (by omega)] at ht
    simp at ht
  have hstopped : s.main.stopped ≠ n := by
    intro hn
    rw [h.stopped t (by rw [hn]; exact t.isLt)] at ht
    simp at ht
  generalize s.main = m at hcreated hstopped
  cases m <;> first | rfl | exact absurd rfl hcreated | exact absurd rfl hstopped

theorem Kmod.Books.step {es : List (KmodEvent n)} {e : KmodEvent n} (hb : Books es s)
    (h : Kmod.Inv R s) (hs : s.step v nr e = some s') : Books (es ++ [e]) s' := by
  obtain ⟨hslots, hbalance⟩ := hb
  have hquiet (hcb : s'.foo.callbacks = s.foo.callbacks) (hq : s'.foo.queued = s.foo.queued)
      (hr : e.isReclaim = false) (hc : e.isCallRcu = false) : Books (es ++ [e]) s' := by
    refine ⟨by rw [hcb, hq]; exact hslots, ?_⟩
    rw [pending_congr hcb hq]
    simpa [List.countP_append, hr, hc] using hbalance
  by_cases he : ∃ f, e = .foo f
  swap
  · obtain ⟨hcb, hq⟩ := Kmod.callbacks_of_step hs fun f hf => he ⟨f, hf⟩
    refine hquiet hcb hq ?_ ?_ <;> cases e <;> first | rfl | exact absurd ⟨_, rfl⟩ he
  obtain ⟨f, rfl⟩ := he
  obtain ⟨hf, -, -, hthread⟩ := Kmod.foo_of_step hs
  cases f with
  | get t a =>
      obtain ⟨p, -, -, -, -, -, hcb, hq⟩ := getFlow_of_step hf
      exact hquiet hcb hq rfl rfl
  | update t a =>
      have htr : Tracked R s.foo := by
        rcases hthread with ⟨i, hi, -⟩ | ⟨u, q, hu, -⟩
        · cases hi
        · exact h.tracked (h.loaded hu)
      rcases Rcu.callbacks_of_step hf with ⟨hne, hcb, hq⟩ | ⟨rfl, -, hpc | ⟨o, x, hpc, hq, hcb⟩⟩
      · refine hquiet hcb hq rfl ?_
        cases a <;> first | rfl | exact absurd rfl hne
      · -- `old_fp` is not `NULL`
        obtain ⟨o, ho, -⟩ := htr.oldFp (.inr (.inl hpc))
        cases ho
      · refine ⟨fun i hi => ?_, ?_⟩
        · rw [hq] at hi
          rw [hcb, Function.update_of_ne (by omega)]
          exact hslots i (by omega)
        · rw [pending_callRcu hq hcb]
          simp only [List.countP_append, List.countP_singleton, KmodEvent.isReclaim,
            KmodEvent.isCallRcu, if_true, Bool.false_eq_true, if_false]
          omega
  | reclaim i =>
      obtain ⟨o, x, hi, -, -, -, -, hq, hcb⟩ := reclaim_of_step hf
      refine ⟨fun j hj => ?_, ?_⟩
      · rw [hq] at hj
        by_cases hji : j = i
        · rw [hcb, hji, Function.update_self]
        · rw [hcb, Function.update_of_ne hji, hslots j hj]
      · have hcard := pending_reclaim hslots hi hq hcb
        simp only [List.countP_append, List.countP_singleton, KmodEvent.isReclaim,
          KmodEvent.isCallRcu, if_true, Bool.false_eq_true, if_false]
        omega

theorem Kmod.books_of_run {es : List (KmodEvent n)} (R : Implements A)
    (h : (kmod A v nr).run (Kmod.unloaded A) es = some s) : Kmod.Books es s := by
  refine Lts.run_history (P := fun es c => Kmod.Books es c) ⟨fun _ _ => rfl, rfl⟩ ?_ h
  intro es c e d hc hb hs
  exact hb.step (Kmod.inv_of_run (R := R) hc) hs

theorem Kmod.Books.no_callbacks {es : List (KmodEvent n)} (hb : Kmod.Books es s) :
    (∀ i, s.foo.callbacks i = none) ↔
      es.countP KmodEvent.isCallRcu = es.countP KmodEvent.isReclaim := by
  have hcard : (∀ i, s.foo.callbacks i = none) ↔ (pending s.foo).card = 0 := by
    rw [Finset.card_eq_zero, pending, Finset.filter_eq_empty_iff]
    constructor
    · intro h i _
      simp [h i]
    · intro h i
      by_cases hi : i < s.foo.queued
      · simpa using h (Finset.mem_range.mpr hi)
      · exact hb.slots i (by omega)
  have := hb.balance
  rw [hcard]
  omega

/-- No callback is pending, every object has been freed, and nothing of the module runs. -/
def Kmod.Gone (v : Reclaim) (nr : ℕ) (s : Kmod A) : Prop :=
  (∀ i, s.foo.callbacks i = none) ∧
  (∀ o, s.foo.heap.life o = .unborn ∨ s.foo.heap.life o = .freed) ∧
  ∀ e, s.step v nr e = none

theorem Kmod.Inv.gone (h : Kmod.Inv R s) (hm : s.main = .exited)
    (hcb : ∀ i, s.foo.callbacks i = none) : s.Gone v nr := by
  have hexit (t : Fin n) : s.thread t = .exited := h.stopped t (by rw [hm]; exact t.isLt)
  refine ⟨hcb, fun o => ?_, fun e => ?_⟩
  · have ho := h.not_live hm hcb o
    rw [Heap.Live] at ho
    cases hl : s.foo.heap.life o <;> simp_all
  · cases e with
    | kmalloc r => cases r <;> simp only [Kmod.step, hm]
    | shouldStop t => simp [Kmod.step, hexit]
    | foo e =>
        cases e with
        | get t a => cases a <;> simp [Kmod.step, hexit, kthreadReader]
        | update t a => cases a <;> simp [Kmod.step, hexit, kthreadWriter]
        | reclaim i => simp [Kmod.step, fooReclaim, hcb]
    | _ => simp only [Kmod.step, hm]

/-- The only way to the end of `exit_sample_` is its `kfree(gbl_foo)`. -/
theorem Kmod.kfree_of_exited {e : KmodEvent n} (hs : s.step v nr e = some s')
    (hm : s.main ≠ .exited) (hm' : s'.main = .exited) : e = .kfree := by
  have hloaded {m : Main n} (hl : m.loaded) (hm : m = .exited) : False := by
    rw [hm] at hl
    cases hl
  rcases flow_of_step hs with ⟨f, rfl⟩ | hflow
  · rw [(foo_of_step hs).2.1] at hm'
    exact absurd hm' hm
  cases hflow with
  | setA f _ _ => exact (hloaded (Main.initKthread_cases 0 (Nat.zero_le _)).1 hm').elim
  | print i _ _ => exact (hloaded (Main.initKthread_cases (i + 1) i.isLt).1 hm').elim
  | rmmod _ => exact (hloaded (Main.exitSample_cases 0 (Nat.zero_le _)).1 hm').elim
  | kthreadWait i _ _ => exact (hloaded (Main.exitSample_cases (i + 1) i.isLt).1 hm').elim
  | kfree _ => rfl
  | kfreeOut _ => rfl
  | shouldStop t _ => exact absurd hm' hm
  | _ => cases hm'

/-- `kfree(gbl_foo)` is the end of `exit_sample_`; the error path of `init_sample_` is dead. -/
theorem Kmod.Inv.exited_of_kfree (h : Kmod.Inv R s) (hs : s.step v nr .kfree = some s') :
    s'.main = .exited := by
  rcases flow_of_step hs with ⟨f, hf⟩ | hflow
  · cases hf
  cases hflow with
  | kfree _ => rfl
  | kfreeOut hm => exact absurd hm h.out

/-- **Unloading `sample_call_rcu.c`.**  In a run, every state after the return of `exit_sample_`
is one in which the module is gone if and only if `kfree(gbl_foo)` is reached with as many
`foo_reclaim`s behind as `call_rcu`s. -/
theorem exit_sample_gone {n nr : ℕ} {s : Kmod (documented (τ := Fin n))}
    {es : List (KmodEvent n)}
    (h : (kmod documented .callRcu nr).run (Kmod.unloaded documented) es = some s) :
    (∀ m c, (kmod documented .callRcu nr).At (Kmod.unloaded documented) es m c →
      c.main = .exited → c.Gone .callRcu nr) ↔
    ∀ m, es[m]? = some .kfree → (es.take m).countP KmodEvent.isCallRcu =
      (es.take m).countP KmodEvent.isReclaim := by
  have hinv {m : ℕ} {c : Kmod (documented (τ := Fin n))}
      (hc : (kmod documented .callRcu nr).At (Kmod.unloaded documented) es m c) :
      Kmod.Inv .refl c := Kmod.inv_of_run hc
  have hkfree {c d : Kmod (documented (τ := Fin n))}
      (hs : c.step .callRcu nr .kfree = some d) : d.foo.callbacks = c.foo.callbacks :=
    (Kmod.callbacks_of_step hs (by simp)).1
  constructor
  · intro hgone m hm
    obtain ⟨c, hc⟩ := Lts.exists_at h m
    obtain ⟨d, hd⟩ := Lts.exists_at h (m + 1)
    have hs : c.step .callRcu nr .kfree = some d := hc.step hd hm
    have hcb := (hgone (m + 1) d hd ((hinv hc).exited_of_kfree hs)).1
    rw [hkfree hs] at hcb
    exact (Kmod.books_of_run .refl hc).no_callbacks.mp hcb
  · intro hbalance m c hc hm
    obtain ⟨i, e, a, b, him, he, ha, hb, hs, hna, hexit, hall⟩ := hc.entry
      (P := fun c => c.main = .exited) (by simp [Kmod.unloaded]) hm
    have hs : a.step .callRcu nr e = some b := hs
    obtain rfl := Kmod.kfree_of_exited hs hna hexit
    have hcb := (Kmod.books_of_run .refl ha).no_callbacks.mpr (hbalance i he)
    have hgone : b.Gone .callRcu nr :=
      (hinv hb).gone hexit fun j => by rw [hkfree hs]; exact hcb j
    -- nothing happens after `exit_sample_`
    exact Lts.At.segment (P := fun c => c.Gone .callRcu nr) h hb hc him
      (fun k e d d' _ _ _ _ hd hs => by
        have hnone := hd.2.2 e
        rw [show d.step .callRcu nr e = some d' from hs] at hnone
        cases hnone) hgone

/-- The callback runs before the module is unloaded. -/
theorem exit_sample_gone_inTime : ∃ c, (kmod (documented (τ := Fin 11)) .callRcu 10).run
    (Kmod.unloaded documented) (loadUpdateUnload .callRcu 10 [.foo (.reclaim 0)]) = some c ∧
    c.main = .exited ∧ c.Gone .callRcu 10 := by
  have hrun : ((kmod (documented (τ := Fin 11)) .callRcu 10).run (Kmod.unloaded documented)
      (loadUpdateUnload .callRcu 10 [.foo (.reclaim 0)])).map (·.main) = some .exited := by
    decide +kernel
  obtain ⟨c, hc, hexit⟩ := Option.map_eq_some_iff.mp hrun
  have hbalance : ∀ m < (loadUpdateUnload (n := 11) .callRcu 10 [.foo (.reclaim 0)]).length,
      (loadUpdateUnload (n := 11) .callRcu 10 [.foo (.reclaim 0)])[m]? = some .kfree →
      ((loadUpdateUnload (n := 11) .callRcu 10 [.foo (.reclaim 0)]).take m).countP
          KmodEvent.isCallRcu =
        ((loadUpdateUnload (n := 11) .callRcu 10 [.foo (.reclaim 0)]).take m).countP
          KmodEvent.isReclaim := by
    decide +kernel
  refine ⟨c, hc, hexit, (exit_sample_gone hc).mpr (fun m hm => ?_) _ c (Lts.at_length hc) hexit⟩
  exact hbalance m (List.getElem?_eq_some_iff.mp hm).1 hm

/-- A run of `sample_call_rcu.c` in which everything succeeds and `exit_sample_` returns with a
callback pending: it runs later, with the code of the module gone. -/
theorem exit_sample_lateReclaim : ∃ (es : List (KmodEvent 11)) (c d : Kmod documented),
    (kmod documented .callRcu 10).run (Kmod.unloaded documented) es = some c ∧
    (∀ e ∈ es, e.Succeeds) ∧ c.main = .exited ∧ (∃ o g, c.foo.callbacks 0 = some (o, g) ∧
      c.foo.heap.Live o) ∧ c.step .callRcu 10 (.foo (.reclaim 0)) = some d := by
  have hrun : ((kmod (documented (τ := Fin 11)) .callRcu 10).run (Kmod.unloaded documented)
      (loadUpdateUnload .callRcu 10 [])).map (fun c => (c.main,
        (c.foo.callbacks 0).map fun x => (c.foo.heap.life x.1),
        (c.step .callRcu 10 (.foo (.reclaim 0))).isSome)) = some (.exited, some .live, true) := by
    decide +kernel
  obtain ⟨c, hc, heq⟩ := Option.map_eq_some_iff.mp hrun
  simp only [Prod.mk.injEq, Option.map_eq_some_iff] at heq
  obtain ⟨hm, ⟨x, hx, hlive⟩, hstep⟩ := heq
  obtain ⟨d, hd⟩ := Option.isSome_iff_exists.mp hstep
  exact ⟨_, c, d, hc, by decide +kernel, hm, ⟨x.1, x.2, hx, hlive⟩, hd⟩

end KernelMemo.Rcu
