import KernelMemo.Rcu.FooRegister

/-! # `foo_update_a` when its `kmalloc` fails

None of the three files checks what `kmalloc` returns in `foo_update_a`.  An updater without
memory takes `foo_mutex` as usual and is killed at `*new_fp = *old_fp`.

* **The failure.**  `Pc.Failed` says that a thread is in such a call or was killed;
  `UpdateFlow.failed` is what it can still do, and `failed_of_run` keeps it there.
* **What is asked.**  `NoEffect` says of a run that no step follows a bad pointer, that the
  calls without memory change nothing, and what `foo_get_a` returns.
* **When it holds.**  Only the copy through `NULL` is wrong; `noEffect_iff` says that there is
  no other way to fail. -/

namespace KernelMemo.Rcu

open GracePeriod

/-! ### A call without memory -/

/-- In a `foo_update_a` whose `kmalloc` failed, or killed. -/
def Pc.Failed (p : Pc) : Prop := ¬ p.Allocated ∨ p = .oops

section Flow

variable {τ : Type} {A : Api τ} {s : State A}

theorem GetFlow.not_failed {a : GetStep} {q p : Pc} (h : GetFlow s a q p) : ¬ q.Failed := by
  rintro (hq | hq)
  · cases h <;> exact hq trivial
  · exact h.ne_oops hq

/-- Without memory an updater changes nothing and gives nothing back; it goes on up to the copy,
and no further. -/
theorem UpdateFlow.failed {t : τ} {a : UpdateStep} {q p : Pc} {g : Ptr} {hp : Heap Foo}
    {m : Option τ} (h : UpdateFlow s t a q p g hp m) (hq : q.Failed ∨ a = .kmalloc none) :
    p.Failed ∧ g = s.gblFoo ∧ hp = s.heap ∧ a ≠ .kfree ∧ a ≠ .callRcu := by
  have hpc (hq : q.Failed) : ¬ q.Allocated := hq.resolve_right h.ne_oops
  cases h with
  | kmallocFails => exact ⟨.inl (by simp [Pc.Allocated]), rfl, rfl, by simp, by simp⟩
  | spinLock newA newFp =>
      exact ⟨.inl (hpc (hq.resolve_right (by simp))), rfl, rfl, by simp, by simp⟩
  | dereference newA newFp =>
      exact ⟨.inl (hpc (hq.resolve_right (by simp))), rfl, rfl, by simp, by simp⟩
  | copyNull => exact ⟨.inr rfl, rfl, rfl, by simp, by simp⟩
  | copy newA n o => exact absurd (by simp [Pc.Allocated]) (hpc (hq.resolve_right (by simp)))
  | _ => exact absurd trivial (hpc (hq.resolve_right (by simp)))

end Flow

variable {τ : Type} [DecidableEq τ] {A : Api τ}

section step

variable {v : Reclaim} {s s' : State A} {e : Event τ} (hs : step v s e = some s') {t : τ}
include hs

theorem failed_of_step (h : (s.pc t).Failed) : (s'.pc t).Failed := by
  rcases pc_of_step hs t with hpc | ⟨a, -, -, hflow⟩ | ⟨a, -, hflow⟩
  · rwa [hpc]
  · exact absurd h hflow.not_failed
  · exact (hflow.failed (.inl h)).1

theorem kmalloc_of_not_allocated (h : (s.pc t).Allocated) (h' : ¬ (s'.pc t).Allocated) :
    e = .update t (.kmalloc none) := by
  rcases pc_of_step hs t with hpc | ⟨a, -, -, hflow⟩ | ⟨a, rfl, hflow⟩
  · rw [hpc] at h'
    exact absurd h h'
  · exact absurd hflow.allocated h'
  · by_contra hne
    refine h' (hflow.allocated h ?_)
    unfold Event.Allocates
    split
    · rename_i u r he
      cases he
      cases r with
      | none => exact absurd rfl hne
      | some ox => rfl
    · rfl

theorem kmalloc_of_newFp {n : Obj} (h : (s'.pc t).newFp = some n) :
    (s.pc t).newFp = some n ∨ ∃ x, e = .update t (.kmalloc (some (n, x))) := by
  rcases pc_of_step hs t with hpc | ⟨a, -, -, hflow⟩ | ⟨a, rfl, hflow⟩
  · exact .inl (hpc ▸ h)
  · rw [hflow.newFp] at h
    cases h
  · generalize s.pc t = q, s'.pc t = p, s'.gblFoo = g, s'.heap = hp, s'.fooMutex = m at hflow h
    cases hflow with
    | kmalloc newA o x => cases h; exact .inr ⟨x, rfl⟩
    | spinLock => exact .inl h
    | dereference => exact .inl h
    | copy => exact .inl h
    | storeA => exact .inl h
    | _ => cases h

end step

/-! ### What is asked of the samples -/

/-- Updates that cannot allocate have no effect on the run. -/
structure NoEffect (v : Reclaim) (s₀ : State A) (es : List (Event τ)) : Prop where
  /-- No step goes through a `NULL` or freed pointer. -/
  safe : ∀ m c e x, (foo A v).At s₀ es m c → es[m]? = some e → x ∈ accesses c e → x.Safe c.heap
  /-- From the `kmalloc` that fails up to the return, the steps of the call leave `gbl_foo` and
  every object as they were, and give nothing back. -/
  noop : ∀ t k j a c d, es[k]? = some (.update t (.kmalloc none)) → k ≤ j →
    (∀ i e, k < i → i < j → es[i]? = some e → ¬ e.Borders t) → es[j]? = some (.update t a) →
    (foo A v).At s₀ es j c → (foo A v).At s₀ es (j + 1) d →
    d.gblFoo = c.gblFoo ∧ d.heap = c.heap ∧ kfreed c (.update t a) = [] ∧
      handed c (.update t a) = []
  /-- `foo_get_a` returns the argument of the update that was last published before its load,
  and that update had its memory; or there was none and it returns what `init_foo` stored. -/
  gets : ∀ t i m j retval, GetOp es t i m j retval →
    (version es m = 0 ∧ retval = 5) ∨ ∃ u i' k m' n x, Publication es u retval i' m' ∧
      version es m = version es m' + 1 ∧ i' < k ∧ k < m' ∧
      es[k]? = some (.update u (.kmalloc (some (n, x))))

section run

variable {v : Reclaim} {s₀ s : State A} {es : List (Event τ)}

theorem updateFlow_at {t : τ} {a : UpdateStep} {m : ℕ} {c d : State A}
    (hc : (foo A v).At s₀ es m c) (hd : (foo A v).At s₀ es (m + 1) d)
    (he : es[m]? = some (.update t a)) :
    UpdateFlow c t a (c.pc t) (d.pc t) d.gblFoo d.heap d.fooMutex := by
  have hs : step v c (.update t a) = some d := hc.step hd he
  obtain ⟨p, hpc, hflow⟩ := updateFlow_of_step hs
  rwa [hpc, Function.update_self]

/-- A call without memory never gets out of `foo_update_a`. -/
theorem failed_of_run (hrun : (foo A v).run s₀ es = some s) {t : τ} {k j : ℕ} {c : State A}
    (hk : es[k]? = some (.update t (.kmalloc none))) (hkj : k < j)
    (hj : (foo A v).At s₀ es j c) : (c.pc t).Failed := by
  obtain ⟨a, ha⟩ := Lts.exists_at hrun k
  obtain ⟨b, hb⟩ := Lts.exists_at hrun (k + 1)
  have hfail : (b.pc t).Failed := ((updateFlow_at ha hb hk).failed (.inr rfl)).1
  exact Lts.At.segment (P := fun c => (c.pc t).Failed) hrun hb hj hkj
    (fun _ _ _ _ _ _ _ _ hd hs => failed_of_step hs hd) hfail

theorem noop_of_run (hrun : (foo A v).run s₀ es = some s) {t : τ} {k j : ℕ} {a : UpdateStep}
    {c d : State A} (hk : es[k]? = some (.update t (.kmalloc none))) (hkj : k ≤ j)
    (hj : es[j]? = some (.update t a)) (hc : (foo A v).At s₀ es j c)
    (hd : (foo A v).At s₀ es (j + 1) d) :
    d.gblFoo = c.gblFoo ∧ d.heap = c.heap ∧ kfreed c (.update t a) = [] ∧
      handed c (.update t a) = [] := by
  have hfail : (c.pc t).Failed ∨ a = .kmalloc none := by
    rcases hkj.lt_or_eq with hlt | rfl
    · exact .inl (failed_of_run hrun hk hlt hc)
    · rw [hk] at hj
      cases hj
      exact .inr rfl
  obtain ⟨-, hgbl, hheap, hkfree, hcall⟩ := (updateFlow_at hc hd hj).failed hfail
  refine ⟨hgbl, hheap, List.eq_nil_iff_forall_not_mem.mpr fun o ho => ?_, ?_⟩
  · rcases mem_kfreed.mp ho with ⟨u, he, -⟩ | ⟨i, x, he, -⟩
    · cases he
      exact hkfree rfl
    · cases he
  · cases a with
    | callRcu => exact absurd rfl hcall
    | _ => rfl

/-- A run that copies without memory goes through `NULL`. -/
theorem not_safe_of_copy (hrun : (foo A v).run s₀ es = some s) {t : τ} {k j : ℕ} {c : State A}
    (hk : es[k]? = some (.update t (.kmalloc none))) (hkj : k < j)
    (hj : es[j]? = some (.update t .copy)) (hc : (foo A v).At s₀ es j c) :
    .write none ∈ accesses c (.update t .copy) := by
  obtain ⟨d, hd⟩ := Lts.exists_at hrun (j + 1)
  have hflow := updateFlow_at hc hd hj
  have hfail : ¬ (c.pc t).Allocated :=
    (failed_of_run hrun hk hkj hc).resolve_right hflow.ne_oops
  generalize hq : c.pc t = q, d.pc t = p, d.gblFoo = g, d.heap = hp, d.fooMutex = m at hflow hfail
  cases hflow with
  | copy => exact absurd (by simp [Pc.Allocated]) hfail
  | copyNull newA newFp oldFp =>
      obtain rfl : newFp = none := not_not.mp hfail
      simp [accesses, hq]

theorem exists_kmalloc_of_not_allocated (h₀ : (foo A v).init s₀) {t : τ} {j : ℕ} {c : State A}
    (hc : (foo A v).At s₀ es j c) (hfail : ¬ (c.pc t).Allocated) :
    ∃ k, k < j ∧ es[k]? = some (.update t (.kmalloc none)) := by
  obtain ⟨k, e, a, b, hkj, he, -, -, hstep, hna, hb, -⟩ := hc.entry
    (P := fun c => ¬ (c.pc t).Allocated) (by rw [pc_init h₀ t]; simp [Pc.Allocated]) hfail
  obtain rfl : e = .update t (.kmalloc none) :=
    kmalloc_of_not_allocated hstep (not_not.mp hna) hb
  exact ⟨k, hkj, he⟩

variable [Fintype τ] (R : Implements A) (h₀ : (foo A v).init s₀)
  (hrun : (foo A v).run s₀ es = some s)
include R h₀ hrun

theorem exists_kmalloc_of_publication {t : τ} {newA : Int32} {i m : ℕ}
    (hpub : Publication es t newA i m) :
    ∃ k n x, i < k ∧ k < m ∧ es[k]? = some (.update t (.kmalloc (some (n, x)))) := by
  obtain ⟨c, hc⟩ := Lts.exists_at hrun m
  obtain ⟨d, hd⟩ := Lts.exists_at hrun (m + 1)
  obtain ⟨n, hn⟩ : ∃ n, (c.pc t).newFp = some n := by
    have hflow := updateFlow_at hc hd hpub.publish
    generalize hq : c.pc t = q, d.pc t = p, d.gblFoo = g, d.heap = hp, d.fooMutex = m at hflow
    cases hflow with
    | assign newA newFp oldFp =>
        obtain ⟨-, n, g, rfl, -⟩ := (tracked_of_run R h₀ hc).updSet hq
        exact ⟨n, rfl⟩
  obtain ⟨k, e, a, b, hkm, he, ha, hb, hstep, hna, hPb, hin⟩ := hc.entry
    (P := fun c => (c.pc t).newFp = some n) (by rw [pc_init h₀ t]; simp [Pc.newFp]) hn
  obtain ⟨x, rfl⟩ := (kmalloc_of_newFp hstep hPb).resolve_left hna
  refine ⟨k, n, x, ?_, hkm, he⟩
  rcases lt_trichotomy i k with h | rfl | h
  · exact h
  · rw [hpub.call] at he
    cases he
  · -- at its call the thread is outside and has no `new_fp`
    obtain ⟨a', ha'⟩ := Lts.exists_at hrun i
    obtain ⟨b', hb'⟩ := Lts.exists_at hrun (i + 1)
    have hnew := hin i a' h hpub.call_lt.le ha'
    have hflow := updateFlow_at ha' hb' hpub.call
    generalize a'.pc t = q, b'.pc t = p, b'.gblFoo = g, b'.heap = hp, b'.fooMutex = m
      at hflow hnew
    cases hflow
    cases hnew

theorem gets_of_run {t : τ} {i m j : ℕ} {retval : Int32} (hop : GetOp es t i m j retval) :
    (version es m = 0 ∧ retval = 5) ∨ ∃ u i' k m' n x, Publication es u retval i' m' ∧
      version es m = version es m' + 1 ∧ i' < k ∧ k < m' ∧
      es[k]? = some (.update u (.kmalloc (some (n, x)))) := by
  have hreg : Register v s₀ es := register_of_run R h₀ hrun
  obtain ⟨x, hx, rfl⟩ := hreg.get_value t i m j retval hop
  cases hv : version es m with
  | zero =>
      left
      obtain ⟨o, y, hinit⟩ := h₀
      rw [hv, publications, State.current, initFoo_eq_some hinit] at hx
      simp only [Option.map_some, Option.toList_some, List.singleton_append,
        List.getElem?_cons_zero, Option.some.injEq, Function.update_self] at hx
      exact ⟨rfl, by rw [← hx]⟩
  | succ n =>
      right
      rw [hv] at hx
      obtain ⟨y, u, newA, i', m', -, rfl, hpub, hv'⟩ := hreg.successor n x hx
      obtain ⟨k, o, z, hik, hkm, hk⟩ := exists_kmalloc_of_publication R h₀ hrun hpub
      exact ⟨u, i', k, m', o, z, hpub, by rw [hv'], hik, hkm, hk⟩

end run

/-- **Updates without memory.**  In a run of any number of readers and updaters of any of the
three files, updates that cannot allocate have no effect if and only if none of them gets as
far as `*new_fp = *old_fp`. -/
theorem noEffect_iff [Fintype τ] (f : Sample) {s₀ s : State (f.api (τ := τ))}
    {es : List (Event τ)} (h₀ : f.machine.init s₀) (hrun : f.machine.run s₀ es = some s) :
    NoEffect f.reclaim s₀ es ↔
      ∀ (t : τ) (k j : ℕ), es[k]? = some (.update t (.kmalloc none)) → k < j →
        es[j]? ≠ some (.update t .copy) := by
  constructor
  · intro h t k j hk hkj hj
    obtain ⟨c, hc⟩ := Lts.exists_at hrun j
    obtain ⟨o, ho, -⟩ := h.safe j c _ _ hc hj (not_safe_of_copy hrun hk hkj hj hc)
    cases ho
  · intro hall
    refine ⟨fun m c e x hc he hx => ?_, fun t k j a c d hk hkj _ => noop_of_run hrun hk hkj,
      fun t i m j retval => gets_of_run f.implements h₀ hrun⟩
    refine accesses_safe_of (tracked_of_run f.implements h₀ hc) (fun t hcopy => ?_) hx
    subst hcopy
    by_contra hfail
    obtain ⟨k, hkm, hk⟩ := exists_kmalloc_of_not_allocated h₀ hc hfail
    exact hall t k m hk hkm he

/-- The updater `u` gets no memory and takes `foo_mutex`, while `t` reads. -/
def starved (t u : τ) : List (Event τ) :=
  [.get t .call, .get t .readLock, .update u (.call 7), .update u (.kmalloc none),
    .get t .dereference, .update u .spinLock, .get t .readA, .get t .readUnlock,
    .update u .dereference, .get t (.ret 5)]

theorem noEffect_starved :
    NoEffect .synchronize (loaded (toyRcu (Fin 2))) (starved 0 1) := by
  refine (noEffect_iff .toy ⟨0, _, rfl⟩ (s := _) rfl).mpr fun t k j _ _ hj => ?_
  have hcopy := List.mem_of_getElem? hj
  simp [starved] at hcopy

/-- The updater 1 goes on to the copy. -/
theorem not_noEffect : (foo (toyRcu (Fin 2)) .synchronize).init (loaded _) ∧
    ((foo (toyRcu (Fin 2)) .synchronize).run (loaded _)
      (starved 0 1 ++ [.update 1 .copy])).isSome ∧
    ¬ NoEffect .synchronize (loaded (toyRcu (Fin 2))) (starved 0 1 ++ [.update 1 .copy]) := by
  refine ⟨⟨0, _, rfl⟩, by decide +kernel, fun h => ?_⟩
  obtain ⟨o, ho, -⟩ := h.safe 10 _ (.update 1 .copy) (.write none) rfl rfl (by decide +kernel)
  cases ho

end KernelMemo.Rcu
