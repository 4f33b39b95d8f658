import KernelMemo.Rcu.FooInvariant

/-! # The samples over any RCU do what they do over the documented one

`State.Rel R` relates a state of a sample over the implementation `A` to a state over the
documented semantics: same memory, same threads, and every ticket of `A` in flight covers the
grace period at the same place.  `State.Rel.step` matches every step of the one by the same
step of the other.  `Tracked R s` says that `s` is related to a state with the invariant of
`FooInvariant.lean`; it holds along every run, so what the invariant says about memory and
threads holds of the samples over `A`. -/

namespace KernelMemo.Rcu

open GracePeriod

variable {τ : Type} [DecidableEq τ] [Fintype τ] {A : Api τ}

/-- Related states over `A` and over the documented semantics. -/
structure State.Rel (R : Implements A) (s : State A) (d : State (documented (τ := τ))) :
    Prop where
  gblFoo : s.gblFoo = d.gblFoo
  heap : s.heap = d.heap
  fooMutex : s.fooMutex = d.fooMutex
  pc : s.pc = d.pc
  queued : s.queued = d.queued
  rcu : R.rel s.rcu d.rcu
  gp : ∀ t, Option.Rel (R.covers d.rcu) (s.gp t) (d.gp t)
  callbacks : ∀ i, Option.Rel (fun x y => x.1 = y.1 ∧ R.covers d.rcu x.2 y.2)
    (s.callbacks i) (d.callbacks i)

theorem rel_update {ι α β : Type} [DecidableEq ι] {r : α → β → Prop} {f : ι → Option α}
    {g : ι → Option β} (h : ∀ i, Option.Rel r (f i) (g i)) (j : ι) {x : Option α} {y : Option β}
    (hxy : Option.Rel r x y) (i : ι) :
    Option.Rel r (Function.update f j x i) (Function.update g j y i) := by
  by_cases hi : i = j
  · subst hi; simpa using hxy
  · simpa [hi] using h i

theorem rel_mono {α β : Type} {r r' : α → β → Prop} (hr : ∀ x y, r x y → r' x y) {x : Option α}
    {y : Option β} (h : Option.Rel r x y) : Option.Rel r' x y := by
  cases h with
  | some hxy => exact .some (hr _ _ hxy)
  | none => exact .none

/-- A step that leaves the RCU alone: the same change of memory and place on both sides. -/
theorem State.Rel.same {R : Implements A} {s : State A} {d : State (documented (τ := τ))}
    (h : State.Rel R s d) (g : Ptr) (hp : Heap Foo) (m : Option τ) (t : τ) (p : Pc) :
    State.Rel R ({ s with gblFoo := g, heap := hp, fooMutex := m }.goto t p)
      ({ d with gblFoo := g, heap := hp, fooMutex := m }.goto t p) :=
  ⟨rfl, rfl, rfl,
    by rw [State.goto_pc, State.goto_pc]; exact congrArg (fun f => Function.update f t p) h.pc,
    h.queued, h.rcu, h.gp, h.callbacks⟩

/-- A step of the RCU that lets every ticket in flight cover what it covered. -/
theorem State.Rel.withRcu {R : Implements A} {s : State A} {d : State (documented (τ := τ))}
    (h : State.Rel R s d) {a : A.State} {k : Sections τ} (hrel : R.rel a k)
    (hcov : ∀ x g, R.covers d.rcu x g → R.covers k x g) :
    State.Rel R { s with rcu := a } { d with rcu := k } :=
  ⟨h.gblFoo, h.heap, h.fooMutex, h.pc, h.queued, hrel, fun t => rel_mono hcov (h.gp t),
    fun i => rel_mono (fun _ _ hxy => ⟨hxy.1, hcov _ _ hxy.2⟩) (h.callbacks i)⟩

theorem State.Rel.fooGetA {R : Implements A} {s s' : State A}
    {d : State (documented (τ := τ))} {t : τ} {a : GetStep} (h : State.Rel R s d) (hd : Inv d)
    (hs : fooGetA s t a = some s') : ∃ d', fooGetA d t a = some d' ∧ State.Rel R s' d' := by
  obtain ⟨gblFoo, heap, fooMutex, rcu, pc, gp, callbacks, queued⟩ := s
  obtain ⟨gblFoo', heap', fooMutex', rcu', pc', gp', callbacks', queued'⟩ := d
  have h₀ := h
  obtain ⟨hg, hh, hm, hp, hq, hrcu, hgp, hcb⟩ := h
  dsimp only at hg hh hm hp hq hrcu hgp hcb
  subst hg hh hm hp hq
  cases a with
  | call =>
      simp only [Rcu.fooGetA] at hs
      split at hs <;> cases hs
      rename_i hpc
      exact ⟨_, by simp only [Rcu.fooGetA, hpc], h₀.same _ _ _ t _⟩
  | readLock =>
      simp only [Rcu.fooGetA] at hs
      split at hs
      · rename_i hpc
        obtain ⟨a, ha, rfl⟩ := Option.map_eq_some_iff.mp hs
        exact ⟨_, by simp only [Rcu.fooGetA, hpc, Option.map_some],
          (h₀.withRcu (R.lock hrcu ha) fun _ _ => R.covers_lock t).same _ _ _ t _⟩
      · cases hs
  | dereference =>
      simp only [Rcu.fooGetA] at hs
      split at hs <;> cases hs
      rename_i hpc
      exact ⟨_, by simp only [Rcu.fooGetA, hpc], h₀.same _ _ _ t _⟩
  | readA =>
      simp only [Rcu.fooGetA] at hs
      split at hs <;> cases hs <;> rename_i hpc <;>
        exact ⟨_, by simp only [Rcu.fooGetA, hpc], h₀.same _ _ _ t _⟩
  | readUnlock =>
      simp only [Rcu.fooGetA] at hs
      split at hs
      · rename_i v hpc
        obtain ⟨a, ha, rfl⟩ := Option.map_eq_some_iff.mp hs
        -- the reader is inside its section, so the documented unlock is enabled
        have hpos : 0 < rcu'.depth t := by
          have := hd.depth t
          simp only [hpc, Pc.reading, if_true] at this
          omega
        obtain ⟨k, hk⟩ := Sections.unlock_isSome hpos
        exact ⟨_, by simp only [Rcu.fooGetA, hpc, hk, Option.map_some],
          (h₀.withRcu (R.unlock hrcu ha hk) fun _ _ hc => R.covers_unlock hc hk).same _ _ _ t _⟩
      · cases hs
  | ret v =>
      simp only [Rcu.fooGetA] at hs
      split at hs
      · rename_i hpc
        split_ifs at hs with hv
        cases hs
        exact ⟨_, by simp only [Rcu.fooGetA, hpc, if_pos hv], h₀.same _ _ _ t _⟩
      · cases hs

theorem State.Rel.fooUpdateA {R : Implements A} {v : Reclaim} {s s' : State A}
    {d : State (documented (τ := τ))} {t : τ} {a : UpdateStep} (h : State.Rel R s d)
    (hs : fooUpdateA v s t a = some s') :
    ∃ d', fooUpdateA v d t a = some d' ∧ State.Rel R s' d' := by
  obtain ⟨gblFoo, heap, fooMutex, rcu, pc, gp, callbacks, queued⟩ := s
  obtain ⟨gblFoo', heap', fooMutex', rcu', pc', gp', callbacks', queued'⟩ := d
  have h₀ := h
  obtain ⟨hg, hh, hm, hp, hq, hrcu, hgp, hcb⟩ := h
  dsimp only at hg hh hm hp hq hrcu hgp hcb
  subst hg hh hm hp hq
  cases a with
  | call newA =>
      simp only [Rcu.fooUpdateA] at hs
      split at hs <;> cases hs
      rename_i hpc
      exact ⟨_, by simp only [Rcu.fooUpdateA, hpc], h₀.same _ _ _ t _⟩
  | kmalloc r =>
      cases r with
      | none =>
          simp only [Rcu.fooUpdateA] at hs
          split at hs <;> cases hs
          rename_i hpc
          exact ⟨_, by simp only [Rcu.fooUpdateA, hpc], h₀.same _ _ _ t _⟩
      | some ox =>
          simp only [Rcu.fooUpdateA] at hs
          split at hs
          · rename_i hpc
            obtain ⟨hp, halloc, rfl⟩ := Option.map_eq_some_iff.mp hs
            exact ⟨_, by simp only [Rcu.fooUpdateA, hpc, halloc, Option.map_some],
              h₀.same _ _ _ t _⟩
          · cases hs
  | spinLock =>
      simp only [Rcu.fooUpdateA] at hs
      split at hs <;> cases hs
      rename_i hpc
      exact ⟨_, by simp only [Rcu.fooUpdateA, hpc], h₀.same _ _ _ t _⟩
  | dereference =>
      simp only [Rcu.fooUpdateA] at hs
      split at hs <;> cases hs
      rename_i hpc
      exact ⟨_, by simp only [Rcu.fooUpdateA, hpc], h₀.same _ _ _ t _⟩
  | copy =>
      simp only [Rcu.fooUpdateA] at hs
      split at hs <;> cases hs <;> rename_i hpc <;>
        exact ⟨_, by simp only [Rcu.fooUpdateA, hpc], h₀.same _ _ _ t _⟩
  | storeA =>
      simp only [Rcu.fooUpdateA] at hs
      split at hs <;> cases hs <;> rename_i hpc <;>
        exact ⟨_, by simp only [Rcu.fooUpdateA, hpc], h₀.same _ _ _ t _⟩
  | assign =>
      simp only [Rcu.fooUpdateA] at hs
      split at hs <;> cases hs
      rename_i hpc
      exact ⟨_, by simp only [Rcu.fooUpdateA, hpc], h₀.same _ _ _ t _⟩
  | spinUnlock =>
      simp only [Rcu.fooUpdateA] at hs
      split at hs <;> cases hs
      rename_i hpc
      exact ⟨_, by simp only [Rcu.fooUpdateA, hpc], h₀.same _ _ _ t _⟩
  | synchronizeStart =>
      simp only [Rcu.fooUpdateA] at hs
      split at hs
      · rename_i hpc
        obtain ⟨⟨a, x⟩, ha, rfl⟩ := Option.map_eq_some_iff.mp hs
        obtain ⟨hrel, hcov⟩ := R.start hrcu ha
        refine ⟨_, by simp only [Rcu.fooUpdateA, hpc, Option.map_some]; rfl, ?_⟩
        exact ⟨rfl, rfl, rfl, rfl, rfl, hrel, rel_update hgp t (.some hcov), hcb⟩
      · cases hs
  | synchronizeFinish =>
      simp only [Rcu.fooUpdateA] at hs
      split at hs
      · rename_i oldFp x hpc hx
        obtain ⟨a, ha, rfl⟩ := Option.map_eq_some_iff.mp hs
        have hxt := hgp t
        rw [hx] at hxt
        generalize hy : gp' t = y at hxt
        obtain ⟨hcov⟩ := hxt
        obtain ⟨hrel, hover⟩ := R.finish hrcu hcov ha
        refine ⟨_, by simp only [Rcu.fooUpdateA, hpc, hy, if_pos hover, Option.map_some]; rfl, ?_⟩
        exact ⟨rfl, rfl, rfl, rfl, rfl, hrel, rel_update hgp t .none, hcb⟩
      · cases hs
  | kfree =>
      simp only [Rcu.fooUpdateA] at hs
      split at hs <;> cases hs <;> rename_i hpc <;>
        exact ⟨_, by simp only [Rcu.fooUpdateA, hpc], h₀.same _ _ _ t _⟩
  | callRcu =>
      simp only [Rcu.fooUpdateA] at hs
      split at hs
      · rename_i hpc
        obtain ⟨⟨a, x⟩, ha, rfl⟩ := Option.map_eq_some_iff.mp hs
        obtain ⟨hrel, hcov⟩ := R.start hrcu ha
        refine ⟨_, by simp only [Rcu.fooUpdateA, hpc, Option.map_some]; rfl, ?_⟩
        exact ⟨rfl, rfl, rfl, rfl, rfl, hrel, hgp, rel_update hcb queued (.some ⟨rfl, hcov⟩)⟩
      · rename_i hpc
        cases hs
        exact ⟨_, by simp only [Rcu.fooUpdateA, hpc], h₀.same _ _ _ t _⟩
      · cases hs
  | ret =>
      simp only [Rcu.fooUpdateA] at hs
      split at hs <;> cases hs
      rename_i hpc
      exact ⟨_, by simp only [Rcu.fooUpdateA, hpc], h₀.same _ _ _ t _⟩

theorem State.Rel.fooReclaim {R : Implements A} {s s' : State A}
    {d : State (documented (τ := τ))} {i : ℕ} (h : State.Rel R s d)
    (hs : fooReclaim s i = some s') : ∃ d', fooReclaim d i = some d' ∧ State.Rel R s' d' := by
  obtain ⟨gblFoo, heap, fooMutex, rcu, pc, gp, callbacks, queued⟩ := s
  obtain ⟨gblFoo', heap', fooMutex', rcu', pc', gp', callbacks', queued'⟩ := d
  obtain ⟨hg, hh, hm, hp, hq, hrcu, hgp, hcb⟩ := h
  dsimp only at hg hh hm hp hq hrcu hgp hcb
  subst hg hh hm hp hq
  simp only [Rcu.fooReclaim] at hs
  split at hs
  · rename_i o x hi
    obtain ⟨a, ha, rfl⟩ := Option.map_eq_some_iff.mp hs
    have hxi := hcb i
    rw [hi] at hxi
    generalize hy : callbacks' i = y at hxi
    obtain @⟨_, ⟨o', g⟩, ⟨rfl, hcov⟩⟩ := hxi
    obtain ⟨hrel, hover⟩ := R.finish hrcu hcov ha
    refine ⟨_, by simp only [Rcu.fooReclaim, hy, if_pos hover, Option.map_some]; rfl, ?_⟩
    exact ⟨rfl, rfl, rfl, rfl, rfl, hrel, hgp, rel_update hcb i .none⟩
  · cases hs

/-- Every step of a sample over `A` is a step of it over the documented semantics. -/
theorem State.Rel.step {R : Implements A} {v : Reclaim} {s s' : State A}
    {d : State (documented (τ := τ))} {e : Event τ} (h : State.Rel R s d) (hd : Inv d)
    (hs : step v s e = some s') : ∃ d', step v d e = some d' ∧ State.Rel R s' d' := by
  cases e with
  | get t a => exact h.fooGetA hd hs
  | update t a => exact h.fooUpdateA hs
  | reclaim i => exact h.fooReclaim hs

/-! ### States with the invariant -/

/-- The state is related to one with the invariant. -/
def Tracked (R : Implements A) (s : State A) : Prop := ∃ d, State.Rel R s d ∧ Inv d

theorem Tracked.step {R : Implements A} {v : Reclaim} {s s' : State A} {e : Event τ}
    (h : Tracked R s) (hs : step v s e = some s') : Tracked R s' := by
  obtain ⟨d, hrel, hd⟩ := h
  obtain ⟨d', hd', hrel'⟩ := hrel.step hd hs
  exact ⟨d', hrel', hd.step hd'⟩

theorem tracked_initFoo (R : Implements A) {o : Obj} {x : Foo} {s : State A}
    (h : initFoo (State.blank A) o x = some s) : Tracked R s := by
  have hd : initFoo (State.blank (documented (τ := τ))) o x = some { State.blank documented with
      gblFoo := some o
      heap := ⟨Function.update (fun _ => .unborn) o .live,
        Function.update (State.blank A).heap.mem o { x.raw with a := ⟨5, true⟩ }⟩ } := by
    simp [initFoo, initFooKmalloc, initFooSetA, Heap.alloc, Heap.write, State.blank]
  refine ⟨_, ?_, Inv.initFoo hd⟩
  rw [initFoo_eq_some h]
  exact ⟨rfl, rfl, rfl, rfl, rfl, R.init, fun _ => .none, fun _ => .none⟩

/-- Every state that a sample over `A` reaches is tracked. -/
theorem tracked_of_run (R : Implements A) {v : Reclaim} {s₀ s : State A} {es : List (Event τ)}
    (h₀ : (foo A v).init s₀) (h : (foo A v).run s₀ es = some s) : Tracked R s := by
  obtain ⟨o, x, hinit⟩ := h₀
  exact Lts.run_invariant (P := Tracked R) (E := fun _ => True)
    (fun _ _ _ _ hc hs => hc.step hs) (fun _ _ => trivial) h (tracked_initFoo R hinit)

theorem State.Rel.owns {R : Implements A} {s : State A} {d : State (documented (τ := τ))}
    (h : State.Rel R s d) : s.owns = d.owns := by
  funext w
  cases w with
  | gbl => exact h.gblFoo
  | newFp t => simp only [State.owns, h.pc]
  | oldFp t => simp only [State.owns, h.pc]
  | callback i =>
      have hi := h.callbacks i
      simp only [State.owns]
      generalize s.callbacks i = x, d.callbacks i = y at hi
      cases hi with
      | some hxy => simp only [Option.map_some, hxy.1]
      | none => rfl

section Tracked

variable {R : Implements A} {s : State A} (h : Tracked R s)
include h

theorem Tracked.ledger : Ledger s.owns s.heap.Live := by
  obtain ⟨d, hrel, hd⟩ := h
  rw [hrel.owns, hrel.heap]
  exact hd.ledger

theorem Tracked.gbl : ∃ g, s.gblFoo = some g ∧ s.heap.Live g ∧
    (s.heap.mem g).a.written = true := by
  obtain ⟨g, hg, hw⟩ := h.choose_spec.2.gbl
  have hrel := h.choose_spec.1
  rw [← hrel.gblFoo] at hg
  rw [← hrel.heap] at hw
  exact ⟨g, hg, h.ledger.live_of_owns (w := .gbl) hg, hw⟩

/-- A reader holds an object that somebody owns. -/
theorem Tracked.getLoaded {t : τ} {p : Ptr} (hpc : s.pc t = .getLoaded p) :
    ∃ o w, p = some o ∧ s.owns w = some o ∧ ∀ u, w ≠ .newFp u := by
  obtain ⟨d, hrel, hd⟩ := h
  have hl := hd.annotation t
  rw [← hrel.pc, hpc] at hl
  obtain ⟨o, w, rfl, hw, hs⟩ := hl
  refine ⟨o, w, rfl, by rwa [hrel.owns], ?_⟩
  rintro u rfl
  exact hs

theorem Tracked.updLoaded {t : τ} {newA : Int32} {newFp oldFp : Ptr}
    (hpc : s.pc t = .updLoaded newA newFp oldFp) : oldFp = s.gblFoo := by
  obtain ⟨d, hrel, hd⟩ := h
  have hl := hd.annotation t
  rw [← hrel.pc, hpc] at hl
  exact hl.2.trans hrel.gblFoo.symm

theorem Tracked.updCopied {t : τ} {newA : Int32} {newFp oldFp : Ptr}
    (hpc : s.pc t = .updCopied newA newFp oldFp) : newFp ≠ none := by
  obtain ⟨d, hrel, hd⟩ := h
  have hl := hd.annotation t
  rw [← hrel.pc, hpc] at hl
  obtain ⟨-, -, n, g, rfl, -⟩ := hl
  simp

/-- Before the publication `new_fp` is the current object but for `a`. -/
theorem Tracked.updSet {t : τ} {newA : Int32} {newFp oldFp : Ptr}
    (hpc : s.pc t = .updSet newA newFp oldFp) : oldFp = s.gblFoo ∧
      ∃ n g, newFp = some n ∧ s.gblFoo = some g ∧
        s.heap.mem n = { s.heap.mem g with a := ⟨newA, true⟩ } := by
  obtain ⟨d, hrel, hd⟩ := h
  have hl := hd.annotation t
  rw [← hrel.pc, hpc] at hl
  rw [hrel.gblFoo, hrel.heap]
  exact hl.2

/-- A replaced object that waits for its reclamation is not `NULL`. -/
theorem Tracked.oldFp {t : τ} {oldFp : Ptr} (hpc : s.pc t = .updPublished oldFp ∨
    s.pc t = .updUnlocked oldFp ∨ s.pc t = .updWaiting oldFp ∨ s.pc t = .updWaited oldFp) :
    ∃ o, oldFp = some o ∧ s.owns (.oldFp t) = some o := by
  obtain ⟨d, hrel, hd⟩ := h
  have hl := hd.annotation t
  rw [← hrel.pc] at hl
  have hne : oldFp ≠ none := by
    rcases hpc with hpc | hpc | hpc | hpc <;> rw [hpc] at hl
    exacts [hl.2, hl, hl, hl]
  obtain ⟨o, rfl⟩ := Option.ne_none_iff_exists'.mp hne
  refine ⟨o, rfl, ?_⟩
  rcases hpc with hpc | hpc | hpc | hpc <;> simp [State.owns, hpc, Pc.oldFp]

end Tracked

end KernelMemo.Rcu
