import KernelMemo.Rcu.FooSafety

/-! # `foo_get_a` and `foo_update_a` are an atomic register

The operations take effect at one step each: `foo_update_a` at its `rcu_assign_pointer`,
`foo_get_a` at its `rcu_dereference`, both between the call and the return.

* **Publications.**  `publications` lists the object that `init_foo` leaves and the objects
  published since, in order; `version es m` is the number of publications before position `m`.
* **Operations.**  `GetOp` and `UpdateOp` give the positions of the call, the step that counts
  and the return of one operation.
* **The register.**  `Register` says what the history of a run is; `register_of_run` proves it
  for any implementation of RCU and both ways to reclaim. -/

namespace KernelMemo.Rcu

open GracePeriod

variable {τ : Type}

/-! ### The history of a run -/

/-- A call or a return of the thread. -/
def Event.Borders (t : τ) : Event τ → Prop
  | .get u .call => u = t
  | .get u (.ret _) => u = t
  | .update u (.call _) => u = t
  | .update u .ret => u = t
  | _ => False

/-- `rcu_assign_pointer`. -/
def Event.publishes : Event τ → Bool
  | .update _ .assign => true
  | _ => false

/-- The publications before position `m`. -/
def version (es : List (Event τ)) (m : ℕ) : ℕ := (es.take m).countP Event.publishes

/-- A `foo_get_a` of `t` that is called at `i`, loads `gbl_foo` at `m` and returns at `j`. -/
structure GetOp (es : List (Event τ)) (t : τ) (i m j : ℕ) (retval : Int32) : Prop where
  call : es[i]? = some (.get t .call)
  load : es[m]? = some (.get t .dereference)
  ret : es[j]? = some (.get t (.ret retval))
  call_lt : i < m
  lt_ret : m < j
  alone : ∀ k e, i < k → k < j → es[k]? = some e → ¬ e.Borders t

/-- A `foo_update_a(newA)` of `t` that is called at `i` and publishes at `m`. -/
structure Publication (es : List (Event τ)) (t : τ) (newA : Int32) (i m : ℕ) : Prop where
  call : es[i]? = some (.update t (.call newA))
  publish : es[m]? = some (.update t .assign)
  call_lt : i < m
  alone : ∀ k e, i < k → k < m → es[k]? = some e → ¬ e.Borders t

/-- A `foo_update_a(newA)` of `t` that is called at `i`, publishes at `m` and returns at `j`. -/
structure UpdateOp (es : List (Event τ)) (t : τ) (newA : Int32) (i m j : ℕ) : Prop where
  publication : Publication es t newA i m
  ret : es[j]? = some (.update t .ret)
  lt_ret : m < j
  alone : ∀ k e, m < k → k < j → es[k]? = some e → ¬ e.Borders t

variable {A : Api τ}

/-- The object that `gbl_foo` points to. -/
def State.current (s : State A) : Option Foo := s.gblFoo.map s.heap.mem

/-- The object that a step publishes. -/
def published (s : State A) : Event τ → List Foo
  | .update t .assign =>
      match s.pc t with
      | .updSet _ newFp _ => (newFp.map s.heap.mem).toList
      | _ => []
  | _ => []

variable [DecidableEq τ]

/-- The object that `init_foo` leaves and those published since. -/
def publications (v : Reclaim) (s₀ : State A) (es : List (Event τ)) : List Foo :=
  s₀.current.toList ++ (foo A v).collect published s₀ es

/-- The history of a run is one of an atomic register without lost update.  A read observes
the publication with the number `version es m`, where `m` is its load; an update makes the one
with the number `version es (m + 1)`, where `m` is its `rcu_assign_pointer`. -/
structure Register (v : Reclaim) (s₀ : State A) (es : List (Event τ)) : Prop where
  /-- The current object is the last publication, at every instant. -/
  current : ∀ m c, (foo A v).At s₀ es m c →
    c.current = (publications v s₀ es)[version es m]? ∧ c.current.isSome
  /-- A publication is its predecessor with `a` set to the argument of the update. -/
  successor : ∀ n y, (publications v s₀ es)[n + 1]? = some y →
    ∃ x t newA i m, (publications v s₀ es)[n]? = some x ∧ y = { x with a := ⟨newA, true⟩ } ∧
      Publication es t newA i m ∧ version es m = n
  /-- The fields `b` and `c` never change. -/
  fields : ∀ x y, x ∈ publications v s₀ es → y ∈ publications v s₀ es → x.b = y.b ∧ x.c = y.c
  /-- Every return of `foo_get_a` ends an operation. -/
  get_ret : ∀ t j retval, es[j]? = some (.get t (.ret retval)) → ∃ i m, GetOp es t i m j retval
  /-- `foo_get_a` returns the `a` of the publication that it loaded. -/
  get_value : ∀ t i m j retval, GetOp es t i m j retval →
    ∃ x, (publications v s₀ es)[version es m]? = some x ∧ x.a.bits = retval
  /-- Every return of `foo_update_a` ends an operation. -/
  update_ret : ∀ t j, es[j]? = some (.update t .ret) → ∃ newA i m, UpdateOp es t newA i m j
  /-- A read that begins after another one has returned observes nothing older. -/
  get_get : ∀ t i m j retval t' i' m' j' retval', GetOp es t i m j retval →
    GetOp es t' i' m' j' retval' → j < i' → version es m ≤ version es m'
  /-- A read that begins after an update has returned observes nothing older. -/
  update_get : ∀ t newA i m j t' i' m' j' retval', UpdateOp es t newA i m j →
    GetOp es t' i' m' j' retval' → j < i' → version es (m + 1) ≤ version es m'

/-! ### The place of a thread inside an operation -/

namespace Pc

/-- Inside `foo_get_a`. -/
def getting : Pc → Bool
  | getEnter => true
  | getLocked => true
  | getLoaded _ => true
  | getRead _ => true
  | getUnlocked _ => true
  | _ => false

/-- The argument of `foo_update_a`, up to the publication. -/
def arg : Pc → Option Int32
  | updEnter a => some a
  | updAlloced a _ => some a
  | updLocked a _ => some a
  | updLoaded a _ _ => some a
  | updCopied a _ _ => some a
  | updSet a _ _ => some a
  | _ => none

/-- Inside `foo_update_a`, behind the publication. -/
def behind : Pc → Bool
  | updPublished _ => true
  | updUnlocked _ => true
  | updWaiting _ => true
  | updWaited _ => true
  | updDone => true
  | _ => false

end Pc

/-- What `foo_get_a` returns, once it has loaded `gbl_foo`. -/
def Pc.result (h : Heap Foo) : Pc → Option Int32
  | getLoaded (some o) => some (h.mem o).a.bits
  | getRead retval => some retval
  | getUnlocked retval => some retval
  | _ => none

theorem Pc.getting_of_result {h : Heap Foo} {p : Pc} {retval : Int32}
    (hr : p.result h = some retval) : p.getting := by
  cases p <;> first | rfl | cases hr

section step

variable {v : Reclaim} {s s' : State A} {e : Event τ} (hs : step v s e = some s') {t : τ}
include hs

theorem idle_of_borders (he : e.Borders t) : s.pc t = .idle ∨ s'.pc t = .idle := by
  cases e with
  | get u a =>
      obtain ⟨p, hpc, hflow, -⟩ := getFlow_of_step hs
      rw [hpc]
      cases a <;> cases he <;> rw [Function.update_self] <;>
        generalize s.pc t = q at hflow ⊢ <;> cases hflow
      exacts [.inl rfl, .inr rfl]
  | update u a =>
      obtain ⟨p, hpc, hflow⟩ := updateFlow_of_step hs
      rw [hpc]
      cases a <;> cases he <;> rw [Function.update_self] <;>
        generalize s.pc t = q, s'.gblFoo = g, s'.heap = hp, s'.fooMutex = m at hflow ⊢ <;>
        cases hflow
      exacts [.inl rfl, .inr rfl]
  | reclaim i => exact he.elim

theorem getting_of_step (h : (s'.pc t).getting) : (s.pc t).getting ∨ e = .get t .call := by
  rcases pc_of_step hs t with hpc | ⟨a, rfl, -, hflow⟩ | ⟨a, rfl, hflow⟩
  · exact .inl (hpc ▸ h)
  · generalize s.pc t = q, s'.pc t = p at hflow h
    cases hflow <;> first | exact .inl rfl | exact .inr rfl
  · generalize s.pc t = q, s'.pc t = p, s'.gblFoo = g, s'.heap = hp, s'.fooMutex = m at hflow h
    cases hflow <;> cases h

theorem arg_of_step {newA : Int32} (h : (s'.pc t).arg = some newA) :
    (s.pc t).arg = some newA ∨ e = .update t (.call newA) := by
  rcases pc_of_step hs t with hpc | ⟨a, rfl, -, hflow⟩ | ⟨a, rfl, hflow⟩
  · exact .inl (hpc ▸ h)
  · generalize s.pc t = q, s'.pc t = p at hflow h
    cases hflow <;> cases h
  · generalize s.pc t = q, s'.pc t = p, s'.gblFoo = g, s'.heap = hp, s'.fooMutex = m at hflow h
    cases hflow <;> cases h <;> first | exact .inl rfl | exact .inr rfl

theorem behind_of_step (h : (s'.pc t).behind) :
    (s.pc t).behind ∨ e = .update t .assign := by
  rcases pc_of_step hs t with hpc | ⟨a, rfl, -, hflow⟩ | ⟨a, rfl, hflow⟩
  · exact .inl (hpc ▸ h)
  · generalize s.pc t = q, s'.pc t = p at hflow h
    cases hflow <;> cases h
  · generalize s.pc t = q, s'.pc t = p, s'.gblFoo = g, s'.heap = hp, s'.fooMutex = m at hflow h
    cases hflow <;> first | exact .inl rfl | exact .inr rfl | cases h

theorem arg_of_assign (he : e = .update t .assign) : ∃ newA, (s.pc t).arg = some newA := by
  subst he
  obtain ⟨p, -, hflow⟩ := updateFlow_of_step hs
  generalize s.pc t = q, s'.gblFoo = g, s'.heap = hp, s'.fooMutex = m at hflow ⊢
  cases hflow
  exact ⟨_, rfl⟩

variable [Fintype τ] {R : Implements A} (h : Tracked R s)
include h

theorem result_frame : (s.pc t).result s'.heap = (s.pc t).result s.heap := by
  cases hpc : s.pc t with
  | getLoaded p =>
      obtain ⟨o, w, rfl, hw, hne⟩ := h.getLoaded hpc
      rcases (Published.of_owns h hw hne).mem hs with hm | ⟨u, -, -, hm⟩ <;>
        simp only [Pc.result, hm]
  | _ => rfl

/-- The result is decided by `rcu_dereference`: it is the `a` of the current object. -/
theorem result_of_step {retval : Int32} (hr : (s'.pc t).result s'.heap = some retval) :
    (s.pc t).result s.heap = some retval ∨ e = .get t .dereference := by
  have hframe := result_frame hs h (t := t)
  rcases pc_of_step hs t with hpc | ⟨a, rfl, hheap, hflow⟩ | ⟨a, rfl, hflow⟩
  · rw [hpc, hframe] at hr
    exact .inl hr
  · generalize s.pc t = q, s'.pc t = p at hflow hr
    cases hflow with
    | dereference => exact .inr rfl
    | readA o => exact .inl hr
    | readUnlock retval => exact .inl hr
    | _ => cases hr
  · generalize s.pc t = q, s'.pc t = p, s'.gblFoo = g, s'.heap = hp, s'.fooMutex = m at hflow hr
    cases hflow <;> cases hr

theorem result_stable {retval : Int32} (hr : (s.pc t).result s.heap = some retval)
    (he : ¬ e.Borders t) : (s'.pc t).result s'.heap = some retval := by
  have hframe := result_frame hs h (t := t)
  rcases pc_of_step hs t with hpc | ⟨a, rfl, hheap, hflow⟩ | ⟨a, rfl, hflow⟩
  · rw [hpc, hframe, hr]
  · generalize s.pc t = q, s'.pc t = p at hflow hr
    cases hflow with
    | readA o => exact hr
    | readUnlock retval => exact hr
    | ret retval => exact absurd rfl he
    | _ => cases hr
  · exfalso
    generalize s.pc t = q, s'.pc t = p, s'.gblFoo = g, s'.heap = hp, s'.fooMutex = m at hflow hr
    cases hflow <;> cases hr

theorem result_of_dereference (he : e = .get t .dereference) :
    ∃ x, s.current = some x ∧ (s'.pc t).result s'.heap = some x.a.bits := by
  subst he
  obtain ⟨g, hg, -⟩ := h.gbl
  obtain ⟨p, hpc, hflow, -, hheap, -⟩ := getFlow_of_step hs
  refine ⟨s.heap.mem g, by rw [State.current, hg]; rfl, ?_⟩
  rw [hpc, Function.update_self, hheap]
  generalize s.pc t = q at hflow
  cases hflow
  rw [hg]
  rfl

/-- The current object changes with `rcu_assign_pointer` only, and in `a` only. -/
theorem current_of_step : ∃ x, s.current = some x ∧
    ((e.publishes = false ∧ published s e = [] ∧ s'.current = some x) ∨
      ∃ u newA, e = .update u .assign ∧ (s.pc u).arg = some newA ∧
        published s e = [{ x with a := ⟨newA, true⟩ }] ∧
        s'.current = some { x with a := ⟨newA, true⟩ }) := by
  obtain ⟨g, hg, -⟩ := h.gbl
  refine ⟨s.heap.mem g, by rw [State.current, hg]; rfl, ?_⟩
  have hsame (hgbl : s'.gblFoo = s.gblFoo) (hm : s'.heap.mem g = s.heap.mem g) :
      s'.current = some (s.heap.mem g) := by
    rw [State.current, hgbl, hg, Option.map_some, hm]
  cases e with
  | get u a =>
      obtain ⟨p, -, -, hgbl, hheap, -⟩ := getFlow_of_step hs
      exact .inl ⟨rfl, rfl, hsame hgbl (by rw [hheap])⟩
  | update u a =>
      obtain ⟨p, -, hflow⟩ := updateFlow_of_step hs
      rcases hflow.gblFoo with ⟨hne, hgbl⟩ | ⟨rfl, hgbl⟩
      · refine .inl ⟨?_, ?_, hsame hgbl ?_⟩
        · cases a <;> first | rfl | exact absurd rfl hne
        · cases a <;> first | rfl | exact absurd rfl hne
        · rcases (Published.of_owns h (w := .gbl) hg (by simp)).mem hs with hm | ⟨w, -, hpc, -⟩
          · exact hm
          · -- the object that goes to `call_rcu` is not the one of `gbl_foo`
            cases h.ledger.unique (w := .gbl) (z := .oldFp w) hg
              (by simp [State.owns, hpc, Pc.oldFp])
      · right
        cases hpc : s.pc u with
        | updSet newA newFp oldFp =>
            obtain ⟨-, n, g', rfl, hg', hm⟩ := h.updSet hpc
            cases hg.symm.trans hg'
            refine ⟨u, newA, rfl, by rw [hpc]; rfl, by simp [published, hpc, hm], ?_⟩
            have hheap : s'.heap = s.heap := by
              rw [hpc] at hflow
              generalize s'.gblFoo = g', s'.heap = hp, s'.fooMutex = m at hflow ⊢
              cases hflow
              rfl
            rw [State.current, hgbl, hpc, hheap]
            simp [Pc.newFp, hm]
        | _ =>
            rw [hpc] at hflow
            generalize s'.gblFoo = g', s'.heap = hp, s'.fooMutex = m at hflow
            cases hflow
  | reclaim i =>
      obtain ⟨o, x, -, hheap, -, hgbl, -⟩ := reclaim_of_step hs
      exact .inl ⟨rfl, rfl, hsame hgbl (by rw [hheap, Heap.free_mem])⟩

end step

/-! ### Runs -/

omit [DecidableEq τ] in
theorem version_mono (es : List (Event τ)) {m n : ℕ} (h : m ≤ n) :
    version es m ≤ version es n :=
  (List.take_sublist_take_left h).countP_le

omit [DecidableEq τ] in
theorem version_succ {es : List (Event τ)} {m : ℕ} {e : Event τ} (he : es[m]? = some e) :
    version es (m + 1) = version es m + if e.publishes then 1 else 0 := by
  rw [version, List.take_add_one, he, List.countP_append, Option.toList_some,
    List.countP_singleton]
  rfl

omit [DecidableEq τ] in
theorem exists_version {es : List (Event τ)} {n : ℕ} (h : n < es.countP Event.publishes) :
    ∃ m e, es[m]? = some e ∧ e.publishes = true ∧ version es m = n := by
  induction es generalizing n with
  | nil => cases h
  | cons e es ih =>
      cases hp : e.publishes with
      | true =>
          cases n with
          | zero => exact ⟨0, e, rfl, hp, rfl⟩
          | succ n =>
              rw [List.countP_cons, if_pos hp] at h
              obtain ⟨m, e', he', hp', hv⟩ := ih (n := n) (by omega)
              refine ⟨m + 1, e', he', hp', ?_⟩
              rw [version, List.take_succ_cons, List.countP_cons, if_pos hp]
              exact congrArg (· + 1) hv
      | false =>
          rw [List.countP_cons, hp, if_neg (by simp)] at h
          obtain ⟨m, e', he', hp', hv⟩ := ih h
          refine ⟨m + 1, e', he', hp', ?_⟩
          rw [version, List.take_succ_cons, List.countP_cons, hp]
          exact hv

variable [Fintype τ] {v : Reclaim} {s₀ s : State A} {es : List (Event τ)}

omit [Fintype τ] in
theorem not_borders (hrun : (foo A v).run s₀ es = some s) {P : Pc → Prop} {t : τ} {i j : ℕ}
    (hidle : ¬ P .idle) (hin : ∀ k d, i < k → k ≤ j → (foo A v).At s₀ es k d → P (d.pc t))
    (k : ℕ) (e : Event τ) (hik : i < k) (hkj : k < j) (he : es[k]? = some e) :
    ¬ e.Borders t := by
  intro hb
  obtain ⟨c, hc⟩ := Lts.exists_at hrun k
  obtain ⟨d, hd⟩ := Lts.exists_at hrun (k + 1)
  rcases idle_of_borders (hc.step hd he) hb with hp | hp
  · exact hidle (hp ▸ hin k c hik (by omega) hc)
  · exact hidle (hp ▸ hin (k + 1) d (by omega) (by omega) hd)

omit [Fintype τ] in
theorem pc_init (h₀ : (foo A v).init s₀) (t : τ) : s₀.pc t = .idle := by
  obtain ⟨o, x, hinit⟩ := h₀
  rw [initFoo_eq_some hinit]
  rfl

omit [Fintype τ] in
theorem publication_of_assign (h₀ : (foo A v).init s₀) (hrun : (foo A v).run s₀ es = some s)
    {t : τ} {m : ℕ} (hm : es[m]? = some (.update t .assign)) {newA : Int32} {c : State A}
    (hc : (foo A v).At s₀ es m c) (harg : (c.pc t).arg = some newA) :
    ∃ i, Publication es t newA i m := by
  obtain ⟨i, e, a, b, him, he, ha, hb, hstep, hna, -, hin⟩ := hc.entry
    (P := fun c => (c.pc t).arg = some newA) (by rw [pc_init h₀ t]; simp [Pc.arg]) harg
  obtain rfl : e = .update t (.call newA) :=
    (arg_of_step hstep (hin (i + 1) b (by omega) (by omega) hb)).resolve_left hna
  exact ⟨i, he, hm, him,
    not_borders hrun (P := fun p => p.arg = some newA) (by simp [Pc.arg]) hin⟩

omit [Fintype τ] in
theorem updateOp_of_ret (h₀ : (foo A v).init s₀) (hrun : (foo A v).run s₀ es = some s) {t : τ}
    {j : ℕ} (hj : es[j]? = some (.update t .ret)) : ∃ newA i m, UpdateOp es t newA i m j := by
  obtain ⟨c, hc⟩ := Lts.exists_at hrun j
  obtain ⟨d, hd⟩ := Lts.exists_at hrun (j + 1)
  have hpc : c.pc t = .updDone := by
    have hs : step v c (.update t .ret) = some d := hc.step hd hj
    obtain ⟨p, -, hflow⟩ := updateFlow_of_step hs
    generalize c.pc t = q, d.gblFoo = g, d.heap = hp, d.fooMutex = m at hflow ⊢
    cases hflow
    rfl
  obtain ⟨m, e, a, b, hmj, he, ha, hb, hstep, hna, -, hin⟩ := hc.entry
    (P := fun c => (c.pc t).behind) (by rw [pc_init h₀ t]; simp [Pc.behind])
    (by rw [hpc]; rfl)
  obtain rfl : e = .update t .assign :=
    (behind_of_step hstep (hin (m + 1) b (by omega) (by omega) hb)).resolve_left hna
  have hs : step v a (.update t .assign) = some b := hstep
  obtain ⟨newA, harg⟩ := arg_of_assign hs rfl
  obtain ⟨i, hpub⟩ := publication_of_assign h₀ hrun he ha harg
  exact ⟨newA, i, m, hpub, hj, hmj,
    not_borders hrun (P := fun p => p.behind) (by simp [Pc.behind]) hin⟩

section run

variable (R : Implements A) (h₀ : (foo A v).init s₀) (hrun : (foo A v).run s₀ es = some s)
include R h₀ hrun

theorem current_of_run : s.current.isSome ∧
    s.current = (publications v s₀ es)[es.countP Event.publishes]? ∧
    (publications v s₀ es).length = es.countP Event.publishes + 1 := by
  have htr {es : List (Event τ)} {c : State A} (hc : (foo A v).run s₀ es = some c) :
      Tracked R c := tracked_of_run R h₀ hc
  refine Lts.run_history (P := fun es c => c.current.isSome ∧
    c.current = (publications v s₀ es)[es.countP Event.publishes]? ∧
    (publications v s₀ es).length = es.countP Event.publishes + 1) ?_ ?_ hrun
  · obtain ⟨g, hg, -⟩ := (htr (Lts.run_nil _ s₀)).gbl
    simp [publications, Lts.collect, State.current, hg]
  · rintro es c e d hc ⟨-, hcur, hlen⟩ hs
    obtain ⟨x, hx, hstep⟩ := current_of_step hs (htr hc)
    have hpubs : publications v s₀ (es ++ [e]) = publications v s₀ es ++ published c e := by
      rw [publications, publications, Lts.collect_snoc _ hc, List.append_assoc]
    rw [hpubs, List.countP_append]
    rcases hstep with ⟨hp, hnil, hd⟩ | ⟨u, newA, rfl, -, hone, hd⟩
    · rw [hnil, hd, ← hx, List.append_nil, hx]
      simp only [List.countP_cons, List.countP_nil, hp]
      exact ⟨rfl, hx ▸ hcur, hlen⟩
    · rw [hone, hd]
      simp only [List.countP_cons, List.countP_nil, Event.publishes, List.length_append, hlen]
      simp [hlen]

omit hrun in
theorem current_at {m : ℕ} {c : State A} (hc : (foo A v).At s₀ es m c) :
    c.current.isSome ∧ c.current = (publications v s₀ es)[version es m]? := by
  obtain ⟨hsome, hcur, hlen⟩ := current_of_run R h₀ hc
  refine ⟨hsome, hcur.trans ?_⟩
  have hsplit : publications v s₀ es = publications v s₀ (es.take m) ++
      (foo A v).collect published c (es.drop m) := by
    rw [publications, publications, List.append_assoc, ← Lts.collect_append _ hc,
      List.take_append_drop]
  rw [hsplit, version, List.getElem?_append_left (by omega)]

theorem getOp_of_ret {t : τ} {j : ℕ} {retval : Int32} (hj : es[j]? = some (.get t (.ret retval))) :
    ∃ i m, GetOp es t i m j retval := by
  have hs₀ : s₀.pc t = .idle := pc_init h₀ t
  have htr {k : ℕ} {c : State A} (hc : (foo A v).At s₀ es k c) : Tracked R c :=
    tracked_of_run R h₀ hc
  obtain ⟨c, hc⟩ := Lts.exists_at hrun j
  obtain ⟨d, hd⟩ := Lts.exists_at hrun (j + 1)
  have hpc : c.pc t = .getUnlocked retval := by
    have hs : step v c (.get t (.ret retval)) = some d := hc.step hd hj
    obtain ⟨p, -, hflow, -⟩ := getFlow_of_step hs
    generalize c.pc t = q at hflow ⊢
    cases hflow
    rfl
  obtain ⟨m, e, a, b, hmj, he, ha, hb, hstep, hna, -, hres⟩ := hc.entry
    (P := fun c => (c.pc t).result c.heap = some retval) (by rw [hs₀]; simp [Pc.result])
    (by rw [hpc]; rfl)
  obtain ⟨i, e', a', b', hij, he', ha', hb', hstep', hna', -, hget⟩ := hc.entry
    (P := fun c => (c.pc t).getting) (by rw [hs₀]; simp [Pc.getting]) (by rw [hpc]; rfl)
  obtain rfl : e = .get t .dereference :=
    (result_of_step hstep (htr ha) (hres (m + 1) b (by omega) (by omega) hb)).resolve_left hna
  obtain rfl : e' = .get t .call :=
    (getting_of_step hstep' (hget (i + 1) b' (by omega) (by omega) hb')).resolve_left hna'
  have him : i < m := by
    rcases lt_trichotomy i m with h | rfl | h
    · exact h
    · rw [he] at he'
      cases he'
    · -- where there is a result, the thread is inside
      have hr := hres i a' h hij.le ha'
      exact absurd (Pc.getting_of_result hr) hna'
  exact ⟨i, m, he', he, hj, him, hmj,
    not_borders hrun (P := fun p => p.getting) (by simp [Pc.getting]) hget⟩

/-- `foo_get_a` returns the `a` of the object that is current at its load. -/
theorem getOp_value {t : τ} {i m j : ℕ} {retval : Int32} (hop : GetOp es t i m j retval) :
    ∃ x, (publications v s₀ es)[version es m]? = some x ∧ x.a.bits = retval := by
  obtain ⟨a, ha⟩ := Lts.exists_at hrun m
  obtain ⟨b, hb⟩ := Lts.exists_at hrun (m + 1)
  obtain ⟨c, hc⟩ := Lts.exists_at hrun j
  obtain ⟨d, hd⟩ := Lts.exists_at hrun (j + 1)
  obtain ⟨x, hx, hres⟩ := result_of_dereference (ha.step hb hop.load)
    (tracked_of_run R h₀ ha) rfl
  have hresc : (c.pc t).result c.heap = some x.a.bits := by
    refine Lts.At.segment (P := fun c => (c.pc t).result c.heap = some x.a.bits) hrun hb hc
      hop.lt_ret ?_ hres
    intro k e y y' hmk hkj he hy hr hs
    exact result_stable hs (tracked_of_run R h₀ hy) hr
      (hop.alone k e (hop.call_lt.trans hmk) hkj he)
  have hs : step v c (.get t (.ret retval)) = some d := hc.step hd hop.ret
  obtain ⟨p, -, hflow, -⟩ := getFlow_of_step hs
  refine ⟨x, (current_at R h₀ ha).2 ▸ hx, ?_⟩
  generalize c.pc t = q at hflow hresc
  cases hflow
  exact (Option.some.inj hresc).symm

/-- A publication is its predecessor with `a` set to the argument of the update. -/
theorem successor_of_run {n : ℕ} {y : Foo} (hy : (publications v s₀ es)[n + 1]? = some y) :
    ∃ x t newA i m, (publications v s₀ es)[n]? = some x ∧ y = { x with a := ⟨newA, true⟩ } ∧
      Publication es t newA i m ∧ version es m = n := by
  obtain ⟨-, -, hlen⟩ := current_of_run R h₀ hrun
  have hn : n < es.countP Event.publishes := by
    have := (List.getElem?_eq_some_iff.mp hy).1
    omega
  obtain ⟨m, e, he, hp, hv⟩ := exists_version hn
  obtain ⟨c, hc⟩ := Lts.exists_at hrun m
  obtain ⟨d, hd⟩ := Lts.exists_at hrun (m + 1)
  obtain ⟨x, hx, hstep⟩ := current_of_step (hc.step hd he) (tracked_of_run R h₀ hc)
  rcases hstep with ⟨hnp, -⟩ | ⟨t, newA, rfl, harg, -, hcur⟩
  · rw [hp] at hnp
    cases hnp
  obtain ⟨i, hpub⟩ := publication_of_assign h₀ hrun he hc harg
  have hy' := (current_at R h₀ hd).2
  rw [version_succ he, hv, if_pos hp, hy, hcur] at hy'
  exact ⟨x, t, newA, i, m, by rw [← hv, ← (current_at R h₀ hc).2, hx],
    (Option.some.inj hy').symm, hpub, hv⟩

theorem fields_of_run {x₀ : Foo} (hx₀ : s₀.current = some x₀) {n : ℕ} {y : Foo}
    (hy : (publications v s₀ es)[n]? = some y) : y.b = x₀.b ∧ y.c = x₀.c := by
  induction n generalizing y with
  | zero =>
      simp only [publications, hx₀, Option.toList_some, List.singleton_append,
        List.getElem?_cons_zero, Option.some.injEq] at hy
      simp [hy]
  | succ n ih =>
      obtain ⟨x, t, newA, i, m, hx, rfl, -⟩ := successor_of_run R h₀ hrun hy
      have hfields := ih hx
      exact hfields

/-- Every run of a sample over an implementation of RCU is a history of a register. -/
theorem register_of_run : Register v s₀ es where
  current m c hc := (current_at R h₀ hc).symm
  successor n y := successor_of_run R h₀ hrun
  fields x y hx hy := by
    obtain ⟨x₀, hx₀⟩ := Option.isSome_iff_exists.mp (current_of_run R h₀ (Lts.run_nil _ s₀)).1
    obtain ⟨n, hn⟩ := List.mem_iff_getElem?.mp hx
    obtain ⟨k, hk⟩ := List.mem_iff_getElem?.mp hy
    obtain ⟨hb, hc⟩ := fields_of_run R h₀ hrun hx₀ hn
    obtain ⟨hb', hc'⟩ := fields_of_run R h₀ hrun hx₀ hk
    exact ⟨hb.trans hb'.symm, hc.trans hc'.symm⟩
  get_ret t j retval := getOp_of_ret R h₀ hrun
  get_value t i m j retval := getOp_value R h₀ hrun
  update_ret t j := updateOp_of_ret h₀ hrun
  get_get t i m j retval t' i' m' j' retval' hop hop' hj := version_mono es (by
    have := hop.lt_ret
    have := hop'.call_lt
    omega)
  update_get t newA i m j t' i' m' j' retval' hop hop' hj := version_mono es (by
    have := hop.lt_ret
    have := hop'.call_lt
    omega)

end run

/-- **The samples are atomic registers.**  Every run of any number of readers and updaters of
any of the three files is a history of an atomic register without lost update. -/
theorem foo_register (f : Sample) {s₀ s : State (f.api (τ := τ))} {es : List (Event τ)}
    (h₀ : f.machine.init s₀) (hrun : f.machine.run s₀ es = some s) :
    Register f.reclaim s₀ es := register_of_run f.implements h₀ hrun

theorem foo_register_overlap : Register .synchronize (loaded (toyRcu (Fin 2)))
    (overlap .synchronize) :=
  foo_register .toy ⟨0, _, rfl⟩ (s := _) rfl

end KernelMemo.Rcu
