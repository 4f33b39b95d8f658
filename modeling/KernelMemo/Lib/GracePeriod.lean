import KernelMemo.Lib.TransitionSystem
import Mathlib.Data.Fintype.Basic
import Mathlib.Tactic.SplitIfs

/-! # Read-side sections and grace periods

* **Interface.**  `Api τ` is what a read-copy-update implementation offers to the threads `τ`:
  entering and leaving a read-side section, and a grace period in two halves.  `start` opens
  it and returns a ticket, `finish` is enabled once the implementation considers it over.  A
  blocking wait is a `start` followed by a `finish` of the same thread; a deferred callback
  stores the ticket and runs at the `finish`.
* **Documented semantics.**  `documented` assumes nothing but the specification: a grace period
  is over once every section open at its start has ended (`Sections.Elapsed`), and from then
  on it may end at any time.
* **Implementations.**  `Implements A` relates the states of `A` to `documented`, such that a
  ticket which `A` lets through is over there.
* **Most general client.**  In `clients A` every thread nests sections and waits for grace
  periods in any order, as long as it does not wait inside a section of its own; a run of
  it is a run of some properly nested programs.  `grace_period` is the guarantee that every
  implementation gives to it. -/

namespace KernelMemo.GracePeriod

variable {τ : Type} [DecidableEq τ]

/-- An implementation of read-side sections and grace periods. -/
structure Api (τ : Type) where
  State : Type
  Ticket : Type
  init : State
  readLock : State → τ → Option State
  readUnlock : State → τ → Option State
  start : State → Option (State × Ticket)
  finish : State → Ticket → Option State

/-! ### The documented semantics -/

/-- For every thread, how deep it is inside sections and how many it has ended. -/
@[ext]
structure Sections (τ : Type) where
  depth : τ → ℕ
  ended : τ → ℕ

namespace Sections

/-- No thread has entered a section yet. -/
def none : Sections τ := ⟨fun _ => 0, fun _ => 0⟩

/-- Thread `t` enters a section, possibly inside another one. -/
def lock (k : Sections τ) (t : τ) : Sections τ :=
  { k with depth := Function.update k.depth t (k.depth t + 1) }

/-- Thread `t` leaves its innermost section; leaving the outermost one ends it. -/
def unlock (k : Sections τ) (t : τ) : Option (Sections τ) :=
  match k.depth t with
  | 0 => .none
  | 1 => some ⟨Function.update k.depth t 0, Function.update k.ended t (k.ended t + 1)⟩
  | n + 2 => some { k with depth := Function.update k.depth t (n + 1) }

/-- The sections that are open: for each thread inside one, the number it has. -/
def snapshot (k : Sections τ) : τ → Option ℕ := fun t =>
  if k.depth t = 0 then .none else some (k.ended t)

/-- Every section of the snapshot `g` has ended. -/
def Elapsed (k : Sections τ) (g : τ → Option ℕ) : Prop := ∀ t, ∀ n ∈ g t, n < k.ended t

instance [Fintype τ] (k : Sections τ) (g : τ → Option ℕ) : Decidable (k.Elapsed g) :=
  inferInstanceAs (Decidable (∀ t, ∀ n ∈ g t, n < k.ended t))

theorem lock_depth (k : Sections τ) (t u : τ) :
    (k.lock t).depth u = if u = t then k.depth t + 1 else k.depth u := by
  simp [lock, Function.update_apply]

/-- What leaving a section does. -/
theorem unlock_cases {k k' : Sections τ} {t : τ} (h : k.unlock t = some k') :
    0 < k.depth t ∧ (∀ u, k'.depth u = if u = t then k.depth t - 1 else k.depth u) ∧
      ∀ u, k'.ended u = if u = t ∧ k.depth t = 1 then k.ended u + 1 else k.ended u := by
  unfold unlock at h
  split at h
  · cases h
  · rename_i hd
    cases h
    refine ⟨by omega, fun u => by simp [Function.update_apply, hd], fun u => ?_⟩
    by_cases hu : u = t <;> simp [hu, hd]
  · rename_i n hd
    cases h
    exact ⟨by omega, fun u => by simp [Function.update_apply, hd], fun u => by simp [hd]⟩

theorem unlock_isSome {k : Sections τ} {t : τ} (h : 0 < k.depth t) :
    ∃ k', k.unlock t = some k' := by
  unfold unlock
  split
  · omega
  · exact ⟨_, rfl⟩
  · exact ⟨_, rfl⟩

theorem unlock_ended_le {k k' : Sections τ} {t : τ} (h : k.unlock t = some k') (u : τ) :
    k.ended u ≤ k'.ended u := by
  rw [(unlock_cases h).2.2 u]
  split_ifs <;> omega

/-- A grace period that is over stays over. -/
theorem Elapsed.lock {k : Sections τ} {g : τ → Option ℕ} (h : k.Elapsed g) (t : τ) :
    (k.lock t).Elapsed g := h

theorem Elapsed.unlock {k k' : Sections τ} {g : τ → Option ℕ} (h : k.Elapsed g) {t : τ}
    (hk : k.unlock t = some k') : k'.Elapsed g := fun u n hn =>
  lt_of_lt_of_le (h u n hn) (unlock_ended_le hk u)

omit [DecidableEq τ] in
/-- With no section open there is nothing to wait for. -/
theorem elapsed_snapshot_of_quiescent {k : Sections τ} (h : ∀ t, k.depth t = 0) :
    k.Elapsed k.snapshot := by
  intro t n hn
  simp [snapshot, h t] at hn

omit [DecidableEq τ] in
/-- A grace period waits for every section that was open when it started. -/
theorem not_elapsed {k : Sections τ} {g : τ → Option ℕ} {t : τ}
    (h : g t = some (k.ended t)) : ¬ k.Elapsed g := fun he =>
  lt_irrefl _ (he t _ h)

omit [DecidableEq τ] in
theorem snapshot_of_open {k : Sections τ} {t : τ} (h : 0 < k.depth t) :
    k.snapshot t = some (k.ended t) := if_neg (by omega)

end Sections

/-- The specification as an implementation: a grace period is the snapshot of the sections
open at its start. -/
abbrev documented [Fintype τ] : Api τ where
  State := Sections τ
  Ticket := τ → Option ℕ
  init := Sections.none
  readLock k t := some (k.lock t)
  readUnlock k t := k.unlock t
  start k := some (k, k.snapshot)
  finish k g := if k.Elapsed g then some k else none

/-! ### Implementations -/

/-- `A` implements the documented semantics: `rel` relates the states, `covers k x g` says
that the ticket `x` of `A` is let through only when the grace period `g` is over. -/
structure Implements (A : Api τ) where
  rel : A.State → Sections τ → Prop
  covers : Sections τ → A.Ticket → (τ → Option ℕ) → Prop
  init : rel A.init Sections.none
  lock : ∀ {a a' k t}, rel a k → A.readLock a t = some a' → rel a' (k.lock t)
  unlock : ∀ {a a' k k' t}, rel a k → A.readUnlock a t = some a' → k.unlock t = some k' →
    rel a' k'
  start : ∀ {a a' k x}, rel a k → A.start a = some (a', x) → rel a' k ∧ covers k x k.snapshot
  finish : ∀ {a a' k x g}, rel a k → covers k x g → A.finish a x = some a' →
    rel a' k ∧ k.Elapsed g
  covers_lock : ∀ {k x g} (t), covers k x g → covers (k.lock t) x g
  covers_unlock : ∀ {k k' x g t}, covers k x g → k.unlock t = some k' → covers k' x g

/-- The documented semantics implements itself. -/
def Implements.refl [Fintype τ] : Implements (documented (τ := τ)) where
  rel a k := a = k
  covers _ x g := x = g
  init := rfl
  lock := by
    rintro a a' k t rfl h
    exact (Option.some.inj h).symm
  unlock := by
    rintro a a' k k' t rfl h h'
    exact Option.some.inj (h.symm.trans h')
  start := by
    rintro a a' k x rfl h
    obtain ⟨rfl, rfl⟩ := Prod.mk.inj (Option.some.inj h)
    exact ⟨rfl, rfl⟩
  finish := by
    rintro a a' k x g rfl rfl h
    simp only [documented] at h
    split_ifs at h with he
    exact ⟨(Option.some.inj h).symm, he⟩
  covers_lock _ h := h
  covers_unlock h _ := h

/-! ### The most general client -/

/-- Where a thread is in its wait for a grace period. -/
inductive Phase (T : Type) where
  | outside
  | called
  | waiting (x : T)
  | done

/-- The atomic steps of the threads. -/
inductive Event (τ : Type) where
  | readLock (t : τ)
  | readUnlock (t : τ)
  | syncCall (t : τ)
  | syncStart (t : τ)
  | syncFinish (t : τ)
  | syncReturn (t : τ)
deriving DecidableEq, Repr

/-- The state of the implementation, the nesting of every thread and its wait. -/
structure Clients (A : Api τ) where
  rcu : A.State
  depth : τ → ℕ
  phase : τ → Phase A.Ticket

namespace Clients

/-- One atomic step.  A thread unlocks only a section of its own, and waits for a grace
period only outside its sections. -/
def step {A : Api τ} (s : Clients A) : Event τ → Option (Clients A)
  | .readLock t =>
      match s.phase t with
      | .outside => (A.readLock s.rcu t).map fun a =>
          { s with rcu := a, depth := Function.update s.depth t (s.depth t + 1) }
      | _ => none
  | .readUnlock t =>
      match s.phase t with
      | .outside =>
          if 0 < s.depth t then (A.readUnlock s.rcu t).map fun a =>
            { s with rcu := a, depth := Function.update s.depth t (s.depth t - 1) }
          else none
      | _ => none
  | .syncCall t =>
      match s.phase t with
      | .outside =>
          if s.depth t = 0 then some { s with phase := Function.update s.phase t .called }
          else none
      | _ => none
  | .syncStart t =>
      match s.phase t with
      | .called => (A.start s.rcu).map fun p =>
          { s with rcu := p.1, phase := Function.update s.phase t (.waiting p.2) }
      | _ => none
  | .syncFinish t =>
      match s.phase t with
      | .waiting x => (A.finish s.rcu x).map fun a =>
          { s with rcu := a, phase := Function.update s.phase t .done }
      | _ => none
  | .syncReturn t =>
      match s.phase t with
      | .done => some { s with phase := Function.update s.phase t .outside }
      | _ => none

end Clients

/-- All threads are outside, nobody has entered a section. -/
def clients (A : Api τ) : Lts (Clients A) (Event τ) where
  init s := s = ⟨A.init, fun _ => 0, fun _ => .outside⟩
  step := Clients.step

/-- How deep the thread `r` is inside sections after the events `es`. -/
def nesting (r : τ) (es : List (Event τ)) : ℕ :=
  es.count (.readLock r) - es.count (.readUnlock r)

/-- The event at position `i` opens an outermost section of the thread `r`. -/
def Opens (es : List (Event τ)) (r : τ) (i : ℕ) : Prop :=
  es[i]? = some (.readLock r) ∧ nesting r (es.take i) = 0

/-- The event at position `j` is the final unlock of the section opened at position `i`. -/
def Closes (es : List (Event τ)) (r : τ) (i j : ℕ) : Prop :=
  i < j ∧ es[j]? = some (.readUnlock r) ∧ nesting r (es.take (j + 1)) = 0 ∧
    ∀ k, i < k → k ≤ j → 0 < nesting r (es.take k)

/-- The thread `w` calls for a grace period at position `c` and this call returns at `d`. -/
def Synchronizes (es : List (Event τ)) (w : τ) (c d : ℕ) : Prop :=
  es[c]? = some (.syncCall w) ∧ es[d]? = some (.syncReturn w) ∧ c < d ∧
    ∀ k, c < k → k < d → es[k]? ≠ some (.syncReturn w)

/-! ### Every implementation waits for the sections open at the call -/

/-- The two waits are at the same place, with related tickets. -/
inductive Phase.Rel {T T' : Type} (r : T → T' → Prop) : Phase T → Phase T' → Prop
  | outside : Rel r .outside .outside
  | called : Rel r .called .called
  | waiting {x y} : r x y → Rel r (.waiting x) (.waiting y)
  | done : Rel r .done .done

theorem Phase.Rel.mono {T T' : Type} {r r' : T → T' → Prop} (h : ∀ x y, r x y → r' x y)
    {p : Phase T} {q : Phase T'} (hpq : Phase.Rel r p q) : Phase.Rel r' p q := by
  cases hpq with
  | outside => exact .outside
  | called => exact .called
  | waiting hr => exact .waiting (h _ _ hr)
  | done => exact .done

theorem Phase.Rel.inv {T T' : Type} {r : T → T' → Prop} {p : Phase T} {q : Phase T'}
    (h : Phase.Rel r p q) : (p = .outside → q = .outside) ∧ (p = .called → q = .called) ∧
      (∀ x, p = .waiting x → ∃ y, q = .waiting y ∧ r x y) ∧ (p = .done → q = .done) := by
  cases h with
  | outside => simp
  | called => simp
  | waiting hr => simpa using hr
  | done => simp

variable [Fintype τ] {A : Api τ}

/-- Related states of the clients of an implementation and of the specification. -/
structure Clients.Rel (R : Implements A) (s : Clients A) (d : Clients (documented (τ := τ))) :
    Prop where
  rcu : R.rel s.rcu d.rcu
  depth : s.depth = d.depth
  nested : ∀ t, Sections.depth d.rcu t = d.depth t
  phase : ∀ t, (s.phase t).Rel (R.covers d.rcu) (d.phase t)

theorem Clients.Rel.step {R : Implements A} {s s' : Clients A}
    {d : Clients (documented (τ := τ))} {e : Event τ} (h : Clients.Rel R s d)
    (hs : s.step e = some s') : ∃ d', d.step e = some d' ∧ Clients.Rel R s' d' := by
  obtain ⟨hrcu, hdepth, hnested, hphase⟩ := h
  have hmove {p : Phase A.Ticket} {q : Phase (documented (τ := τ)).Ticket} (t : τ)
      (hpq : p.Rel (R.covers d.rcu) q) (u : τ) :
      (Function.update s.phase t p u).Rel (R.covers d.rcu) (Function.update d.phase t q u) := by
    by_cases hu : u = t
    · subst hu; rwa [Function.update_self, Function.update_self]
    · rw [Function.update_of_ne hu, Function.update_of_ne hu]; exact hphase u
  cases e with
  | readLock t =>
      obtain ⟨hout, -, -, -⟩ := (hphase t).inv
      simp only [Clients.step] at hs
      split at hs
      · rename_i hpt
        obtain ⟨a, ha, rfl⟩ := Option.map_eq_some_iff.mp hs
        refine ⟨{ d with
            rcu := Sections.lock d.rcu t, depth := Function.update d.depth t (d.depth t + 1) },
          by simp only [Clients.step, hout hpt, Option.map_some], R.lock hrcu ha, by rw [hdepth],
          fun u => ?_, fun u => (hphase u).mono fun _ _ => R.covers_lock t⟩
        simp only [Sections.lock_depth, Function.update_apply, hnested]
      · cases hs
  | readUnlock t =>
      obtain ⟨hout, -, -, -⟩ := (hphase t).inv
      simp only [Clients.step] at hs
      split at hs
      · rename_i hpt
        split_ifs at hs with hpos
        obtain ⟨a, ha, rfl⟩ := Option.map_eq_some_iff.mp hs
        rw [hdepth] at hpos
        obtain ⟨k, hk⟩ := Sections.unlock_isSome (k := d.rcu) (t := t) (by rwa [hnested])
        refine ⟨{ d with rcu := k, depth := Function.update d.depth t (d.depth t - 1) },
          ?_, R.unlock hrcu ha hk, by rw [hdepth], fun u => ?_,
          fun u => (hphase u).mono fun _ _ hc => R.covers_unlock hc hk⟩
        · simp only [Clients.step, hout hpt, if_pos hpos, hk, Option.map_some]
        · simp only [(Sections.unlock_cases hk).2.1 u, Function.update_apply, hnested]
      · cases hs
  | syncCall t =>
      obtain ⟨hout, -, -, -⟩ := (hphase t).inv
      simp only [Clients.step] at hs
      split at hs
      · rename_i hpt
        split_ifs at hs with hzero
        cases hs
        rw [hdepth] at hzero
        exact ⟨{ d with phase := Function.update d.phase t .called },
          by simp only [Clients.step, hout hpt, if_pos hzero], hrcu, hdepth, hnested,
          hmove t .called⟩
      · cases hs
  | syncStart t =>
      obtain ⟨-, hcall, -, -⟩ := (hphase t).inv
      simp only [Clients.step] at hs
      split at hs
      · rename_i hpt
        obtain ⟨⟨a, x⟩, ha, rfl⟩ := Option.map_eq_some_iff.mp hs
        obtain ⟨hrel, hcov⟩ := R.start hrcu ha
        exact ⟨{ d with phase := Function.update d.phase t (.waiting (Sections.snapshot d.rcu)) },
          by simp only [Clients.step, hcall hpt, Option.map_some], hrel, hdepth, hnested,
          hmove t (.waiting hcov)⟩
      · cases hs
  | syncFinish t =>
      obtain ⟨-, -, hwait, -⟩ := (hphase t).inv
      simp only [Clients.step] at hs
      split at hs
      · rename_i x hpt
        obtain ⟨a, ha, rfl⟩ := Option.map_eq_some_iff.mp hs
        obtain ⟨g, hg, hcov⟩ := hwait x hpt
        obtain ⟨hrel, hover⟩ := R.finish hrcu hcov ha
        exact ⟨{ d with phase := Function.update d.phase t .done },
          by simp only [Clients.step, hg, if_pos hover, Option.map_some], hrel, hdepth, hnested,
          hmove t .done⟩
      · cases hs
  | syncReturn t =>
      obtain ⟨-, -, -, hdone⟩ := (hphase t).inv
      simp only [Clients.step] at hs
      split at hs
      · rename_i hpt
        cases hs
        exact ⟨{ d with phase := Function.update d.phase t .outside },
          by simp only [Clients.step, hdone hpt], hrcu, hdepth, hnested, hmove t .outside⟩
      · cases hs

/-- The clients of an implementation do nothing that the specification does not allow. -/
def simulation (R : Implements A) : Lts.Simulation (clients A) (clients documented) where
  rel := Clients.Rel R
  init := by
    rintro s rfl
    exact ⟨_, rfl, R.init, rfl, fun _ => rfl, fun _ => .outside⟩
  step _ _ _ _ h hs := h.step hs

/-! ### The guarantee -/

/-- The thread `r` is inside a section that the wait of the thread `w` has to wait for. -/
def Held (r w : τ) (d : Clients (documented (τ := τ))) : Prop :=
  (∀ t, Sections.depth d.rcu t = d.depth t) ∧ 0 < d.depth r ∧
    (d.phase w = .called ∨
      ∃ g : τ → Option ℕ, d.phase w = .waiting g ∧ g r = some (Sections.ended d.rcu r))

/-- As long as the section stays open, the wait does not end. -/
theorem Held.step {r w : τ} {d d' : Clients (documented (τ := τ))} {e : Event τ}
    (h : Held r w d) (hs : d.step e = some d') (hopen : 0 < d'.depth r) : Held r w d' := by
  obtain ⟨hnested, hpos, hw⟩ := h
  have hrel : Clients.Rel Implements.refl d d :=
    ⟨rfl, rfl, hnested, fun t => by cases d.phase t <;> constructor; rfl⟩
  obtain ⟨d'', hd'', hrel'⟩ := hrel.step hs
  have hnested' : ∀ t, Sections.depth d'.rcu t = d'.depth t := by
    rw [hs] at hd''
    cases hd''
    exact hrel'.nested
  refine ⟨hnested', hopen, ?_⟩
  have hsame {q : Phase (documented (τ := τ)).Ticket} {t : τ} (ht : t ≠ w) :
      Function.update d.phase t q w = d.phase w := Function.update_of_ne (Ne.symm ht) _ _
  cases e with
  | readLock t =>
      simp only [Clients.step] at hs
      split at hs <;> cases hs
      exact hw
  | readUnlock t =>
      simp only [Clients.step] at hs
      split at hs
      · split_ifs at hs with htpos
        obtain ⟨k, hk, rfl⟩ := Option.map_eq_some_iff.mp hs
        -- the section of `r` is still open, so this unlock did not end it
        have hended : Sections.ended k r = Sections.ended d.rcu r := by
          rw [(Sections.unlock_cases hk).2.2 r, if_neg]
          rintro ⟨rfl, hone⟩
          rw [hnested] at hone
          simp [hone] at hopen
        rcases hw with hw | ⟨g, hg, hgr⟩
        · exact .inl hw
        · exact .inr ⟨g, hg, by rw [hgr, hended]⟩
      · cases hs
  | syncCall t =>
      simp only [Clients.step] at hs
      split at hs
      · rename_i hpt
        split_ifs at hs
        cases hs
        by_cases ht : t = w
        · subst ht
          rcases hw with hw | ⟨g, hg, -⟩
          · rw [hpt] at hw; cases hw
          · rw [hpt] at hg; cases hg
        · simpa only [hsame ht] using hw
      · cases hs
  | syncStart t =>
      simp only [Clients.step] at hs
      split at hs
      · cases hs
        by_cases ht : t = w
        · subst ht
          refine .inr ⟨Sections.snapshot d.rcu, Function.update_self .., ?_⟩
          exact Sections.snapshot_of_open (by rw [hnested]; exact hpos)
        · simpa only [hsame ht] using hw
      · cases hs
  | syncFinish t =>
      simp only [Clients.step] at hs
      split at hs
      · rename_i g hpt
        obtain ⟨k, hk, rfl⟩ := Option.map_eq_some_iff.mp hs
        split_ifs at hk with hover
        cases hk
        by_cases ht : t = w
        · subst ht
          rcases hw with hw | ⟨g', hg', hgr⟩
          · rw [hpt] at hw; cases hw
          · rw [hpt] at hg'
            cases hg'
            exact absurd hover (Sections.not_elapsed hgr)
        · simpa only [hsame ht] using hw
      · cases hs
  | syncReturn t =>
      simp only [Clients.step] at hs
      split at hs
      · rename_i hpt
        cases hs
        by_cases ht : t = w
        · subst ht
          rcases hw with hw | ⟨g, hg, -⟩
          · rw [hpt] at hw; cases hw
          · rw [hpt] at hg; cases hg
        · simpa only [hsame ht] using hw
      · cases hs

omit [Fintype τ] in
/-- The nesting counted from the events is the nesting in the state. -/
theorem depth_eq_nesting {s₀ s : Clients A} {es : List (Event τ)} (hs₀ : (clients A).init s₀)
    (h : (clients A).run s₀ es = some s) (r : τ) :
    es.count (.readLock r) = s.depth r + es.count (.readUnlock r) := by
  refine Lts.run_history (P := fun es c => es.count (.readLock r) =
    c.depth r + es.count (.readUnlock r)) (by rw [hs₀]; rfl) ?_ h
  intro es c e d _ ih hd
  simp only [clients] at hd
  simp only [List.count_append, List.count_singleton]
  cases e with
  | readLock t =>
      simp only [Clients.step] at hd
      split at hd
      · obtain ⟨a, -, rfl⟩ := Option.map_eq_some_iff.mp hd
        by_cases ht : t = r
        · subst ht; simp; omega
        · simp [Function.update_of_ne (Ne.symm ht), ht, ih]
      · cases hd
  | readUnlock t =>
      simp only [Clients.step] at hd
      split at hd
      · split_ifs at hd with hpos
        obtain ⟨a, -, rfl⟩ := Option.map_eq_some_iff.mp hd
        by_cases ht : t = r
        · subst ht; simp; omega
        · simp [Function.update_of_ne (Ne.symm ht), ht, ih]
      · cases hd
  | syncCall t =>
      simp only [Clients.step] at hd
      split at hd
      · split_ifs at hd; cases hd; simpa using ih
      · cases hd
  | syncStart t =>
      simp only [Clients.step] at hd
      split at hd
      · obtain ⟨a, -, rfl⟩ := Option.map_eq_some_iff.mp hd; simpa using ih
      · cases hd
  | syncFinish t =>
      simp only [Clients.step] at hd
      split at hd
      · obtain ⟨a, -, rfl⟩ := Option.map_eq_some_iff.mp hd; simpa using ih
      · cases hd
  | syncReturn t =>
      simp only [Clients.step] at hd
      split at hd <;> cases hd
      simpa using ih

omit [Fintype τ] in
theorem depth_at {s₀ c : Clients A} {es : List (Event τ)} {m : ℕ}
    (hs₀ : (clients A).init s₀) (hc : (clients A).At s₀ es m c) (r : τ) :
    c.depth r = nesting r (es.take m) := by
  have := depth_eq_nesting hs₀ hc r
  unfold nesting
  omega

omit [Fintype τ] in
theorem count_take_succ {es : List (Event τ)} {m : ℕ} {e : Event τ} (he : es[m]? = some e)
    (a : Event τ) : (es.take (m + 1)).count a = (es.take m).count a + if e = a then 1 else 0 := by
  rw [List.take_add_one, he]
  simp [List.count_append, List.count_singleton]

omit [Fintype τ] in
/-- A section that is not open any more at position `d` has had its final unlock before. -/
theorem exists_closes {es : List (Event τ)} {r : τ} {i d : ℕ}
    (hle : ∀ k, (es.take k).count (.readUnlock r) ≤ (es.take k).count (.readLock r))
    (hopen : Opens es r i) (hid : i < d) (hd : nesting r (es.take d) = 0) :
    ∃ j, Closes es r i j ∧ j < d := by
  obtain ⟨hlock, hzero⟩ := hopen
  -- the first position after the lock with nothing open
  have hex : ∃ k, i < k ∧ nesting r (es.take k) = 0 := ⟨d, hid, hd⟩
  obtain ⟨hik, hk⟩ := Nat.find_spec hex
  have hfirst : ∀ m, i < m → m < Nat.find hex → 0 < nesting r (es.take m) := fun m him hm =>
    Nat.pos_of_ne_zero fun h0 => Nat.find_min hex hm ⟨him, h0⟩
  have hkd : Nat.find hex ≤ d := Nat.find_min' hex ⟨hid, hd⟩
  generalize Nat.find hex = k at hik hk hfirst hkd
  have hone : 0 < nesting r (es.take (i + 1)) := by
    have := hle i
    unfold nesting at hzero ⊢
    rw [count_take_succ hlock, count_take_succ hlock, if_pos rfl, if_neg (by simp)]
    omega
  have hk2 : i + 1 < k := by
    rcases Nat.lt_or_ge (i + 1) k with h | h
    · exact h
    · have : k = i + 1 := by omega
      subst this
      omega
  obtain ⟨j, rfl⟩ : ∃ j, k = j + 1 := ⟨k - 1, by omega⟩
  refine ⟨j, ⟨by omega, ?_, hk, fun m h₁ h₂ => hfirst m h₁ (by omega)⟩, by omega⟩
  -- the nesting went down at `j`
  have hpos := hfirst j (by omega) (by omega)
  cases he : es[j]? with
  | none =>
      rw [List.take_of_length_le (by have := List.getElem?_eq_none_iff.mp he; omega)] at hk hpos
      omega
  | some e =>
      have hlj := hle j
      unfold nesting at hk hpos
      rw [count_take_succ he, count_take_succ he] at hk
      split_ifs at hk with h₁ h₂ h₂
      · rw [h₁] at h₂; cases h₂
      · omega
      · rw [h₂]
      · omega

/-- The nesting of the specification is that of the clients. -/
theorem nested_of_run {s₀ s : Clients (documented (τ := τ))} {es : List (Event τ)}
    (hs₀ : (clients documented).init s₀) (h : (clients documented).run s₀ es = some s) :
    ∀ t, Sections.depth s.rcu t = s.depth t := by
  obtain ⟨d₀, hd₀, hrel₀⟩ := (simulation Implements.refl).init s₀ hs₀
  obtain ⟨d, -, hrel⟩ := (simulation Implements.refl).run hrel₀ h
  obtain ⟨hrcu, hdepth, hnested, -⟩ := hrel
  have hrcu : s.rcu = d.rcu := hrcu
  intro t
  rw [hrcu, hdepth, hnested]

/-- **The grace-period guarantee.**  Whatever the threads do, a call for a grace period
returns only after every section that was open at the call has had its final unlock. -/
theorem grace_period (R : Implements A) {s₀ s : Clients A} {es : List (Event τ)}
    (hs₀ : (clients A).init s₀) (hrun : (clients A).run s₀ es = some s) {w r : τ} {c d i : ℕ}
    (hw : Synchronizes es w c d) (hopen : Opens es r i) (hic : i < c) :
    ∃ j, Closes es r i j ∧ j < d := by
  obtain ⟨hcall, hret, hcd, -⟩ := hw
  -- the same events are a run of the specification
  obtain ⟨d₀, hd₀, hrel₀⟩ := (simulation R).init s₀ hs₀
  obtain ⟨t, ht, -⟩ := (simulation R).run hrel₀ hrun
  have hle : ∀ k, (es.take k).count (.readUnlock r) ≤ (es.take k).count (.readLock r) := by
    intro k
    obtain ⟨b, hb⟩ := Lts.exists_at ht k
    have := depth_eq_nesting hd₀ hb r
    omega
  by_contra hno
  have hheld : ∀ k, i < k → k ≤ d → 0 < nesting r (es.take k) := by
    intro k hik hkd
    refine Nat.pos_of_ne_zero fun h0 => hno ?_
    obtain ⟨j, hj, hjk⟩ := exists_closes hle hopen hik h0
    exact ⟨j, hj, by omega⟩
  obtain ⟨a, ha⟩ := Lts.exists_at ht c
  obtain ⟨b, hb⟩ := Lts.exists_at ht (c + 1)
  obtain ⟨f, hf⟩ := Lts.exists_at ht d
  obtain ⟨f', hf'⟩ := Lts.exists_at ht (d + 1)
  -- after the call the section is held against the wait of `w`
  have hb_held : Held r w b := by
    refine ⟨nested_of_run hd₀ hb, ?_, .inl ?_⟩
    · rw [depth_at hd₀ hb]
      exact hheld (c + 1) (by omega) (by omega)
    · have hstep := ha.step hb hcall
      simp only [clients, Clients.step] at hstep
      split at hstep
      · split_ifs at hstep
        cases hstep
        exact Function.update_self ..
      · cases hstep
  have hf_held : Held r w f := by
    refine Lts.At.segment (P := Held r w) ht hb hf (by omega) ?_ hb_held
    intro k e g g' hck hkd he hg hP hstep
    refine hP.step hstep ?_
    obtain ⟨g'', hg''⟩ := Lts.exists_at ht (k + 1)
    rw [Option.some.inj (hstep.symm.trans (hg.step hg'' he)), depth_at hd₀ hg'']
    exact hheld (k + 1) (by omega) (by omega)
  -- so the wait is not done at the return
  have hstep := hf.step hf' hret
  simp only [clients, Clients.step] at hstep
  split at hstep
  · rename_i hdone
    rcases hf_held.2.2 with h | ⟨g, h, -⟩ <;> rw [hdone] at h <;> cases h
  · cases hstep

end KernelMemo.GracePeriod
