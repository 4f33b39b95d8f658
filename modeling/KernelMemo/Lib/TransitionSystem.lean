import Mathlib.Data.List.Induction
import Mathlib.Data.List.TakeDrop
import Mathlib.Data.Nat.Init

/-! # Labelled transition systems

The machines of this development are step functions: `step s e` is the state after event `e`,
or `none` when `e` is not enabled in `s`.  All nondeterminism sits in the events (which thread
moves, what the environment answers), so a run is a list of events and every state of a run is
a function of the events before it.

* **Runs.**  `run s es` executes `es` from `s`; `At s es m c` says that `c` is the state at
  position `m` of the run, that is, before the event with index `m`.
* **Invariants.**  `run_invariant` proves a property of the last state from a step lemma, and
  `Reachable.invariant` of every reachable state; `At.segment` carries a property from one
  position to a later one, `At.entry` goes back to the event that brought a property about.
* **Records.**  `collect f` lists what `f` records of the events of a run.
* **Termination.**  `Respects.countP_add_le` bounds the events that lower a measure, in a run
  that never raises it.
* **Progress.**  `Enabled own s t` says that the party `t` can step; `exists_enabled` is the
  argument against deadlocks: whoever is stuck waits for a party of lower rank.
* **Simulations.**  `Simulation M N` relates two machines over the same events;
  `Simulation.run` transfers runs. -/

namespace KernelMemo

/-- A machine: its initial states and its step function. -/
structure Lts (σ ε : Type*) where
  init : σ → Prop
  step : σ → ε → Option σ

namespace Lts

variable {σ σ' ε : Type*} (M : Lts σ ε)

/-- Execute the events one after the other. -/
def run : σ → List ε → Option σ
  | s, [] => some s
  | s, e :: es => (M.step s e).bind fun c => run c es

@[simp] theorem run_nil (s : σ) : M.run s [] = some s := rfl

theorem run_cons (s : σ) (e : ε) (es : List ε) :
    M.run s (e :: es) = (M.step s e).bind fun c => M.run c es := rfl

theorem run_append (s : σ) (es fs : List ε) :
    M.run s (es ++ fs) = (M.run s es).bind fun c => M.run c fs := by
  induction es generalizing s with
  | nil => rfl
  | cons e es ih =>
      simp only [List.cons_append, run_cons]
      cases M.step s e with
      | none => rfl
      | some c => exact ih c

/-- A state that some run of the machine reaches. -/
def Reachable (s : σ) : Prop := ∃ s₀ es, M.init s₀ ∧ M.run s₀ es = some s

/-- `c` is the state at position `m` of the run of `es` from `s`. -/
def At (s : σ) (es : List ε) (m : ℕ) (c : σ) : Prop := M.run s (es.take m) = some c

variable {M}

theorem At.unique {s c d : σ} {es : List ε} {m : ℕ} (hc : M.At s es m c) (hd : M.At s es m d) :
    c = d := Option.some.inj (hc.symm.trans hd)

theorem at_zero (s : σ) (es : List ε) : M.At s es 0 s := rfl

theorem at_length {s c : σ} {es : List ε} (h : M.run s es = some c) :
    M.At s es es.length c := by
  rwa [At, List.take_length]

/-- Every position of a run has a state. -/
theorem exists_at {s c : σ} {es : List ε} (h : M.run s es = some c) (m : ℕ) :
    ∃ d, M.At s es m d := by
  rw [← List.take_append_drop m es, run_append, Option.bind_eq_some_iff] at h
  obtain ⟨d, hd, -⟩ := h
  exact ⟨d, hd⟩

/-- The state at a position is the state before, stepped by the event in between. -/
theorem At.step {s c d : σ} {es : List ε} {m : ℕ} {e : ε} (hc : M.At s es m c)
    (hd : M.At s es (m + 1) d) (he : es[m]? = some e) : M.step c e = some d := by
  have htake : es.take (m + 1) = es.take m ++ [e] := by
    rw [List.take_add_one, he]; rfl
  rw [At, htake, run_append, hc, Option.bind_some, run_cons, Option.bind_eq_some_iff] at hd
  obtain ⟨d', hd', h⟩ := hd
  rw [hd', ← h, run_nil]

/-- The state after an event of the run. -/
theorem At.next {s c d : σ} {es : List ε} {m : ℕ} {e : ε} (hc : M.At s es m c)
    (he : es[m]? = some e) (hs : M.step c e = some d) : M.At s es (m + 1) d := by
  have htake : es.take (m + 1) = es.take m ++ [e] := by
    rw [List.take_add_one, he]; rfl
  rw [At, htake, run_append, hc, Option.bind_some, run_cons, hs]
  rfl

theorem At.succ_of_length_le {s c : σ} {es : List ε} {m : ℕ} (hc : M.At s es m c)
    (hm : es.length ≤ m) : M.At s es (m + 1) c := by
  rw [At, List.take_of_length_le (by omega)]
  rwa [At, List.take_of_length_le hm] at hc

/-- Induction along a run: `P` holds before each event and after it. -/
theorem run_invariant {P : σ → Prop} {E : ε → Prop}
    (hstep : ∀ c e d, E e → P c → M.step c e = some d → P d)
    {s c : σ} {es : List ε} (hes : ∀ e ∈ es, E e) (h : M.run s es = some c) (hs : P s) : P c := by
  induction es generalizing s with
  | nil => cases h; exact hs
  | cons e es ih =>
      rw [run_cons, Option.bind_eq_some_iff] at h
      obtain ⟨d, hd, hr⟩ := h
      exact ih (fun e' he' => hes e' (List.mem_cons_of_mem _ he')) hr
        (hstep s e d (hes e List.mem_cons_self) hs hd)

/-- What holds at first and is kept by every step holds of every reachable state. -/
theorem Reachable.invariant {P : σ → Prop} {s : σ} (h : M.Reachable s)
    (hinit : ∀ c, M.init c → P c) (hstep : ∀ c e d, P c → M.step c e = some d → P d) : P s := by
  obtain ⟨s₀, es, h₀, hrun⟩ := h
  exact run_invariant (E := fun _ => True) (fun c e d _ hc hs => hstep c e d hc hs)
    (fun _ _ => trivial) hrun (hinit s₀ h₀)

/-- Every event of the run comes in a state that suits it. -/
def Respects (M : Lts σ ε) (G : σ → ε → Prop) : σ → List ε → Prop
  | _, [] => True
  | s, e :: es => G s e ∧ (M.step s e).elim True fun c => Respects M G c es

instance decidableElim {α : Type*} (o : Option α) (p : α → Prop) [∀ a, Decidable (p a)] :
    Decidable (o.elim True p) :=
  match o with
  | none => .isTrue trivial
  | some a => inferInstanceAs (Decidable (p a))

instance decidableRespects (M : Lts σ ε) (G : σ → ε → Prop) [∀ s e, Decidable (G s e)] :
    (s : σ) → (es : List ε) → Decidable (M.Respects G s es)
  | _, [] => .isTrue trivial
  | s, e :: es =>
      haveI := fun c => decidableRespects M G c es
      inferInstanceAs (Decidable (G s e ∧ (M.step s e).elim True fun c => Respects M G c es))

theorem respects_snoc {G : σ → ε → Prop} {s c : σ} {es : List ε} {e : ε}
    (h : M.run s es = some c) (hg : M.Respects G s (es ++ [e])) :
    M.Respects G s es ∧ G c e := by
  induction es generalizing s with
  | nil => cases h; exact ⟨trivial, hg.1⟩
  | cons e' es ih =>
      rw [run_cons, Option.bind_eq_some_iff] at h
      obtain ⟨d, hd, hr⟩ := h
      have hg' := hg.2
      simp only [hd, Option.elim_some] at hg'
      have h' := ih hr hg'
      refine ⟨⟨hg.1, ?_⟩, h'.2⟩
      simp only [hd, Option.elim_some]
      exact h'.1

/-- Induction along a run whose events come in states that suit them. -/
theorem Respects.invariant {P : σ → Prop} {G : σ → ε → Prop}
    (hstep : ∀ c e d, G c e → P c → M.step c e = some d → P d)
    {s c : σ} {es : List ε} (hg : M.Respects G s es) (h : M.run s es = some c) (hs : P s) :
    P c := by
  induction es generalizing s with
  | nil => cases h; exact hs
  | cons e es ih =>
      rw [run_cons, Option.bind_eq_some_iff] at h
      obtain ⟨d, hd, hr⟩ := h
      have hg' := hg.2
      simp only [hd, Option.elim_some] at hg'
      exact ih hg' hr (hstep s e d hg.1 hs hd)

/-- Events that suit their states, and have a property besides. -/
theorem Respects.and_forall {G : σ → ε → Prop} {E : ε → Prop} {s : σ} {es : List ε}
    (hg : M.Respects G s es) (hes : ∀ e ∈ es, E e) : M.Respects (fun s e => G s e ∧ E e) s es := by
  induction es generalizing s with
  | nil => trivial
  | cons e es ih =>
      refine ⟨⟨hg.1, hes e List.mem_cons_self⟩, ?_⟩
      have hg' := hg.2
      cases hc : M.step s e with
      | none => trivial
      | some c =>
          rw [hc] at hg'
          exact ih hg' fun e' he' => hes e' (List.mem_cons_of_mem _ he')

/-- A run whose steps do not raise the measure `μ` has no more events `p`, which lower it, than
that. -/
theorem Respects.countP_add_le {P : σ → Prop} {G : σ → ε → Prop} {p : ε → Bool} (μ : σ → ℕ)
    (hstep : ∀ c e d, G c e → P c → M.step c e = some d →
      P d ∧ μ d ≤ μ c ∧ (p e = true → μ d < μ c))
    {s c : σ} {es : List ε} (hg : M.Respects G s es) (h : M.run s es = some c) (hs : P s) :
    es.countP p + μ c ≤ μ s := by
  induction es generalizing s with
  | nil => cases h; exact Nat.le_of_eq (Nat.zero_add _)
  | cons e es ih =>
      rw [run_cons, Option.bind_eq_some_iff] at h
      obtain ⟨d, hd, hr⟩ := h
      have hg' := hg.2
      simp only [hd, Option.elim_some] at hg'
      obtain ⟨hPd, hle, hlt⟩ := hstep s e d hg.1 hs hd
      have hrest := ih hg' hr hPd
      rw [List.countP_cons]
      split
      next he =>
        have hlow := hlt he
        omega
      next => omega

/-- Induction along a run with its history: `P es c` speaks of the events so far as well. -/
theorem run_history {P : List ε → σ → Prop} {s : σ} (hnil : P [] s)
    (hsnoc : ∀ es c e d, M.run s es = some c → P es c → M.step c e = some d → P (es ++ [e]) d)
    {es : List ε} {c : σ} (h : M.run s es = some c) : P es c := by
  induction es using List.reverseRecOn generalizing c with
  | nil => cases h; exact hnil
  | append_singleton es e ih =>
      rw [run_append, Option.bind_eq_some_iff] at h
      obtain ⟨d, hd, hr⟩ := h
      rw [run_cons, Option.bind_eq_some_iff] at hr
      obtain ⟨d', hd', hr'⟩ := hr
      cases hr'
      exact hsnoc es d e _ hd (ih hd) hd'

/-- Induction along a run with its history, for events that come in states that suit them. -/
theorem Respects.history {P : List ε → σ → Prop} {G : σ → ε → Prop} {s c : σ} {es : List ε}
    (hnil : P [] s)
    (hsnoc : ∀ es c e d, M.run s es = some c → M.Respects G s es → G c e → P es c →
      M.step c e = some d → P (es ++ [e]) d)
    (hg : M.Respects G s es) (h : M.run s es = some c) : P es c := by
  refine run_history (P := fun es c => M.Respects G s es → P es c) (fun _ => hnil) ?_ h hg
  intro es c e d hrun ih hs hg'
  obtain ⟨hg₁, hg₂⟩ := respects_snoc hrun hg'
  exact hsnoc es c e d hrun hg₁ hg₂ (ih hg₁) hs

/-- Carry a property from position `i` of a run to position `j`, one event at a time. -/
theorem At.segment {P : σ → Prop} {s a b c : σ} {es : List ε} {i j : ℕ}
    (hrun : M.run s es = some c) (hi : M.At s es i a) (hj : M.At s es j b) (hij : i ≤ j)
    (hstep : ∀ k e d d', i ≤ k → k < j → es[k]? = some e → M.At s es k d → P d →
      M.step d e = some d' → P d')
    (hP : P a) : P b := by
  induction j, hij using Nat.le_induction generalizing b with
  | base => rwa [← hi.unique hj]
  | succ j hij ih =>
      obtain ⟨d, hd⟩ := exists_at hrun j
      have hPd : P d := ih hd fun k e d d' h₁ h₂ => hstep k e d d' h₁ (by omega)
      cases he : es[j]? with
      | none =>
          have hlen : es.length ≤ j := List.getElem?_eq_none_iff.mp he
          rwa [← (hd.succ_of_length_le hlen).unique hj]
      | some e => exact hstep j e d b hij (by omega) he hd hPd (hd.step hj he)

/-- A property that holds at position `j` but not at the start was brought about by some event
and has held ever since. -/
theorem At.entry {P : σ → Prop} {s c : σ} {es : List ε} {j : ℕ} (hj : M.At s es j c)
    (hs : ¬ P s) (hP : P c) :
    ∃ i e a b, i < j ∧ es[i]? = some e ∧ M.At s es i a ∧ M.At s es (i + 1) b ∧
      M.step a e = some b ∧ ¬ P a ∧ P b ∧ ∀ k d, i < k → k ≤ j → M.At s es k d → P d := by
  induction j generalizing c with
  | zero =>
      rw [(at_zero s es).unique hj] at hs
      exact absurd hP hs
  | succ j ih =>
      obtain ⟨d, hd⟩ := exists_at hj j
      replace hd : M.At s es j d := by
        rwa [At, List.take_take, Nat.min_eq_left (by omega)] at hd
      by_cases hPd : P d
      · obtain ⟨i, e, a, b, hij, he, ha, hb, hstep, hna, hPb, hall⟩ := ih hd hPd
        refine ⟨i, e, a, b, by omega, he, ha, hb, hstep, hna, hPb, fun k x hik hkj hx => ?_⟩
        rcases Nat.lt_or_ge k (j + 1) with hk | hk
        · exact hall k x hik (by omega) hx
        · obtain rfl : k = j + 1 := by omega
          rwa [hx.unique hj]
      · cases hget : es[j]? with
        | none =>
            -- behind the end of the run nothing changes
            have hlen : es.length ≤ j := List.getElem?_eq_none_iff.mp hget
            rw [(hd.succ_of_length_le hlen).unique hj] at hPd
            exact absurd hP hPd
        | some e =>
            refine ⟨j, e, d, c, by omega, hget, hd, hj, hd.step hj hget, hPd, hP,
              fun k x hjk hkj hx => ?_⟩
            obtain rfl : k = j + 1 := by omega
            rwa [hx.unique hj]

/-- What the events of a run record, in order. -/
def collect {β : Type*} (M : Lts σ ε) (f : σ → ε → List β) : σ → List ε → List β
  | _, [] => []
  | s, e :: es => f s e ++ match M.step s e with
      | some c => collect M f c es
      | none => []

theorem collect_append {β : Type*} (f : σ → ε → List β) {s c : σ} {es : List ε}
    (h : M.run s es = some c) (fs : List ε) :
    M.collect f s (es ++ fs) = M.collect f s es ++ M.collect f c fs := by
  induction es generalizing s with
  | nil => cases h; rfl
  | cons e es ih =>
      rw [run_cons, Option.bind_eq_some_iff] at h
      obtain ⟨d, hd, hr⟩ := h
      simp only [List.cons_append, collect, hd, List.append_assoc, ih hr]

theorem collect_snoc {β : Type*} (f : σ → ε → List β) {s c : σ} {es : List ε}
    (h : M.run s es = some c) (e : ε) :
    M.collect f s (es ++ [e]) = M.collect f s es ++ f c e := by
  rw [collect_append f h]
  cases hc : M.step c e <;> simp [collect, hc]

/-- What an event of a run always records. -/
theorem mem_collect {β : Type*} {f : σ → ε → List β} {s c : σ} {es : List ε}
    (h : M.run s es = some c) {e : ε} (he : e ∈ es) {x : β} (hx : ∀ d, x ∈ f d e) :
    x ∈ M.collect f s es := by
  induction es generalizing s with
  | nil => cases he
  | cons e' es ih =>
      rw [run_cons, Option.bind_eq_some_iff] at h
      obtain ⟨d, hd, hr⟩ := h
      simp only [collect, hd, List.mem_append]
      rcases List.mem_cons.mp he with rfl | he
      · exact .inl (hx s)
      · exact .inr (ih hr he)

/-- The party `t` has an enabled step; `own t e` says that the event `e` is a step of `t`. -/
def Enabled {τ : Type*} (M : Lts σ ε) (own : τ → ε → Prop) (s : σ) (t : τ) : Prop :=
  ∃ e, own t e ∧ (M.step s e).isSome

/-- If every party inside that is stuck waits for a party inside of lower rank, then from each
party inside the waiting leads to one that can step. -/
theorem exists_enabled {τ : Type*} {own : τ → ε → Prop} {s : σ} {inside : τ → Prop}
    (rank : τ → ℕ)
    (hwait : ∀ t, inside t → M.Enabled own s t ∨ ∃ u, inside u ∧ rank u < rank t) {t : τ}
    (ht : inside t) : ∃ u, inside u ∧ M.Enabled own s u := by
  induction hn : rank t using Nat.strong_induction_on generalizing t with
  | _ n ih =>
      rcases hwait t ht with he | ⟨u, hu, hlt⟩
      · exact ⟨t, ht, he⟩
      · exact ih (rank u) (hn ▸ hlt) hu rfl

/-- A forward simulation of `M` by `N`: every step of `M` is matched by the same event of `N`. -/
structure Simulation (M : Lts σ ε) (N : Lts σ' ε) where
  rel : σ → σ' → Prop
  init : ∀ s, M.init s → ∃ t, N.init t ∧ rel s t
  step : ∀ s t e s', rel s t → M.step s e = some s' → ∃ t', N.step t e = some t' ∧ rel s' t'

theorem Simulation.run {N : Lts σ' ε} (S : Simulation M N) {s s' : σ} {t : σ'} {es : List ε}
    (hr : S.rel s t) (h : M.run s es = some s') : ∃ t', N.run t es = some t' ∧ S.rel s' t' := by
  induction es generalizing s t with
  | nil => cases h; exact ⟨t, rfl, hr⟩
  | cons e es ih =>
      rw [run_cons, Option.bind_eq_some_iff] at h
      obtain ⟨c, hc, hrest⟩ := h
      obtain ⟨t₁, ht₁, hr₁⟩ := S.step s t e c hr hc
      obtain ⟨t', ht', hr'⟩ := ih hr₁ hrest
      exact ⟨t', by rw [run_cons, ht₁]; exact ht', hr'⟩

end Lts

end KernelMemo
