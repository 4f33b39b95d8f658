import KernelMemo.Rcu.Foo

/-! # Who owns which `struct foo`

The invariant of the samples over the documented RCU.

* **Owners.**  Every allocated object is held by exactly one owner: `gbl_foo`, an updater that
  has not published it yet (`new_fp`), an updater that has replaced it and not given it up yet
  (`old_fp`), or a queued callback.
* **Shields.**  A reader inside its section may use an object that was replaced meanwhile.
  `Shields w t` says that the owner `w` cannot free its object before the section of `t` ends:
  either its grace period has not started, or it started when this section was open.
* **Annotations.**  `Local s t p` is what holds when `t` stands at `p`.  `Inv.step` proves that
  every step keeps all of it: the step of a thread establishes its own annotation
  and interferes with no other. -/

namespace KernelMemo.Rcu

open GracePeriod

variable {τ : Type} [DecidableEq τ]

/-- Who can hold an object. -/
inductive Owner (τ : Type) where
  | gbl
  | newFp (t : τ)
  | oldFp (t : τ)
  | callback (i : ℕ)
deriving DecidableEq

namespace Pc

/-- `new_fp` between its `kmalloc` and its publication. -/
def newFp : Pc → Ptr
  | updAlloced _ n => n
  | updLocked _ n => n
  | updLoaded _ n _ => n
  | updCopied _ n _ => n
  | updSet _ n _ => n
  | _ => none

/-- `old_fp` between the publication of its successor and its reclamation. -/
def oldFp : Pc → Ptr
  | updPublished o => o
  | updUnlocked o => o
  | updWaiting o => o
  | updWaited o => o
  | _ => none

/-- Inside the read-side section. -/
def reading : Pc → Bool
  | getLocked => true
  | getLoaded _ => true
  | getRead _ => true
  | _ => false

end Pc

variable {A : Api τ}

/-- What the owner holds. -/
def State.owns (s : State A) : Owner τ → Ptr
  | .gbl => s.gblFoo
  | .newFp t => (s.pc t).newFp
  | .oldFp t => (s.pc t).oldFp
  | .callback i => (s.callbacks i).map Prod.fst

/-- The grace period `g` was opened inside the current section of `t`. -/
def Awaits (k : Sections τ) (t : τ) (g : τ → Option ℕ) : Prop := g t = some (k.ended t)

variable [Fintype τ]

/-- The owner `w` does not free its object before the current section of `t` ends. -/
def Shields (s : State (documented (τ := τ))) : Owner τ → τ → Prop
  | .gbl, _ => True
  | .newFp _, _ => False
  | .oldFp u, t =>
      match s.pc u with
      | .updPublished _ => True
      | .updUnlocked _ => True
      | .updWaiting _ => ∃ g, s.gp u = some g ∧ Awaits s.rcu t g
      | _ => False
  | .callback i, t => ∃ o g, s.callbacks i = some (o, g) ∧ Awaits s.rcu t g

/-- What holds when the thread `t` stands at the place. -/
def Local (s : State (documented (τ := τ))) (t : τ) : Pc → Prop
  | .getLoaded p => ∃ o w, p = some o ∧ s.owns w = some o ∧ Shields s w t
  | .updLocked _ _ => s.fooMutex = some t
  | .updLoaded _ _ oldFp => s.fooMutex = some t ∧ oldFp = s.gblFoo
  | .updCopied _ newFp oldFp => s.fooMutex = some t ∧ oldFp = s.gblFoo ∧
      ∃ n g, newFp = some n ∧ s.gblFoo = some g ∧ s.heap.mem n = s.heap.mem g
  | .updSet newA newFp oldFp => s.fooMutex = some t ∧ oldFp = s.gblFoo ∧
      ∃ n g, newFp = some n ∧ s.gblFoo = some g ∧
        s.heap.mem n = { s.heap.mem g with a := ⟨newA, true⟩ }
  | .updPublished oldFp => s.fooMutex = some t ∧ oldFp ≠ none
  | .updUnlocked oldFp => oldFp ≠ none
  | .updWaiting oldFp => oldFp ≠ none
  | .updWaited oldFp => oldFp ≠ none
  | _ => True

/-- The invariant. -/
structure Inv (s : State (documented (τ := τ))) : Prop where
  ledger : Ledger s.owns s.heap.Live
  gbl : ∃ g, s.gblFoo = some g ∧ (s.heap.mem g).a.written = true
  depth : ∀ t, Sections.depth s.rcu t = if (s.pc t).reading then 1 else 0
  slots : ∀ i, s.queued ≤ i → s.callbacks i = none
  annotation : ∀ t, Local s t (s.pc t)

/-! ### Frame -/

/-- The annotation of a thread survives the step of another one, when that step leaves alone
what the thread relies on. -/
theorem Local.frame {s s' : State (documented (τ := τ))} {u : τ} {p : Pc}
    (h : Local s u p)
    (hmutex : s.fooMutex = some u → s'.fooMutex = some u ∧ s'.gblFoo = s.gblFoo)
    (hnew : ∀ n, p.newFp = some n → s'.heap.mem n = s.heap.mem n)
    (hgbl : ∀ g, s.gblFoo = some g → s.fooMutex = some u → s'.heap.mem g = s.heap.mem g)
    (hshield : p.reading → ∀ w o, s.owns w = some o → Shields s w u →
      ∃ w', s'.owns w' = some o ∧ Shields s' w' u) : Local s' u p := by
  cases p with
  | getLoaded p =>
      obtain ⟨o, w, rfl, hw, hs⟩ := h
      obtain ⟨w', hw', hs'⟩ := hshield rfl w o hw hs
      exact ⟨o, w', rfl, hw', hs'⟩
  | updLocked a n => exact (hmutex h).1
  | updLoaded a n o =>
      obtain ⟨hm, rfl⟩ := h
      exact ⟨(hmutex hm).1, (hmutex hm).2.symm⟩
  | updCopied a n o =>
      obtain ⟨hm, rfl, n, g, rfl, hg, hmem⟩ := h
      obtain ⟨hm', hg'⟩ := hmutex hm
      exact ⟨hm', hg'.symm, n, g, rfl, hg'.trans hg, by rw [hnew n rfl, hgbl g hg hm, hmem]⟩
  | updSet a n o =>
      obtain ⟨hm, rfl, n, g, rfl, hg, hmem⟩ := h
      obtain ⟨hm', hg'⟩ := hmutex hm
      exact ⟨hm', hg'.symm, n, g, rfl, hg'.trans hg, by rw [hnew n rfl, hgbl g hg hm, hmem]⟩
  | updPublished o => exact ⟨(hmutex h.1).1, h.2⟩
  | _ => exact h

omit [DecidableEq τ] [Fintype τ] in
theorem owns_eq {s s' : State A} (hgbl : s'.gblFoo = s.gblFoo)
    (hnew : ∀ u, (s'.pc u).newFp = (s.pc u).newFp) (hold : ∀ u, (s'.pc u).oldFp = (s.pc u).oldFp)
    (hcb : s'.callbacks = s.callbacks) : s'.owns = s.owns := by
  funext w
  cases w with
  | gbl => exact hgbl
  | newFp u => exact hnew u
  | oldFp u => exact hold u
  | callback i => simp only [State.owns, hcb]

omit [Fintype τ] in
theorem owns_goto (s : State A) (t : τ) (p : Pc) (w : Owner τ) : (s.goto t p).owns w =
    if w = .newFp t then p.newFp else if w = .oldFp t then p.oldFp else s.owns w := by
  cases w with
  | gbl => rfl
  | newFp u => by_cases hu : u = t <;> simp [State.owns, State.goto_pc, hu]
  | oldFp u => by_cases hu : u = t <;> simp [State.owns, State.goto_pc, hu]
  | callback i => rfl

/-- An owner that the step of `t` does not concern keeps shielding. -/
theorem Shields.frame {s s' : State (documented (τ := τ))} {w : Owner τ} {t u : τ}
    (h : Shields s w u) (hw : w ≠ .oldFp t)
    (hpc : ∀ v, v ≠ t → s'.pc v = s.pc v ∧ s'.gp v = s.gp v)
    (hcb : ∀ i x, s.callbacks i = some x → s'.callbacks i = some x)
    (hended : Sections.ended s'.rcu u = Sections.ended s.rcu u) : Shields s' w u := by
  cases w with
  | gbl => trivial
  | newFp v => exact h
  | oldFp v =>
      have hv : v ≠ t := by rintro rfl; exact hw rfl
      simpa only [Shields, (hpc v hv).1, (hpc v hv).2, Awaits, hended] using h
  | callback i =>
      obtain ⟨o, g, hi, hg⟩ := h
      exact ⟨o, g, hcb i _ hi, by rw [Awaits, hended]; exact hg⟩

/-- A step of the thread `t`: its own annotation is new, those of the others are framed. -/
theorem Inv.threadStep {s s' : State (documented (τ := τ))} (h : Inv s) (t : τ)
    (hpc : ∀ u, u ≠ t → s'.pc u = s.pc u)
    (ledger : Ledger s'.owns s'.heap.Live)
    (gbl : ∃ g, s'.gblFoo = some g ∧ (s'.heap.mem g).a.written = true)
    (depth : ∀ u, Sections.depth s'.rcu u = if (s'.pc u).reading then 1 else 0)
    (slots : ∀ i, s'.queued ≤ i → s'.callbacks i = none)
    (hlocal : Local s' t (s'.pc t))
    (hmutex : ∀ u, u ≠ t → s.fooMutex = some u →
      s'.fooMutex = some u ∧ s'.gblFoo = s.gblFoo)
    (hmem : ∀ w o, s.owns w = some o → w ≠ .newFp t → w ≠ .oldFp t →
      s'.heap.mem o = s.heap.mem o)
    (hshield : ∀ u, u ≠ t → (s.pc u).reading → ∀ w o, s.owns w = some o → Shields s w u →
      ∃ w', s'.owns w' = some o ∧ Shields s' w' u) : Inv s' := by
  refine ⟨ledger, gbl, depth, slots, fun u => ?_⟩
  by_cases hu : u = t
  · rwa [hu]
  rw [hpc u hu]
  refine (h.annotation u).frame (hmutex u hu) ?_ ?_ (hshield u hu)
  · intro n hn
    exact hmem (.newFp u) n hn (by simp [hu]) (by simp)
  · intro g hg _
    exact hmem .gbl g hg (by simp) (by simp)

/-- A step of `t` that moves no object: it may write its own `new_fp`, move within the same
ownership and change its own part of the RCU state. -/
theorem Inv.quiet {s s' : State (documented (τ := τ))} (h : Inv s) (t : τ)
    (hpc : ∀ u, u ≠ t → s'.pc u = s.pc u ∧ s'.gp u = s.gp u)
    (hown : (s'.pc t).newFp = (s.pc t).newFp ∧ (s'.pc t).oldFp = (s.pc t).oldFp)
    (hsame : s'.gblFoo = s.gblFoo ∧ s'.callbacks = s.callbacks ∧ s'.queued = s.queued ∧
      s'.heap.life = s.heap.life)
    (hmem : ∀ o, (s.pc t).newFp ≠ some o → s'.heap.mem o = s.heap.mem o)
    (hmutex : ∀ u, u ≠ t → s.fooMutex = some u → s'.fooMutex = some u)
    (hrcu : ∀ u, Sections.depth s'.rcu u = (if (s'.pc u).reading then 1 else 0) ∧
      (u ≠ t → Sections.ended s'.rcu u = Sections.ended s.rcu u))
    (hshield : ∀ u, u ≠ t → (s.pc u).reading → Shields s (.oldFp t) u →
      (s.pc t).oldFp ≠ none → Shields s' (.oldFp t) u)
    (hlocal : Local s' t (s'.pc t)) : Inv s' := by
  obtain ⟨hgbl, hcb, hqueued, hlife⟩ := hsame
  have howns : s'.owns = s.owns := by
    refine owns_eq hgbl (fun u => ?_) (fun u => ?_) hcb <;> by_cases hu : u = t
    · rw [hu, hown.1]
    · rw [(hpc u hu).1]
    · rw [hu, hown.2]
    · rw [(hpc u hu).1]
  have hledger := h.ledger
  obtain ⟨g, hg, hwritten⟩ := h.gbl
  refine h.threadStep t (fun u hu => (hpc u hu).1) ?_ ⟨g, hgbl.trans hg, ?_⟩
    (fun u => (hrcu u).1) (by rw [hcb, hqueued]; exact h.slots) hlocal
    (fun u hu hm => ⟨hmutex u hu hm, hgbl⟩) ?_ ?_
  · have hlive : s'.heap.Live = s.heap.Live := by funext o; simp only [Heap.Live, hlife]
    rwa [howns, hlive]
  · rwa [hmem g fun hn => by cases hledger.unique (w := .newFp t) (z := .gbl) hn hg]
  · intro w o hw hne _
    exact hmem o fun hn => hne (hledger.unique hw hn)
  · intro u hu hread w o hw hs
    refine ⟨w, by rwa [howns], ?_⟩
    by_cases hwt : w = .oldFp t
    · subst hwt
      exact hshield u hu hread hs (by rw [show (s.pc t).oldFp = some o from hw]; simp)
    · exact hs.frame hwt hpc (fun i x hi => by rwa [hcb]) ((hrcu u).2 hu)

theorem Inv.goto {s : State (documented (τ := τ))} (h : Inv s) (t : τ) (p : Pc)
    (hnew : p.newFp = (s.pc t).newFp) (hold : (s.pc t).oldFp = none) (hold' : p.oldFp = none)
    (hread : p.reading = (s.pc t).reading) (hlocal : Local (s.goto t p) t p) :
    Inv (s.goto t p) := by
  refine h.quiet t (fun u hu => ⟨s.goto_pc_of_ne hu p, rfl⟩) ?_ ⟨rfl, rfl, rfl, rfl⟩
    (fun _ _ => rfl) (fun _ _ hm => hm) (fun u => ⟨?_, fun _ => rfl⟩)
    (fun _ _ _ _ hne => absurd hold hne) (by rwa [State.goto_pc_self])
  · rw [State.goto_pc_self]
    exact ⟨hnew, hold'.trans hold.symm⟩
  · rw [State.goto_rcu, h.depth u]
    by_cases hu : u = t
    · rw [hu, State.goto_pc_self, hread]
    · rw [s.goto_pc_of_ne hu]

/-! ### The steps of `foo_get_a` -/

theorem Inv.fooGetA {s s' : State (documented (τ := τ))} {t : τ} {a : GetStep} (h : Inv s)
    (hs : fooGetA s t a = some s') : Inv s' := by
  have hother (r : Sections τ) (p : Pc) (u : τ) (hu : u ≠ t) :
      (({ s with rcu := r } : State documented).goto t p).pc u = s.pc u ∧
        (({ s with rcu := r } : State documented).goto t p).gp u = s.gp u :=
    ⟨State.goto_pc_of_ne _ hu p, rfl⟩
  cases a with
  | call =>
      simp only [Rcu.fooGetA] at hs
      split at hs <;> cases hs
      rename_i hpc
      exact h.goto t _ (by rw [hpc]; rfl) (by rw [hpc]; rfl) rfl (by rw [hpc]; rfl) trivial
  | readLock =>
      simp only [Rcu.fooGetA] at hs
      split at hs <;> cases hs
      rename_i hpc
      refine h.quiet t (hother _ _) ?_ ⟨rfl, rfl, rfl, rfl⟩ (fun _ _ => rfl) (fun _ _ hm => hm)
        (fun u => ⟨?_, fun _ => rfl⟩) (by simp [hpc, Pc.oldFp])
        (by rw [State.goto_pc_self]; trivial)
      · rw [State.goto_pc_self, hpc]; exact ⟨rfl, rfl⟩
      · have hu := h.depth u
        by_cases hut : u = t
        · subst hut
          rw [hpc] at hu
          simpa [Sections.lock_depth, Pc.reading] using hu
        · rw [(hother _ _ u hut).1]
          simpa [Sections.lock_depth, hut] using hu
  | dereference =>
      simp only [Rcu.fooGetA] at hs
      split at hs <;> cases hs
      rename_i hpc
      obtain ⟨g, hg, -⟩ := h.gbl
      exact h.goto t _ (by rw [hpc]; rfl) (by rw [hpc]; rfl) rfl (by rw [hpc]; rfl)
        ⟨g, .gbl, hg, hg, trivial⟩
  | readA =>
      simp only [Rcu.fooGetA] at hs
      split at hs
      · rename_i hpc
        cases hs
        exact h.goto t _ (by rw [hpc]; rfl) (by rw [hpc]; rfl) rfl (by rw [hpc]; rfl) trivial
      · -- the pointer is never `NULL`
        rename_i hpc
        have hl := h.annotation t
        rw [hpc] at hl
        obtain ⟨o, w, ho, -⟩ := hl
        cases ho
      · cases hs
  | readUnlock =>
      simp only [Rcu.fooGetA] at hs
      split at hs
      · rename_i retval hpc
        obtain ⟨k, hk, rfl⟩ := Option.map_eq_some_iff.mp hs
        obtain ⟨-, hdepth, hended⟩ := Sections.unlock_cases hk
        refine h.quiet t (hother _ _) ?_ ⟨rfl, rfl, rfl, rfl⟩ (fun _ _ => rfl) (fun _ _ hm => hm)
          (fun u => ⟨?_, fun hu => ?_⟩) (by simp [hpc, Pc.oldFp])
          (by rw [State.goto_pc_self]; trivial)
        · rw [State.goto_pc_self, hpc]; exact ⟨rfl, rfl⟩
        · have hu := h.depth u
          by_cases hut : u = t
          · subst hut
            rw [hpc] at hu
            simp [hdepth, hu, Pc.reading]
          · rw [(hother _ _ u hut).1]
            simpa [hdepth, hut] using hu
        · simp [hended, hu]
      · cases hs
  | ret v =>
      simp only [Rcu.fooGetA] at hs
      split at hs
      · rename_i hpc
        split_ifs at hs
        cases hs
        exact h.goto t _ (by rw [hpc]; rfl) (by rw [hpc]; rfl) rfl (by rw [hpc]; rfl) trivial
      · cases hs

/-! ### The steps of `foo_update_a` -/

theorem Inv.depth_goto {s : State (documented (τ := τ))} (h : Inv s) {t : τ} {p : Pc}
    (hp : p.reading = (s.pc t).reading) (u : τ) :
    Sections.depth s.rcu u = if ((s.goto t p).pc u).reading then 1 else 0 := by
  rw [h.depth u]
  by_cases hu : u = t
  · rw [hu, State.goto_pc_self, hp]
  · rw [s.goto_pc_of_ne hu]

theorem Inv.kmalloc {s : State (documented (τ := τ))} (h : Inv s) {t : τ} {newA : Int32}
    (hpc : s.pc t = .updEnter newA) {o : Obj} {x : Foo} {hp : Heap Foo}
    (halloc : s.heap.alloc o x = some hp) :
    Inv ({ s with heap := hp }.goto t (.updAlloced newA (some o))) := by
  have hledger := h.ledger
  have hdead : ¬ s.heap.Live o := by rw [Heap.Live, Heap.alloc_unborn halloc]; simp
  have hne {w : Owner τ} {q : Obj} (hw : s.owns w = some q) : q ≠ o := by
    rintro rfl
    exact hdead (hledger.live_of_owns hw)
  obtain ⟨g, hg, hwritten⟩ := h.gbl
  refine h.threadStep t (fun u hu => State.goto_pc_of_ne _ hu _) ?_ ⟨g, hg, ?_⟩
    (h.depth_goto (by rw [hpc]; rfl)) h.slots (by rw [State.goto_pc_self]; trivial)
    (fun _ _ hm => ⟨hm, rfl⟩) ?_ ?_
  · refine hledger.acquire (w := .newFp t) (o := o) (by simp [State.owns, hpc, Pc.newFp]) hdead
      (fun w => ?_) (Heap.alloc_live halloc)
    rw [owns_goto]
    by_cases hw : w = .oldFp t
    · simp [hw, State.owns, hpc, Pc.oldFp]
    · simp only [if_neg hw]; rfl
  · rwa [State.goto_heap, Heap.alloc_mem_of_ne halloc (hne (w := .gbl) hg)]
  · intro w q hw _ _
    exact Heap.alloc_mem_of_ne halloc (hne hw)
  · intro u hu _ w q hw hs
    have hwt : w ≠ .oldFp t := by
      rintro rfl
      simp [State.owns, hpc, Pc.oldFp] at hw
    have hwn : w ≠ .newFp t := by
      rintro rfl
      exact hs
    refine ⟨w, ?_, hs.frame hwt (fun v hv => ⟨State.goto_pc_of_ne _ hv _, rfl⟩)
      (fun _ _ hi => hi) rfl⟩
    rw [owns_goto, if_neg hwn, if_neg hwt]
    exact hw

theorem Inv.writeNew {s : State (documented (τ := τ))} (h : Inv s) {t : τ} {n : Obj} {x : Foo}
    {p : Pc} (hn : (s.pc t).newFp = some n) (hnew : p.newFp = some n)
    (hold : (s.pc t).oldFp = none) (hold' : p.oldFp = none)
    (hread : p.reading = (s.pc t).reading)
    (hlocal : Local ({ s with heap := s.heap.write n x }.goto t p) t p) :
    Inv ({ s with heap := s.heap.write n x }.goto t p) := by
  refine h.quiet t (fun u hu => ⟨State.goto_pc_of_ne _ hu _, rfl⟩) ?_ ⟨rfl, rfl, rfl, rfl⟩
    (fun o ho => ?_) (fun _ _ hm => hm) (fun u => ⟨h.depth_goto hread u, fun _ => rfl⟩)
    (fun _ _ _ _ hne => absurd hold hne) (by rwa [State.goto_pc_self])
  · rw [State.goto_pc_self, hn, hnew, hold, hold']
    exact ⟨rfl, rfl⟩
  · refine Heap.write_mem_of_ne _ _ ?_
    rintro rfl
    exact ho hn

theorem Inv.assign {s : State (documented (τ := τ))} (h : Inv s) {t : τ} {newA : Int32}
    {newFp oldFp : Ptr} (hpc : s.pc t = .updSet newA newFp oldFp) :
    Inv ({ s with gblFoo := newFp }.goto t (.updPublished oldFp)) := by
  have hl := h.annotation t
  rw [hpc] at hl
  obtain ⟨hm, rfl, n, g, rfl, hg, hmem⟩ := hl
  have hledger := h.ledger
  have hnew : s.owns (.newFp t) = some n := by simp [State.owns, hpc, Pc.newFp]
  have hold : s.owns (.oldFp t) = none := by simp [State.owns, hpc, Pc.oldFp]
  refine h.threadStep t (fun u hu => State.goto_pc_of_ne _ hu _) ?_ ⟨n, rfl, ?_⟩
    (h.depth_goto (by rw [hpc]; rfl)) h.slots ?_ ?_ (fun _ _ _ _ _ => rfl) ?_
  · -- `gbl_foo` hands its object to `old_fp`, then `new_fp` hands its own to `gbl_foo`
    refine (hledger.move (w := .gbl) hold fun _ => rfl).move (w := .newFp t) (z := .gbl)
      (by simp) fun w => ?_
    rw [owns_goto]
    by_cases hwn : w = .newFp t
    · simp [hwn, Pc.newFp]
    by_cases hwo : w = .oldFp t
    · simp [hwo, Pc.oldFp, State.owns]
    by_cases hwg : w = .gbl
    · simp [hwg, State.owns, hpc, Pc.newFp]
    · simp only [hwn, hwo, hwg, if_false]
      cases w with
      | gbl => exact absurd rfl hwg
      | _ => rfl
  · simp [hmem]
  · rw [State.goto_pc_self]
    exact ⟨hm, by rw [hg]; simp⟩
  · intro u hu hmu
    rw [hm] at hmu
    exact absurd (Option.some.inj hmu).symm hu
  · intro u hu _ w o hw hs
    by_cases hwg : w = .gbl
    · subst hwg
      refine ⟨.oldFp t, ?_, by simp [Shields]⟩
      rw [owns_goto]
      simpa [Pc.oldFp, State.owns] using hw
    · have hwo : w ≠ .oldFp t := by
        rintro rfl
        rw [hold] at hw
        cases hw
      have hwn : w ≠ .newFp t := by
        rintro rfl
        exact hs
      refine ⟨w, ?_, hs.frame hwo (fun v hv => ⟨State.goto_pc_of_ne _ hv _, rfl⟩)
        (fun _ _ hi => hi) rfl⟩
      rw [owns_goto, if_neg hwn, if_neg hwo]
      cases w with
      | gbl => exact absurd rfl hwg
      | _ => exact hw

theorem Inv.kfree {s : State (documented (τ := τ))} (h : Inv s) {t : τ} {o : Obj}
    (hpc : s.pc t = .updWaited (some o)) :
    Inv ({ s with heap := s.heap.free o }.goto t .updDone) := by
  have hledger := h.ledger
  have hold : s.owns (.oldFp t) = some o := by simp [State.owns, hpc, Pc.oldFp]
  refine h.threadStep t (fun u hu => State.goto_pc_of_ne _ hu _) ?_ h.gbl
    (h.depth_goto (by rw [hpc]; rfl)) h.slots (by rw [State.goto_pc_self]; trivial)
    (fun _ _ hm => ⟨hm, rfl⟩) (fun _ _ _ _ _ => rfl) ?_
  · refine hledger.release hold (fun w => ?_) (Heap.free_live _ _)
    rw [owns_goto]
    by_cases hwn : w = .newFp t
    · simp [hwn, State.owns, hpc, Pc.newFp]
    · simp only [if_neg hwn]; rfl
  · intro u hu _ w q hw hs
    have hwo : w ≠ .oldFp t := by
      rintro rfl
      simp [Shields, hpc] at hs
    have hwn : w ≠ .newFp t := by
      rintro rfl
      exact hs
    refine ⟨w, ?_, hs.frame hwo (fun v hv => ⟨State.goto_pc_of_ne _ hv _, rfl⟩)
      (fun _ _ hi => hi) rfl⟩
    rw [owns_goto, if_neg hwn, if_neg hwo]
    exact hw

/-- A grace period opened now waits for every reader inside its section. -/
theorem Inv.awaits_snapshot {s : State (documented (τ := τ))} (h : Inv s) {u : τ}
    (hu : (s.pc u).reading) : Awaits s.rcu u (Sections.snapshot s.rcu) :=
  Sections.snapshot_of_open (by rw [h.depth u, if_pos hu]; decide)

theorem Inv.callRcu {s : State (documented (τ := τ))} (h : Inv s) {t : τ} {o : Obj} {x : Foo}
    (hpc : s.pc t = .updUnlocked (some o)) : Inv ({ s with
      heap := s.heap.write o x
      callbacks := Function.update s.callbacks s.queued (some (o, Sections.snapshot s.rcu))
      queued := s.queued + 1 }.goto t .updDone) := by
  have hledger := h.ledger
  have hold : s.owns (.oldFp t) = some o := by simp [State.owns, hpc, Pc.oldFp]
  have hfree : s.callbacks s.queued = none := h.slots _ le_rfl
  have hne {w : Owner τ} {q : Obj} (hw : s.owns w = some q) (hwo : w ≠ .oldFp t) : q ≠ o := by
    rintro rfl
    exact hwo (hledger.unique hw hold)
  obtain ⟨g, hg, hwritten⟩ := h.gbl
  refine h.threadStep t (fun u hu => State.goto_pc_of_ne _ hu _) ?_ ⟨g, hg, ?_⟩
    (h.depth_goto (by rw [hpc]; rfl)) ?_ (by rw [State.goto_pc_self]; trivial)
    (fun _ _ hm => ⟨hm, rfl⟩) ?_ ?_
  · refine hledger.move (w := .oldFp t) (z := .callback s.queued)
      (by simp [State.owns, hfree]) fun w => ?_
    rw [owns_goto]
    by_cases hwn : w = .newFp t
    · simp [hwn, State.owns, hpc, Pc.newFp]
    by_cases hwo : w = .oldFp t
    · simp [hwo, Pc.oldFp]
    by_cases hwc : w = .callback s.queued
    · simp [hwc, State.owns, hpc, Pc.oldFp]
    · simp only [hwn, hwo, hwc, if_false]
      cases w with
      | callback i =>
          have hi : i ≠ s.queued := by rintro rfl; exact hwc rfl
          simp [State.owns, hi]
      | _ => rfl
  · rwa [State.goto_heap, Heap.write_mem_of_ne _ _ (hne (w := .gbl) hg (by simp))]
  · intro i hi
    have hi : s.queued + 1 ≤ i := hi
    have hne : i ≠ s.queued := by omega
    simpa [hne] using h.slots i (by omega)
  · intro w q hw _ hwo
    exact Heap.write_mem_of_ne _ _ (hne hw hwo)
  · intro u hu hread w q hw hs
    by_cases hwo : w = .oldFp t
    · subst hwo
      rw [hold] at hw
      cases hw
      refine ⟨.callback s.queued, by simp [State.owns], o, Sections.snapshot s.rcu, by simp, ?_⟩
      exact h.awaits_snapshot hread
    · have hwn : w ≠ .newFp t := by
        rintro rfl
        exact hs
      have hcb : ∀ i x, s.callbacks i = some x →
          Function.update s.callbacks s.queued (some (o, Sections.snapshot s.rcu)) i = some x := by
        intro i x hi
        have : i ≠ s.queued := by
          rintro rfl
          rw [hfree] at hi
          cases hi
        simpa [this] using hi
      refine ⟨w, ?_, hs.frame hwo (fun v hv => ⟨State.goto_pc_of_ne _ hv _, rfl⟩) hcb rfl⟩
      rw [owns_goto, if_neg hwn, if_neg hwo]
      cases w with
      | callback i =>
          obtain ⟨x, hx, rfl⟩ := Option.map_eq_some_iff.mp hw
          simp only [State.owns, hcb i x hx, Option.map_some]
      | _ => exact hw

/-- The steps between the publication and the reclamation: `t` keeps its `old_fp`. -/
theorem Inv.keepOld {s s' : State (documented (τ := τ))} (h : Inv s) {t : τ} {p : Pc}
    (hpc : s'.pc = Function.update s.pc t p)
    (hgp : ∀ u, u ≠ t → s'.gp u = s.gp u)
    (hsame : s'.gblFoo = s.gblFoo ∧ s'.callbacks = s.callbacks ∧ s'.queued = s.queued ∧
      s'.heap = s.heap ∧ s'.rcu = s.rcu)
    (hnew : p.newFp = none ∧ (s.pc t).newFp = none) (hold : p.oldFp = (s.pc t).oldFp)
    (hread : p.reading = (s.pc t).reading)
    (hmutex : ∀ u, u ≠ t → s.fooMutex = some u → s'.fooMutex = some u)
    (hshield : ∀ u, (s.pc u).reading → Shields s (.oldFp t) u → Shields s' (.oldFp t) u)
    (hlocal : Local s' t p) : Inv s' := by
  obtain ⟨hg, hcb, hq, hheap, hrcu⟩ := hsame
  refine h.quiet t (fun u hu => ⟨by simp [hpc, hu], hgp u hu⟩)
    ⟨by simp [hpc, hnew.1, hnew.2], by simp [hpc, hold]⟩ ⟨hg, hcb, hq, by rw [hheap]⟩
    (fun _ _ => by rw [hheap]) hmutex (fun u => ⟨?_, fun _ => by rw [hrcu]⟩)
    (fun u _ hu hs _ => hshield u hu hs) (by simpa [hpc] using hlocal)
  rw [hrcu, hpc]
  exact h.depth_goto hread u

theorem Inv.fooUpdateA {v : Reclaim} {s s' : State (documented (τ := τ))} {t : τ}
    {a : UpdateStep} (h : Inv s) (hs : fooUpdateA v s t a = some s') : Inv s' := by
  have hl := h.annotation t
  cases a with
  | call newA =>
      simp only [Rcu.fooUpdateA] at hs
      split at hs <;> cases hs
      rename_i hpc
      exact h.goto t _ (by rw [hpc]; rfl) (by rw [hpc]; rfl) rfl (by rw [hpc]; rfl) trivial
  | kmalloc r =>
      cases r with
      | none =>
          simp only [Rcu.fooUpdateA] at hs
          split at hs <;> cases hs
          rename_i hpc
          exact h.goto t _ (by rw [hpc]; rfl) (by rw [hpc]; rfl) rfl (by rw [hpc]; rfl) trivial
      | some ox =>
          simp only [Rcu.fooUpdateA] at hs
          split at hs
          · rename_i newA hpc
            obtain ⟨hp, halloc, rfl⟩ := Option.map_eq_some_iff.mp hs
            exact h.kmalloc hpc halloc
          · cases hs
  | spinLock =>
      simp only [Rcu.fooUpdateA] at hs
      split at hs <;> cases hs
      rename_i newA newFp hpc hfree
      refine h.quiet t (fun u hu => ⟨State.goto_pc_of_ne _ hu _, rfl⟩) ?_ ⟨rfl, rfl, rfl, rfl⟩
        (fun _ _ => rfl) (fun u _ hu => by rw [hfree] at hu; cases hu)
        (fun u => ⟨h.depth_goto (by rw [hpc]; rfl) u, fun _ => rfl⟩) (by simp [hpc, Pc.oldFp])
        (by rw [State.goto_pc_self]; rfl)
      rw [State.goto_pc_self, hpc]
      exact ⟨rfl, rfl⟩
  | dereference =>
      simp only [Rcu.fooUpdateA] at hs
      split at hs <;> cases hs
      rename_i hpc
      rw [hpc] at hl
      exact h.goto t _ (by rw [hpc]; rfl) (by rw [hpc]; rfl) rfl (by rw [hpc]; rfl) ⟨hl, rfl⟩
  | copy =>
      simp only [Rcu.fooUpdateA] at hs
      split at hs
      · rename_i newA n o hpc
        cases hs
        rw [hpc] at hl
        obtain ⟨hm, ho⟩ := hl
        have hne : o ≠ n := h.ledger.ne_of_ne (w := .gbl) (z := .newFp t) ho.symm
          (by simp [State.owns, hpc, Pc.newFp]) (by simp)
        refine h.writeNew (by rw [hpc]; rfl) rfl (by rw [hpc]; rfl) rfl (by rw [hpc]; rfl)
          ⟨hm, ho, n, o, rfl, ho.symm, ?_⟩
        simp [Heap.write_mem_of_ne _ _ hne]
      · rename_i hpc
        cases hs
        exact h.goto t _ (by rw [hpc]; rfl) (by rw [hpc]; rfl) rfl (by rw [hpc]; rfl) trivial
      · -- `old_fp` is `gbl_foo`, which is not `NULL`
        rename_i hpc
        rw [hpc] at hl
        obtain ⟨g, hg, -⟩ := h.gbl
        rw [← hl.2] at hg
        cases hg
      · cases hs
  | storeA =>
      simp only [Rcu.fooUpdateA] at hs
      split at hs
      · rename_i newA n oldFp hpc
        cases hs
        rw [hpc] at hl
        obtain ⟨hm, ho, n', g, hn, hg, hmem⟩ := hl
        cases hn
        have hne : g ≠ n := h.ledger.ne_of_ne (w := .gbl) (z := .newFp t) hg
          (by simp [State.owns, hpc, Pc.newFp]) (by simp)
        refine h.writeNew (by rw [hpc]; rfl) rfl (by rw [hpc]; rfl) rfl (by rw [hpc]; rfl)
          ⟨hm, ho, n, g, rfl, hg, ?_⟩
        simp [Heap.write_mem_of_ne _ _ hne, hmem]
      · rename_i hpc
        rw [hpc] at hl
        obtain ⟨-, -, n, g, hn, -⟩ := hl
        cases hn
      · cases hs
  | assign =>
      simp only [Rcu.fooUpdateA] at hs
      split at hs <;> cases hs
      rename_i hpc
      exact h.assign hpc
  | spinUnlock =>
      simp only [Rcu.fooUpdateA] at hs
      split at hs <;> cases hs
      rename_i oldFp hpc
      rw [hpc] at hl
      refine h.keepOld rfl (fun _ _ => rfl) ⟨rfl, rfl, rfl, rfl, rfl⟩ ⟨rfl, by rw [hpc]; rfl⟩
        (by rw [hpc]; rfl) (by rw [hpc]; rfl) (fun u hu hm => ?_) (by simp [Shields]) hl.2
      rw [hl.1] at hm
      exact absurd (Option.some.inj hm).symm hu
  | synchronizeStart =>
      simp only [Rcu.fooUpdateA] at hs
      split at hs
      · rename_i oldFp hpc
        cases hs
        rw [hpc] at hl
        refine h.keepOld rfl (fun u hu => by simp [hu]) ⟨rfl, rfl, rfl, rfl, rfl⟩
          ⟨rfl, by rw [hpc]; rfl⟩ (by rw [hpc]; rfl) (by rw [hpc]; rfl) (fun _ _ hm => hm)
          (fun u hu _ => ?_) hl
        simpa [Shields] using h.awaits_snapshot hu
      · cases hs
  | synchronizeFinish =>
      simp only [Rcu.fooUpdateA] at hs
      split at hs
      · rename_i oldFp g hpc hgp
        obtain ⟨k, hk, rfl⟩ := Option.map_eq_some_iff.mp hs
        split_ifs at hk with hover
        cases hk
        rw [hpc] at hl
        refine h.keepOld rfl (fun u hu => by simp [hu]) ⟨rfl, rfl, rfl, rfl, rfl⟩
          ⟨rfl, by rw [hpc]; rfl⟩ (by rw [hpc]; rfl) (by rw [hpc]; rfl) (fun _ _ hm => hm)
          (fun u _ hsh => ?_) hl
        -- the grace period is over, so no reader is shielded by it
        simp only [Shields, hpc, hgp, Option.some.injEq, exists_eq_left'] at hsh
        exact absurd hover (Sections.not_elapsed hsh)
      · cases hs
  | kfree =>
      simp only [Rcu.fooUpdateA] at hs
      split at hs
      · rename_i hpc
        cases hs
        exact h.kfree hpc
      · rename_i hpc
        rw [hpc] at hl
        exact absurd rfl hl
      · cases hs
  | callRcu =>
      simp only [Rcu.fooUpdateA] at hs
      split at hs
      · rename_i o hpc
        cases hs
        exact h.callRcu hpc
      · rename_i hpc
        rw [hpc] at hl
        exact absurd rfl hl
      · cases hs
  | ret =>
      simp only [Rcu.fooUpdateA] at hs
      split at hs <;> cases hs
      rename_i hpc
      exact h.goto t _ (by rw [hpc]; rfl) (by rw [hpc]; rfl) rfl (by rw [hpc]; rfl) trivial

/-! ### The callbacks -/

theorem Inv.fooReclaim {s s' : State (documented (τ := τ))} {i : ℕ} (h : Inv s)
    (hs : fooReclaim s i = some s') : Inv s' := by
  have hledger := h.ledger
  simp only [Rcu.fooReclaim] at hs
  split at hs
  · rename_i o g hi
    obtain ⟨k, hk, rfl⟩ := Option.map_eq_some_iff.mp hs
    split_ifs at hk with hover
    cases hk
    have hown : s.owns (.callback i) = some o := by simp [State.owns, hi]
    refine ⟨hledger.release hown (fun w => ?_) (Heap.free_live _ _), h.gbl, h.depth,
      fun j hj => ?_, fun u => (h.annotation u).frame (fun hm => ⟨hm, rfl⟩) (fun _ _ => rfl)
        (fun _ _ _ => rfl) ?_⟩
    · by_cases hw : w = .callback i
      · simp [hw, State.owns]
      · simp only [hw, if_false]
        cases w with
        | callback j =>
            have hj : j ≠ i := by rintro rfl; exact hw rfl
            simp [State.owns, hj]
        | _ => rfl
    · by_cases hji : j = i
      · simp [hji]
      · simpa [hji] using h.slots j hj
    · intro _ w q hw hsh
      cases w with
      | callback j =>
          -- the callback that runs shields nobody any more
          have hji : j ≠ i := by
            rintro rfl
            obtain ⟨o', g', hj, hg⟩ := hsh
            rw [hi] at hj
            cases hj
            exact Sections.not_elapsed hg hover
          exact ⟨.callback j, by simpa [State.owns, hji] using hw,
            by simpa [Shields, hji] using hsh⟩
      | gbl => exact ⟨.gbl, hw, trivial⟩
      | newFp v => exact hsh.elim
      | oldFp v => exact ⟨.oldFp v, hw, hsh⟩
  · cases hs

/-- Every step keeps the invariant. -/
theorem Inv.step {v : Reclaim} {s s' : State (documented (τ := τ))} {e : Event τ} (h : Inv s)
    (hs : step v s e = some s') : Inv s' := by
  cases e with
  | get t a => exact h.fooGetA hs
  | update t a => exact h.fooUpdateA hs
  | reclaim i => exact h.fooReclaim hs

/-! ### Start -/

omit [DecidableEq τ] [Fintype τ] in
/-- What `init_foo` leaves: one object with `a` set, no thread inside a function. -/
theorem initFoo_eq_some {o : Obj} {x : Foo} {s : State A}
    (h : initFoo (State.blank A) o x = some s) : s = { State.blank A with
      gblFoo := some o
      heap := ⟨Function.update (fun _ => .unborn) o .live,
        Function.update (State.blank A).heap.mem o { x.raw with a := ⟨5, true⟩ }⟩ } := by
  simp only [initFoo, initFooKmalloc, Option.bind_eq_some_iff, Option.map_eq_some_iff] at h
  obtain ⟨c, ⟨hp, halloc, rfl⟩, hc⟩ := h
  obtain ⟨-, rfl⟩ := Heap.alloc_eq_some.mp halloc
  cases hc
  simp [State.blank, Heap.write]

theorem Inv.of_idle {s : State (documented (τ := τ))} {g : Obj} (hg : s.gblFoo = some g)
    (hlive : ∀ o, s.heap.Live o ↔ o = g) (hwritten : (s.heap.mem g).a.written = true)
    (hpc : ∀ t, s.pc t = .idle) (hcb : ∀ i, s.callbacks i = none)
    (hdepth : ∀ t, Sections.depth s.rcu t = 0) : Inv s where
  ledger := by
    have honly {w : Owner τ} {o : Obj} (hw : s.owns w = some o) : w = .gbl := by
      cases w <;> simp_all [State.owns, Pc.newFp, Pc.oldFp]
    refine ⟨fun {w o} hw => ?_, fun hw hw' => (honly hw).trans (honly hw').symm, fun {o} ho => ?_⟩
    · have := honly hw
      subst this
      exact (hlive o).mpr (Option.some.inj (hw.symm.trans hg))
    · exact ⟨.gbl, by rw [(hlive o).mp ho]; exact hg⟩
  gbl := ⟨g, hg, hwritten⟩
  depth t := by rw [hdepth, hpc]; rfl
  slots i _ := hcb i
  annotation t := by rw [hpc]; trivial

theorem Inv.initFoo {o : Obj} {x : Foo} {s : State (documented (τ := τ))}
    (h : initFoo (State.blank documented) o x = some s) : Inv s := by
  rw [initFoo_eq_some h]
  refine Inv.of_idle (g := o) rfl (fun q => ?_) (by simp) (fun _ => rfl) (fun _ => rfl)
    (fun _ => rfl)
  by_cases hq : q = o <;> simp [Heap.Live, hq]

end KernelMemo.Rcu
