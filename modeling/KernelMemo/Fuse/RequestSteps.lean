import KernelMemo.Fuse.RequestInvariant

/-! # The small steps of a request

What the building blocks of `Request.lean` do to the invariant: which requests they concern
(`Frame`), where they leave a request (`State.Located`), and what they keep (`Sound`).  The steps
of the source are put together from them in `RequestSafety.lean`. -/

namespace KernelMemo.Fuse

/-! ### Small steps -/

variable {τ : Type*} {s s' : State τ} {r : ReqId} {t : τ} {v : Option (Place τ)} {w : Option τ}
  {d : Dev}

namespace State

@[simp] theorem req_upd_self (f : Req → Req) : (s.upd r f).req r = f (s.req r) := by
  simp [upd, req]

@[simp] theorem req_listDel (y : ReqId) : (s.listDel r).req y = s.req y := rfl

@[simp] theorem req_assignUnique_self :
    (s.assignUnique r).req r = { s.req r with unique := s.nextUnique } := by
  simp [assignUnique, upd, getUnique, req]

@[simp] theorem req_queueProcessing (d : Dev) (y : ReqId) :
    (s.queueProcessing d r).req y = s.req y := rfl

@[simp] theorem req_addIo (d : Dev) (y : ReqId) : (s.addIo d r).req y = s.req y := rfl

@[simp] theorem req_queueRequest (y : ReqId) : (s.queueRequest r).req y = s.req y := rfl

@[simp] theorem req_queueBackground (y : ReqId) : (s.queueBackground r).req y = s.req y := rfl

@[simp] theorem req_setLock (l : Option τ) (y : ReqId) :
    State.req { s with fcLock := l } y = s.req y := rfl

@[simp] theorem req_uncount (l : Option τ) (y : ReqId) : (s.uncount l).req y = s.req y := rfl

@[simp] theorem req_setActive (n : ℕ) (y : ReqId) :
    State.req { s with activeBackground := n } y = s.req y := rfl

@[simp] theorem req_setInterrupts (l : List ReqId) (y : ReqId) :
    State.req { s with interrupts := l } y = s.req y := rfl

@[simp] theorem req_lose (y : ReqId) : (s.lose r).req y = s.req y := rfl

@[simp] theorem req_goto [DecidableEq τ] (p : Pc) (y : ReqId) : (s.goto t p).req y = s.req y := rfl

@[simp] theorem pc_goto_self [DecidableEq τ] (p : Pc) : (s.goto t p).pc t = p := by
  simp [goto]

@[simp] theorem stage_goto_self [DecidableEq τ] (p : Pc) :
    (Place.task t).stage (s.goto t p).pc = p.stage := by
  rw [Place.stage, pc_goto_self]

theorem pc_goto_of_ne [DecidableEq τ] {p : Pc} {t' : τ} (h : t' ≠ t) :
    (s.goto t p).pc t' = s.pc t' := by
  simp [goto, Function.update_of_ne h]

theorem not_mem_io_listDel (h : ∀ d, (s.io d).Nodup) (d : Dev) : r ∉ (s.listDel r).io d :=
  (h d).not_mem_erase

theorem touch_of_live (h : s.heap.Live r) : s.touch r = s := by
  rw [Heap.Live] at h
  simp [touch, h]

theorem bugOn_false : s.bugOn false = s := by simp [bugOn]

@[simp] theorem bugOn_false_of {b : Bool} (h : b = false) : s.bugOn b = s := by simp [bugOn, h]

end State

/-! ### Frames of the small steps -/

namespace Frame

theorem upd (r : ReqId) (s : State τ) (f : Req → Req) : Frame r s (s.upd r f) where
  life _ _ := rfl
  req y hy := by simp [State.upd, State.req, Heap.write_mem_of_ne _ _ hy]
  pc _ _ _ _ := rfl
  bgQueue _ _ := Iff.rfl
  pending _ _ := Iff.rfl
  interrupts _ _ := Iff.rfl
  io _ _ _ := Iff.rfl
  processing _ _ _ := Iff.rfl
  toEnd2 _ _ := Iff.rfl
  lost _ _ := rfl

theorem setHeap {heap : Heap Req}
    (h : ∀ y, y ≠ r → heap.life y = s.heap.life y ∧ heap.mem y = s.heap.mem y) :
    Frame r s { s with heap := heap } where
  life y hy := (h y hy).1
  req y hy := (h y hy).2
  pc _ _ _ _ := rfl
  bgQueue _ _ := Iff.rfl
  pending _ _ := Iff.rfl
  interrupts _ _ := Iff.rfl
  io _ _ _ := Iff.rfl
  processing _ _ _ := Iff.rfl
  toEnd2 _ _ := Iff.rfl
  lost _ _ := rfl

theorem assignUnique (r : ReqId) (s : State τ) : Frame r s (s.assignUnique r) :=
  ⟨fun _ _ => rfl, (upd r s fun q => { q with unique := s.nextUnique }).req, fun _ _ _ _ => rfl,
    fun _ _ => Iff.rfl, fun _ _ => Iff.rfl, fun _ _ => Iff.rfl, fun _ _ _ => Iff.rfl,
    fun _ _ _ => Iff.rfl, fun _ _ => Iff.rfl, fun _ _ => rfl⟩

theorem queueRequest (r : ReqId) (s : State τ) : Frame r s (s.queueRequest r) where
  life _ _ := rfl
  req _ _ := rfl
  pc _ _ _ _ := rfl
  bgQueue _ _ := Iff.rfl
  pending _ hy := by simp [State.queueRequest, hy]
  interrupts _ _ := Iff.rfl
  io _ _ _ := Iff.rfl
  processing _ _ _ := Iff.rfl
  toEnd2 _ _ := Iff.rfl
  lost _ _ := rfl

theorem queueProcessing (d : Dev) (s : State τ) : Frame r s (s.queueProcessing d r) where
  life _ _ := rfl
  req _ _ := rfl
  pc _ _ _ _ := rfl
  bgQueue _ _ := Iff.rfl
  pending _ _ := Iff.rfl
  interrupts _ _ := Iff.rfl
  io _ _ _ := Iff.rfl
  processing d' y hy := by
    by_cases hd : d' = d
    · simp [State.queueProcessing, hd, hy]
    · simp [State.queueProcessing, Function.update_of_ne hd]
  toEnd2 _ _ := Iff.rfl
  lost _ _ := rfl

theorem addIo (d : Dev) (s : State τ) : Frame r s (s.addIo d r) where
  life _ _ := rfl
  req _ _ := rfl
  pc _ _ _ _ := rfl
  bgQueue _ _ := Iff.rfl
  pending _ _ := Iff.rfl
  interrupts _ _ := Iff.rfl
  io d' y hy := by
    by_cases hd : d' = d
    · simp [State.addIo, hd, hy]
    · simp [State.addIo, Function.update_of_ne hd]
  processing _ _ _ := Iff.rfl
  toEnd2 _ _ := Iff.rfl
  lost _ _ := rfl

/-- Taking and releasing `fc->lock`. -/
theorem setLock (s : State τ) (l : Option τ) : Frame r s { s with fcLock := l } := by
  constructor <;> intros <;> rfl

theorem uncount (s : State τ) (l : Option τ) : Frame r s (s.uncount l) := by
  constructor <;> intros <;> rfl

theorem setActive (s : State τ) (n : ℕ) : Frame r s { s with activeBackground := n } := by
  constructor <;> intros <;> rfl

theorem setInterrupts {l : List ReqId} (h : ∀ y, y ≠ r → (y ∈ l ↔ y ∈ s.interrupts)) :
    Frame r s { s with interrupts := l } where
  life _ _ := rfl
  req _ _ := rfl
  pc _ _ _ _ := rfl
  bgQueue _ _ := Iff.rfl
  pending _ _ := Iff.rfl
  interrupts := h
  io _ _ _ := Iff.rfl
  processing _ _ _ := Iff.rfl
  toEnd2 _ _ := Iff.rfl
  lost _ _ := rfl

theorem lose (r : ReqId) (s : State τ) : Frame r s (s.lose r) where
  life _ _ := rfl
  req _ _ := rfl
  pc _ _ _ _ := rfl
  bgQueue _ _ := Iff.rfl
  pending _ _ := Iff.rfl
  interrupts _ _ := Iff.rfl
  io _ _ _ := Iff.rfl
  processing _ _ _ := Iff.rfl
  toEnd2 _ _ := Iff.rfl
  lost _ hy := List.count_cons_of_ne (Ne.symm hy)

theorem queueBackground (r : ReqId) (s : State τ) : Frame r s (s.queueBackground r) where
  life _ _ := rfl
  req _ _ := rfl
  pc _ _ _ _ := rfl
  bgQueue _ hy := by simp [State.queueBackground, hy]
  pending _ _ := Iff.rfl
  interrupts _ _ := Iff.rfl
  io _ _ _ := Iff.rfl
  processing _ _ _ := Iff.rfl
  toEnd2 _ _ := Iff.rfl
  lost _ _ := rfl

theorem listDel (r : ReqId) (s : State τ) : Frame r s (s.listDel r) where
  life _ _ := rfl
  req _ _ := rfl
  pc _ _ _ _ := rfl
  bgQueue _ hy := List.mem_erase_of_ne hy
  pending _ hy := List.mem_erase_of_ne hy
  interrupts _ _ := Iff.rfl
  io _ _ hy := List.mem_erase_of_ne hy
  processing _ _ hy := List.mem_erase_of_ne hy
  toEnd2 _ hy := List.mem_erase_of_ne hy
  lost _ _ := rfl

/-- The task changes its place and stays with the request. -/
theorem goto [DecidableEq τ] {p : Pc} (hold : (s.pc t).req = none ∨ (s.pc t).req = some r)
    (hnew : p.req = none ∨ p.req = some r) : Frame r s (s.goto t p) where
  life _ _ := rfl
  req _ _ := rfl
  pc t' y hy h := by
    by_cases ht : t' = t
    · subst ht
      simp only [State.goto, Function.update_self] at h
      have hne : some y ≠ some r := fun he => hy (Option.some.inj he)
      rcases h with h | h
      · rw [h] at hold
        simp [hne] at hold
      · rw [h] at hnew
        simp [hne] at hnew
    · simp [State.goto, Function.update_of_ne ht]
  bgQueue _ _ := Iff.rfl
  pending _ _ := Iff.rfl
  interrupts _ _ := Iff.rfl
  io _ _ _ := Iff.rfl
  processing _ _ _ := Iff.rfl
  toEnd2 _ _ := Iff.rfl
  lost _ _ := rfl

end Frame

/-! ### Places of the small steps -/

namespace State.Located

/-- A list place that a request is taken off. -/
theorem listDel (hs : Sound s) (h : s.Located r v) (hv : ∀ t, v ≠ some (.task t)) :
    (s.listDel r).Located r none := by
  intro p
  cases p with
  | bgQueue => simp [Holds, State.listDel, hs.bgQueue.not_mem_erase]
  | pending => simp [Holds, State.listDel, hs.pending.not_mem_erase]
  | processing d => simp [Holds, State.listDel, (hs.processing d).not_mem_erase]
  | toEnd => simp [Holds, State.listDel, hs.toEnd2.not_mem_erase]
  | task t =>
      have hp := h (.task t)
      simp only [Holds, hv t, iff_false] at hp
      simpa [Holds, State.listDel] using hp

/-- A task that has the request in hand takes it off a list. -/
theorem listDel_task (hs : Sound s) (h : s.Located r (some (.task t))) :
    (s.listDel r).Located r (some (.task t)) := by
  intro p
  cases p with
  | bgQueue => simp [Holds, State.listDel, hs.bgQueue.not_mem_erase]
  | pending => simp [Holds, State.listDel, hs.pending.not_mem_erase]
  | processing d => simp [Holds, State.listDel, (hs.processing d).not_mem_erase]
  | toEnd => simp [Holds, State.listDel, hs.toEnd2.not_mem_erase]
  | task t' => exact h (.task t')

theorem setHeap (h : s.Located r v) (heap : Heap Req) :
    State.Located { s with heap := heap } r v := by
  intro q
  have hq := h q
  cases q <;> exact hq

theorem upd (h : s.Located r v) (f : Req → Req) : (s.upd r f).Located r v :=
  h.setHeap _

theorem addIo (h : s.Located r v) (d : Dev) : (s.addIo d r).Located r v := by
  intro q
  have hq := h q
  cases q <;> exact hq

theorem setLock (h : s.Located r v) (l : Option τ) :
    State.Located { s with fcLock := l } r v := by
  intro q
  have hq := h q
  cases q <;> exact hq

theorem uncount (h : s.Located r v) (l : Option τ) : (s.uncount l).Located r v := by
  intro q
  have hq := h q
  cases q <;> exact hq

theorem setActive (h : s.Located r v) (n : ℕ) :
    State.Located { s with activeBackground := n } r v := by
  intro q
  have hq := h q
  cases q <;> exact hq

theorem setInterrupts (h : s.Located r v) (l : List ReqId) :
    State.Located { s with interrupts := l } r v := by
  intro q
  have hq := h q
  cases q <;> exact hq

theorem lose (h : s.Located r v) : (s.lose r).Located r v := by
  intro q
  have hq := h q
  cases q <;> exact hq

theorem assignUnique (h : s.Located r v) : (s.assignUnique r).Located r v := by
  intro q
  have hq := h q
  cases q <;> exact hq

/-- A request that was nowhere has come to `p`. -/
theorem enter (h : s.Located r none) {p : Place τ} (hin : s'.Holds p r)
    (hframe : ∀ q, q ≠ p → (s'.Holds q r ↔ s.Holds q r)) : s'.Located r (some p) := by
  intro q
  by_cases hq : q = p
  · simp [hq, hin]
  · rw [hframe q hq, h q]
    simp [Ne.symm hq]

theorem queueRequest (h : s.Located r none) : (s.queueRequest r).Located r (some .pending) := by
  refine h.enter (by simp [Holds, State.queueRequest]) fun q hq => ?_
  cases q with
  | pending => exact absurd rfl hq
  | _ => exact Iff.rfl

theorem queueProcessing (h : s.Located r none) (d : Dev) :
    (s.queueProcessing d r).Located r (some (.processing d)) := by
  refine h.enter (by simp [Holds, State.queueProcessing]) fun q hq => ?_
  cases q with
  | processing d' =>
      have hd : d' ≠ d := fun he => hq (by rw [he])
      simp [Holds, State.queueProcessing, Function.update_of_ne hd]
  | _ => exact Iff.rfl

theorem queueBackground (h : s.Located r none) :
    (s.queueBackground r).Located r (some .bgQueue) := by
  refine h.enter (by simp [Holds, State.queueBackground]) fun q hq => ?_
  cases q with
  | bgQueue => exact absurd rfl hq
  | _ => exact Iff.rfl

variable [DecidableEq τ] {p : Pc}

/-- The task moves on without taking or handing on a request. -/
theorem goto (h : s.Located r v) (hp : (s.pc t).flight = p.flight) :
    (s.goto t p).Located r v := by
  intro q
  have hq := h q
  cases q with
  | task t' =>
      by_cases ht : t' = t
      · subst ht
        simpa [Holds, State.goto, ← hp] using hq
      · simpa [Holds, State.goto, Function.update_of_ne ht] using hq
  | _ => simpa [Holds, State.goto] using hq

/-- The task takes the request. -/
theorem goto_take (h : s.Located r none) (hp : p.flight = some r) :
    (s.goto t p).Located r (some (.task t)) := by
  intro q
  have hq := h q
  cases q with
  | task t' =>
      by_cases ht : t' = t
      · simp [Holds, State.goto, ht, hp]
      · simp only [Holds, reduceCtorEq, iff_false] at hq
        simp [Holds, State.goto, Function.update_of_ne ht, hq, Ne.symm ht]
  | _ => simpa [Holds, State.goto] using hq

/-- The task hands the request on. -/
theorem goto_drop (h : s.Located r (some (.task t))) (hp : p.flight ≠ some r) :
    (s.goto t p).Located r none := by
  intro q
  have hq := h q
  cases q with
  | task t' =>
      by_cases ht : t' = t
      · simp [Holds, State.goto, ht, hp]
      · simp only [Holds, Option.some.injEq, Place.task.injEq, Ne.symm ht, iff_false] at hq
        simp [Holds, State.goto, Function.update_of_ne ht, hq]
  | _ => simpa [Holds, State.goto] using hq

end State.Located

/-- What the caller relies on, when its request in flight moves on. -/
theorem CallerOk.advance {q q' : Req} {pc : Pc} {p p' : Place τ} (h : CallerOk (some p) q pc)
    (hbg : q.background = false → q'.background = false)
    (hq : q.pending = false → q'.pending = false) : CallerOk (some p') q' pc := by
  unfold CallerOk at h ⊢
  split at h <;> simp_all

/-- A request in flight goes from `p` to `o` by a step of the task `t`. -/
theorem ReqOk.advance [DecidableEq τ] {p o : Place τ} {q : Pc} (h : ReqOk s r (some p) w)
    (hpc : s'.pc = Function.update s.pc t q) (hold : (s.pc t).caller = none)
    (hnew : q.caller = none) (hplace : s'.Located r (some o))
    (hlife : s'.heap.life r = s.heap.life r) (hlost : s'.lost = s.lost)
    (hcount : (s'.req r).count = (s.req r).count) (hpriv : (s'.req r).priv = (s.req r).priv)
    (hbg : (s.req r).background = false → (s'.req r).background = false)
    (hpend : (s.req r).pending = false → (s'.req r).pending = false)
    (hflight : FlightOk (o.stage s'.pc) (s'.req r))
    (hborrow : (∃ d, o = .processing d) ∨
      (∀ t, (s.pc t).borrow ≠ some r) ∧ q.borrow ≠ some r)
    (hintr : r ∈ s'.interrupts → (s'.req r).pending = false ∧ (o.stage s'.pc).unqueued = false)
    (hio : ∀ d, r ∈ s'.io d → o = .task t ∧ q.onIo d r) :
    ReqOk s' r (some o) w := by
  have hcaller : ∀ t', (s'.pc t').caller = (s.pc t').caller := by
    intro t'
    by_cases ht : t' = t
    · rw [hpc, ht, Function.update_self, hold, hnew]
    · rw [hpc, Function.update_of_ne ht]
  refine ⟨hplace, fun t' => ?_, ?_, ?_, ?_, ?_, ?_, ?_, ?_, hpriv.trans h.priv, fun hl => ?_⟩
  · rw [hcaller]
    exact h.caller t'
  · rw [Heap.Live, hlife, hlost]
    exact h.live
  · rw [Heap.Live, hlife, hlost, hcount]
    exact h.count
  · intro p' hp'
    cases hp'
    exact hflight
  · intro t' ht'
    have hc := (h.caller t').mpr ht'
    have hne : t' ≠ t := by
      intro he
      rw [he, hold] at hc
      cases hc
    rw [hpc, Function.update_of_ne hne]
    exact (h.waiting t' ht').advance hbg hpend
  · intro t' ht'
    rcases hborrow with ⟨d, hd⟩ | ⟨hno, hq⟩
    · exact ⟨d, congrArg some hd⟩
    · by_cases ht : t' = t
      · rw [hpc, ht, Function.update_self] at ht'
        exact absurd ht' hq
      · rw [hpc, Function.update_of_ne ht] at ht'
        exact absurd ht' (hno t')
  · intro hi
    exact ⟨(hintr hi).1, o, rfl, (hintr hi).2⟩
  · intro d hd
    obtain ⟨hp', ho⟩ := hio d hd
    exact ⟨t, congrArg some hp', by rwa [hpc, Function.update_self]⟩
  · rw [hlost] at hl
    cases (h.lost hl).1

/-- Only requests on a processing list are borrowed. -/
theorem ReqOk.not_borrow {p : Place τ} (h : ReqOk s r (some p) w) (hp : ∀ d, p ≠ .processing d)
    (t : τ) : (s.pc t).borrow ≠ some r := by
  intro ht
  obtain ⟨d, hd⟩ := h.borrow t ht
  exact hp d (Option.some.inj hd)

/-! ### Soundness of the lists -/

theorem nodup_snoc {l : List ReqId} (h : l.Nodup) (hr : r ∉ l) : (l ++ [r]).Nodup := by
  rw [← List.concat_eq_append]
  exact h.concat hr

namespace Sound

variable (h : Sound s)
include h

theorem upd (f : Req → Req) : Sound (s.upd r f) :=
  ⟨h.bgQueue, h.pending, h.interrupts, h.io, h.processing, h.toEnd1, h.toEnd2, h.fault⟩

theorem setLock (l : Option τ) : Sound { s with fcLock := l } :=
  ⟨h.bgQueue, h.pending, h.interrupts, h.io, h.processing, h.toEnd1, h.toEnd2, h.fault⟩

theorem uncount (l : Option τ) : Sound (s.uncount l) :=
  ⟨h.bgQueue, h.pending, h.interrupts, h.io, h.processing, h.toEnd1, h.toEnd2, h.fault⟩

theorem setActive (n : ℕ) : Sound { s with activeBackground := n } :=
  ⟨h.bgQueue, h.pending, h.interrupts, h.io, h.processing, h.toEnd1, h.toEnd2, h.fault⟩

theorem setInterrupts {l : List ReqId} (hl : l.Nodup) : Sound { s with interrupts := l } :=
  ⟨h.bgQueue, h.pending, hl, h.io, h.processing, h.toEnd1, h.toEnd2, h.fault⟩

theorem lose : Sound (s.lose r) :=
  ⟨h.bgQueue, h.pending, h.interrupts, h.io, h.processing, h.toEnd1, h.toEnd2, h.fault⟩

theorem assignUnique : Sound (s.assignUnique r) :=
  ⟨h.bgQueue, h.pending, h.interrupts, h.io, h.processing, h.toEnd1, h.toEnd2, h.fault⟩

theorem goto [DecidableEq τ] (p : Pc) : Sound (s.goto t p) :=
  ⟨h.bgQueue, h.pending, h.interrupts, h.io, h.processing, h.toEnd1, h.toEnd2, h.fault⟩

theorem listDel (r : ReqId) : Sound (s.listDel r) where
  bgQueue := h.bgQueue.erase r
  pending := h.pending.erase r
  interrupts := h.interrupts
  io d := (h.io d).erase r
  processing d := (h.processing d).erase r
  toEnd1 := by simp [State.listDel, h.toEnd1]
  toEnd2 := h.toEnd2.erase r
  fault := h.fault

theorem queueProcessing {d : Dev} (hr : r ∉ s.processing d) : Sound (s.queueProcessing d r) := by
  refine ⟨h.bgQueue, h.pending, h.interrupts, h.io, fun d' => ?_, h.toEnd1, h.toEnd2, h.fault⟩
  by_cases hd : d' = d
  · simpa [State.queueProcessing, hd] using nodup_snoc (h.processing d) hr
  · simpa [State.queueProcessing, Function.update_of_ne hd] using h.processing d'

theorem addIo {d : Dev} (hr : r ∉ s.io d) : Sound (s.addIo d r) := by
  refine ⟨h.bgQueue, h.pending, h.interrupts, fun d' => ?_, h.processing, h.toEnd1, h.toEnd2,
    h.fault⟩
  by_cases hd : d' = d
  · simpa [State.addIo, hd] using ⟨hr, h.io d⟩
  · simpa [State.addIo, Function.update_of_ne hd] using h.io d'

theorem setHeap (heap : Heap Req) : Sound { s with heap := heap } :=
  ⟨h.bgQueue, h.pending, h.interrupts, h.io, h.processing, h.toEnd1, h.toEnd2, h.fault⟩

theorem queueRequest (hr : r ∉ s.pending) : Sound (s.queueRequest r) :=
  ⟨h.bgQueue, nodup_snoc h.pending hr, h.interrupts, h.io, h.processing, h.toEnd1, h.toEnd2,
    h.fault⟩

theorem queueBackground (hr : r ∉ s.bgQueue) : Sound (s.queueBackground r) :=
  ⟨nodup_snoc h.bgQueue hr, h.pending, h.interrupts, h.io, h.processing, h.toEnd1, h.toEnd2,
    h.fault⟩

end Sound

/-! ### Looking up a request -/

namespace ReqOk

/-- A request without references is nowhere. -/
theorem of_not_live (hr : ReqOk s r v w) (hdead : ¬ s.heap.Live r) :
    v = none ∧ w = none ∧ s.lost.count r = 0 := by
  have hrefs : refs v w (s.lost.count r) = 0 :=
    Nat.eq_zero_of_not_pos fun hpos => hdead (hr.live.mpr hpos)
  simpa [refs, and_assoc] using hrefs

/-- Nobody but its caller knows a request that is in no place. -/
theorem unknown (hr : ReqOk s r none w) :
    (∀ t, (s.pc t).borrow ≠ some r) ∧ r ∉ s.interrupts ∧ ∀ d, r ∉ s.io d := by
  refine ⟨fun t ht => ?_, fun hi => ?_, fun d hd => ?_⟩
  · obtain ⟨d, hd⟩ := hr.borrow t ht
    cases hd
  · obtain ⟨-, p, hp, -⟩ := hr.interrupts hi
    cases hp
  · obtain ⟨t, ht, -⟩ := hr.io d hd
    cases ht

theorem live_of_place {p : Place τ} (h : ReqOk s r (some p) w) : s.heap.Live r :=
  h.live.mpr (refs_pos_of_place p w _)

theorem live_of_caller (h : ReqOk s r v (some t)) : s.heap.Live r :=
  h.live.mpr (refs_pos_of_caller v t _)

end ReqOk

namespace Inv

theorem of_holds (h : Inv s) {p : Place τ} (hp : s.Holds p r) : ∃ w, ReqOk s r (some p) w := by
  obtain ⟨v, w, hr⟩ := h.req r
  obtain rfl := (hr.place p).mp hp
  exact ⟨w, hr⟩

theorem of_flight (h : Inv s) (ht : (s.pc t).flight = some r) :
    ∃ w, ReqOk s r (some (.task t)) w :=
  h.of_holds (p := .task t) ht

/-- The request that a task has in hand is at the stage of the task. -/
theorem of_pc (h : Inv s) {q : Pc} (hpc : s.pc t = q) (hq : q.flight = some r) :
    ∃ w, ReqOk s r (some (.task t)) w ∧ FlightOk q.stage (s.req r) := by
  obtain ⟨w, hr⟩ := h.of_flight (hpc ▸ hq)
  have hf := hr.flight _ rfl
  rw [Place.stage, hpc] at hf
  exact ⟨w, hr, hf⟩

theorem of_caller (h : Inv s) (ht : (s.pc t).caller = some r) : ∃ v, ReqOk s r v (some t) := by
  obtain ⟨v, w, hr⟩ := h.req r
  obtain rfl := (hr.caller t).mp ht
  exact ⟨v, hr⟩

theorem live_of_caller (h : Inv s) (ht : (s.pc t).caller = some r) : s.heap.Live r := by
  obtain ⟨v, hr⟩ := h.of_caller ht
  exact hr.live_of_caller

theorem of_borrow (h : Inv s) (ht : (s.pc t).borrow = some r) :
    ∃ d w, ReqOk s r (some (.processing d)) w := by
  obtain ⟨v, w, hr⟩ := h.req r
  obtain ⟨d, rfl⟩ := hr.borrow t ht
  exact ⟨d, w, hr⟩

end Inv

/-! ### Small steps that keep the invariant -/

/-- The fields of a request that the invariant does not read may change. -/
structure Req.Same (q q' : Req) : Prop where
  isreply : q'.isreply = q.isreply
  background : q'.background = q.background
  pending : q'.pending = q.pending
  sent : q'.sent = q.sent
  finished : q'.finished = q.finished
  priv : q'.priv = q.priv
  count : q'.count = q.count
  outUnique : q'.outUnique = q.outUnique

theorem CallerOk.same {q q' : Req} {pc : Pc} (h : CallerOk v q pc) (hq : q.Same q') :
    CallerOk v q' pc := by
  unfold CallerOk at h ⊢
  rw [hq.pending, hq.finished, hq.sent, hq.background, hq.outUnique]
  exact h

theorem FlightOk.same {st : Stage} {q q' : Req} (h : FlightOk st q) (hq : q.Same q') :
    FlightOk st q' where
  pending := hq.pending.trans h.pending
  finished := hq.finished.trans h.finished
  sent hs := h.sent (hq.sent ▸ hs)
  isreply hst := hq.isreply.trans (h.isreply hst)
  background b hb := hq.background.trans (h.background b hb)
  unanswered hst := hq.outUnique.trans (h.unanswered hst)

theorem Inv.upd_same (h : Inv s) (f : Req → Req) (hf : (s.req r).Same (f (s.req r))) :
    Inv (s.upd r f) := by
  obtain ⟨v, w, hr⟩ := h.req r
  refine h.of_frame (.upd r s f) (h.sound.upd f) ⟨v, w, hr.place, hr.caller, hr.live, ?_, ?_, ?_,
    hr.borrow, ?_, hr.io, ?_, fun hl => ?_⟩
  · intro hl
    rw [State.req_upd_self, hf.count]
    exact hr.count hl
  · intro p hp
    rw [State.req_upd_self]
    exact (hr.flight p hp).same hf
  · intro t ht
    rw [State.req_upd_self]
    exact (hr.waiting t ht).same hf
  · intro hi
    rw [State.req_upd_self, hf.pending]
    exact hr.interrupts hi
  · rw [State.req_upd_self, hf.priv]
    exact hr.priv
  · rw [State.req_upd_self, hf.background]
    exact hr.lost hl

/-- `fuse_put_request` changes the count, or frees the request. -/
theorem putRequest_eq (h : s.heap.Live r) : ∃ heap : Heap Req,
    s.putRequest r = { s with heap := heap } ∧
    (∀ y, y ≠ r → heap.life y = s.heap.life y ∧ heap.mem y = s.heap.mem y) ∧
    (∃ n, heap.mem r = { s.req r with count := n }) ∧
    if (s.req r).count = 1 then heap.life r = .freed
    else heap.life r = .live ∧ (heap.mem r).count = (s.req r).count - 1 := by
  rw [State.putRequest, State.touch_of_live h]
  split
  next hone =>
    exact ⟨_, rfl, fun y hy => ⟨Heap.free_life_of_ne _ hy, rfl⟩, ⟨(s.req r).count, rfl⟩, by simp⟩
  next hne =>
    refine ⟨_, rfl, fun y hy => ⟨rfl, Heap.write_mem_of_ne _ _ hy⟩,
      ⟨(s.req r).count - 1, ?_⟩, h, ?_⟩
    · simp [State.req]
    · simp [State.req]

/-- A reference is dropped, and `refs a b n` are left. -/
theorem ReqOk.putRequest {v a : Option (Place τ)} {w b : Option τ} (hr : ReqOk s r v w)
    {x : State τ} {heap : Heap Req} (hx : x.heap = heap) (hlost : x.lost = s.lost)
    (hheap : if (s.req r).count = 1 then heap.life r = .freed
      else heap.life r = .live ∧ (heap.mem r).count = (s.req r).count - 1)
    (hrefs : refs v w (s.lost.count r) = refs a b (s.lost.count r) + 1) :
    (x.heap.Live r ↔ 0 < refs a b (x.lost.count r)) ∧
      (x.heap.Live r → (x.req r).count = refs a b (x.lost.count r)) := by
  have hcount := hr.count (hr.live.mpr (by omega))
  rw [State.req, hx, hlost, Heap.Live]
  split at hheap
  next hone =>
    have hzero : refs a b (s.lost.count r) = 0 := by omega
    simp [hheap, hzero]
  next hne =>
    have hpos : 0 < refs a b (s.lost.count r) := by omega
    refine ⟨iff_of_true hheap.1 hpos, fun _ => ?_⟩
    rw [hheap.2]
    omega

/-- What is known of a request that is allocated and not sent. -/
theorem Inv.of_got (h : Inv s) (hpc : s.pc t = .got r) : ReqOk s r none (some t) ∧
    (s.req r).pending = true ∧ (s.req r).finished = false ∧ (s.req r).sent = false ∧
    (s.req r).outUnique = 0 := by
  obtain ⟨v, hr⟩ := h.of_caller (congrArg Pc.caller hpc)
  have hw := hr.waiting t rfl
  rw [hpc] at hw
  obtain ⟨rfl, hflags⟩ := hw
  exact ⟨hr, hflags⟩

theorem Inv.queueInterrupt (h : Inv s) (hpend : (s.req r).pending = false)
    (hplace : (s.req r).finished = false → ∃ p, s.Holds p r) : Inv (s.queueInterrupt r) := by
  obtain ⟨v, w, hr⟩ := h.req r
  unfold State.queueInterrupt
  split
  next => exact h
  next hfin =>
    split
    next => exact h
    next hmem =>
      have hframe : Frame r s { s with interrupts := s.interrupts ++ [r] } := by
        refine ⟨fun _ _ => rfl, fun _ _ => rfl, fun _ _ _ _ => rfl, fun _ _ => Iff.rfl,
          fun _ _ => Iff.rfl, fun y hy => ?_, fun _ _ _ => Iff.rfl, fun _ _ _ => Iff.rfl,
          fun _ _ => Iff.rfl, fun _ _ => rfl⟩
        simp [hy]
      have hloc : State.Located { s with interrupts := s.interrupts ++ [r] } r v := by
        intro q
        have hq := hr.place q
        cases q <;> exact hq
      have hso := h.sound
      refine h.of_frame hframe ⟨hso.bgQueue, hso.pending, nodup_snoc hso.interrupts hmem, hso.io,
        hso.processing, hso.toEnd1, hso.toEnd2, hso.fault⟩ ⟨v, w, hloc, hr.caller, hr.live,
          hr.count, hr.flight, hr.waiting, hr.borrow, fun _ => ⟨hpend, ?_⟩, hr.io, hr.priv,
          hr.lost⟩
      obtain ⟨p, hp⟩ := hplace (by simpa using hfin)
      have hv := (hr.place p).mp hp
      exact ⟨p, hv, Stage.unqueued_of_ended ((hr.flight p hv).finished ▸ by simpa using hfin)⟩

@[simp] theorem queueInterrupt_pc (s : State τ) (r : ReqId) : (s.queueInterrupt r).pc = s.pc := by
  unfold State.queueInterrupt
  split
  · rfl
  · split <;> rfl

theorem queueInterrupt_processing (s : State τ) (r : ReqId) :
    (s.queueInterrupt r).processing = s.processing := by
  unfold State.queueInterrupt
  split
  · rfl
  · split <;> rfl

theorem Inv.readInterrupt (h : Inv s) (hs : readInterrupt s = some s') : Inv s' := by
  unfold Fuse.readInterrupt at hs
  split at hs
  next r rest hint =>
    split at hs
    next =>
      obtain ⟨v, w, hr⟩ := h.req r
      obtain ⟨-, p, rfl, -⟩ := hr.interrupts (by simp [hint])
      rw [State.touch_of_live hr.live_of_place] at hs
      cases hs
      have h' : Inv { s with interrupts := s.interrupts.erase r } := by
        have hframe : Frame r s { s with interrupts := s.interrupts.erase r } :=
          ⟨fun _ _ => rfl, fun _ _ => rfl, fun _ _ _ _ => rfl, fun _ _ => Iff.rfl,
            fun _ _ => Iff.rfl, fun _ hy => List.mem_erase_of_ne hy, fun _ _ _ => Iff.rfl,
            fun _ _ _ => Iff.rfl, fun _ _ => Iff.rfl, fun _ _ => rfl⟩
        have hloc : State.Located { s with interrupts := s.interrupts.erase r } r (some p) := by
          intro q
          have hq := hr.place q
          cases q <;> exact hq
        have hso := h.sound
        refine h.of_frame hframe ⟨hso.bgQueue, hso.pending, hso.interrupts.erase r, hso.io,
          hso.processing, hso.toEnd1, hso.toEnd2, hso.fault⟩ ⟨some p, w, hloc, hr.caller, hr.live,
            hr.count, hr.flight, hr.waiting, hr.borrow,
            fun hi => absurd hi hso.interrupts.not_mem_erase, hr.io, hr.priv, hr.lost⟩
      have h'' := h'.upd_same (r := r) (fun q => { q with intrUnique := s.nextUnique })
        ⟨rfl, rfl, rfl, rfl, rfl, rfl, rfl, rfl⟩
      exact h''.getUnique
    next => cases hs
  next => cases hs

theorem Inv.live_of_flight (h : Inv s) (hfl : (s.pc t).flight = some r) : s.heap.Live r := by
  obtain ⟨w, hr⟩ := h.of_flight hfl
  exact hr.live_of_place

/-- The request of a task that is on the `io` list. -/
theorem Inv.of_io (h : Inv s) (hpc : (s.pc t).onIo d r) : ∃ w, ReqOk s r (some (.task t)) w ∧
    FlightOk (s.pc t).stage (s.req r) ∧ (s.pc t).flight = some r := by
  have hfl : (s.pc t).flight = some r := by
    rcases hpc with hpc | hpc <;> exact congrArg Pc.flight hpc
  obtain ⟨w, hr, hf⟩ := h.of_pc rfl hfl
  exact ⟨w, hr, hf, hfl⟩

theorem requestFind_mem {unique : ℕ} (h : requestFind s d unique = some r) :
    s.Holds (.processing d) r := List.mem_of_find?_eq_some h

/-- No task uses the request without a reference. -/
def NotBorrowed (s : State τ) (r : ReqId) : Prop := ∀ t, (s.pc t).borrow ≠ some r

/-- A request that `request_end` has in hand is on no `io` list. -/
theorem ReqOk.not_mem_io {w : Option τ} (hr : ReqOk s r (some (.task t)) w) {e : EndPc}
    {abort : Bool} (hpc : s.pc t = .ending e r abort) (d : Dev) : r ∉ s.io d := by
  intro hd
  obtain ⟨t', ht', ho⟩ := hr.io d hd
  cases ht'
  simp [Pc.onIo, hpc] at ho

/-- Behind `list_del_init(&req->intr_entry)` a request is off the interrupts list. -/
theorem ReqOk.not_mem_interrupts {w : Option τ} (hr : ReqOk s r (some (.task t)) w) {e : EndPc}
    {abort : Bool} (hpc : s.pc t = .ending e r abort) (he : (Stage.ending e).unqueued = true) :
    r ∉ s.interrupts := by
  intro hi
  obtain ⟨-, p, hp, hun⟩ := hr.interrupts hi
  cases hp
  rw [Place.stage, hpc] at hun
  cases he.symm.trans hun

/-- `list_splice_init`: all requests at the place `k` are to be ended by `fuse_abort_conn`. -/
theorem Inv.splice (h : Inv s) (hs : Sound s') {k : Place τ}
    (htask : ∀ t, k ≠ .task t) (hpc : s'.pc = s.pc) (hlife : s'.heap.life = s.heap.life)
    (hlost : s'.lost = s.lost) (hint : s'.interrupts = s.interrupts) (hio : s'.io = s.io)
    (hreq : ∀ r, s.Holds k r → s'.req r = { s.req r with pending := false })
    (hreq' : ∀ r, ¬ s.Holds k r → s'.req r = s.req r)
    (hend : ∀ r, s'.Holds .toEnd r ↔ s.Holds k r ∨ s.Holds .toEnd r)
    (hempty : ∀ r, ¬ s'.Holds k r)
    (hframe : ∀ p r, p ≠ k → p ≠ .toEnd → (s'.Holds p r ↔ s.Holds p r))
    (hnb : ∀ r, s.Holds k r → NotBorrowed s r)
    (hok : ∀ r, s.Holds k r → (s.req r).finished = false) : Inv s' := by
  refine ⟨hs, fun r => ?_⟩
  obtain ⟨v, w, hr⟩ := h.req r
  by_cases hp : s.Holds k r
  · obtain rfl := (hr.place k).mp hp
    have hf := hr.flight _ rfl
    refine ⟨some .toEnd, w, fun q => ?_, fun t => ?_, ?_, ?_, fun q hq => ?_, fun t ht => ?_,
      fun t ht => ?_, fun hi => ?_, fun d hd => ?_, ?_,
      fun hl => by cases (hr.lost (hlost ▸ hl)).1⟩
    · by_cases hq : q = .toEnd
      · simp [hq, hend, hp]
      · have hno : ¬ s'.Holds q r := by
          by_cases hq' : q = k
          · rw [hq']
            exact hempty r
          · rw [hframe q r hq' hq, hr.place q]
            simpa using Ne.symm hq'
        simp [hno, Ne.symm hq]
    · rw [hpc]
      exact hr.caller t
    · rw [Heap.Live, hlife, hlost]
      exact hr.live
    · rw [Heap.Live, hlife, hlost, hreq r hp]
      exact hr.count
    · cases hq
      rw [hreq r hp]
      exact ⟨rfl, hok r hp, fun _ => .inl rfl, (by rintro ⟨⟩), (by rintro _ ⟨⟩), (by rintro ⟨⟩)⟩
    · rw [hpc, hreq r hp]
      exact (hr.waiting t ht).advance id fun _ => rfl
    · rw [hpc] at ht
      exact absurd ht (hnb r hp t)
    · rw [hreq r hp]
      exact ⟨rfl, .toEnd, rfl, rfl⟩
    · rw [hio] at hd
      obtain ⟨t, ht, -⟩ := hr.io d hd
      exact absurd (Option.some.inj ht) (htask t)
    · rw [hreq r hp]
      exact hr.priv
  · refine ⟨v, w, fun q => ?_, fun t => ?_, ?_, ?_, fun q hq => ?_, fun t ht => ?_,
      fun t ht => ?_, fun hi => ?_, fun d hd => ?_, ?_,
      by rw [hlost, hreq' r hp]; exact hr.lost⟩
    · by_cases hq : q = k
      · rw [hq]
        exact iff_of_false (hempty r) fun hv => hp ((hr.place k).mpr hv)
      · by_cases hq' : q = .toEnd
        · rw [hq', hend, ← hr.place .toEnd]
          simp [hp]
        · rw [hframe q r hq hq']
          exact hr.place q
    · rw [hpc]
      exact hr.caller t
    · rw [Heap.Live, hlife, hlost]
      exact hr.live
    · rw [Heap.Live, hlife, hlost, hreq' r hp]
      exact hr.count
    · rw [hpc, hreq' r hp]
      exact hr.flight q hq
    · rw [hpc, hreq' r hp]
      exact hr.waiting t ht
    · rw [hpc] at ht
      exact hr.borrow t ht
    · rw [hint] at hi
      rw [hpc, hreq' r hp]
      exact hr.interrupts hi
    · rw [hio] at hd
      rw [hpc]
      exact hr.io d hd
    · rw [hreq' r hp]
      exact hr.priv

/-- Two lists of requests at different places have no request in common. -/
theorem Inv.nodup_append (h : Inv s) {l l' : List ReqId} {p o : Place τ} (hne : p ≠ o)
    (hl : ∀ r, r ∈ l ↔ s.Holds p r) (hl' : ∀ r, r ∈ l' ↔ s.Holds o r) (hd : l.Nodup)
    (hd' : l'.Nodup) : (l ++ l').Nodup := by
  refine List.nodup_append.mpr ⟨hd, hd', fun a ha b hb hab => ?_⟩
  obtain ⟨v, w, hr⟩ := h.req a
  have hv := (hr.place p).mp ((hl a).mp ha)
  have hv' := (hr.place o).mp ((hl' a).mp (hab ▸ hb))
  exact hne (Option.some.inj (hv.symm.trans hv'))

/-- Harmless changes to several requests. -/
theorem Inv.updAll_same (h : Inv s) (l : List ReqId) (f : Req → Req)
    (hf : ∀ r ∈ l, (s.req r).Same (f (s.req r))) : Inv (s.updAll l f) := by
  have hsame : ∀ r, (s.req r).Same ((s.updAll l f).req r) := by
    intro r
    by_cases hr : r ∈ l
    · simpa [State.updAll, State.req, hr] using hf r hr
    · simp only [State.updAll, State.req, hr, if_false]
      exact ⟨rfl, rfl, rfl, rfl, rfl, rfl, rfl, rfl⟩
  have hso := h.sound
  refine ⟨⟨hso.bgQueue, hso.pending, hso.interrupts, hso.io, hso.processing, hso.toEnd1,
    hso.toEnd2, hso.fault⟩, fun r => ?_⟩
  obtain ⟨v, w, hr⟩ := h.req r
  refine ⟨v, w, hr.place, hr.caller, hr.live, fun hl => ?_, fun p hp => ?_, fun t ht => ?_,
    hr.borrow, fun hi => ?_, hr.io, ?_, fun hl => ?_⟩
  · rw [(hsame r).count]
    exact hr.count hl
  · exact (hr.flight p hp).same (hsame r)
  · exact (hr.waiting t ht).same (hsame r)
  · rw [(hsame r).pending]
    exact hr.interrupts hi
  · rw [(hsame r).priv]
    exact hr.priv
  · rw [(hsame r).background]
    exact hr.lost hl

theorem State.touchAll_of_live {l : List ReqId} (h : ∀ r ∈ l, s.heap.Live r) :
    s.touchAll l = s := by
  have hany : l.any (fun r => decide (s.heap.life r ≠ .live)) = false := by
    rw [List.any_eq_false]
    intro r hr
    have hl := h r hr
    rw [Heap.Live] at hl
    simp [hl]
  rw [State.touchAll, hany, Bool.or_false]

theorem inv_connection (devices : List Dev) (m c : ℕ) (b : Bool) :
    Inv (connection devices m c b : State τ) := by
  refine ⟨⟨List.nodup_nil, List.nodup_nil, List.nodup_nil, fun _ => List.nodup_nil,
    fun _ => List.nodup_nil, rfl, List.nodup_nil, rfl⟩, fun r => ⟨none, none, ?_⟩⟩
  refine ⟨fun p => ?_, fun t => ?_, ?_, (by rintro ⟨⟩), (by simp), (by simp), (by rintro _ ⟨⟩),
    (by rintro ⟨⟩), (by rintro _ ⟨⟩), rfl, (by rintro ⟨⟩)⟩
  · cases p <;> simp [State.Holds, connection, Pc.flight]
  · simp [connection, Pc.caller]
  · simp [connection, refs]

section steps

variable [DecidableEq τ] {p : Pc}

/-- The caller goes from one of its places to the next. -/
theorem Inv.goto_caller (h : Inv s) (hold : (s.pc t).caller = some r) (hnew : p.caller = some r)
    (hflight : (s.pc t).flight = none ∧ p.flight = none)
    (hborrow : p.borrow = none) (hok : ∀ v, ReqOk s r v (some t) → CallerOk v (s.req r) p) :
    Inv (s.goto t p) := by
  obtain ⟨v, hr⟩ := h.of_caller hold
  have hrole : ∀ t', ((s.goto t p).pc t').caller = some r ↔ (s.pc t').caller = some r := by
    intro t'
    by_cases ht : t' = t
    · rw [ht, State.pc_goto_self, hold, hnew]
    · rw [State.pc_goto_of_ne ht]
  have hother : ∀ t', v = some (.task t') → (s.goto t p).pc t' = s.pc t' := by
    intro t' hv
    have hfl := (hr.place (.task t')).mpr hv
    have hne : t' ≠ t := by
      intro he
      rw [he, State.Holds, hflight.1] at hfl
      cases hfl
    rw [State.pc_goto_of_ne hne]
  have hstage : ∀ q, v = some q → q.stage (s.goto t p).pc = q.stage s.pc := by
    intro q hq
    cases q with
    | task t' => simp only [Place.stage, hother t' hq]
    | _ => rfl
  refine h.of_frame (r := r) (.goto (.inr (Pc.req_of_caller hold)) (.inr (Pc.req_of_caller hnew)))
    (h.sound.goto p) ⟨v, some t, hr.place.goto (hflight.1.trans hflight.2.symm),
      fun t' => (hrole t').trans (hr.caller t'), hr.live, hr.count, ?_, ?_, ?_, ?_, ?_, hr.priv,
      hr.lost⟩
  · intro q hq
    rw [hstage q hq]
    exact hr.flight q hq
  · intro t' ht'
    cases ht'
    rw [State.pc_goto_self]
    exact hok v hr
  · intro t' ht'
    by_cases ht : t' = t
    · rw [ht, State.pc_goto_self, hborrow] at ht'
      cases ht'
    · rw [State.pc_goto_of_ne ht] at ht'
      exact hr.borrow t' ht'
  · intro hi
    obtain ⟨hpend, q, hq, hun⟩ := hr.interrupts hi
    exact ⟨hpend, q, hq, by rwa [hstage q hq]⟩
  · intro d hd
    obtain ⟨t', ht', ho⟩ := hr.io d hd
    exact ⟨t', ht', by rwa [hother t' ht']⟩

/-- A task comes to borrow a request on a processing list, or stops to. -/
theorem Inv.goto_borrow (h : Inv s) (hmem : s.Holds (.processing d) r)
    (hold : (s.pc t).req = none ∨ (s.pc t).borrow = some r)
    (hnew : p.req = none ∨ p.borrow = some r) : Inv (s.goto t p) := by
  obtain ⟨w, hr⟩ := h.of_holds hmem
  have hold' : (s.pc t).caller = none ∧ (s.pc t).flight = none := by
    rcases hold with ho | ho
    · exact ⟨(Pc.of_req_eq_none ho).1, (Pc.of_req_eq_none ho).2.1⟩
    · exact ⟨Pc.caller_of_borrow ho, Pc.flight_of_borrow ho⟩
  have hnew' : p.caller = none ∧ p.flight = none := by
    rcases hnew with hn | hn
    · exact ⟨(Pc.of_req_eq_none hn).1, (Pc.of_req_eq_none hn).2.1⟩
    · exact ⟨Pc.caller_of_borrow hn, Pc.flight_of_borrow hn⟩
  have hframe : Frame r s (s.goto t p) :=
    .goto (hold.imp id Pc.req_of_borrow) (hnew.imp id Pc.req_of_borrow)
  refine h.of_frame hframe (h.sound.goto p) ⟨_, w, hr.advance rfl hold'.1 hnew'.1
    (hr.place.goto (hold'.2.trans hnew'.2.symm)) rfl rfl rfl rfl id id (hr.flight _ rfl)
    (.inl ⟨d, rfl⟩) ?_ ?_⟩
  · intro hi
    exact ⟨(hr.interrupts hi).1, rfl⟩
  · intro d' hd
    obtain ⟨t', ht', -⟩ := hr.io d' hd
    cases ht'

end steps

end KernelMemo.Fuse
