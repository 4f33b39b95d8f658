import KernelMemo.Fuse.RequestAbort

/-! # How an aborted connection comes to rest

Behind `fuse_abort_conn` the tasks that are still inside go on to their ends, each of them in a
bounded number of steps.  A task waits for another one only if that one has its request in hand, or
holds `fc->lock`; so when no step is left, all tasks are outside and all requests are freed, but
for those with a lost reference. -/

namespace KernelMemo.Fuse

variable {τ : Type*} [DecidableEq τ] {s s' : State τ} {r : ReqId} {t : τ} {d : Dev}

/-- The operation begins something new. -/
def Op.enters : Op → Bool
  | .blockAlloc _ | .requestAlloc _ _ | .readInterrupt | .readForget | .read _ | .write _ _ _
  | .abort | .setMaxBackground _ | .setCongestionThreshold _ => true
  | _ => false

/-- The operation leads its task on: it begins nothing new, and it is not one of those that a
task may repeat. -/
def Op.onward (op : Op) : Bool :=
  !op.enters && !(op = .setBackground || op = .lockRequest || op = .unlockRequest)

/-- The operation is up to a signal. -/
def Op.outside : Op → Bool
  | .signal | .kill => true
  | _ => false

/-- The steps that a task of an aborted connection has before it. -/
def Pc.toGo : Pc → ℕ
  | .idle => 0
  | .getting _ => 11
  | .got _ => 10
  | .waitAnswer _ => 9
  | .waitIntr _ => 8
  | .marked _ => 7
  | .queueIntr _ => 6
  | .testForce _ => 5
  | .waitKill _ => 4
  | .killed _ => 3
  | .waitEvent _ => 2
  | .answered _ => 1
  | .sendFlush => 1
  | .taken _ _ => 7
  | .copying _ _ => 6
  | .moved _ => 3
  | .sent _ => 2
  | .devIntr _ => 1
  | .intrReply _ _ => 2
  | .replying _ _ => 6
  | .ending p _ _ => match p with
      | .finish => 5
      | .unqueue => 4
      | .account => 3
      | .flush => 2
      | .wake => 1
  | .abortDev _ | .abortFlush | .abortSplice | .abortEnd => 0

theorem Goes.toGo_lt {op : Op} {p q : Pc} (h : Goes op p q) (hp : p.inAbort = false)
    (hop : op.onward = true) : q.toGo < p.toGo := by
  cases h <;> simp_all [Op.onward, Op.enters, Pc.inAbort, Pc.toGo]

/-- Nothing but an abort leads a task into `fuse_abort_conn`. -/
theorem Goes.inAbort_of {op : Op} {p q : Pc} (h : Goes op p q) (hq : q.inAbort = true) :
    p.inAbort = true ∨ op = .abort := by
  cases h <;> first | exact .inl rfl | exact .inr rfl | exact .inl hq

/-- An aborted connection is not aborted again. -/
theorem Over.outside_step (ho : Over s) {op : Op} (hs : taskStep s t op = some s') (t' : τ) :
    (s'.pc t').inAbort = false := by
  rcases taskStep_moves hs with hpc | ⟨q, hgo, hpc⟩
  · rw [hpc]
    exact ho.outside t'
  · by_cases htt : t' = t
    · rw [hpc, htt, Function.update_self]
      by_contra hq
      rw [Bool.not_eq_false] at hq
      rcases hgo.inAbort_of hq with hp | rfl
      · cases (ho.outside t).symm.trans hp
      · obtain ⟨hidle, hs'⟩ := taskStep_abort hs
        unfold abort at hs'
        simp only [ho.connected, Bool.false_eq_true, if_false] at hs'
        split at hs' <;> cases hs'
        have hself := congrFun hpc t
        rw [Function.update_self, hidle] at hself
        rw [← hself] at hq
        cases hq
    · rw [hpc, Function.update_of_ne htt]
      exact ho.outside t'

theorem Over.step (ho : Over s) {op : Op} (hs : taskStep s t op = some s') : Over s' := by
  have hfiq : s'.fiqConnected = false := by
    rcases fiqConnected_cases hs with heq | ⟨-, heq⟩
    · exact heq.trans ho.fiqConnected
    · exact heq
  refine ⟨?_, hfiq, bgQueue_nil hs ho.bgQueue ho.connected,
    pending_nil hs ho.fiqConnected ho.bgQueue ho.pending, fun d => ?_, ?_, fun d t' ht' => ?_,
    ho.outside_step hs⟩
  · by_contra hne
    rw [Bool.not_eq_false] at hne
    cases ho.connected.symm.trans (connected_mono hs hne)
  · refine List.eq_nil_iff_forall_not_mem.mpr fun r hr => ?_
    rcases ((taskStep_lists hs).processing d).mem hr with hr | ⟨hpc, hconn⟩
    · rw [ho.processing d] at hr
      cases hr
    · cases (ho.reads d t ⟨r, .inr hpc⟩).symm.trans hconn
  · refine List.eq_nil_iff_forall_not_mem.mpr fun r hr => ?_
    rcases (taskStep_lists hs).toEnd2 r hr with hr | ⟨d, ds, hpc, -⟩ | ⟨hpc, -⟩
    · rw [ho.toEnd2] at hr
      cases hr
    · have hno := ho.outside t
      rw [hpc] at hno
      cases hno
    · have hno := ho.outside t
      rw [hpc] at hno
      cases hno
  · refine pqConnected_stays hs ?_
    rcases taskStep_moves hs with hpc | ⟨q, hgo, hpc⟩
    · rw [hpc] at ht'
      exact ho.reads d t' ht'
    · by_cases htt : t' = t
      · rw [hpc, htt, Function.update_self] at ht'
        rcases hgo.reads ht' with rfl | hp
        · obtain ⟨r, rest, hpend, -⟩ := read_eq (taskStep_read hs).2
          cases ho.pending.symm.trans hpend
        · exact ho.reads d t hp
      · rw [hpc, Function.update_of_ne htt] at ht'
        exact ho.reads d t' ht'

/-! ### Every step counts -/

/-- An onward step leads its task nearer to its end. -/
theorem Over.toGo_step (ho : Over s) {op : Op} (hs : taskStep s t op = some s')
    (hop : op.onward = true) :
    ∃ q, s'.pc = Function.update s.pc t q ∧ q.toGo < (s.pc t).toGo := by
  rcases taskStep_goes hs with ⟨hstay, -⟩ | ⟨q, hgo, hpc⟩
  · -- without background requests the flush is one step
    obtain rfl : op = .flush := by cases op <;> simp_all [Op.onward, Op.enters, Op.stays]
    obtain ⟨q, l, hfl, rfl⟩ := taskStep_flush hs
    rcases flush_cases s t q l with ⟨r, rest, hq, -⟩ | ⟨-, heq⟩
    · cases ho.bgQueue.symm.trans hq
    · refine ⟨q, by rw [heq]; rfl, ?_⟩
      have hno := ho.outside t
      generalize s.pc t = p at hfl hno
      cases hfl with
      | ending r abort => simp [Pc.toGo]
      | send => simp [Pc.toGo]
      | abort => cases hno
  · exact ⟨q, hpc, hgo.toGo_lt (ho.outside t) hop⟩

/-- No step but an entering one leads a task away from its end. -/
theorem Over.toGo_le (ho : Over s) {op : Op} (hs : taskStep s t op = some s')
    (hop : op.enters = false) (t' : τ) : (s'.pc t').toGo ≤ (s.pc t').toGo ∧
      (t = t' → op.onward = true → (s'.pc t').toGo < (s.pc t').toGo) := by
  by_cases hon : op.onward = true
  · obtain ⟨q, hpc, hlt⟩ := ho.toGo_step hs hon
    rw [hpc]
    by_cases htt : t' = t
    · rw [htt, Function.update_self]
      exact ⟨hlt.le, fun _ _ => hlt⟩
    · rw [Function.update_of_ne htt]
      exact ⟨Nat.le_refl _, fun heq => absurd heq.symm htt⟩
  · -- a step that may be repeated leaves its task where it is
    have hpc : s'.pc = s.pc := by
      rcases taskStep_goes hs with ⟨-, hpc⟩ | ⟨q, hgo, -⟩
      · exact hpc
      · generalize s.pc t = p at hgo
        cases hgo <;> first | exact absurd rfl hon | cases hop
    rw [hpc]
    exact ⟨Nat.le_refl _, fun _ hon' => absurd hon' hon⟩

/-! ### Nobody waits in vain -/

/-- The event is an onward step of the task, and not up to a signal. -/
def Own (s : State τ) (t : τ) (e : Event τ) : Prop :=
  e.task = t ∧ e.op.onward = true ∧ e.op.outside = false ∧ Fits s e

/-- Who waits for an answer waits for a task at work, and that one for the holder of the lock. -/
def Pc.rank : Pc → ℕ
  | .waitIntr _ | .waitKill _ | .waitEvent _ => 2
  | .ending .account _ _ => 1
  | _ => 0

theorem Pc.rank_of_flight {p : Pc} (h : p.flight = some r) : p.rank < 2 := by
  cases p with
  | ending p r abort => cases p <;> simp [Pc.rank]
  | _ => simp_all [Pc.rank, Pc.flight]

theorem Pc.rank_of_locked {p : Pc} (h : p.locked = true) : p.rank = 0 := by
  cases p with
  | ending p r abort => cases p <;> simp_all [Pc.rank, Pc.locked]
  | _ => simp_all [Pc.rank, Pc.locked]

omit [DecidableEq τ] in
/-- A waiting caller can go on, or a task has its request in hand. -/
theorem Over.waiting (ho : Over s) (h : Inv s) (hw : (s.pc t).rank = 2)
    (hcaller : (s.pc t).caller = some r) :
    (s.req r).finished = true ∨ ∃ u, (s.pc u).flight = some r := by
  obtain ⟨v, hr⟩ := h.of_caller hcaller
  have hok := hr.waiting t rfl
  cases v with
  | none =>
      left
      generalize s.pc t = p at hok hw
      cases p <;> first | exact (hok.2 rfl).1 | exact hok.2.2 rfl | cases hw
  | some p =>
      have hp := (hr.place p).mpr rfl
      obtain ⟨u, rfl⟩ := ho.task hp
      exact .inr ⟨u, hp⟩

/-- A step that the task can take by itself. -/
def Pc.next : Pc → Op
  | .idle => .blockAlloc false
  | .getting _ => .getReq none false
  | .got _ | .answered _ => .putRequest
  | .waitAnswer _ => .waitAnswer
  | .waitIntr _ | .waitKill _ | .waitEvent _ => .woken
  | .marked _ => .testSent
  | .queueIntr _ | .devIntr _ => .queueInterrupt
  | .testForce _ => .testForce
  | .killed _ => .bail
  | .sendFlush | .abortFlush => .flush
  | .taken _ _ => .startIo
  | .copying _ _ => .copied true
  | .moved _ => .markSent
  | .sent _ => .testInterrupted
  | .intrReply _ _ => .interruptReply true
  | .replying _ _ => .wrote true
  | .ending p _ _ => match p with
      | .finish => .finish
      | .unqueue => .unqueue
      | .account => .account
      | .flush => .flush
      | .wake => .wake
  | .abortDev _ => .abortDev
  | .abortSplice => .abortSplice
  | .abortEnd => .abortEnd

theorem Pc.onward_next {p : Pc} (h : p ≠ .idle) :
    p.next.onward = true ∧ p.next.outside = false := by
  cases p with
  | idle => exact absurd rfl h
  | ending p r abort => cases p <;> exact ⟨rfl, rfl⟩
  | _ => exact ⟨rfl, rfl⟩

/-- Who waits for nobody can go on. -/
theorem taskStep_next (hin : s.pc t ≠ .idle) (hrank : (s.pc t).rank = 0) :
    (taskStep s t (s.pc t).next).isSome := by
  unfold taskStep
  cases hp : s.pc t with
  | idle => exact absurd hp hin
  | waitIntr r => simp [hp, Pc.rank] at hrank
  | waitKill r => simp [hp, Pc.rank] at hrank
  | waitEvent r => simp [hp, Pc.rank] at hrank
  | ending p r abort =>
      cases p with
      | account => simp [hp, Pc.rank] at hrank
      | _ => rfl
  | _ => rfl

omit [DecidableEq τ] in
theorem fits_next (s : State τ) (t : τ) (hno : (s.pc t).inAbort = false) :
    Fits s ⟨t, (s.pc t).next⟩ := by
  cases hp : s.pc t with
  | abortDev ds => rw [hp] at hno; cases hno
  | ending p r abort => cases p <;> trivial
  | _ => trivial

theorem Over.wait_or_step (ho : Over s) (h : Inv s) (hl : LockOk s) (hin : s.pc t ≠ .idle) :
    (conn τ).Enabled (Own s) s t ∨ ∃ u, s.pc u ≠ .idle ∧ (s.pc u).rank < (s.pc t).rank := by
  obtain ⟨hon, hout⟩ := Pc.onward_next hin
  have hstep (hs : (taskStep s t (s.pc t).next).isSome) : (conn τ).Enabled (Own s) s t :=
    ⟨⟨t, (s.pc t).next⟩, ⟨rfl, hon, hout, fits_next s t (ho.outside t)⟩, hs⟩
  have hwaiting {r : ReqId} (hrank : (s.pc t).rank = 2) (hcaller : (s.pc t).caller = some r)
      (hwoken : (s.req r).finished = true → (taskStep s t (s.pc t).next).isSome) :
      (conn τ).Enabled (Own s) s t ∨ ∃ u, s.pc u ≠ .idle ∧ (s.pc u).rank < (s.pc t).rank := by
    rcases ho.waiting h hrank hcaller with hfin | ⟨u, hu⟩
    · exact .inl (hstep (hwoken hfin))
    · refine .inr ⟨u, fun hidle => ?_, hrank ▸ Pc.rank_of_flight hu⟩
      rw [hidle] at hu
      cases hu
  by_cases hrank : (s.pc t).rank = 0
  · exact .inl (hstep (taskStep_next hin hrank))
  · cases hp : s.pc t with
    | waitIntr r =>
        rw [← hp]
        exact hwaiting (by rw [hp]; rfl) (by rw [hp]; rfl) fun hf => by
          simp [taskStep, hp, Pc.next, woken, hf]
    | waitKill r =>
        rw [← hp]
        exact hwaiting (by rw [hp]; rfl) (by rw [hp]; rfl) fun hf => by
          simp [taskStep, hp, Pc.next, woken, hf]
    | waitEvent r =>
        rw [← hp]
        exact hwaiting (by rw [hp]; rfl) (by rw [hp]; rfl) fun hf => by
          simp [taskStep, hp, Pc.next, woken, hf]
    | ending p r abort =>
        cases p with
        | account =>
            cases hfree : s.fcLock with
            | none =>
                exact .inl (hstep (by simp [taskStep, hp, Pc.next, account, State.touch, hfree]))
            | some u =>
                -- the holder of the lock is in `flush_bg_queue`, which it leaves in one step
                have hu := (hl u).mpr hfree
                refine .inr ⟨u, fun hidle => ?_, by rw [Pc.rank_of_locked hu]; exact Nat.one_pos⟩
                rw [hidle] at hu
                cases hu
        | _ => simp [hp, Pc.rank] at hrank
    | _ => simp [hp, Pc.rank] at hrank

/-- When the abort of a connection is over, each task that is inside comes to its end in a bounded
number of steps, whatever their order and whatever it repeats in between.  The tasks do not block
each other: when only signals could lead a task on, all tasks are outside, and all requests are
freed but those with a lost reference. -/
theorem abort_drains {devices : List Dev} {m c : ℕ} {b : Bool} {es : List (Event τ)}
    (h : QuietRun (connection devices m c b) es s) (hconn : s.connected = false)
    (hover : ∀ t, (s.pc t).inAbort = false) {es' : List (Event τ)} (h' : FittingRun s es' s')
    (hin : ∀ e ∈ es', e.op.enters = false) :
    (∀ t, es'.countP (fun e => e.task = t && e.op.onward) ≤ (s.pc t).toGo) ∧
      ((∀ t e, Own s' t e → taskStep s' t e.op = none) →
        (∀ t, s'.pc t = .idle) ∧ ∀ r, s'.heap.Live r → r ∈ s'.lost) := by
  have hov : Over s := h.over hconn hover
  have hg := h'.2.and_forall hin
  have hall : Over s' ∧ Inv s' ∧ LockOk s' := by
    refine hg.invariant (P := fun s => Over s ∧ Inv s ∧ LockOk s) ?_ h'.1
      ⟨hov, h.1.inv, h.abortOk.2.1⟩
    rintro s e s' ⟨hfit, -⟩ ⟨ho, hinv, hl⟩ hs
    exact ⟨ho.step hs, hinv.step hfit hs, hl.step hinv hfit hs⟩
  obtain ⟨ho, hinv, hl⟩ := hall
  constructor
  · intro t
    refine Nat.le_of_add_right_le
      (hg.countP_add_le (P := Over) (fun s => (s.pc t).toGo) ?_ h'.1 hov)
    rintro s e s' ⟨-, hent⟩ ho hs
    obtain ⟨hle, hlt⟩ := ho.toGo_le hs hent t
    refine ⟨ho.step hs, hle, fun hp => ?_⟩
    obtain ⟨htask, hon⟩ := (Bool.and_eq_true _ _).mp hp
    exact hlt (of_decide_eq_true htask) hon
  · intro hstuck
    have hidle (t : τ) : s'.pc t = .idle := by
      by_contra hin
      have hwait : ∀ t, s'.pc t ≠ .idle → (conn τ).Enabled (Own s') s' t ∨
          ∃ u, s'.pc u ≠ .idle ∧ (s'.pc u).rank < (s'.pc t).rank :=
        fun _ => ho.wait_or_step hinv hl
      obtain ⟨u, -, e, hown, hs⟩ := Lts.exists_enabled (fun t => (s'.pc t).rank) hwait hin
      rw [show (conn τ).step s' e = taskStep s' e.task e.op from rfl, hown.1,
        hstuck u e hown] at hs
      cases hs
    refine ⟨hidle, fun r hlive => ?_⟩
    obtain ⟨v, w, hr⟩ := hinv.req r
    have hv : v = none := by
      cases v with
      | none => rfl
      | some p =>
          have hp := (hr.place p).mpr rfl
          obtain ⟨t, rfl⟩ := ho.task hp
          rw [State.Holds, hidle t] at hp
          cases hp
    have hw : w = none := by
      cases w with
      | none => rfl
      | some t =>
          have ht := (hr.caller t).mpr rfl
          rw [hidle t] at ht
          cases ht
    have hpos := hr.live.mp hlive
    rw [hv, hw] at hpos
    simpa [refs] using hpos

omit [DecidableEq τ] in
/-- The task `u` ends the request, behind another page, and `t` gives it up. -/
def drainRun (t u : τ) : List (Event τ) :=
  [⟨u, .unlockRequest⟩, ⟨u, .lockRequest⟩, ⟨u, .copied true⟩, ⟨u, .finish⟩, ⟨u, .unqueue⟩,
    ⟨t, .woken⟩, ⟨u, .wake⟩, ⟨t, .putRequest⟩]

theorem abort_drains_copying : ∃ s s' : State (Fin 3),
    QuietRun (connection [0] 12 9 true) (abortRun 0 1 2) s ∧ FittingRun s (drainRun 0 1) s' ∧
    ((∀ t, (drainRun 0 1).countP (fun e => e.task = t && e.op.onward) ≤ (s.pc t).toGo) ∧
      ((∀ t e, Own s' t e → taskStep s' t e.op = none) →
        (∀ t, s'.pc t = .idle) ∧ ∀ r, s'.heap.Live r → r ∈ s'.lost)) := by
  have hrun : ((conn (Fin 3)).run (connection [0] 12 9 true) (abortRun 0 1 2)).any fun s =>
      s.connected = false ∧ (∀ t, (s.pc t).inAbort = false) ∧
      (conn (Fin 3)).Respects Fits s (drainRun 0 1) ∧
      ((conn (Fin 3)).run s (drainRun 0 1)).isSome := by
    decide +kernel
  obtain ⟨s, hs, hfacts⟩ := (Option.any_eq_true _ _).mp hrun
  obtain ⟨hconn, hover, hresp, hend⟩ := of_decide_eq_true hfacts
  obtain ⟨s', hs'⟩ := Option.isSome_iff_exists.mp hend
  have h : QuietRun (connection [0] 12 9 true) (abortRun 0 1 2) s :=
    ⟨⟨hs, by decide +kernel⟩, by decide +kernel⟩
  refine ⟨s, s', h, ⟨hs', hresp⟩, abort_drains h hconn hover ⟨hs', hresp⟩ fun e he => ?_⟩
  fin_cases he <;> rfl

end KernelMemo.Fuse
