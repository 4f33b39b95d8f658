import KernelMemo.Fuse.RequestBackground
import Mathlib.Algebra.BigOperators.Group.Finset.Piecewise
import Mathlib.Algebra.Order.BigOperators.Group.Finset
import Mathlib.Tactic.FinCases

/-! # The limits of background requests

* **The lock.**  `fc->lock` is with the task that is between its `spin_lock` and `spin_unlock`.
* **Limits.**  `flush_bg_queue` keeps at most `max_background` requests active and leaves none in
  the queue that may go; `blocked` is set when there are `max_background` requests or more.
* **A raised limit.**  `blocked` is cleared where the count comes down to the limit.  When the
  limit is raised over the count in between, `blocked` stays set, and the allocation of
  background requests hangs. -/

namespace KernelMemo.Fuse

variable {τ : Type*} [DecidableEq τ] {s s' : State τ} {r : ReqId} {t : τ}

/-! ### `fc->lock` -/

/-- The task holds `fc->lock`. -/
def Pc.locked : Pc → Bool
  | .sendFlush | .ending .flush _ _ | .abortDev _ | .abortFlush | .abortSplice => true
  | _ => false

/-- The lock is with the task that is inside. -/
def LockOk (s : State τ) : Prop := ∀ t, (s.pc t).locked = true ↔ s.fcLock = some t

theorem Goes.locked {op : Op} {p q : Pc} (h : Goes op p q) (hop : Var.fcLock ∉ op.sets) :
    q.locked = p.locked := by
  cases h <;> first | rfl | simp [Op.sets] at hop

omit [DecidableEq τ] in
theorem Flushes.locked {p q : Pc} {l : Option τ} (h : Flushes s p q l) :
    p.locked = true ∧ (l = none ∧ q.locked = false ∨ l = s.fcLock ∧ q.locked = true) := by
  cases h with
  | ending r abort => exact ⟨rfl, .inl ⟨rfl, rfl⟩⟩
  | send => exact ⟨rfl, .inl ⟨rfl, rfl⟩⟩
  | abort => exact ⟨rfl, .inr ⟨rfl, rfl⟩⟩

namespace LockOk

theorem take (hl : LockOk s) (hfree : s.fcLock = none) {q : Pc} (hq : q.locked = true)
    (hpc : s'.pc = Function.update s.pc t q) (hlock : s'.fcLock = some t) : LockOk s' := by
  intro t'
  rw [hpc, hlock]
  by_cases ht : t' = t
  · simp [ht, hq]
  · rw [Function.update_of_ne ht, hl t', hfree]
    simp [Ne.symm ht]

theorem release (hl : LockOk s) (hp : (s.pc t).locked = true) {q : Pc} (hq : q.locked = false)
    (hpc : s'.pc = Function.update s.pc t q) (hlock : s'.fcLock = none) : LockOk s' := by
  intro t'
  rw [hpc, hlock]
  by_cases ht : t' = t
  · simp [ht, hq]
  · rw [Function.update_of_ne ht, hl t', (hl t).mp hp]
    simp [Ne.symm ht]

theorem keep (hl : LockOk s) {q : Pc} (hq : q.locked = (s.pc t).locked)
    (hpc : s'.pc = Function.update s.pc t q) (hlock : s'.fcLock = s.fcLock) : LockOk s' := by
  intro t'
  rw [hpc, hlock]
  by_cases ht : t' = t
  · rw [ht, Function.update_self, hq]
    exact hl t
  · rw [Function.update_of_ne ht]
    exact hl t'

theorem step {op : Op} (hl : LockOk s) (h : Inv s) (hfit : Fits s ⟨t, op⟩)
    (hs : taskStep s t op = some s') : LockOk s' := by
  by_cases hx : Var.fcLock ∈ op.sets
  · cases op with
    | sendBackground =>
        obtain ⟨r, hpc, hs'⟩ := taskStep_sendBackground hs
        have hbg : (s.req r).background = true := by simpa [Fits, hpc] using hfit
        obtain ⟨hfree, ⟨-, rfl⟩ | ⟨-, rfl⟩⟩ := sendBackground_cases h hpc hbg hs'
        · exact hl.take hfree rfl rfl rfl
        · refine hl.keep (by rw [hpc]; rfl)
            (congrArg (Function.update · t _) (pc_putRequest _ r)) ?_
          exact (Var.agree_putRequest (x := .fcLock) (s.upd r _) r).goto t _
    | account =>
        obtain ⟨r, abort, hpc, hs'⟩ := taskStep_account hs
        obtain ⟨hfree, rfl⟩ := account_cases h hpc hs'
        exact hl.take hfree rfl rfl rfl
    | flush =>
        obtain ⟨p, l, hfl, rfl⟩ := taskStep_flush hs
        obtain ⟨hp, hcases⟩ := hfl.locked
        rcases flush_cases s t p l with ⟨r, rest, -, -, heq⟩ | ⟨-, heq⟩
        · rw [heq]
          exact hl
        · rw [heq]
          rcases hcases with ⟨rfl, hq⟩ | ⟨rfl, hq⟩
          · exact hl.release hp hq rfl rfl
          · exact hl.keep (hq.trans hp.symm) rfl rfl
    | abort =>
        obtain ⟨hpc, hs'⟩ := taskStep_abort hs
        unfold abort at hs'
        split at hs'
        next => cases hs'
        next hfree =>
          split at hs' <;> cases hs'
          · exact hl.take (by simpa using hfree) rfl rfl rfl
          · exact hl
    | abortSplice =>
        obtain ⟨hpc, rfl⟩ := taskStep_abortSplice hs
        exact hl.release (q := .abortEnd) (by rw [hpc]; rfl) rfl rfl rfl
    | _ => simp [Op.sets] at hx
  · have hlock : s'.fcLock = s.fcLock := taskStep_agree hs hx
    rcases taskStep_moves hs with hpc | ⟨q, hgo, hpc⟩
    · intro t'
      rw [hpc, hlock]
      exact hl t'
    · exact hl.keep (hgo.locked hx) hpc hlock

end LockOk

/-! ### Limits -/

/-- The task is in `fuse_abort_conn` with the lock held. -/
def Pc.aborting : Pc → Bool
  | .abortDev _ | .abortFlush | .abortSplice => true
  | _ => false

/-- What holds while nobody writes the limit `m`. -/
structure Limits (m : ℕ) (s : State τ) : Prop where
  lock : LockOk s
  accounts : Accounts s
  aborting : ∀ t, (s.pc t).aborting = true → s.connected = false
  max : s.connected = true → s.maxBackground = m
  max_cases : s.maxBackground = m ∨ s.maxBackground = UINT_MAX
  active : s.activeBackground ≤ s.maxBackground
  flushed : s.fcLock = none ∨ (∃ t, s.pc t = .abortSplice) →
    s.bgQueue = [] ∨ s.maxBackground ≤ s.activeBackground
  blocked : s.connected = true → (s.blocked = true ↔ 0 < m ∧ m ≤ s.numBackground)

theorem Goes.aborting {op : Op} {p q : Pc} (h : Goes op p q) (hq : q.aborting = true) :
    op = .abort ∨ p.aborting = true := by
  cases h <;> first | exact .inl rfl | exact .inr rfl | cases hq

theorem Goes.flush_of_abortSplice {op : Op} {p : Pc} (h : Goes op p .abortSplice) :
    op = .flush := by
  cases h
  rfl

/-- The connection is aborted before the loops of `fuse_abort_conn`. -/
theorem aborting_step {op : Op} (hab : ∀ t, (s.pc t).aborting = true → s.connected = false)
    (hs : taskStep s t op = some s') (t' : τ) (ht' : (s'.pc t').aborting = true) :
    s'.connected = false := by
  by_cases hop : op = .abort
  · subst hop
    obtain ⟨hpc, hs'⟩ := taskStep_abort hs
    unfold abort at hs'
    split at hs'
    · cases hs'
    · split at hs' <;> cases hs'
      · rfl
      · exact hab t' ht'
  · have hx : Var.connected ∉ op.sets := by
      cases op <;> simp_all [Op.sets]
    have hconn : s'.connected = s.connected := taskStep_agree hs hx
    rw [hconn]
    rcases taskStep_moves hs with hpc | ⟨q, hgo, hpc⟩
    · rw [hpc] at ht'
      exact hab t' ht'
    · by_cases htt : t' = t
      · rw [hpc, htt, Function.update_self] at ht'
        rcases hgo.aborting ht' with hab' | hp
        · exact absurd hab' hop
        · exact hab t hp
      · rw [hpc, Function.update_of_ne htt] at ht'
        exact hab t' ht'

omit [DecidableEq τ] in
/-- A step that leaves the counters and the lock alone. -/
theorem Limits.of_same {m : ℕ} (hl : Limits m s) (hlock : LockOk s') (hacc : Accounts s')
    (hab : ∀ t, (s'.pc t).aborting = true → s'.connected = false)
    (hx : ∀ x : Var, x ∉ [Var.reqctr, .fiqConnected, .pqConnected] → x.Agree s s')
    (hsplice : ∀ t, s'.pc t = .abortSplice → s.pc t = .abortSplice) : Limits m s' := by
  have hconn : s'.connected = s.connected := hx .connected (by decide)
  have hmax : s'.maxBackground = s.maxBackground := hx .maxBackground (by decide)
  have hact : s'.activeBackground = s.activeBackground := hx .activeBackground (by decide)
  have hnum : s'.numBackground = s.numBackground := hx .numBackground (by decide)
  have hblk : s'.blocked = s.blocked := hx .blocked (by decide)
  have hfc : s'.fcLock = s.fcLock := hx .fcLock (by decide)
  have hbg : s'.bgQueue = s.bgQueue := hx .bgQueue (by decide)
  refine ⟨hlock, hacc, hab, ?_, ?_, ?_, ?_, ?_⟩
  · rw [hconn, hmax]
    exact hl.max
  · rw [hmax]
    exact hl.max_cases
  · rw [hact, hmax]
    exact hl.active
  · rw [hfc, hbg, hmax, hact]
    exact fun hh => hl.flushed (hh.imp id fun ht => ht.imp hsplice)
  · rw [hconn, hblk, hnum]
    exact hl.blocked

theorem Limits.step {m : ℕ} (hm : m ≤ UINT_MAX) (hl : Limits m s) (h : Inv s) {op : Op}
    (hfit : Fits s ⟨t, op⟩) (hs : taskStep s t op = some s')
    (hset : ∀ v, op ≠ .setMaxBackground v) : Limits m s' := by
  have hlock := hl.lock.step h hfit hs
  have hacc := hl.accounts.step h (h.step (e := ⟨t, op⟩) hfit hs) hfit hs
  have hab := aborting_step hl.aborting hs
  have hsplice (hop : op ≠ .flush) (t' : τ) (ht' : s'.pc t' = .abortSplice) :
      s.pc t' = .abortSplice := by
    rcases taskStep_moves hs with hpc | ⟨q, hgo, hpc⟩
    · rwa [hpc] at ht'
    · by_cases htt : t' = t
      · rw [hpc, htt, Function.update_self] at ht'
        exact absurd (ht' ▸ hgo).flush_of_abortSplice hop
      · rwa [hpc, Function.update_of_ne htt] at ht'
  -- while this task has the lock there is nothing to show of the queue
  have htaken (hsome : s'.fcLock = some t) (hno : s'.pc t ≠ .abortSplice) :
      s'.fcLock = none ∨ (∃ t', s'.pc t' = .abortSplice) →
        s'.bgQueue = [] ∨ s'.maxBackground ≤ s'.activeBackground := by
    rintro (hnone | ⟨t', ht'⟩)
    · cases hnone.symm.trans hsome
    · have hone := (hlock t').mp (by rw [ht']; rfl)
      cases hone.symm.trans hsome
      exact absurd ht' hno
  cases op with
  | sendBackground =>
      obtain ⟨r, hpc, hs'⟩ := taskStep_sendBackground hs
      have hbg : (s.req r).background = true := by simpa [Fits, hpc] using hfit
      obtain ⟨hfree, ⟨hconn, rfl⟩ | ⟨hconn, rfl⟩⟩ := sendBackground_cases h hpc hbg hs'
      · refine ⟨hlock, hacc, hab, hl.max, hl.max_cases, hl.active,
          htaken rfl (by rw [State.pc_goto_self]; rintro ⟨⟩), fun _ => ?_⟩
        change (if s.numBackground + 1 = s.maxBackground then true else s.blocked) = true ↔
          0 < m ∧ m ≤ s.numBackground + 1
        have hb := hl.blocked hconn
        rw [hl.max hconn]
        split
        next heq =>
          simp only [true_iff]
          omega
        next hne =>
          rw [hb]
          omega
      · refine hl.of_same hlock hacc hab (fun x _ => ?_) (hsplice (by rintro ⟨⟩))
        refine (Var.Agree.trans ?_ (Var.agree_putRequest (s.upd r _) r)).goto t _
        cases x <;> rfl
  | account =>
      obtain ⟨r, abort, hpc, hs'⟩ := taskStep_account hs
      obtain ⟨w, hr, hf⟩ := h.of_pc hpc rfl
      obtain ⟨hfree, rfl⟩ := account_cases h hpc hs'
      -- the request of the task is one of those that are counted
      have hpos : 0 < s.numBackground := by
        obtain ⟨l, -, hmem, hlen⟩ := hl.accounts.counted
        have hrl := (hmem r).mpr ⟨hf.background true rfl, .task t, (hr.place (.task t)).mpr rfl⟩
        rw [← hlen]
        exact List.length_pos_of_mem hrl
      refine ⟨hlock, hacc, hab, hl.max, hl.max_cases, (Nat.sub_le _ _).trans hl.active,
        htaken rfl (by rw [State.pc_goto_self]; rintro ⟨⟩), fun hconn => ?_⟩
      change (if s.numBackground = s.maxBackground then false else s.blocked) = true ↔
        0 < m ∧ m ≤ s.numBackground - 1
      have hb := hl.blocked hconn
      rw [hl.max hconn]
      split
      next heq =>
        simp only [Bool.false_eq_true, false_iff]
        omega
      next hne =>
        rw [hb]
        omega
  | flush =>
      obtain ⟨p, l, hfl, rfl⟩ := taskStep_flush hs
      obtain ⟨hp, -⟩ := hfl.locked
      have hown := (hl.lock t).mp hp
      rcases flush_cases s t p l with ⟨r, rest, hq, hlt, heq⟩ | ⟨hdone, heq⟩
      · rw [heq] at hlock hacc hab htaken ⊢
        refine ⟨hlock, hacc, hab, hl.max, hl.max_cases, hlt, htaken hown ?_, hl.blocked⟩
        intro hpc
        change s.pc t = .abortSplice at hpc
        rw [hpc] at hfl
        cases hfl
      · rw [heq] at hlock hacc hab ⊢
        exact ⟨hlock, hacc, hab, hl.max, hl.max_cases, hl.active, fun _ => hdone, hl.blocked⟩
  | abort =>
      have hsp := hsplice (by rintro ⟨⟩)
      obtain ⟨hpc, hs'⟩ := taskStep_abort hs
      unfold abort at hs'
      split at hs'
      next => cases hs'
      next hfree =>
        split at hs' <;> cases hs'
        · exact ⟨hlock, hacc, hab, (by rintro ⟨⟩), hl.max_cases, hl.active,
            htaken rfl (by rw [State.pc_goto_self]; rintro ⟨⟩), (by rintro ⟨⟩)⟩
        · exact hl
  | abortDev =>
      obtain ⟨ds, hpc, rfl⟩ := taskStep_abortDev hs
      have hdead := hl.aborting t (by rw [hpc]; rfl)
      have hown := (hl.lock t).mp (by rw [hpc]; rfl)
      cases ds with
      | nil =>
          refine ⟨hlock, hacc, hab, fun hconn => ?_, .inr rfl, ?_,
            htaken hown (by rw [abortDev, State.pc_goto_self]; rintro ⟨⟩), fun hconn => ?_⟩
          · cases hdead.symm.trans hconn
          · refine hl.active.trans ?_
            rcases hl.max_cases with hmax | hmax
            · exact hmax.trans_le hm
            · exact hmax.le
          · cases hdead.symm.trans hconn
      | cons d ds =>
          exact ⟨hlock, hacc, hab, hl.max, hl.max_cases, hl.active,
            htaken hown (by rw [abortDev, State.pc_goto_self]; rintro ⟨⟩), hl.blocked⟩
  | abortSplice =>
      obtain ⟨hpc, rfl⟩ := taskStep_abortSplice hs
      exact ⟨hlock, hacc, hab, hl.max, hl.max_cases, hl.active,
        fun _ => hl.flushed (.inr ⟨t, hpc⟩), hl.blocked⟩
  | setMaxBackground v => exact absurd rfl (hset v)
  | _ =>
      refine hl.of_same hlock hacc hab (fun x hx' => ?_) (hsplice (by rintro ⟨⟩))
      by_cases hx : x = .bgQueue
      · rw [hx]
        exact bgQueue_eq h hs (by rintro ⟨⟩) (by rintro ⟨⟩)
      · refine taskStep_agree hs ?_
        simp_all [Op.sets]

/-- While nobody writes the limit, at most `max_background` requests are active; when the lock is
free, none waits in the queue that may go; and the connection is blocked when the limit is
reached. -/
theorem background_limits {devices : List Dev} {m c : ℕ} {b : Bool} {es : List (Event τ)}
    (h : FittingRun (connection devices m c b) es s) (hm : m ≤ UINT_MAX)
    (hset : ∀ e ∈ es, ∀ v, e.op ≠ .setMaxBackground v) :
    s.activeBackground ≤ s.maxBackground ∧
      (s.fcLock = none → s.bgQueue = [] ∨ s.maxBackground ≤ s.activeBackground) ∧
      (s.connected = true →
        s.maxBackground = m ∧ (s.blocked = true ↔ 0 < m ∧ m ≤ s.numBackground)) := by
  suffices hl : Limits m s from
    ⟨hl.active, fun hfree => hl.flushed (.inl hfree), fun hconn => ⟨hl.max hconn, hl.blocked hconn⟩⟩
  revert hset
  refine h.history (P := fun es s => (∀ e ∈ es, ∀ v, e.op ≠ .setMaxBackground v) → Limits m s)
    (fun _ => ?_) ?_
  · refine ⟨fun t => iff_of_false (by rintro ⟨⟩) (by rintro ⟨⟩),
      ⟨rfl, [], List.nodup_nil, fun r => ?_, rfl⟩, (by rintro _ ⟨⟩),
      fun _ => rfl, .inl rfl, Nat.zero_le _, fun _ => .inl rfl, fun _ => ?_⟩
    · exact iff_of_false List.not_mem_nil fun hc => by cases hc.1
    · refine iff_of_false (by rintro ⟨⟩) fun hc => ?_
      have hle : m ≤ 0 := hc.2
      omega
  · intro es s e s' _ hinv hfit ih hs hset
    exact (ih fun e he => hset e (List.mem_append_left _ he)).step hm hinv hfit hs
      (hset e (List.mem_append_right _ (List.mem_singleton_self e)))

omit [DecidableEq τ] in
/-- The task `t` queues two background requests; the limit is one. -/
def backgroundRun (t : τ) : List (Event τ) :=
  [⟨t, .blockAlloc true⟩, ⟨t, .getReq (some 7) false⟩, ⟨t, .sendBackground⟩, ⟨t, .flush⟩,
    ⟨t, .flush⟩, ⟨t, .requestAlloc 9 false⟩, ⟨t, .setBackground⟩, ⟨t, .sendBackground⟩,
    ⟨t, .flush⟩]

theorem fittingRun_background : ∃ s : State (Fin 2),
    FittingRun (connection [0] 1 9 true) (backgroundRun 0) s := by
  have hrun : ((conn (Fin 2)).run (connection [0] 1 9 true) (backgroundRun 0)).isSome := by
    decide +kernel
  obtain ⟨s, hs⟩ := Option.isSome_iff_exists.mp hrun
  exact ⟨s, hs, by decide +kernel⟩

theorem background_exact_queued : ∃ s : State (Fin 2),
    FittingRun (connection [0] 1 9 true) (backgroundRun 0) s ∧
    (s.numBackground = s.bgQueue.length + s.activeBackground ∧
      ∃ l : List ReqId, l.Nodup ∧ l.length = s.numBackground ∧
        ∀ r, r ∈ l ↔ (s.req r).background = true ∧ ∃ p, s.Holds p r) := by
  obtain ⟨s, hs⟩ := fittingRun_background
  exact ⟨s, hs, background_exact hs⟩

theorem background_limits_queued : ∃ s : State (Fin 2),
    FittingRun (connection [0] 1 9 true) (backgroundRun 0) s ∧
    (s.activeBackground ≤ s.maxBackground ∧
      (s.fcLock = none → s.bgQueue = [] ∨ s.maxBackground ≤ s.activeBackground) ∧
      (s.connected = true →
        s.maxBackground = 1 ∧ (s.blocked = true ↔ 0 < 1 ∧ 1 ≤ s.numBackground))) := by
  obtain ⟨s, hs⟩ := fittingRun_background
  refine ⟨s, hs, background_limits hs (by decide) ?_⟩
  intro e he v
  fin_cases he <;> rintro ⟨⟩

/-! ### A raised limit -/

/-- The task has passed the wait for background requests, and has not sent its request. -/
def gated (s : State τ) (t : τ) : ℕ :=
  match s.pc t with
  | .getting b => if b then 1 else 0
  | .got r => if (s.req r).background then 1 else 0
  | _ => 0

/-- The event neither writes `max_background` nor aborts the connection. -/
def Ordinary (e : Event τ) : Prop := e.op ≠ .abort ∧ ∀ v, e.op ≠ .setMaxBackground v

/-- The request of a task that has not sent it keeps its `FR_BACKGROUND`. -/
theorem got_background (h : Inv s) {op : Op} (hs : taskStep s t op = some s')
    (hset : op ≠ .setBackground) {t' : τ} (hpc : s.pc t' = .got r) :
    (s'.req r).background = (s.req r).background := by
  obtain ⟨hr, -⟩ := h.of_got hpc
  by_cases hacc : op = .account
  · subst hacc
    obtain ⟨y, abort, hpc', hs'⟩ := taskStep_account hs
    obtain ⟨-, rfl⟩ := account_cases h hpc' hs'
    have hry : r ≠ y := by
      rintro rfl
      obtain ⟨w, hy, -⟩ := h.of_pc hpc' rfl
      cases (hr.place (.task t)).mp ((hy.place (.task t)).mpr rfl)
    rw [State.req_goto, State.req_uncount, (Frame.upd y s _).req r hry]
  · refine Keeps.background (taskStep_keeps hs ?_) ?_
    · cases op <;> simp_all [Op.writes]
    · rw [hr.live_of_caller]
      rintro ⟨⟩

omit [DecidableEq τ] in
theorem gated_congr (hpc : s'.pc t = s.pc t)
    (hreq : ∀ r, s.pc t = .got r → (s'.req r).background = (s.req r).background) :
    gated s' t = gated s t := by
  unfold gated
  rw [hpc]
  split
  next => rfl
  next r hgot => rw [hreq r hgot]
  next => rfl

/-- Behind a blocked gate nobody joins the tasks that have passed. -/
theorem gated_step (h : Inv s) (hblk : s.blocked = true) {op : Op}
    (hs : taskStep s t op = some s') (hset : op ≠ .setBackground) (t' : τ) :
    gated s' t' ≤ gated s t' := by
  have hsame (hpc : s'.pc t' = s.pc t') : gated s' t' ≤ gated s t' :=
    Nat.le_of_eq (gated_congr hpc fun _ hgot => got_background h hs hset hgot)
  rcases taskStep_moves hs with hpc | ⟨q, hgo, hpc⟩
  · exact hsame (by rw [hpc])
  · by_cases ht : t' = t
    · subst ht
      have hq : s'.pc t' = q := by rw [hpc, Function.update_self]
      generalize hp : s.pc t' = p at hgo
      cases hgo with
      | blockAlloc b =>
          cases b with
          | false => simp [gated, hq]
          | true =>
              unfold taskStep at hs
              rw [hp] at hs
              simp [blockAlloc, fuseBlockAlloc, hblk] at hs
      | getReq r b force =>
          obtain ⟨b', hp', hs'⟩ := taskStep_getReq hs
          cases hp.symm.trans hp'
          unfold getReq at hs'
          simp only at hs'
          split at hs'
          · simp [gated, hq, hp, (requestAlloc_eq hs').2.2.1]
          · cases hs'
      | requestAlloc r force =>
          simp [gated, hq, (requestAlloc_eq (taskStep_requestAlloc hs).2).2.2.1]
      | _ => simp [gated, hq]
    · exact hsame (by rw [hpc, Function.update_of_ne ht])

section load

variable [Fintype τ]

/-- The background requests, and those that may still come. -/
def load (s : State τ) : ℕ := s.numBackground + ∑ t, gated s t

/-- The connection is blocked with the limit `m`, with `k` background requests at most. -/
structure Stuck (m k : ℕ) (s : State τ) : Prop where
  connected : s.connected = true
  blocked : s.blocked = true
  limit : s.maxBackground = m
  load : load s ≤ k

/-- A request that is marked behind the gate is one more. -/
theorem load_setBackground (h : Inv s) (hs : taskStep s t .setBackground = some s') :
    load s' ≤ load s + 1 := by
  obtain ⟨r, hpc, rfl⟩ := taskStep_setBackground hs
  obtain ⟨hr, -⟩ := h.of_got hpc
  have hgate (t' : τ) : gated ((s.touch r).upd r fun q => { q with background := true }) t' ≤
      gated s t' + if t' = t then 1 else 0 := by
    by_cases ht : t' = t
    · rw [if_pos ht, gated]
      split
      · split <;> omega
      · split <;> omega
      · omega
    · rw [if_neg ht, Nat.add_zero]
      refine Nat.le_of_eq (gated_congr rfl fun y hgot => ?_)
      -- another task has another request
      have hy : y ≠ r := by
        rintro rfl
        have hcaller := (hr.caller t').mp (congrArg Pc.caller hgot)
        exact ht (Option.some.inj hcaller).symm
      rw [(Frame.upd r (s.touch r) _).req y hy]
      rfl
  have hsum := Finset.sum_le_sum fun t' (_ : t' ∈ Finset.univ) => hgate t'
  rw [Finset.sum_add_distrib, Finset.sum_ite_eq' Finset.univ t, if_pos (Finset.mem_univ t)] at hsum
  change s.numBackground + _ ≤ s.numBackground + _ + 1
  omega

theorem Stuck.step {m k : ℕ} (hst : Stuck m k s) (h : Inv s)
    (hab : ∀ t, (s.pc t).aborting = true → s.connected = false) {e : Event τ} (hfit : Fits s e)
    (hs : taskStep s e.task e.op = some s') (hord : Ordinary e) (hk : k < m) :
    Stuck m (k + if e.op = .setBackground then 1 else 0) s' := by
  obtain ⟨t, op⟩ := e
  obtain ⟨habort, hmax⟩ := hord
  have hconn := hst.connected
  have hlimit := hst.limit
  have hload := hst.load
  by_cases hset : op = .setBackground
  · subst hset
    have hmore := load_setBackground h hs
    rw [if_pos rfl]
    exact ⟨Eq.trans (taskStep_agree hs (x := .connected) (by simp [Op.sets])) hconn,
      Eq.trans (taskStep_agree hs (x := .blocked) (by simp [Op.sets])) hst.blocked,
      Eq.trans (taskStep_agree hs (x := .maxBackground) (by simp [Op.sets])) hlimit, by omega⟩
  rw [if_neg hset, Nat.add_zero]
  have hgate := gated_step h hst.blocked hs hset
  have hsum : ∑ t, gated s' t ≤ ∑ t, gated s t := Finset.sum_le_sum fun t' _ => hgate t'
  unfold Fuse.load at hload
  cases op with
  | sendBackground =>
      obtain ⟨r, hpc, hs'⟩ := taskStep_sendBackground hs
      have hbg : (s.req r).background = true := by simpa [Fits, hpc] using hfit
      obtain ⟨-, ⟨hconn', rfl⟩ | ⟨hconn', -⟩⟩ := sendBackground_cases h hpc hbg hs'
      · refine ⟨hconn', ?_, hlimit, ?_⟩
        · change (if s.numBackground + 1 = s.maxBackground then true else s.blocked) = true
          split
          · rfl
          · exact hst.blocked
        · -- the request of this task is counted, and the task has passed the gate no longer
          have hlt := Finset.sum_lt_sum (fun t' _ => hgate t')
            ⟨t, Finset.mem_univ t, by simp [gated, hpc, hbg]⟩
          change s.numBackground + 1 + _ ≤ k
          omega
      · cases hconn'.symm.trans hconn
  | account =>
      obtain ⟨r, abort, hpc, hs'⟩ := taskStep_account hs
      obtain ⟨-, rfl⟩ := account_cases h hpc hs'
      refine ⟨hconn, ?_, hlimit, ?_⟩
      · change (if s.numBackground = s.maxBackground then false else s.blocked) = true
        rw [if_neg (by omega)]
        exact hst.blocked
      · change s.numBackground - 1 + _ ≤ k
        omega
  | abortDev =>
      obtain ⟨ds, hpc, -⟩ := taskStep_abortDev hs
      cases (hab t (by rw [hpc]; rfl)).symm.trans hconn
  | setBackground => exact absurd rfl hset
  | abort => exact absurd rfl habort
  | setMaxBackground v => exact absurd rfl (hmax v)
  | _ =>
      have hconn' := taskStep_agree hs (x := .connected) (by simp [Op.sets])
      have hblk := taskStep_agree hs (x := .blocked) (by simp [Op.sets])
      have hnum := taskStep_agree hs (x := .numBackground) (by simp [Op.sets])
      have hlim := taskStep_agree hs (x := .maxBackground) (by simp [Op.sets])
      change s'.connected = s.connected at hconn'
      change s'.blocked = s.blocked at hblk
      change s'.numBackground = s.numBackground at hnum
      change s'.maxBackground = s.maxBackground at hlim
      refine ⟨hconn'.trans hconn, hblk.trans hst.blocked, hlim.trans hlimit, ?_⟩
      rw [Fuse.load, hnum]
      omega

/-- A blocked connection whose limit is raised over its background requests, over those that may
still be sent and over those that will be marked without a look at the gate, stays blocked: every
allocation of a background request hangs, though there are fewer requests than the limit
allows. -/
theorem raised_limit_blocks {devices : List Dev} {m c : ℕ} {b : Bool} {es : List (Event τ)}
    (h : FittingRun (connection devices m c b) es s) (hconn : s.connected = true)
    (hblk : s.blocked = true) {es' : List (Event τ)} (h' : FittingRun s es' s')
    (hload : s.numBackground + ∑ t, gated s t + es'.countP (fun e => e.op = .setBackground) <
      s.maxBackground)
    (hord : ∀ e ∈ es', Ordinary e) :
    s'.numBackground < s'.maxBackground ∧ ∀ t, blockAlloc s' t true = none := by
  have hab : ∀ t, (s.pc t).aborting = true → s.connected = false :=
    h.history (P := fun _ s => ∀ t, (s.pc t).aborting = true → s.connected = false)
      (by rintro _ ⟨⟩)
      fun _ _ _ _ _ _ _ hab hs => aborting_step hab hs
  have hall : Stuck s.maxBackground
      (load s + es'.countP fun e => e.op = .setBackground) s' := by
    refine (h'.2.history (P := fun es c => (∀ e ∈ es, Ordinary e) →
      load s + es.countP (fun e => e.op = .setBackground) < s.maxBackground →
      Inv c ∧ (∀ t, (c.pc t).aborting = true → c.connected = false) ∧
        Stuck s.maxBackground (load s + es.countP fun e => e.op = .setBackground) c)
      (fun _ _ => ⟨h.inv, hab, hconn, hblk, rfl, Nat.le_refl _⟩) ?_ h'.1 hord hload).2.2
    intro es c e c' _ _ hfit ih hs hord hlt
    rw [List.countP_append, List.countP_singleton] at hlt ⊢
    obtain ⟨hinv, hab, hst⟩ := ih (fun e he => hord e (List.mem_append_left _ he)) (by omega)
    have hst' := hst.step hinv hab hfit hs
      (hord e (List.mem_append_right _ (List.mem_singleton_self e))) (by omega)
    refine ⟨hinv.step hfit hs, aborting_step hab hs, ?_⟩
    simpa [Nat.add_assoc] using hst'
  refine ⟨?_, fun t => ?_⟩
  · rw [hall.limit]
    exact (Nat.le_add_right _ _).trans_lt (hall.load.trans_lt hload)
  · simp [blockAlloc, fuseBlockAlloc, hall.blocked]

end load

omit [DecidableEq τ] in
/-- A background request of `t` reaches the limit, and `u` raises it. -/
def raiseRun (t u : τ) : List (Event τ) :=
  [⟨t, .blockAlloc true⟩, ⟨t, .getReq (some 7) false⟩, ⟨t, .sendBackground⟩, ⟨t, .flush⟩,
    ⟨t, .flush⟩, ⟨u, .setMaxBackground 5⟩]

omit [DecidableEq τ] in
/-- The daemon `u` answers to the request. -/
def answerRun (u : τ) : List (Event τ) :=
  [⟨u, .read 0⟩, ⟨u, .startIo⟩, ⟨u, .copied true⟩, ⟨u, .markSent⟩, ⟨u, .testInterrupted⟩,
    ⟨u, .write 0 1 0⟩, ⟨u, .wrote true⟩, ⟨u, .finish⟩, ⟨u, .unqueue⟩, ⟨u, .account⟩, ⟨u, .flush⟩,
    ⟨u, .wake⟩]

theorem raised_limit_blocks_answered : ∃ s s' : State (Fin 2),
    FittingRun (connection [0] 1 9 true) (raiseRun 0 1) s ∧
    FittingRun s (answerRun 1) s' ∧ s'.numBackground = 0 ∧
    (s'.numBackground < s'.maxBackground ∧ ∀ t, blockAlloc s' t true = none) := by
  have hrun : ((conn (Fin 2)).run (connection [0] 1 9 true) (raiseRun 0 1)).any fun s =>
      s.connected ∧ s.blocked ∧ s.numBackground + ∑ t, gated s t +
        (answerRun (1 : Fin 2)).countP (fun e => e.op = .setBackground) < s.maxBackground ∧
      (conn (Fin 2)).Respects Fits s (answerRun 1) ∧
      ((conn (Fin 2)).run s (answerRun 1)).any fun s' => s'.numBackground = 0 := by
    decide +kernel
  obtain ⟨s, hs, hfacts⟩ := (Option.any_eq_true _ _).mp hrun
  obtain ⟨hconn, hblk, hload, hresp, hend⟩ := of_decide_eq_true hfacts
  obtain ⟨s', hs', hzero⟩ := (Option.any_eq_true _ _).mp hend
  have h : FittingRun (connection [0] 1 9 true) (raiseRun 0 1) s := ⟨hs, by decide +kernel⟩
  refine ⟨s, s', h, ⟨hs', hresp⟩, of_decide_eq_true hzero,
    raised_limit_blocks h hconn hblk ⟨hs', hresp⟩ hload fun e he => ?_⟩
  fin_cases he <;> exact ⟨by rintro ⟨⟩, by rintro _ ⟨⟩⟩

end KernelMemo.Fuse
