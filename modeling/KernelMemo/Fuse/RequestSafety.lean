import KernelMemo.Fuse.RequestCases
import KernelMemo.Fuse.RequestSteps

/-! # The requests of a connection, step by step

Every step of a task keeps the invariant of `Fuse/RequestInvariant.lean`, as long as its
environment keeps the rules of `Fits`.

* **Operations.**  One lemma for each operation of the source, in its order: the task that wants
  an answer, `fuse_dev_do_read`, `fuse_dev_do_write`, `request_end` and `fuse_abort_conn`.
* **Runs.**  `FittingRun.inv` carries the invariant along a run.  `requests_safe` says that no
  freed request is used, `request_refcount` who holds the references of a request. -/

namespace KernelMemo.Fuse

variable {τ : Type*} [DecidableEq τ] {s s' : State τ} {r : ReqId} {t : τ} {d : Dev} {p : Pc}

/-! ### The task that wants an answer -/

/-- The task takes or gives up the request as its caller. -/
theorem goto_borrow_iff (hold : (s.pc t).borrow = none) (hnew : p.borrow = none) (t' : τ) :
    ((s.goto t p).pc t').borrow = some r ↔ (s.pc t').borrow = some r := by
  by_cases ht : t' = t
  · rw [ht, State.pc_goto_self, hold, hnew]
  · rw [State.pc_goto_of_ne ht]

theorem goto_caller_take (hnone : ∀ t', (s.pc t').caller ≠ some r) (hnew : p.caller = some r)
    (t' : τ) : ((s.goto t p).pc t').caller = some r ↔ some t = some t' := by
  by_cases ht : t' = t
  · rw [ht, State.pc_goto_self, hnew]
    simp
  · rw [State.pc_goto_of_ne ht]
    simp [hnone t', Ne.symm ht]

theorem Inv.requestAlloc (h : Inv s) (hpc : (s.pc t).req = none) {background force : Bool}
    (hs : requestAlloc s t r background force = some s') : Inv s' := by
  simp only [Fuse.requestAlloc, Option.map_eq_some_iff] at hs
  obtain ⟨heap, halloc, rfl⟩ := hs
  obtain ⟨v, w, hr⟩ := h.req r
  have hdead : ¬ s.heap.Live r := by
    rw [Heap.Live, Heap.alloc_unborn halloc]
    simp
  obtain ⟨rfl, rfl, hlost⟩ := hr.of_not_live hdead
  obtain ⟨hborrow, hintr, hio⟩ := hr.unknown
  obtain ⟨hcaller, hflight, hb⟩ := Pc.of_req_eq_none hpc
  have hmem : heap.mem r = { requestInit with background, force } := by
    obtain ⟨-, rfl⟩ := Heap.alloc_eq_some.mp halloc
    simp
  have hplace : State.Located ({ s with heap := heap }.goto t (.got r)) r none :=
    (hr.place.setHeap heap).goto hflight
  have hcallers : ∀ t', (({ s with heap := heap }.goto t (.got r)).pc t').caller = some r ↔
      some t = some t' :=
    goto_caller_take (fun t' ht => by simpa using (hr.caller t').mp ht) rfl
  have hframe : Frame r s ({ s with heap := heap }.goto t (.got r)) :=
    (Frame.setHeap fun y hy =>
      ⟨Heap.alloc_life_of_ne halloc hy, Heap.alloc_mem_of_ne halloc hy⟩).trans
      (.goto (.inl hpc) (.inr rfl))
  refine h.of_frame hframe ((h.sound.setHeap heap).goto _)
    ⟨none, some t, hplace, hcallers, ?_, ?_, fun p hp => (by cases hp), ?_, ?_,
      fun hi => absurd hi hintr, fun d hd => absurd hd (hio d), ?_,
      fun hl => absurd hlost (Nat.ne_of_gt hl)⟩
  · exact iff_of_true (Heap.alloc_life_self halloc) (refs_pos_of_caller _ _ _)
  · intro _
    simp [State.goto, State.req, hmem, requestInit, refs, hlost]
  · intro t' ht'
    cases ht'
    rw [State.pc_goto_self]
    simp [CallerOk, State.goto, State.req, hmem, requestInit]
  · intro t' ht'
    exact absurd ((goto_borrow_iff hb rfl t').mp ht') (hborrow t')
  · simp [State.goto, State.req, hmem, requestInit]

/-- A waiting caller goes on to its next place. -/
theorem Inv.wait (h : Inv s) (hcaller : (s.pc t).caller = some r) (hnew : p.caller = some r)
    (hok : ∀ v : Option (Place τ), CallerOk v (s.req r) (s.pc t) → CallerOk v (s.req r) p) :
    Inv (s.goto t p) := by
  refine h.goto_caller hcaller hnew ?_ ?_ fun v hr => hok v (hr.waiting t rfl)
  · exact ⟨Pc.flight_of_caller hcaller, Pc.flight_of_caller hnew⟩
  · exact Pc.borrow_of_caller hnew

theorem Inv.waitAnswer (h : Inv s) (hpc : s.pc t = .waitAnswer r) : Inv (waitAnswer s t r) := by
  unfold Fuse.waitAnswer
  split
  · exact h.wait (congrArg Pc.caller hpc) rfl fun v hv => by rwa [hpc] at hv
  · exact h.wait (congrArg Pc.caller hpc) rfl fun v hv => by rwa [hpc] at hv

theorem Inv.markInterrupted (h : Inv s) (hpc : s.pc t = .waitIntr r) :
    Inv (markInterrupted s t r) := by
  have hcaller : (s.pc t).caller = some r := congrArg Pc.caller hpc
  rw [Fuse.markInterrupted, State.touch_of_live (h.live_of_caller hcaller)]
  have h' := h.upd_same (r := r) (fun q => { q with interrupted := true })
    ⟨rfl, rfl, rfl, rfl, rfl, rfl, rfl, rfl⟩
  exact h'.wait hcaller rfl fun v hv => by
    rw [show (s.upd r _).pc t = _ from hpc] at hv
    exact hv

theorem Inv.testSent (h : Inv s) (hpc : s.pc t = .marked r) : Inv (testSent s t r) := by
  have hcaller : (s.pc t).caller = some r := congrArg Pc.caller hpc
  rw [Fuse.testSent, State.touch_of_live (h.live_of_caller hcaller)]
  split
  next hsent =>
    refine h.goto_caller hcaller rfl ⟨congrArg Pc.flight hpc, rfl⟩ rfl fun v hr => ?_
    have hw := hr.waiting t rfl
    rw [hpc] at hw
    -- a request that was sent is off the pending list
    have hpend : (s.req r).pending = false := by
      cases v with
      | none => exact (hw.2 rfl).2
      | some p =>
          have hf := hr.flight p rfl
          rw [hf.pending]
          rcases hf.sent hsent with hst | hst <;> rw [hst] <;> rfl
    exact ⟨hw.1, hpend, fun hv => (hw.2 hv).1⟩
  next => exact h.wait hcaller rfl fun v hv => by rwa [hpc] at hv

theorem Inv.testForce (h : Inv s) (hpc : s.pc t = .testForce r) : Inv (testForce s t r) := by
  have hcaller : (s.pc t).caller = some r := congrArg Pc.caller hpc
  rw [Fuse.testForce, State.touch_of_live (h.live_of_caller hcaller)]
  split
  · exact h.wait hcaller rfl fun v hv => by rwa [hpc] at hv
  · exact h.wait hcaller rfl fun v hv => by rwa [hpc] at hv

theorem Inv.kill (h : Inv s) (hpc : s.pc t = .waitKill r) : Inv (s.goto t (.killed r)) :=
  h.wait (congrArg Pc.caller hpc) rfl fun v hv => by rwa [hpc] at hv

theorem Inv.woken (h : Inv s)
    (hpc : s.pc t = .waitIntr r ∨ s.pc t = .waitKill r ∨ s.pc t = .waitEvent r)
    (hs : woken s t r = some s') : Inv s' := by
  have hcaller : (s.pc t).caller = some r := by
    rcases hpc with hpc | hpc | hpc <;> exact congrArg Pc.caller hpc
  unfold Fuse.woken at hs
  split at hs
  next =>
    rw [State.touch_of_live (h.live_of_caller hcaller)] at hs
    cases hs
    refine h.wait hcaller rfl fun v hv => ?_
    rcases hpc with hpc | hpc | hpc <;> rw [hpc] at hv <;> exact hv.1
  next => cases hs

/-- A step of the caller: the request goes from the place `v` to `v'`. -/
theorem ReqOk.callerStep {q : Pc} {v v' : Option (Place τ)} {w : Option τ}
    (hr : ReqOk s r v (some t)) (hpc : s'.pc = Function.update s.pc t q)
    (hq : q.flight = none ∧ q.borrow = none)
    (hw : q.caller = some r ∧ w = some t ∨ q.caller = none ∧ w = none)
    (hplace : s'.Located r v')
    (hcount : (s'.heap.Live r ↔ 0 < refs v' w (s'.lost.count r)) ∧
      (s'.heap.Live r → (s'.req r).count = refs v' w (s'.lost.count r)))
    (hflight : ∀ p, v' = some p → FlightOk (p.stage s'.pc) (s'.req r))
    (hwait : w = some t → CallerOk v' (s'.req r) q)
    (hborrow : ∀ d, v = some (.processing d) → v' = v)
    (hintr : r ∈ s'.interrupts →
      (s'.req r).pending = false ∧ ∃ p, v' = some p ∧ (p.stage s'.pc).unqueued = false)
    (hio : ∀ d, r ∈ s'.io d → ∃ t', v' = some (.task t') ∧ (s'.pc t').onIo d r)
    (hpriv : (s'.req r).priv = false)
    (hlost : s'.lost = s.lost ∨ v' = none ∧ w = none ∧ (s'.req r).background = false) :
    ReqOk s' r v' w := by
  refine ⟨hplace, fun t' => ?_, hcount.1, hcount.2, hflight, fun t' ht' => ?_, fun t' ht' => ?_,
    hintr, hio, hpriv, fun hl => ?_⟩
  · by_cases ht : t' = t
    · rw [hpc, ht, Function.update_self]
      rcases hw with ⟨hq', rfl⟩ | ⟨hq', rfl⟩ <;> simp [hq']
    · rw [hpc, Function.update_of_ne ht, hr.caller t']
      rcases hw with ⟨-, rfl⟩ | ⟨-, rfl⟩ <;> simp [Ne.symm ht]
  · rcases hw with ⟨-, rfl⟩ | ⟨-, rfl⟩
    · cases ht'
      rw [hpc, Function.update_self]
      exact hwait rfl
    · cases ht'
  · by_cases ht : t' = t
    · rw [hpc, ht, Function.update_self, hq.2] at ht'
      cases ht'
    · rw [hpc, Function.update_of_ne ht] at ht'
      obtain ⟨d, hd⟩ := hr.borrow t' ht'
      exact ⟨d, (hborrow d hd).trans hd⟩
  · rcases hlost with hlost | hlost
    · rw [hlost] at hl
      cases (hr.lost hl).2.1
    · exact hlost

/-- The task at a place in flight is not the caller. -/
theorem ReqOk.update_pc {v : Option (Place τ)} {w : Option τ} (hr : ReqOk s r v w)
    (hcaller : (s.pc t).caller = some r) (q : Pc) {p : Place τ} (hp : v = some p) :
    p.stage (Function.update s.pc t q) = p.stage s.pc ∧
      ∀ t', p = .task t' → Function.update s.pc t q t' = s.pc t' := by
  cases p with
  | task t' =>
      have hfl : (s.pc t').flight = some r := (hr.place (.task t')).mpr hp
      have hne : t' ≠ t := by
        intro he
        rw [he, Pc.flight_of_caller hcaller] at hfl
        cases hfl
      simp [Place.stage, hne]
  | _ => simp [Place.stage]

theorem Inv.putRequest (h : Inv s) (hpc : s.pc t = .got r ∨ s.pc t = .answered r) :
    Inv ((s.putRequest r).goto t .idle) := by
  have hcaller : (s.pc t).caller = some r := by
    rcases hpc with hpc | hpc <;> exact congrArg Pc.caller hpc
  obtain ⟨v, hr⟩ := h.of_caller hcaller
  obtain ⟨heap, heq, hother, ⟨n, hn⟩, hheap⟩ := putRequest_eq hr.live_of_caller
  rw [heq]
  have hcount := hr.putRequest (x := { s with heap := heap }.goto t .idle) (a := v)
    (b := none) rfl rfl hheap (by simp [refs]; omega)
  refine h.of_frame ((Frame.setHeap hother).trans
      (.goto (.inr (Pc.req_of_caller hcaller)) (.inl rfl))) ((h.sound.setHeap heap).goto _)
    ⟨v, none, hr.callerStep rfl ⟨rfl, rfl⟩ (.inr ⟨rfl, rfl⟩)
      ((hr.place.setHeap heap).goto (Pc.flight_of_caller hcaller)) hcount ?_ (by simp)
      (fun _ _ => rfl) ?_ ?_ ?_ (.inl rfl)⟩
  · intro p hp
    change FlightOk (p.stage (Function.update s.pc t .idle)) (heap.mem r)
    rw [hn, (hr.update_pc hcaller _ hp).1]
    have hf := hr.flight p hp
    exact ⟨hf.pending, hf.finished, hf.sent, hf.isreply, hf.background, hf.unanswered⟩
  · intro hi
    obtain ⟨hpend, p, hp, hun⟩ := hr.interrupts hi
    refine ⟨?_, p, hp, ?_⟩
    · change (heap.mem r).pending = false
      rwa [hn]
    · change (p.stage (Function.update s.pc t .idle)).unqueued = false
      rwa [(hr.update_pc hcaller _ hp).1]
  · intro d hd
    obtain ⟨t', ht', ho⟩ := hr.io d hd
    refine ⟨t', ht', ?_⟩
    change (Function.update s.pc t .idle t').onIo d r
    rwa [(hr.update_pc hcaller _ ht').2 t' rfl]
  · change (heap.mem r).priv = false
    rw [hn]
    exact hr.priv

theorem Inv.requestSend (h : Inv s) (hpc : s.pc t = .got r) (hbg : (s.req r).background = false)
    (isreply : Bool) : Inv (requestSend s t r isreply) := by
  have hcaller : (s.pc t).caller = some r := congrArg Pc.caller hpc
  obtain ⟨hr, hpend, hfin, hsent, hout⟩ := h.of_got hpc
  obtain ⟨-, hintr, hio⟩ := hr.unknown
  have hlive := hr.live_of_caller
  have hcount := hr.count hlive
  have hframe := Frame.upd r s fun q => { q with isreply }
  rw [Fuse.requestSend, State.touch_of_live hlive, State.bugOn_false_of hbg]
  split
  next =>
    have hmem : r ∉ s.pending := fun hm => by cases (hr.place .pending).mp hm
    refine h.of_frame ((((hframe.trans (.assignUnique r _)).trans (.queueRequest r _)).trans
        (.upd r _ _)).trans (.goto (.inr (Pc.req_of_caller hcaller)) (.inr rfl)))
      (((((h.sound.upd _).assignUnique).queueRequest hmem).upd _).goto _)
      ⟨some .pending, some t, hr.callerStep rfl ⟨rfl, rfl⟩ (.inl ⟨rfl, rfl⟩)
        (((hr.place.upd _).assignUnique.queueRequest.upd _).goto (Pc.flight_of_caller hcaller))
        ?_ ?_ ?_ (by simp) (fun hi => absurd hi hintr) (fun d hd => absurd hd (hio d)) ?_
        (.inl rfl)⟩
    · refine ⟨iff_of_true hlive (refs_pos_of_place _ _ _), fun _ => ?_⟩
      simp only [State.req_goto, State.req_upd_self, State.req_queueRequest,
        State.req_assignUnique_self, hcount]
      change _ = refs _ _ (s.lost.count r)
      simp only [refs, Option.toList_some, Option.toList_none, List.length_singleton,
        List.length_nil]
      omega
    · intro p hp
      cases hp
      constructor <;> simp [hpend, hfin, hsent, hout, Place.stage, Stage.queued, Stage.ended,
        Stage.background, Stage.unanswered]
    · intro _
      simp [CallerOk, hbg]
    · simp [hr.priv]
  next =>
    refine h.of_frame ((hframe.trans (.upd r _ _)).trans
        (.goto (.inr (Pc.req_of_caller hcaller)) (.inr rfl))) (((h.sound.upd _).upd _).goto _)
      ⟨none, some t, hr.callerStep rfl ⟨rfl, rfl⟩ (.inl ⟨rfl, rfl⟩)
        (((hr.place.upd _).upd _).goto (Pc.flight_of_caller hcaller)) ?_ (by simp) ?_ (by simp)
        (fun hi => absurd hi hintr) (fun d hd => absurd hd (hio d)) ?_ (.inl rfl)⟩
    · refine ⟨iff_of_true hlive (refs_pos_of_caller _ _ _), fun _ => ?_⟩
      simp only [State.req_goto, State.req_upd_self, hcount]
      rfl
    · intro _
      simp [CallerOk, hbg]
    · simp [hr.priv]

theorem Inv.requestSendBackground (h : Inv s) (hpc : s.pc t = .got r)
    (hbg : (s.req r).background = true) (hs : requestSendBackground s t r = some s') : Inv s' := by
  have hcaller : (s.pc t).caller = some r := congrArg Pc.caller hpc
  obtain ⟨hr, hpend, hfin, hsent, hout⟩ := h.of_got hpc
  obtain ⟨-, hintr, hio⟩ := hr.unknown
  have hlive := hr.live_of_caller
  have hcount := hr.count hlive
  unfold Fuse.requestSendBackground at hs
  simp only [State.touch_of_live hlive, State.bugOn_false_of (b := !(s.req r).background)
    (by simp [hbg])] at hs
  split at hs
  next => cases hs
  next =>
    split at hs
    next =>
      cases hs
      have hmem : r ∉ s.bgQueue := fun hm => by cases (hr.place .bgQueue).mp hm
      refine h.of_frame ((((Frame.upd r s _).trans (.queueBackground r _)).trans
          (Frame.setLock _ (some t))).trans (.goto (.inr (Pc.req_of_caller hcaller)) (.inl rfl)))
        ((((h.sound.upd _).queueBackground hmem).setLock (some t)).goto _)
        ⟨some .bgQueue, none, hr.callerStep rfl ⟨rfl, rfl⟩ (.inr ⟨rfl, rfl⟩)
          (((hr.place.upd _).queueBackground.setLock _).goto (Pc.flight_of_caller hcaller)) ?_ ?_
          (by simp) (by simp) (fun hi => absurd hi hintr) (fun d hd => absurd hd (hio d)) ?_
          (.inl rfl)⟩
      · refine ⟨iff_of_true hlive (refs_pos_of_place _ _ _), fun _ => ?_⟩
        simp only [State.req_goto, State.req_setLock, State.req_queueBackground,
          State.req_upd_self, hcount]
        rfl
      · intro p hp
        cases hp
        constructor <;> simp [hpend, hfin, hsent, hbg, hout, Place.stage, Stage.queued, Stage.ended,
          Stage.background, Stage.unanswered]
      · simp [hr.priv]
    next =>
      cases hs
      exact (h.upd_same _ ⟨rfl, rfl, rfl, rfl, rfl, rfl, rfl, rfl⟩).putRequest (.inl hpc)

theorem Inv.requestSendNotifyReply (h : Inv s) (hpc : s.pc t = .got r)
    (hbg : (s.req r).background = false) (unique : ℕ) :
    Inv (requestSendNotifyReply s t r unique) := by
  have hcaller : (s.pc t).caller = some r := congrArg Pc.caller hpc
  obtain ⟨hr, hpend, hfin, hsent, hout⟩ := h.of_got hpc
  obtain ⟨-, hintr, hio⟩ := hr.unknown
  have hlive := hr.live_of_caller
  have hcount := hr.count hlive
  have hframe := Frame.upd r s fun q => { q with isreply := false, unique := unique }
  rw [Fuse.requestSendNotifyReply, State.touch_of_live hlive]
  split
  next =>
    have hmem : r ∉ s.pending := fun hm => by cases (hr.place .pending).mp hm
    refine h.of_frame ((hframe.trans (.queueRequest r _)).trans
        (.goto (.inr (Pc.req_of_caller hcaller)) (.inl rfl)))
      (((h.sound.upd _).queueRequest hmem).goto _)
      ⟨some .pending, none, hr.callerStep rfl ⟨rfl, rfl⟩ (.inr ⟨rfl, rfl⟩)
        ((hr.place.upd _).queueRequest.goto (Pc.flight_of_caller hcaller)) ?_ ?_ (by simp) (by simp)
        (fun hi => absurd hi hintr) (fun d hd => absurd hd (hio d)) ?_ (.inl rfl)⟩
    · refine ⟨iff_of_true hlive (refs_pos_of_place _ _ _), fun _ => ?_⟩
      simp only [State.req_goto, State.req_upd_self, State.req_queueRequest, hcount]
      rfl
    · intro p hp
      cases hp
      constructor <;> simp [hpend, hfin, hsent, hout, Place.stage, Stage.queued, Stage.ended,
        Stage.background, Stage.unanswered]
    · simp [hr.priv]
  next =>
    refine h.of_frame ((hframe.trans (.lose r _)).trans
        (.goto (.inr (Pc.req_of_caller hcaller)) (.inl rfl))) (((h.sound.upd _).lose).goto _)
      ⟨none, none, hr.callerStep rfl ⟨rfl, rfl⟩ (.inr ⟨rfl, rfl⟩)
        (((hr.place.upd _).lose).goto (Pc.flight_of_caller hcaller)) ?_ (by simp) (by simp)
        (by simp) (fun hi => absurd hi hintr) (fun d hd => absurd hd (hio d)) ?_
        (.inr ⟨rfl, rfl, by simpa using hbg⟩)⟩
    · have hlost : (r :: s.lost).count r = s.lost.count r + 1 := List.count_cons_self
      refine ⟨iff_of_true hlive ?_, fun _ => ?_⟩
      · change 0 < refs none none ((r :: s.lost).count r)
        simp only [refs, Option.toList_none, List.length_nil, hlost]
        omega
      · simp only [State.req_goto, State.req_lose, State.req_upd_self, hcount]
        change refs none (some t) _ = refs none none ((r :: s.lost).count r)
        simp only [refs, Option.toList_none, Option.toList_some, List.length_nil,
          List.length_singleton, hlost]
        omega
    · simp [hr.priv]

theorem Inv.bail (h : Inv s) (hpc : s.pc t = .killed r) : Inv (bail s t r) := by
  have hcaller : (s.pc t).caller = some r := congrArg Pc.caller hpc
  obtain ⟨v, hr⟩ := h.of_caller hcaller
  have hlive := hr.live_of_caller
  have hcount := hr.count hlive
  have hw := hr.waiting t rfl
  rw [hpc] at hw
  rw [Fuse.bail, State.touch_of_live hlive]
  split
  next hpend =>
    -- `FR_PENDING` and a waiting caller: the request is on the pending list
    obtain rfl : v = some .pending := by
      cases v with
      | none => simp [(hw.2 rfl).2] at hpend
      | some p =>
          have hf := hr.flight p rfl
          have hq := hf.pending.symm.trans hpend
          cases p with
          | pending => rfl
          | bgQueue => cases hw.1.symm.trans (hf.background true rfl)
          | task t' => cases hp : s.pc t' <;> simp [Place.stage, Pc.stage, hp, Stage.queued] at hq
          | _ => cases hq
    have htwo : 2 ≤ (s.req r).count := by
      rw [hcount]
      simp only [refs, Option.toList_some, List.length_singleton]
      omega
    have hbug : decide ((s.req r).count < 2) = false := decide_eq_false (by omega)
    have hintr : r ∉ s.interrupts := by
      intro hi
      rw [(hr.interrupts hi).1] at hpend
      cases hpend
    simp only [State.bugOn_false_of hbug]
    refine h.of_frame (((Frame.listDel r s).trans (.upd r _ _)).trans
        (.goto (.inr (Pc.req_of_caller hcaller)) (.inr rfl))) (((h.sound.listDel r).upd _).goto _)
      ⟨none, some t, hr.callerStep rfl ⟨rfl, rfl⟩ (.inl ⟨rfl, rfl⟩)
        (((hr.place.listDel h.sound (by simp)).upd _).goto (Pc.flight_of_caller hcaller)) ?_
        (by simp) ?_ (by simp) (fun hi => absurd hi hintr)
        (fun d hd => absurd hd (State.not_mem_io_listDel h.sound.io d)) ?_ (.inl rfl)⟩
    · refine ⟨iff_of_true hlive (refs_pos_of_caller _ _ _), fun _ => ?_⟩
      simp only [State.req_goto, State.req_upd_self, State.req_listDel, hcount]
      change refs _ _ _ - 1 = refs _ _ (s.lost.count r)
      simp only [refs, Option.toList_some, Option.toList_none, List.length_singleton,
        List.length_nil]
      omega
    · intro _
      simpa [CallerOk] using hw.1
    · simp [hr.priv]
  next =>
    exact h.wait hcaller rfl fun v hv => by rwa [hpc] at hv

/-! ### Interrupts -/

theorem Inv.queueIntr (h : Inv s) (hpc : s.pc t = .queueIntr r) :
    Inv (((s.touch r).queueInterrupt r).goto t (.testForce r)) := by
  have hcaller : (s.pc t).caller = some r := congrArg Pc.caller hpc
  obtain ⟨v, hr⟩ := h.of_caller hcaller
  have hw := hr.waiting t rfl
  rw [hpc] at hw
  have h' : Inv (s.queueInterrupt r) := by
    refine h.queueInterrupt hw.2.1 fun hfin => ?_
    cases v with
    | none =>
        rw [hw.2.2 rfl] at hfin
        cases hfin
    | some p => exact ⟨p, (hr.place p).mpr rfl⟩
  rw [State.touch_of_live hr.live_of_caller]
  refine h'.wait (by rwa [queueInterrupt_pc]) rfl fun v hv => ?_
  rw [queueInterrupt_pc, hpc] at hv
  exact ⟨hv.1, fun hnone => ⟨hv.2.2 hnone, hv.2.1⟩⟩

theorem Inv.devIntr (h : Inv s) (hpc : s.pc t = .devIntr r) :
    Inv (((s.touch r).queueInterrupt r).goto t .idle) := by
  have hborrow : (s.pc t).borrow = some r := congrArg Pc.borrow hpc
  obtain ⟨d, w, hr⟩ := h.of_borrow hborrow
  have hmem : s.Holds (.processing d) r := (hr.place _).mpr rfl
  have h' : Inv (s.queueInterrupt r) := by
    refine h.queueInterrupt ?_ fun _ => ⟨.processing d, hmem⟩
    rw [(hr.flight _ rfl).pending]
    rfl
  rw [State.touch_of_live hr.live_of_place]
  refine h'.goto_borrow (d := d) (r := r) ?_ (.inr (by rwa [queueInterrupt_pc])) (.inl rfl)
  rw [State.Holds, queueInterrupt_processing]
  exact hmem

/-! ### `fuse_dev_do_read` -/

theorem Inv.read (h : Inv s) (hpc : s.pc t = .idle) (hs : read s t d = some s') : Inv s' := by
  unfold Fuse.read at hs
  split at hs
  next r rest hpend =>
    split at hs
    next hguard =>
      have hmem : s.Holds .pending r := by simp [State.Holds, hpend]
      obtain ⟨w, hr⟩ := h.of_holds hmem
      have hf := hr.flight .pending rfl
      rw [State.touch_of_live hr.live_of_place] at hs
      cases hs
      have hloc := (hr.place.listDel h.sound (by simp)).goto_take (t := t) (p := .taken d r) rfl
      refine h.of_frame (((Frame.upd r s _).trans (.listDel r _)).trans
        (.goto (.inl (congrArg Pc.req hpc)) (.inr rfl))) (((h.sound.upd _).listDel r).goto _)
        ⟨_, w, hr.advance rfl (congrArg Pc.caller hpc) rfl hloc rfl rfl (by simp) (by simp)
          (by simp) (by simp) ?_ (.inr ⟨hr.not_borrow (by simp), by simp [Pc.borrow]⟩) ?_ ?_⟩
      · rw [State.stage_goto_self, State.req_goto, State.req_listDel, State.req_upd_self]
        exact .unsent (by rintro ⟨⟩) rfl hf.finished
          (hf.sent_eq_false (by rintro ⟨⟩) (by rintro ⟨⟩)) (by rintro _ ⟨⟩) hf.unanswered
      · intro hi
        cases hf.pending.symm.trans (hr.interrupts hi).1
      · intro d hd
        exact absurd hd (State.not_mem_io_listDel h.sound.io d)
    next => cases hs
  next => cases hs

/-- A task that has a request in hand goes on. -/
theorem Inv.goto_flight (h : Inv s) (hold : (s.pc t).flight = some r) (hnew : p.flight = some r)
    (hstage : FlightOk (s.pc t).stage (s.req r) → FlightOk p.stage (s.req r))
    (hun : (s.pc t).stage.unqueued = false → p.stage.unqueued = false)
    (hio : ∀ d, (s.pc t).onIo d r → p.onIo d r) : Inv (s.goto t p) := by
  obtain ⟨w, hr, hf⟩ := h.of_pc rfl hold
  refine h.of_frame (.goto (.inr (Pc.req_of_flight hold)) (.inr (Pc.req_of_flight hnew)))
    (h.sound.goto p) ⟨_, w, hr.advance rfl (Pc.caller_of_flight hold) (Pc.caller_of_flight hnew)
      (hr.place.goto (hold.trans hnew.symm)) rfl rfl rfl rfl id id ?_
      (.inr ⟨hr.not_borrow (by simp), by simp [Pc.borrow_of_flight hnew]⟩) ?_ ?_⟩
  · rw [State.stage_goto_self]
    exact hstage hf
  · intro hi
    obtain ⟨hpend, q, hq, hq'⟩ := hr.interrupts hi
    cases hq
    rw [State.stage_goto_self]
    exact ⟨hpend, hun hq'⟩
  · intro d hd
    obtain ⟨t', ht', ho⟩ := hr.io d hd
    cases ht'
    exact ⟨rfl, hio d ho⟩

theorem Inv.tooLarge (h : Inv s) (hpc : s.pc t = .taken d r) (setxattr : Bool) :
    Inv (tooLarge s t r setxattr) := by
  have hfl : (s.pc t).flight = some r := congrArg Pc.flight hpc
  rw [Fuse.tooLarge, State.touch_of_live (h.live_of_flight hfl)]
  generalize hs₁ : s.upd r (fun q => { q with error := if setxattr then -E2BIG else - EIO }) = s₁
  have h₁ : Inv s₁ := by
    rw [← hs₁]
    exact h.upd_same _ ⟨rfl, rfl, rfl, rfl, rfl, rfl, rfl, rfl⟩
  have hpc₁ : s₁.pc t = .taken d r := by rwa [← hs₁]
  refine h₁.goto_flight (congrArg Pc.flight hpc₁) rfl ?_ (fun _ => rfl) fun d hd => ?_
  · rw [hpc₁]
    intro hf
    exact .ending hf.pending hf.finished (hf.sent_eq_false (by rintro ⟨⟩) (by rintro ⟨⟩))
      (by rintro _ ⟨⟩)
  · simp [Pc.onIo, hpc₁] at hd

theorem Inv.startIo (h : Inv s) (hpc : s.pc t = .taken d r) : Inv (startIo s t d r) := by
  have hfl : (s.pc t).flight = some r := congrArg Pc.flight hpc
  obtain ⟨w, hr, hf⟩ := h.of_pc hpc rfl
  -- a request that was just taken is on no `io` list yet
  have hnone : ∀ d, r ∉ s.io d := by
    intro d hd
    obtain ⟨t', ht', ho⟩ := hr.io d hd
    cases ht'
    simp [Pc.onIo, hpc] at ho
  rw [Fuse.startIo, State.touch_of_live hr.live_of_place]
  refine h.of_frame ((Frame.addIo d s).trans (.goto (.inr (Pc.req_of_flight hfl)) (.inr rfl)))
    ((h.sound.addIo (hnone d)).goto _)
    ⟨_, w, hr.advance rfl (Pc.caller_of_flight hfl) rfl ((hr.place.addIo d).goto hfl) rfl rfl rfl
      rfl id id ?_ (.inr ⟨hr.not_borrow (by simp), by simp [Pc.borrow]⟩) ?_ ?_⟩
  · rw [State.stage_goto_self]
    exact hf
  · intro hi
    rw [State.stage_goto_self]
    exact ⟨(hr.interrupts hi).1, rfl⟩
  · intro d' hd
    by_cases hdd : d' = d
    · exact ⟨rfl, .inl (by rw [hdd])⟩
    · simp only [State.goto, State.addIo, Function.update_of_ne hdd] at hd
      exact absurd hd (hnone d')

omit [DecidableEq τ] in
theorem Inv.lockRequest (h : Inv s) (hfl : (s.pc t).flight = some r) : Inv (lockRequest s r) := by
  rw [Fuse.lockRequest, State.touch_of_live (h.live_of_flight hfl)]
  refine h.upd_same _ ?_
  split <;> exact ⟨rfl, rfl, rfl, rfl, rfl, rfl, rfl, rfl⟩

omit [DecidableEq τ] in
theorem Inv.unlockRequest (h : Inv s) (hfl : (s.pc t).flight = some r) :
    Inv (unlockRequest s r) := by
  rw [Fuse.unlockRequest, State.touch_of_live (h.live_of_flight hfl)]
  refine h.upd_same _ ?_
  split <;> exact ⟨rfl, rfl, rfl, rfl, rfl, rfl, rfl, rfl⟩

theorem Inv.outEnd (h : Inv s) (hpc : (s.pc t).onIo d r) : Inv (outEnd s t r) := by
  obtain ⟨w, hr, hf, hfl⟩ := h.of_io hpc
  rw [Fuse.outEnd, hr.priv]
  refine h.of_frame ((Frame.listDel r s).trans (.goto (.inr (Pc.req_of_flight hfl)) (.inr rfl)))
    ((h.sound.listDel r).goto _) ⟨_, w, hr.advance (o := .task t) rfl (Pc.caller_of_flight hfl) rfl
      ((hr.place.listDel_task h.sound).goto hfl) rfl rfl rfl rfl id id ?_
      (.inr ⟨hr.not_borrow (by simp), by simp [Pc.borrow]⟩) ?_ ?_⟩
  · rw [State.stage_goto_self]
    rcases hpc with hpc | hpc <;> rw [hpc] at hf <;>
      exact .ending hf.pending hf.finished (hf.sent_eq_false (by rintro ⟨⟩) (by rintro ⟨⟩))
        (by rintro _ ⟨⟩)
  · intro hi
    rw [State.stage_goto_self]
    exact ⟨(hr.interrupts hi).1, rfl⟩
  · intro d' hd
    exact absurd hd (State.not_mem_io_listDel h.sound.io d')

theorem Inv.copied (h : Inv s) (hpc : s.pc t = .copying d r) (ok : Bool) :
    Inv (copied s t d r ok) := by
  have hfl : (s.pc t).flight = some r := congrArg Pc.flight hpc
  have h₁ := h.upd_same (r := r) (fun q => { q with locked := false })
    ⟨rfl, rfl, rfl, rfl, rfl, rfl, rfl, rfl⟩
  have h₂ := h₁.upd_same (r := r) (fun q => { q with error := - EIO })
    ⟨rfl, rfl, rfl, rfl, rfl, rfl, rfl, rfl⟩
  rw [Fuse.copied, State.touch_of_live (h.live_of_flight hfl)]
  generalize hs₁ : s.upd r (fun q => { q with locked := false }) = s₁ at h₁ h₂
  have hpc₁ : s₁.pc t = .copying d r := by rwa [← hs₁]
  have hio : (s₁.pc t).onIo d r := .inl hpc₁
  split
  next => exact h₁.outEnd hio
  next =>
    split
    next => exact h₂.outEnd (d := d) (.inl hpc₁)
    next =>
      split
      next => exact h₁.outEnd hio
      next hreply =>
        obtain ⟨w, hr, hf⟩ := h₁.of_pc hpc₁ rfl
        have hfl₁ : (s₁.pc t).flight = some r := congrArg Pc.flight hpc₁
        have hnone : ∀ d, r ∉ s₁.processing d := by
          intro d' hm
          have hp := (hr.place (.processing d')).mp hm
          cases hp
        have hloc :=
          (hr.place.listDel_task h₁.sound).goto_drop (t := t) (p := .moved r) (by rintro ⟨⟩)
        have hin := (hloc.queueProcessing d)
        refine h₁.of_frame (((Frame.listDel r s₁).trans (.queueProcessing d _)).trans
            (.goto (.inr (Pc.req_of_flight hfl₁)) (.inr rfl)))
          (((h₁.sound.listDel r).queueProcessing (h₁.sound.processing d).not_mem_erase).goto _)
          ⟨_, w, hr.advance (o := .processing d) rfl (Pc.caller_of_flight hfl₁) rfl hin rfl rfl rfl
            rfl id id ?_ (.inl ⟨d, rfl⟩) ?_ ?_⟩
        · exact ⟨hf.pending, hf.finished, fun _ => .inr rfl, fun _ => by simpa using hreply,
            (by rintro _ ⟨⟩), hf.unanswered⟩
        · intro hi
          exact ⟨(hr.interrupts hi).1, rfl⟩
        · intro d' hd
          exact absurd hd (State.not_mem_io_listDel h₁.sound.io d')

theorem Inv.markSent (h : Inv s) (hpc : s.pc t = .moved r) : Inv (markSent s t r) := by
  have hb : (s.pc t).borrow = some r := congrArg Pc.borrow hpc
  obtain ⟨d, w, hr⟩ := h.of_borrow hb
  have hf : FlightOk .processing (s.req r) := hr.flight _ rfl
  rw [Fuse.markSent, State.touch_of_live hr.live_of_place]
  have hloc := (hr.place.upd fun q => { q with sent := true }).goto (t := t) (p := .sent r)
    (Pc.flight_of_borrow hb)
  refine h.of_frame ((Frame.upd r s _).trans (.goto (.inr (Pc.req_of_borrow hb)) (.inr rfl)))
    ((h.sound.upd _).goto _) ⟨_, w, hr.advance rfl (Pc.caller_of_borrow hb) rfl hloc rfl rfl
      (by simp) (by simp) (by simp) (by simp) ?_ (.inl ⟨d, rfl⟩) ?_ ?_⟩
  · rw [State.req_goto, State.req_upd_self]
    exact ⟨hf.pending, hf.finished, fun _ => .inr rfl, hf.isreply, (by rintro _ ⟨⟩), hf.unanswered⟩
  · intro _
    rw [State.req_goto, State.req_upd_self]
    exact ⟨hf.pending, rfl⟩
  · intro d' hd
    obtain ⟨t', ht', -⟩ := hr.io d' hd
    cases ht'

theorem Inv.testInterrupted (h : Inv s) (hpc : s.pc t = .sent r) :
    Inv (testInterrupted s t r) := by
  have hb : (s.pc t).borrow = some r := congrArg Pc.borrow hpc
  obtain ⟨d, w, hr⟩ := h.of_borrow hb
  have hmem : s.Holds (.processing d) r := (hr.place _).mpr rfl
  rw [Fuse.testInterrupted, State.touch_of_live hr.live_of_place]
  split
  · exact h.goto_borrow hmem (.inr hb) (.inr rfl)
  · exact h.goto_borrow hmem (.inr hb) (.inl rfl)

/-! ### `fuse_dev_do_write` -/

theorem Inv.write (h : Inv s) (hpc : s.pc t = .idle) {unique : ℕ} {error : ℤ}
    (htime : ∀ r, requestFind s d unique = some r → (s.req r).intrUnique ≠ unique →
      NotBorrowed s r) (hs : write s t d unique error = some s') : Inv s' := by
  have hreq : (s.pc t).req = none := congrArg Pc.req hpc
  unfold Fuse.write at hs
  split at hs
  next => cases hs
  next =>
    split at hs
    next => cases hs; exact h
    next =>
      split at hs
      next => cases hs; exact h
      next r hfind =>
        have hmem := requestFind_mem hfind
        obtain ⟨w, hr⟩ := h.of_holds hmem
        have hf : FlightOk .processing (s.req r) := hr.flight _ rfl
        rw [State.touch_of_live hr.live_of_place] at hs
        simp only at hs
        split at hs
        next =>
          cases hs
          exact h.goto_borrow hmem (.inl hreq) (.inr rfl)
        next hne =>
          cases hs
          have hb := htime r hfind hne
          have hloc := ((((hr.place.listDel h.sound (by simp)).addIo d).upd fun q =>
            { q with error, outUnique := unique, locked := true }).goto_take (t := t)
              (p := .replying d r) rfl)
          refine h.of_frame ((((((Frame.upd r s _).trans (.listDel r _)).trans (.addIo d _)).trans
              (.upd r _ _))).trans (.goto (.inl hreq) (.inr rfl)))
            (((((h.sound.upd _).listDel r).addIo (State.not_mem_io_listDel h.sound.io d)).upd
              _).goto _)
            ⟨_, w, hr.advance rfl (congrArg Pc.caller hpc) rfl hloc rfl rfl (by simp) (by simp)
              (by simp) (by simp) ?_ (.inr ⟨hb, by simp [Pc.borrow]⟩) ?_ ?_⟩
          · rw [State.stage_goto_self, State.req_goto, State.req_upd_self, State.req_addIo,
              State.req_listDel, State.req_upd_self]
            exact .unsent (by rintro ⟨⟩) hf.pending hf.finished rfl (by rintro _ ⟨⟩)
              (by rintro ⟨⟩)
          · intro hi
            rw [State.stage_goto_self, State.req_goto, State.req_upd_self, State.req_addIo,
              State.req_listDel, State.req_upd_self]
            exact ⟨hf.pending, rfl⟩
          · intro d' hd
            by_cases hdd : d' = d
            · exact ⟨rfl, .inr (by rw [hdd])⟩
            · simp only [State.goto, State.upd, State.addIo, Function.update_of_ne hdd] at hd
              exact absurd hd (State.not_mem_io_listDel h.sound.io d')

theorem Inv.interruptReply (h : Inv s) {error : ℤ} (hpc : s.pc t = .intrReply r error)
    (lenOk : Bool) : Inv (interruptReply s t r error lenOk) := by
  have hb : (s.pc t).borrow = some r := congrArg Pc.borrow hpc
  obtain ⟨d, w, hr⟩ := h.of_borrow hb
  have hmem : s.Holds (.processing d) r := (hr.place _).mpr rfl
  have h' : Inv { s with noInterrupt := true } := by
    refine h.of_frame_all (fun r => ?_) ⟨h.sound.bgQueue, h.sound.pending, h.sound.interrupts,
      h.sound.io, h.sound.processing, h.sound.toEnd1, h.sound.toEnd2, h.sound.fault⟩
    constructor <;> intros <;> rfl
  unfold Fuse.interruptReply
  split
  · exact h.goto_borrow hmem (.inr hb) (.inl rfl)
  · split
    · exact h'.goto_borrow hmem (.inr hb) (.inl rfl)
    · split
      · exact h.goto_borrow hmem (.inr hb) (.inr rfl)
      · exact h.goto_borrow hmem (.inr hb) (.inl rfl)

theorem Inv.wrote (h : Inv s) (hpc : s.pc t = .replying d r) (ok : Bool) :
    Inv (wrote s t d r ok) := by
  have hfl : (s.pc t).flight = some r := congrArg Pc.flight hpc
  have h₁ := h.upd_same (r := r) (fun q => { q with locked := false })
    ⟨rfl, rfl, rfl, rfl, rfl, rfl, rfl, rfl⟩
  rw [Fuse.wrote, State.touch_of_live (h.live_of_flight hfl)]
  split
  · exact (h₁.upd_same (r := r) (fun q => { q with error := - EIO })
      ⟨rfl, rfl, rfl, rfl, rfl, rfl, rfl, rfl⟩).outEnd (d := d) (.inr hpc)
  · exact h₁.outEnd (d := d) (.inr hpc)

/-! ### `request_end` -/

theorem Inv.finish (h : Inv s) {abort : Bool} (hpc : s.pc t = .ending .finish r abort) :
    Inv (finish s t r abort) := by
  have hfl : (s.pc t).flight = some r := congrArg Pc.flight hpc
  obtain ⟨w, hr, hf⟩ := h.of_pc hpc rfl
  have hfin : (s.req r).finished = false := hf.finished
  rw [Fuse.finish, State.touch_of_live hr.live_of_place]
  simp only [hfin, Bool.false_eq_true, if_false]
  have hloc := (hr.place.upd fun q => { q with finished := true }).goto (t := t)
    (p := .ending .unqueue r abort) hfl
  refine h.of_frame ((Frame.upd r s _).trans (.goto (.inr (Pc.req_of_flight hfl)) (.inr rfl)))
    ((h.sound.upd _).goto _) ⟨_, w, hr.advance (o := .task t) rfl (Pc.caller_of_flight hfl) rfl
      hloc rfl rfl (by simp) (by simp) (by simp) (by simp) ?_
      (.inr ⟨hr.not_borrow (by simp), by simp [Pc.borrow]⟩) ?_
      (fun d hd => absurd hd (hr.not_mem_io hpc d))⟩
  · rw [State.stage_goto_self, State.req_goto, State.req_upd_self]
    exact .ending hf.pending rfl (hf.sent_eq_false (by rintro ⟨⟩) (by rintro ⟨⟩)) (by rintro _ ⟨⟩)
  · intro _
    rw [State.stage_goto_self, State.req_goto, State.req_upd_self]
    exact ⟨hf.pending, rfl⟩

theorem Inv.unqueue (h : Inv s) {abort : Bool} (hpc : s.pc t = .ending .unqueue r abort) :
    Inv (unqueue s t r abort) := by
  have hfl : (s.pc t).flight = some r := congrArg Pc.flight hpc
  obtain ⟨w, hr, hf⟩ := h.of_pc hpc rfl
  have hpend : (s.req r).pending = false := hf.pending
  have hsent := hf.sent_eq_false (by rintro ⟨⟩) (by rintro ⟨⟩)
  rw [Fuse.unqueue, State.touch_of_live hr.live_of_place]
  simp only [State.req_setInterrupts, hpend, hsent, State.bugOn_false]
  have hnot : r ∉ s.interrupts.erase r := h.sound.interrupts.not_mem_erase
  refine h.of_frame ((Frame.setInterrupts fun y hy => List.mem_erase_of_ne hy).trans
      (.goto (.inr (Pc.req_of_flight hfl)) (.inr rfl)))
    ((h.sound.setInterrupts (h.sound.interrupts.erase r)).goto _)
    ⟨_, w, hr.advance (o := .task t) rfl (Pc.caller_of_flight hfl) rfl
      ((hr.place.setInterrupts _).goto hfl) rfl rfl rfl rfl id id ?_
      (.inr ⟨hr.not_borrow (by simp), by simp [Pc.borrow]⟩) (fun hi => absurd hi hnot)
      (fun d hd => absurd hd (hr.not_mem_io hpc d))⟩
  rw [State.stage_goto_self]
  change FlightOk (Pc.ending (if (s.req r).background then .account else .wake) r abort).stage
    (s.req r)
  -- the two branches of `if (test_bit(FR_BACKGROUND, &req->flags))`
  cases hbg : (s.req r).background with
  | true =>
      refine .ending hpend hf.finished hsent ?_
      intro b hb
      cases hb
      exact hbg
  | false =>
      refine .ending hpend hf.finished hsent ?_
      intro b hb
      cases hb
      exact hbg

theorem Inv.account (h : Inv s) {abort : Bool} (hpc : s.pc t = .ending .account r abort)
    (hs : account s t r abort = some s') : Inv s' := by
  have hfl : (s.pc t).flight = some r := congrArg Pc.flight hpc
  obtain ⟨w, hr, hf⟩ := h.of_pc hpc rfl
  unfold Fuse.account at hs
  rw [State.touch_of_live hr.live_of_place] at hs
  split at hs
  next => cases hs
  next =>
    cases hs
    refine h.of_frame (((Frame.upd r s _).trans (.uncount _ (some t))).trans
        (.goto (.inr (Pc.req_of_flight hfl)) (.inr rfl)))
      ((((h.sound.upd _).uncount (some t))).goto _)
      ⟨_, w, hr.advance (o := .task t) rfl (Pc.caller_of_flight hfl) rfl
        (((hr.place.upd _).uncount _).goto hfl) rfl rfl (by simp) (by simp) (by simp) (by simp) ?_
        (.inr ⟨hr.not_borrow (by simp), by simp [Pc.borrow]⟩)
        (fun hi => absurd hi (hr.not_mem_interrupts hpc rfl))
        (fun d hd => absurd hd (hr.not_mem_io hpc d))⟩
    rw [State.stage_goto_self, State.req_goto, State.req_uncount, State.req_upd_self]
    refine .ending hf.pending hf.finished (hf.sent_eq_false (by rintro ⟨⟩) (by rintro ⟨⟩)) ?_
    intro b hb
    cases hb
    rfl

/-- The end of `flush_bg_queue`. -/
theorem Inv.flushEnd (h : Inv s) (l : Option τ)
    (hpc : ((s.pc t).req = none ∧ p.req = none) ∨
      ∃ abort, s.pc t = .ending .flush r abort ∧ p = .ending .wake r abort) :
    Inv ({ s with fcLock := l }.goto t p) := by
  have h' : Inv { s with fcLock := l } :=
    h.of_frame_all (fun r => .setLock s l) (h.sound.setLock l)
  rcases hpc with ⟨hold, hnew⟩ | ⟨abort, hold, rfl⟩
  · exact h'.of_frame_all (fun r => .goto (.inl hold) (.inl hnew)) (h'.sound.goto p)
  · have hold' : State.pc { s with fcLock := l } t = .ending .flush r abort := hold
    refine h'.goto_flight (r := r) (congrArg Pc.flight hold) rfl ?_ ?_ fun d hd => ?_
    · rw [hold']
      intro hf
      refine .ending hf.pending hf.finished (hf.sent_eq_false (by rintro ⟨⟩) (by rintro ⟨⟩)) ?_
      intro b hb
      cases hb
      exact hf.background false rfl
    · rw [hold']
      exact id
    · rw [hold'] at hd
      rcases hd with hd | hd <;> cases hd

theorem Inv.flush (h : Inv s) (l : Option τ)
    (hpc : ((s.pc t).req = none ∧ p.req = none) ∨
      ∃ abort, s.pc t = .ending .flush r abort ∧ p = .ending .wake r abort) :
    Inv (flush s t p l) := by
  unfold Fuse.flush
  split
  next b rest hq =>
    split
    next =>
      have hmem : s.Holds .bgQueue b := by simp [State.Holds, hq]
      obtain ⟨w, hr⟩ := h.of_holds hmem
      have hf : FlightOk .bgQueue (s.req b) := hr.flight _ rfl
      rw [State.touch_of_live hr.live_of_place]
      have hcaller : (s.pc t).caller = none := by
        rcases hpc with ⟨hold, -⟩ | ⟨abort, hold, -⟩
        · exact (Pc.of_req_eq_none hold).1
        · exact congrArg Pc.caller hold
      have hintr : b ∉ s.interrupts := by
        intro hi
        cases hf.pending.symm.trans (hr.interrupts hi).1
      have hloc := (((hr.place.listDel h.sound (by simp)).setActive
        (s.activeBackground + 1)).assignUnique).queueRequest
      refine h.of_frame ((((Frame.listDel b s).trans (.setActive _ _)).trans
          (.assignUnique b _)).trans (.queueRequest b _))
        (((((h.sound.listDel b).setActive _).assignUnique).queueRequest
          h.sound.pending.not_mem_erase))
        ⟨_, w, hr.advance (q := s.pc t) (Function.update_eq_self t s.pc).symm hcaller hcaller hloc
          rfl rfl (by simp) (by simp) (by simp) (by simp) ?_
          (.inr ⟨hr.not_borrow (by simp), hr.not_borrow (by simp) t⟩)
          (fun hi => absurd hi hintr)
          (fun d hd => absurd hd (State.not_mem_io_listDel h.sound.io d))⟩
      rw [State.req_queueRequest, State.req_assignUnique_self, State.req_setActive,
        State.req_listDel]
      exact .unsent (by rintro ⟨⟩) hf.pending hf.finished (hf.sent_eq_false (by simp) (by simp))
        (by rintro _ ⟨⟩) hf.unanswered
    next => exact h.flushEnd l hpc
  next => exact h.flushEnd l hpc

theorem Inv.wake (h : Inv s) {abort : Bool} (hpc : s.pc t = .ending .wake r abort) :
    Inv (wake s t r abort) := by
  have hfl : (s.pc t).flight = some r := congrArg Pc.flight hpc
  obtain ⟨w, hr, hf⟩ := h.of_pc hpc rfl
  have hfin : (s.req r).finished = true := hf.finished
  have hpend : (s.req r).pending = false := hf.pending
  have hlive := hr.live_of_place
  rw [Fuse.wake, State.touch_of_live hlive]
  obtain ⟨heap, heq, hother, ⟨n, hn⟩, hheap⟩ := putRequest_eq hlive
  have hnew : (if abort then Pc.abortEnd else .idle).req = none := by split <;> rfl
  have hnew' := Pc.of_req_eq_none hnew
  have hcount := hr.putRequest (x := Fuse.endReturn { s with heap := heap } t abort) (a := none)
    (b := w) rfl rfl hheap (by simp [refs]; omega)
  rw [heq]
  refine h.of_frame ((Frame.setHeap hother).trans (.goto (.inr (Pc.req_of_flight hfl))
      (.inl hnew))) ((h.sound.setHeap heap).goto _) ⟨none, w, ?_, fun t' => ?_, hcount.1, hcount.2,
      (by simp), fun t' ht' => ?_, fun t' ht' => ?_,
      fun hi => absurd hi (hr.not_mem_interrupts hpc rfl),
      fun d hd => absurd hd (hr.not_mem_io hpc d), ?_, fun hl => by cases (hr.lost hl).1⟩
  · refine (hr.place.setHeap heap).goto_drop ?_
    rw [hnew'.2.1]
    simp
  · by_cases ht : t' = t
    · rw [ht, Fuse.endReturn, State.pc_goto_self, hnew'.1, ← hr.caller t,
        Pc.caller_of_flight hfl]
    · rw [Fuse.endReturn, State.pc_goto_of_ne ht]
      exact hr.caller t'
  · have hne : t' ≠ t := by
      intro he
      have hc := (hr.caller t').mpr ht'
      rw [he, Pc.caller_of_flight hfl] at hc
      cases hc
    rw [Fuse.endReturn, State.pc_goto_of_ne hne]
    have hw := hr.waiting t' ht'
    change CallerOk none (heap.mem r) (s.pc t')
    rw [hn]
    -- the request is finished and was taken off the pending list long ago
    unfold CallerOk at hw ⊢
    split at hw <;> simp_all
  · by_cases ht : t' = t
    · rw [ht, Fuse.endReturn, State.pc_goto_self, hnew'.2.2] at ht'
      cases ht'
    · rw [Fuse.endReturn, State.pc_goto_of_ne ht] at ht'
      exact absurd ht' (hr.not_borrow (by simp) t')
  · change (heap.mem r).priv = false
    rw [hn]
    exact hr.priv

/-! ### `fuse_abort_conn` -/

theorem Inv.abort (h : Inv s) (hpc : s.pc t = .idle) (hs : abort s t = some s') : Inv s' := by
  unfold Fuse.abort at hs
  split at hs
  next => cases hs
  next =>
    split at hs
    next =>
      cases hs
      refine h.of_frame_all (fun r => ?_) ⟨h.sound.bgQueue, h.sound.pending, h.sound.interrupts,
        h.sound.io, h.sound.processing, h.sound.toEnd1, h.sound.toEnd2, h.sound.fault⟩
      have hframe :
          Frame r s { s with connected := false, blocked := false, fcLock := some t } := by
        constructor <;> intros <;> rfl
      exact hframe.trans (.goto (.inl (congrArg Pc.req hpc)) (.inl rfl))
    next => cases hs; exact h

theorem Inv.abortEnd (h : Inv s) (hpc : s.pc t = .abortEnd) : Inv (abortEnd s t) := by
  have hreq : (s.pc t).req = none := congrArg Pc.req hpc
  unfold Fuse.abortEnd
  rw [h.sound.toEnd1]
  split
  next heq => cases heq
  next r rest _ hend =>
    have hmem : s.Holds .toEnd r := by simp [State.Holds, hend]
    obtain ⟨w, hr⟩ := h.of_holds hmem
    have hf : FlightOk .toEnd (s.req r) := hr.flight _ rfl
    rw [State.touch_of_live hr.live_of_place]
    have hloc := ((hr.place.upd fun q => { q with error := -ECONNABORTED, sent := false }).listDel
      (h.sound.upd _) (by simp)).goto_take (t := t) (p := .ending .finish r true) rfl
    refine h.of_frame (((Frame.upd r s _).trans (.listDel r _)).trans
        (.goto (.inl hreq) (.inr rfl))) (((h.sound.upd _).listDel r).goto _)
      ⟨_, w, hr.advance rfl (congrArg Pc.caller hpc) rfl hloc rfl rfl (by simp) (by simp)
        (by simp) (by simp) ?_ (.inr ⟨hr.not_borrow (by simp), by simp [Pc.borrow]⟩) ?_ ?_⟩
    · rw [State.stage_goto_self, State.req_goto, State.req_listDel, State.req_upd_self]
      exact .ending hf.pending hf.finished rfl (by rintro _ ⟨⟩)
    · intro _
      rw [State.stage_goto_self, State.req_goto, State.req_listDel, State.req_upd_self]
      exact ⟨hf.pending, rfl⟩
    · intro d hd
      exact absurd hd (State.not_mem_io_listDel h.sound.io d)
  next => exact h.of_frame_all (fun r => .goto (.inl hreq) (.inl rfl)) (h.sound.goto _)

/-- A step of a task that is concerned with no request. -/
theorem Inv.goto_none (h : Inv s) (hold : (s.pc t).req = none) (hnew : p.req = none) :
    Inv (s.goto t p) :=
  h.of_frame_all (fun _ => .goto (.inl hold) (.inl hnew)) (h.sound.goto p)

theorem Inv.abortDev (h : Inv s) {ds : List Dev} (hpc : s.pc t = .abortDev ds)
    (hlocked : ∀ d, ds.head? = some d → ∀ r ∈ s.io d, (s.req r).locked = true)
    (hnb : ∀ d, ds.head? = some d → ∀ r ∈ s.processing d, NotBorrowed s r) :
    Inv (abortDev s t ds) := by
  have hreq : (s.pc t).req = none := congrArg Pc.req hpc
  cases ds with
  | nil =>
      have h' : Inv { s with maxBackground := UINT_MAX } :=
        h.of_frame_all (fun r => by constructor <;> intros <;> rfl)
          ⟨h.sound.bgQueue, h.sound.pending, h.sound.interrupts, h.sound.io, h.sound.processing,
            h.sound.toEnd1, h.sound.toEnd2, h.sound.fault⟩
      exact h'.goto_none hreq rfl
  | cons d ds =>
      have hlocked := hlocked d rfl
      have hnb := hnb d rfl
      have hunlocked : (s.io d).filter (fun r => !(s.req r).locked) = [] := by
        rw [List.filter_eq_nil_iff]
        intro r hr
        simp [hlocked r hr]
      have hlive : ∀ r ∈ s.io d, s.heap.Live r := by
        intro r hr
        obtain ⟨v, w, hok⟩ := h.req r
        obtain ⟨t', rfl, -⟩ := hok.io d hr
        exact hok.live_of_place
      rw [Fuse.abortDev, State.touchAll_of_live hlive, hunlocked]
      have h₁ := h.updAll_same (s.io d) Req.abortIo fun r hr => by
        refine ⟨rfl, rfl, rfl, rfl, rfl, ?_, rfl, rfl⟩
        simp [Req.abortIo, hlocked r hr]
      have hnb₁ : ∀ r ∈ (s.updAll (s.io d) Req.abortIo).processing d,
        NotBorrowed (s.updAll (s.io d) Req.abortIo) r := hnb
      have hreq₁ : ((s.updAll (s.io d) Req.abortIo).pc t).req = none := hreq
      generalize s.updAll (s.io d) Req.abortIo = s₁ at h₁ hnb₁ hreq₁
      refine Inv.goto_none (s := { s₁ with
        pqConnected := Function.update s₁.pqConnected d false
        io := Function.update s₁.io d ((s₁.io d).filter fun r => r ∉ ([] : List ReqId))
        toEnd1 := [].reverse ++ s₁.toEnd1
        toEnd2 := s₁.processing d ++ s₁.toEnd2
        processing := Function.update s₁.processing d [] }) ?_ hreq₁ rfl
      have hso := h₁.sound
      refine h₁.splice ⟨hso.bgQueue, hso.pending, hso.interrupts, ?_, fun d' => ?_,
          hso.toEnd1, ?_, hso.fault⟩ (k := .processing d) (by simp) rfl rfl rfl rfl ?_ ?_
        (fun r _ => rfl) ?_ ?_ ?_ hnb₁ ?_
      · simpa using hso.io
      · by_cases hd : d' = d
        · simp [hd]
        · simpa [Function.update_of_ne hd] using hso.processing d'
      · exact h₁.nodup_append (p := .processing d) (o := .toEnd) (by simp) (fun _ => Iff.rfl)
          (fun _ => Iff.rfl) (hso.processing d) hso.toEnd2
      · simp
      · intro r hr
        obtain ⟨w, hok⟩ := h₁.of_holds hr
        have hpend : (s₁.req r).pending = false := (hok.flight _ rfl).pending
        change s₁.req r = _
        rw [← hpend]
      · intro r
        simp [State.Holds]
      · intro r
        simp [State.Holds]
      · intro q r hq hq'
        cases q with
        | processing d' =>
            have hd : d' ≠ d := fun he => hq (by rw [he])
            simp [State.Holds, Function.update_of_ne hd]
        | toEnd => exact absurd rfl hq'
        | _ => exact Iff.rfl
      · intro r hr
        obtain ⟨w, hok⟩ := h₁.of_holds hr
        exact (hok.flight _ rfl).finished

theorem Inv.abortSplice (h : Inv s) (hpc : s.pc t = .abortSplice) : Inv (abortSplice s t) := by
  have hreq : (s.pc t).req = none := congrArg Pc.req hpc
  have hso := h.sound
  have hmem : ∀ r, r ∈ s.pending ++ s.toEnd2 ↔ s.Holds .pending r ∨ s.Holds .toEnd r := fun r =>
    List.mem_append
  have hlive : ∀ r ∈ s.pending ++ s.toEnd2, s.heap.Live r := by
    intro r hr
    rcases (hmem r).mp hr with hp | hp
    · obtain ⟨w, hok⟩ := h.of_holds hp
      exact hok.live_of_place
    · obtain ⟨w, hok⟩ := h.of_holds hp
      exact hok.live_of_place
  rw [Fuse.abortSplice, State.touchAll_of_live hlive]
  have hupd : ∀ r, (s.updAll (s.pending ++ s.toEnd2) fun q => { q with pending := false }).req r =
      if r ∈ s.pending ++ s.toEnd2 then { s.req r with pending := false } else s.req r := fun r =>
    rfl
  refine Inv.goto_none ?_ hreq rfl
  refine h.splice ⟨hso.bgQueue, List.nodup_nil, hso.interrupts, hso.io, hso.processing, hso.toEnd1,
      ?_, hso.fault⟩ (k := .pending) (by simp) rfl rfl rfl rfl rfl ?_ ?_ ?_ (by rintro _ ⟨⟩)
    ?_ ?_ ?_
  · exact h.nodup_append (p := .pending) (o := .toEnd) (by simp) (fun _ => Iff.rfl)
      (fun _ => Iff.rfl) hso.pending hso.toEnd2
  · intro r hr
    exact (hupd r).trans (if_pos ((hmem r).mpr (.inl hr)))
  · intro r hr
    refine (hupd r).trans ?_
    split
    next hm =>
      -- a request that waited on `to_end2` already has its flag clear
      obtain ⟨w, hok⟩ := h.of_holds (((hmem r).mp hm).resolve_left hr)
      have hpend : (s.req r).pending = false := (hok.flight _ rfl).pending
      rw [← hpend]
    next => rfl
  · exact hmem
  · intro q r hq hq'
    cases q with
    | pending => exact absurd rfl hq
    | toEnd => exact absurd rfl hq'
    | _ => exact Iff.rfl
  · intro r hr t'
    obtain ⟨w, hok⟩ := h.of_holds hr
    exact hok.not_borrow (by simp) t'
  · intro r hr
    obtain ⟨w, hok⟩ := h.of_holds hr
    exact (hok.flight _ rfl).finished

/-! ### Runs -/

/-- What the model expects of the environment of a step.

* A caller uses the function that fits `FR_BACKGROUND`, as the two `BUG_ON`s demand.
* The answer to a request comes when the read that delivered the request is over.
* No answer to an interrupt of the request is under way then.
* `fuse_abort_conn` finds no request on an `io` list unlocked.
* It finds no request on a processing list that a read or an answer to an interrupt still has in
  hand. -/
def Fits (s : State τ) (e : Event τ) : Prop :=
  match e.op, s.pc e.task with
  | .requestSend _, .got r => (s.req r).background = false
  | .sendBackground, .got r => (s.req r).background = true
  | .sendNotifyReply _, .got r => (s.req r).background = false
  | .write d unique _, .idle =>
      (requestFind s d unique).elim True fun r =>
        (s.req r).intrUnique = unique ∨ NotBorrowed s r
  | .abortDev, .abortDev (d :: _) =>
      (∀ r ∈ s.io d, (s.req r).locked = true) ∧ ∀ r ∈ s.processing d, NotBorrowed s r
  | _, _ => True

omit [DecidableEq τ] in
theorem Inv.setBackground (h : Inv s) (hpc : s.pc t = .got r) :
    Inv ((s.touch r).upd r fun q => { q with background := true }) := by
  obtain ⟨hr, hpend, hfin, hsent, hout⟩ := h.of_got hpc
  obtain ⟨-, hintr, hio⟩ := hr.unknown
  have hlive := hr.live_of_caller
  rw [State.touch_of_live hlive]
  refine h.of_frame (.upd r s _) (h.sound.upd _) ⟨none, some t, hr.place, hr.caller, hr.live,
    fun hl => ?_, (by simp), fun t' ht' => ?_, hr.borrow, fun hi => absurd hi hintr,
    fun d hd => absurd hd (hio d), ?_, fun hl => by cases (hr.lost hl).2.1⟩
  · rw [State.req_upd_self]
    exact hr.count hl
  · cases ht'
    change CallerOk none _ (s.pc t)
    rw [hpc, State.req_upd_self]
    exact ⟨rfl, hpend, hfin, hsent, hout⟩
  · rw [State.req_upd_self]
    exact hr.priv

theorem Inv.getReq (h : Inv s) {background : Bool} (hpc : s.pc t = .getting background)
    {r : Option ReqId} {force : Bool} (hs : getReq s t r background force = some s') : Inv s' := by
  have hreq : (s.pc t).req = none := congrArg Pc.req hpc
  unfold Fuse.getReq at hs
  split at hs
  next r =>
    split at hs
    next => exact h.requestAlloc hreq hs
    next => cases hs
  next =>
    cases hs
    exact h.goto_none hreq rfl

/-- One step of a task keeps the invariant. -/
theorem Inv.step (h : Inv s) {e : Event τ} (hfit : Fits s e)
    (hs : taskStep s e.task e.op = some s') : Inv s' := by
  obtain ⟨t, op⟩ := e
  unfold Fits at hfit
  simp only at hs hfit
  cases taskStep_cases hs with
  | blockAlloc _ hpc hs' =>
      unfold blockAlloc at hs'
      split at hs' <;> cases hs'
      exact h.goto_none (congrArg Pc.req hpc) rfl
  | getReq _ _ _ hpc hs' => exact h.getReq hpc hs'
  | requestAlloc _ _ hpc hs' => exact h.requestAlloc (congrArg Pc.req hpc) hs'
  | setBackground _ hpc hs' => subst hs'; exact h.setBackground hpc
  | putRequest _ hpc hs' => subst hs'; exact h.putRequest hpc
  | requestSend _ _ hpc hs' =>
      subst hs'
      rw [hpc] at hfit
      exact h.requestSend hpc hfit _
  | sendBackground _ hpc hs' =>
      rw [hpc] at hfit
      exact h.requestSendBackground hpc hfit hs'
  | sendNotifyReply _ _ hpc hs' =>
      subst hs'
      rw [hpc] at hfit
      exact h.requestSendNotifyReply hpc hfit _
  | waitAnswer _ hpc hs' => subst hs'; exact h.waitAnswer hpc
  | signal _ hpc hs' => subst hs'; exact h.markInterrupted hpc
  | testSent _ hpc hs' => subst hs'; exact h.testSent hpc
  | queueIntr _ hpc hs' => subst hs'; exact h.queueIntr hpc
  | devIntr _ hpc hs' => subst hs'; exact h.devIntr hpc
  | testForce _ hpc hs' => subst hs'; exact h.testForce hpc
  | kill _ hpc hs' => subst hs'; exact h.kill hpc
  | bail _ hpc hs' => subst hs'; exact h.bail hpc
  | woken _ hpc hs' => exact h.woken hpc hs'
  | readInterrupt _ hs' => exact h.readInterrupt hs'
  | readForget _ _ => rw [taskStep_readForget hs]; exact h.getUnique
  | read _ hpc hs' => exact h.read hpc hs'
  | tooLarge _ _ _ hpc hs' => subst hs'; exact h.tooLarge hpc _
  | startIo _ _ hpc hs' => subst hs'; exact h.startIo hpc
  | lockRequest _ _ hpc hs' =>
      subst hs'
      exact h.lockRequest (hpc.elim (congrArg Pc.flight) (congrArg Pc.flight))
  | unlockRequest _ _ hpc hs' =>
      subst hs'
      exact h.unlockRequest (hpc.elim (congrArg Pc.flight) (congrArg Pc.flight))
  | copied _ _ _ hpc hs' => subst hs'; exact h.copied hpc _
  | markSent _ hpc hs' => subst hs'; exact h.markSent hpc
  | testInterrupted _ hpc hs' => subst hs'; exact h.testInterrupted hpc
  | write _ _ _ hpc hs' =>
      rw [hpc] at hfit
      refine h.write hpc (fun r hfind hne => ?_) hs'
      simpa [hfind, hne] using hfit
  | interruptReply _ _ _ hpc hs' => subst hs'; exact h.interruptReply hpc _
  | wrote _ _ _ hpc hs' => subst hs'; exact h.wrote hpc _
  | finish _ _ hpc hs' => subst hs'; exact h.finish hpc
  | unqueue _ _ hpc hs' => subst hs'; exact h.unqueue hpc
  | account _ _ hpc hs' => exact h.account hpc hs'
  | flush _ _ hpc hs' =>
      subst hs'
      generalize hp : s.pc t = p at hpc
      cases hpc with
      | ending r abort => exact h.flush none (.inr ⟨abort, hp, rfl⟩)
      | send => exact h.flush (r := 0) none (.inl ⟨congrArg Pc.req hp, rfl⟩)
      | abort => exact h.flush (r := 0) s.fcLock (.inl ⟨congrArg Pc.req hp, rfl⟩)
  | wake _ _ hpc hs' => subst hs'; exact h.wake hpc
  | abort hpc hs' => exact h.abort hpc hs'
  | abortDev ds hpc hs' =>
      subst hs'
      rw [hpc] at hfit
      refine h.abortDev hpc ?_ ?_
      · intro d hd
        cases ds with
        | nil => cases hd
        | cons d' ds => cases hd; exact hfit.1
      · intro d hd
        cases ds with
        | nil => cases hd
        | cons d' ds => cases hd; exact hfit.2
  | abortSplice hpc hs' => subst hs'; exact h.abortSplice hpc
  | abortEnd hpc hs' => subst hs'; exact h.abortEnd hpc
  | setMaxBackground _ _ hs' | setCongestionThreshold _ _ hs' => subst hs'; exact h.setLimits _ _

/-- A run in which the environment does what the model expects. -/
def FittingRun (s₀ : State τ) (es : List (Event τ)) (s : State τ) : Prop :=
  (conn τ).run s₀ es = some s ∧ (conn τ).Respects Fits s₀ es

theorem FittingRun.inv {devices : List Dev} {m c : ℕ} {b : Bool} {es : List (Event τ)}
    (h : FittingRun (connection devices m c b) es s) : Inv s :=
  h.2.invariant (fun _ _ _ hfit hinv hs => hinv.step hfit hs) h.1 (inv_connection devices m c b)

/-- What holds at first and is kept by the steps of the connection holds along a run. -/
theorem FittingRun.history {P : List (Event τ) → State τ → Prop} {devices : List Dev} {m c : ℕ}
    {b : Bool} {es : List (Event τ)} (h : FittingRun (connection devices m c b) es s)
    (hnil : P [] (connection devices m c b))
    (hsnoc : ∀ es s e s', (conn τ).run (connection devices m c b) es = some s → Inv s → Fits s e →
      P es s → taskStep s e.task e.op = some s' → P (es ++ [e]) s') : P es s :=
  h.2.history hnil (fun es c e d hrun hg hfit hP hs =>
    hsnoc es c e d hrun (FittingRun.inv ⟨hrun, hg⟩) hfit hP hs) h.1

/-- Somebody has a pointer to the request. -/
def State.Refers (s : State τ) (r : ReqId) : Prop :=
  (∃ p, s.Holds p r) ∨ (∃ t, (s.pc t).req = some r) ∨ r ∈ s.interrupts ∨ ∃ d, r ∈ s.io d

theorem Pc.req_cases {p : Pc} {r : ReqId} (h : p.req = some r) :
    p.caller = some r ∨ p.flight = some r ∨ p.borrow = some r := by
  cases p <;> simp_all [req, caller, flight, borrow]

omit [DecidableEq τ] in
theorem Inv.live_of_refers (h : Inv s) (hr : s.Refers r) : s.heap.Live r := by
  obtain ⟨v, w, hok⟩ := h.req r
  rcases hr with ⟨p, hp⟩ | ⟨t, ht⟩ | hi | ⟨d, hd⟩
  · obtain ⟨w, hok⟩ := h.of_holds hp
    exact hok.live_of_place
  · rcases Pc.req_cases ht with ht | ht | ht
    · exact h.live_of_caller ht
    · exact h.live_of_flight ht
    · obtain ⟨d, w, hok⟩ := h.of_borrow ht
      exact hok.live_of_place
  · obtain ⟨-, p, rfl, -⟩ := hok.interrupts hi
    exact hok.live_of_place
  · obtain ⟨t, rfl, -⟩ := hok.io d hd
    exact hok.live_of_place

/-- A request is on one list or in the hands of one task, it has one caller at most, and its count
is the number of these references and of the lost ones. -/
theorem request_refcount {devices : List Dev} {m c : ℕ} {b : Bool} {es : List (Event τ)}
    (h : FittingRun (connection devices m c b) es s) (r : ReqId) :
    ∃ (v : Option (Place τ)) (w : Option τ), (∀ p, s.Holds p r ↔ v = some p) ∧
      (∀ t, (s.pc t).caller = some r ↔ w = some t) ∧
      (s.heap.Live r ↔ 0 < refs v w (s.lost.count r)) ∧
      (s.heap.Live r → (s.req r).count = refs v w (s.lost.count r)) := by
  obtain ⟨v, w, hr⟩ := h.inv.req r
  exact ⟨v, w, hr.place, hr.caller, hr.live, hr.count⟩

/-! ### A run -/

section decidable

variable [Fintype τ]

instance (s : State τ) (r : ReqId) : Decidable (NotBorrowed s r) :=
  inferInstanceAs (Decidable (∀ t, (s.pc t).borrow ≠ some r))

/-- `Fits` as a function. -/
def fits (s : State τ) (e : Event τ) : Bool :=
  match e.op, s.pc e.task with
  | .requestSend _, .got r => (s.req r).background = false
  | .sendBackground, .got r => (s.req r).background = true
  | .sendNotifyReply _, .got r => (s.req r).background = false
  | .write d unique _, .idle =>
      (requestFind s d unique).elim true fun r =>
        (s.req r).intrUnique = unique ∨ NotBorrowed s r
  | .abortDev, .abortDev (d :: _) =>
      (∀ r ∈ s.io d, (s.req r).locked = true) ∧ ∀ r ∈ s.processing d, NotBorrowed s r
  | _, _ => true

omit [DecidableEq τ] in
theorem fits_iff (s : State τ) (e : Event τ) : fits s e = true ↔ Fits s e := by
  unfold fits Fits
  split
  · simp
  · simp
  · simp
  · cases requestFind s _ _ <;> simp
  · simp
  · simp

instance (s : State τ) (e : Event τ) : Decidable (Fits s e) :=
  decidable_of_iff _ (fits_iff s e)

end decidable

omit [DecidableEq τ] in
/-- A request from its allocation to its end: `t` wants the answer, `u` is the daemon. -/
def answeredRun (t u : τ) : List (Event τ) :=
  [⟨t, .blockAlloc false⟩, ⟨t, .getReq (some 7) false⟩, ⟨t, .requestSend true⟩, ⟨t, .waitAnswer⟩,
    ⟨u, .read 0⟩, ⟨u, .startIo⟩, ⟨u, .lockRequest⟩, ⟨u, .copied true⟩, ⟨u, .markSent⟩,
    ⟨u, .testInterrupted⟩, ⟨u, .write 0 1 0⟩, ⟨u, .wrote true⟩, ⟨u, .finish⟩, ⟨t, .woken⟩,
    ⟨u, .unqueue⟩, ⟨u, .wake⟩, ⟨t, .putRequest⟩]

theorem fittingRun_answered : ∃ s : State (Fin 2),
    FittingRun (connection [0] 12 9 true) (answeredRun 0 1) s := by
  have hrun : ((conn (Fin 2)).run (connection [0] 12 9 true) (answeredRun 0 1)).isSome := by
    decide +kernel
  obtain ⟨s, hs⟩ := Option.isSome_iff_exists.mp hrun
  exact ⟨s, hs, by decide +kernel⟩

theorem request_refcount_answered : ∃ s : State (Fin 2),
    FittingRun (connection [0] 12 9 true) (answeredRun 0 1) s ∧
    ∃ (v : Option (Place (Fin 2))) (w : Option (Fin 2)), (∀ p, s.Holds p 7 ↔ v = some p) ∧
      (∀ t, (s.pc t).caller = some 7 ↔ w = some t) ∧
      (s.heap.Live 7 ↔ 0 < refs v w (s.lost.count 7)) ∧
      (s.heap.Live 7 → (s.req 7).count = refs v w (s.lost.count 7)) := by
  obtain ⟨s, hs⟩ := fittingRun_answered
  exact ⟨s, hs, request_refcount hs 7⟩

end KernelMemo.Fuse
