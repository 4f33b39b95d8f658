import KernelMemo.Fuse.RequestNumbers
import Mathlib.Data.List.Perm.Subperm

/-! # Background requests

`num_background` is the number of background requests in flight, and `active_background` the
number of those that have left the background queue.  A request is counted from
`fuse_request_send_background` on, until `request_end` clears its `FR_BACKGROUND`. -/

namespace KernelMemo.Fuse

variable {τ : Type*} [DecidableEq τ] {s s' : State τ} {r : ReqId} {t : τ}

/-- A background request in flight. -/
def State.Counted (s : State τ) (r : ReqId) : Prop :=
  (s.req r).background = true ∧ ∃ p, s.Holds p r

omit [DecidableEq τ] in
theorem CallerOk.foreground {v : Option (Place τ)} {q : Req} {p : Pc} (h : CallerOk v q p)
    (hp : ∀ r, p ≠ .got r) : q.background = false := by
  unfold CallerOk at h
  split at h
  next r => exact absurd rfl (hp r)
  next => exact h
  next => exact h.1
  next => exact h.1

omit [DecidableEq τ] in
/-- A background request is in flight from `fuse_request_send_background` to its end. -/
theorem Inv.counted_iff (h : Inv s) :
    s.Counted r ↔ s.heap.Live r ∧ (s.req r).background = true ∧ ∀ t, s.pc t ≠ .got r := by
  obtain ⟨v, w, hr⟩ := h.req r
  constructor
  · rintro ⟨hbg, p, hp⟩
    obtain rfl := (hr.place p).mp hp
    refine ⟨hr.live_of_place, hbg, fun t ht => ?_⟩
    exact by cases ((h.of_got ht).1.place p).mp hp
  · rintro ⟨hlive, hbg, hgot⟩
    refine ⟨hbg, ?_⟩
    have hpos := hr.live.mp hlive
    cases v with
    | some p => exact ⟨p, (hr.place p).mpr rfl⟩
    | none =>
        cases w with
        | none =>
            have hlost : 0 < s.lost.count r := by simpa [refs] using hpos
            rw [(hr.lost hlost).2.2] at hbg
            cases hbg
        | some t =>
            have hc := (hr.caller t).mpr rfl
            have hw := (hr.waiting t rfl).foreground fun y hy => by
              rw [hy] at hc
              cases hc
              exact hgot t hy
            rw [hbg] at hw
            cases hw

omit [DecidableEq τ] in
theorem Frame.counted {y : ReqId} (hf : Frame r s s') (hy : y ≠ r) :
    s'.Counted y ↔ s.Counted y := by
  rw [State.Counted, State.Counted, hf.req y hy]
  exact and_congr_right fun _ => exists_congr fun p => hf.holds hy p

/-- Only an allocation gives a task a request to send. -/
theorem got_of_got (hs : taskStep s t op = some s') {t' : τ} (hborn : s.heap.life r ≠ .unborn)
    (hpc : s'.pc t' = .got r) : s.pc t' = .got r := by
  rcases taskStep_moves hs with hsame | ⟨q, hgo, hsame⟩
  · rwa [hsame] at hpc
  · by_cases ht : t' = t
    · subst ht
      rw [hsame, Function.update_self] at hpc
      subst hpc
      generalize s.pc t' = p at hgo
      cases hgo with
      | getReq _ b force =>
          obtain ⟨b, -, hs⟩ := taskStep_getReq hs
          unfold getReq at hs
          simp only at hs
          split at hs
          · exact absurd (requestAlloc_eq hs).1 hborn
          · cases hs
      | requestAlloc _ force =>
          exact absurd (requestAlloc_eq (taskStep_requestAlloc hs).2).1 hborn
    · rwa [hsame, Function.update_of_ne ht] at hpc

theorem got_stays {op : Op} (hfit : Fits s ⟨t, op⟩) (hs : taskStep s t op = some s')
    (hput : op ≠ .putRequest) (hsend : op ≠ .sendBackground) {t' : τ}
    (hbg : (s.req r).background = true) (hpc : s.pc t' = .got r) : s'.pc t' = .got r := by
  rcases taskStep_moves hs with hsame | ⟨q, hgo, hsame⟩
  · rwa [hsame]
  · by_cases ht : t' = t
    · subst ht
      rw [hpc] at hgo
      cases hgo with
      | putGot => exact absurd rfl hput
      | sendBackground => exact absurd rfl hsend
      | sendBackgroundFail => exact absurd rfl hsend
      | _ =>
          simp only [Fits, hpc] at hfit
          cases hfit.symm.trans hbg
    · rwa [hsame, Function.update_of_ne ht]

/-- A step keeps the background requests in flight, but for the ways in and out. -/
theorem counted_same {op : Op} (h : Inv s) (h' : Inv s') (hfit : Fits s ⟨t, op⟩)
    (hs : taskStep s t op = some s') (hput : op ≠ .putRequest) (hsend : op ≠ .sendBackground)
    (hacc : op ≠ .account) (r : ReqId) : s'.Counted r ↔ s.Counted r := by
  rw [h.counted_iff, h'.counted_iff]
  by_cases hborn : s.heap.life r = .unborn
  · -- a new request is not sent yet
    refine iff_of_false ?_ fun hc => by cases hborn.symm.trans hc.1
    rintro ⟨hlive, -, hgot⟩
    cases taskStep_life hs with
    | same hlife =>
        rw [Heap.Live, hlife, hborn] at hlive
        cases hlive
    | alloc y b c hy hlife hreq hpc =>
        by_cases hry : r = y
        · exact hgot t (hry ▸ hpc)
        · rw [Heap.Live, hlife, Function.update_of_ne hry, hborn] at hlive
          cases hlive
    | free y hy hlife =>
        by_cases hry : r = y
        · rw [Heap.Live, hlife, hry, Function.update_self] at hlive
          cases hlive
        · rw [Heap.Live, hlife, Function.update_of_ne hry, hborn] at hlive
          cases hlive
  · by_cases hset : op = .setBackground
    · subst hset
      obtain ⟨y, hpc, rfl⟩ := taskStep_setBackground hs
      by_cases hry : r = y
      · subst hry
        exact iff_of_false (fun hc => hc.2.2 t hpc) fun hc => hc.2.2 t hpc
      · have hreq := (Frame.upd y (s.touch y) fun q => { q with background := true }).req r hry
        rw [hreq]
        rfl
    · have hkeep : (s'.req r).background = (s.req r).background :=
        Keeps.background (taskStep_keeps hs (by cases op <;> simp_all [Op.writes])) hborn
      rw [hkeep]
      cases hbg : (s.req r).background with
      | false => simp
      | true =>
          have hgot : (∀ t', s'.pc t' ≠ .got r) ↔ ∀ t', s.pc t' ≠ .got r := by
            refine forall_congr' fun t' => not_congr ⟨got_of_got hs hborn, ?_⟩
            exact got_stays hfit hs hput hsend hbg
          rw [hgot]
          refine and_congr_left fun hflight => ?_
          obtain ⟨-, hno⟩ := hflight
          cases taskStep_life hs with
          | same hlife => rw [Heap.Live, hlife]
          | alloc y b c hy hlife hreq hpc =>
              have hry : r ≠ y := fun hry => hborn (hry ▸ hy)
              rw [Heap.Live, hlife, Function.update_of_ne hry]
          | free y hy hlife =>
              -- what is freed is no background request any more
              have hry : r ≠ y := by
                rintro rfl
                obtain ⟨v, w, hr⟩ := h.req r
                rcases hy with hy | hy | ⟨b, hy⟩
                · exact hno t hy
                · have hw := hr.waiting t ((hr.caller t).mp (congrArg Pc.caller hy))
                  rw [hy] at hw
                  cases hbg.symm.trans hw
                · obtain ⟨-, -, hf⟩ := h.of_pc hy rfl
                  cases hbg.symm.trans (hf.background false rfl)
              rw [Heap.Live, hlife, Function.update_of_ne hry]

/-- The caller of a request drops its reference: the other requests do not notice. -/
theorem putRequest_frame (hlive : s.heap.Live r) (hreq : (s.pc t).req = some r) :
    Frame r s ((s.putRequest r).goto t .idle) := by
  obtain ⟨heap, heq, hother, -⟩ := putRequest_eq hlive
  rw [heq]
  exact (Frame.setHeap hother).trans (.goto (.inr hreq) (.inl rfl))

theorem counted_putRequest (h : Inv s) (hpc : s.pc t = .got r ∨ s.pc t = .answered r)
    (y : ReqId) : ((s.putRequest r).goto t .idle).Counted y ↔ s.Counted y := by
  have hcaller : (s.pc t).caller = some r := by
    rcases hpc with hpc | hpc <;> exact congrArg Pc.caller hpc
  by_cases hy : y = r
  · subst hy
    obtain ⟨v, hr⟩ := h.of_caller hcaller
    obtain ⟨heap, heq, -, ⟨n, hn⟩, -⟩ := putRequest_eq hr.live_of_caller
    have hplace := (hr.place.setHeap heap).goto (t := t) (p := .idle) (Pc.flight_of_caller hcaller)
    have hbg : ((s.putRequest y).goto t .idle).req y = { s.req y with count := n } := by
      rw [heq]
      exact hn
    rw [State.Counted, State.Counted, hbg, heq]
    refine and_congr_right fun _ => exists_congr fun p => ?_
    exact (hplace p).trans (hr.place p).symm
  · exact (putRequest_frame (h.live_of_caller hcaller) (Pc.req_of_caller hcaller)).counted hy

theorem sendBackground_cases (h : Inv s) (hpc : s.pc t = .got r)
    (hbg : (s.req r).background = true) (hs : requestSendBackground s t r = some s') :
    s.fcLock = none ∧
      ((s.connected = true ∧ s' = ({ (s.upd r fun q => { q with isreply := true }).queueBackground r
          with fcLock := some t } : State τ).goto t .sendFlush) ∨
        s.connected = false ∧
          s' = (((s.upd r fun q => { q with error := -ENOTCONN }).putRequest r).goto t .idle)) := by
  obtain ⟨hr, -⟩ := h.of_got hpc
  unfold requestSendBackground at hs
  simp only [State.touch_of_live hr.live_of_caller, hbg, Bool.not_true, State.bugOn_false] at hs
  split at hs
  next => cases hs
  next hlock =>
    refine ⟨by simpa using hlock, ?_⟩
    split at hs
    next hconn =>
      cases hs
      exact .inl ⟨hconn, rfl⟩
    next hconn =>
      cases hs
      exact .inr ⟨by simpa using hconn, rfl⟩

/-- A background request joins the requests in flight. -/
theorem counted_queueBackground (hpc : s.pc t = .got r)
    (hbg : (s.req r).background = true) (y : ReqId) :
    (({ (s.upd r fun q => { q with isreply := true }).queueBackground r with
      fcLock := some t } : State τ).goto t .sendFlush).Counted y ↔ y = r ∨ s.Counted y := by
  have hreq : (s.pc t).req = some r := congrArg Pc.req hpc
  by_cases hy : y = r
  · subst hy
    refine iff_of_true ⟨?_, .bgQueue, ?_⟩ (.inl rfl)
    · simpa using hbg
    · simp [State.Holds, State.goto, State.queueBackground]
  · rw [or_iff_right hy]
    exact Frame.counted ((((Frame.upd r s _).trans (.queueBackground r _)).trans
      (Frame.setLock _ (some t))).trans (.goto (.inr hreq) (.inl rfl))) hy

theorem account_cases (h : Inv s) {abort : Bool} (hpc : s.pc t = .ending .account r abort)
    (hs : account s t r abort = some s') : s.fcLock = none ∧
      s' = ((s.upd r fun q => { q with background := false }).uncount (some t)).goto t
        (.ending .flush r abort) := by
  obtain ⟨w, hr, -⟩ := h.of_pc hpc rfl
  unfold account at hs
  rw [State.touch_of_live hr.live_of_place] at hs
  split at hs
  next => cases hs
  next hlock =>
    cases hs
    exact ⟨by simpa using hlock, rfl⟩

theorem counted_account {abort : Bool} (hpc : s.pc t = .ending .account r abort) (y : ReqId) :
    (((s.upd r fun q => { q with background := false }).uncount (some t)).goto t
      (.ending .flush r abort)).Counted y ↔ y ≠ r ∧ s.Counted y := by
  have hreq : (s.pc t).req = some r := congrArg Pc.req hpc
  by_cases hy : y = r
  · subst hy
    refine iff_of_false (fun hc => ?_) fun hc => hc.1 rfl
    have hbg := hc.1
    rw [State.req_goto, State.req_uncount, State.req_upd_self] at hbg
    cases hbg
  · rw [and_iff_right hy]
    exact Frame.counted (((Frame.upd r s _).trans (.uncount _ (some t))).trans
      (.goto (.inr hreq) (.inr rfl))) hy

theorem outEnd_bgQueue (s : State τ) (t : τ) (r : ReqId) :
    (outEnd s t r).bgQueue = s.bgQueue ∨ (outEnd s t r).bgQueue = s.bgQueue.erase r := by
  unfold outEnd
  split
  · exact .inl rfl
  · exact .inr rfl

theorem copied_bgQueue (s : State τ) (t : τ) (d : Dev) (r : ReqId) (ok : Bool) :
    (copied s t d r ok).bgQueue = s.bgQueue ∨ (copied s t d r ok).bgQueue = s.bgQueue.erase r := by
  unfold copied
  simp only
  split
  · exact outEnd_bgQueue _ t r
  · split
    · exact outEnd_bgQueue _ t r
    · split
      · exact outEnd_bgQueue _ t r
      · exact .inr rfl

theorem wrote_bgQueue (s : State τ) (t : τ) (d : Dev) (r : ReqId) (ok : Bool) :
    (wrote s t d r ok).bgQueue = s.bgQueue ∨ (wrote s t d r ok).bgQueue = s.bgQueue.erase r := by
  unfold wrote
  simp only
  split <;> exact outEnd_bgQueue _ t r

theorem write_bgQueue {d : Dev} {u : ℕ} {err : ℤ} (hs : write s t d u err = some s') :
    s'.bgQueue = s.bgQueue ∨
      ∃ r, requestFind s d u = some r ∧ s'.bgQueue = s.bgQueue.erase r := by
  unfold write at hs
  split at hs
  · cases hs
  · split at hs
    · cases hs
      exact .inl rfl
    · split at hs
      next => cases hs; exact .inl rfl
      next r hfind =>
        simp only at hs
        split at hs <;> cases hs
        · exact .inl rfl
        · exact .inr ⟨r, hfind, rfl⟩

/-- Only the queueing of a background request and `flush_bg_queue` change the queue. -/
theorem bgQueue_eq (h : Inv s) {op : Op} (hs : taskStep s t op = some s')
    (hsend : op ≠ .sendBackground) (hflush : op ≠ .flush) : s'.bgQueue = s.bgQueue := by
  by_cases hx : Var.bgQueue ∈ op.sets
  · -- `list_del` of a request that is elsewhere
    have herase {r : ReqId} {p : Place τ} (hp : s.Holds p r) (hne : p ≠ .bgQueue) :
        s.bgQueue.erase r = s.bgQueue := by
      refine List.erase_of_not_mem fun hmem => ?_
      obtain ⟨w, hr⟩ := h.of_holds hp
      exact hne (Option.some.inj ((hr.place .bgQueue).mp hmem))
    have hout {r : ReqId} (hfl : (s.pc t).flight = some r) :
        s.bgQueue.erase r = s.bgQueue := herase (p := .task t) hfl (by simp)
    cases op with
    | sendBackground => exact absurd rfl hsend
    | flush => exact absurd rfl hflush
    | bail =>
        obtain ⟨r, hpc, rfl⟩ := taskStep_bail hs
        have hnot : r ∉ s.bgQueue := by
          intro hmem
          obtain ⟨v, hr⟩ := h.of_caller (r := r) (congrArg Pc.caller hpc)
          have hv := (hr.place .bgQueue).mp hmem
          have hbg := (hr.flight _ hv).background true rfl
          rw [(hr.waiting t rfl).foreground fun y hy => by rw [hpc] at hy; cases hy] at hbg
          cases hbg
        unfold bail
        simp only
        split
        · exact List.erase_of_not_mem hnot
        · rfl
    | read d =>
        obtain ⟨r, rest, hpend, -, rfl⟩ := read_eq (taskStep_read hs).2
        exact herase (p := .pending) (by simp [State.Holds, hpend]) (by simp)
    | copied ok =>
        obtain ⟨d, r, hpc, rfl⟩ := taskStep_copied hs
        rcases copied_bgQueue s t d r ok with heq | heq
        · exact heq
        · exact heq.trans (hout (congrArg Pc.flight hpc))
    | write d u err =>
        rcases write_bgQueue (taskStep_write hs).2 with heq | ⟨r, hfind, heq⟩
        · exact heq
        · exact heq.trans (herase (requestFind_mem hfind) (by simp))
    | wrote ok =>
        obtain ⟨d, r, hpc, rfl⟩ := taskStep_wrote hs
        rcases wrote_bgQueue s t d r ok with heq | heq
        · exact heq
        · exact heq.trans (hout (congrArg Pc.flight hpc))
    | abortEnd =>
        obtain ⟨-, rfl⟩ := taskStep_abortEnd hs
        unfold abortEnd
        rw [h.sound.toEnd1]
        split
        next heq => cases heq
        next r rest _ hend => exact herase (p := .toEnd) (by simp [State.Holds, hend]) (by simp)
        next => rfl
    | _ => simp [Op.sets] at hx
  · exact taskStep_agree hs hx

omit [DecidableEq τ] in
theorem counted_upd (f : Req → Req) (hf : ∀ q, (f q).background = q.background) {y : ReqId} :
    (s.upd r f).Counted y ↔ s.Counted y := by
  by_cases hy : y = r
  · subst hy
    rw [State.Counted, State.Counted, State.req_upd_self, hf]
    refine and_congr_right fun _ => exists_congr fun p => ?_
    cases p <;> exact Iff.rfl
  · exact (Frame.upd r s f).counted hy

/-- The counters of the connection count the background requests. -/
structure Accounts (s : State τ) : Prop where
  sum : s.numBackground = s.bgQueue.length + s.activeBackground
  counted : ∃ l : List ReqId, l.Nodup ∧ (∀ r, r ∈ l ↔ s.Counted r) ∧ l.length = s.numBackground

theorem Accounts.step {op : Op} (ha : Accounts s) (h : Inv s) (h' : Inv s')
    (hfit : Fits s ⟨t, op⟩) (hs : taskStep s t op = some s') : Accounts s' := by
  obtain ⟨l, hnd, hmem, hlen⟩ := ha.counted
  have hsum := ha.sum
  -- a step that keeps the background requests and the counters
  have hkeep (hc : ∀ r, s'.Counted r ↔ s.Counted r) (hnum : s'.numBackground = s.numBackground)
      (hact : s'.activeBackground = s.activeBackground) (hbg : s'.bgQueue = s.bgQueue) :
      Accounts s' :=
    ⟨by rw [hnum, hact, hbg, hsum], l, hnd, fun r => (hmem r).trans (hc r).symm,
      hlen.trans hnum.symm⟩
  cases op with
  | putRequest =>
      obtain ⟨r, hpc, rfl⟩ := taskStep_putRequest hs
      exact hkeep (counted_putRequest h hpc) (taskStep_agree hs (x := .numBackground) (by decide))
        (taskStep_agree hs (x := .activeBackground) (by decide))
        (bgQueue_eq h hs (by decide) (by decide))
  | sendBackground =>
      obtain ⟨r, hpc, hs'⟩ := taskStep_sendBackground hs
      have hbg : (s.req r).background = true := by simpa [Fits, hpc] using hfit
      obtain ⟨-, ⟨-, rfl⟩ | ⟨-, rfl⟩⟩ := sendBackground_cases h hpc hbg hs'
      · have hnot : ¬ s.Counted r := fun hc => (h.counted_iff.mp hc).2.2 t hpc
        refine ⟨?_, r :: l, List.nodup_cons.mpr ⟨fun hr => hnot ((hmem r).mp hr), hnd⟩,
          fun y => ?_, ?_⟩
        · change s.numBackground + 1 = (s.bgQueue ++ [r]).length + s.activeBackground
          rw [List.length_append, List.length_singleton]
          omega
        · rw [counted_queueBackground hpc hbg y, List.mem_cons, hmem]
        · change (r :: l).length = s.numBackground + 1
          rw [List.length_cons, hlen]
      · -- the connection is aborted and the request is dropped
        have h₁ : Inv (s.upd r fun q => { q with error := -ENOTCONN }) :=
          h.upd_same _ ⟨rfl, rfl, rfl, rfl, rfl, rfl, rfl, rfl⟩
        refine hkeep (fun y => (counted_putRequest h₁ (.inl hpc) y).trans ?_)
          ((Var.agree_putRequest (x := .numBackground) (s.upd r _) r).goto t _)
          ((Var.agree_putRequest (x := .activeBackground) (s.upd r _) r).goto t _)
          ((Var.agree_putRequest (x := .bgQueue) (s.upd r _) r).goto t _)
        exact counted_upd (fun q => { q with error := -ENOTCONN }) fun _ => rfl
  | account =>
      obtain ⟨r, abort, hpc, hs'⟩ := taskStep_account hs
      obtain ⟨w, hr, hf⟩ := h.of_pc hpc rfl
      obtain ⟨-, rfl⟩ := account_cases h hpc hs'
      have hc : s.Counted r :=
        ⟨hf.background true rfl, .task t, (hr.place (.task t)).mpr rfl⟩
      have hrl : r ∈ l := (hmem r).mpr hc
      have hnot : r ∉ s.bgQueue := fun hm => by cases (hr.place .bgQueue).mp hm
      -- the request has left the queue, so it is an active one
      have hactive : s.bgQueue.length + 1 ≤ l.length := by
        have hsub : r :: s.bgQueue ⊆ l := by
          intro y hy
          rcases List.mem_cons.mp hy with rfl | hy
          · exact hrl
          · obtain ⟨w', hy'⟩ := h.of_holds (p := .bgQueue) hy
            exact (hmem y).mpr ⟨(hy'.flight _ rfl).background true rfl, .bgQueue, hy⟩
        exact (List.subperm_of_subset (List.nodup_cons.mpr ⟨hnot, h.sound.bgQueue⟩) hsub).length_le
      refine ⟨?_, l.erase r, hnd.erase r, fun y => ?_, ?_⟩
      · change s.numBackground - 1 = s.bgQueue.length + (s.activeBackground - 1)
        omega
      · rw [counted_account hpc y, hnd.mem_erase_iff, hmem]
      · change (l.erase r).length = s.numBackground - 1
        rw [List.length_erase_of_mem hrl, hlen]
  | flush =>
      have hc := counted_same h h' hfit hs (by decide) (by decide) (by decide)
      obtain ⟨p, lock, -, rfl⟩ := taskStep_flush hs
      rcases flush_cases s t p lock with ⟨r, rest, hq, -, heq⟩ | ⟨-, heq⟩
      · rw [heq] at hc ⊢
        refine ⟨?_, l, hnd, fun y => (hmem y).trans (hc y).symm, hlen⟩
        change s.numBackground = (s.bgQueue.erase r).length + (s.activeBackground + 1)
        rw [hq, List.length_cons] at hsum
        rw [hq, List.erase_cons_head]
        omega
      · rw [heq] at hc ⊢
        exact ⟨hsum, l, hnd, fun y => (hmem y).trans (hc y).symm, hlen⟩
  | _ =>
      exact hkeep (counted_same h h' hfit hs (by simp) (by simp) (by simp))
        (taskStep_agree hs (x := .numBackground) (by simp [Op.sets]))
        (taskStep_agree hs (x := .activeBackground) (by simp [Op.sets]))
        (bgQueue_eq h hs (by simp) (by simp))

/-- `num_background` is the number of background requests in flight, and `active_background` the
number of those that have left the background queue. -/
theorem background_exact {devices : List Dev} {m c : ℕ} {b : Bool} {es : List (Event τ)}
    (h : FittingRun (connection devices m c b) es s) :
    s.numBackground = s.bgQueue.length + s.activeBackground ∧
      ∃ l : List ReqId, l.Nodup ∧ l.length = s.numBackground ∧
        ∀ r, r ∈ l ↔ (s.req r).background = true ∧ ∃ p, s.Holds p r := by
  have ha : Accounts s := by
    refine h.history (P := fun _ => Accounts) ⟨rfl, [], List.nodup_nil, fun r => ?_, rfl⟩ ?_
    · exact iff_of_false List.not_mem_nil fun hc => by cases hc.1
    · intro es s e s' _ hinv hfit ha hs
      exact ha.step hinv (hinv.step hfit hs) hfit hs
  obtain ⟨l, hnd, hmem, hlen⟩ := ha.counted
  exact ⟨ha.sum, l, hnd, hlen, hmem⟩

end KernelMemo.Fuse
