import KernelMemo.Fuse.RequestDelivery

/-! # The numbers of requests and interrupts

`fuse_get_unique` numbers the requests when they are queued, and the interrupts when they are
read; the daemon names a request by these numbers.  As long as the counter has not wrapped, a
number names one request or one interrupt, so it does not matter where `request_find` starts to
look; an answer to a number that was answered before finds nothing; and the daemon gets the
requests in the order of their numbers. -/

namespace KernelMemo.Fuse

variable {τ : Type*} [DecidableEq τ] {s s' : State τ} {r : ReqId} {t : τ} {d : Dev}

/-- An answer with the number `u` is for this request, or for its interrupt. -/
def Req.Answers (q : Req) (u : ℕ) : Prop :=
  u ≠ 0 ∧ (q.isreply = true ∧ q.unique = u ∨ q.intrUnique = u)

/-- The numbers name one request each. -/
structure Numbered (s : State τ) : Prop where
  le : ∀ r u, s.heap.life r ≠ .unborn → (s.req r).Answers u → u ≤ s.reqctr
  unique : ∀ r y u, s.heap.life r ≠ .unborn → s.heap.life y ≠ .unborn → (s.req r).Answers u →
    (s.req y).Answers u → r = y
  apart : ∀ r, s.heap.life r ≠ .unborn → (s.req r).isreply = true → (s.req r).unique ≠ 0 →
    (s.req r).unique ≠ (s.req r).intrUnique
  got : ∀ t r, s.pc t = .got r → (s.req r).unique = 0

/-- A step that numbers no request but `r`, and gives it the next number if any. -/
structure NumberStep (s s' : State τ) (r : ReqId) : Prop where
  reqctr : s.reqctr ≤ s'.reqctr
  next : ∀ u, s'.heap.life r ≠ .unborn → (s'.req r).Answers u →
    (s.heap.life r ≠ .unborn ∧ (s.req r).Answers u) ∨ u = s.reqctr + 1 ∧ s.reqctr < s'.reqctr
  other : ∀ y, y ≠ r → s'.heap.life y ≠ .unborn → s.heap.life y ≠ .unborn ∧
    (s'.req y).isreply = (s.req y).isreply ∧ (s'.req y).unique = (s.req y).unique ∧
    (s'.req y).intrUnique = (s.req y).intrUnique
  apart : s'.heap.life r ≠ .unborn → (s'.req r).isreply = true → (s'.req r).unique ≠ 0 →
    (s'.req r).unique ≠ (s'.req r).intrUnique

namespace NumberStep

omit [DecidableEq τ]

variable (h : NumberStep s s' r)
include h

theorem old {y : ReqId} (hy : y ≠ r) (hb : s'.heap.life y ≠ .unborn) {u : ℕ}
    (hu : (s'.req y).Answers u) : s.heap.life y ≠ .unborn ∧ (s.req y).Answers u := by
  obtain ⟨hb', hi, hq, hin⟩ := h.other y hy hb
  rw [Req.Answers, hi, hq, hin] at hu
  exact ⟨hb', hu⟩

/-- A number that was given before is nobody's new number. -/
theorem of_le {y : ReqId} (hb : s'.heap.life y ≠ .unborn) {u : ℕ} (hu : (s'.req y).Answers u)
    (hle : u ≤ s.reqctr) : s.heap.life y ≠ .unborn ∧ (s.req y).Answers u := by
  by_cases hy : y = r
  · subst hy
    rcases h.next u hb hu with hold | ⟨rfl, -⟩
    · exact hold
    · omega
  · exact h.old hy hb hu

theorem numbered (hn : Numbered s) (hgot : ∀ t y, s'.pc t = .got y → (s'.req y).unique = 0) :
    Numbered s' := by
  refine ⟨fun y u hb hu => ?_, fun y z u hb hb' hu hu' => ?_, fun y hb => ?_, hgot⟩
  · by_cases hy : y = r
    · subst hy
      rcases h.next u hb hu with ⟨hb', hu'⟩ | ⟨rfl, hlt⟩
      · exact (hn.le y u hb' hu').trans h.reqctr
      · exact hlt
    · obtain ⟨hb', hu'⟩ := h.old hy hb hu
      exact (hn.le y u hb' hu').trans h.reqctr
  · -- a number of another request was there before, so it is not the next one
    have hmix : ∀ y z, y ≠ r → s'.heap.life y ≠ .unborn → s'.heap.life z ≠ .unborn →
        (s'.req y).Answers u → (s'.req z).Answers u → y = z := by
      intro y z hy hb hb' hu hu'
      obtain ⟨hb₁, hu₁⟩ := h.old hy hb hu
      obtain ⟨hb₂, hu₂⟩ := h.of_le hb' hu' (hn.le y u hb₁ hu₁)
      exact hn.unique y z u hb₁ hb₂ hu₁ hu₂
    by_cases hy : y = r
    · by_cases hz : z = r
      · rw [hy, hz]
      · exact (hmix z y hz hb' hb hu' hu).symm
    · exact hmix y z hy hb hb' hu hu'
  · by_cases hy : y = r
    · rw [hy] at hb ⊢
      exact h.apart hb
    · obtain ⟨hb', hi, hq, hin⟩ := h.other y hy hb
      rw [hi, hq, hin]
      exact hn.apart y hb'

end NumberStep

omit [DecidableEq τ] in
/-- A step that numbers no request. -/
theorem NumberStep.of_same (hn : Numbered s) (hctr : s.reqctr ≤ s'.reqctr)
    (hsame : ∀ y, s'.heap.life y ≠ .unborn → s.heap.life y ≠ .unborn ∧
      (s'.req y).isreply = (s.req y).isreply ∧ (s'.req y).unique = (s.req y).unique ∧
      (s'.req y).intrUnique = (s.req y).intrUnique) : NumberStep s s' r := by
  refine ⟨hctr, fun u hb hu => .inl ?_, fun y _ => hsame y, fun hb => ?_⟩
  · obtain ⟨hb', hi, hq, hin⟩ := hsame r hb
    rw [Req.Answers, hi, hq, hin] at hu
    exact ⟨hb', hu⟩
  · obtain ⟨hb', hi, hq, hin⟩ := hsame r hb
    rw [hi, hq, hin]
    exact hn.apart r hb'

/-! ### What the numbering functions do -/

theorem requestAlloc_eq {b c : Bool} (hs : requestAlloc s t r b c = some s') :
    s.heap.life r = .unborn ∧ s'.heap.life = Function.update s.heap.life r .live ∧
      s'.req r = { requestInit with background := b, force := c } ∧
      (∀ y, y ≠ r → s'.req y = s.req y) ∧ s'.reqctr = s.reqctr := by
  simp only [requestAlloc, Option.map_eq_some_iff] at hs
  obtain ⟨heap, halloc, rfl⟩ := hs
  have hmem : ∀ y, y ≠ r → heap.mem y = s.heap.mem y := fun y hy => Heap.alloc_mem_of_ne halloc hy
  obtain ⟨hr, rfl⟩ := Heap.alloc_eq_some.mp halloc
  exact ⟨hr, rfl, by simp [State.goto, State.req], hmem, rfl⟩

theorem requestSend_req_of_ne {b : Bool} {y : ReqId} (hy : y ≠ r) :
    (requestSend s t r b).req y = s.req y := by
  unfold requestSend
  simp only
  split <;> simp [State.req, State.goto, State.upd, State.assignUnique, State.queueRequest,
    State.getUnique, State.touch, State.bugOn, Heap.write_mem_of_ne _ _ hy]

theorem requestSendNotifyReply_req_of_ne {u : ℕ} {y : ReqId} (hy : y ≠ r) :
    (requestSendNotifyReply s t r u).req y = s.req y := by
  unfold requestSendNotifyReply
  simp only
  split <;> simp [State.req, State.goto, State.upd, State.queueRequest, State.lose, State.touch,
    Heap.write_mem_of_ne _ _ hy]

/-- `flush_bg_queue` numbers the first request of the queue, or nothing. -/
theorem flush_cases (s : State τ) (t : τ) (p : Pc) (l : Option τ) :
    (∃ r rest, s.bgQueue = r :: rest ∧ s.activeBackground < s.maxBackground ∧
      flush s t p l = ({ (s.touch r).listDel r with
        activeBackground := s.activeBackground + 1 }.assignUnique r).queueRequest r) ∨
      ((s.bgQueue = [] ∨ s.maxBackground ≤ s.activeBackground) ∧
        flush s t p l = { s with fcLock := l }.goto t p) := by
  unfold flush
  split
  next r rest hq =>
    split
    next hlt => exact .inl ⟨r, rest, hq, hlt, rfl⟩
    next hle => exact .inr ⟨.inr (Nat.le_of_not_lt hle), rfl⟩
  next hq => exact .inr ⟨.inl hq, rfl⟩

/-- A request that is not sent has no number. -/
theorem got_unique (h : Inv s) (hgot : ∀ t r, s.pc t = .got r → (s.req r).unique = 0) {op : Op}
    (hs : taskStep s t op = some s') (t' : τ) (y : ReqId) (hpc : s'.pc t' = .got y) :
    (s'.req y).unique = 0 := by
  -- the request of a task that has not moved
  have hstay (hold : s.pc t' = .got y) (hne : ∀ r, s.pc t = .got r → s'.pc t ≠ .got r → y ≠ r) :
      (s'.req y).unique = 0 := by
    obtain ⟨hr, -⟩ := h.of_got hold
    have hborn : s.heap.life y ≠ .unborn := by
      rw [hr.live_of_caller]
      decide
    by_cases hw : Field.unique ∈ op.writes
    · cases op with
      | requestSend b =>
          obtain ⟨r, hpc', rfl⟩ := taskStep_requestSend hs
          rw [requestSend_req_of_ne (hne r hpc' ?_)]
          · exact hgot t' y hold
          · unfold requestSend
            simp only
            split <;> simp [State.goto]
      | sendNotifyReply u =>
          obtain ⟨r, hpc', rfl⟩ := taskStep_sendNotifyReply hs
          rw [requestSendNotifyReply_req_of_ne (hne r hpc' ?_)]
          · exact hgot t' y hold
          · unfold requestSendNotifyReply
            simp only
            split <;> simp [State.goto]
      | flush =>
          obtain ⟨p, l, -, rfl⟩ := taskStep_flush hs
          rcases flush_cases s t p l with ⟨r, rest, hq, -, heq⟩ | ⟨-, heq⟩
          · have hyr : y ≠ r := by
              rintro rfl
              exact by cases (hr.place .bgQueue).mp (by simp [State.Holds, hq])
            rw [heq, State.req_queueRequest, (Frame.assignUnique r _).req y hyr]
            exact hgot t' y hold
          · rw [heq]
            exact hgot t' y hold
      | _ => simp [Op.writes] at hw
    · exact Eq.trans (taskStep_keeps hs hw y hborn).2 (hgot t' y hold)
  rcases taskStep_moves hs with hsame | ⟨q, hgo, hsame⟩
  · rw [hsame] at hpc
    refine hstay hpc fun r hr hno => absurd ?_ hno
    rw [hsame]
    exact hr
  · by_cases ht : t' = t
    · subst ht
      rw [hsame, Function.update_self] at hpc
      subst hpc
      generalize s.pc t' = p at hgo
      cases hgo with
      | getReq _ b force =>
          obtain ⟨b, -, hs⟩ := taskStep_getReq hs
          unfold getReq at hs
          simp only at hs
          split at hs
          · rw [(requestAlloc_eq hs).2.2.1]
            rfl
          · cases hs
      | requestAlloc _ force =>
          rw [(requestAlloc_eq (taskStep_requestAlloc hs).2).2.2.1]
          rfl
    · rw [hsame, Function.update_of_ne ht] at hpc
      refine hstay hpc fun r hr _ hyr => ht ?_
      obtain ⟨v, w, hok⟩ := h.req y
      have h₁ := (hok.caller t').mp (congrArg Pc.caller hpc)
      have h₂ := (hok.caller t).mp (hyr ▸ congrArg Pc.caller hr)
      exact Option.some.inj (h₁.symm.trans h₂)

theorem requestSend_cases (s : State τ) (t : τ) (r : ReqId) (b : Bool) :
    (((requestSend s t r b).req r).isreply = b ∧
      ((requestSend s t r b).req r).intrUnique = (s.req r).intrUnique) ∧
    ((s.fiqConnected = true ∧ (requestSend s t r b).reqctr = s.reqctr + 1 ∧
        ((requestSend s t r b).req r).unique = s.nextUnique) ∨
      (requestSend s t r b).reqctr = s.reqctr ∧
        ((requestSend s t r b).req r).unique = (s.req r).unique) := by
  unfold requestSend
  simp only
  split
  next hconn =>
    refine ⟨?_, .inl ⟨hconn, rfl, ?_⟩⟩
    · simp [State.req, State.upd, State.assignUnique, State.queueRequest, State.getUnique,
        State.touch, State.bugOn, State.goto]
    · simp [State.req, State.upd, State.assignUnique, State.queueRequest, State.getUnique,
        State.touch, State.bugOn, State.goto, State.nextUnique]
  next =>
    refine ⟨?_, .inr ⟨rfl, ?_⟩⟩
    · simp [State.req, State.upd, State.touch, State.bugOn, State.goto]
    · simp [State.req, State.upd, State.touch, State.bugOn, State.goto]

omit [DecidableEq τ] in
theorem readInterrupt_eq (hs : readInterrupt s = some s') : ∃ r rest, s.interrupts = r :: rest ∧
    s'.req r = { s.req r with intrUnique := s.nextUnique } ∧
    (∀ y, y ≠ r → s'.req y = s.req y) ∧ s'.reqctr = s.reqctr + 1 := by
  unfold readInterrupt at hs
  split at hs
  next r rest hint =>
    split at hs <;> cases hs
    refine ⟨r, rest, hint, ?_, fun y hy => ?_, rfl⟩
    · simp only [State.req, State.getUnique, State.upd, Heap.write_mem_self]
      rfl
    · simp only [State.req, State.getUnique, State.upd, Heap.write_mem_of_ne _ _ hy]
      rfl
  next => cases hs

/-- `fuse_get_unique` counts up. -/
theorem taskStep_reqctr {op : Op} (hs : taskStep s t op = some s') : s.reqctr ≤ s'.reqctr := by
  by_cases hw : Var.reqctr ∈ op.sets
  · cases op with
    | requestSend b =>
        obtain ⟨r, hpc, rfl⟩ := taskStep_requestSend hs
        rcases (requestSend_cases s t r b).2 with ⟨-, hctr, -⟩ | ⟨hctr, -⟩ <;> omega
    | readInterrupt =>
        obtain ⟨r, rest, -, -, -, hctr⟩ := readInterrupt_eq (taskStep_readInterrupt hs).2
        omega
    | readForget =>
        rw [taskStep_readForget hs]
        exact Nat.le_succ _
    | flush =>
        obtain ⟨p, l, -, rfl⟩ := taskStep_flush hs
        rcases flush_cases s t p l with ⟨r, rest, -, -, heq⟩ | ⟨-, heq⟩
        · rw [heq]
          exact Nat.le_succ _
        · rw [heq]
          exact Nat.le_refl _
    | _ => simp [Op.sets] at hw
  · exact Nat.le_of_eq (Eq.symm (taskStep_agree hs hw))

omit [DecidableEq τ] in
theorem nextUnique_eq (h : s.reqctr + 1 < 2 ^ 64) : s.nextUnique = s.reqctr + 1 :=
  Nat.mod_eq_of_lt h

theorem requestSendBackground_req_of_ne (hs : requestSendBackground s t r = some s') {y : ReqId}
    (hy : y ≠ r) : s'.req y = s.req y := by
  unfold requestSendBackground at hs
  split at hs
  · cases hs
  · split at hs <;> cases hs
    · simp [State.req, State.goto, State.upd, State.queueBackground, State.touch, State.bugOn,
        Heap.write_mem_of_ne _ _ hy]
    · unfold State.putRequest
      simp only
      split <;> simp [State.req, State.goto, State.upd, State.touch, Heap.write_mem_of_ne _ _ hy]

/-- Only the allocator makes requests. -/
theorem born_of_born (h : Inv s) {op : Op} (hs : taskStep s t op = some s')
    (hop : ∀ p r, ¬ Goes op p (.got r)) {y : ReqId} (hy : s'.heap.life y ≠ .unborn) :
    s.heap.life y ≠ .unborn := by
  cases taskStep_life hs with
  | same hlife => rwa [hlife] at hy
  | alloc r b c hr hlife hreq hpc =>
      rcases taskStep_moves hs with hsame | ⟨q, hgo, hsame⟩
      · rw [hsame] at hpc
        have hlive := h.live_of_caller (congrArg Pc.caller hpc)
        rw [Heap.Live, hr] at hlive
        cases hlive
      · rw [hsame, Function.update_self] at hpc
        exact absurd (hpc ▸ hgo) (hop _ r)
  | free r hr hlife =>
      have hreq : (s.pc t).req = some r := by
        rcases hr with hr | hr | ⟨b, hr⟩ <;> exact congrArg Pc.req hr
      by_cases hyr : y = r
      · rw [hyr, h.live_of_refers (.inr (.inl ⟨t, hreq⟩))]
        decide
      · rwa [hlife, Function.update_of_ne hyr] at hy

omit [DecidableEq τ] in
/-- A request that was never sent has no number to be answered under. -/
theorem answers_of_unsent (hu : (s'.req r).unique = 0)
    (hin : (s'.req r).intrUnique = (s.req r).intrUnique) {u : ℕ} (h : (s'.req r).Answers u) :
    (s.req r).Answers u := by
  obtain ⟨hne, ⟨-, hu'⟩ | hu'⟩ := h
  · exact absurd (hu'.symm.trans hu) hne
  · exact ⟨hne, .inr (hin ▸ hu')⟩

/-- The allocator gives no number. -/
theorem NumberStep.requestAlloc {b c : Bool} (hs : requestAlloc s t r b c = some s') :
    NumberStep s s' r := by
  obtain ⟨-, hlife, hreq, hother, hctr⟩ := requestAlloc_eq hs
  refine ⟨hctr.ge, ?_, fun y hy hb => ?_, ?_⟩
  · rw [hreq]
    rintro u - ⟨hne, ⟨hi, -⟩ | hu⟩
    · cases hi
    · exact absurd hu.symm hne
  · rw [hlife, Function.update_of_ne hy] at hb
    rw [hother y hy]
    exact ⟨hb, rfl, rfl, rfl⟩
  · rw [hreq]
    rintro _ ⟨⟩

omit [DecidableEq τ] in
/-- The next number is above all numbers in use. -/
theorem Numbered.not_answers_next (hn : Numbered s) {r : ReqId} (hb : s.heap.life r ≠ .unborn) :
    ¬ (s.req r).Answers (s.reqctr + 1) :=
  fun h => Nat.not_succ_le_self _ (hn.le r _ hb h)

theorem Numbered.numberStep (hn : Numbered s) (h : Inv s) {op : Op}
    (hs : taskStep s t op = some s') (hlt : s'.reqctr < 2 ^ 64) : ∃ r, NumberStep s s' r := by
  have hctr := taskStep_reqctr hs
  have hlive : ∀ {r}, s.pc t = .got r → s.heap.life r ≠ .unborn := by
    intro r hpc
    rw [h.live_of_caller (congrArg Pc.caller hpc)]
    decide
  cases op with
  | requestSend b =>
      have hborn {y} := born_of_born (y := y) h hs (by rintro _ _ ⟨⟩)
      obtain ⟨r, hpc, rfl⟩ := taskStep_requestSend hs
      have hzero := hn.got t r hpc
      obtain ⟨⟨hi, hin⟩, hcases⟩ := requestSend_cases s t r b
      refine ⟨r, hctr, fun u _ hu => ?_, fun y hy hb => ?_, ?_⟩
      · rcases hcases with ⟨-, hc, hu₁⟩ | ⟨-, hu₁⟩
        · rw [nextUnique_eq (hc ▸ hlt)] at hu₁
          obtain ⟨hne, ⟨-, hu'⟩ | hu'⟩ := hu
          · exact .inr ⟨hu'.symm.trans hu₁, by omega⟩
          · exact .inl ⟨hlive hpc, hne, .inr (hin ▸ hu')⟩
        · exact .inl ⟨hlive hpc, answers_of_unsent (hu₁.trans hzero) hin hu⟩
      · rw [requestSend_req_of_ne hy]
        exact ⟨hborn hb, rfl, rfl, rfl⟩
      · intro _ _ hne
        rcases hcases with ⟨-, hc, hu⟩ | ⟨-, hu⟩
        · rw [hu, hin, nextUnique_eq (hc ▸ hlt)]
          exact fun heq => hn.not_answers_next (hlive hpc) ⟨Nat.succ_ne_zero _, .inr heq.symm⟩
        · exact absurd (hu.trans hzero) hne
  | sendBackground =>
      have hborn {y} := born_of_born (y := y) h hs (by rintro _ _ ⟨⟩)
      have hu {y} (hy : s.heap.life y ≠ .unborn) : (s'.req y).unique = (s.req y).unique :=
        Keeps.unique (taskStep_keeps hs (by simp [Op.writes])) hy
      have hin {y} (hy : s.heap.life y ≠ .unborn) : (s'.req y).intrUnique = (s.req y).intrUnique :=
        Keeps.intrUnique (taskStep_keeps hs (by simp [Op.writes])) hy
      obtain ⟨r, hpc, hs⟩ := taskStep_sendBackground hs
      have hzero : (s'.req r).unique = 0 := (hu (hlive hpc)).trans (hn.got t r hpc)
      refine ⟨r, hctr, fun u _ hu' => .inl ⟨hlive hpc,
        answers_of_unsent hzero (hin (hlive hpc)) hu'⟩, fun y hy hb => ?_,
        fun _ _ hne => absurd hzero hne⟩
      rw [requestSendBackground_req_of_ne hs hy]
      exact ⟨hborn hb, rfl, rfl, rfl⟩
  | sendNotifyReply v =>
      have hborn {y} := born_of_born (y := y) h hs (by rintro _ _ ⟨⟩)
      have hin {y} (hy : s.heap.life y ≠ .unborn) : (s'.req y).intrUnique = (s.req y).intrUnique :=
        Keeps.intrUnique (taskStep_keeps hs (by simp [Op.writes])) hy
      obtain ⟨r, hpc, rfl⟩ := taskStep_sendNotifyReply hs
      have hi : ((requestSendNotifyReply s t r v).req r).isreply = false := by
        unfold requestSendNotifyReply
        simp only
        split <;> simp [State.req, State.goto, State.upd, State.queueRequest, State.lose]
      refine ⟨r, hctr, ?_, fun y hy hb => ?_, fun _ ht => absurd ht (by simp [hi])⟩
      · rintro u - ⟨hne, ⟨ht, -⟩ | hu⟩
        · exact absurd ht (by simp [hi])
        · exact .inl ⟨hlive hpc, hne, .inr (hin (hlive hpc) ▸ hu)⟩
      · rw [requestSendNotifyReply_req_of_ne hy]
        exact ⟨hborn hb, rfl, rfl, rfl⟩
  | flush =>
      have hborn {y} := born_of_born (y := y) h hs (by rintro _ _ ⟨⟩)
      obtain ⟨p, l, -, rfl⟩ := taskStep_flush hs
      rcases flush_cases s t p l with ⟨r, rest, hq, -, heq⟩ | ⟨-, heq⟩
      · rw [heq] at hborn hlt ⊢
        obtain ⟨w, hr⟩ := h.of_holds (p := .bgQueue) (r := r) (by simp [State.Holds, hq])
        have hb : s.heap.life r ≠ .unborn := by
          rw [hr.live_of_place]
          decide
        have hnext : s.nextUnique = s.reqctr + 1 := nextUnique_eq hlt
        refine ⟨r, Nat.le_succ _, ?_, fun y hy hb => ?_, ?_⟩
        · rw [State.req_queueRequest, State.req_assignUnique_self]
          rintro u - ⟨hne, ⟨-, hu⟩ | hu⟩
          · exact .inr ⟨hu.symm.trans hnext, Nat.lt_succ_self _⟩
          · exact .inl ⟨hb, hne, .inr hu⟩
        · rw [State.req_queueRequest, (Frame.assignUnique r _).req y hy]
          exact ⟨hborn hb, rfl, rfl, rfl⟩
        · rw [State.req_queueRequest, State.req_assignUnique_self]
          intro _ _ _ heq'
          change s.nextUnique = (s.req r).intrUnique at heq'
          exact hn.not_answers_next hb ⟨Nat.succ_ne_zero _, .inr (heq'.symm.trans hnext)⟩
      · rw [heq]
        exact ⟨0, .of_same hn (Nat.le_refl _) fun y hb => ⟨hb, rfl, rfl, rfl⟩⟩
  | readInterrupt =>
      have hborn {y} := born_of_born (y := y) h hs (by rintro _ _ ⟨⟩)
      obtain ⟨r, rest, hint, hreq, hother, hc⟩ := readInterrupt_eq (taskStep_readInterrupt hs).2
      have hb : s.heap.life r ≠ .unborn := by
        rw [h.live_of_refers (.inr (.inr (.inl (by simp [hint]))))]
        decide
      have hnext := nextUnique_eq (hc ▸ hlt)
      refine ⟨r, hctr, ?_, fun y hy hb => ?_, ?_⟩
      · rw [hreq]
        rintro u - ⟨hne, ⟨hi, hu⟩ | hu⟩
        · exact .inl ⟨hb, hne, .inl ⟨hi, hu⟩⟩
        · exact .inr ⟨hu.symm.trans hnext, by omega⟩
      · rw [hother y hy]
        exact ⟨hborn hb, rfl, rfl, rfl⟩
      · rw [hreq]
        intro _ hi hne heq
        change (s.req r).unique = s.nextUnique at heq
        exact hn.not_answers_next hb ⟨Nat.succ_ne_zero _, .inl ⟨hi, heq.trans hnext⟩⟩
  | getReq o force =>
      obtain ⟨b, -, hs⟩ := taskStep_getReq hs
      unfold getReq at hs
      split at hs
      · split at hs
        · exact ⟨_, .requestAlloc hs⟩
        · cases hs
      · cases hs
        exact ⟨0, .of_same hn (Nat.le_refl _) fun y hb => ⟨hb, rfl, rfl, rfl⟩⟩
  | requestAlloc r force => exact ⟨r, .requestAlloc (taskStep_requestAlloc hs).2⟩
  | _ =>
      have hborn {y} := born_of_born (y := y) h hs (by rintro _ _ ⟨⟩)
      exact ⟨0, .of_same hn hctr fun y hb =>
        ⟨hborn hb, Keeps.isreply (taskStep_keeps hs (by simp [Op.writes])) (hborn hb),
          Keeps.unique (taskStep_keeps hs (by simp [Op.writes])) (hborn hb),
          Keeps.intrUnique (taskStep_keeps hs (by simp [Op.writes])) (hborn hb)⟩⟩

/-! ### Answered numbers -/

omit [DecidableEq τ] in
/-- What `request_find` matches is a number of the request. -/
theorem Inv.answers_of_processing (h : Inv s) (hr : r ∈ s.processing d) {u : ℕ} (hu : u ≠ 0)
    (hm : (s.req r).unique = u ∨ (s.req r).intrUnique = u) :
    s.heap.life r ≠ .unborn ∧ (s.req r).Answers u := by
  obtain ⟨w, hok⟩ := h.of_holds (p := .processing d) hr
  refine ⟨?_, hu, hm.imp (fun hq => ⟨(hok.flight _ rfl).isreply rfl, hq⟩) id⟩
  rw [hok.live_of_place]
  decide

omit [DecidableEq τ] in
theorem requestFind_match {u : ℕ} (h : requestFind s d u = some r) :
    (s.req r).unique = u ∨ (s.req r).intrUnique = u := by
  have hp := List.find?_some h
  simpa using hp

omit [DecidableEq τ] in
/-- An accepted answer is for a request, not for its interrupt. -/
theorem acceptance_answers (h : Inv s) {e : Event τ} {x : ReqId × ℕ} (hx : x ∈ acceptance s e)
    (hu : x.2 ≠ 0) : s.heap.life x.1 ≠ .unborn ∧ (s.req x.1).Answers x.2 := by
  unfold acceptance at hx
  split at hx
  next d u err heq =>
    split at hx
    next =>
      obtain ⟨r, hr, rfl⟩ := List.mem_map.mp hx
      have hfind : requestFind s d u = some r := by simpa using (List.mem_filter.mp hr).1
      exact h.answers_of_processing (requestFind_mem hfind) hu (requestFind_match hfind)
    next => cases hx
  next => cases hx

/-- The numbers of the answers `acc` are nobody else's. -/
def Spent (acc : List (ReqId × ℕ)) (s : State τ) : Prop :=
  ∀ x ∈ acc, x.2 ≤ s.reqctr ∧
    ∀ y, s.heap.life y ≠ .unborn → (s.req y).Answers x.2 → y = x.1

theorem Spent.step {acc : List (ReqId × ℕ)} (hsp : Spent acc s) (hn : Numbered s) (h : Inv s)
    {e : Event τ} (hans : Answered (acc ++ acceptance s e) s')
    (hs : taskStep s e.task e.op = some s') (hlt : s'.reqctr < 2 ^ 64) :
    Spent (acc ++ acceptance s e) s' := by
  obtain ⟨r, hstep⟩ := hn.numberStep h hs hlt
  -- the numbers of the answers were given before the step
  have hold : ∀ x ∈ acc ++ acceptance s e, x.2 ≤ s.reqctr ∧
      ∀ y, s.heap.life y ≠ .unborn → (s.req y).Answers x.2 → y = x.1 := by
    intro x hx
    rcases List.mem_append.mp hx with hx' | hx'
    · exact hsp x hx'
    · obtain ⟨hb, hu⟩ := acceptance_answers h hx' (hans.done x hx).2.2
      exact ⟨hn.le x.1 x.2 hb hu, fun y hy hu' => hn.unique y x.1 x.2 hy hb hu' hu⟩
  intro x hx
  obtain ⟨hle, huniq⟩ := hold x hx
  refine ⟨hle.trans hstep.reqctr, fun y hy hu => ?_⟩
  obtain ⟨hb, hu'⟩ := hstep.of_le hy hu hle
  exact huniq y hb hu'

theorem FittingRun.numbered {devices : List Dev} {m c : ℕ} {b : Bool} {es : List (Event τ)}
    (h : FittingRun (connection devices m c b) es s) (hctr : s.reqctr < 2 ^ 64) :
    Numbered s ∧ Spent ((conn τ).collect acceptance (connection devices m c b) es) s := by
  suffices hall : Answered ((conn τ).collect acceptance (connection devices m c b) es) s ∧
      (s.reqctr < 2 ^ 64 → Numbered s ∧
        Spent ((conn τ).collect acceptance (connection devices m c b) es) s) from hall.2 hctr
  refine h.history (P := fun es s =>
    Answered ((conn τ).collect acceptance (connection devices m c b) es) s ∧
      (s.reqctr < 2 ^ 64 → Numbered s ∧
        Spent ((conn τ).collect acceptance (connection devices m c b) es) s)) ?_ ?_
  · refine ⟨⟨List.nodup_nil, (by rintro _ ⟨⟩)⟩,
      fun _ => ⟨⟨?_, ?_, ?_, (by rintro _ _ ⟨⟩)⟩, (by rintro _ ⟨⟩)⟩⟩
    · intro r u hb
      exact absurd rfl hb
    · intro r y u hb
      exact absurd rfl hb
    · intro r hb
      exact absurd rfl hb
  · intro es s e s' hrun hinv _ ⟨hans, ih⟩ hs
    rw [Lts.collect_snoc acceptance hrun]
    have hans' := hans.step hinv hs
    refine ⟨hans', fun hlt => ?_⟩
    obtain ⟨hn, hsp⟩ := ih ((taskStep_reqctr hs).trans_lt hlt)
    obtain ⟨r, hstep⟩ := hn.numberStep hinv hs hlt
    exact ⟨hstep.numbered hn (got_unique hinv hn.got hs), hsp.step hn hinv hans' hs hlt⟩

/-- While the counter has not wrapped, a number matches one request on the processing lists at
most, and names the request or its interrupt, not both. -/
theorem number_unambiguous {devices : List Dev} {m c : ℕ} {b : Bool} {es : List (Event τ)}
    (h : FittingRun (connection devices m c b) es s) (hctr : s.reqctr < 2 ^ 64) {d d' : Dev}
    {r y : ReqId} {u : ℕ} (hu : u ≠ 0) (hr : r ∈ s.processing d) (hy : y ∈ s.processing d')
    (hru : (s.req r).unique = u ∨ (s.req r).intrUnique = u)
    (hyu : (s.req y).unique = u ∨ (s.req y).intrUnique = u) :
    r = y ∧ ¬ ((s.req r).unique = u ∧ (s.req r).intrUnique = u) := by
  obtain ⟨hn, -⟩ := h.numbered hctr
  obtain ⟨hb, ha⟩ := h.inv.answers_of_processing hr hu hru
  obtain ⟨hb', ha'⟩ := h.inv.answers_of_processing hy hu hyu
  refine ⟨hn.unique r y u hb hb' ha ha', ?_⟩
  rintro ⟨hq, hin⟩
  obtain ⟨w, hok⟩ := h.inv.of_holds (p := .processing d) hr
  exact hn.apart r hb ((hok.flight _ rfl).isreply rfl) (hq ▸ hu) (hq.trans hin.symm)

/-- While the counter has not wrapped, no request answers to a number that was answered before:
`fuse_dev_do_write` finds nothing and returns `-ENOENT`. -/
theorem answered_number_gone {devices : List Dev} {m c : ℕ} {b : Bool} {es : List (Event τ)}
    (h : FittingRun (connection devices m c b) es s) (hctr : s.reqctr < 2 ^ 64) :
    ∀ x ∈ (conn τ).collect acceptance (connection devices m c b) es,
      ∀ d, requestFind s d x.2 = none := by
  intro x hx d
  obtain ⟨-, hsp⟩ := h.numbered hctr
  obtain ⟨-, hout, hne⟩ := h.past.answered.done x hx
  cases hfind : requestFind s d x.2 with
  | none => rfl
  | some r =>
      have hmem := requestFind_mem hfind
      obtain ⟨hb, ha⟩ := h.inv.answers_of_processing hmem hne (requestFind_match hfind)
      -- the request that was answered has left the processing lists
      obtain rfl := (hsp x hx).2 r hb ha
      obtain ⟨w, hok⟩ := h.inv.of_holds hmem
      have hzero : (s.req x.1).outUnique = 0 := (hok.flight _ rfl).unanswered rfl
      exact absurd (hout.symm.trans hzero) hne

/-! ### The order of delivery -/

/-- The number of the request that a step delivers, if the daemon is to answer it. -/
def deliveredNumber (s : State τ) (e : Event τ) : List ℕ :=
  ((delivery s e).filter fun r => (s.req r).isreply).map fun r => (s.req r).unique

/-- Nobody numbers a request that is on the pending list. -/
theorem pending_keeps (h : Inv s) {op : Op} (hs : taskStep s t op = some s') {y : ReqId}
    (hy : y ∈ s.pending) :
    (s'.req y).isreply = (s.req y).isreply ∧ (s'.req y).unique = (s.req y).unique := by
  obtain ⟨w, hok⟩ := h.of_holds (p := .pending) hy
  have hne : ∀ r, s.pc t = .got r → y ≠ r := by
    rintro r hpc rfl
    exact by cases ((h.of_got hpc).1.place .pending).mp hy
  have hborn : s.heap.life y ≠ .unborn := by
    rw [hok.live_of_place]
    decide
  cases op with
  | requestSend b =>
      obtain ⟨r, hpc, rfl⟩ := taskStep_requestSend hs
      rw [requestSend_req_of_ne (hne r hpc)]
      exact ⟨rfl, rfl⟩
  | sendBackground =>
      obtain ⟨r, hpc, hs⟩ := taskStep_sendBackground hs
      rw [requestSendBackground_req_of_ne hs (hne r hpc)]
      exact ⟨rfl, rfl⟩
  | sendNotifyReply u =>
      obtain ⟨r, hpc, rfl⟩ := taskStep_sendNotifyReply hs
      rw [requestSendNotifyReply_req_of_ne (hne r hpc)]
      exact ⟨rfl, rfl⟩
  | flush =>
      obtain ⟨p, l, -, rfl⟩ := taskStep_flush hs
      rcases flush_cases s t p l with ⟨r, rest, hq, -, heq⟩ | ⟨-, heq⟩
      · have hyr : y ≠ r := by
          rintro rfl
          exact by cases (hok.place .bgQueue).mp (by simp [State.Holds, hq])
        rw [heq, State.req_queueRequest, (Frame.assignUnique r _).req y hyr]
        exact ⟨rfl, rfl⟩
      · rw [heq]
        exact ⟨rfl, rfl⟩
  | _ =>
      exact ⟨Keeps.isreply (taskStep_keeps hs (by simp [Op.writes])) hborn,
        Keeps.unique (taskStep_keeps hs (by simp [Op.writes])) hborn⟩

/-- The numbers `l` were delivered, and the pending list goes on where they end. -/
structure InOrder (l : List ℕ) (s : State τ) : Prop where
  sorted : l.Pairwise (· < ·)
  le : ∀ u ∈ l, u ≤ s.reqctr
  before : ∀ u ∈ l, ∀ r ∈ s.pending, (s.req r).isreply = true → u < (s.req r).unique
  pending : s.pending.Pairwise fun r y =>
    (s.req r).isreply = true → (s.req y).isreply = true → (s.req r).unique < (s.req y).unique
  bound : ∀ r ∈ s.pending, (s.req r).isreply = true → (s.req r).unique ≤ s.reqctr

/-- A step that delivers nothing. -/
theorem InOrder.step_quiet {l : List ℕ} (ho : InOrder l s) (h : Inv s) {op : Op}
    (hs : taskStep s t op = some s') (hlt : s'.reqctr < 2 ^ 64) : InOrder l s' := by
  have hctr := taskStep_reqctr hs
  obtain ⟨l₀, hsub, hnew⟩ := (taskStep_lists hs).pending
  have hkeep : ∀ y ∈ l₀, (s'.req y).isreply = (s.req y).isreply ∧
      (s'.req y).unique = (s.req y).unique := fun y hy => pending_keeps h hs (hsub.mem hy)
  have hbefore : ∀ u ∈ l, ∀ r ∈ l₀, (s'.req r).isreply = true → u < (s'.req r).unique := by
    intro u hu r hr hi
    rw [(hkeep r hr).1] at hi
    rw [(hkeep r hr).2]
    exact ho.before u hu r (hsub.mem hr) hi
  have hbound : ∀ r ∈ l₀, (s'.req r).isreply = true → (s'.req r).unique ≤ s.reqctr := by
    intro r hr hi
    rw [(hkeep r hr).1] at hi
    rw [(hkeep r hr).2]
    exact ho.bound r (hsub.mem hr) hi
  have hpair : l₀.Pairwise fun r y => (s'.req r).isreply = true → (s'.req y).isreply = true →
      (s'.req r).unique < (s'.req y).unique := by
    refine (ho.pending.sublist hsub).imp_of_mem fun {r y} hr hy hlt hi hi' => ?_
    rw [(hkeep r hr).1] at hi
    rw [(hkeep y hy).1] at hi'
    rw [(hkeep r hr).2, (hkeep y hy).2]
    exact hlt hi hi'
  rcases hnew with heq | ⟨r, ⟨hq, -⟩, heq⟩
  · rw [← heq] at hbefore hbound hpair
    exact ⟨ho.sorted, fun u hu => (ho.le u hu).trans hctr, hbefore, hpair,
      fun r hr hi => (hbound r hr hi).trans hctr⟩
  · -- the new request has the next number
    have hnext (hi : (s'.req r).isreply = true) :
        (s'.req r).unique = s.reqctr + 1 ∧ s'.reqctr = s.reqctr + 1 := by
      obtain ⟨hu, hc⟩ := hq hi
      exact ⟨hu.trans (nextUnique_eq (hc ▸ hlt)), hc⟩
    refine ⟨ho.sorted, fun u hu => (ho.le u hu).trans hctr, fun u hu y hy hi => ?_, ?_,
      fun y hy hi => ?_⟩
    · rw [heq] at hy
      rcases List.mem_append.mp hy with hy | hy
      · exact hbefore u hu y hy hi
      · obtain rfl := List.mem_singleton.mp hy
        have hle := ho.le u hu
        have hu' := (hnext hi).1
        omega
    · rw [heq, List.pairwise_append]
      refine ⟨hpair, List.pairwise_singleton _ _, fun y hy z hz hi hi' => ?_⟩
      obtain rfl := List.mem_singleton.mp hz
      have hle := hbound y hy hi
      have hu' := (hnext hi').1
      omega
    · rw [heq] at hy
      rcases List.mem_append.mp hy with hy | hy
      · exact (hbound y hy hi).trans hctr
      · obtain rfl := List.mem_singleton.mp hy
        have hu' := hnext hi
        omega

theorem InOrder.step {l : List ℕ} (ho : InOrder l s) (h : Inv s) {e : Event τ}
    (hs : taskStep s e.task e.op = some s') (hlt : s'.reqctr < 2 ^ 64) :
    InOrder (l ++ deliveredNumber s e) s' := by
  have hq := ho.step_quiet h hs hlt
  obtain ⟨t, op⟩ := e
  by_cases hop : ∃ d, op = .read d
  · obtain ⟨d, rfl⟩ := hop
    have hkeep {y} (hy : y ∈ s.pending) := pending_keeps h hs hy
    obtain ⟨r, rest, hpend, -, rfl⟩ := read_eq (taskStep_read hs).2
    have hmem : r ∈ s.pending := by simp [hpend]
    have hdel : delivery s ⟨t, .read d⟩ = [r] := by simp [delivery, hpend]
    rw [deliveredNumber, hdel]
    cases hi : (s.req r).isreply with
    | false => simpa [hi] using hq
    | true =>
        have hnew : ([r].filter fun r => (s.req r).isreply).map (fun r => (s.req r).unique) =
            [(s.req r).unique] := by simp [hi]
        rw [hnew]
        have hrest : (((((s.touch r).upd r fun q => { q with pending := false }).listDel r).goto t
            (.taken d r)).pending) = rest := by
          change s.pending.erase r = rest
          rw [hpend, List.erase_cons_head]
        have hpair := ho.pending
        rw [hpend, List.pairwise_cons] at hpair
        refine ⟨?_, fun u hu => ?_, fun u hu y hy hiy => ?_, hq.pending, hq.bound⟩
        · rw [List.pairwise_append]
          refine ⟨ho.sorted, List.pairwise_singleton _ _, fun u hu v hv => ?_⟩
          rw [List.mem_singleton.mp hv]
          exact ho.before u hu r hmem hi
        · rcases List.mem_append.mp hu with hu | hu
          · exact hq.le u hu
          · rw [List.mem_singleton.mp hu]
            exact ho.bound r hmem hi
        · rcases List.mem_append.mp hu with hu | hu
          · exact hq.before u hu y hy hiy
          · rw [hrest] at hy
            have hy' : y ∈ s.pending := by simp [hpend, hy]
            rw [List.mem_singleton.mp hu, (hkeep hy').2]
            rw [(hkeep hy').1] at hiy
            exact hpair.1 y hy hi hiy
  · have hdel : delivery s ⟨t, op⟩ = [] := by
      cases op with
      | read d => exact absurd ⟨d, rfl⟩ hop
      | _ => rfl
    rw [deliveredNumber, hdel]
    simpa using hq

/-- While the counter has not wrapped, the daemon gets the requests that it is to answer in the
order of their numbers. -/
theorem delivery_in_order {devices : List Dev} {m c : ℕ} {b : Bool} {es : List (Event τ)}
    (h : FittingRun (connection devices m c b) es s) (hctr : s.reqctr < 2 ^ 64) :
    ((conn τ).collect deliveredNumber (connection devices m c b) es).Pairwise (· < ·) := by
  suffices hall : s.reqctr < 2 ^ 64 →
      InOrder ((conn τ).collect deliveredNumber (connection devices m c b) es) s from
    (hall hctr).sorted
  refine h.history (P := fun es s => s.reqctr < 2 ^ 64 →
    InOrder ((conn τ).collect deliveredNumber (connection devices m c b) es) s) ?_ ?_
  · exact fun _ => ⟨.nil, (by rintro _ ⟨⟩), (by rintro _ ⟨⟩), .nil, (by rintro _ ⟨⟩)⟩
  · intro es s e s' hrun hinv _ ih hs hlt
    rw [Lts.collect_snoc deliveredNumber hrun]
    exact (ih ((taskStep_reqctr hs).trans_lt hlt)).step hinv hs hlt

/-! ### A run with two requests -/

omit [DecidableEq τ] in
/-- The tasks `t` and `u` want answers, and the daemon `v` answers to the second request first. -/
def twoRun (t u v : τ) : List (Event τ) :=
  [⟨t, .requestAlloc 7 false⟩, ⟨t, .requestSend true⟩, ⟨u, .requestAlloc 9 false⟩,
    ⟨u, .requestSend true⟩, ⟨v, .read 0⟩, ⟨v, .startIo⟩, ⟨v, .copied true⟩, ⟨v, .markSent⟩,
    ⟨v, .testInterrupted⟩, ⟨v, .read 0⟩, ⟨v, .startIo⟩, ⟨v, .copied true⟩, ⟨v, .markSent⟩,
    ⟨v, .testInterrupted⟩, ⟨v, .write 0 2 0⟩]

theorem fittingRun_two : ∃ s : State (Fin 3),
    FittingRun (connection [0] 12 9 true) (twoRun 0 1 2) s ∧
    s.reqctr < 2 ^ 64 ∧ 7 ∈ s.processing 0 ∧ (s.req 7).unique = 1 := by
  have hrun : ((conn (Fin 3)).run (connection [0] 12 9 true) (twoRun 0 1 2)).any fun s =>
      s.reqctr < 2 ^ 64 ∧ 7 ∈ s.processing 0 ∧ (s.req 7).unique = 1 := by
    decide +kernel
  obtain ⟨s, hs, hfacts⟩ := (Option.any_eq_true _ _).mp hrun
  exact ⟨s, ⟨hs, by decide +kernel⟩, of_decide_eq_true hfacts⟩

theorem number_unambiguous_two : ∃ s : State (Fin 3),
    FittingRun (connection [0] 12 9 true) (twoRun 0 1 2) s ∧
    ∀ r ∈ s.processing 0, (s.req r).unique = 1 ∨ (s.req r).intrUnique = 1 →
      7 = r ∧ ¬ ((s.req 7).unique = 1 ∧ (s.req 7).intrUnique = 1) := by
  obtain ⟨s, hs, hctr, hmem, hq⟩ := fittingRun_two
  exact ⟨s, hs, fun r hr hu => number_unambiguous hs hctr Nat.one_ne_zero hmem hr (.inl hq) hu⟩

theorem answered_number_gone_two : ∃ s : State (Fin 3),
    FittingRun (connection [0] 12 9 true) (twoRun 0 1 2) s ∧
    ∀ x ∈ (conn (Fin 3)).collect acceptance (connection [0] 12 9 true) (twoRun 0 1 2),
      ∀ d, requestFind s d x.2 = none := by
  obtain ⟨s, hs, hctr, -⟩ := fittingRun_two
  exact ⟨s, hs, answered_number_gone hs hctr⟩

theorem delivery_in_order_two : ∃ s : State (Fin 3),
    FittingRun (connection [0] 12 9 true) (twoRun 0 1 2) s ∧
    ((conn (Fin 3)).collect deliveredNumber (connection [0] 12 9 true) (twoRun 0 1 2)).Pairwise
      (· < ·) := by
  obtain ⟨s, hs, hctr, -⟩ := fittingRun_two
  exact ⟨s, hs, delivery_in_order hs hctr⟩

end KernelMemo.Fuse
