import KernelMemo.Fuse.RequestWrites

/-! # Where a step leads

* **Tasks.**  `Goes` is the control flow of the machine: from which place to which an operation
  leads a task.  `taskStep_moves` says that a step moves no task otherwise.
* **Lists.**  `ListStep` says what may come onto the lists of requests, and from where;
  everything else that happens to a list takes requests off it. -/

namespace KernelMemo.Fuse

variable {τ : Type*} {s s' : State τ} {r : ReqId} {t : τ} {d : Dev} [DecidableEq τ]

/-! ### The way of a task -/

/-- Where the operations lead a task. -/
inductive Goes : Op → Pc → Pc → Prop where
  | blockAlloc (b : Bool) : Goes (.blockAlloc b) .idle (.getting b)
  | getReq (r : ReqId) (b force : Bool) : Goes (.getReq (some r) force) (.getting b) (.got r)
  | getReqFail (b force : Bool) : Goes (.getReq none force) (.getting b) .idle
  | requestAlloc (r : ReqId) (force : Bool) : Goes (.requestAlloc r force) .idle (.got r)
  | putGot (r : ReqId) : Goes .putRequest (.got r) .idle
  | putAnswered (r : ReqId) : Goes .putRequest (.answered r) .idle
  | requestSend (r : ReqId) (b : Bool) : Goes (.requestSend b) (.got r) (.waitAnswer r)
  | requestSendFail (r : ReqId) (b : Bool) : Goes (.requestSend b) (.got r) (.answered r)
  | sendBackground (r : ReqId) : Goes .sendBackground (.got r) .sendFlush
  | sendBackgroundFail (r : ReqId) : Goes .sendBackground (.got r) .idle
  | sendNotifyReply (r : ReqId) (u : ℕ) : Goes (.sendNotifyReply u) (.got r) .idle
  | waitAnswer (r : ReqId) : Goes .waitAnswer (.waitAnswer r) (.waitIntr r)
  | waitAnswerForce (r : ReqId) : Goes .waitAnswer (.waitAnswer r) (.testForce r)
  | signal (r : ReqId) : Goes .signal (.waitIntr r) (.marked r)
  | testSent (r : ReqId) : Goes .testSent (.marked r) (.queueIntr r)
  | testSentNot (r : ReqId) : Goes .testSent (.marked r) (.testForce r)
  | queueIntr (r : ReqId) : Goes .queueInterrupt (.queueIntr r) (.testForce r)
  | devIntr (r : ReqId) : Goes .queueInterrupt (.devIntr r) .idle
  | testForce (r : ReqId) : Goes .testForce (.testForce r) (.waitEvent r)
  | testForceNot (r : ReqId) : Goes .testForce (.testForce r) (.waitKill r)
  | kill (r : ReqId) : Goes .kill (.waitKill r) (.killed r)
  | bail (r : ReqId) : Goes .bail (.killed r) (.answered r)
  | bailNot (r : ReqId) : Goes .bail (.killed r) (.waitEvent r)
  | wokenIntr (r : ReqId) : Goes .woken (.waitIntr r) (.answered r)
  | wokenKill (r : ReqId) : Goes .woken (.waitKill r) (.answered r)
  | wokenEvent (r : ReqId) : Goes .woken (.waitEvent r) (.answered r)
  | read (d : Dev) (r : ReqId) : Goes (.read d) .idle (.taken d r)
  | tooLarge (d : Dev) (r : ReqId) (b : Bool) :
      Goes (.tooLarge b) (.taken d r) (.ending .finish r false)
  | startIo (d : Dev) (r : ReqId) : Goes .startIo (.taken d r) (.copying d r)
  | copied (d : Dev) (r : ReqId) (ok : Bool) : Goes (.copied ok) (.copying d r) (.moved r)
  | copiedEnd (d : Dev) (r : ReqId) (ok : Bool) :
      Goes (.copied ok) (.copying d r) (.ending .finish r false)
  | markSent (r : ReqId) : Goes .markSent (.moved r) (.sent r)
  | testInterrupted (r : ReqId) : Goes .testInterrupted (.sent r) (.devIntr r)
  | testInterruptedNot (r : ReqId) : Goes .testInterrupted (.sent r) .idle
  | write (d : Dev) (u : ℕ) (e : ℤ) (r : ReqId) : Goes (.write d u e) .idle (.replying d r)
  | writeIntr (d : Dev) (u : ℕ) (e : ℤ) (r : ReqId) : Goes (.write d u e) .idle (.intrReply r e)
  | interruptReply (r : ReqId) (e : ℤ) (b : Bool) :
      Goes (.interruptReply b) (.intrReply r e) .idle
  | interruptAgain (r : ReqId) (e : ℤ) (b : Bool) :
      Goes (.interruptReply b) (.intrReply r e) (.devIntr r)
  | wrote (d : Dev) (r : ReqId) (ok : Bool) :
      Goes (.wrote ok) (.replying d r) (.ending .finish r false)
  | finish (r : ReqId) (b : Bool) : Goes .finish (.ending .finish r b) (.ending .unqueue r b)
  | finishAgain (r : ReqId) : Goes .finish (.ending .finish r false) .idle
  | finishAgainAbort (r : ReqId) : Goes .finish (.ending .finish r true) .abortEnd
  | unqueue (r : ReqId) (b : Bool) : Goes .unqueue (.ending .unqueue r b) (.ending .account r b)
  | unqueueWake (r : ReqId) (b : Bool) : Goes .unqueue (.ending .unqueue r b) (.ending .wake r b)
  | account (r : ReqId) (b : Bool) : Goes .account (.ending .account r b) (.ending .flush r b)
  | flush (r : ReqId) (b : Bool) : Goes .flush (.ending .flush r b) (.ending .wake r b)
  | sendFlush : Goes .flush .sendFlush .idle
  | abortFlush : Goes .flush .abortFlush .abortSplice
  | wake (r : ReqId) : Goes .wake (.ending .wake r false) .idle
  | wakeAbort (r : ReqId) : Goes .wake (.ending .wake r true) .abortEnd
  | abort (ds : List Dev) : Goes .abort .idle (.abortDev ds)
  | abortDev (d : Dev) (ds : List Dev) : Goes .abortDev (.abortDev (d :: ds)) (.abortDev ds)
  | abortDevDone : Goes .abortDev (.abortDev []) .abortFlush
  | abortSplice : Goes .abortSplice .abortSplice .abortEnd
  | abortEnd (r : ReqId) : Goes .abortEnd .abortEnd (.ending .finish r true)
  | abortEndDone : Goes .abortEnd .abortEnd .idle

/-- The operation may leave its task where it is. -/
def Op.stays : Op → Bool
  | .setBackground | .readInterrupt | .readForget | .lockRequest | .unlockRequest | .write _ _ _
  | .flush | .abort | .setMaxBackground _ | .setCongestionThreshold _ => true
  | _ => false

/-- The step leads the task where the table says, and no other task anywhere. -/
def Moves (op : Op) (s s' : State τ) (t : τ) : Prop :=
  (op.stays = true ∧ s'.pc = s.pc) ∨ ∃ q, Goes op (s.pc t) q ∧ s'.pc = Function.update s.pc t q

theorem Moves.of_goes {op : Op} {p q : Pc} (hp : s.pc t = p) (h : Goes op p q)
    (hpc : s'.pc = Function.update s.pc t q) : Moves op s s' t :=
  .inr ⟨q, hp ▸ h, hpc⟩

omit [DecidableEq τ] in
theorem pc_putRequest (s : State τ) (r : ReqId) : (s.putRequest r).pc = s.pc := by
  unfold State.putRequest
  simp only
  split <;> rfl

theorem pc_outEnd (s : State τ) (t : τ) (r : ReqId) :
    (outEnd s t r).pc = Function.update s.pc t (.ending .finish r false) := by
  unfold outEnd
  split <;> rfl

theorem moves_requestAlloc {op : Op} {p : Pc} {b c : Bool} (hp : s.pc t = p)
    (h : Goes op p (.got r)) (hs : requestAlloc s t r b c = some s') : Moves op s s' t := by
  simp only [requestAlloc, Option.map_eq_some_iff] at hs
  obtain ⟨heap, -, rfl⟩ := hs
  exact .of_goes hp h rfl

theorem moves_woken {p : Pc} (hp : s.pc t = p) (h : Goes .woken p (.answered r))
    (hs : woken s t r = some s') : Moves .woken s s' t := by
  unfold woken at hs
  split at hs <;> cases hs
  exact .of_goes hp h rfl

theorem moves_flush {q : Pc} (l : Option τ) (h : Goes .flush (s.pc t) q) :
    Moves .flush s (flush s t q l) t := by
  unfold flush
  split
  · split
    · exact .inl ⟨rfl, rfl⟩
    · exact .of_goes rfl h rfl
  · exact .of_goes rfl h rfl

omit [DecidableEq τ] in
theorem Flushes.goes {p q : Pc} {l : Option τ} (h : Flushes s p q l) : Goes .flush p q := by
  cases h with
  | ending r abort => exact .flush r abort
  | send => exact .sendFlush
  | abort => exact .abortFlush

theorem taskStep_goes {op : Op} (hs : taskStep s t op = some s') : Moves op s s' t := by
  cases taskStep_cases hs with
  | blockAlloc b hpc h =>
      unfold blockAlloc at h
      split at h <;> cases h
      exact .of_goes hpc (.blockAlloc b) rfl
  | getReq _ b force hpc h =>
      unfold getReq at h
      split at h
      next r =>
        split at h
        · exact moves_requestAlloc hpc (.getReq r b force) h
        · cases h
      next =>
        cases h
        exact .of_goes hpc (.getReqFail b force) rfl
  | requestAlloc r force hpc h => exact moves_requestAlloc hpc (.requestAlloc r force) h
  | putRequest r hpc h =>
      subst h
      have hput := congrArg (Function.update · t Pc.idle) (pc_putRequest s r)
      rcases hpc with hpc | hpc
      · exact .of_goes hpc (.putGot r) hput
      · exact .of_goes hpc (.putAnswered r) hput
  | requestSend r b hpc h =>
      subst h
      unfold requestSend
      simp only
      split
      · exact .of_goes hpc (.requestSend r b) rfl
      · exact .of_goes hpc (.requestSendFail r b) rfl
  | sendBackground r hpc h =>
      unfold requestSendBackground at h
      split at h
      · cases h
      · split at h <;> cases h
        · exact .of_goes hpc (.sendBackground r) rfl
        · exact .of_goes hpc (.sendBackgroundFail r)
            (congrArg (Function.update · t _) (pc_putRequest _ r))
  | sendNotifyReply r u hpc h =>
      subst h
      unfold requestSendNotifyReply
      simp only
      split <;> exact .of_goes hpc (.sendNotifyReply r u) rfl
  | waitAnswer r hpc h =>
      subst h
      unfold waitAnswer
      split
      · exact .of_goes hpc (.waitAnswerForce r) rfl
      · exact .of_goes hpc (.waitAnswer r) rfl
  | signal r hpc h => subst h; exact .of_goes hpc (.signal r) rfl
  | testSent r hpc h =>
      subst h
      unfold testSent
      split
      · exact .of_goes hpc (.testSent r) rfl
      · exact .of_goes hpc (.testSentNot r) rfl
  | queueIntr r hpc h =>
      subst h
      exact .of_goes hpc (.queueIntr r) (congrArg (Function.update · t _) (queueInterrupt_pc _ r))
  | devIntr r hpc h =>
      subst h
      exact .of_goes hpc (.devIntr r) (congrArg (Function.update · t _) (queueInterrupt_pc _ r))
  | testForce r hpc h =>
      subst h
      unfold testForce
      split
      · exact .of_goes hpc (.testForce r) rfl
      · exact .of_goes hpc (.testForceNot r) rfl
  | kill r hpc h => subst h; exact .of_goes hpc (.kill r) rfl
  | bail r hpc h =>
      subst h
      unfold bail
      simp only
      split
      · exact .of_goes hpc (.bail r) rfl
      · exact .of_goes hpc (.bailNot r) rfl
  | woken r hpc h =>
      rcases hpc with hpc | hpc | hpc
      · exact moves_woken hpc (.wokenIntr r) h
      · exact moves_woken hpc (.wokenKill r) h
      · exact moves_woken hpc (.wokenEvent r) h
  | readInterrupt _ h =>
      unfold readInterrupt at h
      split at h
      · split at h <;> cases h
        exact .inl ⟨rfl, rfl⟩
      · cases h
  | readForget _ _ => rw [taskStep_readForget hs]; exact .inl ⟨rfl, rfl⟩
  | read d hpc h =>
      unfold read at h
      split at h
      next r rest hpend =>
        split at h <;> cases h
        exact .of_goes hpc (.read d r) rfl
      next => cases h
  | tooLarge d r b hpc h => subst h; exact .of_goes hpc (.tooLarge d r b) rfl
  | startIo d r hpc h => subst h; exact .of_goes hpc (.startIo d r) rfl
  | copied d r ok hpc h =>
      subst h
      unfold copied
      simp only
      split
      · exact .of_goes hpc (.copiedEnd d r ok) (pc_outEnd _ _ _)
      · split
        · exact .of_goes hpc (.copiedEnd d r ok) (pc_outEnd _ _ _)
        · split
          · exact .of_goes hpc (.copiedEnd d r ok) (pc_outEnd _ _ _)
          · exact .of_goes hpc (.copied d r ok) rfl
  | markSent r hpc h => subst h; exact .of_goes hpc (.markSent r) rfl
  | testInterrupted r hpc h =>
      subst h
      unfold testInterrupted
      split
      · exact .of_goes hpc (.testInterrupted r) rfl
      · exact .of_goes hpc (.testInterruptedNot r) rfl
  | write d u e hpc h =>
      unfold write at h
      split at h
      · cases h
      · split at h
        · cases h; exact .inl ⟨rfl, rfl⟩
        · split at h
          next => cases h; exact .inl ⟨rfl, rfl⟩
          next r hfind =>
            simp only at h
            split at h <;> cases h
            · exact .of_goes hpc (.writeIntr d u e r) rfl
            · exact .of_goes hpc (.write d u e r) rfl
  | interruptReply r e b hpc h =>
      subst h
      unfold interruptReply
      split
      · exact .of_goes hpc (.interruptReply r e b) rfl
      · split
        · exact .of_goes hpc (.interruptReply r e b) rfl
        · split
          · exact .of_goes hpc (.interruptAgain r e b) rfl
          · exact .of_goes hpc (.interruptReply r e b) rfl
  | wrote d r ok hpc h =>
      subst h
      refine .of_goes hpc (.wrote d r ok) ((pc_outEnd _ _ _).trans ?_)
      split <;> rfl
  | finish r b hpc h =>
      subst h
      unfold finish
      simp only
      split
      · cases b with
        | false => exact .of_goes hpc (.finishAgain r) rfl
        | true => exact .of_goes hpc (.finishAgainAbort r) rfl
      · exact .of_goes hpc (.finish r b) rfl
  | unqueue r b hpc h =>
      subst h
      unfold unqueue
      simp only
      split
      · exact .of_goes hpc (.unqueue r b) rfl
      · exact .of_goes hpc (.unqueueWake r b) rfl
  | account r b hpc h =>
      unfold account at h
      split at h <;> cases h
      exact .of_goes hpc (.account r b) rfl
  | flush _ l hpc h => subst h; exact moves_flush l hpc.goes
  | wake r b hpc h =>
      subst h
      have hput := congrArg (Function.update · t (if b then .abortEnd else Pc.idle))
        (pc_putRequest (s.touch r) r)
      cases b with
      | false => exact .of_goes hpc (.wake r) hput
      | true => exact .of_goes hpc (.wakeAbort r) hput
  | abort hpc h =>
      unfold abort at h
      split at h
      · cases h
      · split at h <;> cases h
        · exact .of_goes hpc (.abort s.devices) rfl
        · exact .inl ⟨rfl, rfl⟩
  | abortDev ds hpc h =>
      subst h
      cases ds with
      | nil => exact .of_goes hpc .abortDevDone rfl
      | cons d ds => exact .of_goes hpc (.abortDev d ds) rfl
  | abortSplice hpc h => subst h; exact .of_goes hpc .abortSplice rfl
  | abortEnd hpc h =>
      subst h
      unfold abortEnd
      split
      · exact .of_goes hpc (.abortEnd _) rfl
      · exact .of_goes hpc (.abortEnd _) rfl
      · exact .of_goes hpc .abortEndDone rfl
  | setBackground _ _ h | lockRequest _ _ _ h | unlockRequest _ _ _ h | setMaxBackground _ _ h
  | setCongestionThreshold _ _ h =>
      subst h
      exact .inl ⟨rfl, rfl⟩

theorem taskStep_moves {op : Op} (hs : taskStep s t op = some s') :
    s'.pc = s.pc ∨ ∃ q, Goes op (s.pc t) q ∧ s'.pc = Function.update s.pc t q :=
  (taskStep_goes hs).imp And.right id

/-! ### The lists -/

/-- The list loses some of its requests, and a request with `new` may come to its end. -/
def Grows (l l' : List ReqId) (new : ReqId → Prop) : Prop :=
  ∃ l₀, l₀.Sublist l ∧ (l' = l₀ ∨ ∃ r, new r ∧ l' = l₀ ++ [r])

theorem Grows.of_sublist {l l' : List ReqId} {new : ReqId → Prop} (h : l'.Sublist l) :
    Grows l l' new := ⟨l', h, .inl rfl⟩

theorem Grows.snoc {l l₀ : List ReqId} {new : ReqId → Prop} (h : l₀.Sublist l) (hr : new r) :
    Grows l (l₀ ++ [r]) new := ⟨l₀, h, .inr ⟨r, hr, rfl⟩⟩

theorem Grows.mem {l l' : List ReqId} {new : ReqId → Prop} (h : Grows l l' new) (hr : r ∈ l') :
    r ∈ l ∨ new r := by
  obtain ⟨l₀, hsub, rfl | ⟨y, hy, rfl⟩⟩ := h
  · exact .inl (hsub.mem hr)
  · rcases List.mem_append.mp hr with hr | hr
    · exact .inl (hsub.mem hr)
    · rw [List.mem_singleton.mp hr]
      exact .inr hy

/-- A request that comes onto the pending list has the next number, or wants no reply. -/
def Queued (s s' : State τ) (r : ReqId) : Prop :=
  (s'.req r).isreply = true → (s'.req r).unique = s.nextUnique ∧ s'.reqctr = s.reqctr + 1

/-- What comes onto the lists in a step. -/
structure ListStep (s s' : State τ) (t : τ) : Prop where
  bgQueue : Grows s.bgQueue s'.bgQueue fun r => s.pc t = .got r ∧ s.connected = true
  pending : Grows s.pending s'.pending fun r => Queued s s' r ∧
    (s.pc t = .got r ∧ s.fiqConnected = true ∨ s.bgQueue.head? = some r)
  processing : ∀ d, Grows (s.processing d) (s'.processing d) fun r =>
    s.pc t = .copying d r ∧ s.pqConnected d = true
  toEnd2 : ∀ r ∈ s'.toEnd2, r ∈ s.toEnd2 ∨
    (∃ d ds, s.pc t = .abortDev (d :: ds) ∧ r ∈ s.processing d) ∨
    s.pc t = .abortSplice ∧ r ∈ s.pending

namespace ListStep

omit [DecidableEq τ]

/-- Requests are only taken off the lists. -/
theorem of_sublist (hbg : s'.bgQueue.Sublist s.bgQueue) (hpend : s'.pending.Sublist s.pending)
    (hproc : ∀ d, (s'.processing d).Sublist (s.processing d))
    (hend : s'.toEnd2.Sublist s.toEnd2) : ListStep s s' t :=
  ⟨.of_sublist hbg, .of_sublist hpend, fun d => .of_sublist (hproc d),
    fun _ hr => .inl (hend.mem hr)⟩

theorem same (hbg : s'.bgQueue = s.bgQueue) (hpend : s'.pending = s.pending)
    (hproc : s'.processing = s.processing) (hend : s'.toEnd2 = s.toEnd2) : ListStep s s' t :=
  of_sublist (by rw [hbg]) (by rw [hpend]) (fun d => by rw [hproc]) (by rw [hend])

theorem listDel (hbg : s'.bgQueue = s.bgQueue.erase r) (hpend : s'.pending = s.pending.erase r)
    (hproc : s'.processing = fun d => (s.processing d).erase r)
    (hend : s'.toEnd2 = s.toEnd2.erase r) : ListStep s s' t :=
  of_sublist (hbg ▸ List.erase_sublist) (hpend ▸ List.erase_sublist)
    (fun d => by rw [hproc]; exact List.erase_sublist) (hend ▸ List.erase_sublist)

end ListStep

omit [DecidableEq τ] in
theorem listStep_putRequest {s₁ : State τ} (h : s₁.bgQueue = s.bgQueue ∧
    s₁.pending = s.pending ∧ s₁.processing = s.processing ∧ s₁.toEnd2 = s.toEnd2) :
    (s₁.putRequest r).bgQueue = s.bgQueue ∧ (s₁.putRequest r).pending = s.pending ∧
      (s₁.putRequest r).processing = s.processing ∧ (s₁.putRequest r).toEnd2 = s.toEnd2 := by
  unfold State.putRequest
  simp only
  split <;> exact h

theorem listStep_requestAlloc {b c : Bool} (hs : requestAlloc s t r b c = some s') :
    ListStep s s' t := by
  simp only [requestAlloc, Option.map_eq_some_iff] at hs
  obtain ⟨heap, -, rfl⟩ := hs
  exact .same rfl rfl rfl rfl

theorem listStep_queueInterrupt (s s₁ : State τ) (hbg : s₁.bgQueue = s.bgQueue)
    (hpend : s₁.pending = s.pending) (hproc : s₁.processing = s.processing)
    (hend : s₁.toEnd2 = s.toEnd2) (p : Pc) :
    ListStep s ((s₁.queueInterrupt r).goto t p) t := by
  unfold State.queueInterrupt
  split
  · exact .same hbg hpend hproc hend
  · split <;> exact .same hbg hpend hproc hend

theorem listStep_woken (hs : woken s t r = some s') : ListStep s s' t := by
  unfold woken at hs
  split at hs <;> cases hs
  exact .same rfl rfl rfl rfl

theorem listStep_outEnd {s₁ : State τ} (hbg : s₁.bgQueue = s.bgQueue)
    (hpend : s₁.pending = s.pending) (hproc : s₁.processing = s.processing)
    (hend : s₁.toEnd2 = s.toEnd2) : ListStep s (outEnd s₁ t r) t := by
  unfold outEnd
  split
  · exact .same hbg hpend hproc hend
  · exact .listDel (r := r) (congrArg (List.erase · r) hbg) (congrArg (List.erase · r) hpend)
      (congrArg (fun l d => List.erase (l d) r) hproc) (congrArg (List.erase · r) hend)

theorem listStep_flush (p : Pc) (l : Option τ) : ListStep s (flush s t p l) t := by
  unfold flush
  split
  next r rest hq =>
    split
    · refine ⟨.of_sublist List.erase_sublist,
        .snoc List.erase_sublist ⟨fun _ => ⟨?_, rfl⟩, .inr ?_⟩,
        fun d => .of_sublist List.erase_sublist, fun _ hr => .inl (List.mem_of_mem_erase hr)⟩
      · rw [State.req_queueRequest, State.req_assignUnique_self]
        rfl
      · rw [hq]
        rfl
    · exact .same rfl rfl rfl rfl
  next => exact .same rfl rfl rfl rfl

theorem taskStep_lists {op : Op} (hs : taskStep s t op = some s') : ListStep s s' t := by
  have hput (s₁ : State τ) {s₂ : State τ} {r : ReqId} (h₁ : s₁.bgQueue = s.bgQueue ∧
      s₁.pending = s.pending ∧ s₁.processing = s.processing ∧ s₁.toEnd2 = s.toEnd2)
      {p : Pc} (h₂ : s₂ = (s₁.putRequest r).goto t p) : ListStep s s₂ t := by
    obtain ⟨hbg, hpend, hproc, hend⟩ := listStep_putRequest (r := r) h₁
    rw [h₂]
    exact .same hbg hpend hproc hend
  cases taskStep_cases hs with
  | blockAlloc _ _ h =>
      unfold blockAlloc at h
      split at h <;> cases h
      exact .same rfl rfl rfl rfl
  | getReq _ _ _ _ h =>
      unfold getReq at h
      split at h
      · split at h
        · exact listStep_requestAlloc h
        · cases h
      · cases h
        exact .same rfl rfl rfl rfl
  | requestAlloc _ _ _ h => exact listStep_requestAlloc h
  | putRequest _ _ h => exact hput s ⟨rfl, rfl, rfl, rfl⟩ h
  | requestSend r _ hpc h =>
      subst h
      unfold requestSend
      simp only
      split
      next hconn =>
        refine ⟨.of_sublist (.refl _), .snoc (.refl _) ⟨fun _ => ⟨?_, rfl⟩, .inl ⟨hpc, hconn⟩⟩,
          fun _ => .of_sublist (.refl _), fun _ => .inl⟩
        rw [State.req_goto, State.req_upd_self, State.req_queueRequest,
          State.req_assignUnique_self]
        rfl
      next => exact .same rfl rfl rfl rfl
  | sendBackground r hpc h =>
      unfold requestSendBackground at h
      split at h
      · cases h
      · split at h <;> cases h
        next hconn =>
          exact ⟨.snoc (.refl _) ⟨hpc, hconn⟩, .of_sublist (.refl _),
            fun _ => .of_sublist (.refl _), fun _ => .inl⟩
        next =>
          exact hput ((s.touch _).upd _ fun q => { q with error := -ENOTCONN })
            ⟨rfl, rfl, rfl, rfl⟩ rfl
  | sendNotifyReply r _ hpc h =>
      subst h
      unfold requestSendNotifyReply
      simp only
      split
      next hconn =>
        refine ⟨.of_sublist (.refl _), .snoc (.refl _) ⟨fun hi => ?_, .inl ⟨hpc, hconn⟩⟩,
          fun _ => .of_sublist (.refl _), fun _ => .inl⟩
        rw [State.req_goto, State.req_queueRequest, State.req_upd_self] at hi
        cases hi
      next => exact .same rfl rfl rfl rfl
  | queueIntr r _ h | devIntr r _ h =>
      subst h
      exact listStep_queueInterrupt s (s.touch r) rfl rfl rfl rfl _
  | bail r _ h =>
      subst h
      unfold bail
      simp only
      split
      · exact .listDel (r := r) rfl rfl rfl rfl
      · exact .same rfl rfl rfl rfl
  | woken _ _ h => exact listStep_woken h
  | readInterrupt _ h =>
      unfold readInterrupt at h
      split at h
      · split at h <;> cases h
        exact .same rfl rfl rfl rfl
      · cases h
  | readForget _ _ => rw [taskStep_readForget hs]; exact .same rfl rfl rfl rfl
  | read _ _ h =>
      unfold read at h
      split at h
      next r rest hpend =>
        split at h <;> cases h
        exact .listDel (r := r) rfl rfl rfl rfl
      next => cases h
  | copied d r _ hpc h =>
      subst h
      unfold copied
      simp only
      split
      next => exact listStep_outEnd rfl rfl rfl rfl
      next hconn =>
        split
        next => exact listStep_outEnd rfl rfl rfl rfl
        next =>
          split
          next => exact listStep_outEnd rfl rfl rfl rfl
          next =>
            refine ⟨.of_sublist List.erase_sublist, .of_sublist List.erase_sublist, fun d' => ?_,
              fun _ hr => .inl (List.mem_of_mem_erase hr)⟩
            by_cases hd : d' = d
            · subst hd
              have hconn' : s.pqConnected d' = true := by
                rw [Bool.not_eq_true', Bool.not_eq_false] at hconn
                exact hconn
              simp only [State.goto, State.queueProcessing, Function.update_self]
              exact .snoc List.erase_sublist ⟨hpc, hconn'⟩
            · simp only [State.goto, State.queueProcessing, Function.update_of_ne hd]
              exact .of_sublist List.erase_sublist
  | write _ _ _ _ h =>
      unfold write at h
      split at h
      · cases h
      · split at h
        · cases h; exact .same rfl rfl rfl rfl
        · split at h
          next => cases h; exact .same rfl rfl rfl rfl
          next r hfind =>
            simp only at h
            split at h <;> cases h
            · exact .same rfl rfl rfl rfl
            · exact .listDel (r := r) rfl rfl rfl rfl
  | interruptReply _ _ _ _ h =>
      subst h
      unfold interruptReply
      split
      · exact .same rfl rfl rfl rfl
      · split
        · exact .same rfl rfl rfl rfl
        · split <;> exact .same rfl rfl rfl rfl
  | wrote _ _ _ _ h =>
      subst h
      unfold wrote
      simp only
      split <;> exact listStep_outEnd rfl rfl rfl rfl
  | finish _ _ _ h =>
      subst h
      unfold finish
      simp only
      split <;> exact .same rfl rfl rfl rfl
  | account _ _ _ h =>
      unfold account at h
      split at h <;> cases h
      exact .same rfl rfl rfl rfl
  | flush _ _ _ h => subst h; exact listStep_flush _ _
  | wake r _ _ h => exact hput (s.touch r) ⟨rfl, rfl, rfl, rfl⟩ h
  | abort _ h =>
      unfold abort at h
      split at h
      · cases h
      · split at h <;> cases h <;> exact .same rfl rfl rfl rfl
  | abortDev ds hpc h =>
      subst h
      cases ds with
      | nil => exact .same rfl rfl rfl rfl
      | cons d ds =>
          refine ⟨.of_sublist (.refl _), .of_sublist (.refl _), fun d' => ?_, fun r hr => ?_⟩
          · by_cases hd : d' = d
            · simp only [abortDev, State.goto, hd, Function.update_self]
              exact .of_sublist (List.nil_sublist _)
            · simp only [abortDev, State.goto, Function.update_of_ne hd]
              exact .of_sublist (.refl _)
          · rcases List.mem_append.mp hr with hr | hr
            · exact .inr (.inl ⟨d, ds, hpc, hr⟩)
            · exact .inl hr
  | abortSplice hpc h =>
      subst h
      refine ⟨.of_sublist (.refl _), .of_sublist (List.nil_sublist _),
        fun d => .of_sublist (.refl _), fun r hr => ?_⟩
      rcases List.mem_append.mp hr with hr | hr
      · exact .inr (.inr ⟨hpc, hr⟩)
      · exact .inl hr
  | abortEnd _ h =>
      subst h
      unfold abortEnd
      split
      next r _ _ => exact .listDel (r := r) rfl rfl rfl rfl
      next r _ _ _ => exact .listDel (r := r) rfl rfl rfl rfl
      next => exact .same rfl rfl rfl rfl
  | setBackground _ _ h | waitAnswer _ _ h | signal _ _ h | testSent _ _ h | testForce _ _ h
  | kill _ _ h | tooLarge _ _ _ _ h | startIo _ _ _ h | lockRequest _ _ _ h
  | unlockRequest _ _ _ h | markSent _ _ h | testInterrupted _ _ h | unqueue _ _ _ h
  | setMaxBackground _ _ h | setCongestionThreshold _ _ h =>
      subst h
      exact .same rfl rfl rfl rfl

end KernelMemo.Fuse
