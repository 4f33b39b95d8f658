import KernelMemo.Fuse.RequestCases
import KernelMemo.Fuse.RequestSteps

/-! # What a step writes

`Op.writes` is the table of the fields of requests that the steps of the source write;
`taskStep_keeps` says that they write no others.  A result that follows a few fields along a run
needs to look at the steps that write them only.  Requests that are not allocated yet are left
out: their memory is not theirs. -/

namespace KernelMemo.Fuse

/-- The fields of a request that are followed along runs. -/
inductive Field where
  | isreply
  | background
  | interrupted
  | pending
  | sent
  | finished
  | unique
  | intrUnique
  | outUnique
deriving DecidableEq, Repr

variable {τ : Type*} {s s' s'' : State τ} {r : ReqId} {t : τ} {f : Field}

/-- The requests agree in the field. -/
def Field.Agree (q q' : Req) : Field → Prop
  | isreply => q'.isreply = q.isreply
  | background => q'.background = q.background
  | interrupted => q'.interrupted = q.interrupted
  | pending => q'.pending = q.pending
  | sent => q'.sent = q.sent
  | finished => q'.finished = q.finished
  | unique => q'.unique = q.unique
  | intrUnique => q'.intrUnique = q.intrUnique
  | outUnique => q'.outUnique = q.outUnique

theorem Field.agree_refl (q : Req) : f.Agree q q := by
  cases f <;> rfl

theorem Field.Agree.trans {q q' q'' : Req} (h : f.Agree q q') (h' : f.Agree q' q'') :
    f.Agree q q'' := by
  cases f <;> exact Eq.trans h' h

/-- The fields that a step writes. -/
def Op.writes : Op → List Field
  | .setBackground | .account => [.background]
  | .requestSend _ | .sendNotifyReply _ => [.isreply, .unique]
  | .sendBackground => [.isreply]
  | .signal => [.interrupted]
  | .readInterrupt => [.intrUnique]
  | .read _ | .abortSplice => [.pending]
  | .markSent | .abortEnd => [.sent]
  | .write _ _ _ => [.sent, .outUnique]
  | .finish => [.finished]
  | .flush => [.unique]
  | _ => []

/-- The requests that there are stay, and the field `f` of them is not written. -/
def Keeps (f : Field) (s s' : State τ) : Prop :=
  ∀ r, s.heap.life r ≠ .unborn → s'.heap.life r ≠ .unborn ∧ f.Agree (s.req r) (s'.req r)

namespace Keeps

theorem of_heap (h : s'.heap = s.heap) : Keeps f s s' := by
  intro r hr
  rw [State.req, State.req, h]
  exact ⟨hr, f.agree_refl _⟩

theorem trans (h : Keeps f s s') (h' : Keeps f s' s'') : Keeps f s s'' := by
  intro r hr
  obtain ⟨hr', ha⟩ := h r hr
  exact ⟨(h' r hr').1, ha.trans (h' r hr').2⟩

theorem of_write {q : Req} (h : s'.heap = s.heap.write r q) (hq : f.Agree (s.req r) q) :
    Keeps f s s' := by
  intro y hy
  rw [State.req, State.req, h]
  refine ⟨hy, ?_⟩
  by_cases hyr : y = r
  · rw [hyr, Heap.write_mem_self]
    exact hq
  · rw [Heap.write_mem_of_ne _ _ hyr]
    exact f.agree_refl _

theorem upd (r : ReqId) (g : Req → Req) (h : f.Agree (s.req r) (g (s.req r))) :
    Keeps f s (s.upd r g) := .of_write rfl h

theorem updAll {l : List ReqId} {g : Req → Req} (h : ∀ q, f.Agree q (g q)) :
    Keeps f s (s.updAll l g) := by
  intro y hy
  refine ⟨hy, ?_⟩
  by_cases hyl : y ∈ l
  · simpa [State.updAll, State.req, hyl] using h _
  · simpa [State.updAll, State.req, hyl] using f.agree_refl _

theorem putRequest : Keeps f s (s.putRequest r) := by
  unfold State.putRequest
  simp only
  split
  · intro y hy
    refine ⟨?_, f.agree_refl _⟩
    by_cases hyr : y = r
    · simp [hyr]
    · change (s.heap.free r).life y ≠ .unborn
      rwa [Heap.free_life_of_ne _ hyr]
  · exact of_write rfl (by cases f <;> rfl)

theorem requestAlloc [DecidableEq τ] {b c : Bool} (hs : requestAlloc s t r b c = some s') :
    Keeps f s s' := by
  simp only [Fuse.requestAlloc, Option.map_eq_some_iff] at hs
  obtain ⟨heap, halloc, rfl⟩ := hs
  intro y hy
  have hne : y ≠ r := by
    rintro rfl
    exact hy (Heap.alloc_unborn halloc)
  have hmem : heap.mem y = s.heap.mem y := Heap.alloc_mem_of_ne halloc hne
  have hlife : heap.life y = s.heap.life y := Heap.alloc_life_of_ne halloc hne
  refine ⟨fun h => hy (hlife.symm.trans h), ?_⟩
  change f.Agree (s.heap.mem y) (heap.mem y)
  rw [hmem]
  exact f.agree_refl _

/-! What the fields of an old request are. -/

theorem isreply (h : Keeps .isreply s s') (hr : s.heap.life r ≠ .unborn) :
    (s'.req r).isreply = (s.req r).isreply := (h r hr).2

theorem background (h : Keeps .background s s') (hr : s.heap.life r ≠ .unborn) :
    (s'.req r).background = (s.req r).background := (h r hr).2

theorem unique (h : Keeps .unique s s') (hr : s.heap.life r ≠ .unborn) :
    (s'.req r).unique = (s.req r).unique := (h r hr).2

theorem intrUnique (h : Keeps .intrUnique s s') (hr : s.heap.life r ≠ .unborn) :
    (s'.req r).intrUnique = (s.req r).intrUnique := (h r hr).2

end Keeps

section step

variable [DecidableEq τ]

theorem outEnd_keeps : Keeps f s (outEnd s t r) := by
  unfold outEnd
  split <;> exact .of_heap rfl

omit [DecidableEq τ] in
theorem queueInterrupt_keeps : Keeps f s (s.queueInterrupt r) := by
  unfold State.queueInterrupt
  split
  · exact .of_heap rfl
  · split <;> exact .of_heap rfl

theorem bail_keeps : Keeps f s (bail s t r) := by
  unfold bail
  simp only
  split
  · exact .of_write rfl (by cases f <;> rfl)
  · exact .of_heap rfl

theorem woken_keeps (hs : woken s t r = some s') : Keeps f s s' := by
  unfold woken at hs
  split at hs <;> cases hs
  exact .of_heap rfl

theorem requestSend_keeps {isreply : Bool} (hf : f ∉ [Field.isreply, .unique]) :
    Keeps f s (requestSend s t r isreply) := by
  unfold requestSend
  simp only
  have h₁ : Keeps f s (s.upd r fun q => { q with isreply }) := by
    refine .upd _ _ ?_
    cases f <;> first | rfl | simp at hf
  split
  · refine h₁.trans ((Keeps.upd r (fun q => { q with unique := s.nextUnique }) ?_).trans
      (.upd r (fun q => { q with count := q.count + 1 }) ?_))
    · cases f <;> first | rfl | simp at hf
    · cases f <;> rfl
  · refine h₁.trans (.upd r (fun q => { q with error := -ENOTCONN }) ?_)
    cases f <;> rfl

theorem requestSendBackground_keeps (hf : f ∉ [Field.isreply])
    (hs : requestSendBackground s t r = some s') : Keeps f s s' := by
  unfold requestSendBackground at hs
  split at hs
  · cases hs
  · split at hs <;> cases hs
    · exact .of_write rfl (by cases f <;> first | rfl | simp at hf)
    · refine (Keeps.upd (s := s.touch r) r (fun q => { q with error := -ENOTCONN }) ?_).trans
        .putRequest
      cases f <;> rfl

theorem requestSendNotifyReply_keeps {unique : ℕ} (hf : f ∉ [Field.isreply, .unique]) :
    Keeps f s (requestSendNotifyReply s t r unique) := by
  unfold requestSendNotifyReply
  simp only
  split <;> exact .of_write rfl (by cases f <;> first | rfl | simp at hf)

omit [DecidableEq τ] in
theorem readInterrupt_keeps (hf : f ∉ [Field.intrUnique]) (hs : readInterrupt s = some s') :
    Keeps f s s' := by
  unfold readInterrupt at hs
  split at hs
  · split at hs <;> cases hs
    exact .of_write rfl (by cases f <;> first | rfl | simp at hf)
  · cases hs

theorem read_keeps {d : Dev} (hf : f ∉ [Field.pending]) (hs : read s t d = some s') :
    Keeps f s s' := by
  unfold read at hs
  split at hs
  · split at hs <;> cases hs
    exact .of_write rfl (by cases f <;> first | rfl | simp at hf)
  · cases hs

omit [DecidableEq τ] in
theorem lockRequest_keeps : Keeps f s (lockRequest s r) := by
  refine .of_write rfl ?_
  dsimp only
  split <;> cases f <;> rfl

omit [DecidableEq τ] in
theorem unlockRequest_keeps : Keeps f s (unlockRequest s r) := by
  refine .of_write rfl ?_
  dsimp only
  split <;> cases f <;> rfl

theorem copied_keeps {d : Dev} {ok : Bool} : Keeps f s (copied s t d r ok) := by
  have h₁ : Keeps f s ((s.touch r).upd r fun q => { q with locked := false }) :=
    .of_write rfl (by cases f <;> rfl)
  unfold copied
  simp only
  split
  · exact h₁.trans outEnd_keeps
  · split
    · refine h₁.trans (Keeps.trans (.upd r (fun q => { q with error := - EIO }) ?_)
        outEnd_keeps)
      cases f <;> rfl
    · split
      · exact h₁.trans outEnd_keeps
      · exact h₁

theorem write_keeps {d : Dev} {unique : ℕ} {error : ℤ} (hf : f ∉ [Field.sent, .outUnique])
    (hs : write s t d unique error = some s') : Keeps f s s' := by
  unfold write at hs
  split at hs
  · cases hs
  · split at hs
    · cases hs; exact .of_heap rfl
    · split at hs
      next => cases hs; exact .of_heap rfl
      next r hfind =>
        simp only at hs
        split at hs <;> cases hs
        · exact .of_heap rfl
        · refine (Keeps.upd r (fun q => { q with sent := false }) ?_).trans
            (.upd r (fun q => { q with error, outUnique := unique, locked := true }) ?_)
          · cases f <;> first | rfl | simp at hf
          · cases f <;> first | rfl | simp at hf

theorem interruptReply_keeps {error : ℤ} {lenOk : Bool} :
    Keeps f s (interruptReply s t r error lenOk) := by
  unfold interruptReply
  split
  · exact .of_heap rfl
  · split
    · exact .of_heap rfl
    · split <;> exact .of_heap rfl

theorem wrote_keeps {d : Dev} {ok : Bool} : Keeps f s (wrote s t d r ok) := by
  have h₁ : Keeps f s ((s.touch r).upd r fun q => { q with locked := false }) :=
    .of_write rfl (by cases f <;> rfl)
  unfold wrote
  simp only
  refine h₁.trans (Keeps.trans ?_ outEnd_keeps)
  split
  · exact .of_write rfl (by cases f <;> rfl)
  · exact .of_heap rfl

theorem finish_keeps {abort : Bool} (hf : f ∉ [Field.finished]) :
    Keeps f s (finish s t r abort) := by
  unfold finish
  simp only
  split
  · exact .of_heap rfl
  · exact .of_write rfl (by cases f <;> first | rfl | simp at hf)

theorem account_keeps {abort : Bool} (hf : f ∉ [Field.background])
    (hs : account s t r abort = some s') : Keeps f s s' := by
  unfold account at hs
  split at hs <;> cases hs
  exact .of_write rfl (by cases f <;> first | rfl | simp at hf)

theorem flush_keeps {p : Pc} {l : Option τ} (hf : f ∉ [Field.unique]) :
    Keeps f s (flush s t p l) := by
  unfold flush
  split
  · split
    · exact .of_write rfl (by cases f <;> first | rfl | simp at hf)
    · exact .of_heap rfl
  · exact .of_heap rfl

theorem abortDev_keeps {ds : List Dev} : Keeps f s (abortDev s t ds) := by
  cases ds with
  | nil => exact .of_heap rfl
  | cons d ds => exact .updAll (s := s.touchAll _) fun q => by cases f <;> rfl

theorem abortSplice_keeps (hf : f ∉ [Field.pending]) : Keeps f s (abortSplice s t) := by
  refine Keeps.updAll (s := s.touchAll (s.pending ++ s.toEnd2)) (l := s.pending ++ s.toEnd2)
    (g := fun q => { q with pending := false }) fun q => ?_
  cases f <;> first | rfl | simp at hf

theorem abortEnd_keeps (hf : f ∉ [Field.sent]) : Keeps f s (abortEnd s t) := by
  unfold abortEnd
  split
  · exact .of_write rfl (by cases f <;> rfl)
  · exact .of_write rfl (by cases f <;> first | rfl | simp at hf)
  · exact .of_heap rfl

/-- A step writes no fields but the ones in the table. -/
theorem taskStep_keeps {op : Op} (hs : taskStep s t op = some s') (hf : f ∉ op.writes) :
    Keeps f s s' := by
  cases taskStep_cases hs with
  | blockAlloc _ _ h =>
      unfold blockAlloc at h
      split at h <;> cases h
      exact .of_heap rfl
  | getReq _ _ _ _ h =>
      unfold getReq at h
      split at h
      · split at h
        · exact .requestAlloc h
        · cases h
      · cases h
        exact .of_heap rfl
  | requestAlloc _ _ _ h => exact .requestAlloc h
  | setBackground r _ h | signal r _ h | markSent r _ h =>
      subst h
      exact .of_write rfl (by cases f <;> first | rfl | simp [Op.writes] at hf)
  | putRequest _ _ h => subst h; exact .putRequest
  | requestSend _ _ _ h => subst h; exact requestSend_keeps hf
  | sendBackground _ _ h => exact requestSendBackground_keeps hf h
  | sendNotifyReply _ _ _ h => subst h; exact requestSendNotifyReply_keeps hf
  | waitAnswer _ _ h | testSent _ _ h | testForce _ _ h | kill _ _ h | testInterrupted _ _ h =>
      subst h
      exact .of_heap rfl
  | queueIntr r _ h | devIntr r _ h => subst h; exact queueInterrupt_keeps (s := s.touch r)
  | bail _ _ h => subst h; exact bail_keeps
  | woken _ _ h => exact woken_keeps h
  | readInterrupt _ h => exact readInterrupt_keeps hf h
  | readForget _ _ => rw [taskStep_readForget hs]; exact .of_heap rfl
  | read _ _ h => exact read_keeps hf h
  | tooLarge _ _ _ _ h => subst h; exact .of_write rfl (by cases f <;> rfl)
  | startIo _ _ _ h => subst h; exact .of_heap rfl
  | lockRequest _ _ _ h => subst h; exact lockRequest_keeps
  | unlockRequest _ _ _ h => subst h; exact unlockRequest_keeps
  | copied _ _ _ _ h => subst h; exact copied_keeps
  | write _ _ _ _ h => exact write_keeps hf h
  | interruptReply _ _ _ _ h => subst h; exact interruptReply_keeps
  | wrote _ _ _ _ h => subst h; exact wrote_keeps
  | finish _ _ _ h => subst h; exact finish_keeps hf
  | unqueue _ _ _ h => subst h; exact .of_heap rfl
  | account _ _ _ h => exact account_keeps hf h
  | flush _ _ _ h => subst h; exact flush_keeps hf
  | wake r _ _ h => subst h; exact .putRequest (s := s.touch r)
  | abort _ h =>
      unfold abort at h
      split at h
      · cases h
      · split at h <;> cases h <;> exact .of_heap rfl
  | abortDev _ _ h => subst h; exact abortDev_keeps
  | abortSplice _ h => subst h; exact abortSplice_keeps hf
  | abortEnd _ h => subst h; exact abortEnd_keeps hf
  | setMaxBackground _ _ h | setCongestionThreshold _ _ h => subst h; exact .of_heap rfl

/-! ### The variables of the connection -/

/-- The variables of the connection that are followed along runs. -/
inductive Var where
  | fcLock
  | connected
  | blocked
  | numBackground
  | activeBackground
  | maxBackground
  | fiqConnected
  | pqConnected
  | reqctr
  | devices
  | bgQueue
deriving DecidableEq, Repr

omit [DecidableEq τ]

/-- The variable has the same value in both states. -/
def Var.Agree (s s' : State τ) : Var → Prop
  | fcLock => s'.fcLock = s.fcLock
  | connected => s'.connected = s.connected
  | blocked => s'.blocked = s.blocked
  | numBackground => s'.numBackground = s.numBackground
  | activeBackground => s'.activeBackground = s.activeBackground
  | maxBackground => s'.maxBackground = s.maxBackground
  | fiqConnected => s'.fiqConnected = s.fiqConnected
  | pqConnected => s'.pqConnected = s.pqConnected
  | reqctr => s'.reqctr = s.reqctr
  | devices => s'.devices = s.devices
  | bgQueue => s'.bgQueue = s.bgQueue

/-- The variables that a step sets.  `list_del` counts as a write to the background queue. -/
def Op.sets : Op → List Var
  | .requestSend _ | .readInterrupt | .readForget => [.reqctr]
  | .sendBackground => [.fcLock, .blocked, .numBackground, .bgQueue]
  | .account => [.fcLock, .blocked, .numBackground, .activeBackground]
  | .flush => [.fcLock, .activeBackground, .reqctr, .bgQueue]
  | .abort => [.fcLock, .connected, .blocked]
  | .abortDev => [.maxBackground, .pqConnected]
  | .abortSplice => [.fcLock, .fiqConnected]
  | .setMaxBackground _ => [.maxBackground]
  | .bail | .read _ | .copied _ | .write _ _ _ | .wrote _ | .abortEnd => [.bgQueue]
  | _ => []

variable {x : Var}

theorem Var.Agree.trans (h : x.Agree s s') (h' : x.Agree s' s'') : x.Agree s s'' := by
  cases x <;> exact Eq.trans h' h

theorem Var.agree_touch (s : State τ) (r : ReqId) : x.Agree s (s.touch r) := by
  cases x <;> rfl

theorem Var.agree_putRequest (s : State τ) (r : ReqId) : x.Agree s (s.putRequest r) := by
  unfold State.putRequest
  simp only
  split <;> cases x <;> rfl

theorem Var.agree_queueInterrupt (s : State τ) (r : ReqId) : x.Agree s (s.queueInterrupt r) := by
  unfold State.queueInterrupt
  split
  · cases x <;> rfl
  · split <;> cases x <;> rfl

variable [DecidableEq τ]

theorem Var.Agree.goto (h : x.Agree s s') (t : τ) (p : Pc) : x.Agree s (s'.goto t p) := by
  cases x <;> exact h

theorem Var.agree_requestAlloc {b c : Bool} (hs : requestAlloc s t r b c = some s') :
    x.Agree s s' := by
  simp only [requestAlloc, Option.map_eq_some_iff] at hs
  obtain ⟨heap, -, rfl⟩ := hs
  cases x <;> rfl

theorem Var.agree_woken (hs : woken s t r = some s') : x.Agree s s' := by
  unfold woken at hs
  split at hs <;> cases hs
  cases x <;> rfl

theorem Var.agree_outEnd (s : State τ) (t : τ) (r : ReqId) (hx : x ≠ .bgQueue) :
    x.Agree s (outEnd s t r) := by
  unfold outEnd
  split <;> cases x <;> first | rfl | exact absurd rfl hx

theorem Var.agree_flush {p : Pc} {l : Option τ} (hx : x ∉ Op.flush.sets) :
    x.Agree s (flush s t p l) := by
  unfold flush
  split
  · split <;> cases x <;> first | rfl | simp [Op.sets] at hx
  · cases x <;> first | rfl | simp [Op.sets] at hx

/-- A step sets no variables but the ones in the table. -/
theorem taskStep_agree {op : Op} (hs : taskStep s t op = some s') (hx : x ∉ op.sets) :
    x.Agree s s' := by
  cases taskStep_cases hs with
  | blockAlloc _ _ h =>
      unfold blockAlloc at h
      split at h <;> cases h
      cases x <;> rfl
  | getReq _ _ _ _ h =>
      unfold getReq at h
      split at h
      · split at h
        · exact Var.agree_requestAlloc h
        · cases h
      · cases h
        cases x <;> rfl
  | requestAlloc _ _ _ h => exact Var.agree_requestAlloc h
  | putRequest r _ h => subst h; exact (Var.agree_putRequest s r).goto t _
  | requestSend _ _ _ h =>
      subst h
      unfold requestSend
      simp only
      split
      · cases x <;> first | rfl | simp [Op.sets] at hx
      · cases x <;> rfl
  | sendBackground r _ h =>
      unfold requestSendBackground at h
      split at h
      · cases h
      · split at h <;> cases h
        · cases x <;> first | rfl | simp [Op.sets] at hx
        · refine (Var.Agree.trans ?_ (Var.agree_putRequest ((s.touch r).upd r _) r)).goto t _
          cases x <;> rfl
  | sendNotifyReply _ _ _ h =>
      subst h
      unfold requestSendNotifyReply
      simp only
      split <;> cases x <;> rfl
  | queueIntr _ _ h | devIntr _ _ h =>
      subst h
      exact ((Var.agree_touch s _).trans (Var.agree_queueInterrupt _ _)).goto t _
  | bail _ _ h =>
      subst h
      unfold bail
      simp only
      split <;> cases x <;> first | rfl | simp [Op.sets] at hx
  | woken _ _ h => exact Var.agree_woken h
  | readInterrupt _ h =>
      unfold readInterrupt at h
      split at h
      · split at h <;> cases h
        cases x <;> first | rfl | simp [Op.sets] at hx
      · cases h
  | readForget _ _ =>
      rw [taskStep_readForget hs]
      cases x <;> first | rfl | simp [Op.sets] at hx
  | read _ _ h =>
      unfold read at h
      split at h
      · split at h <;> cases h
        cases x <;> first | rfl | simp [Op.sets] at hx
      · cases h
  | copied _ _ _ _ h =>
      subst h
      have hne : x ≠ .bgQueue := fun he => hx (he ▸ List.mem_singleton_self _)
      unfold copied
      simp only
      split
      · refine Var.Agree.trans ?_ (Var.agree_outEnd _ t _ hne)
        cases x <;> rfl
      · split
        · refine Var.Agree.trans ?_ (Var.agree_outEnd _ t _ hne)
          cases x <;> rfl
        · split
          · refine Var.Agree.trans ?_ (Var.agree_outEnd _ t _ hne)
            cases x <;> rfl
          · cases x <;> first | rfl | exact absurd rfl hne
  | write _ _ _ _ h =>
      unfold write at h
      split at h
      · cases h
      · split at h
        · cases h; cases x <;> rfl
        · split at h
          next => cases h; cases x <;> rfl
          next =>
            simp only at h
            split at h <;> cases h <;> cases x <;> first | rfl | simp [Op.sets] at hx
  | interruptReply _ _ _ _ h =>
      subst h
      unfold interruptReply
      split
      · cases x <;> rfl
      · split
        · cases x <;> rfl
        · split <;> cases x <;> rfl
  | wrote _ _ _ _ h =>
      subst h
      have hne : x ≠ .bgQueue := fun he => hx (he ▸ List.mem_singleton_self _)
      unfold wrote
      simp only
      split
      · refine Var.Agree.trans ?_ (Var.agree_outEnd _ t _ hne)
        cases x <;> rfl
      · refine Var.Agree.trans ?_ (Var.agree_outEnd _ t _ hne)
        cases x <;> rfl
  | finish _ _ _ h =>
      subst h
      unfold finish
      simp only
      split <;> cases x <;> rfl
  | account _ _ _ h =>
      unfold account at h
      split at h <;> cases h
      cases x <;> first | rfl | simp [Op.sets] at hx
  | flush _ _ _ h => subst h; exact Var.agree_flush hx
  | wake _ _ _ h =>
      subst h
      exact ((Var.agree_touch s _).trans (Var.agree_putRequest _ _)).goto t _
  | abort _ h =>
      unfold abort at h
      split at h
      · cases h
      · split at h <;> cases h
        · cases x <;> first | rfl | simp [Op.sets] at hx
        · cases x <;> rfl
  | abortDev ds _ h =>
      subst h
      cases ds <;> cases x <;> first | rfl | simp [Op.sets] at hx
  | abortSplice _ h | setMaxBackground _ _ h =>
      subst h
      cases x <;> first | rfl | simp [Op.sets] at hx
  | abortEnd _ h =>
      subst h
      unfold abortEnd
      split <;> cases x <;> first | rfl | simp [Op.sets] at hx
  | setBackground _ _ h | waitAnswer _ _ h | signal _ _ h | testSent _ _ h | testForce _ _ h
  | kill _ _ h | tooLarge _ _ _ _ h | startIo _ _ _ h | lockRequest _ _ _ h
  | unlockRequest _ _ _ h | markSent _ _ h | testInterrupted _ _ h | unqueue _ _ _ h
  | setCongestionThreshold _ _ h =>
      subst h
      cases x <;> rfl

/-! ### Births and deaths -/

/-- A step allocates a request for its task, frees the request of its task, or does neither. -/
inductive LifeStep (s s' : State τ) (t : τ) : Prop where
  | same (h : s'.heap.life = s.heap.life)
  | alloc (r : ReqId) (b c : Bool) (hr : s.heap.life r = .unborn)
      (hlife : s'.heap.life = Function.update s.heap.life r .live)
      (hreq : s'.req r = { requestInit with background := b, force := c })
      (hpc : s'.pc t = .got r)
  | free (r : ReqId)
      (hr : s.pc t = .got r ∨ s.pc t = .answered r ∨ ∃ b, s.pc t = .ending .wake r b)
      (hlife : s'.heap.life = Function.update s.heap.life r .freed)

theorem lifeStep_requestAlloc {b c : Bool} (hs : requestAlloc s t r b c = some s') :
    LifeStep s s' t := by
  simp only [requestAlloc, Option.map_eq_some_iff] at hs
  obtain ⟨heap, halloc, rfl⟩ := hs
  obtain ⟨hr, rfl⟩ := Heap.alloc_eq_some.mp halloc
  exact .alloc r b c hr rfl (by simp [State.goto, State.req]) (by simp [State.goto])

omit [DecidableEq τ] in
theorem life_putRequest (s : State τ) (r : ReqId) :
    (s.putRequest r).heap.life = s.heap.life ∨
      (s.putRequest r).heap.life = Function.update s.heap.life r .freed := by
  unfold State.putRequest
  simp only
  split
  · exact .inr rfl
  · exact .inl rfl

omit [DecidableEq τ] in
theorem life_queueInterrupt (s : State τ) (r : ReqId) :
    (s.queueInterrupt r).heap.life = s.heap.life := by
  unfold State.queueInterrupt
  split
  · rfl
  · split <;> rfl

theorem life_outEnd (s : State τ) (t : τ) (r : ReqId) :
    (outEnd s t r).heap.life = s.heap.life := by
  unfold outEnd
  split <;> rfl

theorem life_flush (s : State τ) (t : τ) (p : Pc) (l : Option τ) :
    (flush s t p l).heap.life = s.heap.life := by
  unfold flush
  split
  · split <;> rfl
  · rfl

theorem life_woken (hs : woken s t r = some s') : s'.heap.life = s.heap.life := by
  unfold woken at hs
  split at hs <;> cases hs
  rfl

theorem taskStep_life {op : Op} (hs : taskStep s t op = some s') : LifeStep s s' t := by
  have hput (s₁ : State τ) {s₂ : State τ} {r : ReqId}
      (hr : s.pc t = .got r ∨ s.pc t = .answered r ∨ ∃ b, s.pc t = .ending .wake r b)
      (h₁ : s₁.heap.life = s.heap.life) (h₂ : s₂.heap = (s₁.putRequest r).heap) :
      LifeStep s s₂ t := by
    rcases life_putRequest s₁ r with h | h
    · exact .same (by rw [h₂, h, h₁])
    · exact .free r hr (by rw [h₂, h, h₁])
  cases taskStep_cases hs with
  | blockAlloc _ _ h =>
      unfold blockAlloc at h
      split at h <;> cases h
      exact .same rfl
  | getReq _ _ _ _ h =>
      unfold getReq at h
      split at h
      · split at h
        · exact lifeStep_requestAlloc h
        · cases h
      · cases h
        exact .same rfl
  | requestAlloc _ _ _ h => exact lifeStep_requestAlloc h
  | putRequest r hpc h => subst h; exact hput s (hpc.imp_right .inl) rfl rfl
  | requestSend _ _ _ h =>
      subst h
      refine .same ?_
      unfold requestSend
      simp only
      split <;> rfl
  | sendBackground r hpc h =>
      unfold requestSendBackground at h
      split at h
      · cases h
      · split at h <;> cases h
        · exact .same rfl
        · exact hput ((s.touch r).upd r fun q => { q with error := -ENOTCONN }) (.inl hpc) rfl rfl
  | sendNotifyReply _ _ _ h =>
      subst h
      refine .same ?_
      unfold requestSendNotifyReply
      simp only
      split <;> rfl
  | queueIntr _ _ h | devIntr _ _ h => subst h; exact .same (life_queueInterrupt _ _)
  | bail _ _ h =>
      subst h
      refine .same ?_
      unfold bail
      simp only
      split <;> rfl
  | woken _ _ h => exact .same (life_woken h)
  | readInterrupt _ h =>
      unfold readInterrupt at h
      split at h
      · split at h <;> cases h
        exact .same rfl
      · cases h
  | readForget _ _ => rw [taskStep_readForget hs]; exact .same rfl
  | read _ _ h =>
      unfold read at h
      split at h
      · split at h <;> cases h
        exact .same rfl
      · cases h
  | copied _ _ _ _ h =>
      subst h
      refine .same ?_
      unfold copied
      simp only
      split
      · exact life_outEnd _ _ _
      · split
        · exact life_outEnd _ _ _
        · split
          · exact life_outEnd _ _ _
          · rfl
  | write _ _ _ _ h =>
      unfold write at h
      split at h
      · cases h
      · split at h
        · cases h; exact .same rfl
        · split at h
          next => cases h; exact .same rfl
          next =>
            simp only at h
            split at h <;> cases h <;> exact .same rfl
  | interruptReply _ _ _ _ h =>
      subst h
      refine .same ?_
      unfold interruptReply
      split
      · rfl
      · split
        · rfl
        · split <;> rfl
  | wrote _ _ _ _ h =>
      subst h
      refine .same ((life_outEnd _ _ _).trans ?_)
      split <;> rfl
  | finish _ _ _ h =>
      subst h
      refine .same ?_
      unfold finish
      simp only
      split <;> rfl
  | account _ _ _ h =>
      unfold account at h
      split at h <;> cases h
      exact .same rfl
  | flush _ _ _ h => subst h; exact .same (life_flush _ _ _ _)
  | wake r _ hpc h => subst h; exact hput (s.touch r) (.inr (.inr ⟨_, hpc⟩)) rfl rfl
  | abort _ h =>
      unfold abort at h
      split at h
      · cases h
      · split at h <;> cases h <;> exact .same rfl
  | abortDev ds _ h =>
      subst h
      cases ds <;> exact .same rfl
  | abortEnd _ h =>
      subst h
      refine .same ?_
      unfold abortEnd
      split <;> rfl
  | setBackground _ _ h | waitAnswer _ _ h | signal _ _ h | testSent _ _ h | testForce _ _ h
  | kill _ _ h | tooLarge _ _ _ _ h | startIo _ _ _ h | lockRequest _ _ _ h
  | unlockRequest _ _ _ h | markSent _ _ h | testInterrupted _ _ h | unqueue _ _ _ h
  | abortSplice _ h | setMaxBackground _ _ h | setCongestionThreshold _ _ h =>
      subst h
      exact .same rfl

end step

end KernelMemo.Fuse
