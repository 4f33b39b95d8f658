import KernelMemo.Fuse.Request

/-! # What a task can do

`TaskStep` names the rows of `taskStep`; a proof about a step goes by cases over it. -/

namespace KernelMemo.Fuse

variable {τ : Type*} {s s' : State τ} {r : ReqId} {t : τ} {d : Dev}

/-- The places of the tasks in `flush_bg_queue`, where they go on, and who holds `fc->lock`
then. -/
inductive Flushes (s : State τ) : Pc → Pc → Option τ → Prop where
  | ending (r : ReqId) (abort : Bool) :
      Flushes s (.ending .flush r abort) (.ending .wake r abort) none
  | send : Flushes s .sendFlush .idle none
  | abort : Flushes s .abortFlush .abortSplice s.fcLock

variable [DecidableEq τ]

/-- The task does the operation at its place. -/
inductive TaskStep (s : State τ) (t : τ) (s' : State τ) : Op → Prop where
  | blockAlloc (background : Bool) (hpc : s.pc t = .idle)
      (h : blockAlloc s t background = some s') : TaskStep s t s' (.blockAlloc background)
  | getReq (r : Option ReqId) (background force : Bool) (hpc : s.pc t = .getting background)
      (h : getReq s t r background force = some s') : TaskStep s t s' (.getReq r force)
  | requestAlloc (r : ReqId) (force : Bool) (hpc : s.pc t = .idle)
      (h : requestAlloc s t r false force = some s') : TaskStep s t s' (.requestAlloc r force)
  | setBackground (r : ReqId) (hpc : s.pc t = .got r)
      (h : s' = (s.touch r).upd r fun q => { q with background := true }) :
      TaskStep s t s' .setBackground
  | putRequest (r : ReqId) (hpc : s.pc t = .got r ∨ s.pc t = .answered r)
      (h : s' = (s.putRequest r).goto t .idle) : TaskStep s t s' .putRequest
  | requestSend (r : ReqId) (isreply : Bool) (hpc : s.pc t = .got r)
      (h : s' = requestSend s t r isreply) : TaskStep s t s' (.requestSend isreply)
  | sendBackground (r : ReqId) (hpc : s.pc t = .got r)
      (h : requestSendBackground s t r = some s') : TaskStep s t s' .sendBackground
  | sendNotifyReply (r : ReqId) (unique : ℕ) (hpc : s.pc t = .got r)
      (h : s' = requestSendNotifyReply s t r unique) : TaskStep s t s' (.sendNotifyReply unique)
  | waitAnswer (r : ReqId) (hpc : s.pc t = .waitAnswer r) (h : s' = waitAnswer s t r) :
      TaskStep s t s' .waitAnswer
  | signal (r : ReqId) (hpc : s.pc t = .waitIntr r) (h : s' = markInterrupted s t r) :
      TaskStep s t s' .signal
  | testSent (r : ReqId) (hpc : s.pc t = .marked r) (h : s' = testSent s t r) :
      TaskStep s t s' .testSent
  | queueIntr (r : ReqId) (hpc : s.pc t = .queueIntr r)
      (h : s' = ((s.touch r).queueInterrupt r).goto t (.testForce r)) :
      TaskStep s t s' .queueInterrupt
  | devIntr (r : ReqId) (hpc : s.pc t = .devIntr r)
      (h : s' = ((s.touch r).queueInterrupt r).goto t .idle) : TaskStep s t s' .queueInterrupt
  | testForce (r : ReqId) (hpc : s.pc t = .testForce r) (h : s' = testForce s t r) :
      TaskStep s t s' .testForce
  | kill (r : ReqId) (hpc : s.pc t = .waitKill r) (h : s' = s.goto t (.killed r)) :
      TaskStep s t s' .kill
  | bail (r : ReqId) (hpc : s.pc t = .killed r) (h : s' = bail s t r) : TaskStep s t s' .bail
  | woken (r : ReqId)
      (hpc : s.pc t = .waitIntr r ∨ s.pc t = .waitKill r ∨ s.pc t = .waitEvent r)
      (h : woken s t r = some s') : TaskStep s t s' .woken
  | readInterrupt (hpc : s.pc t = .idle) (h : readInterrupt s = some s') :
      TaskStep s t s' .readInterrupt
  | readForget (hpc : s.pc t = .idle) (h : readForget s = some s') : TaskStep s t s' .readForget
  | read (d : Dev) (hpc : s.pc t = .idle) (h : read s t d = some s') : TaskStep s t s' (.read d)
  | tooLarge (d : Dev) (r : ReqId) (setxattr : Bool) (hpc : s.pc t = .taken d r)
      (h : s' = tooLarge s t r setxattr) : TaskStep s t s' (.tooLarge setxattr)
  | startIo (d : Dev) (r : ReqId) (hpc : s.pc t = .taken d r) (h : s' = startIo s t d r) :
      TaskStep s t s' .startIo
  | lockRequest (d : Dev) (r : ReqId) (hpc : s.pc t = .copying d r ∨ s.pc t = .replying d r)
      (h : s' = lockRequest s r) : TaskStep s t s' .lockRequest
  | unlockRequest (d : Dev) (r : ReqId) (hpc : s.pc t = .copying d r ∨ s.pc t = .replying d r)
      (h : s' = unlockRequest s r) : TaskStep s t s' .unlockRequest
  | copied (d : Dev) (r : ReqId) (ok : Bool) (hpc : s.pc t = .copying d r)
      (h : s' = copied s t d r ok) : TaskStep s t s' (.copied ok)
  | markSent (r : ReqId) (hpc : s.pc t = .moved r) (h : s' = markSent s t r) :
      TaskStep s t s' .markSent
  | testInterrupted (r : ReqId) (hpc : s.pc t = .sent r) (h : s' = testInterrupted s t r) :
      TaskStep s t s' .testInterrupted
  | write (d : Dev) (unique : ℕ) (error : ℤ) (hpc : s.pc t = .idle)
      (h : write s t d unique error = some s') : TaskStep s t s' (.write d unique error)
  | interruptReply (r : ReqId) (error : ℤ) (lenOk : Bool) (hpc : s.pc t = .intrReply r error)
      (h : s' = interruptReply s t r error lenOk) : TaskStep s t s' (.interruptReply lenOk)
  | wrote (d : Dev) (r : ReqId) (ok : Bool) (hpc : s.pc t = .replying d r)
      (h : s' = wrote s t d r ok) : TaskStep s t s' (.wrote ok)
  | finish (r : ReqId) (abort : Bool) (hpc : s.pc t = .ending .finish r abort)
      (h : s' = finish s t r abort) : TaskStep s t s' .finish
  | unqueue (r : ReqId) (abort : Bool) (hpc : s.pc t = .ending .unqueue r abort)
      (h : s' = unqueue s t r abort) : TaskStep s t s' .unqueue
  | account (r : ReqId) (abort : Bool) (hpc : s.pc t = .ending .account r abort)
      (h : account s t r abort = some s') : TaskStep s t s' .account
  | flush (p : Pc) (l : Option τ) (hpc : Flushes s (s.pc t) p l) (h : s' = flush s t p l) :
      TaskStep s t s' .flush
  | wake (r : ReqId) (abort : Bool) (hpc : s.pc t = .ending .wake r abort)
      (h : s' = wake s t r abort) : TaskStep s t s' .wake
  | abort (hpc : s.pc t = .idle) (h : abort s t = some s') : TaskStep s t s' .abort
  | abortDev (ds : List Dev) (hpc : s.pc t = .abortDev ds) (h : s' = abortDev s t ds) :
      TaskStep s t s' .abortDev
  | abortSplice (hpc : s.pc t = .abortSplice) (h : s' = abortSplice s t) :
      TaskStep s t s' .abortSplice
  | abortEnd (hpc : s.pc t = .abortEnd) (h : s' = abortEnd s t) : TaskStep s t s' .abortEnd
  | setMaxBackground (val : ℕ) (hpc : s.pc t = .idle) (h : s' = { s with maxBackground := val }) :
      TaskStep s t s' (.setMaxBackground val)
  | setCongestionThreshold (val : ℕ) (hpc : s.pc t = .idle)
      (h : s' = { s with congestionThreshold := val }) :
      TaskStep s t s' (.setCongestionThreshold val)

/-- `taskStep` has no other rows. -/
theorem taskStep_cases {op : Op} (hs : taskStep s t op = some s') : TaskStep s t s' op := by
  unfold taskStep at hs
  split at hs
  · exact .blockAlloc _ ‹_› hs
  · exact .getReq _ _ _ ‹_› hs
  · exact .requestAlloc _ _ ‹_› hs
  · exact .setBackground _ ‹_› (Option.some.inj hs).symm
  · exact .putRequest _ (.inl ‹_›) (Option.some.inj hs).symm
  · exact .putRequest _ (.inr ‹_›) (Option.some.inj hs).symm
  · exact .requestSend _ _ ‹_› (Option.some.inj hs).symm
  · exact .sendBackground _ ‹_› hs
  · exact .sendNotifyReply _ _ ‹_› (Option.some.inj hs).symm
  · exact .waitAnswer _ ‹_› (Option.some.inj hs).symm
  · exact .signal _ ‹_› (Option.some.inj hs).symm
  · exact .testSent _ ‹_› (Option.some.inj hs).symm
  · exact .queueIntr _ ‹_› (Option.some.inj hs).symm
  · exact .devIntr _ ‹_› (Option.some.inj hs).symm
  · exact .testForce _ ‹_› (Option.some.inj hs).symm
  · exact .kill _ ‹_› (Option.some.inj hs).symm
  · exact .bail _ ‹_› (Option.some.inj hs).symm
  · exact .woken _ (.inl ‹_›) hs
  · exact .woken _ (.inr (.inl ‹_›)) hs
  · exact .woken _ (.inr (.inr ‹_›)) hs
  · exact .readInterrupt ‹_› hs
  · exact .readForget ‹_› hs
  · exact .read _ ‹_› hs
  · exact .tooLarge _ _ _ ‹_› (Option.some.inj hs).symm
  · exact .startIo _ _ ‹_› (Option.some.inj hs).symm
  · exact .lockRequest _ _ (.inl ‹_›) (Option.some.inj hs).symm
  · exact .lockRequest _ _ (.inr ‹_›) (Option.some.inj hs).symm
  · exact .unlockRequest _ _ (.inl ‹_›) (Option.some.inj hs).symm
  · exact .unlockRequest _ _ (.inr ‹_›) (Option.some.inj hs).symm
  · exact .copied _ _ _ ‹_› (Option.some.inj hs).symm
  · exact .markSent _ ‹_› (Option.some.inj hs).symm
  · exact .testInterrupted _ ‹_› (Option.some.inj hs).symm
  · exact .write _ _ _ ‹_› hs
  · exact .interruptReply _ _ _ ‹_› (Option.some.inj hs).symm
  · exact .wrote _ _ _ ‹_› (Option.some.inj hs).symm
  · exact .finish _ _ ‹_› (Option.some.inj hs).symm
  · exact .unqueue _ _ ‹_› (Option.some.inj hs).symm
  · exact .account _ _ ‹_› hs
  · next heq => exact .flush _ _ (heq ▸ .ending _ _) (Option.some.inj hs).symm
  · next heq => exact .flush _ _ (heq ▸ .send) (Option.some.inj hs).symm
  · next heq => exact .flush _ _ (heq ▸ .abort) (Option.some.inj hs).symm
  · exact .wake _ _ ‹_› (Option.some.inj hs).symm
  · exact .abort ‹_› hs
  · exact .abortDev _ ‹_› (Option.some.inj hs).symm
  · exact .abortSplice ‹_› (Option.some.inj hs).symm
  · exact .abortEnd ‹_› (Option.some.inj hs).symm
  · exact .setMaxBackground _ ‹_› (Option.some.inj hs).symm
  · exact .setCongestionThreshold _ ‹_› (Option.some.inj hs).symm
  · cases hs

/-! ### Single operations -/

theorem taskStep_getReq {o : Option ReqId} {force : Bool}
    (hs : taskStep s t (.getReq o force) = some s') :
    ∃ b, s.pc t = .getting b ∧ getReq s t o b force = some s' := by
  cases taskStep_cases hs with
  | getReq _ b _ hpc h => exact ⟨b, hpc, h⟩

theorem taskStep_requestAlloc {force : Bool} (hs : taskStep s t (.requestAlloc r force) = some s') :
    s.pc t = .idle ∧ requestAlloc s t r false force = some s' := by
  cases taskStep_cases hs with
  | requestAlloc _ _ hpc h => exact ⟨hpc, h⟩

theorem taskStep_setBackground (hs : taskStep s t .setBackground = some s') :
    ∃ r, s.pc t = .got r ∧ s' = (s.touch r).upd r fun q => { q with background := true } := by
  cases taskStep_cases hs with
  | setBackground r hpc h => exact ⟨r, hpc, h⟩

theorem taskStep_putRequest (hs : taskStep s t .putRequest = some s') :
    ∃ r, (s.pc t = .got r ∨ s.pc t = .answered r) ∧ s' = (s.putRequest r).goto t .idle := by
  cases taskStep_cases hs with
  | putRequest r hpc h => exact ⟨r, hpc, h⟩

theorem taskStep_requestSend {isreply : Bool} (hs : taskStep s t (.requestSend isreply) = some s') :
    ∃ r, s.pc t = .got r ∧ s' = requestSend s t r isreply := by
  cases taskStep_cases hs with
  | requestSend r _ hpc h => exact ⟨r, hpc, h⟩

theorem taskStep_sendBackground (hs : taskStep s t .sendBackground = some s') :
    ∃ r, s.pc t = .got r ∧ requestSendBackground s t r = some s' := by
  cases taskStep_cases hs with
  | sendBackground r hpc h => exact ⟨r, hpc, h⟩

theorem taskStep_sendNotifyReply {unique : ℕ}
    (hs : taskStep s t (.sendNotifyReply unique) = some s') :
    ∃ r, s.pc t = .got r ∧ s' = requestSendNotifyReply s t r unique := by
  cases taskStep_cases hs with
  | sendNotifyReply r _ hpc h => exact ⟨r, hpc, h⟩

theorem taskStep_bail (hs : taskStep s t .bail = some s') :
    ∃ r, s.pc t = .killed r ∧ s' = bail s t r := by
  cases taskStep_cases hs with
  | bail r hpc h => exact ⟨r, hpc, h⟩

theorem taskStep_readInterrupt (hs : taskStep s t .readInterrupt = some s') :
    s.pc t = .idle ∧ readInterrupt s = some s' := by
  cases taskStep_cases hs with
  | readInterrupt hpc h => exact ⟨hpc, h⟩

theorem taskStep_readForget (hs : taskStep s t .readForget = some s') : s' = s.getUnique := by
  cases taskStep_cases hs with
  | readForget _ h =>
      unfold readForget at h
      split at h <;> cases h
      rfl

theorem taskStep_read (hs : taskStep s t (.read d) = some s') :
    s.pc t = .idle ∧ read s t d = some s' := by
  cases taskStep_cases hs with
  | read _ hpc h => exact ⟨hpc, h⟩

theorem taskStep_copied {ok : Bool} (hs : taskStep s t (.copied ok) = some s') :
    ∃ d r, s.pc t = .copying d r ∧ s' = copied s t d r ok := by
  cases taskStep_cases hs with
  | copied d r _ hpc h => exact ⟨d, r, hpc, h⟩

theorem taskStep_write {unique : ℕ} {error : ℤ}
    (hs : taskStep s t (.write d unique error) = some s') :
    s.pc t = .idle ∧ write s t d unique error = some s' := by
  cases taskStep_cases hs with
  | write _ _ _ hpc h => exact ⟨hpc, h⟩

theorem taskStep_wrote {ok : Bool} (hs : taskStep s t (.wrote ok) = some s') :
    ∃ d r, s.pc t = .replying d r ∧ s' = wrote s t d r ok := by
  cases taskStep_cases hs with
  | wrote d r _ hpc h => exact ⟨d, r, hpc, h⟩

theorem taskStep_account (hs : taskStep s t .account = some s') :
    ∃ r abort, s.pc t = .ending .account r abort ∧ account s t r abort = some s' := by
  cases taskStep_cases hs with
  | account r abort hpc h => exact ⟨r, abort, hpc, h⟩

theorem taskStep_flush (hs : taskStep s t .flush = some s') :
    ∃ p l, Flushes s (s.pc t) p l ∧ s' = flush s t p l := by
  cases taskStep_cases hs with
  | flush p l hpc h => exact ⟨p, l, hpc, h⟩

theorem taskStep_abort (hs : taskStep s t .abort = some s') :
    s.pc t = .idle ∧ abort s t = some s' := by
  cases taskStep_cases hs with
  | abort hpc h => exact ⟨hpc, h⟩

theorem taskStep_abortDev (hs : taskStep s t .abortDev = some s') :
    ∃ ds, s.pc t = .abortDev ds ∧ s' = abortDev s t ds := by
  cases taskStep_cases hs with
  | abortDev ds hpc h => exact ⟨ds, hpc, h⟩

theorem taskStep_abortSplice (hs : taskStep s t .abortSplice = some s') :
    s.pc t = .abortSplice ∧ s' = abortSplice s t := by
  cases taskStep_cases hs with
  | abortSplice hpc h => exact ⟨hpc, h⟩

theorem taskStep_abortEnd (hs : taskStep s t .abortEnd = some s') :
    s.pc t = .abortEnd ∧ s' = abortEnd s t := by
  cases taskStep_cases hs with
  | abortEnd hpc h => exact ⟨hpc, h⟩

end KernelMemo.Fuse
