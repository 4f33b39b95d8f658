import KernelMemo.Fuse.Request
import Mathlib.Data.List.Nodup
import Mathlib.Tactic.ByContra

/-! # What holds of every request

* **Places.**  A request in flight is in one `Place`: on one list, or in the hands of one task.
  The list is what `req->list` links it into; the task is inside `fuse_dev_do_read`,
  `fuse_dev_do_write` or `request_end`.
* **References.**  The place holds one reference, the task that waits for the answer holds one.
  Tasks that *borrow* a request, such as `fuse_dev_do_read` behind the processing list, hold none.
* **The invariant.**  `ReqOk s r v w` says what is known of the request `r` in the place `v`
  with the caller `w`; `Inv` says it of all requests.  `Frame r s s'` says that a step concerns
  `r` only, and leaves the rest to `Inv.of_frame`. -/

namespace KernelMemo.Fuse

variable {τ : Type*}

/-! ### Roles of a task -/

namespace Pc

/-- The request that the task has allocated or waits for, with a reference of its own. -/
def caller : Pc → Option ReqId
  | got r | waitAnswer r | waitIntr r | marked r | queueIntr r | testForce r | waitKill r
  | killed r | waitEvent r | answered r => some r
  | _ => none

/-- The request in flight that is in the hands of the task. -/
def flight : Pc → Option ReqId
  | taken _ r | copying _ r | replying _ r | ending _ r _ => some r
  | _ => none

/-- The request that the task uses without a reference. -/
def borrow : Pc → Option ReqId
  | moved r | sent r | devIntr r | intrReply r _ => some r
  | _ => none

/-- The task is on the `io` list of the device with this request. -/
def onIo (d : Dev) (r : ReqId) (p : Pc) : Prop := p = copying d r ∨ p = replying d r

/-- The request that the task is concerned with. -/
def req (p : Pc) : Option ReqId := p.caller <|> p.flight <|> p.borrow

theorem req_of_caller {p : Pc} {r : ReqId} (h : p.caller = some r) : p.req = some r := by
  simp [req, h]

theorem req_of_flight {p : Pc} {r : ReqId} (h : p.flight = some r) : p.req = some r := by
  cases p <;> simp_all [req, caller, flight]

theorem caller_of_borrow {p : Pc} {r : ReqId} (h : p.borrow = some r) : p.caller = none := by
  cases p <;> simp_all [caller, borrow]

theorem flight_of_borrow {p : Pc} {r : ReqId} (h : p.borrow = some r) : p.flight = none := by
  cases p <;> simp_all [flight, borrow]

theorem flight_of_caller {p : Pc} {r : ReqId} (h : p.caller = some r) : p.flight = none := by
  cases p <;> simp_all [caller, flight]

theorem borrow_of_caller {p : Pc} {r : ReqId} (h : p.caller = some r) : p.borrow = none := by
  cases p <;> simp_all [caller, borrow]

theorem caller_of_flight {p : Pc} {r : ReqId} (h : p.flight = some r) : p.caller = none := by
  cases p <;> simp_all [caller, flight]

theorem borrow_of_flight {p : Pc} {r : ReqId} (h : p.flight = some r) : p.borrow = none := by
  cases p <;> simp_all [flight, borrow]

theorem of_req_eq_none {p : Pc} (h : p.req = none) :
    p.caller = none ∧ p.flight = none ∧ p.borrow = none := by
  cases p <;> simp_all [req, caller, flight, borrow]

theorem req_of_borrow {p : Pc} {r : ReqId} (h : p.borrow = some r) : p.req = some r := by
  cases p <;> simp_all [req, caller, flight, borrow]

end Pc

/-! ### Places -/

/-- Where a request in flight is. -/
inductive Place (τ : Type*) where
  | bgQueue
  | pending
  | processing (d : Dev)
  | task (t : τ)
  | toEnd

/-- The request is at the place. -/
def State.Holds (s : State τ) : Place τ → ReqId → Prop
  | .bgQueue, r => r ∈ s.bgQueue
  | .pending, r => r ∈ s.pending
  | .processing d, r => r ∈ s.processing d
  | .task t, r => (s.pc t).flight = some r
  | .toEnd, r => r ∈ s.toEnd2

/-- The request is at the place `v` and nowhere else. -/
def State.Located (s : State τ) (r : ReqId) (v : Option (Place τ)) : Prop :=
  ∀ p, s.Holds p r ↔ v = some p

/-- How far a request in flight has come. -/
inductive Stage where
  | bgQueue
  | pending
  /-- in the hands of `fuse_dev_do_read` -/
  | reading
  | processing
  /-- in the hands of `fuse_dev_do_write` -/
  | writing
  | toEnd
  | ending (p : EndPc)
deriving DecidableEq, Repr

namespace Stage

/-- `FR_PENDING` is set. -/
def queued : Stage → Bool
  | bgQueue | pending => true
  | _ => false

/-- `FR_FINISHED` is set. -/
def ended : Stage → Bool
  | ending .finish => false
  | ending _ => true
  | _ => false

/-- The request is off the interrupts list for good. -/
def unqueued : Stage → Bool
  | ending .finish | ending .unqueue => false
  | ending _ => true
  | _ => false

/-- What is known of `FR_BACKGROUND`. -/
def background : Stage → Option Bool
  | bgQueue | ending .account => some true
  | ending .flush | ending .wake => some false
  | _ => none

/-- The daemon has not answered yet. -/
def unanswered : Stage → Bool
  | bgQueue | pending | reading | processing => true
  | _ => false

theorem unqueued_of_ended {st : Stage} (h : st.ended = false) : st.unqueued = false := by
  cases st with
  | ending p => cases p <;> simp_all [ended, unqueued]
  | _ => rfl

end Stage

/-- The stage of the request that a task has in hand. -/
def Pc.stage : Pc → Stage
  | .taken _ _ | .copying _ _ => .reading
  | .replying _ _ => .writing
  | .ending p _ _ => .ending p
  | _ => .toEnd

def Place.stage (pc : τ → Pc) : Place τ → Stage
  | .bgQueue => .bgQueue
  | .pending => .pending
  | .processing _ => .processing
  | .task t => (pc t).stage
  | .toEnd => .toEnd

/-- The flags of a request in flight. -/
structure FlightOk (st : Stage) (q : Req) : Prop where
  pending : q.pending = st.queued
  finished : q.finished = st.ended
  sent : q.sent = true → st = .toEnd ∨ st = .processing
  isreply : st = .processing → q.isreply = true
  background : ∀ b, st.background = some b → q.background = b
  unanswered : st.unanswered = true → q.outUnique = 0

theorem FlightOk.sent_eq_false {st : Stage} {q : Req} (h : FlightOk st q) (hend : st ≠ .toEnd)
    (hproc : st ≠ .processing) : q.sent = false := by
  by_contra hsent
  rcases h.sent (by simpa using hsent) with hst | hst
  · exact hend hst
  · exact hproc hst

/-- A request that is not with the daemon. -/
theorem FlightOk.unsent {st : Stage} {q : Req} (hst : st ≠ .processing)
    (hpend : q.pending = st.queued) (hfin : q.finished = st.ended) (hsent : q.sent = false)
    (hbg : ∀ b, st.background = some b → q.background = b)
    (hun : st.unanswered = true → q.outUnique = 0) : FlightOk st q where
  pending := hpend
  finished := hfin
  sent h := by rw [hsent] at h; cases h
  isreply h := absurd h hst
  background := hbg
  unanswered := hun

/-- A request in `request_end`. -/
theorem FlightOk.ending {p : EndPc} {q : Req} (hpend : q.pending = false)
    (hfin : q.finished = (Stage.ending p).ended) (hsent : q.sent = false)
    (hbg : ∀ b, (Stage.ending p).background = some b → q.background = b) :
    FlightOk (.ending p) q :=
  .unsent (by simp) hpend hfin hsent hbg (by simp [Stage.unanswered])

/-- What the caller of a request at the place `v` relies on. -/
def CallerOk (v : Option (Place τ)) (q : Req) : Pc → Prop
  | .got _ => v = none ∧ q.pending = true ∧ q.finished = false ∧ q.sent = false ∧ q.outUnique = 0
  | .answered _ => q.background = false
  | .queueIntr _ => q.background = false ∧ q.pending = false ∧ (v = none → q.finished = true)
  | _ => q.background = false ∧ (v = none → q.finished = true ∧ q.pending = false)

/-- The references to a request. -/
def refs (v : Option (Place τ)) (w : Option τ) (lost : ℕ) : ℕ :=
  v.toList.length + w.toList.length + lost

theorem refs_pos_of_place (p : Place τ) (w : Option τ) (lost : ℕ) : 0 < refs (some p) w lost := by
  simp only [refs, Option.toList_some, List.length_singleton]
  omega

theorem refs_pos_of_caller (v : Option (Place τ)) (t : τ) (lost : ℕ) :
    0 < refs v (some t) lost := by
  simp only [refs, Option.toList_some, List.length_singleton]
  omega

/-- The request `r` is at the place `v`, and `w` is its caller. -/
structure ReqOk (s : State τ) (r : ReqId) (v : Option (Place τ)) (w : Option τ) : Prop where
  place : s.Located r v
  caller : ∀ t, (s.pc t).caller = some r ↔ w = some t
  live : s.heap.Live r ↔ 0 < refs v w (s.lost.count r)
  count : s.heap.Live r → (s.req r).count = refs v w (s.lost.count r)
  flight : ∀ p, v = some p → FlightOk (p.stage s.pc) (s.req r)
  waiting : ∀ t, w = some t → CallerOk v (s.req r) (s.pc t)
  borrow : ∀ t, (s.pc t).borrow = some r → ∃ d, v = some (.processing d)
  interrupts : r ∈ s.interrupts →
    (s.req r).pending = false ∧ ∃ p, v = some p ∧ (p.stage s.pc).unqueued = false
  io : ∀ d, r ∈ s.io d → ∃ t, v = some (.task t) ∧ (s.pc t).onIo d r
  priv : (s.req r).priv = false
  lost : 0 < s.lost.count r → v = none ∧ w = none ∧ (s.req r).background = false

/-- The lists are lists of different requests, and nothing has gone wrong. -/
structure Sound (s : State τ) : Prop where
  bgQueue : s.bgQueue.Nodup
  pending : s.pending.Nodup
  interrupts : s.interrupts.Nodup
  io : ∀ d, (s.io d).Nodup
  processing : ∀ d, (s.processing d).Nodup
  toEnd1 : s.toEnd1 = []
  toEnd2 : s.toEnd2.Nodup
  fault : s.fault = false

/-- The invariant of the connection. -/
structure Inv (s : State τ) : Prop where
  sound : Sound s
  req : ∀ r, ∃ v w, ReqOk s r v w

/-! ### Steps that concern one request -/

/-- From `s` to `s'` nothing changes but what concerns the request `r`. -/
structure Frame (r : ReqId) (s s' : State τ) : Prop where
  life : ∀ y, y ≠ r → s'.heap.life y = s.heap.life y
  req : ∀ y, y ≠ r → s'.req y = s.req y
  pc : ∀ t y, y ≠ r → (s.pc t).req = some y ∨ (s'.pc t).req = some y → s'.pc t = s.pc t
  bgQueue : ∀ y, y ≠ r → (y ∈ s'.bgQueue ↔ y ∈ s.bgQueue)
  pending : ∀ y, y ≠ r → (y ∈ s'.pending ↔ y ∈ s.pending)
  interrupts : ∀ y, y ≠ r → (y ∈ s'.interrupts ↔ y ∈ s.interrupts)
  io : ∀ d y, y ≠ r → (y ∈ s'.io d ↔ y ∈ s.io d)
  processing : ∀ d y, y ≠ r → (y ∈ s'.processing d ↔ y ∈ s.processing d)
  toEnd2 : ∀ y, y ≠ r → (y ∈ s'.toEnd2 ↔ y ∈ s.toEnd2)
  lost : ∀ y, y ≠ r → s'.lost.count y = s.lost.count y

namespace Frame

variable {r : ReqId} {s s' s'' : State τ}

theorem trans (h : Frame r s s') (h' : Frame r s' s'') : Frame r s s'' where
  life y hy := (h'.life y hy).trans (h.life y hy)
  req y hy := (h'.req y hy).trans (h.req y hy)
  pc t y hy ht := by
    have hfirst : s'.pc t = s.pc t := by
      rcases ht with ht | ht
      · exact h.pc t y hy (.inl ht)
      · exact h.pc t y hy (.inr (h'.pc t y hy (.inr ht) ▸ ht))
    rcases ht with ht | ht
    · exact (h'.pc t y hy (.inl (hfirst ▸ ht))).trans hfirst
    · exact (h'.pc t y hy (.inr ht)).trans hfirst
  bgQueue y hy := (h'.bgQueue y hy).trans (h.bgQueue y hy)
  pending y hy := (h'.pending y hy).trans (h.pending y hy)
  interrupts y hy := (h'.interrupts y hy).trans (h.interrupts y hy)
  io d y hy := (h'.io d y hy).trans (h.io d y hy)
  processing d y hy := (h'.processing d y hy).trans (h.processing d y hy)
  toEnd2 y hy := (h'.toEnd2 y hy).trans (h.toEnd2 y hy)
  lost y hy := (h'.lost y hy).trans (h.lost y hy)

variable {y : ReqId} (hf : Frame r s s') (hy : y ≠ r)
include hf hy

theorem pc_eq_of_req {t : τ} (h : (s.pc t).req = some y) : s'.pc t = s.pc t :=
  hf.pc t y hy (.inl h)

/-- The tasks in a role for `y` are the same. -/
theorem role {role : Pc → Option ReqId} (hrole : ∀ {p}, role p = some y → p.req = some y) (t : τ) :
    role (s'.pc t) = some y ↔ role (s.pc t) = some y := by
  constructor
  · intro h
    rwa [hf.pc t y hy (.inr (hrole h))] at h
  · intro h
    rwa [hf.pc t y hy (.inl (hrole h))]

theorem holds (p : Place τ) : s'.Holds p y ↔ s.Holds p y := by
  cases p with
  | bgQueue => exact hf.bgQueue y hy
  | pending => exact hf.pending y hy
  | processing d => exact hf.processing d y hy
  | task t => exact hf.role hy Pc.req_of_flight t
  | toEnd => exact hf.toEnd2 y hy

/-- The other requests keep all that is known of them. -/
theorem reqOk {v : Option (Place τ)} {w : Option τ} (h : ReqOk s y v w) : ReqOk s' y v w := by
  have htask : ∀ t, v = some (.task t) → s'.pc t = s.pc t := fun t ht =>
    hf.pc_eq_of_req hy (Pc.req_of_flight ((h.place (.task t)).mpr ht))
  have hstage : ∀ p, v = some p → p.stage s'.pc = p.stage s.pc := by
    intro p hp
    cases p with
    | task t => simp [Place.stage, htask t hp]
    | _ => rfl
  refine ⟨fun p => (hf.holds hy p).trans (h.place p),
    fun t => (hf.role hy Pc.req_of_caller t).trans (h.caller t), ?_, ?_, ?_, ?_, ?_, ?_, ?_, ?_,
    by rw [hf.lost y hy, hf.req y hy]; exact h.lost⟩
  · rw [Heap.Live, hf.life y hy, hf.lost y hy]
    exact h.live
  · rw [Heap.Live, hf.life y hy, hf.lost y hy, hf.req y hy]
    exact h.count
  · intro p hp
    rw [hf.req y hy, hstage p hp]
    exact h.flight p hp
  · intro t ht
    rw [hf.req y hy, hf.pc_eq_of_req hy (Pc.req_of_caller ((h.caller t).mpr ht))]
    exact h.waiting t ht
  · intro t ht
    exact h.borrow t ((hf.role hy Pc.req_of_borrow t).mp ht)
  · intro hi
    obtain ⟨hpend, p, hp, hq⟩ := h.interrupts ((hf.interrupts y hy).mp hi)
    rw [hf.req y hy]
    exact ⟨hpend, p, hp, by rwa [hstage p hp]⟩
  · intro d hd
    obtain ⟨t, ht, ho⟩ := h.io d ((hf.io d y hy).mp hd)
    exact ⟨t, ht, by rwa [htask t ht]⟩
  · rw [hf.req y hy]
    exact h.priv

end Frame

/-- A step that concerns one request. -/
theorem Inv.of_frame {r : ReqId} {s s' : State τ} (h : Inv s) (hf : Frame r s s') (hs : Sound s')
    (hr : ∃ v w, ReqOk s' r v w) : Inv s' := by
  refine ⟨hs, fun y => ?_⟩
  by_cases hy : y = r
  · rwa [hy]
  · obtain ⟨v, w, hok⟩ := h.req y
    exact ⟨v, w, hf.reqOk hy hok⟩

/-- A step that concerns no request. -/
theorem Inv.of_frame_all {s s' : State τ} (h : Inv s) (hf : ∀ r, Frame r s s') (hs : Sound s') :
    Inv s' := by
  refine ⟨hs, fun y => ?_⟩
  obtain ⟨v, w, hok⟩ := h.req y
  exact ⟨v, w, (hf (y + 1)).reqOk (Nat.ne_of_lt (Nat.lt_succ_self y)) hok⟩

/-- The files of the control file system concern no request. -/
theorem Inv.setLimits {s : State τ} (h : Inv s) (m c : ℕ) :
    Inv { s with maxBackground := m, congestionThreshold := c } := by
  refine h.of_frame_all (fun r => ?_) ⟨h.sound.bgQueue, h.sound.pending, h.sound.interrupts,
    h.sound.io, h.sound.processing, h.sound.toEnd1, h.sound.toEnd2, h.sound.fault⟩
  constructor <;> intros <;> rfl

/-- `fuse_get_unique` concerns no request. -/
theorem Inv.getUnique {s : State τ} (h : Inv s) : Inv s.getUnique := by
  refine h.of_frame_all (fun r => ?_) ⟨h.sound.bgQueue, h.sound.pending, h.sound.interrupts,
    h.sound.io, h.sound.processing, h.sound.toEnd1, h.sound.toEnd2, h.sound.fault⟩
  constructor <;> intros <;> rfl

end KernelMemo.Fuse
