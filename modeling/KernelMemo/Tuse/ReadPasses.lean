import Mathlib.Data.List.ReduceOption
import Mathlib.Tactic.SplitIfs
import KernelMemo.Tuse.Dev

/-! # The passes of a read

What `tuse_dev_do_read` can do from any queue and any device, one pass at a time.

* A pass is blocked, takes the list head of `pending` for a request, or takes a request
  (`readPass_cases`).
* A request that is too large is skipped: only its flags and its error change (`Call.Skips`).
  A run of such requests at the front of `pending` is skipped one pass each
  (`tuseDevDoRead_skip`).
* A request that fits is the end of the call (`readFits_cases`). -/

namespace KernelMemo.Tuse

/-! ### Requests and queues -/

/-- `nbytes < reqsize` -/
def Iqueue.TooLarge (q : Iqueue) (nbytes : UInt64) (r : Option ℕ) : Prop :=
  nbytes < (q.req r).len.toUInt64

instance (q : Iqueue) (nbytes : UInt64) : DecidablePred (q.TooLarge nbytes) :=
  fun r => inferInstanceAs (Decidable (nbytes < (q.req r).len.toUInt64))

/-- What no read changes in a request: the errors and the other flags it does. -/
def Req.kept (x : Req) : TuseInHeader × Bool × Bool × ℕ :=
  (x.toTuseInHeader, x.flags .frIsReply, x.woken, x.count)

theorem Req.kept_setBit (x : Req) {f : FrFlag} (hf : f ≠ .frIsReply) :
    (x.setBit f).kept = x.kept := by
  simp [kept, setBit, hf.symm]

theorem Req.kept_clearBit (x : Req) {f : FrFlag} (hf : f ≠ .frIsReply) :
    (x.clearBit f).kept = x.kept := by
  simp [kept, clearBit, hf.symm]

/-- The queue `q'` has the requests of `q`, up to their errors and flags. -/
structure Iqueue.Same (q q' : Iqueue) : Prop where
  connected : q'.connected = q.connected
  interrupts : q'.interrupts = q.interrupts
  next : q'.next = q.next
  kept : ∀ r, (q'.req r).kept = (q.req r).kept

namespace Iqueue.Same

variable {q q' q'' : Iqueue}

theorem refl (q : Iqueue) : q.Same q := ⟨rfl, rfl, rfl, fun _ => rfl⟩

theorem trans (h : q.Same q') (h' : q'.Same q'') : q.Same q'' where
  connected := h'.connected.trans h.connected
  interrupts := h'.interrupts.trans h.interrupts
  next := h'.next.trans h.next
  kept r := (h'.kept r).trans (h.kept r)

theorem header (h : q.Same q') (r : Option ℕ) :
    (q'.req r).toTuseInHeader = (q.req r).toTuseInHeader :=
  congrArg Prod.fst (h.kept r)

theorem isReply (h : q.Same q') (r : Option ℕ) :
    (q'.req r).flags .frIsReply = (q.req r).flags .frIsReply :=
  congrArg (·.2.1) (h.kept r)

theorem modify (h : q.Same q') (r : Option ℕ) {f : Req → Req}
    (hf : ∀ x, (f x).kept = x.kept) : q.Same (q'.modify r f) := by
  cases r with
  | none =>
      refine ⟨h.connected, h.interrupts, h.next, fun p => ?_⟩
      cases p with
      | none => exact (hf q'.head).trans (h.kept none)
      | some p => exact h.kept (some p)
  | some r =>
      refine ⟨h.connected, h.interrupts, h.next, fun p => ?_⟩
      cases p with
      | none => exact h.kept none
      | some p =>
          rcases eq_or_ne p r with rfl | hp
          · simpa [Iqueue.modify, Iqueue.req, hf] using h.kept (some p)
          · simpa [Iqueue.modify, Iqueue.req, hp] using h.kept (some p)

theorem setPending (h : q.Same q') (l : List ℕ) : q.Same { q' with pending := l } where
  connected := h.connected
  interrupts := h.interrupts
  next := h.next
  kept r := by
    cases r with
    | none => exact h.kept none
    | some r => exact h.kept (some r)

theorem tooLarge_iff (h : q.Same q') (nbytes : UInt64) (r : Option ℕ) :
    q'.TooLarge nbytes r ↔ q.TooLarge nbytes r := by
  unfold TooLarge
  rw [show (q'.req r).len = (q.req r).len from congrArg TuseInHeader.len (h.header r)]

end Iqueue.Same

theorem NewReq.toReq_header (x : NewReq) : x.toReq.toTuseInHeader = x.toTuseInHeader := by
  cases hr : x.isReply <;> simp [NewReq.toReq, hr, Req.setBit]

theorem NewReq.toReq_isReply (x : NewReq) : x.toReq.flags .frIsReply = x.isReply := by
  cases hr : x.isReply <;> simp [NewReq.toReq, hr, tuseRequestInit, Req.setBit]

namespace Iqueue

/-- What an arrival leaves as it is. -/
theorem appendAll_spec (q : Iqueue) (xs : List NewReq) :
    (q.appendAll xs).connected = q.connected ∧ (q.appendAll xs).interrupts = q.interrupts ∧
      (∃ l, (q.appendAll xs).pending = q.pending ++ l ∧ ∀ r ∈ l, q.next ≤ r) ∧
      q.next ≤ (q.appendAll xs).next ∧ (q.appendAll xs).head = q.head ∧
      ∀ r < q.next, (q.appendAll xs).reqs r = q.reqs r := by
  induction xs generalizing q with
  | nil =>
      exact ⟨rfl, rfl, ⟨[], by simp [appendAll], by simp⟩, Nat.le_refl _, rfl, fun _ _ => rfl⟩
  | cons x xs ih =>
      obtain ⟨hc, hi, ⟨l, hl, hle⟩, hnext, hhead, hreqs⟩ := ih (q.append x)
      refine ⟨hc, hi, ⟨q.next :: l, ?_, ?_⟩, Nat.le_of_succ_le hnext, hhead, fun r hr => ?_⟩
      · exact hl.trans (List.append_assoc q.pending [q.next] l)
      · intro r hr
        rcases List.mem_cons.mp hr with rfl | hr
        · exact Nat.le_refl _
        · exact Nat.le_of_succ_le (hle r hr)
      · have hne : r ≠ q.next := Nat.ne_of_lt hr
        have hr' : (q.append x).reqs r = q.reqs r := Function.update_of_ne hne _ _
        exact (hreqs r (Nat.lt_succ_of_lt hr)).trans hr'

/-- The first arrival, on an empty queue. -/
theorem appendAll_cons {q : Iqueue} (hq : q.pending = []) (x : NewReq) (xs : List NewReq) :
    (∃ l, (q.appendAll (x :: xs)).pending = q.next :: l) ∧
      (q.appendAll (x :: xs)).reqs q.next = x.toReq := by
  obtain ⟨-, -, ⟨l, hl, -⟩, -, -, hreqs⟩ := appendAll_spec (q.append x) xs
  refine ⟨⟨l, ?_⟩, ?_⟩
  · have happ : (q.append x).pending = [q.next] := by simp [append, hq]
    rw [happ] at hl
    exact hl
  · have hr : (q.append x).reqs q.next = x.toReq := Function.update_self ..
    exact (hreqs q.next (Nat.lt_succ_self _)).trans hr

end Iqueue

/-! ### One pass -/

/-- What a pass logs that does not get to a request. -/
def blockedLog : List Action := [.lock .waitq, .unlock .waitq]

/-- What a pass logs until `reqsize` is read. -/
def takenLog (r : Option ℕ) : List Action := [.lock .waitq, .dequeue r, .unlock .waitq]

/-- What a pass logs whose request is too large. -/
def tooLargeLog (r : Option ℕ) : List Action := takenLog r ++ [.requestEnd r]

/-- No request is there, and none comes. -/
def Iqueue.Blocked (q : Iqueue) (nonblock : Bool) (sleep : Sleep) : Prop :=
  q.pending = [] ∧ q.interrupts = [] ∧ (nonblock = true ∨ sleep = .signal)

/-- The queue `q'` is the one at the dequeue: the queue before, or what arrived while it was
empty. -/
def Iqueue.Woken (q : Iqueue) (nonblock : Bool) (sleep : Sleep) (q' : Iqueue) : Prop :=
  q' = q ∨ q.pending = [] ∧ q.interrupts = [] ∧ nonblock = false ∧
    ∃ x xs, sleep = .arrive x xs ∧ q' = q.appendAll (x :: xs)

theorem Iqueue.Woken.connected {q q' : Iqueue} {nonblock : Bool} {sleep : Sleep}
    (h : q.Woken nonblock sleep q') : q'.connected = q.connected := by
  rcases h with rfl | ⟨-, -, -, x, xs, -, rfl⟩
  · rfl
  · exact (q.appendAll_spec (x :: xs)).1

theorem requestPending_eq_false {q : Iqueue} :
    requestPending q = false ↔ q.pending = [] ∧ q.interrupts = [] := by
  simp [requestPending]

/-- What a pass on the queue `q` takes: the request at the head of `pending`, or, with interrupts
only, the list head itself. -/
def Iqueue.Takes (q : Iqueue) (r : Option ℕ) (rest : List ℕ) : Prop :=
  q.pending = r.toList ++ rest ∧ (r = none → q.interrupts ≠ [] ∧ rest = [])

/-- The ways through a pass. -/
theorem readPass_cases (nbytes : UInt64) (nonblock : Bool) (s : Call) (p : Pass) :
    (∃ m ≤ 0, readPass nbytes nonblock s p = ({ s with log := s.log ++ blockedLog }, .ret m) ∧
      (s.iq.connected = false ∨ s.iq.Blocked nonblock p.sleep)) ∨
    ∃ q r rest, s.iq.connected = true ∧ s.iq.Woken nonblock p.sleep q ∧ q.Takes r rest ∧
      readPass nbytes nonblock s p =
        readRequest nbytes p.copyErr ⟨q, s.pq, s.log ++ [.lock .waitq]⟩ r rest := by
  obtain ⟨q, pq, log⟩ := s
  cases hc : q.connected with
  | false =>
      refine .inl ⟨-enodev, by simp [enodev], ?_, .inl rfl⟩
      simp [readPass, Call.act, hc, waitEvent, blockedLog]
  | true =>
      cases hp : q.pending with
      | cons r rest =>
          have hr : requestPending q = true := by simp [requestPending, hp]
          refine .inr ⟨q, some r, rest, rfl, .inl rfl, ⟨hp, by simp⟩, ?_⟩
          simp [readPass, Call.act, hc, hr, hp, waitEvent]
      | nil =>
          cases hi : q.interrupts with
          | cons i is =>
              have hr : requestPending q = true := by simp [requestPending, hi]
              refine .inr ⟨q, none, [], rfl, .inl rfl, ⟨hp, fun _ => ⟨by simp [hi], rfl⟩⟩, ?_⟩
              simp [readPass, Call.act, hc, hr, hp, waitEvent]
          | nil =>
              have hr := requestPending_eq_false.mpr ⟨hp, hi⟩
              cases hn : nonblock with
              | true =>
                  refine .inl ⟨-eagain, by simp [eagain], ?_, .inr ⟨hp, hi, .inl rfl⟩⟩
                  simp [readPass, Call.act, hc, hr, blockedLog]
              | false =>
                  cases hs : p.sleep with
                  | signal =>
                      refine .inl ⟨-erestartsys, by simp [erestartsys], ?_,
                        .inr ⟨hp, hi, .inr rfl⟩⟩
                      simp [readPass, Call.act, hc, hr, waitEvent, hs, blockedLog, erestartsys]
                  | arrive x xs =>
                      obtain ⟨⟨l, hl⟩, -⟩ := Iqueue.appendAll_cons hp x xs
                      have hc' := (q.appendAll_spec (x :: xs)).1.trans hc
                      refine .inr ⟨q.appendAll (x :: xs), some q.next, l, rfl,
                        .inr ⟨hp, hi, rfl, x, xs, rfl, rfl⟩, ⟨hl, by simp⟩, ?_⟩
                      simp [readPass, Call.act, hc, hr, waitEvent, hs, hc', hl]

/-- The call `s'` is `s` after what it took, `l`, was found too large: requests at the front of
`pending`, or the list head. -/
structure Call.Skips (s s' : Call) (l : List (Option ℕ)) : Prop where
  same : s.iq.Same s'.iq
  pending : s.iq.pending = l.reduceOption ++ s'.iq.pending
  pq : s'.pq = s.pq
  log : s'.log = s.log ++ l.flatMap tooLargeLog

theorem Call.Skips.refl (s : Call) : s.Skips s [] := ⟨.refl _, rfl, rfl, by simp⟩

theorem Call.Skips.trans {s s' s'' : Call} {l l' : List (Option ℕ)} (h : s.Skips s' l)
    (h' : s'.Skips s'' l') : s.Skips s'' (l ++ l') where
  same := h.same.trans h'.same
  pending := by rw [h.pending, h'.pending, List.reduceOption_append, List.append_assoc]
  pq := h'.pq.trans h.pq
  log := by rw [h'.log, h.log, List.flatMap_append, List.append_assoc]

theorem Iqueue.pending_modify (q : Iqueue) (r : Option ℕ) (f : Req → Req) :
    (q.modify r f).pending = q.pending := by
  cases r <;> rfl

theorem readTooLarge_spec (s : Call) (r : Option ℕ) :
    ∃ q, readTooLarge s r = (⟨q, s.pq, s.log ++ [.requestEnd r]⟩, .restart) ∧ s.iq.Same q ∧
      q.pending = s.iq.pending := by
  have hsame := (Iqueue.Same.refl s.iq).modify r (f := ({ · with error := -eio })) fun _ => rfl
  simp only [readTooLarge]
  split_ifs
  · refine ⟨_, rfl, hsame.modify r (f := ({ · with error := -e2big })) fun _ => rfl, ?_⟩
    exact (Iqueue.pending_modify _ r _).trans (Iqueue.pending_modify s.iq r _)
  · exact ⟨_, rfl, hsame, Iqueue.pending_modify s.iq r _⟩

/-- What is taken is skipped, or the read is over. -/
theorem readRequest_cases {q : Iqueue} {r : Option ℕ} {rest : List ℕ} (hq : q.Takes r rest)
    (nbytes : UInt64) (copyErr : Int) (pq : Pqueue) (log : List Action) :
    (q.TooLarge nbytes r ∧ ∃ s', readRequest nbytes copyErr ⟨q, pq, log ++ [.lock .waitq]⟩ r rest =
      (s', .restart) ∧ Call.Skips ⟨q, pq, log⟩ s' [r]) ∨
    (¬ q.TooLarge nbytes r ∧ ∃ q',
      readRequest nbytes copyErr ⟨q, pq, log ++ [.lock .waitq]⟩ r rest =
        readFits ⟨q', pq, log ++ takenLog r⟩ r copyErr ∧ q.Same q' ∧ q'.pending = rest) := by
  have hsame : q.Same { q.modify r (·.clearBit .frPending) with pending := rest } :=
    ((Iqueue.Same.refl q).modify r fun x => x.kept_clearBit (by simp)).setPending rest
  have hlog : log ++ [Action.lock .waitq] ++ [.dequeue r] ++ [.unlock .waitq] =
      log ++ takenLog r := by simp [takenLog]
  have hlarge := hsame.tooLarge_iff nbytes r
  simp only [Iqueue.TooLarge] at hlarge ⊢
  simp only [readRequest, Call.act, hlog, hlarge]
  split_ifs with hlt
  · obtain ⟨q', hq', hsame', hpending⟩ := readTooLarge_spec
      ⟨{ q.modify r (·.clearBit .frPending) with pending := rest }, pq, log ++ takenLog r⟩ r
    refine .inl ⟨hlt, _, hq', hsame.trans hsame', ?_, rfl, by simp [tooLargeLog]⟩
    rw [hq.1, hpending]
    cases r <;> rfl
  · exact .inr ⟨hlt, _, rfl, hsame, rfl⟩

/-! ### A request that fits -/

/-- What is logged until the copy is done. -/
def copiedLog (r : Option ℕ) (copyErr : Int) : List Action :=
  [.lock .pq, .addIo r, .unlock .pq, .copy r copyErr]

/-- What the read does after the copy. -/
inductive AfterCopy (r : Option ℕ) : Action → List Action → Prop where
  | delIo : AfterCopy r (.delIo r) [.unlock .pq, .requestEnd r]
  | unlock : AfterCopy r (.unlock .pq) [.requestEnd r]
  | moveProcessing : AfterCopy r (.moveProcessing r) [.unlock .pq]
  | crash : AfterCopy r (.moveProcessing r) []

theorem outEnd_spec {q q' : Iqueue} (h : q.Same q') (pq : Pqueue) (log : List Action)
    (r : Option ℕ) (err : Int) :
    ∃ c, outEnd ⟨q', pq, log⟩ r err = (c, .ret err) ∧ q.Same c.iq ∧
      ∃ a t, c.log = log ++ a :: t ∧ AfterCopy r a t := by
  by_cases hp : (q'.req r).flags .frPrivate = true
  · refine ⟨_, rfl, ?_, _, _, ?_, .unlock⟩
    · simpa [requestEnd, Call.act, hp] using h
    · simp [requestEnd, Call.act, hp]
  · refine ⟨_, rfl, ?_, _, _, ?_, .delIo⟩
    · simpa [requestEnd, Call.act, hp] using h
    · simp [requestEnd, Call.act, hp]

/-- A device whose `io` was never set up. -/
theorem readFits_zeroed {s : Call} (h : s.pq.io = .zeroed) (r : Option ℕ) (copyErr : Int) :
    readFits s r copyErr = ({ s with log := s.log ++ [.lock .pq, .addIo r] }, .oops) := by
  simp [readFits, Call.act, h, ListHead.listAdd]

/-- How a read ends whose request fits. -/
def fitsEnd (pq : Pqueue) (x : Req) (copyErr : Int) : PassEnd :=
  if !pq.connected then .ret (-enodev)
  else if copyErr ≠ 0 then .ret copyErr
  else if x.flags .frIsReply && pq.processing = .zeroed then .oops
  else .ret x.len.toNat

theorem readFits_init {s : Call} {l : List (Option ℕ)} (h : s.pq.io = .init l)
    (r : Option ℕ) (copyErr : Int) :
    ∃ c, readFits s r copyErr = (c, fitsEnd s.pq (s.iq.req r) copyErr) ∧ s.iq.Same c.iq ∧
      ∃ a t, c.log = s.log ++ copiedLog r copyErr ++ a :: t ∧ AfterCopy r a t := by
  have hlog : s.log ++ [.lock .pq] ++ [.addIo r] ++ [.unlock .pq] ++ [.copy r copyErr] =
      s.log ++ copiedLog r copyErr := by simp [copiedLog]
  have hsame : s.iq.Same (s.iq.modify r (·.clearBit .frLocked)) :=
    (Iqueue.Same.refl s.iq).modify r fun x => x.kept_clearBit (by simp)
  have hlen := congrArg TuseInHeader.len (hsame.header r)
  have hreply := hsame.isReply r
  simp only [readFits, Call.act, h, ListHead.listAdd, hlog, hlen, hreply, fitsEnd]
  by_cases hc : s.pq.connected = true
  case neg =>
    simp only [hc, Bool.not_false, if_true]
    exact outEnd_spec hsame _ _ r _
  simp only [hc, Bool.not_true, Bool.false_eq_true, if_false]
  by_cases he : copyErr = 0
  case neg =>
    simp only [ne_eq, he, not_false_eq_true, if_true]
    exact outEnd_spec (hsame.modify r (f := ({ · with error := -eio })) fun _ => rfl) _ _ r _
  simp only [ne_eq, he, not_true_eq_false, if_false]
  by_cases hr : (s.iq.req r).flags .frIsReply = true
  case neg =>
    simp only [hr, Bool.not_false, if_true, Bool.false_and, Bool.false_eq_true, if_false]
    exact outEnd_spec hsame _ _ r _
  simp only [hr, Bool.not_true, Bool.false_eq_true, if_false, Bool.true_and]
  cases hz : s.pq.processing with
  | zeroed =>
      exact ⟨_, rfl, hsame, _, _, rfl, .crash⟩
  | init l' =>
      refine ⟨_, rfl, hsame.modify r fun x => x.kept_setBit (f := .frSent) (by simp), _, _, ?_,
        .moveProcessing⟩
      exact List.append_assoc _ _ _

/-! ### All passes -/

/-- What every pass does in a call that is still running, the whole call does: it keeps `I`, or
it ends in `Q`. -/
theorem tuseDevDoRead_induct {nbytes : UInt64} {nonblock : Bool} {I : Call → Prop}
    {Q : Call → PassEnd → Prop} {ps : List Pass}
    (hpass : ∀ s, I s → ∀ p ∈ ps, ∀ s' e, readPass nbytes nonblock s p = (s', e) →
      e = .restart ∧ I s' ∨ e ≠ .restart ∧ Q s' e) {s s' : Call} {e : PassEnd} (h : I s)
    (hs : tuseDevDoRead nbytes nonblock s ps = (s', e)) :
    e = .restart ∧ I s' ∨ e ≠ .restart ∧ Q s' e := by
  induction ps generalizing s with
  | nil =>
      cases hs
      exact .inl ⟨rfl, h⟩
  | cons p ps ih =>
      rcases hp : readPass nbytes nonblock s p with ⟨c, f⟩
      have hcases := hpass s h p List.mem_cons_self c f hp
      rw [tuseDevDoRead, hp] at hs
      rcases hcases with ⟨rfl, hc⟩ | ⟨hf, hq⟩
      · exact ih (fun s hI q hq => hpass s hI q (List.mem_cons_of_mem _ hq)) hc hs
      · cases f with
        | restart => exact absurd rfl hf
        | ret n =>
            cases hs
            exact .inr ⟨hf, hq⟩
        | oops =>
            cases hs
            exact .inr ⟨hf, hq⟩

/-- A pass that does not restart is the last one. -/
theorem tuseDevDoRead_end {nbytes : UInt64} {nonblock : Bool} {s : Call} {p : Pass}
    {x : Call × PassEnd} (h : readPass nbytes nonblock s p = x) (hx : x.2 ≠ .restart)
    (ps : List Pass) : tuseDevDoRead nbytes nonblock s (p :: ps) = x := by
  obtain ⟨c, e⟩ := x
  rw [tuseDevDoRead, h]
  cases e with
  | restart => exact absurd rfl hx
  | ret n => rfl
  | oops => rfl

/-- A pass on a connected queue that is not empty takes the head. -/
theorem readPass_take {s : Call} (hc : s.iq.connected = true) {r : Option ℕ} {rest : List ℕ}
    (hq : s.iq.Takes r rest) (nbytes : UInt64) (nonblock : Bool) (p : Pass) :
    readPass nbytes nonblock s p =
      readRequest nbytes p.copyErr ⟨s.iq, s.pq, s.log ++ [.lock .waitq]⟩ r rest := by
  have hr : requestPending s.iq = true := by
    rw [← Bool.not_eq_false, requestPending_eq_false]
    rintro ⟨hnil, hi⟩
    cases r with
    | none => exact (hq.2 rfl).1 hi
    | some r => simp [hq.1] at hnil
  have htake : s.iq.pending.head? = r ∧ s.iq.pending.tail = rest := by
    cases r with
    | none => simp [hq.1, (hq.2 rfl).2]
    | some r => simp [hq.1]
  simp [readPass, Call.act, hc, hr, waitEvent, htake.1, htake.2]

theorem Iqueue.takes_cons {q : Iqueue} {r : ℕ} {rest : List ℕ} (hq : q.pending = r :: rest) :
    q.Takes (some r) rest := ⟨hq, fun h => by cases h⟩

theorem Iqueue.takes_none {q : Iqueue} (hq : q.pending = []) (hi : q.interrupts ≠ []) :
    q.Takes none [] := ⟨hq, fun _ => ⟨hi, rfl⟩⟩

/-- One pass for each request at the front of `pending` that is too large. -/
theorem tuseDevDoRead_skip {s : Call} (hc : s.iq.connected = true) {nbytes : UInt64}
    {l rest : List ℕ} (hq : s.iq.pending = l ++ rest)
    (hl : ∀ r ∈ l, s.iq.TooLarge nbytes (some r)) (nonblock : Bool) (p : Pass) (ps : List Pass) :
    ∃ s', s.Skips s' (l.map some) ∧ s'.iq.pending = rest ∧
      tuseDevDoRead nbytes nonblock s (List.replicate l.length p ++ ps) =
        tuseDevDoRead nbytes nonblock s' ps := by
  induction l generalizing s with
  | nil => exact ⟨s, .refl s, hq, rfl⟩
  | cons r l ih =>
      have htakes : s.iq.Takes (some r) (l ++ rest) := Iqueue.takes_cons hq
      have hpass := readPass_take hc htakes nbytes nonblock p
      rcases readRequest_cases htakes nbytes p.copyErr s.pq s.log with ⟨-, c, hread, hskips⟩ |
        ⟨hfits, -⟩
      · have hrest : c.iq.pending = l ++ rest := by
          have hpending := hskips.pending
          rw [hq] at hpending
          exact (List.cons.inj hpending).2.symm
        obtain ⟨s', hskips', hend, hs'⟩ := ih (hskips.same.connected.trans hc) hrest fun p hp =>
          (hskips.same.tooLarge_iff nbytes (some p)).mpr (hl p (List.mem_cons_of_mem _ hp))
        refine ⟨s', hskips.trans hskips', hend, ?_⟩
        rw [List.length_cons, List.replicate_succ, List.cons_append, tuseDevDoRead, hpass, hread]
        exact hs'
      · exact absurd (hl r List.mem_cons_self) hfits

theorem readFits_ne_restart (s : Call) (r : Option ℕ) (copyErr : Int) :
    (readFits s r copyErr).2 ≠ .restart := by
  cases h : s.pq.io with
  | zeroed => simp [readFits_zeroed h]
  | init l =>
      obtain ⟨c, hc, -⟩ := readFits_init h r copyErr
      rw [hc]
      unfold fitsEnd
      split_ifs <;> simp

/-- What the call comes to behind requests that are too large: the next request, or the list
head. -/
theorem tuseDevDoRead_reach {s : Call} (hc : s.iq.connected = true) {nbytes : UInt64}
    {l rest : List ℕ} {r : Option ℕ} (hq : s.iq.pending = l ++ (r.toList ++ rest))
    (hnone : r = none → s.iq.interrupts ≠ [] ∧ rest = [])
    (hl : ∀ r ∈ l, s.iq.TooLarge nbytes (some r)) (hr : ¬ s.iq.TooLarge nbytes r)
    (nonblock : Bool) (p : Pass) :
    ∃ ps q, (∀ p' ∈ ps, p' = p) ∧ s.iq.Same q ∧ tuseDevDoRead nbytes nonblock s ps =
      readFits ⟨q, s.pq, s.log ++ ((l.map some).flatMap tooLargeLog ++ takenLog r)⟩ r
        p.copyErr := by
  obtain ⟨c, hskips, hend, hs⟩ := tuseDevDoRead_skip hc hq hl nonblock p [p]
  have hq' : c.iq.Takes r rest := ⟨hend, fun h => hskips.same.interrupts ▸ hnone h⟩
  have hpass := readPass_take (hskips.same.connected.trans hc) hq' nbytes nonblock p
  rcases readRequest_cases hq' nbytes p.copyErr c.pq c.log with ⟨hlarge, -⟩ |
    ⟨-, q, hread, hsame, -⟩
  · exact absurd ((hskips.same.tooLarge_iff nbytes r).mp hlarge) hr
  · refine ⟨List.replicate l.length p ++ [p], q, fun p' hp => ?_, hskips.same.trans hsame, ?_⟩
    · rcases List.mem_append.mp hp with hp | hp
      · exact List.eq_of_mem_replicate hp
      · exact List.mem_singleton.mp hp
    rw [hs, ← List.append_assoc, ← hskips.log, ← hskips.pq]
    exact tuseDevDoRead_end (hpass.trans hread) (readFits_ne_restart _ _ _) []

/-- When all that is pending is too large, a call that may sleep comes to what arrives then. -/
theorem tuseDevDoRead_arrival {s : Call} (hc : s.iq.connected = true)
    (hi : s.iq.interrupts = []) {nbytes : UInt64}
    (hl : ∀ r ∈ s.iq.pending, s.iq.TooLarge nbytes (some r)) {x : NewReq}
    (hx : ¬ nbytes < x.len.toUInt64) (copyErr : Int) :
    ∃ ps q, (∀ p ∈ ps, p.copyErr = copyErr) ∧
      (q.reqs s.iq.next).toTuseInHeader = x.toTuseInHeader ∧
      (q.reqs s.iq.next).flags .frIsReply = x.isReply ∧ tuseDevDoRead nbytes false s ps =
      readFits ⟨q, s.pq, s.log ++
        ((s.iq.pending.map some).flatMap tooLargeLog ++ takenLog (some s.iq.next))⟩
        (some s.iq.next) copyErr := by
  have hall : s.iq.pending = s.iq.pending ++ [] := (List.append_nil _).symm
  obtain ⟨c, hskips, hnil, hs⟩ := tuseDevDoRead_skip hc hall hl false
    ⟨.arrive x [], copyErr⟩ [⟨.arrive x [], copyErr⟩]
  obtain ⟨⟨l, hpending⟩, hreq⟩ := Iqueue.appendAll_cons hnil x []
  rw [hskips.same.next] at hpending hreq
  have hpass : readPass nbytes false c ⟨.arrive x [], copyErr⟩ = readRequest nbytes copyErr
      ⟨c.iq.appendAll [x], c.pq, c.log ++ [.lock .waitq]⟩ (some s.iq.next) l := by
    have hc' := hskips.same.connected.trans hc
    have hpend := requestPending_eq_false.mpr ⟨hnil, hskips.same.interrupts.trans hi⟩
    have happ := (c.iq.appendAll_spec [x]).1.trans hc'
    simp [readPass, Call.act, hc', hpend, waitEvent, happ, hpending]
  have htakes : (c.iq.appendAll [x]).Takes (some s.iq.next) l := Iqueue.takes_cons hpending
  rcases readRequest_cases htakes nbytes copyErr c.pq c.log with ⟨hlarge, -⟩ |
    ⟨-, q, hread, hsame, -⟩
  · rw [Iqueue.TooLarge, Iqueue.req, hreq] at hlarge
    exact absurd hlarge (x.toReq_header ▸ hx)
  · refine ⟨List.replicate s.iq.pending.length ⟨.arrive x [], copyErr⟩ ++
      [⟨.arrive x [], copyErr⟩], q, fun p hp => ?_, ?_, ?_, ?_⟩
    · rcases List.mem_append.mp hp with hp | hp
      · rw [List.eq_of_mem_replicate hp]
      · rw [List.mem_singleton.mp hp]
    · have hheader := hsame.header (some s.iq.next)
      rw [Iqueue.req, Iqueue.req, hreq] at hheader
      exact hheader.trans x.toReq_header
    · have hreply := hsame.isReply (some s.iq.next)
      rw [Iqueue.req, Iqueue.req, hreq] at hreply
      exact hreply.trans x.toReq_isReply
    · rw [hs, ← List.append_assoc, ← hskips.log, ← hskips.pq]
      exact tuseDevDoRead_end (hpass.trans hread) (readFits_ne_restart _ _ _) []

end KernelMemo.Tuse
