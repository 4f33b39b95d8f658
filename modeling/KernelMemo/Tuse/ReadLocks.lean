import KernelMemo.Lib.LockTrace
import KernelMemo.Tuse.ReadPasses

/-! # What a read takes, and its locks

* **The request.**  `request_pending` looks at two lists, the dequeue at one: with interrupts
  and no request that fits, a call ends up taking the list head of `pending` for a request
  (`dequeuesRequests_iff`).
* **The locks.**  After the copy the request is moved or removed, and `tpq->lock` released,
  without having been taken again.  A call keeps the lock discipline only where it does not
  come that far (`lockDiscipline_iff`), also with the list head for a request. -/

namespace KernelMemo.Tuse

/-! ### The request that is dequeued -/

/-- Everything the call dequeues is a request: one of `pending`, or one that arrived since. -/
def Call.DequeuesRequests (q : Iqueue) (c : Call) : Prop :=
  ∀ x, .dequeue x ∈ c.log → ∃ r, x = some r ∧ (r ∈ q.pending ∨ q.next ≤ r)

/-- A connected queue with interrupts has a request that fits. -/
def Iqueue.Served (q : Iqueue) (nbytes : UInt64) : Prop :=
  q.connected = false ∨ q.interrupts = [] ∨ ∃ r ∈ q.pending, ¬ q.TooLarge nbytes r

namespace Iqueue.Served

variable {q q' : Iqueue} {nbytes : UInt64}

theorem woken (h : q.Served nbytes) {nonblock : Bool} {sleep : Sleep}
    (hw : q.Woken nonblock sleep q') : q'.Served nbytes := by
  rcases hw with rfl | ⟨-, hi, -, x, xs, -, rfl⟩
  · exact h
  · exact .inr (.inl ((q.appendAll_spec (x :: xs)).2.1.trans hi))

theorem skips {s s' : Call} (h : s.iq.Served nbytes) {l : List (Option ℕ)}
    (hs : s.Skips s' l) (hl : ∀ r ∈ l, s.iq.TooLarge nbytes r) : s'.iq.Served nbytes := by
  rcases h with hc | hi | ⟨r, hr, hfits⟩
  · exact .inl (hs.same.connected.trans hc)
  · exact .inr (.inl (hs.same.interrupts.trans hi))
  · rw [hs.pending] at hr
    rcases List.mem_append.mp hr with hr | hr
    · exact absurd (hl r (List.reduceOption_mem_iff.mp hr)) hfits
    · exact .inr (.inr ⟨r, hr, fun h => hfits ((hs.same.tooLarge_iff nbytes r).mp h)⟩)

end Iqueue.Served

theorem dequeue_mem_readFits (s : Call) (r : Option ℕ) (copyErr : Int) :
    ∃ t, (readFits s r copyErr).1.log = s.log ++ t ∧ ∀ x, .dequeue x ∉ t := by
  cases h : s.pq.io with
  | zeroed => exact ⟨_, by rw [readFits_zeroed h], by simp⟩
  | init l =>
      obtain ⟨c, hc, -, a, t, hlog, ha⟩ := readFits_init h r copyErr
      refine ⟨copiedLog r copyErr ++ a :: t, by rw [hc, hlog, List.append_assoc], fun x => ?_⟩
      cases ha <;> simp [copiedLog]

/-- With interrupts and nothing that fits, the call comes to the list head. -/
theorem dequeue_none_mem {s : Call} {nbytes : UInt64} (h : ¬ s.iq.Served nbytes)
    (nonblock : Bool) (p : Pass) :
    ∃ ps, .dequeue none ∈ (tuseDevDoRead nbytes nonblock s ps).1.log := by
  simp only [Iqueue.Served, not_or, not_exists, not_and, not_not, Bool.not_eq_false] at h
  obtain ⟨hc, hi, hl⟩ := h
  have hall : s.iq.pending = s.iq.pending ++ [] := (List.append_nil _).symm
  obtain ⟨c, hskips, hnil, hs⟩ := tuseDevDoRead_skip hc hall hl nonblock p [p]
  refine ⟨List.replicate s.iq.pending.length p ++ [p], ?_⟩
  rw [hs]
  have htakes : c.iq.Takes none [] := Iqueue.takes_none hnil (hskips.same.interrupts ▸ hi)
  have hpass := readPass_take (hskips.same.connected.trans hc) htakes nbytes nonblock p
  rcases readRequest_cases htakes nbytes p.copyErr c.pq c.log with ⟨-, c', hread, hskips'⟩ |
    ⟨-, q, hread, -⟩
  · rw [tuseDevDoRead, hpass, hread]
    simp [tuseDevDoRead, hskips'.log, tooLargeLog, takenLog]
  · rw [tuseDevDoRead_end (hpass.trans hread) (readFits_ne_restart _ _ _) []]
    obtain ⟨t, hlog, -⟩ := dequeue_mem_readFits ⟨q, c.pq, c.log ++ takenLog none⟩ none p.copyErr
    rw [hlog]
    simp [takenLog]

/-- What holds between the passes of a call on the queue `q`: it has dequeued requests, and
what is pending was there or has arrived. -/
structure Call.Dequeuing (q : Iqueue) (s : Call) : Prop where
  log : s.DequeuesRequests q
  pending : ∀ r ∈ s.iq.pending, r ∈ q.pending ∨ q.next ≤ r
  next : q.next ≤ s.iq.next

theorem Call.DequeuesRequests.append {q : Iqueue} {c c' : Call} (h : c.DequeuesRequests q)
    {t : List Action} (hlog : c'.log = c.log ++ t)
    (ht : ∀ x, .dequeue x ∈ t → ∃ r, x = some r ∧ (r ∈ q.pending ∨ q.next ≤ r)) :
    c'.DequeuesRequests q := by
  intro x hx
  rw [hlog] at hx
  rcases List.mem_append.mp hx with hx | hx
  · exact h x hx
  · exact ht x hx

/-- A request at the head of the queue after the sleep was pending or has arrived. -/
theorem Call.Dequeuing.woken {q : Iqueue} {s : Call} (h : s.Dequeuing q) {q' : Iqueue}
    {nonblock : Bool} {sleep : Sleep} (hw : s.iq.Woken nonblock sleep q') :
    (Call.mk q' s.pq s.log).Dequeuing q := by
  rcases hw with rfl | ⟨hnil, -, -, x, xs, -, rfl⟩
  · exact h
  · obtain ⟨-, -, ⟨l, hl, hle⟩, hnext, -⟩ := s.iq.appendAll_spec (x :: xs)
    refine ⟨h.log, fun r hr => ?_, Nat.le_trans h.next hnext⟩
    rw [show (s.iq.appendAll (x :: xs)).pending = l by rw [hl, hnil, List.nil_append]] at hr
    exact .inr (Nat.le_trans h.next (hle r hr))

theorem Call.Dequeuing.skips {q : Iqueue} {s s' : Call} (h : s.Dequeuing q) {r : ℕ}
    (hs : s.Skips s' [some r]) : s'.Dequeuing q where
  log := by
    refine h.log.append hs.log fun x hx => ?_
    refine ⟨r, by simpa [tooLargeLog, takenLog] using hx, h.pending r ?_⟩
    rw [hs.pending]
    exact List.mem_append_left _ List.mem_cons_self
  pending r hr := h.pending r (hs.pending ▸ List.mem_append_right _ hr)
  next := hs.same.next ▸ h.next

/-- A call that has a request that fits, or no interrupts, does not take the list head. -/
theorem Iqueue.Served.takes {q : Iqueue} {nbytes : UInt64} (h : q.Served nbytes)
    (hc : q.connected = true) {r : Option ℕ} {rest : List ℕ} (htakes : q.Takes r rest) :
    ∃ i, r = some i := by
  cases r with
  | some i => exact ⟨i, rfl⟩
  | none =>
      obtain ⟨hi, rfl⟩ := htakes.2 rfl
      rcases h with hc' | hi' | ⟨i, hmem, -⟩
      · simp [hc] at hc'
      · exact absurd hi' hi
      · simp [htakes.1] at hmem

theorem readPass_dequeues {q : Iqueue} {s s' : Call} {nbytes : UInt64} {nonblock : Bool}
    {p : Pass} {e : PassEnd} (h : s.Dequeuing q) (hserved : s.iq.Served nbytes)
    (hs : readPass nbytes nonblock s p = (s', e)) :
    e = .restart ∧ s'.Dequeuing q ∧ s'.iq.Served nbytes ∨
      e ≠ .restart ∧ s'.DequeuesRequests q := by
  rcases readPass_cases nbytes nonblock s p with ⟨m, -, hpass, -⟩ |
    ⟨q', r, rest, hc, hw, htakes, hpass⟩
  · rw [hpass] at hs
    cases hs
    exact .inr ⟨by simp, h.log.append rfl fun x hx => by simp [blockedLog] at hx⟩
  · have hw' := h.woken hw
    have hserved' := hserved.woken hw
    obtain ⟨r, rfl⟩ := hserved'.takes (hw.connected.trans hc) htakes
    rcases readRequest_cases htakes nbytes p.copyErr s.pq s.log with
      ⟨hlarge, c, hread, hskips⟩ | ⟨-, q'', hread, -, -⟩
    · rw [hpass, hread] at hs
      cases hs
      refine .inl ⟨rfl, hw'.skips hskips, Iqueue.Served.skips hserved' hskips fun p hp => ?_⟩
      exact List.mem_singleton.mp hp ▸ hlarge
    · rw [hpass, hread] at hs
      obtain ⟨t, hlog, ht⟩ :=
        dequeue_mem_readFits ⟨q'', s.pq, s.log ++ takenLog (some r)⟩ (some r) p.copyErr
      rw [hs] at hlog
      refine .inr ⟨?_, hw'.log.append (hlog.trans (List.append_assoc ..)) fun x hx => ?_⟩
      · have hne := readFits_ne_restart ⟨q'', s.pq, s.log ++ takenLog (some r)⟩ (some r) p.copyErr
        rw [hs] at hne
        exact hne
      · refine ⟨r, ?_, hw'.pending r (by simp [htakes.1])⟩
        simpa [takenLog, ht] using hx

theorem dequeuesRequests_of_served {q : Iqueue} {nbytes : UInt64} (h : q.Served nbytes)
    (nonblock : Bool) (pq : Pqueue) (ps : List Pass) :
    (tuseDevDoRead nbytes nonblock ⟨q, pq, []⟩ ps).1.DequeuesRequests q := by
  have hstart : (Call.mk q pq []).Dequeuing q :=
    ⟨fun _ hx => absurd hx (by simp), fun _ hr => .inl hr, Nat.le_refl _⟩
  rcases tuseDevDoRead_induct (I := fun s => s.Dequeuing q ∧ s.iq.Served nbytes)
    (Q := fun s _ => s.DequeuesRequests q) (fun s hI p _ s' e hs => readPass_dequeues hI.1 hI.2 hs)
    ⟨hstart, h⟩ rfl with ⟨-, hc, -⟩ | ⟨-, hc⟩
  · exact hc.log
  · exact hc

/-- **What a read dequeues.**  Every call on a queue dequeues nothing but requests if and only
if the queue is disconnected, it has no interrupts, or one of the pending requests fits the
buffer. -/
theorem dequeuesRequests_iff (q : Iqueue) (pq : Pqueue) (nbytes : UInt64) (nonblock : Bool) :
    (∀ ps, (tuseDevDoRead nbytes nonblock ⟨q, pq, []⟩ ps).1.DequeuesRequests q) ↔
      q.connected = false ∨ q.interrupts = [] ∨ ∃ r ∈ q.pending, ¬ q.TooLarge nbytes r := by
  constructor
  · intro h
    by_contra hserved
    obtain ⟨ps, hps⟩ := dequeue_none_mem (s := ⟨q, pq, []⟩) hserved nonblock ⟨.signal, 0⟩
    obtain ⟨r, hr, -⟩ := h ps none hps
    cases hr
  · intro h ps
    exact dequeuesRequests_of_served h nonblock pq ps

/-- A queue whose only entry is an interrupt. -/
def interrupted : Iqueue := { tuseIqueueInit with interrupts := [0], next := 1 }

/-- The sleep is over at once, and the list head is taken. -/
theorem interrupted_takes_head : ¬ (tuseDevDoRead 4096 false
    ⟨interrupted, ⟨true, .init [], .init []⟩, []⟩ [⟨.signal, 0⟩]).1.DequeuesRequests
      interrupted := by
  intro h
  obtain ⟨r, hr, -⟩ := h none (by decide)
  cases hr

/-! ### Lock discipline -/

/-- What an action does with the locks. -/
def Action.lockOp : Action → LockOp Lock
  | .lock l => .acquire l
  | .unlock l => .release l
  | .dequeue _ => .access .waitq
  | .addIo _ => .access .pq
  | .moveProcessing _ => .access .pq
  | .delIo _ => .access .pq
  | .copy _ _ => .free
  | .requestEnd _ => .free

def Call.lockOps (c : Call) : List (LockOp Lock) := c.log.map Action.lockOp

/-- The lock discipline of a call. -/
structure LockDiscipline (c : Call) (e : PassEnd) : Prop where
  /-- locks are released, and the lists changed, by a call that holds the lock -/
  disciplined : LockOp.Disciplined c.lockOps
  /-- no lock is held at the return -/
  balanced : ∀ n, e = .ret n → LockOp.Balanced c.lockOps

theorem balanced_blockedLog : LockOp.Balanced (blockedLog.map Action.lockOp) :=
  LockOp.balanced_section (t := []) Lock.waitq (by simp)

theorem balanced_takenLog (r : Option ℕ) : LockOp.Balanced ((takenLog r).map Action.lockOp) :=
  LockOp.balanced_section (t := [.access .waitq]) Lock.waitq (by simp)

theorem balanced_tooLargeLog (r : Option ℕ) :
    LockOp.Balanced ((tooLargeLog r).map Action.lockOp) := by
  rw [tooLargeLog, List.map_append]
  exact (balanced_takenLog r).append rfl

theorem balanced_copiedLog (r : Option ℕ) (copyErr : Int) :
    LockOp.Balanced ((copiedLog r copyErr).map Action.lockOp) :=
  (LockOp.balanced_section (t := [.access .pq]) Lock.pq (by simp)).append (u := [.free]) rfl

theorem balanced_skippedLog (l : List (Option ℕ)) :
    LockOp.Balanced ((l.flatMap tooLargeLog).map Action.lockOp) := by
  rw [List.map_flatMap]
  exact LockOp.balanced_flatMap balanced_tooLargeLog l

/-- After the copy the first action already needs `tpq->lock`. -/
theorem not_disciplined_readFits {s : Call} {l : List (Option ℕ)} (h : s.pq.io = .init l)
    (hs : LockOp.Balanced s.lockOps) (r : Option ℕ) (copyErr : Int) :
    ¬ LockOp.Disciplined (readFits s r copyErr).1.lockOps := by
  obtain ⟨c, hc, -, a, t, hlog, ha⟩ := readFits_init h r copyErr
  have hops : c.lockOps = s.lockOps ++ (copiedLog r copyErr).map Action.lockOp ++
      a.lockOp :: t.map Action.lockOp := by
    simp only [Call.lockOps, hlog, List.map_append, List.map_cons]
  rw [hc, hops, (hs.append (balanced_copiedLog r copyErr)).disciplined_append]
  refine LockOp.not_disciplined_cons (fun l => ?_) ?_ _
  · cases ha <;> simp [Action.lockOp]
  · cases ha <;> simp [Action.lockOp]

/-- What a call can take off the queue, in this order: the requests and, with interrupts, the list
head. -/
def Iqueue.takable (q : Iqueue) : List (Option ℕ) :=
  q.pending.map some ++ if q.interrupts = [] then [] else [none]

/-- No call gets to the copy: there is no connection, the device's `io` was never set up, or
nothing that it can take fits and it does not wait for more. -/
def Iqueue.Uncopied (q : Iqueue) (pq : Pqueue) (nbytes : UInt64) (nonblock : Bool) : Prop :=
  q.connected = false ∨ pq.io = .zeroed ∨
    (nonblock = true ∨ q.interrupts ≠ []) ∧ ∀ r ∈ q.takable, q.TooLarge nbytes r

theorem Iqueue.Takes.mem_takable {q : Iqueue} {r : Option ℕ} {rest : List ℕ}
    (h : q.Takes r rest) : r ∈ q.takable := by
  cases r with
  | some r => exact List.mem_append_left _ (List.mem_map_of_mem (by simp [h.1]))
  | none => simp [Iqueue.takable, (h.2 rfl).1]

theorem Call.Skips.mem_takable {s s' : Call} {l : List (Option ℕ)} (h : s.Skips s' l)
    {r : Option ℕ} (hr : r ∈ s'.iq.takable) : r ∈ s.iq.takable := by
  rw [Iqueue.takable, h.same.interrupts] at hr
  rw [Iqueue.takable, h.pending, List.map_append, List.append_assoc]
  exact List.mem_append_right _ hr

/-- What holds between the passes of a call that does not get to the copy. -/
structure Call.Clean (nbytes : UInt64) (nonblock : Bool) (s : Call) : Prop where
  balanced : LockOp.Balanced s.lockOps
  uncopied : s.iq.Uncopied s.pq nbytes nonblock

theorem Call.Clean.woken {nbytes : UInt64} {nonblock : Bool} {s : Call}
    (h : s.Clean nbytes nonblock) {q : Iqueue} {sleep : Sleep}
    (hw : s.iq.Woken nonblock sleep q) : (Call.mk q s.pq s.log).Clean nbytes nonblock := by
  rcases hw with rfl | ⟨-, hi, hn, x, xs, -, rfl⟩
  · exact h
  · refine ⟨h.balanced, ?_⟩
    rcases h.uncopied with hc | hio | ⟨hn' | hi', -⟩
    · exact .inl ((s.iq.appendAll_spec (x :: xs)).1.trans hc)
    · exact .inr (.inl hio)
    · simp [hn] at hn'
    · exact absurd hi hi'

theorem Call.Clean.skips {nbytes : UInt64} {nonblock : Bool} {s s' : Call}
    (h : s.Clean nbytes nonblock) {l : List (Option ℕ)} (hs : s.Skips s' l) :
    s'.Clean nbytes nonblock where
  balanced := by
    rw [Call.lockOps, hs.log, List.map_append]
    exact h.balanced.append (balanced_skippedLog l)
  uncopied := by
    rcases h.uncopied with hc | hio | ⟨hn, hl⟩
    · exact .inl (hs.same.connected.trans hc)
    · exact .inr (.inl (hs.pq ▸ hio))
    · exact .inr (.inr ⟨hs.same.interrupts ▸ hn, fun r hr =>
        (hs.same.tooLarge_iff nbytes r).mpr (hl r (hs.mem_takable hr))⟩)

theorem readPass_clean {nbytes : UInt64} {nonblock : Bool} {s s' : Call} {p : Pass} {e : PassEnd}
    (h : s.Clean nbytes nonblock) (hs : readPass nbytes nonblock s p = (s', e)) :
    e = .restart ∧ s'.Clean nbytes nonblock ∨ e ≠ .restart ∧ LockDiscipline s' e := by
  rcases readPass_cases nbytes nonblock s p with ⟨m, -, hpass, -⟩ |
    ⟨q, r, rest, hc, hw, htakes, hpass⟩
  · rw [hpass] at hs
    cases hs
    have hb : LockOp.Balanced ((s.log ++ blockedLog).map Action.lockOp) := by
      rw [List.map_append]
      exact h.balanced.append balanced_blockedLog
    exact .inr ⟨by simp, hb.disciplined, fun _ _ => hb⟩
  · have hw' := h.woken hw
    rcases readRequest_cases htakes nbytes p.copyErr s.pq s.log with
      ⟨-, c, hread, hskips⟩ | ⟨hfits, q', hread, hsame, -⟩
    · rw [hpass, hread] at hs
      cases hs
      exact .inl ⟨rfl, hw'.skips hskips⟩
    · have hio : s.pq.io = .zeroed := by
        rcases hw'.uncopied with hc' | hio | ⟨-, hl⟩
        · have hc'' : q.connected = true := hw.connected.trans hc
          simp [hc''] at hc'
        · exact hio
        · exact absurd (hl r htakes.mem_takable) hfits
      rw [hpass, hread, readFits_zeroed (s := ⟨q', s.pq, s.log ++ takenLog r⟩) hio] at hs
      cases hs
      refine .inr ⟨by simp, ?_, fun _ hn => by cases hn⟩
      rw [Call.lockOps, List.map_append, List.map_append]
      exact ((h.balanced.append (balanced_takenLog r)).disciplined_append _).mpr (by exact rfl)

theorem lockDiscipline_of_uncopied {q : Iqueue} {pq : Pqueue} {nbytes : UInt64} {nonblock : Bool}
    (h : q.Uncopied pq nbytes nonblock) (ps : List Pass) {c : Call} {e : PassEnd}
    (hc : tuseDevDoRead nbytes nonblock ⟨q, pq, []⟩ ps = (c, e)) : LockDiscipline c e := by
  rcases tuseDevDoRead_induct (I := Call.Clean nbytes nonblock) (Q := LockDiscipline)
    (fun s hI p _ s' e hs => readPass_clean hI hs) ⟨by rfl, h⟩ hc with ⟨rfl, hclean⟩ | ⟨-, hend⟩
  · exact ⟨hclean.balanced.disciplined, fun _ hn => by cases hn⟩
  · exact hend

/-- The first thing that fits of what a call can take off the queue. -/
def Iqueue.firstFit (q : Iqueue) (nbytes : UInt64) : Option (Option ℕ) :=
  q.takable.find? fun r => ¬ q.TooLarge nbytes r

theorem Iqueue.firstFit_eq_none {q : Iqueue} {nbytes : UInt64} :
    q.firstFit nbytes = none ↔ ∀ r ∈ q.takable, q.TooLarge nbytes r := by
  simp [firstFit]

/-- What is in front of the first thing that fits. -/
theorem Iqueue.firstFit_spec {q : Iqueue} {nbytes : UInt64} {r : Option ℕ}
    (h : q.firstFit nbytes = some r) :
    ∃ l rest, q.pending = l ++ (r.toList ++ rest) ∧
      (r = none → q.interrupts ≠ [] ∧ rest = []) ∧ (∀ p ∈ l, q.TooLarge nbytes (some p)) ∧
      ¬ q.TooLarge nbytes r := by
  rw [firstFit, takable, List.find?_append, List.find?_map] at h
  cases hf : q.pending.find? ((fun r => decide ¬ q.TooLarge nbytes r) ∘ some) with
  | some i =>
      obtain ⟨hfits, l, rest, hq, hl⟩ := List.find?_eq_some_iff_append.mp hf
      rw [hf] at h
      cases h
      exact ⟨l, rest, hq, by simp, by simpa using hl, by simpa using hfits⟩
  | none =>
      rw [hf] at h
      by_cases hi : q.interrupts = []
      · simp [hi] at h
      · obtain ⟨hfits, rfl⟩ : ¬ q.TooLarge nbytes none ∧ none = r := by simpa [hi] using h
        exact ⟨q.pending, [], by simp, fun _ => ⟨hi, rfl⟩, by simpa using hf, hfits⟩

/-- A call that may get to the copy does not keep the discipline. -/
theorem not_disciplined_of_copied {q : Iqueue} {pq : Pqueue} {nbytes : UInt64} {nonblock : Bool}
    (h : ¬ q.Uncopied pq nbytes nonblock) :
    ∃ ps, ¬ LockOp.Disciplined (tuseDevDoRead nbytes nonblock ⟨q, pq, []⟩ ps).1.lockOps := by
  simp only [Iqueue.Uncopied, not_or, Bool.not_eq_false, not_and] at h
  obtain ⟨hc, hio, hfits⟩ := h
  obtain ⟨l, hio⟩ : ∃ l, pq.io = .init l := by
    cases hz : pq.io with
    | zeroed => exact absurd hz hio
    | init l => exact ⟨l, rfl⟩
  cases hfit : q.firstFit nbytes with
  | some r =>
      obtain ⟨l₁, rest, hq, hnone, hl₁, hr⟩ := Iqueue.firstFit_spec hfit
      obtain ⟨ps, q', -, -, hs⟩ := tuseDevDoRead_reach (s := ⟨q, pq, []⟩) hc hq hnone hl₁ hr
        nonblock ⟨.signal, 0⟩
      refine ⟨ps, ?_⟩
      rw [hs]
      refine not_disciplined_readFits hio ?_ r 0
      rw [Call.lockOps, List.nil_append, List.map_append]
      exact (balanced_skippedLog _).append (balanced_takenLog r)
  | none =>
      have hl := Iqueue.firstFit_eq_none.mp hfit
      have hwait : ¬ (nonblock = true ∨ q.interrupts ≠ []) := fun hn => hfits hn hl
      simp only [not_or, not_not, Bool.not_eq_true] at hwait
      obtain ⟨rfl, hi⟩ := hwait
      -- an arrival with an empty header fits every buffer
      obtain ⟨ps, q', -, -, -, hs⟩ := tuseDevDoRead_arrival (s := ⟨q, pq, []⟩) hc hi
        (fun r hr => hl _ (List.mem_append_left _ (List.mem_map_of_mem hr)))
        (x := ⟨⟨0, 0, 0, 0, 0, 0⟩, false⟩) (by simp) 0
      refine ⟨ps, ?_⟩
      rw [hs]
      refine not_disciplined_readFits hio ?_ (some q.next) 0
      rw [Call.lockOps, List.nil_append, List.map_append]
      exact (balanced_skippedLog _).append (balanced_takenLog _)

/-- **Lock discipline of a read.**  Every call on a queue and a device keeps the discipline if
and only if it does not get to the copy. -/
theorem lockDiscipline_iff (q : Iqueue) (pq : Pqueue) (nbytes : UInt64) (nonblock : Bool) :
    (∀ ps c e, tuseDevDoRead nbytes nonblock ⟨q, pq, []⟩ ps = (c, e) → LockDiscipline c e) ↔
      q.Uncopied pq nbytes nonblock := by
  constructor
  · intro h
    by_contra hcopied
    obtain ⟨ps, hps⟩ := not_disciplined_of_copied hcopied
    exact hps (h ps _ _ rfl).disciplined
  · exact fun huncopied ps c e hc => lockDiscipline_of_uncopied huncopied ps hc

/-- A request of 48 bytes that wants a reply, on a queue of its own. -/
def oneRequest : Iqueue := tuseIqueueInit.append ⟨⟨48, 4, 1, 0, 0, 0⟩, true⟩

/-- The request is copied, moved to `processing` and returned. -/
theorem moved_unlocked : ∃ c, tuseDevDoRead 4096 false
    ⟨oneRequest, ⟨true, .init [], .init []⟩, []⟩ [⟨.signal, 0⟩] = (c, .ret 48) ∧
      ¬ LockDiscipline c (.ret 48) := by
  refine ⟨_, rfl, fun h => ?_⟩
  exact absurd h.disciplined (by decide)

end KernelMemo.Tuse
