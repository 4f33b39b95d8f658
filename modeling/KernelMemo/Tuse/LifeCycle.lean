import KernelMemo.Lib.TransitionSystem
import KernelMemo.Tuse.ReadPasses

/-! # Where the requests of a tuse connection are

The machine of a connection with `n` devices: the environment appends requests, and calls of
`tuse_dev_do_read` complete.  `LifeCycle` says that every request is in one place, pending,
processed by a device or finished.

* A request that fits the buffer makes `list_add` follow the zeroed `io` of the device: the
  call does not complete.
* A request that does not fit is taken off `pending` and passed to the empty `request_end`:
  it is `Lost`, and stays so.

So the requests are in their places exactly as long as no call takes one
(`lifeCycle_iff_idle`). -/

namespace KernelMemo.Tuse

/-! ### The connection -/

/-- A connection of `tuse_conn_init` and its devices. -/
structure Conn (n : ℕ) where
  iq : Iqueue
  pq : Fin n → Pqueue

/-- A call of `tuse_dev_do_read` on a device: the size of the buffer, `O_NONBLOCK`, and what
the environment does during its passes. -/
structure Read (n : ℕ) where
  dev : Fin n
  nbytes : UInt64
  nonblock : Bool
  passes : List Pass

inductive ConnEvent (n : ℕ) where
  | append (x : NewReq)
  | read (e : Read n)

variable {n : ℕ}

/-- `tuse_conn_init`, and `tuse_dev_alloc` for every device. -/
def tuseConnInit (n : ℕ) : Conn n := { iq := tuseIqueueInit, pq := fun _ => tuseDevAllocPq }

/-- The call with its end. -/
def Conn.call (s : Conn n) (e : Read n) : Call × PassEnd :=
  tuseDevDoRead e.nbytes e.nonblock ⟨s.iq, s.pq e.dev, []⟩ e.passes

/-- One step: an arrival, or a call that completes. -/
def Conn.step (s : Conn n) : ConnEvent n → Option (Conn n)
  | .append x => some { s with iq := s.iq.append x }
  | .read e =>
      match s.call e with
      | (c, .ret _) => some { iq := c.iq, pq := Function.update s.pq e.dev c.pq }
      | _ => none

/-- The connection with its devices, from `tuse_conn_init` on. -/
def conn (n : ℕ) : Lts (Conn n) (ConnEvent n) where
  init s := s = tuseConnInit n
  step := Conn.step

/-! ### Places -/

/-- Where a request can be. -/
inductive Place (n : ℕ) where
  | pending
  | processing (d : Fin n)
  | finished
deriving DecidableEq

/-- `request_end` is done with the request: its requester is woken or its reference dropped. -/
def Req.Finished (r : Req) : Prop := r.woken = true ∨ r.count = 0

/-- The request is at the place. -/
def Conn.In (s : Conn n) (r : ℕ) : Place n → Prop
  | .pending => r ∈ s.iq.pending
  | .processing d => r ∈ (s.pq d).processing.entries
  | .finished => (s.iq.reqs r).Finished

/-- Every request that was appended is in exactly one place, once, with the flags of the
place. -/
structure LifeCycle (s : Conn n) : Prop where
  place : ∀ r < s.iq.next, ∃! p, s.In r p
  pending_nodup : s.iq.pending.Nodup
  processing_nodup : ∀ d, (s.pq d).processing.entries.Nodup
  pending_flags : ∀ r ∈ s.iq.pending, (s.iq.reqs r).flags .frPending = true
  processing_flags : ∀ d, ∀ r ∈ (s.pq d).processing.entries,
    (s.iq.reqs r).flags .frSent = true ∧ (s.iq.reqs r).flags .frPending = false ∧
      (s.iq.reqs r).flags .frIsReply = true

/-- The requests that a step delivers: copied without error by a call that reports bytes. -/
def delivered (s : Conn n) : ConnEvent n → List ℕ
  | .append _ => []
  | .read e =>
      match s.call e with
      | (c, .ret m) => if 0 < m then c.log.filterMap fun
          | .copy r 0 => r
          | _ => none
        else []
      | _ => []

/-- The pass takes no request: none is pending, and none arrives while it sleeps. -/
def Iqueue.Quiet (q : Iqueue) (nonblock : Bool) (p : Pass) : Prop :=
  q.pending = [] ∧ (nonblock = true ∨ p.sleep = .signal)

/-- The call takes no request in its first pass. -/
def Conn.Idle (s : Conn n) (e : Read n) : Prop :=
  ∀ p ∈ e.passes.head?, s.iq.Quiet e.nonblock p

/-! ### The queue -/

/-- The input queue of a connection that never disconnects: `pending` holds requests that
exist, and `request_end` has finished none. -/
structure Iqueue.Raw (q : Iqueue) : Prop where
  connected : q.connected = true
  interrupts : q.interrupts = []
  nodup : q.pending.Nodup
  lt_next : ∀ r ∈ q.pending, r < q.next
  unfinished : ∀ r, ¬ (q.reqs r).Finished

/-- The request was appended and is not pending any more. -/
def Iqueue.Gone (q : Iqueue) (r : ℕ) : Prop := r < q.next ∧ r ∉ q.pending

theorem not_finished_toReq (x : NewReq) : ¬ x.toReq.Finished := by
  by_cases hr : x.isReply <;>
    simp [NewReq.toReq, hr, Req.Finished, tuseRequestInit, Req.setBit]

theorem Iqueue.raw_init : tuseIqueueInit.Raw where
  connected := rfl
  interrupts := rfl
  nodup := .nil
  lt_next _ h := by cases h
  unfinished _ := by simp [tuseIqueueInit, Req.Finished, tuseRequestInit, Req.setBit]

theorem Iqueue.Raw.append {q : Iqueue} (h : q.Raw) (x : NewReq) : (q.append x).Raw where
  connected := h.connected
  interrupts := h.interrupts
  nodup := by
    refine List.nodup_append.mpr ⟨h.nodup, by simp, ?_⟩
    rintro r hr p hp rfl
    obtain rfl := List.mem_singleton.mp hp
    exact Nat.lt_irrefl _ (h.lt_next _ hr)
  lt_next r hr := by
    rcases List.mem_append.mp hr with hr | hr
    · exact Nat.lt_succ_of_lt (h.lt_next r hr)
    · obtain rfl := List.mem_singleton.mp hr
      exact Nat.lt_succ_self _
  unfinished r := by
    by_cases hr : r = q.next
    · simpa [Iqueue.append, hr] using not_finished_toReq x
    · simpa [Iqueue.append, hr] using h.unfinished r

theorem Iqueue.Gone.append {q : Iqueue} {r : ℕ} (h : q.Gone r) (x : NewReq) :
    (q.append x).Gone r := by
  obtain ⟨hlt, hr⟩ := h
  refine ⟨Nat.lt_succ_of_lt hlt, fun hmem => ?_⟩
  rcases List.mem_append.mp hmem with hmem | hmem
  · exact hr hmem
  · obtain rfl := List.mem_singleton.mp hmem
    exact Nat.lt_irrefl _ hlt

theorem Iqueue.Raw.appendAll {q : Iqueue} (h : q.Raw) (xs : List NewReq) :
    (q.appendAll xs).Raw ∧ ∀ r, q.Gone r → (q.appendAll xs).Gone r := by
  induction xs generalizing q with
  | nil => exact ⟨h, fun _ hr => hr⟩
  | cons x xs ih =>
      obtain ⟨hraw, hgone⟩ := ih (h.append x)
      exact ⟨hraw, fun r hr => hgone r (hr.append x)⟩

/-- After requests at the front of `pending` were skipped, they are gone. -/
theorem Iqueue.Raw.skips {s s' : Call} (h : s.iq.Raw) {l : List (Option ℕ)}
    (hs : s.Skips s' l) :
    s'.iq.Raw ∧ (∀ r, s.iq.Gone r → s'.iq.Gone r) ∧ ∀ r, some r ∈ l → s'.iq.Gone r := by
  have hmem : ∀ r ∈ s'.iq.pending, r ∈ s.iq.pending := fun r hr =>
    hs.pending ▸ List.mem_append_right _ hr
  have hnodup := h.nodup
  rw [hs.pending, List.nodup_append] at hnodup
  obtain ⟨-, hnodup, hdisjoint⟩ := hnodup
  refine ⟨⟨hs.same.connected.trans h.connected, hs.same.interrupts.trans h.interrupts, hnodup,
    fun r hr => hs.same.next ▸ h.lt_next r (hmem r hr), fun r hr => h.unfinished r ?_⟩,
    fun r hr => ⟨hs.same.next ▸ hr.1, fun hr' => hr.2 (hmem r hr')⟩,
    fun r hr => ⟨?_, fun hr' => ?_⟩⟩
  · have hkept := hs.same.kept (some r)
    simp only [Iqueue.req, Req.kept, Prod.mk.injEq] at hkept
    obtain ⟨-, -, hwoken, hcount⟩ := hkept
    rwa [Req.Finished, hwoken, hcount] at hr
  · have hr' := List.mem_append_left s'.iq.pending (List.reduceOption_mem_iff.mpr hr)
    exact hs.same.next ▸ h.lt_next r (hs.pending ▸ hr')
  · exact hdisjoint r (List.reduceOption_mem_iff.mpr hr) r hr' rfl

/-- The queue at the dequeue. -/
theorem Iqueue.Raw.woken {q q' : Iqueue} (h : q.Raw) {nonblock : Bool} {sleep : Sleep}
    (hw : q.Woken nonblock sleep q') : q'.Raw ∧ ∀ r, q.Gone r → q'.Gone r := by
  rcases hw with rfl | ⟨-, -, -, x, xs, -, rfl⟩
  · exact ⟨h, fun _ hr => hr⟩
  · exact h.appendAll (x :: xs)

/-! ### One call -/

/-- A device as `tuse_dev_alloc` leaves it: `io` and `processing` are zeroed memory. -/
def Pqueue.Zeroed (q : Pqueue) : Prop := q.io = .zeroed ∧ q.processing = .zeroed

/-- The ends of a pass on a device as `tuse_dev_alloc` leaves it. -/
theorem readPass_raw {s : Call} (h : s.iq.Raw) (hz : s.pq.Zeroed) (nbytes : UInt64)
    (nonblock : Bool) (p : Pass) :
    (s.iq.Quiet nonblock p ∧ ∃ m log, m ≤ 0 ∧
      readPass nbytes nonblock s p = ({ s with log := log }, .ret m)) ∨
    ¬ s.iq.Quiet nonblock p ∧ ((readPass nbytes nonblock s p).2 = .oops ∨
      ∃ s', readPass nbytes nonblock s p = (s', .restart) ∧ s'.iq.Raw ∧ s'.pq = s.pq ∧
        (∀ r, s.iq.Gone r → s'.iq.Gone r) ∧ ∃ r, s'.iq.Gone r) := by
  rcases readPass_cases nbytes nonblock s p with ⟨m, hm, hpass, hdis | ⟨hnil, -, hn⟩⟩ |
    ⟨q, r, rest, -, hw, hq, hpass⟩
  · simp [h.connected] at hdis
  · exact .inl ⟨⟨hnil, hn⟩, m, _, hm, hpass⟩
  · obtain ⟨hraw, hgone⟩ := h.woken hw
    obtain ⟨r, rfl⟩ : ∃ i, r = some i := by
      cases r with
      | some i => exact ⟨i, rfl⟩
      | none => exact absurd hraw.interrupts (hq.2 rfl).1
    have hbusy : ¬ s.iq.Quiet nonblock p := by
      rintro ⟨hnil, hn⟩
      rcases hw with rfl | ⟨-, -, hn', x, xs, hsleep, -⟩
      · simp [hq.1] at hnil
      · simp [hn', hsleep] at hn
    refine .inr ⟨hbusy, ?_⟩
    rw [hpass]
    rcases readRequest_cases hq nbytes p.copyErr s.pq s.log with ⟨-, s', hread, hskips⟩ |
      ⟨-, q', hread, -, -⟩
    · obtain ⟨hraw', hgone', hr⟩ := Iqueue.Raw.skips (s := ⟨q, s.pq, s.log⟩) hraw hskips
      exact .inr ⟨s', hread, hraw', hskips.pq, fun p hp => hgone' p (hgone p hp), r,
        hr r List.mem_cons_self⟩
    · rw [hread, readFits_zeroed (s := ⟨q', s.pq, s.log ++ takenLog (some r)⟩) hz.1]
      exact .inl rfl

/-- A call that completes has taken nothing, or it has lost a request. -/
theorem tuseDevDoRead_cases {s s' : Call} (h : s.iq.Raw) (hz : s.pq.Zeroed) {nbytes : UInt64}
    {nonblock : Bool} {ps : List Pass} {m : Int}
    (hs : tuseDevDoRead nbytes nonblock s ps = (s', .ret m)) :
    m ≤ 0 ∧ s'.iq.Raw ∧ s'.pq = s.pq ∧ (∀ r, s.iq.Gone r → s'.iq.Gone r) ∧
      ((∀ p ∈ ps.head?, s.iq.Quiet nonblock p) ∧ s'.iq = s.iq ∨
        ¬ (∀ p ∈ ps.head?, s.iq.Quiet nonblock p) ∧ ∃ r, s'.iq.Gone r) := by
  induction ps generalizing s with
  | nil => cases hs
  | cons p ps ih =>
      simp only [tuseDevDoRead] at hs
      rcases readPass_raw h hz nbytes nonblock p with ⟨hquiet, k, log, hk, hpass⟩ |
          ⟨hbusy, hoops | ⟨c, hpass, hraw, hpq, hgone, r, hr⟩⟩
      · rw [hpass] at hs
        cases hs
        exact ⟨hk, h, rfl, fun _ hr => hr, .inl ⟨by simpa using hquiet, rfl⟩⟩
      · split at hs
        · rename_i hpass
          rw [hpass] at hoops
          cases hoops
        · cases hs
          rename_i hpass
          rw [hpass] at hoops
          cases hoops
      · rw [hpass] at hs
        obtain ⟨hm, hraw', hpq', hgone', -⟩ := ih hraw (hpq ▸ hz) hs
        exact ⟨hm, hraw', hpq'.trans hpq, fun q hq => hgone' q (hgone q hq),
          .inr ⟨by simpa using hbusy, r, hgone' r hr⟩⟩

/-! ### Runs -/

/-- The invariant of every run: the devices are as `tuse_dev_alloc` left them. -/
structure Conn.Raw (s : Conn n) : Prop where
  iq : s.iq.Raw
  pq : ∀ d, (s.pq d).Zeroed

theorem Conn.raw_init (n : ℕ) : (tuseConnInit n).Raw :=
  ⟨Iqueue.raw_init, fun _ => ⟨rfl, rfl⟩⟩

/-- A call that completes: the devices stay as they are, nothing is delivered, and the queue
too stays as it is or has lost a request. -/
theorem Conn.Raw.read {s s' : Conn n} (h : s.Raw) {e : Read n} (hs : s.step (.read e) = some s') :
    s'.Raw ∧ delivered s (.read e) = [] ∧ (∀ r, s.iq.Gone r → s'.iq.Gone r) ∧
      (s.Idle e ∧ s' = s ∨ ¬ s.Idle e ∧ ∃ r, s'.iq.Gone r) := by
  simp only [Conn.step] at hs
  split at hs
  · rename_i c m hc
    cases hs
    obtain ⟨hm, hraw, hpq, hgone, hend⟩ := tuseDevDoRead_cases h.iq (h.pq e.dev) hc
    have hsame : Function.update s.pq e.dev c.pq = s.pq := by
      rw [show c.pq = s.pq e.dev from hpq, Function.update_eq_self]
    refine ⟨⟨hraw, fun d => ?_⟩, ?_, hgone, ?_⟩
    · rw [hsame]
      exact h.pq d
    · simp only [delivered, hc, if_neg (show ¬ 0 < m by omega)]
    · rcases hend with ⟨hidle, hiq⟩ | ⟨hbusy, hr⟩
      · refine .inl ⟨hidle, ?_⟩
        rw [hsame, show c.iq = s.iq from hiq]
      · exact .inr ⟨hbusy, hr⟩
  · cases hs

theorem Conn.Raw.step {s s' : Conn n} (h : s.Raw) {e : ConnEvent n} (hs : s.step e = some s') :
    s'.Raw ∧ delivered s e = [] ∧ ∀ r, s.iq.Gone r → s'.iq.Gone r := by
  cases e with
  | append x =>
      cases hs
      exact ⟨⟨h.iq.append x, h.pq⟩, rfl, fun r hr => hr.append x⟩
  | read e =>
      obtain ⟨hraw, hdel, hgone, -⟩ := h.read hs
      exact ⟨hraw, hdel, hgone⟩

theorem Conn.raw_of_run {s : Conn n} {es : List (ConnEvent n)}
    (h : (conn n).run (tuseConnInit n) es = some s) : s.Raw :=
  Lts.run_invariant (P := Conn.Raw) (E := fun _ => True) (fun _ _ _ _ hc hs => (hc.step hs).1)
    (fun _ _ => trivial) h (Conn.raw_init n)

theorem delivered_of_run {s : Conn n} {es : List (ConnEvent n)}
    (h : (conn n).run (tuseConnInit n) es = some s) :
    (conn n).collect delivered (tuseConnInit n) es = [] := by
  refine Lts.run_history (P := fun es _ => (conn n).collect delivered (tuseConnInit n) es = [])
    rfl ?_ h
  intro es c e d hc hnil hs
  rw [Lts.collect_snoc _ hc, hnil, ((Conn.raw_of_run hc).step hs).2.1]
  rfl

/-- A request that is gone from `pending` is nowhere. -/
theorem Conn.Raw.not_lifeCycle {s : Conn n} (h : s.Raw) {r : ℕ} (hr : s.iq.Gone r) :
    ¬ LifeCycle s := by
  intro hl
  obtain ⟨p, hp, -⟩ := hl.place r hr.1
  cases p with
  | pending => exact hr.2 hp
  | processing d =>
      simp only [Conn.In, (h.pq d).2, ListHead.entries] at hp
      cases hp
  | finished => exact h.iq.unfinished r hp

/-- As long as nothing is taken, every request is pending. -/
structure Conn.Untouched (s : Conn n) : Prop where
  raw : s.Raw
  pending : ∀ r < s.iq.next, r ∈ s.iq.pending
  flags : ∀ r ∈ s.iq.pending, (s.iq.reqs r).flags .frPending = true

theorem toReq_pending (x : NewReq) : x.toReq.flags .frPending = true := by
  by_cases hr : x.isReply <;> simp [NewReq.toReq, hr, tuseRequestInit, Req.setBit]

theorem Conn.Untouched.append {s : Conn n} (h : s.Untouched) (x : NewReq) :
    ({ s with iq := s.iq.append x } : Conn n).Untouched where
  raw := ⟨h.raw.iq.append x, h.raw.pq⟩
  pending r hr := by
    rcases Nat.lt_succ_iff_lt_or_eq.mp hr with hr | rfl
    · exact List.mem_append_left _ (h.pending r hr)
    · exact List.mem_append_right _ List.mem_cons_self
  flags r hr := by
    by_cases hnext : r = s.iq.next
    · simpa [Iqueue.append, hnext] using toReq_pending x
    · have hmem : r ∈ s.iq.pending := by
        rcases List.mem_append.mp hr with hr | hr
        · exact hr
        · exact absurd (List.mem_singleton.mp hr) hnext
      simpa [Iqueue.append, hnext] using h.flags r hmem

theorem Conn.Untouched.lifeCycle {s : Conn n} (h : s.Untouched) : LifeCycle s where
  place r hr := by
    refine ⟨.pending, h.pending r hr, fun p hp => ?_⟩
    cases p with
    | pending => rfl
    | processing d =>
        simp only [Conn.In, (h.raw.pq d).2, ListHead.entries] at hp
        cases hp
    | finished => exact absurd hp (h.raw.iq.unfinished r)
  pending_nodup := h.raw.iq.nodup
  processing_nodup d := by rw [(h.raw.pq d).2]; exact .nil
  pending_flags := h.flags
  processing_flags d r hr := by
    rw [(h.raw.pq d).2] at hr
    cases hr

/-- **Requests of a tuse connection.**  In a run every request is in its place at every
instant, and requests are delivered in the order of their arrival, if and only if no completed
call of `tuse_dev_do_read` takes a request.  No run delivers anything (`delivered_of_run`), so the
order of delivery says nothing more. -/
theorem lifeCycle_iff_idle {n : ℕ} {s : Conn n} {es : List (ConnEvent n)}
    (h : (conn n).run (tuseConnInit n) es = some s) :
    ((∀ m c, (conn n).At (tuseConnInit n) es m c → LifeCycle c) ∧
      ((conn n).collect delivered (tuseConnInit n) es).Pairwise (· < ·)) ↔
    ∀ m c e, (conn n).At (tuseConnInit n) es m c → es[m]? = some (.read e) → c.Idle e := by
  constructor
  · rintro ⟨hlife, -⟩ m c e hc he
    obtain ⟨d, hd⟩ := Lts.exists_at h (m + 1)
    have hs : c.step (.read e) = some d := hc.step hd he
    obtain ⟨hraw, -, -, ⟨hidle, -⟩ | ⟨-, r, hr⟩⟩ := (Conn.raw_of_run hc).read hs
    · exact hidle
    · exact absurd (hlife _ d hd) (hraw.not_lifeCycle hr)
  · intro hidle
    refine ⟨fun m c hc => ?_, by rw [delivered_of_run h]; exact .nil⟩
    have huntouched : c.Untouched := by
      refine Lts.At.segment (P := Conn.Untouched) h (Lts.at_zero _ es) hc (Nat.zero_le m) ?_
        ⟨Conn.raw_init n, fun _ hr => absurd hr (Nat.not_lt_zero _), fun _ hr => by cases hr⟩
      intro k e d d' _ _ he hd hud hs
      cases e with
      | append x =>
          cases hs
          exact hud.append x
      | read e =>
          obtain ⟨-, -, -, ⟨-, rfl⟩ | ⟨hbusy, -⟩⟩ := hud.raw.read hs
          · exact hud
          · exact absurd (hidle k d e hd he) hbusy
    exact huntouched.lifeCycle

/-- A request of 48 bytes that wants a reply. -/
def setattr : NewReq := ⟨⟨48, 4, 1, 0, 0, 0⟩, true⟩

/-- A non-blocking call finds nothing, then a request arrives. -/
theorem lifeCycle_iff_idle_early : ∃ c : Conn 1, (conn 1).run (tuseConnInit 1)
    [.read ⟨0, 4096, true, [⟨.signal, 0⟩]⟩, .append setattr] = some c ∧ LifeCycle c := by
  obtain ⟨c, hc⟩ : ∃ c : Conn 1, (conn 1).run (tuseConnInit 1)
      [.read ⟨0, 4096, true, [⟨.signal, 0⟩]⟩, .append setattr] = some c := ⟨_, rfl⟩
  refine ⟨c, hc, ((lifeCycle_iff_idle hc).mpr fun k d e hd he => ?_).1 _ c (Lts.at_length hc)⟩
  rcases k with _ | _ | k <;> simp only [List.getElem?_cons_zero, List.getElem?_cons_succ,
    List.getElem?_nil, Option.some.injEq, reduceCtorEq] at he
  cases he
  cases hd
  exact fun p _ => ⟨rfl, .inl rfl⟩

/-- The buffer is too small: the call ends with `-EAGAIN`, and the request is nowhere. -/
theorem tooLarge_lost : ∃ s : Conn 1, (conn 1).run (tuseConnInit 1)
    [.append setattr, .read ⟨0, 8, true, [⟨.signal, 0⟩, ⟨.signal, 0⟩]⟩] = some s ∧
    0 < s.iq.next ∧ ∀ p, ¬ s.In 0 p := by
  have hrun : ((conn 1).run (tuseConnInit 1) [.append setattr,
      .read ⟨0, 8, true, [⟨.signal, 0⟩, ⟨.signal, 0⟩]⟩]).map (fun s => (s.iq.next, s.iq.pending,
        (s.pq 0).processing, (s.iq.reqs 0).woken, (s.iq.reqs 0).count)) =
      some (1, [], .zeroed, false, 1) := by
    decide
  obtain ⟨s, hs, heq⟩ := Option.map_eq_some_iff.mp hrun
  simp only [Prod.mk.injEq] at heq
  obtain ⟨hnext, hpending, hprocessing, hwoken, hcount⟩ := heq
  refine ⟨s, hs, by omega, fun p => ?_⟩
  cases p with
  | pending => simp [Conn.In, hpending]
  | processing d => simp [Conn.In, Subsingleton.elim d 0, hprocessing, ListHead.entries]
  | finished => simp [Conn.In, Req.Finished, hwoken, hcount]

end KernelMemo.Tuse
