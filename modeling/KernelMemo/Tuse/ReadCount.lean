import KernelMemo.Tuse.Copy
import KernelMemo.Tuse.ReadLocks

/-! # The count that a read reports

`tuse_dev_do_read` copies `sizeof(in->h)` bytes and returns `reqsize`, which is `in->h.len`.

* The user buffer gives `tuse_copy_fill` its pieces: no more than `nbytes` bytes of them.  The
  result of the copy is the same for every header (`UserBuf.copyErr`).
* Never more than the buffer is written, and what is written are its first bytes.
* The count is right for a request whose `in.h.len` is the size of the header, and for no other
  (`countExact_iff`). -/

namespace KernelMemo.Tuse

/-! ### The header -/

/-- The bytes of a `uint32_t`. -/
def le32 (x : UInt32) : List UInt8 :=
  [x.toUInt8, (x >>> 8).toUInt8, (x >>> 16).toUInt8, (x >>> 24).toUInt8]

/-- The bytes of a `uint64_t`. -/
def le64 (x : UInt64) : List UInt8 := le32 x.toUInt32 ++ le32 (x >>> 32).toUInt32

/-- The bytes at `&in->h`. -/
def TuseInHeader.bytes (h : TuseInHeader) : List UInt8 :=
  le32 h.len ++ le32 h.opcode ++ le64 h.nodeid ++ le64 h.uid ++ le64 h.gid ++ le64 h.pid

/-- `sizeof(in->h)` -/
def tuseInHeaderSize : UInt32 := 40

theorem TuseInHeader.length_bytes (h : TuseInHeader) :
    h.bytes.length = tuseInHeaderSize.toNat := rfl

/-! ### The user buffer -/

/-- A user buffer of `nbytes` bytes, as `tuse_copy_fill` finds it. -/
structure UserBuf (nbytes : UInt64) where
  fill : Fills
  within : ∀ k, (fill.spotsFrom 0 k).length ≤ nbytes.toNat

namespace UserBuf

variable {nbytes : UInt64}

/-- `tuse_copy_one(cs, &in->h, sizeof(in->h))` -/
def copyHeader (b : UserBuf nbytes) (h : TuseInHeader) : Int × CopyState :=
  tuseCopyOne b.fill ⟨tuseCopyInit, h.bytes, tuseInHeaderSize⟩

/-- The result of the copy of a header. -/
def copyErr (b : UserBuf nbytes) : Int := (b.copyHeader ⟨0, 0, 0, 0, 0, 0⟩).1

/-- What an action of a call writes. -/
def stores (b : UserBuf nbytes) (q : Iqueue) : Action → List Store
  | .copy r _ => (b.copyHeader (q.req r).toTuseInHeader).2.stores
  | _ => []

/-- What a call writes. -/
def written (b : UserBuf nbytes) (c : Call) : List Store := c.log.flatMap (b.stores c.iq)

theorem copyHeader_err (b : UserBuf nbytes) (h : TuseInHeader) :
    (b.copyHeader h).1 = b.copyErr :=
  tuseCopyOne_err rfl rfl rfl

/-- A copy writes a prefix of the header to the first bytes of the buffer, all of it when it
succeeds. -/
theorem copyHeader_spec (b : UserBuf nbytes) (h : TuseInHeader) :
    (∃ k, (b.copyHeader h).2.stores.map Prod.fst <+: b.fill.spotsFrom 0 k) ∧
      (b.copyHeader h).2.stores.length ≤ nbytes.toNat ∧
      (b.copyErr = 0 ∧ (b.copyHeader h).2.stores.map Prod.snd = h.bytes ∨
        b.copyErr < 0 ∧ (b.copyHeader h).2.stores.length < h.bytes.length) := by
  rcases hc : b.copyHeader h with ⟨e, cs⟩
  have he := b.copyHeader_err h
  rw [hc] at he
  obtain ⟨t, ht, hend⟩ := tuseCopyOne_spec h.length_bytes hc
  have hstores : cs.stores = t := ht.stores
  have hprefix : t.map Prod.fst <+: b.fill.spotsFrom 0 cs.fills := ⟨_, ht.spots.symm⟩
  refine ⟨⟨cs.fills, hstores ▸ hprefix⟩, ?_, ?_⟩
  · have hle := Nat.le_trans hprefix.length_le (b.within cs.fills)
    rwa [List.length_map, ← hstores] at hle
  · rcases hend with ⟨he', hall⟩ | ⟨hlt, -, -, f, -, hf⟩
    · exact .inl ⟨he.symm.trans he', hstores ▸ hall⟩
    · refine .inr ⟨?_, hstores ▸ hlt⟩
      rw [← he]
      exact hf ▸ f.neg

end UserBuf

/-! ### The property -/

/-- The count of a call into the buffer `b`: no more than the buffer is written, and a positive
result is the number of the bytes written, the first ones of the buffer, from the header of the
request on. -/
structure CountExact {nbytes : UInt64} (b : UserBuf nbytes) (c : Call) (e : PassEnd) : Prop where
  within : (b.written c).length ≤ nbytes.toNat
  exact : ∀ n, e = .ret n → 0 < n → (b.written c).length = n ∧
    (∃ k, (b.written c).map Prod.fst <+: b.fill.spotsFrom 0 k) ∧
    ∃ r, .copy r 0 ∈ c.log ∧ (c.iq.req r).toTuseInHeader.bytes <+: (b.written c).map Prod.snd

/-- If the device comes to report a count for the request, it is right. -/
def Pqueue.CountsRight (pq : Pqueue) (x : Req) : Prop :=
  x.len = 0 ∨ x.len = tuseInHeaderSize ∨ x.flags .frIsReply = true ∧ pq.processing = .zeroed

/-- Every count is right: none is reported, or what is taken has the right one. -/
def Iqueue.CountsRight (q : Iqueue) (pq : Pqueue) (nbytes : UInt64) (nonblock : Bool) : Prop :=
  nbytes < tuseInHeaderSize.toUInt64 ∨ q.connected = false ∨ pq.connected = false ∨
    pq.io = .zeroed ∨ (∀ r, q.firstFit nbytes = some r → pq.CountsRight (q.req r)) ∧
      (q.firstFit nbytes = none → nonblock = true ∨ q.interrupts ≠ [])

/-! ### What is written -/

/-- The log has no copy. -/
def NoCopy (log : List Action) : Prop := ∀ r err, .copy r err ∉ log

theorem NoCopy.append {l l' : List Action} (h : NoCopy l) (h' : NoCopy l') : NoCopy (l ++ l') :=
  fun r err hmem => (List.mem_append.mp hmem).elim (h r err) (h' r err)

theorem noCopy_takenLog (r : Option ℕ) : NoCopy (takenLog r) := fun _ _ => by simp [takenLog]

theorem noCopy_skippedLog (l : List (Option ℕ)) : NoCopy (l.flatMap tooLargeLog) := by
  intro r err hmem
  obtain ⟨p, -, hp⟩ := List.mem_flatMap.mp hmem
  simp [tooLargeLog, takenLog] at hp

theorem AfterCopy.noCopy {r : Option ℕ} {a : Action} {t : List Action} (h : AfterCopy r a t) :
    NoCopy (a :: t) := fun _ _ => by
  cases h <;> simp

variable {nbytes : UInt64}

theorem UserBuf.flatMap_stores (b : UserBuf nbytes) (q : Iqueue) {log : List Action}
    (h : NoCopy log) : log.flatMap (b.stores q) = [] := by
  rw [List.flatMap_eq_nil_iff]
  intro a ha
  cases a with
  | copy r err => exact absurd ha (h r err)
  | _ => rfl

/-- A request that fits is copied, once. -/
theorem readFits_written (b : UserBuf nbytes) {s : Call} {l : List (Option ℕ)}
    (h : s.pq.io = .init l) (hlog : NoCopy s.log) (r : Option ℕ) :
    ∃ c, readFits s r b.copyErr = (c, fitsEnd s.pq (s.iq.req r) b.copyErr) ∧
      b.written c = (b.copyHeader (s.iq.req r).toTuseInHeader).2.stores ∧
      .copy r b.copyErr ∈ c.log ∧ (c.iq.req r).toTuseInHeader = (s.iq.req r).toTuseInHeader := by
  obtain ⟨c, hc, hsame, a, t, hclog, ha⟩ := readFits_init h r b.copyErr
  refine ⟨c, hc, ?_, by simp [hclog, copiedLog], hsame.header r⟩
  have hcopied : (copiedLog r b.copyErr).flatMap (b.stores c.iq) =
      (b.copyHeader (c.iq.req r).toTuseInHeader).2.stores := by
    simp [copiedLog, UserBuf.stores]
  rw [UserBuf.written, hclog, List.flatMap_append, List.flatMap_append, b.flatMap_stores _ hlog,
    b.flatMap_stores _ ha.noCopy, hcopied, List.nil_append, List.append_nil, hsame.header]

theorem countExact_of_noCopy (b : UserBuf nbytes) {c : Call} {e : PassEnd} (h : NoCopy c.log)
    (he : ∀ n, e = .ret n → n ≤ 0) : CountExact b c e := by
  have hnil : b.written c = [] := b.flatMap_stores _ h
  exact ⟨by simp [hnil], fun n hn hpos => absurd (he n hn) (by omega)⟩

theorem fitsEnd_pos {pq : Pqueue} {x : Req} {err n : Int} (herr : err ≤ 0)
    (h : fitsEnd pq x err = .ret n) (hn : 0 < n) :
    pq.connected = true ∧ err = 0 ∧ ¬ (x.flags .frIsReply = true ∧ pq.processing = .zeroed) ∧
      n = x.len.toNat := by
  unfold fitsEnd at h
  split_ifs at h with hc he hz
  · cases h
    simp [enodev] at hn
  · cases h
    omega
  · cases h
    exact ⟨by simpa using hc, by simpa using he, by simpa using hz, rfl⟩

theorem readFits_exact (b : UserBuf nbytes) {s : Call} (hlog : NoCopy s.log) {r : Option ℕ}
    (h : nbytes < tuseInHeaderSize.toUInt64 ∨ s.pq.connected = false ∨ s.pq.io = .zeroed ∨
      s.pq.CountsRight (s.iq.req r)) {c : Call} {e : PassEnd}
    (hc : readFits s r b.copyErr = (c, e)) : CountExact b c e := by
  cases hio : s.pq.io with
  | zeroed =>
      rw [readFits_zeroed hio] at hc
      cases hc
      exact countExact_of_noCopy b (hlog.append fun _ _ => by simp) fun n hn => by cases hn
  | init l =>
      obtain ⟨c', hc', hwritten, hcopy, hheader⟩ := readFits_written b hio hlog r
      obtain ⟨hspots, hwithin, hend⟩ := b.copyHeader_spec (s.iq.req r).toTuseInHeader
      rw [hc', Prod.mk.injEq] at hc
      obtain ⟨rfl, he⟩ := hc
      refine ⟨hwritten ▸ hwithin, fun n hn hpos => ?_⟩
      rw [hwritten]
      have herr : b.copyErr ≤ 0 := by
        rcases hend with ⟨herr, -⟩ | ⟨herr, -⟩ <;> omega
      obtain ⟨hconn, hzero, hnotzeroed, hlen⟩ := fitsEnd_pos herr (he.trans hn) hpos
      have hbytes : (b.copyHeader (s.iq.req r).toTuseInHeader).2.stores.map Prod.snd =
          (s.iq.req r).toTuseInHeader.bytes := by
        rcases hend with ⟨-, hbytes⟩ | ⟨hneg, -⟩
        · exact hbytes
        · omega
      have hlength : (b.copyHeader (s.iq.req r).toTuseInHeader).2.stores.length = 40 := by
        rw [← List.length_map (f := Prod.snd), hbytes]
        rfl
      have hprefix : (c'.iq.req r).toTuseInHeader.bytes <+:
          (b.copyHeader (s.iq.req r).toTuseInHeader).2.stores.map Prod.snd := by
        have hsame := congrArg TuseInHeader.bytes hheader
        exact (hsame.trans hbytes.symm) ▸ List.prefix_rfl
      refine ⟨?_, hspots, r, hzero ▸ hcopy, hprefix⟩
      rw [hlength, hlen]
      rcases h with hsmall | hdis | hz | hz | hsize | hz
      · have hsmall' : nbytes.toNat < 40 := hsmall
        omega
      · simp [hdis] at hconn
      · simp [hio] at hz
      · simp [hlen, hz] at hpos
      · rw [hsize]
        rfl
      · exact absurd hz hnotzeroed

/-! ### The passes -/

theorem Iqueue.Takes.firstFit {q : Iqueue} {r : Option ℕ} {rest : List ℕ} (hq : q.Takes r rest)
    (hr : ¬ q.TooLarge nbytes r) : q.firstFit nbytes = some r := by
  cases r with
  | some r => simp [Iqueue.firstFit, Iqueue.takable, hq.1, hr]
  | none => simp [Iqueue.firstFit, Iqueue.takable, hq.1, (hq.2 rfl).1, (hq.2 rfl).2, hr]

theorem Iqueue.Same.countsRight_iff {q q' : Iqueue} (h : q.Same q') (pq : Pqueue)
    (r : Option ℕ) : pq.CountsRight (q'.req r) ↔ pq.CountsRight (q.req r) := by
  have hlen : (q'.req r).len = (q.req r).len := congrArg TuseInHeader.len (h.header r)
  rw [Pqueue.CountsRight, Pqueue.CountsRight, hlen, h.isReply]

/-- A pass that skips what it takes does not change what fits first. -/
theorem Call.Skips.firstFit {s s' : Call} {r : Option ℕ} (h : s.Skips s' [r])
    (hr : s.iq.TooLarge nbytes r) (hnone : r = none → s.iq.pending = []) :
    s'.iq.firstFit nbytes = s.iq.firstFit nbytes := by
  have hpending := h.pending
  have hsame : (fun i => decide ¬ s'.iq.TooLarge nbytes i) =
      fun i => decide ¬ s.iq.TooLarge nbytes i := by
    funext i
    rw [decide_eq_decide, h.same.tooLarge_iff]
  rw [Iqueue.firstFit, Iqueue.firstFit, hsame, Iqueue.takable, Iqueue.takable,
    h.same.interrupts, hpending]
  cases r with
  | some r =>
      simp [hr]
  | none =>
      have hnil := hnone rfl
      rw [hpending] at hnil
      simp [(List.append_eq_nil_iff.mp hnil).2]

/-- What holds between the passes of a call whose counts are right. -/
structure Call.Counting (nbytes : UInt64) (nonblock : Bool) (s : Call) : Prop where
  noCopy : NoCopy s.log
  right : s.iq.CountsRight s.pq nbytes nonblock

theorem Call.Counting.woken {nonblock : Bool} {s : Call} (h : s.Counting nbytes nonblock)
    {q : Iqueue} {sleep : Sleep} (hw : s.iq.Woken nonblock sleep q) :
    (Call.mk q s.pq s.log).Counting nbytes nonblock := by
  rcases hw with rfl | ⟨hnil, hi, hn, x, xs, -, rfl⟩
  · exact h
  · refine ⟨h.noCopy, ?_⟩
    rcases h.right with hsmall | hc | hpc | hio | ⟨-, hnone⟩
    · exact .inl hsmall
    · exact .inr (.inl ((s.iq.appendAll_spec (x :: xs)).1.trans hc))
    · exact .inr (.inr (.inl hpc))
    · exact .inr (.inr (.inr (.inl hio)))
    · have hfit : s.iq.firstFit nbytes = none :=
        Iqueue.firstFit_eq_none.mpr (by simp [Iqueue.takable, hnil, hi])
      rcases hnone hfit with hn' | hi'
      · simp [hn] at hn'
      · exact absurd hi hi'

theorem Call.Counting.skips {nonblock : Bool} {s s' : Call} (h : s.Counting nbytes nonblock)
    {r : Option ℕ} {rest : List ℕ} (htakes : s.iq.Takes r rest) (hs : s.Skips s' [r])
    (hr : s.iq.TooLarge nbytes r) : s'.Counting nbytes nonblock where
  noCopy := hs.log ▸ h.noCopy.append (noCopy_skippedLog [r])
  right := by
    have hfit : s'.iq.firstFit nbytes = s.iq.firstFit nbytes := by
      refine hs.firstFit hr fun hnone => ?_
      subst hnone
      rw [htakes.1, (htakes.2 rfl).2]
      rfl
    rcases h.right with hsmall | hc | hpc | hio | ⟨hright, hnone⟩
    · exact .inl hsmall
    · exact .inr (.inl (hs.same.connected.trans hc))
    · exact .inr (.inr (.inl (hs.pq ▸ hpc)))
    · exact .inr (.inr (.inr (.inl (hs.pq ▸ hio))))
    · refine .inr (.inr (.inr (.inr ⟨fun r hr => ?_, hfit ▸ hs.same.interrupts ▸ hnone⟩)))
      rw [hs.pq]
      exact (hs.same.countsRight_iff s.pq r).mpr (hright r (hfit ▸ hr))

/-- One pass of a call whose counts are right. -/
theorem readPass_counts (b : UserBuf nbytes) {nonblock : Bool} {s s' : Call} {p : Pass}
    {e : PassEnd} (h : s.Counting nbytes nonblock) (hp : p.copyErr = b.copyErr)
    (hs : readPass nbytes nonblock s p = (s', e)) :
    e = .restart ∧ s'.Counting nbytes nonblock ∨ e ≠ .restart ∧ CountExact b s' e := by
  rcases readPass_cases nbytes nonblock s p with ⟨m, hm, hpass, -⟩ |
    ⟨q, r, rest, hc, hw, htakes, hpass⟩
  · rw [hpass] at hs
    cases hs
    refine .inr ⟨by simp,
      countExact_of_noCopy b (h.noCopy.append fun _ _ => by simp [blockedLog]) ?_⟩
    rintro n ⟨⟩
    exact hm
  · have hw' := h.woken hw
    rcases readRequest_cases htakes nbytes p.copyErr s.pq s.log with
      ⟨hlarge, c, hread, hskips⟩ | ⟨hfits, q', hread, hsame, -⟩
    · rw [hpass, hread] at hs
      cases hs
      exact .inl ⟨rfl, hw'.skips htakes hskips hlarge⟩
    · rw [hpass, hread, hp] at hs
      have hne := readFits_ne_restart ⟨q', s.pq, s.log ++ takenLog r⟩ r b.copyErr
      rw [hs] at hne
      refine .inr ⟨hne, readFits_exact (s := ⟨q', s.pq, s.log ++ takenLog r⟩) b
        (h.noCopy.append (noCopy_takenLog r)) ?_ hs⟩
      rcases hw'.right with hsmall | hc' | hpc | hio | ⟨hright, -⟩
      · exact .inl hsmall
      · have hc'' : q.connected = true := hw.connected.trans hc
        simp [hc''] at hc'
      · exact .inr (.inl hpc)
      · exact .inr (.inr (.inl hio))
      · have hr := hright r (htakes.firstFit hfits)
        exact .inr (.inr (.inr ((hsame.countsRight_iff s.pq r).mpr hr)))

theorem countExact_of_countsRight {q : Iqueue} {pq : Pqueue} {nonblock : Bool}
    (h : q.CountsRight pq nbytes nonblock) (b : UserBuf nbytes) {ps : List Pass}
    (hps : ∀ p ∈ ps, p.copyErr = b.copyErr) {c : Call} {e : PassEnd}
    (hc : tuseDevDoRead nbytes nonblock ⟨q, pq, []⟩ ps = (c, e)) : CountExact b c e := by
  rcases tuseDevDoRead_induct (I := Call.Counting nbytes nonblock) (Q := CountExact b)
    (fun s hI p hp s' e hs => readPass_counts b hI (hps p hp) hs)
    ⟨fun _ _ => by simp, h⟩ hc with ⟨rfl, hcounting⟩ | ⟨-, hend⟩
  · exact countExact_of_noCopy b hcounting.noCopy fun n hn => by cases hn
  · exact hend

/-- A buffer with one piece, as large as the header. -/
def headerFill : Fills
  | 0 => .ok ⟨⟨0, 0, tuseInHeaderSize, by decide⟩, by decide⟩
  | _ + 1 => .error ⟨-14, by decide⟩

theorem length_headerFill (k : ℕ) :
    (headerFill.spotsFrom 0 (k + 1)).length = tuseInHeaderSize.toNat := by
  have hrest : headerFill.spotsFrom 1 (k + 1) = [] := by
    rw [Fills.spotsFrom, List.flatMap_eq_nil_iff]
    intro i hi
    obtain ⟨j, rfl⟩ := Nat.exists_eq_add_of_le (List.mem_range'_1.mp hi).1
    rw [Nat.add_comm]
    rfl
  rw [headerFill.spotsFrom_succ (Nat.succ_pos k), hrest, List.append_nil]
  exact Window.length_spots _

/-- The buffer that starts with this piece. -/
def headerBuf (h : tuseInHeaderSize.toUInt64 ≤ nbytes) : UserBuf nbytes where
  fill := headerFill
  within k := by
    cases k with
    | zero => exact Nat.zero_le _
    | succ k =>
        rw [length_headerFill]
        exact h

theorem headerBuf_copyErr (h : tuseInHeaderSize.toUInt64 ≤ nbytes) :
    (headerBuf h).copyErr = 0 := by
  rcases hc : (headerBuf h).copyHeader ⟨0, 0, 0, 0, 0, 0⟩ with ⟨e, cs⟩
  have he : (headerBuf h).copyErr = e := congrArg Prod.fst hc
  obtain ⟨t, ht, ⟨hzero, -⟩ | ⟨hlt, hroom, hfills, -⟩⟩ :=
    tuseCopyOne_spec (TuseInHeader.length_bytes _) hc
  · exact he.trans hzero
  · -- the failed call comes after the piece, which the header fills
    obtain ⟨k, hk⟩ := Nat.exists_eq_succ_of_ne_zero (Nat.ne_of_gt hfills)
    have hspots := congrArg List.length ht.spots
    rw [hroom, List.append_nil, List.length_map, hk] at hspots
    rw [TuseInHeader.length_bytes, ← hspots] at hlt
    exact absurd hlt (by rw [← length_headerFill k]; exact Nat.lt_irrefl _)

/-- The count of a request that fits is its `in.h.len`, but what is written is its header. -/
theorem countsRight_of_countExact (h : tuseInHeaderSize.toUInt64 ≤ nbytes) {s : Call}
    (hconn : s.pq.connected = true) {l : List (Option ℕ)} (hio : s.pq.io = .init l)
    (hlog : NoCopy s.log) {r : Option ℕ}
    (hcount : ∀ c e, readFits s r (headerBuf h).copyErr = (c, e) → CountExact (headerBuf h) c e) :
    s.pq.CountsRight (s.iq.req r) := by
  obtain ⟨c, hc, hwritten, -, -⟩ := readFits_written (headerBuf h) hio hlog r
  obtain ⟨-, hexact⟩ := hcount c _ hc
  obtain ⟨-, -, ⟨-, hbytes⟩ | ⟨hneg, -⟩⟩ :=
    (headerBuf h).copyHeader_spec (s.iq.req r).toTuseInHeader
  case inr => simp [headerBuf_copyErr h] at hneg
  have hlength : ((headerBuf h).written c).length = tuseInHeaderSize.toNat := by
    rw [hwritten, ← List.length_map (f := Prod.snd), hbytes]
    rfl
  by_contra hright
  simp only [Pqueue.CountsRight, not_or] at hright
  obtain ⟨hzero, hsize, hzeroed⟩ := hright
  have hend : fitsEnd s.pq (s.iq.req r) (headerBuf h).copyErr =
      .ret (s.iq.req r).len.toNat := by
    have hz : ((s.iq.req r).flags .frIsReply && decide (s.pq.processing = .zeroed)) = false := by
      simpa using hzeroed
    simp [fitsEnd, hconn, headerBuf_copyErr h, hz]
  have hpos : (s.iq.req r).len.toNat ≠ 0 := fun h0 => hzero (UInt32.toNat_inj.mp h0)
  obtain ⟨hn, -⟩ := hexact _ hend (by omega)
  rw [hlength] at hn
  exact hsize (UInt32.toNat_inj.mp (by omega))

section Exact

variable {q : Iqueue} {pq : Pqueue} {nonblock : Bool}
  (h : ∀ (b : UserBuf nbytes) ps c e, (∀ p ∈ ps, p.copyErr = b.copyErr) →
    tuseDevDoRead nbytes nonblock ⟨q, pq, []⟩ ps = (c, e) → CountExact b c e)
  (hsize : tuseInHeaderSize.toUInt64 ≤ nbytes) (hc : q.connected = true)
  (hconn : pq.connected = true) {l : List (Option ℕ)} (hio : pq.io = .init l)
include h hsize hc hconn hio

/-- The call can come to the first thing that fits, with a buffer for its header. -/
theorem countsRight_of_firstFit {r : Option ℕ} (hr : q.firstFit nbytes = some r) :
    pq.CountsRight (q.req r) := by
  obtain ⟨l₁, rest, hq, hnone, hl₁, hfits⟩ := Iqueue.firstFit_spec hr
  obtain ⟨ps, q', hps, hsame, hs⟩ := tuseDevDoRead_reach (s := ⟨q, pq, []⟩) hc hq hnone hl₁ hfits
    nonblock ⟨.signal, (headerBuf hsize).copyErr⟩
  have hr' : pq.CountsRight (q'.req r) := countsRight_of_countExact
    (s := ⟨q', pq, [] ++ ((l₁.map some).flatMap tooLargeLog ++ takenLog r)⟩) hsize hconn hio
    ((noCopy_skippedLog _).append (noCopy_takenLog r)) fun c e hce =>
      h _ ps c e (fun p hp => by rw [hps p hp]) (hs.trans hce)
  exact (hsame.countsRight_iff pq r).mp hr'

/-- A call that sleeps can be woken by a request whose length is not that of its header. -/
theorem nonblock_of_countExact (hnone : q.firstFit nbytes = none) :
    nonblock = true ∨ q.interrupts ≠ [] := by
  by_contra hn
  simp only [not_or, not_not, Bool.not_eq_true] at hn
  obtain ⟨rfl, hi⟩ := hn
  have hl := Iqueue.firstFit_eq_none.mp hnone
  have hone : ¬ nbytes < (1 : UInt32).toUInt64 := by
    intro hlt
    have hlt' : nbytes.toNat < 1 := hlt
    have hle : 40 ≤ nbytes.toNat := hsize
    omega
  obtain ⟨ps, q', hps, hheader, hreply, hs⟩ := tuseDevDoRead_arrival (s := ⟨q, pq, []⟩) hc hi
    (fun r hr => hl _ (List.mem_append_left _ (List.mem_map_of_mem hr)))
    (x := ⟨⟨1, 0, 0, 0, 0, 0⟩, false⟩) hone (headerBuf hsize).copyErr
  have hright : pq.CountsRight (q'.reqs q.next) := countsRight_of_countExact (r := some q.next)
    (s := ⟨q', pq, [] ++ ((q.pending.map some).flatMap tooLargeLog ++ takenLog (some q.next))⟩)
    hsize hconn hio ((noCopy_skippedLog _).append (noCopy_takenLog _)) fun c e hce =>
      h _ ps c e hps (hs.trans hce)
  rcases hright with hzero | hforty | ⟨htrue, -⟩
  · simp [hheader] at hzero
  · simp [hheader, tuseInHeaderSize] at hforty
  · simp [hreply] at htrue

end Exact

/-- **The count of a read.**  Every call on a queue and a device, with every buffer of `nbytes`
bytes, reports what it has written if and only if its counts are right: it reports none, or what
it takes has the length of its header. -/
theorem countExact_iff (q : Iqueue) (pq : Pqueue) (nbytes : UInt64) (nonblock : Bool) :
    (∀ (b : UserBuf nbytes) ps c e, (∀ p ∈ ps, p.copyErr = b.copyErr) →
      tuseDevDoRead nbytes nonblock ⟨q, pq, []⟩ ps = (c, e) → CountExact b c e) ↔
      q.CountsRight pq nbytes nonblock := by
  constructor
  · intro h
    by_contra hright
    simp only [Iqueue.CountsRight, not_or, Bool.not_eq_false] at hright
    obtain ⟨hsize, hc, hconn, hio, hright⟩ := hright
    have hsize' : tuseInHeaderSize.toUInt64 ≤ nbytes := UInt64.not_lt.mp hsize
    obtain ⟨l, hio⟩ : ∃ l, pq.io = .init l := by
      cases hz : pq.io with
      | zeroed => exact absurd hz hio
      | init l => exact ⟨l, rfl⟩
    exact hright ⟨fun r hr => countsRight_of_firstFit h hsize' hc hconn hio hr,
      nonblock_of_countExact h hsize' hc hconn hio⟩
  · exact fun hright b ps c e hps hc => countExact_of_countsRight hright b hps hc

/-- A request of 48 bytes is reported with 48 bytes, of which 40 are written. -/
theorem count_too_large : ∃ (b : UserBuf 4096) (c : Call),
    tuseDevDoRead 4096 false ⟨oneRequest, ⟨true, .init [], .init []⟩, []⟩
      [⟨.signal, b.copyErr⟩] = (c, .ret 48) ∧ (b.written c).length = 40 ∧
      ¬ CountExact b c (.ret 48) := by
  have hsize : tuseInHeaderSize.toUInt64 ≤ 4096 := by decide
  obtain ⟨c, hc, hwritten, -⟩ := readFits_written (headerBuf hsize) (l := [])
    (s := ⟨{ oneRequest.modify (some 0) (·.clearBit .frPending) with pending := [] },
      ⟨true, .init [], .init []⟩, takenLog (some 0)⟩) rfl (noCopy_takenLog _) (some 0)
  have hlength : ((headerBuf hsize).written c).length = 40 := by
    obtain ⟨-, -, ⟨-, hbytes⟩ | ⟨hneg, -⟩⟩ :=
      (headerBuf hsize).copyHeader_spec (oneRequest.reqs 0).toTuseInHeader
    · have hlen := congrArg List.length hbytes
      rw [List.length_map] at hlen
      exact (congrArg List.length hwritten).trans hlen
    · simp [headerBuf_copyErr hsize] at hneg
  refine ⟨headerBuf hsize, c, ?_, hlength, fun h => ?_⟩
  · rw [headerBuf_copyErr] at hc ⊢
    exact hc
  · obtain ⟨hn, -⟩ := h.exact 48 rfl (by decide)
    rw [hlength] at hn
    exact absurd hn (by decide)

end KernelMemo.Tuse
