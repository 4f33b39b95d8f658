import KernelMemo.CharDev.Tgw
import KernelMemo.Lib.TransitionSystem
import Mathlib.Algebra.Group.Nat.Defs

/-! # The bounds of `tgw`

Runs of opens, reads and writes of `old/simple.c`, with any counts.

* **Events.**  A copy from user memory may stop at a fault; `tgw_write` and `tgw_read` do not
  look at that.
* `tgw_write` takes any count, and keeps `all_read`; `tgw_read` clips its count to `data_size`
  and not to what is left.  The bounds hold in a run as long as no step makes use of that
  (`inBounds_iff`). -/

namespace KernelMemo.Tgw

/-! ### The runs -/

/-- A call of the driver. -/
inductive Event
  | «open»
  | write (count : BitVec 64) (user : ℕ → UInt8) (fault : Option ℕ)
  | read (count : BitVec 64)

/-- The bytes that `copy_from_user` copies. -/
def copied (count : BitVec 64) : Option ℕ → ℕ
  | none => count.toNat
  | some k => min k count.toNat

/-- `tgw_write` of `count` bytes at `user`. -/
def tgwWriteUser (s : State) (count : BitVec 64) (user : ℕ → UInt8) (fault : Option ℕ) : State :=
  { s with
    mem := fun i => if i < copied count fault then user i else s.mem i
    dataSize := count.setWidth 32 }

/-- A write without a fault is one of the bytes that are there. -/
theorem tgwWriteUser_eq (s : State) {buf : List UInt8} (h : buf.length < 2 ^ 64) :
    tgwWriteUser s (BitVec.ofNat 64 buf.length) (fun i => buf.getD i 0) none =
      (tgwWrite s buf).1 := by
  have hmem (i : ℕ) : (if i < buf.length then buf.getD i 0 else s.mem i) =
      buf.getD i (s.mem i) := by
    split
    · next hi => simp [hi]
    · next hi => simp [hi]
  simp only [tgwWriteUser, copied, BitVec.toNat_ofNat, Nat.mod_eq_of_lt h, hmem, tgwWrite]

/-- The calls of the driver. -/
def tgw : Lts State Event where
  init s := s = loaded
  step s
    | .open => some s
    | .write count user fault => some (tgwWriteUser s count user fault)
    | .read count => some (tgwRead s count).state

/-- The lengths that a step gives to `copy_to_user` and `copy_from_user`. -/
def copies (s : State) : Event → List ℕ
  | .open => []
  | .write count _ _ => [count.toNat]
  | .read count => if s.allRead = s.dataSize then [] else [(tgwRead s count).bytes.length]

/-- The count of the last write. -/
def lastCount : List Event → ℕ :=
  List.foldl (fun n e => match e with | .write count _ _ => count.toNat | _ => n) 0

/-- `0 <= all_read <= data_size <= 1024` -/
def Counters (s : State) : Prop :=
  0 ≤ s.allRead.toInt ∧ s.allRead.toInt ≤ s.dataSize.toInt ∧ s.dataSize.toInt ≤ kBufSize

/-- In a run the counters stay in the buffer, `data_size` is the count of the last write, and no
copy is longer than the buffer. -/
structure InBounds (es : List Event) : Prop where
  counters : ∀ m c, tgw.At loaded es m c → Counters c
  dataSize : ∀ m c, tgw.At loaded es m c → c.dataSize.toInt = lastCount (es.take m)
  copies : ∀ m c e n, tgw.At loaded es m c → es[m]? = some e → n ∈ copies c e → n ≤ kBufSize

/-- A write fits the buffer and is not below what has been read; a read finds that everything has
been read, or does not take more than is left. -/
def Fits (s : State) : Event → Prop
  | .open => True
  | .write count _ _ => s.allRead.toNat ≤ count.toNat ∧ count.toNat ≤ kBufSize
  | .read count =>
      s.allRead = s.dataSize ∨ s.allRead.toNat + min count.toNat s.dataSize.toNat ≤ s.dataSize.toNat

/-! ### One step -/

theorem counters_iff {s : State} : Counters s ↔
    s.allRead.toNat ≤ s.dataSize.toNat ∧ s.dataSize.toNat ≤ kBufSize := by
  have hread := s.allRead.isLt
  have hsize := s.dataSize.isLt
  simp only [Counters, BitVec.toInt_eq_toNat_cond, kBufSize]
  split <;> split <;> omega

theorem tgwRead_of_ne {s : State} (h : s.dataSize.toNat ≤ kBufSize) (hne : s.allRead ≠ s.dataSize)
    (count : BitVec 64) :
    (tgwRead s count).state =
        { s with allRead := s.allRead + BitVec.ofNat 32 (min count.toNat s.dataSize.toNat) } ∧
      (tgwRead s count).bytes.length = min count.toNat s.dataSize.toNat := by
  have hsize : s.dataSize.toNat ≤ 1024 := h
  have hext {n : ℕ} (hn : n ≤ s.dataSize.toNat) :
      ((BitVec.ofNat 32 n).signExtend 64).toNat = n := by
    rw [signExtend_ofNat (Nat.le_trans hn h), BitVec.toNat_ofNat, Nat.mod_eq_of_lt (by omega)]
  have hself : BitVec.ofNat 32 s.dataSize.toNat = s.dataSize := by
    rw [BitVec.ofNat_toNat, BitVec.setWidth_eq]
  have hlen : (if s.dataSize.signExtend 64 < count then s.dataSize else count.setWidth 32) =
      BitVec.ofNat 32 (min count.toNat s.dataSize.toNat) := by
    have hds := hext (Nat.le_refl _)
    rw [hself] at hds
    by_cases hlt : s.dataSize.signExtend 64 < count
    · rw [if_pos hlt]
      rw [BitVec.lt_def, hds] at hlt
      rw [Nat.min_eq_right (by omega), hself]
    · rw [if_neg hlt]
      rw [BitVec.lt_def, hds] at hlt
      rw [Nat.min_eq_left (by omega), BitVec.ofNat_toNat]
  rw [tgwRead, if_neg hne]
  simp only [hlen, List.length_map, List.length_range, hext (Nat.min_le_right _ _), and_self]

variable {s s' : State} {e : Event}

theorem Counters.step (h : Counters s) (hfit : Fits s e) (hs : tgw.step s e = some s') :
    Counters s' := by
  rw [counters_iff] at h ⊢
  have hsize : s.dataSize.toNat ≤ 1024 := h.2
  cases e with
  | «open» =>
      cases hs
      exact h
  | write count user fault =>
      cases hs
      have hcount : count.toNat ≤ 1024 := hfit.2
      have hset : (count.setWidth 32).toNat = count.toNat := by
        rw [BitVec.toNat_setWidth, Nat.mod_eq_of_lt (by omega)]
      show s.allRead.toNat ≤ (count.setWidth 32).toNat ∧ (count.setWidth 32).toNat ≤ kBufSize
      rw [hset]
      exact hfit
  | read count =>
      cases hs
      by_cases heq : s.allRead = s.dataSize
      · rw [tgwRead, if_pos heq]
        exact ⟨Nat.zero_le _, h.2⟩
      · have hleft := hfit.resolve_left heq
        rw [(tgwRead_of_ne h.2 heq count).1]
        refine ⟨?_, h.2⟩
        show (s.allRead + BitVec.ofNat 32 (min count.toNat s.dataSize.toNat)).toNat ≤
          s.dataSize.toNat
        rw [BitVec.toNat_add, BitVec.toNat_ofNat]
        omega

theorem Counters.copies_le (h : Counters s) (hfit : Fits s e) {n : ℕ} (hn : n ∈ copies s e) :
    n ≤ kBufSize := by
  have hsize := (counters_iff.mp h).2
  cases e with
  | «open» => cases hn
  | write count user fault =>
      cases List.mem_singleton.mp hn
      exact hfit.2
  | read count =>
      rw [copies] at hn
      split at hn
      · cases hn
      · next hne =>
        cases List.mem_singleton.mp hn
        rw [(tgwRead_of_ne hsize hne count).2]
        exact Nat.le_trans (Nat.min_le_right _ _) hsize

theorem Counters.fits (h : Counters s) (h' : Counters s') (hs : tgw.step s e = some s')
    (hcopies : ∀ n ∈ copies s e, n ≤ kBufSize) : Fits s e := by
  rw [counters_iff] at h h'
  have hsize : s.dataSize.toNat ≤ 1024 := h.2
  cases e with
  | «open» => trivial
  | write count user fault =>
      cases hs
      have hcount := hcopies _ List.mem_cons_self
      have hle : s.allRead.toNat ≤ (count.setWidth 32).toNat := h'.1
      rw [BitVec.toNat_setWidth] at hle
      exact ⟨Nat.le_trans hle (Nat.mod_le _ _), hcount⟩
  | read count =>
      cases hs
      refine or_iff_not_imp_left.mpr fun hne => ?_
      have hle := h'.1
      rw [(tgwRead_of_ne h.2 hne count).1] at hle
      simp only [BitVec.toNat_add, BitVec.toNat_ofNat] at hle
      omega

/-! ### The runs -/

variable {es : List Event}

theorem lastCount_snoc (es : List Event) (e : Event) :
    lastCount (es ++ [e]) = match e with | .write count _ _ => count.toNat | _ => lastCount es := by
  rw [lastCount, List.foldl_append]
  rfl

theorem counters_at (hrun : tgw.run loaded es = some s) {m : ℕ} {c : State}
    (hc : tgw.At loaded es m c)
    (hfit : ∀ k d e, k < m → tgw.At loaded es k d → es[k]? = some e → Fits d e) : Counters c :=
  Lts.At.segment hrun (Lts.at_zero _ es) hc (Nat.zero_le m)
    (fun k e d _ _ hk he hd hP hs => hP.step (hfit k d e hk hd he) hs)
    (counters_iff.mpr (by decide))

theorem dataSize_step (h : s.dataSize.toInt = lastCount es) (hfit : Fits s e)
    (hs : tgw.step s e = some s') : s'.dataSize.toInt = lastCount (es ++ [e]) := by
  rw [lastCount_snoc]
  cases e with
  | «open» =>
      cases hs
      exact h
  | write count user fault =>
      cases hs
      have hcount : count.toNat ≤ 1024 := hfit.2
      show (count.setWidth 32).toInt = count.toNat
      rw [BitVec.toInt_eq_toNat_cond, BitVec.toNat_setWidth, Nat.mod_eq_of_lt (by omega),
        if_pos (by omega)]
  | read count =>
      cases hs
      rw [tgwRead]
      split <;> exact h

theorem dataSize_at (hrun : tgw.run loaded es = some s)
    (hfit : ∀ m c e, tgw.At loaded es m c → es[m]? = some e → Fits c e) {m : ℕ} {c : State}
    (hc : tgw.At loaded es m c) : c.dataSize.toInt = lastCount (es.take m) := by
  induction m generalizing c with
  | zero =>
      cases hc
      rfl
  | succ m ih =>
      obtain ⟨d, hd⟩ := Lts.exists_at hrun m
      cases he : es[m]? with
      | none =>
          have hlen : es.length ≤ m := List.getElem?_eq_none_iff.mp he
          rw [List.take_of_length_le (by omega), ← List.take_of_length_le hlen,
            ← (hd.succ_of_length_le hlen).unique hc]
          exact ih hd
      | some e =>
          rw [List.take_add_one, he]
          exact dataSize_step (ih hd) (hfit m d e hd he) (hd.step hc he)

/-- **The bounds of `tgw`.**  In a run from the load of the module everything stays in the buffer
if and only if every step fits. -/
theorem inBounds_iff (hrun : tgw.run loaded es = some s) :
    InBounds es ↔ ∀ m c e, tgw.At loaded es m c → es[m]? = some e → Fits c e := by
  constructor
  · intro h m c e hc he
    obtain ⟨d, hd⟩ := Lts.exists_at hrun (m + 1)
    exact (h.counters m c hc).fits (h.counters (m + 1) d hd) (hc.step hd he)
      fun n hn => h.copies m c e n hc he hn
  · intro hfit
    refine ⟨fun m c hc => counters_at hrun hc fun k d e _ => hfit k d e, fun m c hc => ?_,
      fun m c e n hc he hn => ?_⟩
    · exact dataSize_at hrun hfit hc
    · exact (counters_at hrun hc fun k d e _ => hfit k d e).copies_le (hfit m c e hc he) hn

/-- A write between reads that end with `all_read = data_size`. -/
theorem inBounds_rewritten : InBounds
    [.open, .write 4 (fun _ => 7) none, .read 4, .write 1024 (fun _ => 8) (some 3), .read 1020,
      .read 1] := by
  refine (inBounds_iff rfl).mpr fun m c e hc he => ?_
  rcases m with _ | _ | _ | _ | _ | _ | m <;> cases he <;> cases hc <;> simp only [Fits] <;> decide

/-- The second read of 4 bytes counts to 8, the third to 12, of 10 bytes; and 1025 bytes are
written as they are. -/
theorem not_inBounds :
    ¬ InBounds [.write 10 (fun _ => 7) none, .read 4, .read 4, .read 4] ∧
      ¬ InBounds [.write 1025 (fun _ => 7) none] ∧
      ¬ InBounds [.write 4 (fun _ => 7) none, .read 3, .write 2 (fun _ => 8) none] := by
  refine ⟨fun h => ?_, fun h => ?_, fun h => ?_⟩
  · exact absurd (h.counters 4 _ rfl) (by rw [counters_iff]; decide)
  · exact absurd (h.copies 0 _ _ 1025 rfl rfl (by decide)) (by decide)
  · exact absurd (h.counters 3 _ rfl) (by rw [counters_iff]; decide)

end KernelMemo.Tgw
