import Mathlib.Algebra.Group.Nat.Defs
import Mathlib.Algebra.GroupWithZero.Nat
import Mathlib.Data.List.Basic
import Mathlib.Data.Nat.Init
import Mathlib.Data.Nat.Notation
import Mathlib.Tactic.ByContra

/-! # Reading an entry of the pagemap

`pagemap_get_entry` of `old/usr/vm.c`.

* **Reads.**  The results of `pread` are given, by the number of the call; each is an error or a
  count up to the 8 bytes that are asked for, 0 at the end of the file.  An offset that is negative
  as an `off_t` is an error.
* **Arithmetic.**  The offset is computed in 64 bits.  `nread` is a number here: it is less than 16
  where it is used.
* Every `pread` starts at `&data` and asks for all 8 bytes.  What comes in more than one part is
  therefore not put together, but the last part is on top of the others (`survives_iff`). -/

namespace KernelMemo.Pagemap

/-! ### The entry -/

/-- `PagemapEntry` -/
structure PagemapEntry where
  pfn : UInt64
  softDirty : UInt64
  filePage : UInt64
  swapped : UInt64
  present : UInt64
deriving DecidableEq

/-- The little-endian word in the first 8 bytes of a memory. -/
def word (mem : ℕ → UInt8) : UInt64 :=
  UInt64.ofNat ((List.range 8).foldr (fun i n => (mem i).toNat + 256 * n) 0)

/-- The entry in a word. -/
def decode (data : UInt64) : PagemapEntry where
  pfn := data &&& (((1 : UInt64) <<< 54) - 1)
  softDirty := (data >>> 54) &&& 1
  filePage := (data >>> 61) &&& 1
  swapped := (data >>> 62) &&& 1
  present := (data >>> 63) &&& 1

/-! ### The loop -/

/-- What a call of `pread` returns, but for its offset. -/
inductive Ret where
  | err
  | got (n : ℕ) (h : n ≤ 8)

/-- The bytes of a result. -/
def Ret.count : Ret → ℕ
  | err => 0
  | got n _ => n

/-- `vaddr`, the page size and the results of `pread`. -/
structure Call where
  vaddr : UInt64
  pageSize : UInt64
  pos : 0 < pageSize
  rets : ℕ → Ret

/-- `(vaddr / sysconf(_SC_PAGE_SIZE)) * sizeof(data) + nread` -/
def Call.offset (c : Call) (nread : ℕ) : UInt64 := c.vaddr / c.pageSize * 8 + UInt64.ofNat nread

/-- The `pread` with the number `k`: how many bytes come. An error and the end of the file are the
same to the loop. -/
def Call.pread (c : Call) (k nread : ℕ) : ℕ :=
  if (c.offset nread).toNat < 2 ^ 63 then (c.rets k).count else 0

theorem Call.pread_le (c : Call) (k nread : ℕ) : c.pread k nread ≤ 8 := by
  rw [pread]
  split
  · cases hr : c.rets k with
    | err => exact Nat.zero_le 8
    | got n h => exact h
  · exact Nat.zero_le 8

/-- The memory after `n` bytes of the file at `offset` have been read to `&data`. -/
def store (content : ℕ → UInt8) (offset n : ℕ) (mem : ℕ → UInt8) : ℕ → UInt8 :=
  fun i => if i < n then content (offset + i) else mem i

/-- The end of the loop: whether all went well, the memory at `&data`, and the number of calls. -/
structure Read where
  ok : Bool
  mem : ℕ → UInt8
  calls : ℕ

/-- The loop of `pagemap_get_entry`. -/
def Call.loop (c : Call) (content : ℕ → UInt8) (k nread : ℕ) (mem : ℕ → UInt8) : Read :=
  if nread < 8 then
    if 0 < c.pread k nread then
      c.loop content (k + 1) (nread + c.pread k nread)
        (store content (c.offset nread).toNat (c.pread k nread) mem)
    else { ok := false, mem := mem, calls := k + 1 }
  else { ok := true, mem := mem, calls := k }
termination_by 8 - nread

/-- `pagemap_get_entry`: the result and the entry. -/
def Call.pagemapGetEntry (c : Call) (content mem : ℕ → UInt8) : ℕ × Option PagemapEntry :=
  let r := c.loop content 0 0 mem
  if r.ok then (0, some (decode (word r.mem))) else (1, none)

/-- For every content of the pagemap, the loop ends within 8 calls and does not touch what is behind
`data`, and a result of 0 comes with the entry of the address. -/
structure Survives (c : Call) (mem : ℕ → UInt8) : Prop where
  calls : ∀ content, (c.loop content 0 0 mem).calls ≤ 8
  behind : ∀ content i, 8 ≤ i → (c.loop content 0 0 mem).mem i = mem i
  entry : ∀ content, (c.pagemapGetEntry content mem).1 = 0 →
    (c.pagemapGetEntry content mem).2 =
      some (decode (word fun i => content (8 * (c.vaddr.toNat / c.pageSize.toNat) + i)))

/-! ### How the loop ends -/

/-- The bytes that have come with the first `k` calls. -/
def Call.total (c : Call) (k : ℕ) : ℕ := ((List.range k).map fun j => (c.rets j).count).sum

/-- Before 8 bytes have come, the call `k` brings none. -/
def Call.StopsAt (c : Call) (k : ℕ) : Prop := c.total k < 8 ∧ c.pread k (c.total k) = 0

/-- The call `k` brings the last of at least 8 bytes. -/
def Call.FillsAt (c : Call) (k : ℕ) : Prop :=
  c.total k < 8 ∧ 8 ≤ c.total (k + 1) ∧ 0 < c.pread k (c.total k)

variable {c : Call} {content mem : ℕ → UInt8} {k nread : ℕ}

theorem Call.total_succ (c : Call) (k : ℕ) : c.total (k + 1) = c.total k + (c.rets k).count := by
  simp [total, List.range_succ]

theorem Call.total_mono (c : Call) {j k : ℕ} (h : j ≤ k) : c.total j ≤ c.total k := by
  induction k, h using Nat.le_induction with
  | base => exact Nat.le_refl _
  | succ k _ ih =>
      rw [c.total_succ]
      omega

theorem Call.pread_eq_count (h : 0 < c.pread k nread) : c.pread k nread = (c.rets k).count := by
  rw [pread] at h ⊢
  split at h
  · next hlt => rw [if_pos hlt]
  · omega

theorem Call.FillsAt.le_of_lt {j : ℕ} (hj : c.FillsAt j) (hk : c.total k < 8) : k ≤ j := by
  refine Nat.le_of_not_lt fun hlt => ?_
  have hmono := c.total_mono (j := j + 1) hlt
  have hfull := hj.2.1
  omega

theorem Call.FillsAt.unique {j : ℕ} (hj : c.FillsAt j) (hk : c.FillsAt k) : j = k :=
  Nat.le_antisymm (hk.le_of_lt hj.1) (hj.le_of_lt hk.1)

/-- The loop ends after at most as many calls as bytes are missing. -/
theorem Call.loop_calls (c : Call) (content : ℕ → UInt8) (k nread : ℕ) (mem : ℕ → UInt8) :
    (c.loop content k nread mem).calls ≤ k + (8 - nread) := by
  fun_induction c.loop content k nread mem with
  | case1 k nread mem hlt hpos ih => omega
  | case2 k nread mem hlt hpos =>
      show k + 1 ≤ k + (8 - nread)
      omega
  | case3 k nread mem hge => exact Nat.le_add_right _ _

/-- No read goes over the end of `data`. -/
theorem Call.loop_behind (c : Call) (content : ℕ → UInt8) (k nread : ℕ) (mem : ℕ → UInt8) {i : ℕ}
    (hi : 8 ≤ i) : (c.loop content k nread mem).mem i = mem i := by
  fun_induction c.loop content k nread mem with
  | case1 k nread mem hlt hpos ih =>
      have hle := c.pread_le k nread
      rw [ih, store, if_neg (by omega)]
  | case2 k nread mem hlt hpos => rfl
  | case3 k nread mem hge => rfl

/-- What the last read has left: its bytes are the first of `data`. -/
structure Call.Filled (c : Call) (content : ℕ → UInt8) (j : ℕ) (r : Read) : Prop where
  ok : r.ok = true
  fills : c.FillsAt j
  mem : ∀ i < c.pread j (c.total j), r.mem i = content ((c.offset (c.total j)).toNat + i)

/-- The loop stops, or the last read fills `data` up. -/
theorem Call.loop_end (c : Call) (content : ℕ → UInt8) (k nread : ℕ) (mem : ℕ → UInt8)
    (hn : nread = c.total k) (hlt : nread < 8) :
    (c.loop content k nread mem).ok = false ∧ (∃ j ≥ k, c.StopsAt j) ∨
      ∃ j ≥ k, c.Filled content j (c.loop content k nread mem) ∧
        ∀ i, k ≤ i → i ≤ j → ¬ c.StopsAt i := by
  fun_induction c.loop content k nread mem with
  | case1 k nread mem _ hpos ih =>
      have hcount := c.pread_eq_count hpos
      have htotal : nread + c.pread k nread = c.total (k + 1) := by
        rw [c.total_succ, hcount, hn]
      have hk : ¬ c.StopsAt k := fun h => by
        have hzero := h.2
        rw [← hn] at hzero
        omega
      by_cases hmore : nread + c.pread k nread < 8
      · rcases ih htotal hmore with ⟨hok, j, hj, hstop⟩ | ⟨j, hj, hfilled, hno⟩
        · exact .inl ⟨hok, j, by omega, hstop⟩
        · refine .inr ⟨j, by omega, hfilled, fun i hi hij => ?_⟩
          rcases Nat.eq_or_lt_of_le hi with rfl | hi
          · exact hk
          · exact hno i hi hij
      · rw [Call.loop, if_neg hmore]
        refine .inr ⟨k, Nat.le_refl k, ⟨rfl, ⟨by omega, by omega, by rwa [← hn]⟩, ?_⟩, ?_⟩
        · intro i hi
          rw [← hn] at hi ⊢
          exact if_pos hi
        · intro i hi hik
          rwa [Nat.le_antisymm hik hi]
  | case2 k nread mem _ hpos =>
      exact .inl ⟨rfl, k, Nat.le_refl k, by omega, by rw [← hn]; omega⟩
  | case3 k nread mem hge => exact absurd hlt hge

/-! ### The entry that is returned -/

theorem word_congr {a b : ℕ → UInt8} (h : ∀ i < 8, a i = b i) : word a = word b := by
  rw [word, word, List.foldr_ext _ _ 0 fun i hi n => by rw [h i (List.mem_range.mp hi)]]

theorem pfn_mod_two (mem : ℕ → UInt8) :
    (decode (word mem)).pfn.toNat % 2 = (mem 0).toNat % 2 := by
  have hword : (word mem).toNat % 2 = (mem 0).toNat % 2 := by
    show (UInt64.ofNat ((mem 0).toNat + 256 *
      ([1, 2, 3, 4, 5, 6, 7].foldr (fun i n => (mem i).toNat + 256 * n) 0))).toNat % 2 = _
    rw [UInt64.toNat_ofNat']
    omega
  have hmask : (((1 : UInt64) <<< 54) - 1).toNat = 2 ^ 54 - 1 := by decide
  show (word mem &&& (((1 : UInt64) <<< 54) - 1)).toNat % 2 = _
  rw [UInt64.toNat_and, hmask, Nat.and_two_pow_sub_one_eq_mod]
  omega

/-- Some `pread` fails, or finds the end of the file, before 8 bytes have come. -/
def Call.Stops (c : Call) : Prop := ∃ k, c.StopsAt k

/-- The first `pread` brings all 8 bytes, and `8 * (vaddr / page size)` is an offset. -/
def Call.Whole (c : Call) : Prop :=
  (c.rets 0).count = 8 ∧ 8 * (c.vaddr.toNat / c.pageSize.toNat) < 2 ^ 64

theorem Call.toNat_offset (c : Call) (nread : ℕ) : (c.offset nread).toNat =
    (8 * (c.vaddr.toNat / c.pageSize.toNat) + nread) % 2 ^ 64 := by
  have height : (8 : UInt64).toNat = 8 := rfl
  rw [offset, UInt64.toNat_add, UInt64.toNat_mul, UInt64.toNat_div, UInt64.toNat_ofNat', height]
  omega

theorem Call.run_end (c : Call) (content mem : ℕ → UInt8) :
    (c.loop content 0 0 mem).ok = false ∧ c.Stops ∨
      ∃ j, c.Filled content j (c.loop content 0 0 mem) ∧ ¬ c.Stops := by
  rcases c.loop_end content 0 0 mem rfl (by decide) with ⟨hok, j, -, hstop⟩ | ⟨j, -, hfilled, hno⟩
  · exact .inl ⟨hok, j, hstop⟩
  · refine .inr ⟨j, hfilled, ?_⟩
    rintro ⟨k, hk⟩
    exact hno k (Nat.zero_le k) (hfilled.fills.le_of_lt hk.1) hk

theorem Call.total_one (c : Call) : c.total 1 = (c.rets 0).count := by
  rw [c.total_succ]
  exact Nat.zero_add _

theorem Call.FillsAt.count_zero {j : ℕ} (hj : c.FillsAt j) (hstop : ¬ c.Stops)
    (hzero : c.total j = 0) : (c.rets 0).count = 8 := by
  have hle : (c.rets 0).count ≤ 8 := by
    cases c.rets 0 with
    | err => exact Nat.zero_le 8
    | got n h => exact h
  have hpos : 0 < c.pread 0 (c.total 0) :=
    Nat.pos_of_ne_zero fun h => hstop ⟨0, Nat.zero_lt_succ 7, h⟩
  have hcount := Call.pread_eq_count hpos
  rcases Nat.lt_or_ge (c.total 1) 8 with h | h
  · have hone := c.total_mono (hj.le_of_lt h)
    rw [c.total_one] at hone
    omega
  · rw [c.total_one] at h
    omega

/-- A file with a 1 where the last read starts, and 0 elsewhere. -/
def Call.mark (c : Call) (j : ℕ) : ℕ → UInt8 :=
  fun a => if a = (c.offset (c.total j)).toNat then 1 else 0

/-- The entry of such a file shows where the last read started. -/
theorem Survives.whole (h : Survives c mem) (hstop : ¬ c.Stops) : c.Whole := by
  obtain ⟨-, hs⟩ | ⟨j, hfilled, -⟩ := c.run_end (fun _ => 0) mem
  · exact absurd hs hstop
  have hj := hfilled.fills
  obtain ⟨-, hs⟩ | ⟨j', hmark, -⟩ := c.run_end (c.mark j) mem
  · exact absurd hs hstop
  obtain rfl := hmark.fills.unique hj
  have hentry := h.entry (c.mark j')
  simp only [Call.pagemapGetEntry, hmark.ok, if_true, forall_const, Option.some.injEq] at hentry
  have hbit := congrArg (fun e => e.pfn.toNat % 2) hentry
  simp only [pfn_mod_two, Nat.add_zero] at hbit
  rw [hmark.mem 0 hj.2.2, Nat.add_zero, Call.mark, if_pos rfl] at hbit
  have hat : 8 * (c.vaddr.toNat / c.pageSize.toNat) = (c.offset (c.total j')).toNat := by
    by_contra hne
    rw [Call.mark, if_neg hne] at hbit
    exact absurd hbit (by decide)
  have hlt : (c.offset (c.total j')).toNat < 2 ^ 63 := by
    have hpos := hj.2.2
    rw [Call.pread] at hpos
    split at hpos
    · assumption
    · omega
  have htotal := hj.1
  rw [c.toNat_offset] at hat hlt
  exact ⟨hj.count_zero hstop (by omega), by omega⟩

/-- **A `pagemap_get_entry` that survives short reads.**  It does so if and only if a read stops it,
or the first brings everything. -/
theorem survives_iff : Survives c mem ↔ c.Stops ∨ c.Whole := by
  constructor
  · exact fun h => or_iff_not_imp_left.mpr h.whole
  · intro h
    refine ⟨fun content => ?_, fun content i hi => c.loop_behind content 0 0 mem hi,
      fun content hzero => ?_⟩
    · have hcalls := c.loop_calls content 0 0 mem
      omega
    · obtain ⟨hok, -⟩ | ⟨j, hfilled, hstop⟩ := c.run_end content mem
      · simp [Call.pagemapGetEntry, hok] at hzero
      obtain ⟨hcount, hlt⟩ := h.resolve_left hstop
      have hj : j = 0 := by
        by_contra hne
        have hone := c.total_mono (Nat.one_le_iff_ne_zero.mpr hne)
        have hj := hfilled.fills.1
        rw [c.total_one] at hone
        omega
      subst hj
      have hpread : c.pread 0 (c.total 0) = 8 :=
        (Call.pread_eq_count hfilled.fills.2.2).trans hcount
      have hoffset : (c.offset (c.total 0)).toNat = 8 * (c.vaddr.toNat / c.pageSize.toNat) := by
        rw [c.toNat_offset]
        show (8 * (c.vaddr.toNat / c.pageSize.toNat) + 0) % 2 ^ 64 = _
        omega
      simp only [Call.pagemapGetEntry, hfilled.ok, if_true, Option.some.injEq]
      refine congrArg decode (word_congr fun i hi => ?_)
      rw [hfilled.mem i (by omega), hoffset]

/-- Every `pread` brings 4 bytes. -/
def halves : Call := ⟨0x7000, 4096, by decide, fun _ => .got 4 (by decide)⟩

/-- The second half of the entry comes to lie on the first. -/
theorem not_survives_halves : ¬ Survives halves fun _ => 0 := by
  intro h
  have hstop : ¬ halves.Stops := by
    rintro ⟨k, hlt, hzero⟩
    have hk : k < 2 := by
      refine Nat.lt_of_not_le fun hle => ?_
      have hmono := halves.total_mono hle
      have htwo : halves.total 2 = 8 := rfl
      omega
    rcases Nat.le_one_iff_eq_zero_or_eq_one.mp (Nat.le_of_lt_succ hk) with rfl | rfl
    · exact absurd hzero (by decide)
    · exact absurd hzero (by decide)
  exact absurd (h.whole hstop).1 (by decide)

end KernelMemo.Pagemap
