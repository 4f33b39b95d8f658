import Mathlib.Data.Nat.Notation
import Mathlib.Data.List.Basic
import Mathlib.Data.List.TakeDrop
import Mathlib.Data.Nat.Init

/-! # The `tgw` character device

`old/simple.c`: one static buffer `k_buf`, filled by `tgw_write` and read back by `tgw_read`.

* **State.**  `mem` is the memory from `k_buf` on; the first 1024 bytes of it are the buffer.
  `data_size` and `all_read` are 32-bit `int`s, shared by all files and set to zero by nothing
  but the end of a read.
* **Arithmetic.**  `size_t` is 64 bits wide.  A comparison of a `size_t` with an `int`
  converts the `int`; an assignment to an `int` truncates; `all_read += len` wraps.
* **Copies.**  The copies from and to user memory succeed. -/

namespace KernelMemo.Tgw

/-- `k_buf`, `data_size`, `all_read`. -/
structure State where
  mem : ℕ → UInt8
  dataSize : BitVec 32
  allRead : BitVec 32

/-- `sizeof(k_buf)` -/
def kBufSize : ℕ := 1024

/-- What `tgw_read` does: the state after it, the bytes copied to the user and the result. -/
structure ReadResult where
  state : State
  bytes : List UInt8
  ret : BitVec 64

/-- `tgw_read` -/
def tgwRead (s : State) (count : BitVec 64) : ReadResult :=
  if s.allRead = s.dataSize then
    { state := { s with allRead := 0 }, bytes := [], ret := 0 }
  else
    let len := if s.dataSize.signExtend 64 < count then s.dataSize else count.setWidth 32
    { state := { s with allRead := s.allRead + len }
      bytes := (List.range (len.signExtend 64).toNat).map s.mem
      ret := len.signExtend 64 }

/-- `tgw_write` of the bytes `buf`. -/
def tgwWrite (s : State) (buf : List UInt8) : State × BitVec 64 :=
  let count := BitVec.ofNat 64 buf.length
  ({ s with mem := fun i => buf.getD i (s.mem i), dataSize := count.setWidth 32 }, count)

/-- The state after the first `k` of the reads with the counts `c`. -/
def afterReads (s : State) (c : ℕ → BitVec 64) : ℕ → State
  | 0 => s
  | k + 1 => (tgwRead (afterReads s c k) (c k)).state

/-- The read with the number `k`. -/
def readAt (s : State) (c : ℕ → BitVec 64) (k : ℕ) : ReadResult := tgwRead (afterReads s c k) (c k)

/-- Reading with the counts `c` delivers `w`: some read returns 0, none before it does, each
of these returns at most its count, and together they return the bytes of `w`. -/
def Delivers (s : State) (w : List UInt8) (c : ℕ → BitVec 64) : Prop :=
  ∃ k, (readAt s c k).ret = 0 ∧ (∀ i < k, (readAt s c i).ret ≠ 0 ∧ (readAt s c i).ret ≤ c i) ∧
    (List.range k).flatMap (fun i => (readAt s c i).bytes) = w

/-- The first `c 0` bytes of `w`, then again its first `c 1` bytes, up to `c (k - 1)`. -/
def prefixes (w : List UInt8) (c : ℕ → BitVec 64) (k : ℕ) : List UInt8 :=
  (List.range k).flatMap fun i => w.take (c i).toNat

theorem prefixes_succ (w : List UInt8) (c : ℕ → BitVec 64) (k : ℕ) :
    prefixes w c (k + 1) = prefixes w c k ++ w.take (c k).toNat := by
  simp [prefixes, List.range_succ]

/-! ### One read -/

/-- The buffer holds `w` and `data_size` is its length. -/
structure Holds (s : State) (w : List UInt8) : Prop where
  dataSize : s.dataSize = BitVec.ofNat 32 w.length
  mem : ∀ i (h : i < w.length), s.mem i = w[i]

theorem holds_write (s : State) (w : List UInt8) : Holds (tgwWrite s w).1 w where
  dataSize := by
    apply BitVec.eq_of_toNat_eq
    simp [tgwWrite]
  mem i h := by simp [tgwWrite, h]

theorem signExtend_ofNat {m : ℕ} (hm : m ≤ kBufSize) :
    (BitVec.ofNat 32 m).signExtend 64 = BitVec.ofNat 64 m := by
  simp only [kBufSize] at hm
  have hmod : m % 2 ^ 32 = m := Nat.mod_eq_of_lt (by omega)
  rw [BitVec.signExtend_eq_setWidth_of_msb_false]
  · apply BitVec.eq_of_toNat_eq
    rw [BitVec.toNat_setWidth, BitVec.toNat_ofNat, BitVec.toNat_ofNat, hmod]
  · rw [BitVec.msb_eq_false_iff_two_mul_lt, BitVec.toNat_ofNat, hmod]
    omega

theorem Holds.bytes {s : State} {w : List UInt8} (h : Holds s w) {m : ℕ} (hm : m ≤ w.length) :
    (List.range m).map s.mem = w.take m := by
  refine List.ext_getElem (by simp [hm]) fun i h₁ h₂ => ?_
  simp only [List.length_map, List.length_range] at h₁
  simp [h.mem i (by omega)]

theorem Holds.read {s : State} {w : List UInt8} (h : Holds s w) (hw : w.length ≤ kBufSize)
    (hne : s.allRead ≠ BitVec.ofNat 32 w.length) (count : BitVec 64) :
    tgwRead s count =
      { state := { s with allRead := s.allRead + BitVec.ofNat 32 (w.take count.toNat).length }
        bytes := w.take count.toNat
        ret := BitVec.ofNat 64 (w.take count.toNat).length } := by
  have hsize : w.length < 2 ^ 64 := by simp only [kBufSize] at hw; omega
  simp only [tgwRead, h.dataSize, if_neg hne, signExtend_ofNat hw]
  by_cases hlt : BitVec.ofNat 64 w.length < count
  · have hle : w.length ≤ count.toNat := by
      rw [BitVec.lt_def, BitVec.toNat_ofNat, Nat.mod_eq_of_lt hsize] at hlt
      omega
    have htoNat : (BitVec.ofNat 64 w.length).toNat = w.length := by
      rw [BitVec.toNat_ofNat, Nat.mod_eq_of_lt hsize]
    simp only [if_pos hlt, signExtend_ofNat hw, htoNat, h.bytes (Nat.le_refl _),
      List.take_of_length_le hle, List.take_length]
  · have hle : count.toNat ≤ w.length := by
      rw [BitVec.lt_def, BitVec.toNat_ofNat, Nat.mod_eq_of_lt hsize] at hlt
      omega
    have hcount : count.setWidth 32 = BitVec.ofNat 32 count.toNat := by
      apply BitVec.eq_of_toNat_eq
      simp
    have htoNat : (BitVec.ofNat 64 count.toNat).toNat = count.toNat := by
      simp
    simp only [if_neg hlt, hcount, signExtend_ofNat (Nat.le_trans hle hw), htoNat, h.bytes hle,
      List.length_take, Nat.min_eq_left hle]

theorem Holds.read_end {s : State} {w : List UInt8} (h : Holds s w)
    (heq : s.allRead = BitVec.ofNat 32 w.length) (count : BitVec 64) :
    tgwRead s count = { state := { s with allRead := 0 }, bytes := [], ret := 0 } := by
  rw [tgwRead, if_pos (heq.trans h.dataSize.symm)]

/-! ### A sequence of reads -/

/-- Up to the first read that returns 0, `all_read` counts the bytes and the reads return
prefixes of the buffer. -/
theorem Holds.afterReads {s : State} {w : List UInt8} (h : Holds s w) (hw : w.length ≤ kBufSize)
    {c : ℕ → BitVec 64} {k : ℕ} (hne : ∀ i < k,
      s.allRead + BitVec.ofNat 32 (prefixes w c i).length ≠ BitVec.ofNat 32 w.length) :
    Tgw.afterReads s c k =
      { s with allRead := s.allRead + BitVec.ofNat 32 (prefixes w c k).length } := by
  induction k with
  | zero => simp [Tgw.afterReads, prefixes]
  | succ k ih =>
      have hk := ih fun i hi => hne i (by omega)
      have hread := Holds.read (s := Tgw.afterReads s c k) ⟨by rw [hk]; exact h.dataSize,
        by rw [hk]; exact h.mem⟩ hw (by rw [hk]; exact hne k (by omega)) (c k)
      rw [Tgw.afterReads, hread, hk, prefixes_succ, List.length_append, BitVec.ofNat_add,
        BitVec.add_assoc]

theorem Holds.readAt {s : State} {w : List UInt8} (h : Holds s w) (hw : w.length ≤ kBufSize)
    {c : ℕ → BitVec 64} {k : ℕ} (hne : ∀ i ≤ k,
      s.allRead + BitVec.ofNat 32 (prefixes w c i).length ≠ BitVec.ofNat 32 w.length) :
    (Tgw.readAt s c k).bytes = w.take (c k).toNat ∧
      (Tgw.readAt s c k).ret = BitVec.ofNat 64 (w.take (c k).toNat).length := by
  have hk := h.afterReads hw (c := c) (k := k) fun i hi => hne i (by omega)
  have hread := Holds.read (s := Tgw.afterReads s c k) ⟨by rw [hk]; exact h.dataSize,
    by rw [hk]; exact h.mem⟩ hw (by rw [hk]; exact hne k (by omega)) (c k)
  rw [Tgw.readAt, hread]
  exact ⟨rfl, rfl⟩

theorem take_pos {w : List UInt8} (hne : w ≠ []) {count : BitVec 64} (hc : 0 < count) :
    0 < (w.take count.toNat).length := by
  have hlen := List.length_pos_iff.mpr hne
  have hcount : 0 < count.toNat := BitVec.lt_def.mp hc
  rw [List.length_take]
  omega

/-- A read of a buffer with something in it returns 0 when all of it has been read. -/
theorem Holds.read_eq_zero_iff {s : State} {w : List UInt8} (h : Holds s w)
    (hw : w.length ≤ kBufSize) (hne : w ≠ []) {count : BitVec 64} (hc : 0 < count) :
    (tgwRead s count).ret = 0 ↔ s.allRead = BitVec.ofNat 32 w.length := by
  by_cases heq : s.allRead = BitVec.ofNat 32 w.length
  · simp [h.read_end heq, heq]
  · have hpos := take_pos hne hc
    have hle : (w.take count.toNat).length ≤ w.length := List.length_take_le' _ _
    have hsize : w.length ≤ 1024 := hw
    rw [h.read hw heq]
    refine iff_of_false (fun hzero => ?_) heq
    have hnat : (w.take count.toNat).length % 2 ^ 64 = 0 := congrArg BitVec.toNat hzero
    omega

/-- The reads return 0 when `all_read` has become the size, and not before. -/
theorem Holds.ret_eq_zero_iff {s : State} {w : List UInt8} (h : Holds s w)
    (hw : w.length ≤ kBufSize) (hne : w ≠ []) {c : ℕ → BitVec 64} (hc : ∀ i, 0 < c i) {k : ℕ}
    (hbefore : ∀ i < k,
      s.allRead + BitVec.ofNat 32 (prefixes w c i).length ≠ BitVec.ofNat 32 w.length) :
    (Tgw.readAt s c k).ret = 0 ↔
      s.allRead + BitVec.ofNat 32 (prefixes w c k).length = BitVec.ofNat 32 w.length := by
  have hk := h.afterReads hw hbefore
  have hread := Holds.read_eq_zero_iff (s := Tgw.afterReads s c k)
    ⟨by rw [hk]; exact h.dataSize, by rw [hk]; exact h.mem⟩ hw hne (hc k)
  rw [Tgw.readAt, hread, hk]

theorem Holds.before {s : State} {w : List UInt8} (h : Holds s w)
    (hw : w.length ≤ kBufSize) (hne : w ≠ []) {c : ℕ → BitVec 64} (hc : ∀ i, 0 < c i) {k : ℕ}
    (hret : ∀ i < k, (Tgw.readAt s c i).ret ≠ 0) (i : ℕ) (hi : i < k) :
    s.allRead + BitVec.ofNat 32 (prefixes w c i).length ≠ BitVec.ofNat 32 w.length := by
  induction i using Nat.strongRecOn with
  | ind i ih =>
      have hzero := h.ret_eq_zero_iff hw hne hc fun j hj => ih j hj (by omega)
      exact fun heq => hret i hi (hzero.mpr heq)

theorem Holds.bytes_eq {s : State} {w : List UInt8} (h : Holds s w) (hw : w.length ≤ kBufSize)
    {c : ℕ → BitVec 64} {k : ℕ} (hne : ∀ i < k,
      s.allRead + BitVec.ofNat 32 (prefixes w c i).length ≠ BitVec.ofNat 32 w.length) :
    (List.range k).flatMap (fun i => (Tgw.readAt s c i).bytes) = prefixes w c k := by
  refine List.flatMap_congr fun i hi => ?_
  have hik := List.mem_range.mp hi
  exact (h.readAt hw fun j hj => hne j (by omega)).1

theorem prefixes_lt {w : List UInt8} (hne : w ≠ []) {c : ℕ → BitVec 64} (hc : ∀ i, 0 < c i)
    {i k : ℕ} (hik : i < k) : (prefixes w c i).length < (prefixes w c k).length := by
  induction k, hik using Nat.le_induction with
  | base =>
      have := take_pos hne (hc i)
      rw [prefixes_succ, List.length_append]
      omega
  | succ k _ ih =>
      rw [prefixes_succ, List.length_append]
      omega

/-- **What `tgw` delivers.**  After a write of `w` the reads deliver `w` if and only if `w` is
empty, or `all_read` was 0 before the write and `w` is made of its own prefixes of the lengths
that the first reads ask for. -/
theorem tgw_delivers_iff (s : State) {w : List UInt8} (hw : w.length ≤ kBufSize)
    {c : ℕ → BitVec 64} (hc : ∀ i, 0 < c i) :
    Delivers (tgwWrite s w).1 w c ↔
      w = [] ∨ s.allRead = 0 ∧ ∃ k, prefixes w c k = w := by
  have h := holds_write s w
  have hallRead : (tgwWrite s w).1.allRead = s.allRead := rfl
  by_cases hne : w = []
  · -- the first read returns 0, with or without the reset of `all_read`
    refine iff_of_true ⟨0, ?_, fun i hi => absurd hi (Nat.not_lt_zero i), by simp [hne]⟩ (.inl hne)
    rw [readAt, afterReads]
    by_cases heq : (tgwWrite s w).1.allRead = BitVec.ofNat 32 w.length
    · rw [h.read_end heq]
    · rw [h.read hw heq, hne, List.take_nil]
      rfl
  constructor
  · rintro ⟨k, hzero, hret, hbytes⟩
    have hbefore := h.before hw hne hc fun i hi => (hret i hi).1
    rw [h.bytes_eq hw hbefore] at hbytes
    have hend := (h.ret_eq_zero_iff hw hne hc hbefore).mp hzero
    rw [hbytes, hallRead] at hend
    exact .inr ⟨by simpa using hend, k, hbytes⟩
  · rintro (hnil | ⟨hall, k, hk⟩)
    · exact absurd hnil hne
    have hsize : w.length ≤ 1024 := hw
    have hbefore (i : ℕ) (hi : i < k) : (tgwWrite s w).1.allRead +
        BitVec.ofNat 32 (prefixes w c i).length ≠ BitVec.ofNat 32 w.length := by
      have hlt := prefixes_lt hne hc hi
      rw [hk] at hlt
      rw [hallRead, hall]
      intro heq
      have hnat := congrArg BitVec.toNat heq
      simp only [BitVec.ofNat_eq_ofNat, BitVec.zero_add, BitVec.toNat_ofNat] at hnat
      omega
    refine ⟨k, (h.ret_eq_zero_iff hw hne hc hbefore).mpr ?_, fun i hi => ⟨?_, ?_⟩, ?_⟩
    · rw [hk, hallRead, hall]
      simp
    · exact fun hzero => hbefore i hi
        ((h.ret_eq_zero_iff hw hne hc fun j hj => hbefore j (by omega)).mp hzero)
    · rw [(h.readAt hw fun j hj => hbefore j (by omega)).2, BitVec.le_def, BitVec.toNat_ofNat,
        List.length_take]
      exact Nat.le_trans (Nat.mod_le _ _) (Nat.min_le_left _ _)
    · rw [h.bytes_eq hw hbefore, hk]

/-- The state that the module is loaded with. -/
def loaded : State := ⟨fun _ => 0, 0, 0⟩

theorem tgw_delivers_whole :
    Delivers (tgwWrite loaded [97, 98]).1 [97, 98] fun _ => 2 :=
  (tgw_delivers_iff loaded (by decide) fun _ => by decide).mpr (.inr ⟨rfl, 1, by decide⟩)

/-- Two reads of one byte each return the first byte twice. -/
theorem tgw_repeats : ¬ Delivers (tgwWrite loaded [97, 98]).1 [97, 98] fun _ => 1 := by
  rintro ⟨k, hzero, hret, hbytes⟩
  have hk : k ≤ 2 := by
    by_contra hk
    exact (hret 2 (by omega)).1 (by decide)
  rcases k with _ | _ | _ | k
  · revert hzero; decide
  · revert hzero; decide
  · revert hbytes; decide
  · omega

end KernelMemo.Tgw
