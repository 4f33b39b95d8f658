import KernelMemo.CharDev.MmapExample
import Mathlib.Data.List.GetD

/-! # The read of `mmap_example`

`t_read` of `old/mma.c` takes its length from `strlen(info->data)`.

* `strlen` reads on in the memory behind the page when the page has no NUL; processes with a
  mapping of the page can write what they like to it.
* A `t_read` is one atomic step: no store comes between its `strlen` and its `copy_to_user`.
* The `len` of the caller is overwritten, and what `copy_to_user` returns is not looked at.
* A read stays in the page and in the buffer exactly when the page has a text that fits
  (`readInside_iff`), as after an `open` it has for a buffer of its size (`textFits_newPage`). -/

namespace KernelMemo.MmapExample

/-! ### The read -/

/-- The memory from `info->data` on. -/
def memory (data : Page) (behind : List UInt8) : ℕ → UInt8 :=
  fun i => if i < pageSize then data i else behind.getD (i - pageSize) 0

/-- `strlen` in a memory of `n` bytes, or `none` when it reads on to its end. -/
def strlen (mem : ℕ → UInt8) (n : ℕ) : Option ℕ := (List.range n).find? (mem · == 0)

/-- What `t_read` does with memory: how many bytes from `info->data` on it reads, the bytes that
the user gets, and the result, if there is one. -/
structure ReadResult where
  scanned : ℕ
  copied : List UInt8
  ret : Option ℕ

/-- `t_read` of a page with the memory `behind` it; `copy_to_user` stops at a fault. -/
def tRead (data : Page) (behind : List UInt8) (fault : Option ℕ) : ReadResult :=
  match strlen (memory data behind) (pageSize + behind.length) with
  | none => { scanned := pageSize + behind.length + 1, copied := [], ret := none }
  | some len =>
      { scanned := len + 1
        copied := (List.range (min len (fault.getD len))).map (memory data behind)
        ret := some len }

/-- A read stays in the page and in the buffer, and returns the number of bytes copied. -/
structure ReadInside (len : ℕ) (r : ReadResult) : Prop where
  page : r.scanned ≤ pageSize
  buffer : r.copied.length ≤ len
  ret : r.ret = some r.copied.length

/-- The page has a text of at most `len` bytes, and all of it can be copied. -/
def TextFits (data : Page) (len : ℕ) (fault : Option ℕ) : Prop :=
  ∃ z < pageSize, (data z = 0 ∧ ∀ i < z, data i ≠ 0) ∧ z ≤ len ∧ ∀ k, fault = some k → z ≤ k

/-! ### One read -/

variable {data : Page} {behind : List UInt8} {len z : ℕ} {fault : Option ℕ}

theorem strlen_eq_some {mem : ℕ → UInt8} {n : ℕ} :
    strlen mem n = some z ↔ z < n ∧ mem z = 0 ∧ ∀ i < z, mem i ≠ 0 := by
  simp only [strlen, List.find?_range_eq_some, List.mem_range, beq_iff_eq, Bool.not_eq_true',
    beq_eq_false_iff_ne]
  exact ⟨fun ⟨hzero, hlt, hne⟩ => ⟨hlt, hzero, hne⟩, fun ⟨hlt, hzero, hne⟩ => ⟨hzero, hlt, hne⟩⟩

theorem strlen_memory (hz : z < pageSize) :
    strlen (memory data behind) (pageSize + behind.length) = some z ↔
      data z = 0 ∧ ∀ i < z, data i ≠ 0 := by
  have hmem (i : ℕ) (hi : i ≤ z) : memory data behind i = data i :=
    if_pos (Nat.lt_of_le_of_lt hi hz)
  rw [strlen_eq_some, hmem z (Nat.le_refl z)]
  constructor
  · rintro ⟨-, hzero, hne⟩
    exact ⟨hzero, fun i hi => hmem i (Nat.le_of_lt hi) ▸ hne i hi⟩
  · rintro ⟨hzero, hne⟩
    exact ⟨by omega, hzero, fun i hi => (hmem i (Nat.le_of_lt hi)).symm ▸ hne i hi⟩

/-- A read stays in the page and in the buffer when the text fits, and only then. -/
theorem tRead_inside_iff : ReadInside len (tRead data behind fault) ↔ TextFits data len fault := by
  constructor
  · intro h
    rw [tRead] at h
    split at h
    · cases h.ret
    · next z hz =>
      obtain ⟨hpage, hbuffer, hret⟩ := h
      simp only [List.length_map, List.length_range, Option.some.injEq] at hbuffer hret
      refine ⟨z, hpage, (strlen_memory hpage).mp hz, by omega, ?_⟩
      rintro k rfl
      rw [Option.getD_some] at hret
      omega
  · rintro ⟨z, hpage, htext, hle, hfault⟩
    have hmin : min z (fault.getD z) = z := by
      cases fault with
      | none => exact Nat.min_self z
      | some k => exact Nat.min_eq_left (hfault k rfl)
    rw [tRead, (strlen_memory hpage).mpr htext]
    simp only [hmin]
    refine ⟨hpage, ?_, ?_⟩
    · rw [List.length_map, List.length_range]
      exact hle
    · rw [List.length_map, List.length_range]

/-! ### The runs -/

variable {es : List Event} {s : State}

/-- Every read of a run finds the page of its file, stays in it and in the buffer, and returns the
number of bytes copied. -/
def ReadsInside (es : List Event) : Prop :=
  ∀ m c f len mem behind fault, (driver .mmapExample).At blank es m c →
    es[m]? = some (.read f len mem behind fault) →
      ∃ page, c.pageOf f = some page ∧ c.pages.Live page ∧
        ReadInside len (tRead (c.pages.mem page) behind fault)

/-- **The reads of `mmap_example`.**  In a run every read stays in the page and in the buffer if
and only if each finds a text that fits. -/
theorem readsInside_iff (hrun : (driver .mmapExample).run blank es = some s) :
    ReadsInside es ↔ ∀ m c f len mem behind fault page, (driver .mmapExample).At blank es m c →
      es[m]? = some (.read f len mem behind fault) → c.pageOf f = some page →
        TextFits (c.pages.mem page) len fault := by
  constructor
  · intro h m c f len mem behind fault page hc he hpage
    obtain ⟨page', hpage', -, hread⟩ := h m c f len mem behind fault hc he
    obtain rfl : page' = page := Option.some.inj (hpage'.symm.trans hpage)
    exact tRead_inside_iff.mp hread
  · intro h m c f len mem behind fault hc he
    have hacc := accounted_of_run hc
    obtain ⟨d, hd⟩ := Lts.exists_at hrun (m + 1)
    have hs := hc.step hd he
    simp only [driver, State.step, Option.bind_eq_some_iff] at hs
    obtain ⟨file, hf, -⟩ := hs
    obtain ⟨info, page, -, -, -, hpage⟩ := hacc.exists_info hf
    exact ⟨page, hpage, hacc.pages.live_of_owns hpage,
      tRead_inside_iff.mpr (h m c f len mem behind fault page hc he hpage)⟩

theorem zero_notMem_hello (name : DName) : 0 ∉ hello ++ name.bytes := by
  rw [List.mem_append, not_or]
  exact ⟨by decide, name.noNul⟩

theorem textFits_newPage (name : DName) {len : ℕ} :
    TextFits (newPage name) len none ↔ (hello ++ name.bytes).length ≤ len := by
  have htext (i : ℕ) (hi : i < (hello ++ name.bytes).length) : newPage name i ≠ 0 := by
    have hmem := List.getElem_mem hi
    rw [newPage, List.getD_eq_getElem _ _ hi]
    intro hzero
    rw [hzero] at hmem
    exact zero_notMem_hello name hmem
  constructor
  · rintro ⟨z, -, ⟨hzero, -⟩, hle, -⟩
    by_contra hlt
    exact htext z (by omega) hzero
  · intro hle
    have hshort : (hello ++ name.bytes).length < pageSize := by
      have hhello : hello.length = 32 := rfl
      have hname := name.short
      rw [List.length_append, pageSize]
      omega
    refine ⟨_, hshort, ⟨?_, htext⟩, hle, fun k hk => by cases hk⟩
    rw [newPage, List.getD_eq_default _ _ (Nat.le_refl _)]

theorem readsInside_greeting : ReadsInside
    [.open 3 nameA ⟨0, 1, 0⟩, .mmap 3, .read 3 4096 ⟨2, 3, 1⟩ [] none, .fault 3 0 0,
      .store 3 0 33 0x62, .read 3 34 ⟨4, 5, 2⟩ [] (some 34)] := by
  refine (readsInside_iff rfl).mpr fun m c f len mem behind fault page hc he hpage => ?_
  rcases m with _ | _ | _ | _ | _ | _ | m <;> cases he <;> cases hc <;> cases hpage
  · exact ⟨33, by decide, by decide, by decide, fun k hk => by cases hk⟩
  · exact ⟨34, by decide, by decide, by decide, fun k hk => by cases hk; decide⟩

/-- The greeting goes to a buffer of one byte. -/
theorem not_readsInside : ¬ ReadsInside [.open 3 nameA ⟨0, 1, 0⟩, .read 3 1 ⟨2, 3, 1⟩ [] none] := by
  intro h
  obtain ⟨page, hpage, -, hread⟩ := h 1 _ 3 1 _ [] none rfl rfl
  cases hpage
  obtain ⟨z, -, ⟨hzero, -⟩, hle, -⟩ := tRead_inside_iff.mp hread
  rcases Nat.le_one_iff_eq_zero_or_eq_one.mp hle with rfl | rfl
  · exact absurd hzero (by decide)
  · exact absurd hzero (by decide)

end KernelMemo.MmapExample
