import KernelMemo.Lib.TransitionSystem
import Mathlib.Data.List.GetD

/-! # The `get_user_pages` driver

`sample_write` of `get_user_pages/sample.c`.

* **Memory.**  The user's memory by address; a page is its number, and what is written to it goes
  to the addresses of the page.
* **Counters.**  `pinned` counts the pages that are pinned, `mapped` the mappings of `kmap`.
* `sample_write` takes every result but 0 for a success, writes to the start of the page, and does
  not undo `kmap`.  It keeps to the buffer and to the counters only when nothing is pinned
  (`keepsAlways_iff`). -/

namespace KernelMemo.GetUserPages

/-- `PAGE_SIZE` -/
def pageSize : ℕ := 4096

/-- The user's memory, the counters, and how often an unset page pointer has been used. -/
structure State where
  mem : ℕ → UInt8
  pinned : ℕ
  mapped : ℕ
  unset : ℕ

/-- The result of `get_user_pages`. -/
inductive Res where
  | pinned
  | zero
  | err (e : Int) (neg : e < 0)

/-- `res` -/
def Res.val : Res → Int
  | pinned => 1
  | zero => 0
  | err e _ => e

/-- A call of `sample_write`. -/
structure Write where
  buf : ℕ
  count : ℕ
  res : Res

/-- `get_user_pages(buf, 1, 1, &page, NULL)`: the state after it, and `page` when it is set. -/
def getUserPages (s : State) (w : Write) : State × Option ℕ :=
  match w.res with
  | .pinned => ({ s with pinned := s.pinned + 1 }, some (w.buf / pageSize))
  | _ => (s, none)

/-- `"Mohan"`, with its NUL -/
def mohan : List UInt8 := [0x4d, 0x6f, 0x68, 0x61, 0x6e, 0]

/-- `kmap` -/
def kmap (s : State) : State := { s with mapped := s.mapped + 1 }

/-- `strcpy` to the start of a page -/
def strcpy (s : State) (page : ℕ) (bytes : List UInt8) : State :=
  { s with
    mem := fun a => if pageSize * page ≤ a then bytes.getD (a - pageSize * page) (s.mem a)
      else s.mem a }

/-- `put_page` -/
def putPage (s : State) : State := { s with pinned := s.pinned - 1 }

/-- `sample_write` -/
def sampleWrite (s : State) (w : Write) : State :=
  let got := getUserPages s w
  if w.res.val ≠ 0 then
    match got.2 with
    | some page => putPage (strcpy (kmap got.1) page mohan)
    | none => { got.1 with unset := got.1.unset + 1 }
  else got.1

/-- The driver, in the hands of any users. -/
def sample : Lts State Write where
  init s := s.pinned = 0 ∧ s.mapped = 0 ∧ s.unset = 0
  step s w := some (sampleWrite s w)

/-- A call changes no more than the bytes of its buffer, and uses no unset page pointer. -/
structure Keeps (s : State) (w : Write) (s' : State) : Prop where
  mem : ∀ a, ¬ (w.buf ≤ a ∧ a < w.buf + w.count) → s'.mem a = s.mem a
  pinned : s'.pinned = s.pinned
  mapped : s'.mapped = s.mapped
  unset : s'.unset = s.unset

/-! ### One call -/

variable {s s' : State} {w : Write}

theorem sampleWrite_zero (h : w.res = .zero) : sampleWrite s w = s := by
  simp [sampleWrite, getUserPages, h, Res.val]

theorem sampleWrite_pinned (h : w.res = .pinned) : sampleWrite s w =
    putPage (strcpy (kmap { s with pinned := s.pinned + 1 }) (w.buf / pageSize) mohan) := by
  simp [sampleWrite, getUserPages, h, Res.val]

theorem mapped_sampleWrite (h : w.res = .pinned) :
    (sampleWrite s w).mapped = s.mapped + 1 ∧ (sampleWrite s w).pinned = s.pinned := by
  rw [sampleWrite_pinned h]
  exact ⟨rfl, rfl⟩

theorem unset_sampleWrite {e : Int} {neg : e < 0} (h : w.res = .err e neg) :
    (sampleWrite s w).unset = s.unset + 1 := by
  have hne : e ≠ 0 := Int.ne_of_lt neg
  simp [sampleWrite, getUserPages, h, Res.val, hne]

/-- A call keeps to its buffer and to the counters exactly when nothing is pinned. -/
theorem keeps_sampleWrite_iff : Keeps s w (sampleWrite s w) ↔ w.res = .zero := by
  constructor
  · intro h
    cases hr : w.res with
    | zero => rfl
    | pinned =>
        have hmapped := h.mapped
        rw [(mapped_sampleWrite hr).1] at hmapped
        omega
    | err e neg =>
        have hunset := h.unset
        rw [unset_sampleWrite hr] at hunset
        omega
  · intro h
    rw [sampleWrite_zero h]
    exact ⟨fun _ _ => rfl, rfl, rfl, rfl⟩

theorem mem_sampleWrite (h : w.res = .pinned) (a : ℕ) : (sampleWrite s w).mem a =
    if pageSize * (w.buf / pageSize) ≤ a then
      mohan.getD (a - pageSize * (w.buf / pageSize)) (s.mem a)
    else s.mem a := by
  rw [sampleWrite_pinned h]
  rfl

/-- They are in the buffer when it starts with the page and has room for the text. -/
theorem mem_outside_iff (h : w.res = .pinned) :
    (∀ s a, ¬ (w.buf ≤ a ∧ a < w.buf + w.count) → (sampleWrite s w).mem a = s.mem a) ↔
      w.buf % pageSize = 0 ∧ mohan.length ≤ w.count := by
  have hlen : mohan.length = 6 := rfl
  have hmohan : ∀ i < 6, mohan.getD i 1 ≠ 1 := by decide
  have hdiv := Nat.div_add_mod w.buf pageSize
  constructor
  · intro hout
    have hin (i : ℕ) (hi : i < 6) : w.buf ≤ pageSize * (w.buf / pageSize) + i ∧
        pageSize * (w.buf / pageSize) + i < w.buf + w.count := by
      by_contra hnot
      have hmem := hout ⟨fun _ => 1, 0, 0, 0⟩ _ hnot
      rw [mem_sampleWrite h, if_pos (Nat.le_add_right _ _), Nat.add_sub_cancel_left] at hmem
      exact hmohan i hi hmem
    have hfirst := hin 0 (by omega)
    have hlast := hin 5 (by omega)
    omega
  · rintro ⟨hzero, hle⟩ s a hnot
    rw [mem_sampleWrite h]
    split
    · next hpage =>
      exact List.getD_eq_default _ _ (by omega)
    · rfl

/-! ### The runs -/

variable {es : List Write}

/-- Every call of a run keeps to its buffer and to the counters. -/
def KeepsAlways (s : State) (es : List Write) : Prop :=
  ∀ m c d w, sample.At s es m c → es[m]? = some w → sample.At s es (m + 1) d → Keeps c w d

/-- **The `get_user_pages` driver.**  In a run every call keeps to its buffer and to the counters
if and only if no call has a page pinned or an error. -/
theorem keepsAlways_iff (hrun : sample.run s es = some s') :
    KeepsAlways s es ↔ ∀ w ∈ es, w.res = .zero := by
  constructor
  · intro h w hw
    obtain ⟨m, hm⟩ := List.getElem?_of_mem hw
    obtain ⟨c, hc⟩ := Lts.exists_at hrun m
    exact keeps_sampleWrite_iff.mp (h m c _ w hc hm (hc.next hm rfl))
  · intro h m c d w hc hm hd
    cases hc.step hd hm
    exact keeps_sampleWrite_iff.mpr (h w (List.mem_of_getElem? hm))

theorem keepsAlways_unpinned :
    KeepsAlways ⟨fun _ => 7, 0, 0, 0⟩ [⟨4096, 4096, .zero⟩, ⟨100, 3, .zero⟩] :=
  (keepsAlways_iff rfl).mpr (by simp)

/-- A buffer in the middle of a page, and an error. -/
theorem not_keepsAlways :
    ¬ KeepsAlways ⟨fun _ => 7, 0, 0, 0⟩ [⟨4100, 2, .pinned⟩] ∧
      ¬ KeepsAlways ⟨fun _ => 7, 0, 0, 0⟩ [⟨4096, 4096, .err (-14) (by decide)⟩] := by
  constructor
  · intro h
    exact absurd ((h 0 _ _ _ rfl rfl rfl).mem 4096 (by decide)) (by decide)
  · intro h
    exact absurd (h 0 _ _ _ rfl rfl rfl).unset (by decide)

end KernelMemo.GetUserPages
