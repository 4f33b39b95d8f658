import KernelMemo.Tuse.Copy
import Mathlib.Algebra.GroupWithZero.Nat
import Mathlib.Algebra.Order.Group.Nat

/-! # Values scattered over pieces

Calls of `tuse_copy_one` one after the other, for values and pieces of any sizes.

* A call of `tuse_copy_fill` that fails is the last of its copy; the copy returns its error.
* A copy of `n` bytes calls `tuse_copy_fill` at most `n` times.
* Calls without a failure lay the values down one after the other, in the bytes of the pieces
  in order; calls with a failure, a part from the front (`tuseCopyEach_scattered`). -/

namespace KernelMemo.Tuse

/-! ### A sequence of values -/

/-- `val` and `size` -/
structure Value where
  bytes : List UInt8
  size : UInt32
  sized : bytes.length = size.toNat

/-- The bytes of the values. -/
def concat (vals : List Value) : List UInt8 := vals.flatMap Value.bytes

/-- Calls of `tuse_copy_one` up to the first that fails. -/
def tuseCopyEach (fill : Fills) (cs : CopyState) : List Value → Int × CopyState
  | [] => (0, cs)
  | v :: vals =>
      let call := tuseCopyOne fill ⟨cs, v.bytes, v.size⟩
      if call.1 ≠ 0 then call else tuseCopyEach fill call.2 vals

/-! ### The calls of `tuse_copy_fill` -/

/-- The calls from `i` to `j` install pieces. -/
def Fills.AllOk (fill : Fills) (i j : ℕ) : Prop := ∀ k, i ≤ k → k < j → ∃ p, fill k = .ok p

namespace Fills

variable {fill : Fills} {i j k : ℕ}

theorem AllOk.empty (fill : Fills) (i : ℕ) : fill.AllOk i i :=
  fun _ hle hlt => absurd hlt (Nat.not_lt.mpr hle)

theorem AllOk.append (h : fill.AllOk i j) (h' : fill.AllOk j k) : fill.AllOk i k := by
  intro n hle hlt
  rcases Nat.lt_or_ge n j with hn | hn
  · exact h n hle hn
  · exact h' n hn hlt

theorem AllOk.cons {p : Piece} (hp : fill i = .ok p) (h : fill.AllOk (i + 1) j) :
    fill.AllOk i j := by
  intro n hle hlt
  rcases Nat.eq_or_lt_of_le hle with rfl | hn
  · exact ⟨p, hp⟩
  · exact h n hn hlt

theorem AllOk.not_error {f : FillErr} (h : fill.AllOk i j) (hle : i ≤ k) (hlt : k < j) :
    fill k ≠ .error f := by
  obtain ⟨p, hp⟩ := h k hle hlt
  rw [hp]
  intro hf
  cases hf

/-- The room in the pieces that the calls from `i` to `j` install. -/
def room (fill : Fills) (i j : ℕ) : ℕ :=
  ((List.range' i (j - i)).map fun k => (fill.spots k).length).sum

theorem length_spotsFrom (fill : Fills) (i j : ℕ) :
    (fill.spotsFrom i j).length = fill.room i j := by
  rw [spotsFrom, room, List.length_flatMap]

end Fills

/-- How the calls from `i` to `j` go for a copy that returns `e`: all install pieces, or the last
fails with `e`. -/
inductive Filled (fill : Fills) (i j : ℕ) (e : Int) : Prop
  | ok (hij : i ≤ j) (hok : fill.AllOk i j) (he : e = 0)
  | fail (f : FillErr) (hij : i < j) (hok : fill.AllOk i (j - 1)) (hf : fill (j - 1) = .error f)
      (he : e = f.err)

theorem Filled.append {fill : Fills} {i j k : ℕ} {e : Int} (hij : i ≤ j) (h : fill.AllOk i j)
    (h' : Filled fill j k e) : Filled fill i k e := by
  cases h' with
  | ok hjk hok he => exact .ok (hij.trans hjk) (h.append hok) he
  | fail f hjk hok hf he => exact .fail f (hij.trans_lt hjk) (h.append hok) hf he

/-- A copy that succeeds had no failure. -/
theorem Filled.allOk {fill : Fills} {i j : ℕ} (h : Filled fill i j 0) : fill.AllOk i j := by
  cases h with
  | ok hij hok he => exact hok
  | fail f hij hok hf he => exact absurd he.symm (Int.ne_of_lt f.neg)

theorem tuseCopyOne_filled (fill : Fills) (c : Copying) :
    Filled fill c.cs.fills (tuseCopyOne fill c).2.fills (tuseCopyOne fill c).1 := by
  fun_induction tuseCopyOne fill c with
  | case1 c hsize => exact .ok (Nat.le_refl _) (.empty fill _) rfl
  | case2 c hsize hlen f hf =>
      exact .fail f (Nat.lt_succ_self _) (.empty fill _) hf rfl
  | case3 c hsize hlen p hp hlt ih =>
      exact .append (Nat.le_succ _) (.cons hp (.empty fill _)) ih
  | case4 c hsize hlen hlt ih => exact ih

/-- A piece takes at least one byte. -/
theorem tuseCopyOne_calls (fill : Fills) (c : Copying) :
    (tuseCopyOne fill c).2.fills ≤ c.cs.fills + c.size.toNat := by
  fun_induction tuseCopyOne fill c with
  | case1 c hsize => exact Nat.le_add_right _ _
  | case2 c hsize hlen f hf =>
      have hpos : 0 < c.size.toNat := Nat.pos_of_ne_zero fun h => hsize (UInt32.toNat_inj.mp h)
      show c.cs.fills + 1 ≤ c.cs.fills + c.size.toNat
      omega
  | case3 c hsize hlen p hp hlt ih =>
      have hle : ∀ {a m n : ℕ}, m < n → a + 1 + m ≤ a + n := by omega
      exact Nat.le_trans ih (hle hlt)
  | case4 c hsize hlen hlt ih =>
      exact Nat.le_trans ih (Nat.add_le_add_left (Nat.le_of_lt hlt) _)

/-! ### The sequence of copies -/

theorem Laid.extend {fill : Fills} {cs cs' : CopyState} {v w : List UInt8} {m n : UInt32}
    {t : List Store} (h : Laid fill ⟨cs, v, m⟩ cs' t) : Laid fill ⟨cs, v ++ w, n⟩ cs' t :=
  { h with bytes := h.bytes.trans (List.prefix_append _ _) }

/-- The copies `call` have scattered `bytes` over the room of `cs` and the pieces installed since,
or a part of them from the front up to a call of `tuse_copy_fill` that failed. -/
structure Scattered (fill : Fills) (cs : CopyState) (bytes : List UInt8) (call : Int × CopyState)
    (t : List Store) : Prop where
  laid : Laid fill ⟨cs, bytes, 0⟩ call.2 t
  calls : call.2.fills ≤ cs.fills + bytes.length
  filled : Filled fill cs.fills call.2.fills call.1
  all : call.1 = 0 → t.map Prod.snd = bytes
  full : call.1 ≠ 0 → call.2.win.spots = []

theorem tuseCopyOne_scattered (fill : Fills) (cs : CopyState) (v : Value) :
    ∃ t, Scattered fill cs v.bytes (tuseCopyOne fill ⟨cs, v.bytes, v.size⟩) t := by
  obtain ⟨t, ht, hend⟩ := tuseCopyOne_spec (c := ⟨cs, v.bytes, v.size⟩) v.sized rfl
  have hcalls := tuseCopyOne_calls fill ⟨cs, v.bytes, v.size⟩
  refine ⟨t, { ht with }, ?_, tuseCopyOne_filled fill ⟨cs, v.bytes, v.size⟩, ?_, ?_⟩
  · rw [v.sized]
    exact hcalls
  · intro he
    rcases hend with ⟨-, hall⟩ | ⟨-, -, -, f, -, hf⟩
    · exact hall
    · exact absurd (hf.trans he) (Int.ne_of_lt f.neg)
  · intro he
    rcases hend with ⟨he', -⟩ | ⟨-, hroom, -⟩
    · exact absurd he' he
    · exact hroom

theorem Scattered.extend {fill : Fills} {cs : CopyState} {v w : List UInt8} {call : Int × CopyState}
    {t : List Store} (h : Scattered fill cs v call t) (he : call.1 ≠ 0) :
    Scattered fill cs (v ++ w) call t where
  laid := h.laid.extend
  calls := h.calls.trans (by rw [List.length_append]; omega)
  filled := h.filled
  all := fun he' => absurd he' he
  full := h.full

theorem Scattered.append {fill : Fills} {cs : CopyState} {v w : List UInt8}
    {call call' : Int × CopyState} {t u : List Store} (h : Scattered fill cs v call t)
    (he : call.1 = 0) (h' : Scattered fill call.2 w call' u) :
    Scattered fill cs (v ++ w) call' (t ++ u) where
  laid := by
    refine .trans h.laid.extend ?_ h'.laid
    rw [h.all he]
  calls := by
    have hcalls := h.calls
    have hcalls' := h'.calls
    rw [List.length_append]
    omega
  filled := h'.filled.append h.laid.fills (he ▸ h.filled).allOk
  all := fun he' => by rw [List.map_append, h.all he, h'.all he']
  full := h'.full

theorem tuseCopyEach_scattered (fill : Fills) (cs : CopyState) (vals : List Value) :
    ∃ t, Scattered fill cs (concat vals) (tuseCopyEach fill cs vals) t := by
  induction vals generalizing cs with
  | nil =>
      exact ⟨[], { Laid.nil fill ⟨cs, [], 0⟩ with }, Nat.le_refl _,
        .ok (Nat.le_refl _) (.empty fill _) rfl, fun _ => rfl, fun he => absurd rfl he⟩
  | cons v vals ih =>
      obtain ⟨t, ht⟩ := tuseCopyOne_scattered fill cs v
      have hconcat : concat (v :: vals) = v.bytes ++ concat vals := rfl
      rw [hconcat, tuseCopyEach]
      by_cases he : (tuseCopyOne fill ⟨cs, v.bytes, v.size⟩).1 = 0
      · obtain ⟨u, hu⟩ := ih (tuseCopyOne fill ⟨cs, v.bytes, v.size⟩).2
        rw [if_neg (not_not.mpr he)]
        exact ⟨t ++ u, ht.append he hu⟩
      · rw [if_pos he]
        exact ⟨t, ht.extend he⟩

/-! ### The copies -/

/-- The room that is left is the room there was and that of the pieces, less what was copied. -/
theorem Scattered.room {fill : Fills} {cs : CopyState} {bytes : List UInt8}
    {call : Int × CopyState} {t : List Store} (h : Scattered fill cs bytes call t) :
    t.length + call.2.win.len.toNat = cs.win.len.toNat + fill.room cs.fills call.2.fills := by
  have hlen := congrArg List.length h.laid.spots
  simp only [List.length_append, List.length_map, Window.length_spots,
    Fills.length_spotsFrom] at hlen
  exact hlen.symm

/-- A call that fails adds no bytes to the pieces. -/
theorem Fills.spotsFrom_error {fill : Fills} {i k : ℕ} {f : FillErr} (hle : i ≤ k)
    (hf : fill k = .error f) : fill.spotsFrom i (k + 1) = fill.spotsFrom i k := by
  have hspots : fill.spots k = [] := by rw [spots, hf]
  rw [fill.spotsFrom_append hle (Nat.le_succ k), fill.spotsFrom_succ (Nat.lt_succ_self k),
    fill.spotsFrom_self, hspots, List.append_nil, List.append_nil]

/-- What the copies of `vals` have done when they end with `call`: `t` is in the bytes of the
pieces in order. Without a failure, `t` is all of the values; with one, it is a part from the
front, as long as the pieces. -/
structure Scatters (fill : Fills) (cs : CopyState) (vals : List Value) (call : Int × CopyState)
    (t : List Store) : Prop where
  stores : call.2.stores = cs.stores ++ t
  calls : cs.fills ≤ call.2.fills ∧ call.2.fills ≤ cs.fills + (concat vals).length
  spots : cs.win.spots ++ fill.spotsFrom cs.fills call.2.fills =
    t.map Prod.fst ++ call.2.win.spots
  ok : fill.AllOk cs.fills call.2.fills →
    call.1 = 0 ∧ t.map Prod.snd = concat vals ∧
      (concat vals).length + call.2.win.len.toNat =
        cs.win.len.toNat + fill.room cs.fills call.2.fills
  fail : ∀ k f, cs.fills ≤ k → k < call.2.fills → fill k = .error f →
    call.1 = f.err ∧ k + 1 = call.2.fills ∧ t.map Prod.snd <+: concat vals ∧
      t.map Prod.fst = cs.win.spots ++ fill.spotsFrom cs.fills k

theorem Scattered.err_eq_zero {fill : Fills} {cs : CopyState} {bytes : List UInt8}
    {call : Int × CopyState} {t : List Store} (h : Scattered fill cs bytes call t)
    (hok : fill.AllOk cs.fills call.2.fills) : call.1 = 0 := by
  cases h.filled with
  | ok hij hok' he => exact he
  | fail f hij hok' hf he => exact absurd hf (hok.not_error (by omega) (by omega))

/-- The failure is the last call, and the pieces before it are full. -/
theorem Scattered.failed {fill : Fills} {cs : CopyState} {bytes : List UInt8}
    {call : Int × CopyState} {t : List Store} (h : Scattered fill cs bytes call t) {k : ℕ}
    {f : FillErr} (hle : cs.fills ≤ k) (hlt : k < call.2.fills) (hf : fill k = .error f) :
    call.1 = f.err ∧ k + 1 = call.2.fills ∧
      t.map Prod.fst = cs.win.spots ++ fill.spotsFrom cs.fills k := by
  cases h.filled with
  | ok hij hok he => exact absurd hf (hok.not_error hle hlt)
  | fail f' hij hok hf' he =>
      have hk : k + 1 = call.2.fills := by
        by_contra hne
        exact hok.not_error hle (by omega) hf
      have hff : f' = f := by
        rw [← hk, Nat.add_sub_cancel, hf] at hf'
        exact (Except.error.inj hf').symm
      have hne : call.1 ≠ 0 := by
        rw [he]
        exact Int.ne_of_lt f'.neg
      have hspots := h.laid.spots
      rw [h.full hne, List.append_nil, ← hk] at hspots
      exact ⟨he.trans (congrArg _ hff), hk, by rw [← hspots, fill.spotsFrom_error hle hf]⟩

/-- A sequence of copies ends, after at most as many calls of `tuse_copy_fill` as it has bytes,
and scatters its values over the pieces. -/
theorem tuseCopyEach_scatters (fill : Fills) (cs : CopyState) (vals : List Value) :
    ∃ t, Scatters fill cs vals (tuseCopyEach fill cs vals) t := by
  obtain ⟨t, ht⟩ := tuseCopyEach_scattered fill cs vals
  refine ⟨t, ht.laid.stores, ⟨ht.laid.fills, ht.calls⟩, ht.laid.spots, ?_, ?_⟩
  · intro hok
    have he := ht.err_eq_zero hok
    have hroom := ht.room
    rw [← List.length_map (f := Prod.snd), ht.all he] at hroom
    exact ⟨he, ht.all he, hroom⟩
  · intro k f hle hlt hf
    obtain ⟨he, hk, hspots⟩ := ht.failed hle hlt hf
    exact ⟨he, hk, ht.laid.bytes, hspots⟩

end KernelMemo.Tuse
