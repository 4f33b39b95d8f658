import Mathlib.Algebra.Group.Nat.Defs
import Mathlib.Data.Nat.Notation
import Mathlib.Tactic.SplitIfs

/-! # The copy loop

`tuse_copy_do` and `tuse_copy_one` of `old/tuse/dev.c`, for `write = 1`, which is all that
`tuse_dev_read` passes.

* **Pieces.**  `tuse_copy_fill` is not part of the sources: its calls are numbered, and each
  fails with a negative error or installs a piece of a page that is not empty.
* **Stores.**  The state keeps the bytes that were written to the pages, in order.
* **The loop** ends because a piece is never empty.  What it has written and the room that is
  left are together the room there was and the pieces installed since (`tuseCopyOne_spec`). -/

namespace KernelMemo.Tuse

/-! ### Pieces of pages -/

/-- A byte of a page. -/
abbrev Spot := ℕ × ℕ

/-- `pg`, `offset` and `len` of a copy state: a window into a page. -/
structure Window where
  pg : ℕ
  offset : UInt32
  len : UInt32
  inside : offset.toNat + len.toNat < 2 ^ 32

/-- A failure of `tuse_copy_fill`. -/
structure FillErr where
  err : Int
  neg : err < 0

/-- What `tuse_copy_fill` installs. -/
structure Piece where
  win : Window
  pos : win.len ≠ 0

/-- `tuse_copy_fill`, by the number of the call. -/
abbrev Fills := ℕ → Except FillErr Piece

namespace Window

/-- The bytes of the window. -/
def spots (w : Window) : List Spot := (List.range' w.offset.toNat w.len.toNat).map (Prod.mk w.pg)

theorem length_spots (w : Window) : w.spots.length = w.len.toNat := by
  simp [spots]

theorem spots_eq_nil {w : Window} (h : w.len = 0) : w.spots = [] := by
  simp [spots, h]

/-- `len -= n; offset += n` -/
def advance (w : Window) (n : UInt32) (h : n ≤ w.len) : Window where
  pg := w.pg
  offset := w.offset + n
  len := w.len - n
  inside := by
    have hn : n.toNat ≤ w.len.toNat := h
    have hw := w.inside
    rw [UInt32.toNat_sub_of_le _ _ h, UInt32.toNat_add]
    omega

/-- Neither the subtraction nor the addition wraps. -/
theorem toNat_advance (w : Window) {n : UInt32} (h : n ≤ w.len) :
    (w.advance n h).len.toNat = w.len.toNat - n.toNat ∧
      (w.advance n h).offset.toNat = w.offset.toNat + n.toNat := by
  have hn : n.toNat ≤ w.len.toNat := h
  have hw := w.inside
  refine ⟨UInt32.toNat_sub_of_le _ _ h, ?_⟩
  show (w.offset + n).toNat = w.offset.toNat + n.toNat
  rw [UInt32.toNat_add]
  omega

theorem spots_advance (w : Window) {n : UInt32} (h : n ≤ w.len) :
    (w.advance n h).spots = w.spots.drop n.toNat := by
  obtain ⟨hlen, hoffset⟩ := w.toNat_advance h
  rw [spots, spots, hlen, hoffset, ← List.map_drop, List.drop_range', Nat.mul_one]
  rfl

end Window

/-! ### The copy -/

/-- A byte that was written. -/
abbrev Store := Spot × UInt8

/-- `memcpy` to `off` in the page `pg`. -/
def memcpy (pg off : ℕ) (bytes : List UInt8) : List Store :=
  ((List.range' off bytes.length).map (Prod.mk pg)).zip bytes

/-- `struct tuse_copy_state`, with the number of calls of `tuse_copy_fill` and what was
written. -/
structure CopyState where
  win : Window
  fills : ℕ
  stores : List Store

/-- `tuse_copy_init` -/
def tuseCopyInit : CopyState := { win := ⟨0, 0, 0, by decide⟩, fills := 0, stores := [] }

/-- A copy on its way: the state, and what is left of `val` and `size`. -/
structure Copying where
  cs : CopyState
  val : List UInt8
  size : UInt32

theorem toNat_min (a b : UInt32) : (min a b).toNat = min a.toNat b.toNat := by
  show (if a ≤ b then a else b).toNat = min a.toNat b.toNat
  split_ifs with h
  · exact (Nat.min_eq_left (UInt32.le_iff_toNat_le.mp h)).symm
  · rw [UInt32.le_iff_toNat_le] at h
    omega

theorem min_le_len (a b : UInt32) : min a b ≤ b := by
  rw [UInt32.le_iff_toNat_le, toNat_min]
  exact Nat.min_le_right _ _

/-- `tuse_copy_do` -/
def tuseCopyDo (c : Copying) : UInt32 × Copying :=
  let ncpy := min c.size c.cs.win.len
  let cs := { c.cs with
    win := c.cs.win.advance ncpy (min_le_len _ _)
    stores := c.cs.stores ++ memcpy c.cs.win.pg c.cs.win.offset.toNat (c.val.take ncpy.toNat) }
  (ncpy, { cs := cs, val := c.val.drop ncpy.toNat, size := c.size - ncpy })

theorem toNat_size_tuseCopyDo (c : Copying) :
    (tuseCopyDo c).2.size.toNat = c.size.toNat - min c.size.toNat c.cs.win.len.toNat := by
  rw [← toNat_min]
  refine UInt32.toNat_sub_of_le _ _ ?_
  rw [UInt32.le_iff_toNat_le, toNat_min]
  exact Nat.min_le_left _ _

/-- With room in the window, something is copied. -/
theorem size_tuseCopyDo_lt {c : Copying} (hsize : c.size ≠ 0) (hlen : c.cs.win.len ≠ 0) :
    (tuseCopyDo c).2.size.toNat < c.size.toNat := by
  have hsize' : c.size.toNat ≠ 0 := fun h => hsize (UInt32.toNat_inj.mp h)
  have hlen' : c.cs.win.len.toNat ≠ 0 := fun h => hlen (UInt32.toNat_inj.mp h)
  rw [toNat_size_tuseCopyDo]
  omega

/-- `tuse_copy_one` -/
def tuseCopyOne (fill : Fills) (c : Copying) : Int × CopyState :=
  if hsize : c.size = 0 then (0, c.cs)
  else if hlen : c.cs.win.len = 0 then
    match fill c.cs.fills with
    | .error e => (e.err, { c.cs with fills := c.cs.fills + 1 })
    | .ok p =>
        have := size_tuseCopyDo_lt
          (c := { c with cs := { c.cs with win := p.win, fills := c.cs.fills + 1 } }) hsize p.pos
        tuseCopyOne fill
          (tuseCopyDo { c with cs := { c.cs with win := p.win, fills := c.cs.fills + 1 } }).2
  else
    have := size_tuseCopyDo_lt hsize hlen
    tuseCopyOne fill (tuseCopyDo c).2
termination_by c.size.toNat

/-! ### What is written -/

theorem memcpy_bytes (pg off : ℕ) (bytes : List UInt8) :
    (memcpy pg off bytes).map Prod.snd = bytes := by
  rw [memcpy, List.map_snd_zip]
  simp

/-- The bytes go to the front of the window. -/
theorem memcpy_spots (w : Window) {bytes : List UInt8} (h : bytes.length ≤ w.len.toNat) :
    (memcpy w.pg w.offset.toNat bytes).map Prod.fst = w.spots.take bytes.length := by
  have hlen : (List.map (Prod.mk w.pg) (List.range' w.offset.toNat bytes.length)).length ≤
      bytes.length := by simp
  rw [memcpy, List.map_fst_zip hlen, Window.spots, ← List.map_take,
    List.take_range'_of_length_ge h]

/-- The bytes of the piece that the call `k` installs. -/
def Fills.spots (fill : Fills) (k : ℕ) : List Spot :=
  match fill k with
  | .error _ => []
  | .ok p => p.win.spots

/-- The bytes of the pieces that the calls from `i` to `j` install. -/
def Fills.spotsFrom (fill : Fills) (i j : ℕ) : List Spot :=
  (List.range' i (j - i)).flatMap fill.spots

theorem Fills.spotsFrom_self (fill : Fills) (i : ℕ) : fill.spotsFrom i i = [] := by
  simp [spotsFrom]

theorem Fills.spotsFrom_append (fill : Fills) {i j k : ℕ} (hij : i ≤ j) (hjk : j ≤ k) :
    fill.spotsFrom i k = fill.spotsFrom i j ++ fill.spotsFrom j k := by
  obtain ⟨a, rfl⟩ := Nat.exists_eq_add_of_le hij
  obtain ⟨b, rfl⟩ := Nat.exists_eq_add_of_le hjk
  have hsub : i + a + b - i = a + b := by omega
  rw [spotsFrom, spotsFrom, spotsFrom, ← List.flatMap_append, hsub, Nat.add_sub_cancel_left,
    Nat.add_sub_cancel_left, List.range'_append_1]

theorem Fills.spotsFrom_succ (fill : Fills) {i j : ℕ} (h : i < j) :
    fill.spotsFrom i j = fill.spots i ++ fill.spotsFrom (i + 1) j := by
  rw [fill.spotsFrom_append (Nat.le_succ i) h]
  simp [spotsFrom]

/-- The copy `c` has written `t` to come to the state `cs`: its room and the pieces installed
since are what was written and the room that is left. -/
structure Laid (fill : Fills) (c : Copying) (cs : CopyState) (t : List Store) : Prop where
  stores : cs.stores = c.cs.stores ++ t
  fills : c.cs.fills ≤ cs.fills
  spots : c.cs.win.spots ++ fill.spotsFrom c.cs.fills cs.fills = t.map Prod.fst ++ cs.win.spots
  bytes : t.map Prod.snd <+: c.val

namespace Laid

variable {fill : Fills} {c c' : Copying} {cs : CopyState} {t u : List Store}

theorem nil (fill : Fills) (c : Copying) : Laid fill c c.cs [] where
  stores := (List.append_nil _).symm
  fills := Nat.le_refl _
  spots := by rw [fill.spotsFrom_self, List.append_nil, List.map_nil, List.nil_append]
  bytes := List.nil_prefix

theorem trans (h : Laid fill c c'.cs t) (hval : c.val = t.map Prod.snd ++ c'.val)
    (h' : Laid fill c' cs u) : Laid fill c cs (t ++ u) where
  stores := by rw [h'.stores, h.stores, List.append_assoc]
  fills := Nat.le_trans h.fills h'.fills
  spots := by
    rw [fill.spotsFrom_append h.fills h'.fills, ← List.append_assoc, h.spots, List.append_assoc,
      h'.spots, List.map_append, List.append_assoc]
  bytes := by
    rw [hval, List.map_append]
    exact List.prefix_append_right_inj _ |>.mpr h'.bytes

/-- A new piece is installed when the old one is full. -/
theorem install {p : Piece} (hlen : c.cs.win.len = 0) (hp : fill c.cs.fills = .ok p)
    (h : Laid fill { c with cs := { c.cs with win := p.win, fills := c.cs.fills + 1 } } cs t) :
    Laid fill c cs t where
  stores := h.stores
  fills := Nat.le_of_succ_le h.fills
  spots := by
    have hspots : fill.spots c.cs.fills = p.win.spots := by rw [Fills.spots, hp]
    rw [Window.spots_eq_nil hlen, List.nil_append, fill.spotsFrom_succ h.fills, hspots]
    exact h.spots
  bytes := h.bytes

/-- A call that fails installs nothing. -/
theorem fail {e : FillErr} (hlen : c.cs.win.len = 0) (hp : fill c.cs.fills = .error e) :
    Laid fill c { c.cs with fills := c.cs.fills + 1 } [] where
  stores := (List.append_nil _).symm
  fills := Nat.le_succ _
  spots := by
    have hspots : fill.spots c.cs.fills = [] := by rw [Fills.spots, hp]
    rw [fill.spotsFrom_succ (Nat.lt_succ_self _), hspots, fill.spotsFrom_self,
      Window.spots_eq_nil hlen]
    rfl
  bytes := List.nil_prefix

end Laid

/-- `tuse_copy_do` writes as much of the value as there is room for. -/
theorem tuseCopyDo_spec (fill : Fills) (c : Copying) (hval : c.val.length = c.size.toNat) :
    ∃ t, Laid fill c (tuseCopyDo c).2.cs t ∧ c.val = t.map Prod.snd ++ (tuseCopyDo c).2.val ∧
      (tuseCopyDo c).2.val.length = (tuseCopyDo c).2.size.toNat := by
  have hn : (min c.size c.cs.win.len).toNat = min c.size.toNat c.cs.win.len.toNat := toNat_min _ _
  have htake : (c.val.take (min c.size c.cs.win.len).toNat).length =
      (min c.size c.cs.win.len).toNat := by
    rw [List.length_take]
    omega
  refine ⟨memcpy c.cs.win.pg c.cs.win.offset.toNat (c.val.take (min c.size c.cs.win.len).toNat),
    ⟨rfl, Nat.le_refl _, ?_, ?_⟩, ?_, ?_⟩
  · show c.cs.win.spots ++ fill.spotsFrom c.cs.fills c.cs.fills =
      _ ++ (c.cs.win.advance _ (min_le_len _ _)).spots
    rw [fill.spotsFrom_self, List.append_nil, Window.spots_advance, memcpy_spots _ (by omega),
      htake, List.take_append_drop]
  · rw [memcpy_bytes]
    exact List.take_prefix _ _
  · rw [memcpy_bytes]
    exact (List.take_append_drop _ _).symm
  · rw [toNat_size_tuseCopyDo]
    show (c.val.drop _).length = _
    rw [List.length_drop, hn, hval]

theorem length_append_lt {val val' : List UInt8} {t u : List Store}
    (hval : val = t.map Prod.snd ++ val') (h : u.length < val'.length) :
    (t ++ u).length < val.length := by
  rw [hval, List.length_append, List.length_append, List.length_map]
  omega

/-- The end of a copy: all is written, or a call of `tuse_copy_fill` has failed. -/
theorem tuseCopyOne_spec {fill : Fills} {c : Copying} {e : Int} {cs : CopyState}
    (hval : c.val.length = c.size.toNat) (h : tuseCopyOne fill c = (e, cs)) :
    ∃ t, Laid fill c cs t ∧ (e = 0 ∧ t.map Prod.snd = c.val ∨
      t.length < c.val.length ∧ cs.win.spots = [] ∧ c.cs.fills < cs.fills ∧
        ∃ f, fill (cs.fills - 1) = .error f ∧ f.err = e) := by
  fun_induction tuseCopyOne fill c with
  | case1 c hsize =>
      cases h
      have hnil : c.val = [] := List.length_eq_zero_iff.mp (by rw [hval, hsize]; rfl)
      exact ⟨[], .nil fill c, .inl ⟨rfl, hnil.symm⟩⟩
  | case2 c hsize hlen f hf =>
      cases h
      have hpos : 0 < c.val.length := by
        rw [hval]
        exact Nat.pos_of_ne_zero fun h => hsize (UInt32.toNat_inj.mp h)
      exact ⟨[], .fail hlen hf,
        .inr ⟨hpos, Window.spots_eq_nil hlen, Nat.lt_succ_self _, f, hf, rfl⟩⟩
  | case3 c hsize hlen p hp hlt ih =>
      obtain ⟨t, ht, hval', hlength⟩ := tuseCopyDo_spec fill
        { c with cs := { c.cs with win := p.win, fills := c.cs.fills + 1 } } hval
      obtain ⟨u, hu, hend⟩ := ih hlength h
      refine ⟨t ++ u, .install hlen hp (ht.trans hval' hu), ?_⟩
      rcases hend with ⟨he, hall⟩ | ⟨hlt, hroom, hfills, hfail⟩
      · exact .inl ⟨he, by rw [List.map_append, hall]; exact hval'.symm⟩
      · exact .inr ⟨length_append_lt hval' hlt, hroom, Nat.lt_of_succ_lt hfills, hfail⟩
  | case4 c hsize hlen hlt ih =>
      obtain ⟨t, ht, hval', hlength⟩ := tuseCopyDo_spec fill c hval
      obtain ⟨u, hu, hend⟩ := ih hlength h
      refine ⟨t ++ u, ht.trans hval' hu, ?_⟩
      rcases hend with ⟨he, hall⟩ | ⟨hlt, hroom, hfills, hfail⟩
      · exact .inl ⟨he, by rw [List.map_append, hall]; exact hval'.symm⟩
      · exact .inr ⟨length_append_lt hval' hlt, hroom, hfills, hfail⟩

/-- Whether a copy fails depends on the pieces, not on the bytes. -/
theorem tuseCopyOne_err {fill : Fills} {c c' : Copying} (hwin : c'.cs.win = c.cs.win)
    (hfills : c'.cs.fills = c.cs.fills) (hsize : c'.size = c.size) :
    (tuseCopyOne fill c').1 = (tuseCopyOne fill c).1 := by
  fun_induction tuseCopyOne fill c generalizing c' with
  | case1 c hz => rw [tuseCopyOne, dif_pos (hsize.trans hz)]
  | case2 c hz hlen f hf =>
      rw [tuseCopyOne, dif_neg (hsize ▸ hz), dif_pos (hwin ▸ hlen)]
      simp only [hfills, hf]
  | case3 c hz hlen p hp hlt ih =>
      rw [tuseCopyOne, dif_neg (hsize ▸ hz), dif_pos (hwin ▸ hlen)]
      simp only [hfills, hp]
      exact ih (by simp [tuseCopyDo, hsize]) rfl (by simp [tuseCopyDo, hsize])
  | case4 c hz hlen hlt ih =>
      rw [tuseCopyOne, dif_neg (hsize ▸ hz), dif_neg (hwin ▸ hlen)]
      exact ih (by simp [tuseCopyDo, hsize, hwin]) hfills (by simp [tuseCopyDo, hsize, hwin])

end KernelMemo.Tuse
