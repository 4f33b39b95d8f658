import KernelMemo.CharDev.SimpleCharBounds

/-! # The start of `simple_char`

`simple_char_init` and `simple_char_exit` of `old/hello.c`, for all outcomes of the calls that may
fail.

* **Resources.**  The array, the buffers, the range of device numbers and the added cdevs are what
  the start has got so far; `none` stands for a write through `NULL`, or for giving back what is
  not there.
* **Sizes.**  `simple_char_bufsize` is positive, so a buffer is not of size 0; the array is when
  there are no devices.
* `simple_char_init` looks at the result of the registration only, and what it does then is to
  return it; it undoes nothing (`cleanStart_iff`). -/

namespace KernelMemo.SimpleChar

/-! ### What may fail -/

/-- The result of `register_chrdev_region` or `alloc_chrdev_region`. -/
inductive Region where
  /-- 0, with the major number that `alloc_chrdev_region` has chosen -/
  | ok (major : UInt32)
  /-- an error, with what is in `dev` then -/
  | err (result : Int32) (h : result < 0) (dev : UInt32)

/-- The outcomes of the calls: of `kmalloc` for the array and for each buffer, of the registration
and of each `cdev_add`. -/
structure Outcomes where
  array : Bool
  buf : ℕ → Bool
  region : Region
  cdev : ℕ → Bool

/-- What `kmalloc` returns. -/
inductive Ptr where
  | null
  | zeroSize
  | block
deriving DecidableEq

/-- `kmalloc(sizeof(struct simple_char_dev) * simple_char_nr_devs, GFP_KERNEL)` -/
def kmallocDevs (nrDevs : Int32) (array : Bool) : Ptr :=
  if nrDevs = 0 then .zeroSize else if array then .block else .null

/-- `simple_char_major`, `simple_char_devs`, the devices that have a buffer, the registered range,
and the devices whose cdev has been added, with their numbers. -/
structure Started where
  major : UInt32
  devs : Ptr
  bufs : List ℕ
  region : Option UInt32
  cdevs : List (ℕ × UInt32)

/-- `MKDEV` -/
def mkdev (major minor : UInt32) : UInt32 := (major <<< 20) ||| minor

/-- `MAJOR` -/
def majorOf (dev : UInt32) : UInt32 := dev >>> 20

/-- `simple_char_minor` -/
def simpleCharMinor : UInt32 := 0

/-! ### The start -/

/-- An iteration of `simple_char_setup_buf`. -/
def setupBuf (o : Outcomes) (s : Started) (i : ℕ) : Option Started :=
  if s.devs = .block ∧ o.buf i then some { s with bufs := s.bufs ++ [i] } else none

/-- `simple_char_setup_buf` -/
def simpleCharSetupBuf (o : Outcomes) (nrDevs : Int32) (s : Started) : Option Started :=
  (loopIndices nrDevs).foldlM (setupBuf o) s

/-- `simple_char_setup_devnr` -/
def simpleCharSetupDevnr (o : Outcomes) (s : Started) : Int32 × Started :=
  if s.major ≠ 0 then
    let dev := mkdev s.major simpleCharMinor
    match o.region with
    | .ok _ => (0, { s with region := some dev })
    | .err result _ _ => (result, s)
  else
    match o.region with
    | .ok major =>
        let dev := mkdev major simpleCharMinor
        (0, { s with region := some dev, major := majorOf dev })
    | .err result _ dev => (result, { s with major := majorOf dev })

/-- `simple_char_cdev_add` -/
def simpleCharCdevAdd (o : Outcomes) (s : Started) (i : ℕ) : Started :=
  let devno := mkdev s.major (simpleCharMinor + UInt32.ofNat i)
  if o.cdev i then { s with cdevs := s.cdevs ++ [(i, devno)] } else s

/-- `simple_char_setup_cdev` -/
def simpleCharSetupCdev (o : Outcomes) (nrDevs : Int32) (s : Started) : Started :=
  (loopIndices nrDevs).foldl (simpleCharCdevAdd o) s

/-- `simple_char_init` -/
def simpleCharInit (o : Outcomes) (nrDevs : Int32) (major : UInt32) : Option (Int32 × Started) :=
  let s : Started :=
    { major := major, devs := kmallocDevs nrDevs o.array, bufs := [], region := none, cdevs := [] }
  (simpleCharSetupBuf o nrDevs s).map fun s =>
    let devnr := simpleCharSetupDevnr o s
    if devnr.1 ≠ 0 then devnr else (0, simpleCharSetupCdev o nrDevs devnr.2)

/-! ### The exit -/

/-- `kfree(simple_char_devs[i].buf)` -/
def clearBuf (s : Started) (i : ℕ) : Option Started :=
  if i ∈ s.bufs then some { s with bufs := s.bufs.erase i } else none

/-- `simple_char_clear_buf` -/
def simpleCharClearBuf (nrDevs : Int32) (s : Started) : Option Started :=
  (loopIndices nrDevs).foldlM clearBuf s

/-- `cdev_del(&simple_char_devs[i].cdev)` -/
def cdevDel (s : Started) (i : ℕ) : Option Started :=
  if i ∈ s.cdevs.map Prod.fst then some { s with cdevs := s.cdevs.eraseP (·.1 = i) } else none

/-- `simple_char_clear_cdev` -/
def simpleCharClearCdev (nrDevs : Int32) (s : Started) : Option Started :=
  (loopIndices nrDevs).foldlM cdevDel s

/-- `simple_char_clear_devnr` -/
def simpleCharClearDevnr (s : Started) : Option Started :=
  if s.region = some (mkdev s.major simpleCharMinor) then some { s with region := none } else none

/-- `simple_char_exit` -/
def simpleCharExit (nrDevs : Int32) (s : Started) : Option Started :=
  (simpleCharClearBuf nrDevs s).bind fun s =>
    (simpleCharClearCdev nrDevs s).bind fun s =>
      (simpleCharClearDevnr s).map fun s => { s with devs := .null }

/-- Everything has been given back. -/
structure Started.Released (s : Started) : Prop where
  devs : s.devs ≠ .block
  bufs : s.bufs = []
  region : s.region = none
  cdevs : s.cdevs = []

/-- A start writes through no `NULL` pointer. When it fails it has given everything back; when it
succeeds, every device has a buffer and a cdev, and `simple_char_exit` gives everything back, each
once. -/
def CleanStart (o : Outcomes) (nrDevs : Int32) (major : UInt32) : Prop :=
  ∃ result s, simpleCharInit o nrDevs major = some (result, s) ∧ (result ≠ 0 → s.Released) ∧
    (result = 0 → (∀ i ∈ loopIndices nrDevs, i ∈ s.bufs ∧ i ∈ s.cdevs.map Prod.fst) ∧
      ∃ s', simpleCharExit nrDevs s = some s' ∧ s'.Released)

/-- The registration succeeds. -/
def Outcomes.registers (o : Outcomes) : Prop := ∃ major, o.region = .ok major

/-! ### The loops -/

variable {o : Outcomes} {nrDevs : Int32} {s s' : Started} {l : List ℕ}

theorem foldlM_setupBuf : l.foldlM (setupBuf o) s = some s' ↔
    (∀ i ∈ l, s.devs = .block ∧ o.buf i = true) ∧ s' = { s with bufs := s.bufs ++ l } := by
  induction l generalizing s with
  | nil =>
      rw [List.foldlM_nil, List.append_nil]
      exact ⟨fun h => ⟨fun i hi => absurd hi List.not_mem_nil, (Option.some.inj h).symm⟩,
        fun h => congrArg some h.2.symm⟩
  | cons i l ih =>
      rw [List.foldlM_cons, setupBuf]
      by_cases h : s.devs = .block ∧ o.buf i = true
      · rw [if_pos h]
        exact ih.trans (by simp [h])
      · rw [if_neg h]
        exact iff_of_false (by simp) fun hall => h (hall.1 i List.mem_cons_self)

/-- The number of the device `i`. -/
def devno (major : UInt32) (i : ℕ) : UInt32 := mkdev major (simpleCharMinor + UInt32.ofNat i)

theorem foldl_simpleCharCdevAdd : l.foldl (simpleCharCdevAdd o) s =
    { s with cdevs := s.cdevs ++ (l.filter o.cdev).map fun i => (i, devno s.major i) } := by
  induction l generalizing s with
  | nil => simp
  | cons i l ih =>
      rw [List.foldl_cons, ih, simpleCharCdevAdd]
      by_cases h : o.cdev i = true
      · simp [h, devno]
      · simp [h]

theorem foldlM_clearBuf (h : s.bufs = l) :
    l.foldlM clearBuf s = some { s with bufs := [] } := by
  induction l generalizing s with
  | nil =>
      obtain ⟨major, devs, bufs, region, cdevs⟩ := s
      cases h
      rfl
  | cons i l ih =>
      rw [List.foldlM_cons, clearBuf, if_pos (h ▸ List.mem_cons_self)]
      exact ih (by rw [h]; exact List.erase_cons_head ..)

theorem foldlM_cdevDel {f : ℕ → UInt32} (h : s.cdevs = l.map fun i => (i, f i)) :
    l.foldlM cdevDel s = some { s with cdevs := [] } := by
  induction l generalizing s with
  | nil =>
      obtain ⟨major, devs, bufs, region, cdevs⟩ := s
      cases h
      rfl
  | cons i l ih =>
      rw [List.map_cons] at h
      rw [List.foldlM_cons, cdevDel, if_pos (by rw [h]; exact List.mem_cons_self)]
      exact ih (by rw [h]; simp)

/-! ### The registration -/

theorem mkdev_majorOf (major : UInt32) :
    mkdev (majorOf (mkdev major simpleCharMinor)) simpleCharMinor =
      mkdev major simpleCharMinor := by
  apply UInt32.toNat_inj.mp
  simp only [mkdev, majorOf, simpleCharMinor, UInt32.or_zero, UInt32.toNat_shiftLeft,
    UInt32.toNat_shiftRight, Nat.shiftLeft_eq, Nat.shiftRight_eq_div_pow, UInt32.reduceToNat,
    Nat.reduceMod, Nat.reducePow]
  omega

theorem simpleCharSetupDevnr_ok {major : UInt32} (h : o.region = .ok major) :
    ∃ m, simpleCharSetupDevnr o s =
      (0, { s with major := m, region := some (mkdev m simpleCharMinor) }) := by
  rw [simpleCharSetupDevnr, h]
  by_cases hmajor : s.major ≠ 0
  · rw [if_pos hmajor]
    exact ⟨s.major, rfl⟩
  · rw [if_neg hmajor]
    exact ⟨majorOf (mkdev major simpleCharMinor), by rw [mkdev_majorOf]⟩

theorem simpleCharSetupDevnr_err {result : Int32} {h : result < 0} {dev : UInt32}
    (hr : o.region = .err result h dev) :
    ∃ m, simpleCharSetupDevnr o s = (result, { s with major := m }) := by
  rw [simpleCharSetupDevnr, hr]
  by_cases hmajor : s.major ≠ 0
  · rw [if_pos hmajor]
    exact ⟨s.major, rfl⟩
  · rw [if_neg hmajor]
    exact ⟨majorOf dev, rfl⟩

/-! ### The start -/

theorem ne_zero_of_neg {result : Int32} (h : result < 0) : result ≠ 0 := by
  rintro rfl
  exact absurd h (by decide)

variable {major : UInt32}

theorem block_of_kmallocDevs (h : kmallocDevs nrDevs o.array = .block) : o.array = true := by
  rw [kmallocDevs] at h
  split_ifs at h with hzero harray
  exact harray

theorem kmallocDevs_eq_block {i : ℕ} (hi : i ∈ loopIndices nrDevs) (h : o.array = true) :
    kmallocDevs nrDevs o.array = .block := by
  have hne : nrDevs ≠ 0 := by
    rintro rfl
    have hlt : (i : Int) < 0 := mem_loopIndices.mp hi
    omega
  rw [kmallocDevs, if_neg hne, if_pos h]

/-- When `simple_char_setup_buf` gets through. -/
def BufsOk (o : Outcomes) (nrDevs : Int32) : Prop :=
  ∀ i ∈ loopIndices nrDevs, o.array = true ∧ o.buf i = true

/-- The state after `simple_char_setup_buf`. -/
def withBufs (o : Outcomes) (nrDevs : Int32) (major : UInt32) : Started where
  major := major
  devs := kmallocDevs nrDevs o.array
  bufs := loopIndices nrDevs
  region := none
  cdevs := []

theorem bufsOk_iff : BufsOk o nrDevs ↔
    ∀ i ∈ loopIndices nrDevs, kmallocDevs nrDevs o.array = .block ∧ o.buf i = true :=
  ⟨fun h i hi => ⟨kmallocDevs_eq_block hi (h i hi).1, (h i hi).2⟩,
    fun h i hi => ⟨block_of_kmallocDevs (h i hi).1, (h i hi).2⟩⟩

/-- A start that has written through no `NULL` pointer has all buffers. -/
theorem bufsOk_of_init {r : Int32 × Started} (h : simpleCharInit o nrDevs major = some r) :
    BufsOk o nrDevs := by
  rw [simpleCharInit, Option.map_eq_some_iff] at h
  obtain ⟨s, hs, -⟩ := h
  exact bufsOk_iff.mpr (foldlM_setupBuf.mp hs).1

theorem simpleCharSetupBuf_eq (h : BufsOk o nrDevs) :
    simpleCharSetupBuf o nrDevs ⟨major, kmallocDevs nrDevs o.array, [], none, []⟩ =
      some (withBufs o nrDevs major) :=
  foldlM_setupBuf.mpr ⟨bufsOk_iff.mp h, rfl⟩

theorem simpleCharInit_err (major : UInt32) {result : Int32} {hneg : result < 0} {dev : UInt32}
    (hr : o.region = .err result hneg dev) (h : BufsOk o nrDevs) :
    ∃ m, simpleCharInit o nrDevs major =
      some (result, { withBufs o nrDevs major with major := m }) := by
  obtain ⟨m, hm⟩ := simpleCharSetupDevnr_err (s := withBufs o nrDevs major) hr
  have hne : result ≠ 0 := ne_zero_of_neg hneg
  refine ⟨m, ?_⟩
  rw [simpleCharInit, simpleCharSetupBuf_eq h, Option.map_some]
  simp only [hm, ne_eq, hne, not_false_eq_true, if_true]

theorem simpleCharInit_ok (major : UInt32) {ma : UInt32} (hr : o.region = .ok ma)
    (h : BufsOk o nrDevs) :
    ∃ m, simpleCharInit o nrDevs major = some (0, { withBufs o nrDevs major with
      major := m
      region := some (mkdev m simpleCharMinor)
      cdevs := ((loopIndices nrDevs).filter o.cdev).map fun i => (i, devno m i) }) := by
  obtain ⟨m, hm⟩ := simpleCharSetupDevnr_ok (s := withBufs o nrDevs major) hr
  refine ⟨m, ?_⟩
  rw [simpleCharInit, simpleCharSetupBuf_eq h, Option.map_some]
  simp only [hm, ne_eq, not_true_eq_false, if_false, simpleCharSetupCdev, foldl_simpleCharCdevAdd]
  rfl

/-- `simple_char_exit` after a start that has got everything. -/
theorem simpleCharExit_eq {m : UInt32} (h : ∀ i ∈ loopIndices nrDevs, o.cdev i = true) :
    simpleCharExit nrDevs { withBufs o nrDevs major with
      major := m
      region := some (mkdev m simpleCharMinor)
      cdevs := ((loopIndices nrDevs).filter o.cdev).map fun i => (i, devno m i) } =
    some ⟨m, .null, [], none, []⟩ := by
  rw [List.filter_eq_self.mpr h, simpleCharExit, simpleCharClearBuf,
    foldlM_clearBuf (l := loopIndices nrDevs) rfl, Option.bind_some, simpleCharClearCdev,
    foldlM_cdevDel (l := loopIndices nrDevs) (f := devno m) rfl, Option.bind_some,
    simpleCharClearDevnr, if_pos rfl, Option.map_some]

/-- **The start of `simple_char`.**  It is clean if and only if all it allocates and adds for the
devices succeeds, and the registration too, unless there is no array. -/
theorem cleanStart_iff : CleanStart o nrDevs major ↔
    (∀ i ∈ loopIndices nrDevs, o.array = true ∧ o.buf i = true ∧ o.cdev i = true) ∧
      (o.registers ∨ kmallocDevs nrDevs o.array ≠ .block) := by
  constructor
  · rintro ⟨result, s, hinit, hfail, hok⟩
    have hbufs := bufsOk_of_init hinit
    cases hr : o.region with
    | ok ma =>
        obtain ⟨m, hm⟩ := simpleCharInit_ok major hr hbufs
        rw [hinit] at hm
        cases hm
        refine ⟨fun i hi => ⟨(hbufs i hi).1, (hbufs i hi).2, ?_⟩, .inl ⟨ma, hr⟩⟩
        have hadded := ((hok rfl).1 i hi).2
        simp only [List.map_map, List.mem_map, List.mem_filter, Function.comp_apply] at hadded
        obtain ⟨j, ⟨-, hj⟩, rfl⟩ := hadded
        exact hj
    | err e hneg dev =>
        obtain ⟨m, hm⟩ := simpleCharInit_err major hr hbufs
        rw [hinit] at hm
        cases hm
        have hreleased := hfail (ne_zero_of_neg hneg)
        refine ⟨fun i hi => ?_, .inr hreleased.devs⟩
        have hnil : loopIndices nrDevs = [] := hreleased.bufs
        rw [hnil] at hi
        cases hi
  · rintro ⟨hall, hregion⟩
    have hbufs : BufsOk o nrDevs := fun i hi => ⟨(hall i hi).1, (hall i hi).2.1⟩
    cases hr : o.region with
    | ok ma =>
        obtain ⟨m, hm⟩ := simpleCharInit_ok major hr hbufs
        refine ⟨0, _, hm, fun hne => absurd rfl hne, fun _ => ⟨fun i hi => ⟨hi, ?_⟩,
          _, simpleCharExit_eq fun i hi => (hall i hi).2.2, ⟨Ptr.noConfusion, rfl, rfl, rfl⟩⟩⟩
        simp only [List.map_map, List.mem_map, List.mem_filter, Function.comp_apply]
        exact ⟨i, ⟨hi, (hall i hi).2.2⟩, rfl⟩
    | err e hneg dev =>
        obtain ⟨m, hm⟩ := simpleCharInit_err major hr hbufs
        have hdevs : kmallocDevs nrDevs o.array ≠ .block := by
          refine hregion.resolve_left ?_
          rintro ⟨ma, hok⟩
          rw [hr] at hok
          cases hok
        have hnil : loopIndices nrDevs = [] := List.eq_nil_iff_forall_not_mem.mpr
          fun i hi => hdevs (kmallocDevs_eq_block hi (hall i hi).1)
        exact ⟨e, _, hm, fun _ => ⟨hdevs, hnil, rfl, rfl⟩,
          fun hzero => absurd hzero (ne_zero_of_neg hneg)⟩

/-- One device whose buffer cannot be allocated, whose number cannot be registered, or whose cdev
cannot be added. -/
theorem not_cleanStart :
    ¬ CleanStart ⟨true, fun _ => false, .ok 250, fun _ => true⟩ 1 0 ∧
      ¬ CleanStart ⟨true, fun _ => true, .err (-16) (by decide) 0, fun _ => true⟩ 1 0 ∧
      ¬ CleanStart ⟨true, fun _ => true, .ok 250, fun _ => false⟩ 1 0 := by
  refine ⟨?_, ?_, ?_⟩
  · rintro ⟨result, s, hinit, -⟩
    cases hinit
  · rintro ⟨result, s, hinit, hfail, -⟩
    cases hinit
    exact (hfail (by decide)).devs rfl
  · rintro ⟨result, s, hinit, -, hok⟩
    cases hinit
    exact absurd ((hok rfl).1 0 (by decide)).2 (by decide)

end KernelMemo.SimpleChar
