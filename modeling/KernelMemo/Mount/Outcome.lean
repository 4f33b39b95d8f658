import KernelMemo.Mount.FillSuper

/-! # What a mount comes to

* **Surviving.**  A call of `tuse_fill_super` on accepted options should return, and when it
  returns 0 the superblock should point to the connection that it has created.
* **Balance.**  When the call returns an error, everything it has made should be released once and
  the file have the references it had before; when it returns 0, everything should be handed over.

`tuse_get_root_inode` runs before anything sets `s_fs_info`, with a mode that no option sets; the
ladder takes an entry off a list that it was never put on; and the way to `return 0` keeps the
reference on the file and hands nothing over.  Both results say on which calls none of this is
reached. -/

namespace KernelMemo.Mount

open OptionString (einval enomem)

variable {steps : Steps} {e : Env} {data : Option (List Char)} {sb : SuperBlock} {file : File}
  {d : TuseMountData}

/-! ### A first mount -/

/-- The options of the mounts below. -/
def options : Option (List Char) := some "fd=3,user_id=0,group_id=0".toList

/-- What `parse_tuse_opt` makes of them in the initial namespace. -/
def optionsData : TuseMountData :=
  { mountDataInit with
    fd := 3, fdPresent := true, userIdPresent := true, groupIdPresent := true }

/-- There is memory for everything, and descriptor 3 is the device file. -/
def plenty : Env :=
  { ns := initUserNs, kmalloc := fun _ => true, names := fun fd => fd = 3
    tc := some 1, tud := some 2, dMakeRoot := true
    initReq := ⟨some 3, true, true⟩, destroyReq := ⟨some 4, true, true⟩ }

/-- A superblock without a block device, before it is filled. -/
def newSb : SuperBlock :=
  { sFlags := 0, sBdev := false, sFsInfo := none, sBdi := none, sDev := 0, sBlocksize := 0
    sBlocksizeBits := 0, sMagic := 0, sMaxbytes := 0, sTimeGran := 0, sOp := false, sDOp := none
    inodes := [] }

/-- The device file, just opened. -/
def devFile : File :=
  tuseDevOpen { count := 1, fOp := true, fInitUserNs := true, privateData := none }

/-- The memory of an inode. -/
def rootSlab : TuseInode :=
  { nodeid := 0, nlookup := 0, origIno := 0, iMode := 0, iSize := 0, iFlags := 0
    iGeneration := 0, iNew := false, iOp := false, iFop := false }

theorem parse_options : parseTuseOpt initUserNs (fun _ => true) options = some optionsData := by
  decide

theorem plenty_admitted : ¬ Refused plenty options newSb devFile := by
  have hparse : parseTuseOpt plenty.ns plenty.kmalloc options = some optionsData := parse_options
  simp only [Refused, hparse]
  decide

/-! ### Surviving -/

/-- The call returns, and the superblock of a successful mount has the connection. -/
def Survives : Result → Prop
  | .error _ => False
  | .ok (m, err) => err = 0 → ∃ tc, m.tc = some tc ∧ getTuseConnSuper m.sb = some tc.addr

theorem tuseGetRootInode_ne_some {slab : Option TuseInode} (h : sb.sFsInfo = none) (mode : UInt32)
    (r : SuperBlock × TuseInode) : tuseGetRootInode slab sb mode ≠ .ok (some r) := by
  intro hr
  rw [tuseGetRootInode] at hr
  obtain ⟨-, hnull⟩ | ⟨f, hf⟩ := tuseIget_of_noConn slab 1 0 ⟨tuseRootId, 0, mode, 1⟩ h
  · rw [hnull] at hr
    cases hr
  · rw [hf] at hr
    cases hr

/-- **A mount with accepted options.**  On a superblock without connection, `tuse_fill_super`
survives if and only if it finds no memory for the connection or for the device. -/
theorem tuseFillSuper_survives_iff {slab : Option TuseInode}
    (hopt : parseTuseOpt e.ns e.kmalloc data = some d) (hflags : sb.sFlags &&& msMandlock = 0)
    (hinfo : sb.sFsInfo = none) (hnames : e.names d.fd = true) (hopen : file.count ≠ 0)
    (hop : file.fOp = true) (hns : file.fInitUserNs = true) :
    Survives (tuseFillSuper slab e data sb file) ↔ e.tc = none ∨ e.tud = none := by
  have hget : fget (e.names d.fd) file = some { file with count := file.count + 1 } := by
    rw [fget, if_pos ⟨hnames, hopen⟩]
  have hadmitted : ¬ Refused e data sb file := by
    simp [Refused, hflags, hopt, hget, hop, hns]
  obtain ⟨d', file', sb', -, -, hsb', -, hcall⟩ :=
    fillSuper_of_not_refused ⟨tuseBdiInit, tuseGetRootInode slab⟩ hadmitted
  rw [tuseFillSuper, hcall]
  obtain ⟨htc, hr⟩ | ⟨addr, htc, htud, hr⟩ | ⟨addr, tudAddr, htc, htud, hr⟩ := fillConn_cases
    ⟨tuseBdiInit, tuseGetRootInode slab⟩ e d' ⟨sb', file', none, none, none, none⟩
  · rw [hr]
    exact ⟨fun _ => .inl htc, fun _ herr => absurd herr (by decide)⟩
  · rw [hr]
    exact ⟨fun _ => .inr htud, fun _ herr => absurd herr (by decide)⟩
  · have hmem : ¬ (e.tc = none ∨ e.tud = none) := by simp [htc, htud]
    obtain ⟨f, hf⟩ | ⟨m', -, -, r, hroot⟩ := hr
    · rw [hf]
      exact ⟨False.elim, fun h => absurd h hmem⟩
    · have hnull : ({ sb' with sBdi := some addr } : SuperBlock).sFsInfo = none := hsb'.trans hinfo
      exact absurd hroot (tuseGetRootInode_ne_some hnull _ r)

theorem tuseFillSuper_survives_noMemory :
    Survives (tuseFillSuper none { plenty with tc := none } options newSb devFile) :=
  (tuseFillSuper_survives_iff (d := optionsData) parse_options rfl rfl rfl (by decide) rfl rfl).mpr
    (.inl rfl)

/-- **The first mount.**  With memory for the connection, the device and an inode, and no root
inode in the cache, accepted options lead to `BUG()`: their `rootmode` is 0. -/
theorem tuseFillSuper_bug {inode : TuseInode} {addr tudAddr : ℕ} (h : ¬ Refused e data sb file)
    (htc : e.tc = some addr) (htud : e.tud = some tudAddr)
    (hcache : sb.inodes.find? (tuseInodeEq 1) = none) :
    tuseFillSuper (some inode) e data sb file = .error .bug := by
  obtain ⟨d, file', sb', hopt, -, -, hinodes, hcall⟩ :=
    fillSuper_of_not_refused ⟨tuseBdiInit, tuseGetRootInode (some inode)⟩ h
  have hmode : d.rootmode = 0 := (accepted_of_parseTuseOpt hopt).rootmode
  have hroot : tuseGetRootInode (some inode) { sb' with sBdi := some addr } d.rootmode =
      .error .bug := by
    rw [hmode]
    exact tuseGetRootInode_bug (by rw [hinodes]; exact hcache) (by decide)
  rw [tuseFillSuper, hcall]
  simp only [fillConn, htc, htud, tuseDevAlloc, Option.map_some, fillBdi, tuseBdiInit, fillRoot,
    tuseConnGet, tuseConnInit, hroot]
  rfl

theorem tuseFillSuper_crashes :
    parseTuseOpt plenty.ns plenty.kmalloc options = some optionsData ∧
      newSb.sFlags &&& msMandlock = 0 ∧ newSb.sFsInfo = none ∧
      plenty.names optionsData.fd = true ∧ devFile.fOp = true ∧ devFile.fInitUserNs = true ∧
      tuseFillSuper (some rootSlab) plenty options newSb devFile = .error .bug ∧
      ¬ Survives (tuseFillSuper (some rootSlab) plenty options newSb devFile) := by
  have hbug : tuseFillSuper (some rootSlab) plenty options newSb devFile = .error .bug :=
    tuseFillSuper_bug plenty_admitted rfl rfl rfl
  exact ⟨parse_options, rfl, rfl, rfl, rfl, rfl, hbug, by rw [hbug]; exact id⟩

/-! ### Balance -/

/-- After an error: the file has the references it had, and every object that has been made has
been released once, a connection as `released` counts it. -/
structure Released (released : TuseConn → ℕ) (file : File) (m : MountState) : Prop where
  count : m.file.count = file.count
  tc : ∀ tc ∈ m.tc, released tc = 1
  tud : ∀ tud ∈ m.tud, tud.frees = 1
  rootDentry : ∀ dentry ∈ m.rootDentry, dentry.puts = 1
  initReq : ∀ r ∈ m.initReq, r.frees = 1
  destroyReq : ∀ tc ∈ m.tc, ∀ r ∈ tc.destroyReq, r.frees = 1

/-- The device is reached from the file, or through its entry. -/
def MountState.ReachesDev (m : MountState) (tud : TuseDev) : Prop :=
  m.file.privateData = some tud.addr ∨ tud.linked = true

/-- The connection is reached from the superblock, or from the device. -/
def MountState.ReachesConn (m : MountState) (tc : TuseConn) : Prop :=
  m.sb.sFsInfo = some tc.addr ∨ m.sb.sBdi = some tc.addr ∨
    ∃ tud, m.tud = some tud ∧ tud.tc = true ∧ m.ReachesDev tud

/-- After success: the reference on the file has been dropped, the objects are reached, the
request from a queue of the connection, and reads have a device. -/
structure HandedOver (file : File) (m : MountState) : Prop where
  count : m.file.count = file.count
  tc : ∃ tc, m.tc = some tc ∧ m.ReachesConn tc
  tud : ∃ tud, m.tud = some tud ∧ m.ReachesDev tud
  initReq : ∃ tc r, m.tc = some tc ∧ m.initReq = some r ∧
    (r.addr ∈ tc.iq.pending ∨ r.addr ∈ tc.iq.interrupts)
  read : ∀ iovec doRead, (∀ tud, doRead tud ≠ -eperm) →
    tuseDevRead iovec doRead m.file ≠ -eperm

/-- Every resource is balanced at the end of the call. -/
def Balanced (released : TuseConn → ℕ) (file : File) : Result → Prop
  | .error _ => False
  | .ok (m, err) => if err = 0 then HandedOver file m else Released released file m

theorem Released.of_nothing (released : TuseConn → ℕ) {m : MountState}
    (hcount : m.file.count = file.count) (htc : m.tc = none) (htud : m.tud = none)
    (hroot : m.rootDentry = none) (hreq : m.initReq = none) : Released released file m where
  count := hcount
  tc := by simp [htc]
  tud := by simp [htud]
  rootDentry := by simp [hroot]
  initReq := by simp [hreq]
  destroyReq := by simp [htc]

theorem balanced_iff (released : TuseConn → ℕ) :
    Balanced released file (fillSuper steps e data sb file) ↔
      Refused e data sb file ∨ e.tc = none ∨ e.tud = none ∧ ∀ addr, e.tc = some addr →
        released { tuseConnInit addr with
          count := 0, release := some .tuseFreeConn, releases := 1 } = 1 := by
  by_cases hrefused : Refused e data sb file
  · obtain ⟨sb', hr⟩ := fillSuper_of_refused steps hrefused
    rw [hr]
    exact ⟨fun _ => .inl hrefused,
      fun _ => Released.of_nothing released rfl rfl rfl rfl rfl⟩
  · obtain ⟨d, file', sb', -, hget, -, -, hcall⟩ := fillSuper_of_not_refused steps hrefused
    rw [hcall]
    have hput : (fput file').count = file.count := by rw [fput_fget hget]
    obtain ⟨htc, hr⟩ | ⟨addr, htc, htud, hr⟩ | ⟨addr, tudAddr, htc, htud, hr⟩ := fillConn_cases
      steps e d ⟨sb', file', none, none, none, none⟩
    · rw [hr]
      exact ⟨fun _ => .inr (.inl htc),
        fun _ => Released.of_nothing released hput rfl rfl rfl rfl⟩
    · rw [hr]
      constructor
      · intro h
        refine .inr (.inr ⟨htud, fun addr' haddr' => ?_⟩)
        rw [htc] at haddr'
        cases haddr'
        exact Released.tc h _ rfl
      · rintro (h | h | ⟨-, h⟩)
        · exact absurd h hrefused
        · rw [htc] at h
          cases h
        · refine ⟨hput, fun tc heq => ?_, by simp, by simp, by simp, fun tc heq => ?_⟩
          · cases heq
            exact h addr htc
          · cases heq
            simp [tuseConnInit]
    · have hstop : ¬ (Refused e data sb file ∨ e.tc = none ∨ e.tud = none ∧ ∀ addr,
          e.tc = some addr → released { tuseConnInit addr with
            count := 0, release := some .tuseFreeConn, releases := 1 } = 1) := by
        simp [hrefused, htc, htud]
      refine ⟨fun h => ?_, fun h => absurd h hstop⟩
      obtain ⟨f, hf⟩ | ⟨m', hm', hfile, -⟩ := hr
      · rw [hf] at h
        exact h.elim
      · rw [hm'] at h
        have hcount : m'.file.count = file.count := HandedOver.count h
        rw [hfile, fget_eq_some hget] at hcount
        exact absurd hcount (Nat.succ_ne_self _)

/-- **The resources of `tuse_fill_super`.**  Whatever `tuse_bdi_init` returns and whether the root
inode is made or not, the call balances its resources if and only if it is refused or finds no
memory for the connection or the device; the last of these leaves the connection released but
not freed. -/
theorem fillSuper_balanced_iff (bdiInit : Int) (root : Option TuseInode) (e : Env)
    (data : Option (List Char)) (sb : SuperBlock) (file : File) :
    (Balanced TuseConn.releases file
        (fillSuper ⟨bdiInit, fun sb _ => .ok (root.map (sb, ·))⟩ e data sb file) ↔
      Refused e data sb file ∨ e.tc = none ∨ e.tud = none) ∧
    (Balanced TuseConn.frees file
        (fillSuper ⟨bdiInit, fun sb _ => .ok (root.map (sb, ·))⟩ e data sb file) ↔
      Refused e data sb file ∨ e.tc = none) := by
  constructor
  · rw [balanced_iff]
    simp
  · rw [balanced_iff]
    cases htc : e.tc <;> simp [tuseConnInit]

/-- A mount that makes its root inode and returns 0 keeps the reference on the device file and
leaves reads at `-EPERM`; one that finds no memory for `init_req` crashes on the way out. -/
theorem fillSuper_unbalanced :
    (∃ m, fillSuper ⟨tuseBdiInit, fun sb _ => .ok (some (sb, rootSlab))⟩ plenty options newSb
        devFile = .ok (m, 0) ∧
      m.file.count = devFile.count + 1 ∧ tuseDevRead true (fun _ => 0) m.file = -eperm ∧
      ¬ Balanced TuseConn.releases devFile (.ok (m, 0))) ∧
    fillSuper ⟨tuseBdiInit, fun sb _ => .ok (some (sb, rootSlab))⟩
        { plenty with initReq := ⟨none, true, true⟩ } options newSb devFile =
      .error .unlinkedEntry ∧
    ¬ Balanced TuseConn.releases devFile (.error .unlinkedEntry) :=
  ⟨⟨_, rfl, rfl, rfl, fun h => absurd (HandedOver.count h) (by decide)⟩, rfl, id⟩

end KernelMemo.Mount
