import KernelMemo.Mount.Connection
import KernelMemo.Mount.Options

/-! # `tuse_fill_super`

The function with its goto ladder, from `old/tuse/inode.c`: one definition for each label, which
goes on to the next one below.

* **Environment.**  `Env` says what the descriptor names and what every allocation returns.
* **Steps taken from outside.**  `fillSuper` is given what `tuse_bdi_init` returns and how the
  root inode is made; `tuseFillSuper` takes both from the source.
* **What has been made.**  `MountState` keeps every object that the call has created, also after it
  has been released. -/

namespace KernelMemo.Mount

open OptionString (einval enomem)

/-- `MS_MANDLOCK` -/
def msMandlock : UInt64 := 64

/-- `MS_NOSEC` -/
def msNosec : UInt64 := 0x10000000

/-- `MS_I_VERSION` -/
def msIVersion : UInt64 := 0x800000

/-- `TUSE_SUPER_MAGIC` -/
def tuseSuperMagic : UInt64 := 0xEFF10

/-- `PAGE_SIZE` -/
def pageSize : UInt64 := 4096

/-- `PAGE_SHIFT` -/
def pageShift : UInt8 := 12

/-- `MAX_LFS_FILESIZE` -/
def maxLfsFilesize : UInt64 := 0x7FFFFFFFFFFFFFFF

/-- What the call finds outside: the user namespace, the allocations of the option parser, the
descriptors that name the device file, the memory for the connection, the device and the two
requests, and whether `d_make_root` makes a dentry. -/
structure Env where
  ns : UserNs
  kmalloc : ℕ → Bool
  names : Int → Bool
  tc : Option ℕ
  tud : Option ℕ
  dMakeRoot : Bool
  initReq : ReqMemory
  destroyReq : ReqMemory

/-- The superblock, the device file, and what the call has made. -/
structure MountState where
  sb : SuperBlock
  file : File
  tc : Option TuseConn
  tud : Option TuseDev
  rootDentry : Option Dentry
  initReq : Option AllocReq

/-- The result of a call: where it crashes, or what it leaves and the error it returns. -/
abbrev Result := Except Fault (MountState × Int)

/-- The steps that are taken from outside: `tuse_bdi_init`, and the making of the root inode in a
mode. -/
structure Steps where
  bdiInit : Int
  rootInode : SuperBlock → UInt32 → Except Fault (Option (SuperBlock × TuseInode))

/-! ### The labels -/

/-- `err_fput:` -/
def errFput (m : MountState) (err : Int) : Result := .ok ({ m with file := fput m.file }, err)

/-- `err_put_conn:`, where `tuse_bdi_destroy` is empty -/
def errPutConn (m : MountState) (tc : TuseConn) (err : Int) : Result := do
  let tc ← tuseConnPut tc
  errFput { m with tc := some tc } err

/-- `err_dev_free:` -/
def errDevFree (m : MountState) (tc : TuseConn) (tud : TuseDev) (err : Int) : Result := do
  let (tud, tc) ← tuseDevFree tud tc
  errPutConn { m with tud := some tud } tc err

/-- `err_put_root:` -/
def errPutRoot (m : MountState) (tc : TuseConn) (tud : TuseDev) (rootDentry : Dentry) (err : Int) :
    Result :=
  errDevFree { m with rootDentry := some (dput rootDentry) } tc tud err

/-- `err_free_init_req:` -/
def errFreeInitReq (m : MountState) (tc : TuseConn) (tud : TuseDev) (rootDentry : Dentry)
    (initReq : AllocReq) (err : Int) : Result :=
  errPutRoot { m with initReq := some (tuseRequestFree initReq) } tc tud rootDentry err

/-! ### The function -/

/-- `return 0`, with the objects that the call holds; `tuse_send_init` before it is empty. -/
def fillDone (m : MountState) (tc : TuseConn) (tud : TuseDev) (rootDentry : Dentry)
    (initReq : AllocReq) : Result :=
  .ok ({ m with
    tc := some tc, tud := some tud, rootDentry := some rootDentry, initReq := some initReq }, 0)

/-- From `init_req = tuse_request_alloc(0)` on. -/
def fillRequests (e : Env) (m : MountState) (tc : TuseConn) (tud : TuseDev) (rootDentry : Dentry) :
    Result :=
  match tuseRequestAlloc 0 e.initReq with
  | none => errPutRoot m tc tud rootDentry (-enomem)
  | some initReq =>
      let initReq := { initReq with req := initReq.req.setBit .frBackground }
      if m.sb.sBdev then
        match tuseRequestAlloc 0 e.destroyReq with
        | none => errFreeInitReq m tc tud rootDentry initReq (-enomem)
        | some destroyReq =>
            fillDone m { tc with destroyReq := some destroyReq } tud rootDentry initReq
      else fillDone m tc tud rootDentry initReq

/-- From `root = tuse_get_root_inode(sb, d.rootmode)` on. -/
def fillRoot (steps : Steps) (e : Env) (d : TuseMountData) (m : MountState) (tc : TuseConn)
    (tud : TuseDev) : Result := do
  let root ← steps.rootInode m.sb d.rootmode
  let sb := { root.elim m.sb (·.1) with sDOp := some .tuseRootDentryOperations }
  let m := { m with sb := sb }
  -- d_make_root of NULL is NULL
  if root.isSome && e.dMakeRoot then
    fillRequests e { m with sb := { sb with sDOp := some .tuseDentryOperations } } tc tud ⟨0⟩
  else errDevFree m tc tud (-enomem)

/-- From `err = tuse_bdi_init(tc, sb)` on. -/
def fillBdi (steps : Steps) (e : Env) (d : TuseMountData) (m : MountState) (tc : TuseConn)
    (tud : TuseDev) : Result :=
  if steps.bdiInit ≠ 0 then errDevFree m tc tud steps.bdiInit
  else fillRoot steps e d { m with sb := { m.sb with sBdi := some tc.addr } } tc tud

/-- From `tc = kmalloc(sizeof(*tc), GFP_KERNEL)` on. -/
def fillConn (steps : Steps) (e : Env) (d : TuseMountData) (m : MountState) : Result :=
  match e.tc with
  | none => errFput m (-enomem)
  | some addr =>
      let tc := { tuseConnInit addr with release := some .tuseFreeConn }
      match tuseDevAlloc e.tud tc with
      | none => errPutConn m tc (-enomem)
      | some (tud, tc) =>
          fillBdi steps e d m { tc with dev := m.sb.sDev, sb := true } tud

/-- The superblock between `parse_tuse_opt` and `fget`. -/
def fillSb (sb : SuperBlock) : SuperBlock :=
  let sb := if sb.sBdev then sb
    else { sb with sBlocksize := pageSize, sBlocksizeBits := pageShift }
  { sb with
    sMagic := tuseSuperMagic, sOp := true, sMaxbytes := maxLfsFilesize, sTimeGran := 1 }

/-- `tuse_fill_super`, given the steps from outside. -/
def fillSuper (steps : Steps) (e : Env) (data : Option (List Char)) (sb : SuperBlock)
    (file : File) : Result :=
  let m : MountState :=
    { sb := sb, file := file, tc := none, tud := none, rootDentry := none, initReq := none }
  if sb.sFlags &&& msMandlock ≠ 0 then .ok (m, -einval)
  else
    let sb := { sb with sFlags := sb.sFlags &&& ~~~(msNosec ||| msIVersion) }
    match parseTuseOpt e.ns e.kmalloc data with
    | none => .ok ({ m with sb := sb }, -einval)
    | some d =>
        let m := { m with sb := fillSb sb }
        match fget (e.names d.fd) m.file with
        | none => .ok (m, -einval)
        | some file =>
            let m := { m with file := file }
            if !file.fOp || !file.fInitUserNs then errFput m (-einval)
            else fillConn steps e d m

/-- `tuse_bdi_init` -/
def tuseBdiInit : Int := 0

/-- `tuse_fill_super`, where `slab` is the memory for a new inode. -/
def tuseFillSuper (slab : Option TuseInode) (e : Env) (data : Option (List Char))
    (sb : SuperBlock) (file : File) : Result :=
  fillSuper ⟨tuseBdiInit, tuseGetRootInode slab⟩ e data sb file

/-! ### Where the call can stop -/

/-- The call is refused before it makes anything: by the flags, the options, the descriptor, or
the file behind it. -/
def Refused (e : Env) (data : Option (List Char)) (sb : SuperBlock) (file : File) : Prop :=
  sb.sFlags &&& msMandlock ≠ 0 ∨ parseTuseOpt e.ns e.kmalloc data = none ∨
    ∃ d, parseTuseOpt e.ns e.kmalloc data = some d ∧
      (fget (e.names d.fd) file = none ∨ file.fOp = false ∨ file.fInitUserNs = false)

variable {steps : Steps} {e : Env} {data : Option (List Char)} {sb : SuperBlock} {file : File}
  {m : MountState} {tud : TuseDev}

theorem fillSuper_of_refused (steps : Steps) (h : Refused e data sb file) : ∃ sb',
    fillSuper steps e data sb file = .ok (⟨sb', file, none, none, none, none⟩, -einval) := by
  by_cases hflags : sb.sFlags &&& msMandlock ≠ 0
  · exact ⟨_, by rw [fillSuper, if_pos hflags]⟩
  · rw [fillSuper, if_neg hflags]
    cases hparse : parseTuseOpt e.ns e.kmalloc data with
    | none => exact ⟨_, rfl⟩
    | some d =>
        obtain hcheck : fget (e.names d.fd) file = none ∨ file.fOp = false ∨
            file.fInitUserNs = false := by
          obtain h | h | ⟨d', hd', h⟩ := h
          · exact absurd h hflags
          · rw [hparse] at h
            cases h
          · rw [hparse] at hd'
            cases hd'
            exact h
        dsimp only
        cases hget : fget (e.names d.fd) file with
        | none => exact ⟨_, rfl⟩
        | some file' =>
            have hbad : (!file'.fOp || !file'.fInitUserNs) = true := by
              obtain h | h | h := hcheck
              · rw [hget] at h
                cases h
              · simp [fget_eq_some hget, h]
              · simp [fget_eq_some hget, h]
            refine ⟨fillSb { sb with sFlags := sb.sFlags &&& ~~~(msNosec ||| msIVersion) }, ?_⟩
            simp only [if_pos hbad, errFput, fput_fget hget]

theorem fillSuper_of_not_refused (steps : Steps) (h : ¬ Refused e data sb file) : ∃ d file' sb',
    parseTuseOpt e.ns e.kmalloc data = some d ∧ fget (e.names d.fd) file = some file' ∧
    sb'.sFsInfo = sb.sFsInfo ∧ sb'.inodes = sb.inodes ∧ fillSuper steps e data sb file =
      fillConn steps e d ⟨sb', file', none, none, none, none⟩ := by
  simp only [Refused, not_or, not_not, not_exists, not_and] at h
  obtain ⟨hflags, hparse, hcheck⟩ := h
  obtain ⟨d, hd⟩ := Option.ne_none_iff_exists'.mp hparse
  obtain ⟨hget, hop, hns⟩ := hcheck d hd
  obtain ⟨file', hfile⟩ := Option.ne_none_iff_exists'.mp hget
  have hgood : ¬ (!file'.fOp || !file'.fInitUserNs) = true := by
    simp [fget_eq_some hfile, hop, hns]
  refine ⟨d, file', fillSb { sb with sFlags := sb.sFlags &&& ~~~(msNosec ||| msIVersion) },
    hd, hfile, ?_, ?_, ?_⟩
  · simp only [fillSb]
    split <;> rfl
  · simp only [fillSb]
    split <;> rfl
  · rw [fillSuper, if_neg (not_not.mpr hflags), hd]
    simp only [hfile, if_neg hgood]

/-! ### Past the device -/

section

variable {kzalloc : Option ℕ} {tc₀ tc₁ : TuseConn} (h : tuseDevAlloc kzalloc tc₀ = some (tud, tc₁))

include h

/-- Every error behind `tuse_dev_alloc` unlinks the entry of the device, which is not linked. -/
theorem errDevFree_of_alloc (m : MountState) (tc : TuseConn) (err : Int) :
    errDevFree m tc tud err = .error .unlinkedEntry := by
  rw [errDevFree, tuseDevFree_of_alloc h tc]
  rfl

theorem fillRequests_cases (e : Env) (m : MountState) (tc : TuseConn) (rootDentry : Dentry) :
    fillRequests e m tc tud rootDentry = .error .unlinkedEntry ∨
      ∃ m', fillRequests e m tc tud rootDentry = .ok (m', 0) ∧ m'.file = m.file := by
  simp only [fillRequests]
  split
  · exact .inl (errDevFree_of_alloc h _ _ _)
  · split
    · split
      · exact .inl (errDevFree_of_alloc h _ _ _)
      · exact .inr ⟨_, rfl, rfl⟩
    · exact .inr ⟨_, rfl, rfl⟩

/-- **Past the device.**  From `tuse_bdi_init` on the call crashes, or it makes the root inode and
returns 0 with its reference on the file. -/
theorem fillBdi_cases (steps : Steps) (e : Env) (d : TuseMountData) (m : MountState)
    (tc : TuseConn) :
    (∃ f, fillBdi steps e d m tc tud = .error f) ∨
      ∃ m', fillBdi steps e d m tc tud = .ok (m', 0) ∧ m'.file = m.file ∧
        ∃ r, steps.rootInode { m.sb with sBdi := some tc.addr } d.rootmode = .ok (some r) := by
  simp only [fillBdi]
  split
  · exact .inl ⟨_, errDevFree_of_alloc h _ _ _⟩
  · simp only [fillRoot]
    cases steps.rootInode { m.sb with sBdi := some tc.addr } d.rootmode with
    | error f => exact .inl ⟨f, rfl⟩
    | ok root =>
        cases root with
        | none => exact .inl ⟨_, errDevFree_of_alloc h _ _ _⟩
        | some r =>
            cases hroot : e.dMakeRoot with
            | false => exact .inl ⟨_, errDevFree_of_alloc h _ _ _⟩
            | true =>
                have hreq := fillRequests_cases h e
                  { m with sb := { r.1 with sDOp := some .tuseDentryOperations } } tc ⟨0⟩
                obtain hf | ⟨m', hm', hfile⟩ := hreq
                · exact .inl ⟨_, hf⟩
                · exact .inr ⟨m', hm', hfile, r, rfl⟩

end

theorem fillConn_cases (steps : Steps) (e : Env) (d : TuseMountData) (m : MountState) :
    (e.tc = none ∧
      fillConn steps e d m = .ok ({ m with file := fput m.file }, -enomem)) ∨
    (∃ addr, e.tc = some addr ∧ e.tud = none ∧
      fillConn steps e d m = .ok ({ m with
        tc := some { tuseConnInit addr with
          count := 0, release := some .tuseFreeConn, releases := 1 }
        file := fput m.file }, -enomem)) ∨
    (∃ addr tudAddr, e.tc = some addr ∧ e.tud = some tudAddr ∧
      ((∃ f, fillConn steps e d m = .error f) ∨
        ∃ m', fillConn steps e d m = .ok (m', 0) ∧ m'.file = m.file ∧
          ∃ r, steps.rootInode { m.sb with sBdi := some addr } d.rootmode = .ok (some r))) := by
  cases haddr : e.tc with
  | none => exact .inl ⟨rfl, by simp only [fillConn, haddr, errFput]⟩
  | some addr =>
      cases htud : e.tud with
      | none =>
          refine .inr (.inl ⟨addr, rfl, rfl, ?_⟩)
          simp only [fillConn, haddr, htud, tuseDevAlloc, Option.map_none, errPutConn]
          rw [tuseConnPut_of_init _ rfl rfl]
          rfl
      | some tudAddr =>
          refine .inr (.inr ⟨addr, tudAddr, rfl, rfl, ?_⟩)
          simp only [fillConn, haddr, htud, tuseDevAlloc, Option.map_some]
          exact fillBdi_cases (tuseDevAlloc_some tudAddr (tuseConnInit addr)) _ _ _ _ _

theorem privateData_of_fillSuper {err : Int} (h : fillSuper steps e data sb file = .ok (m, err)) :
    m.file.privateData = file.privateData := by
  by_cases hrefused : Refused e data sb file
  · obtain ⟨sb', hr⟩ := fillSuper_of_refused steps hrefused
    rw [hr] at h
    cases h
    rfl
  · obtain ⟨d, file', sb', -, hget, -, -, hcall⟩ := fillSuper_of_not_refused steps hrefused
    have hfile' : file'.privateData = file.privateData := by rw [fget_eq_some hget]
    rw [hcall] at h
    obtain ⟨-, hr⟩ | ⟨addr, -, -, hr⟩ | ⟨addr, tudAddr, -, -, ⟨f, hr⟩ | ⟨m', hr, hm', -⟩⟩ :=
      fillConn_cases steps e d ⟨sb', file', none, none, none, none⟩
    all_goals rw [hr] at h
    · cases h
      exact hfile'
    · cases h
      exact hfile'
    · cases h
    · cases h
      rw [hm']
      exact hfile'

/-- **The device file of a mount.**  Whatever `tuse_fill_super` returns, the file has no device:
every read of it fails with `-EPERM`. -/
theorem tuseDevRead_of_fillSuper {err : Int}
    (h : fillSuper steps e data sb (tuseDevOpen file) = .ok (m, err)) (iovec : Bool)
    (doRead : ℕ → Int) : tuseDevRead iovec doRead m.file = -eperm := by
  have hdev : tuseGetDev m.file = none := privateData_of_fillSuper h
  rw [tuseDevRead, hdev]

end KernelMemo.Mount
