import Mathlib.Data.Nat.Notation

/-! # The superblock and its inodes

`tuse_iget` and the functions around it in `old/tuse/inode.c`.

* **Pointers** to a connection are its address, `none` for `NULL`.
* **`iget5_locked`** looks among the inodes of the superblock first.  A new inode comes from
  `tuse_alloc_inode`; `slab` is the object that `kmem_cache_alloc` hands out, whatever it holds.
* **Crashes.**  `BUG()` and the `NULL` pointers that are followed end a function with a `Fault`. -/

namespace KernelMemo.Mount

/-- What the kernel dies of. -/
inductive Fault where
  /-- `BUG()` in `tuse_init_inode` -/
  | bug
  /-- `tc->lock` of a connection that is `NULL`, in `tuse_iget` -/
  | nullConn
  /-- `list_del` of an entry that no list has ever held -/
  | unlinkedEntry
  /-- a call of `tc->release` that is `NULL` -/
  | nullRelease
deriving DecidableEq, Repr

/-- `S_IFMT` -/
def sIfmt : UInt32 := 0xF000

/-- `S_IFREG` -/
def sIfreg : UInt32 := 0x8000

/-- `S_ISREG` -/
def sIsreg (mode : UInt32) : Bool := mode &&& sIfmt = sIfreg

/-- `S_NOATIME` -/
def sNoatime : UInt32 := 2

/-- `S_NOCMTIME` -/
def sNocmtime : UInt32 := 128

/-- `struct tuse_attr` -/
structure TuseAttr where
  ino : UInt64
  size : UInt64
  mode : UInt32
  nlink : UInt32

/-- `struct tuse_inode`, with what `tuse` reads and writes of the `struct inode` in it: `iNew` is
`I_NEW` in its state, `iOp` and `iFop` say that the operations of tuse are set. -/
structure TuseInode where
  nodeid : UInt64
  nlookup : UInt64
  origIno : UInt64
  iMode : UInt32
  iSize : UInt64
  iFlags : UInt32
  iGeneration : UInt32
  iNew : Bool
  iOp : Bool
  iFop : Bool
deriving DecidableEq, Repr

inductive DentryOperations where
  | tuseRootDentryOperations
  | tuseDentryOperations
deriving DecidableEq, Repr

/-- `struct super_block`: `sBdev` says that it has a block device, `sOp` that its operations are
those of tuse, and `inodes` are the inodes in the cache. -/
structure SuperBlock where
  sFlags : UInt64
  sBdev : Bool
  sFsInfo : Option ℕ
  sBdi : Option ℕ
  sDev : UInt32
  sBlocksize : UInt64
  sBlocksizeBits : UInt8
  sMagic : UInt64
  sMaxbytes : UInt64
  sTimeGran : UInt32
  sOp : Bool
  sDOp : Option DentryOperations
  inodes : List TuseInode
deriving DecidableEq, Repr

/-- `get_tuse_conn_super` -/
def getTuseConnSuper (sb : SuperBlock) : Option ℕ := sb.sFsInfo

/-- `tuse_init_common` -/
def tuseInitCommon (inode : TuseInode) : TuseInode := { inode with iOp := true }

/-- `tuse_init_file_inode` -/
def tuseInitFileInode (inode : TuseInode) : TuseInode := { inode with iFop := true }

/-- `tuse_init_inode` -/
def tuseInitInode (inode : TuseInode) (attr : TuseAttr) : Except Fault TuseInode :=
  let inode := { inode with iMode := attr.mode &&& sIfmt, iSize := attr.size }
  if sIsreg inode.iMode then .ok (tuseInitFileInode (tuseInitCommon inode)) else .error .bug

/-- `tuse_inode_eq` -/
def tuseInodeEq (nodeid : UInt64) (inode : TuseInode) : Bool := inode.nodeid = nodeid

/-- `tuse_inode_set` -/
def tuseInodeSet (inode : TuseInode) (nodeid : UInt64) : TuseInode :=
  { inode with nodeid := nodeid }

/-- `tuse_alloc_inode` -/
def tuseAllocInode (slab : Option TuseInode) : Option TuseInode :=
  slab.map fun inode => { inode with origIno := 0 }

/-- `inode_init_always`, as far as the fields are here. -/
def inodeInitAlways (inode : TuseInode) : TuseInode :=
  { inode with iSize := 0, iFlags := 0, iGeneration := 0, iOp := false, iFop := false }

/-- `iget5_locked` -/
def iget5Locked (slab : Option TuseInode) (sb : SuperBlock) (nodeid : UInt64) :
    Option (SuperBlock × TuseInode) :=
  match sb.inodes.find? (tuseInodeEq nodeid) with
  | some inode => some (sb, { inode with iNew := false })
  | none =>
      (tuseAllocInode slab).map fun inode =>
        let inode := { tuseInodeSet (inodeInitAlways inode) nodeid with iNew := true }
        ({ sb with inodes := inode :: sb.inodes }, inode)

/-- The inode in the cache is changed through its pointer. -/
def SuperBlock.store (sb : SuperBlock) (inode : TuseInode) : SuperBlock :=
  { sb with inodes := sb.inodes.map fun i => if i.nodeid = inode.nodeid then inode else i }

/-- The branch of `tuse_iget` for new inodes, up to `unlock_new_inode`. -/
def initNewInode (inode : TuseInode) (generation : UInt32) (attr : TuseAttr) :
    Except Fault TuseInode := do
  let inode := { inode with iFlags := inode.iFlags ||| sNoatime }
  let inode := if sIsreg attr.mode then inode
    else { inode with iFlags := inode.iFlags ||| sNocmtime }
  let inode ← tuseInitInode { inode with iGeneration := generation } attr
  pure { inode with iNew := false }

/-- `tuse_iget` -/
def tuseIget (slab : Option TuseInode) (sb : SuperBlock) (nodeid : UInt64) (generation : UInt32)
    (attr : TuseAttr) : Except Fault (Option (SuperBlock × TuseInode)) :=
  let tc := getTuseConnSuper sb
  match iget5Locked slab sb nodeid with
  | none => .ok none
  | some (sb, inode) => do
      let inode ← (if inode.iNew then initNewInode inode generation attr else .ok inode)
      match tc with
      | none => .error .nullConn
      | some _ =>
          let inode := { inode with nlookup := inode.nlookup + 1 }
          pure (some (sb.store inode, inode))

/-- `TUSE_ROOT_ID` -/
def tuseRootId : UInt64 := 1

/-- `tuse_get_root_inode` -/
def tuseGetRootInode (slab : Option TuseInode) (sb : SuperBlock) (mode : UInt32) :
    Except Fault (Option (SuperBlock × TuseInode)) :=
  tuseIget slab sb 1 0 { ino := tuseRootId, size := 0, mode := mode, nlink := 1 }

/-! ### How the root inode is made -/

variable {sb : SuperBlock} {generation : UInt32} {attr : TuseAttr}

theorem initNewInode_of_not_isreg (inode : TuseInode) (h : sIsreg (attr.mode &&& sIfmt) = false) :
    initNewInode inode generation attr = .error .bug := by
  simp only [initNewInode, tuseInitInode, h, Bool.false_eq_true, if_false]
  rfl

theorem tuseIget_of_noConn (slab : Option TuseInode) (nodeid : UInt64) (generation : UInt32)
    (attr : TuseAttr) (h : sb.sFsInfo = none) :
    (iget5Locked slab sb nodeid = none ∧ tuseIget slab sb nodeid generation attr = .ok none) ∨
      ∃ f, tuseIget slab sb nodeid generation attr = .error f := by
  cases hget : iget5Locked slab sb nodeid with
  | none => exact .inl ⟨rfl, by simp only [tuseIget, hget]⟩
  | some r =>
      obtain ⟨sb', inode⟩ := r
      refine .inr ?_
      simp only [tuseIget, hget, getTuseConnSuper, h]
      cases (if inode.iNew then initNewInode inode generation attr else .ok inode) with
      | error f => exact ⟨f, rfl⟩
      | ok inode => exact ⟨.nullConn, rfl⟩

/-- **The root inode of a first mount.**  It is not in the cache yet, so that it is new; unless
the mode is that of a regular file, `BUG()` is reached. -/
theorem tuseGetRootInode_bug {mode : UInt32} {inode : TuseInode}
    (hcache : sb.inodes.find? (tuseInodeEq 1) = none)
    (hmode : sIsreg (mode &&& sIfmt) = false) :
    tuseGetRootInode (some inode) sb mode = .error .bug := by
  have hnew : ∀ i, initNewInode i 0 { ino := tuseRootId, size := 0, mode := mode, nlink := 1 } =
      .error .bug := fun i => initNewInode_of_not_isreg i hmode
  simp only [tuseGetRootInode, tuseIget, iget5Locked, hcache, tuseAllocInode, Option.map_some,
    if_true, hnew]
  rfl

end KernelMemo.Mount
