import KernelMemo.Lib.OptionString
import KernelMemo.Mount.Inode
import KernelMemo.Tuse.Dev

/-! # Connections, devices and requests as resources

The constructors and destructors of `old/tuse/inode.c` and `old/tuse/dev.c`.

* **Allocations.**  An allocator returns the address that it is given, or `none`.
* **Counting.**  Every object counts how many times it has been released: a connection the calls
  of `tc->release` and those of `kfree`, a request and its page arrays those of the allocators,
  a dentry its `dput`s. -/

namespace KernelMemo.Mount

open Tuse (Req Iqueue Pqueue tuseIqueueInit tuseDevAllocPq tuseRequestInit)

/-! ### Requests -/

/-- `TUSE_REQ_INLINE_PAGES` -/
def tuseReqInlinePages : ℕ := 1

/-- A request of `tuse_request_alloc`: `inlinePages` says that `pages` is `inline_pages`. -/
structure AllocReq where
  addr : ℕ
  req : Req
  inlinePages : Bool
  maxPages : ℕ
  frees : ℕ
  pageFrees : ℕ

/-- The outcome of the allocations for one request. -/
structure ReqMemory where
  cache : Option ℕ
  pages : Bool
  pageDescs : Bool

/-- `__tuse_request_alloc`, which `tuse_request_alloc` calls -/
def tuseRequestAlloc (npages : ℕ) (mem : ReqMemory) : Option AllocReq :=
  match mem.cache with
  | none => none
  | some addr =>
      if npages ≤ tuseReqInlinePages then some ⟨addr, tuseRequestInit, true, npages, 0, 0⟩
      else if !mem.pages || !mem.pageDescs then none
      else some ⟨addr, tuseRequestInit, false, npages, 0, 0⟩

/-- `tuse_request_free` -/
def tuseRequestFree (r : AllocReq) : AllocReq :=
  let r := if r.inlinePages then r else { r with pageFrees := r.pageFrees + 1 }
  { r with frees := r.frees + 1 }

/-! ### Connections and devices -/

/-- What `tc->release` points to. -/
inductive Release where
  | tuseFreeConn
deriving DecidableEq, Repr

/-- `struct tuse_conn`: `sb` says that the pointer to the superblock is set. -/
structure TuseConn where
  addr : ℕ
  count : Int32
  devCount : Int32
  iq : Iqueue
  dev : UInt32
  sb : Bool
  release : Option Release
  destroyReq : Option AllocReq
  releases : ℕ
  frees : ℕ

/-- `struct tuse_dev`: `tc` says that the pointer to the connection is set, and `linked` that
`entry` is on a list. -/
structure TuseDev where
  addr : ℕ
  tc : Bool
  pq : Pqueue
  linked : Bool
  frees : ℕ

/-- `tuse_conn_init` -/
def tuseConnInit (addr : ℕ) : TuseConn :=
  { addr := addr, count := 1, devCount := 1, iq := tuseIqueueInit, dev := 0, sb := false
    release := none, destroyReq := none, releases := 0, frees := 0 }

/-- `tuse_free_conn`, an empty function -/
def tuseFreeConn (tc : TuseConn) : TuseConn := tc

/-- `tuse_conn_get` -/
def tuseConnGet (tc : TuseConn) : TuseConn := { tc with count := tc.count + 1 }

/-- `tuse_dev_alloc` -/
def tuseDevAlloc (kzalloc : Option ℕ) (tc : TuseConn) : Option (TuseDev × TuseConn) :=
  kzalloc.map fun addr =>
    ({ addr := addr, tc := true, pq := tuseDevAllocPq, linked := false, frees := 0 },
      tuseConnGet tc)

/-- The call of `tc->release`. -/
def TuseConn.callRelease (tc : TuseConn) : Except Fault TuseConn :=
  match tc.release with
  | none => .error .nullRelease
  | some .tuseFreeConn => .ok (tuseFreeConn { tc with releases := tc.releases + 1 })

/-- `tuse_conn_put` -/
def tuseConnPut (tc : TuseConn) : Except Fault TuseConn :=
  let tc := { tc with count := tc.count - 1 }
  if tc.count = 0 then
    TuseConn.callRelease { tc with destroyReq := tc.destroyReq.map tuseRequestFree }
  else .ok tc

/-- `tuse_dev_free` -/
def tuseDevFree (tud : TuseDev) (tc : TuseConn) : Except Fault (TuseDev × TuseConn) := do
  if tud.tc then
    if !tud.linked then .error .unlinkedEntry
    else
      let tc ← tuseConnPut tc
      pure ({ tud with linked := false, frees := tud.frees + 1 }, tc)
  else pure ({ tud with frees := tud.frees + 1 }, tc)

/-- `struct dentry`, by how many `dput`s it has seen. -/
structure Dentry where
  puts : ℕ

/-- `dput` -/
def dput (d : Dentry) : Dentry := { d with puts := d.puts + 1 }

/-! ### The device file -/

def eperm : Int := 1

/-- `struct file`: `fOp` says that its operations are `tuse_dev_operations`, and `fInitUserNs`
that it was opened in `init_user_ns`. -/
structure File where
  count : ℕ
  fOp : Bool
  fInitUserNs : Bool
  privateData : Option ℕ
deriving DecidableEq, Repr

/-- `fget`, given whether the descriptor names the file. -/
def fget (named : Bool) (f : File) : Option File :=
  if named ∧ f.count ≠ 0 then some { f with count := f.count + 1 } else none

/-- `fput` -/
def fput (f : File) : File := { f with count := f.count - 1 }

/-- `tuse_dev_open` -/
def tuseDevOpen (f : File) : File := { f with privateData := none }

/-- `tuse_get_dev` -/
def tuseGetDev (f : File) : Option ℕ := f.privateData

/-- `tuse_dev_read`, around `tuse_dev_do_read` on a device. -/
def tuseDevRead (iovec : Bool) (doRead : ℕ → Int) (f : File) : Int :=
  match tuseGetDev f with
  | none => -eperm
  | some tud => if !iovec then -OptionString.einval else doRead tud

/-! ### What they do -/

/-- **The first unlink.**  The entry of a device of `tuse_dev_alloc` is on no list, and
`tuse_dev_free` takes it off one. -/
theorem tuseDevFree_of_alloc {kzalloc : Option ℕ} {tc tc' : TuseConn} {tud : TuseDev}
    (h : tuseDevAlloc kzalloc tc = some (tud, tc')) (tc₁ : TuseConn) :
    tuseDevFree tud tc₁ = .error .unlinkedEntry := by
  cases kzalloc with
  | none => cases h
  | some addr =>
      cases h
      rfl

theorem tuseDevAlloc_some (addr : ℕ) (tc : TuseConn) : tuseDevAlloc (some addr) tc =
    some (⟨addr, true, tuseDevAllocPq, false, 0⟩, tuseConnGet tc) := rfl

theorem tuseConnPut_of_init (tc : TuseConn) (hcount : tc.count = 1)
    (hrelease : tc.release = some .tuseFreeConn) :
    tuseConnPut tc = .ok { tc with
      count := 0
      destroyReq := tc.destroyReq.map tuseRequestFree
      releases := tc.releases + 1 } := by
  simp [tuseConnPut, TuseConn.callRelease, hcount, hrelease, tuseFreeConn]

theorem fget_eq_some {named : Bool} {f f' : File} (h : fget named f = some f') :
    f' = { f with count := f.count + 1 } := by
  simp only [fget] at h
  split at h
  · cases h
    rfl
  · cases h

theorem fput_fget {named : Bool} {f f' : File} (h : fget named f = some f') : fput f' = f := by
  rw [fget_eq_some h]
  rfl

end KernelMemo.Mount
