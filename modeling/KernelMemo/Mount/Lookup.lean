import KernelMemo.Lib.TransitionSystem
import KernelMemo.Mount.Inode
import Mathlib.Algebra.Group.Nat.Defs

/-! # Lookup counts

The inodes of one superblock under `tuse_iget` and evictions.

* An eviction gives the object back to `tuse_inode_cachep`, and `kmem_cache_alloc` may hand it
  out again with its old contents.  A fresh object holds anything: the constructor
  `tuse_inode_init_once` looks after the `struct inode` only.
* The machine counts, for every node id, the calls that have returned its inode since this was
  allocated.
* `tuse_alloc_inode` resets `orig_ino` and leaves `nlookup` as it finds it, so the counts are
  exact as long as no freed object is used again and new memory is zeroed
  (`lookupsExact_iff`). -/

namespace KernelMemo.Mount

/-! ### The machine -/

/-- Where `kmem_cache_alloc` takes an object from: nowhere, new memory, or the freed objects. -/
inductive SlabObject where
  | noMemory
  | fresh (object : TuseInode)
  | freed (k : ℕ)

/-- A superblock with the freed objects of the cache, and the calls counted. -/
structure Lookup where
  sb : SuperBlock
  slab : List TuseInode
  calls : UInt64 → ℕ

/-- A call of `tuse_iget`, with what `kmem_cache_alloc` does if it is called. -/
structure Iget where
  object : SlabObject
  nodeid : UInt64
  generation : UInt32
  attr : TuseAttr

inductive LookupEvent where
  | iget (e : Iget)
  | evict (nodeid : UInt64)

namespace Lookup

/-- The inode of the node id is in the cache. -/
def cached (s : Lookup) (nodeid : UInt64) : Option TuseInode :=
  s.sb.inodes.find? (tuseInodeEq nodeid)

/-- What `kmem_cache_alloc` hands out. -/
def slabObject (s : Lookup) : SlabObject → Option TuseInode
  | .noMemory => none
  | .fresh object => some object
  | .freed k => s.slab[k]?

/-- The object is not free any more. -/
def takeObject (s : Lookup) : SlabObject → List TuseInode
  | .freed k => s.slab.eraseIdx k
  | _ => s.slab

/-- The result of the call. -/
def iget (s : Lookup) (e : Iget) : Except Fault (Option (SuperBlock × TuseInode)) :=
  tuseIget (s.slabObject e.object) s.sb e.nodeid e.generation e.attr

def step (s : Lookup) : LookupEvent → Option Lookup
  | .iget e =>
      if !sIsreg e.attr.mode then none
      else match s.iget e with
        | .error _ => none
        | .ok none => some s
        | .ok (some (sb, _)) =>
            match s.cached e.nodeid with
            | some _ =>
                some { s with
                  sb := sb
                  calls := Function.update s.calls e.nodeid (s.calls e.nodeid + 1) }
            | none =>
                some { sb := sb, slab := s.takeObject e.object
                       calls := Function.update s.calls e.nodeid 1 }
  | .evict nodeid =>
      match s.cached nodeid with
      | none => none
      | some inode =>
          some { s with
            sb := { s.sb with inodes := s.sb.inodes.filter (!tuseInodeEq nodeid ·) }
            slab := inode :: s.slab }

end Lookup

/-- The machine of a superblock with a connection, from its mount on. -/
def lookup : Lts Lookup LookupEvent where
  init s := s.sb.sFsInfo ≠ none ∧ s.sb.inodes = [] ∧ s.slab = [] ∧ s.calls = fun _ => 0
  step := Lookup.step

/-- Every inode that the call returns has the node id, and its count is that of the calls. -/
def Lookup.Exact (s : Lookup) (e : Iget) : Prop :=
  ∀ s' sb inode, s.step (.iget e) = some s' → s.iget e = .ok (some (sb, inode)) →
    inode.nodeid = e.nodeid ∧ inode.nlookup.toNat = s'.calls e.nodeid

/-- If the call allocates an inode, its object is new memory that holds a count of 0. -/
def Lookup.Pristine (s : Lookup) (e : Iget) : Prop :=
  s.cached e.nodeid = none → match e.object with
    | .noMemory => True
    | .fresh object => object.nlookup = 0
    | .freed k => s.slab[k]? = none

/-! ### One call -/

namespace Lookup

variable {s s' : Lookup} {e : Iget}

/-- What a call needs that is not to crash. -/
structure Ready (s : Lookup) (e : Iget) : Prop where
  conn : s.sb.sFsInfo ≠ none
  isreg : sIsreg e.attr.mode = true

theorem nodeid_of_cached {nodeid : UInt64} {inode : TuseInode} (h : s.cached nodeid = some inode) :
    inode.nodeid = nodeid := by
  have heq := List.find?_some h
  simpa [tuseInodeEq] using heq

theorem iget_cached (h : s.Ready e) {inode : TuseInode}
    (hc : s.cached e.nodeid = some inode) :
    s.iget e = .ok (some (s.sb.store { inode with iNew := false, nlookup := inode.nlookup + 1 },
      { inode with iNew := false, nlookup := inode.nlookup + 1 })) := by
  obtain ⟨c, hconn⟩ := Option.ne_none_iff_exists'.mp h.conn
  have hfind : s.sb.inodes.find? (tuseInodeEq e.nodeid) = some inode := hc
  simp only [iget, tuseIget, iget5Locked, hfind, getTuseConnSuper, hconn]
  rfl

theorem iget_noMemory (hc : s.cached e.nodeid = none) (ho : s.slabObject e.object = none) :
    s.iget e = .ok none := by
  have hfind : s.sb.inodes.find? (tuseInodeEq e.nodeid) = none := hc
  simp only [iget, tuseIget, iget5Locked, hfind, ho, tuseAllocInode, Option.map_none]

theorem initNewInode_isreg (inode : TuseInode) (generation : UInt32) {attr : TuseAttr}
    (h : sIsreg attr.mode = true) : ∃ inode', initNewInode inode generation attr = .ok inode' ∧
      inode'.nodeid = inode.nodeid ∧ inode'.nlookup = inode.nlookup := by
  have hmode : sIsreg (attr.mode &&& sIfmt) = true := by
    simpa [sIsreg, UInt32.and_assoc] using h
  simp only [initNewInode, tuseInitInode, h, hmode, if_true]
  exact ⟨_, rfl, rfl, rfl⟩

theorem store_new (sb : SuperBlock) {new inode : TuseInode} (hid : inode.nodeid = new.nodeid)
    (hother : ∀ i ∈ sb.inodes, i.nodeid ≠ new.nodeid) :
    ({ sb with inodes := new :: sb.inodes } : SuperBlock).store inode =
      { sb with inodes := inode :: sb.inodes } := by
  have hmap : sb.inodes.map (fun i => if i.nodeid = inode.nodeid then inode else i) =
      sb.inodes := by
    refine (List.map_congr_left fun i hi => ?_).trans (List.map_id _)
    exact if_neg (hid ▸ hother i hi)
  simp only [SuperBlock.store, List.map_cons, hmap, if_pos hid.symm]

theorem tuseIget_new {slab : Option TuseInode} {sb sb' : SuperBlock} {nodeid : UInt64}
    {generation : UInt32} {attr : TuseAttr} {new inode : TuseInode} (hconn : sb.sFsInfo ≠ none)
    (hget : iget5Locked slab sb nodeid = some (sb', new)) (hnew : new.iNew = true)
    (hinit : initNewInode new generation attr = .ok inode) :
    tuseIget slab sb nodeid generation attr =
      .ok (some (sb'.store { inode with nlookup := inode.nlookup + 1 },
        { inode with nlookup := inode.nlookup + 1 })) := by
  obtain ⟨c, hc⟩ := Option.ne_none_iff_exists'.mp hconn
  simp only [tuseIget, hget, hnew, if_true, getTuseConnSuper, hc, hinit]
  rfl

theorem iget_new (h : s.Ready e) (hc : s.cached e.nodeid = none) {object : TuseInode}
    (ho : s.slabObject e.object = some object) :
    ∃ inode, s.iget e = .ok (some ({ s.sb with inodes := inode :: s.sb.inodes }, inode)) ∧
      inode.nodeid = e.nodeid ∧ inode.nlookup = object.nlookup + 1 := by
  have hfind : s.sb.inodes.find? (tuseInodeEq e.nodeid) = none := hc
  let new : TuseInode :=
    { tuseInodeSet (inodeInitAlways { object with origIno := 0 }) e.nodeid with iNew := true }
  have hget : iget5Locked (s.slabObject e.object) s.sb e.nodeid =
      some ({ s.sb with inodes := new :: s.sb.inodes }, new) := by
    simp only [iget5Locked, hfind, ho, tuseAllocInode, Option.map_some]
    rfl
  obtain ⟨inode, hinit, hnodeid, hnlookup⟩ := initNewInode_isreg new e.generation h.isreg
  have hother : ∀ i ∈ s.sb.inodes, i.nodeid ≠ new.nodeid := fun i hi => by
    show i.nodeid ≠ e.nodeid
    simpa [tuseInodeEq] using List.find?_eq_none.mp hfind i hi
  have hcount : inode.nlookup = object.nlookup := hnlookup
  refine ⟨{ inode with nlookup := inode.nlookup + 1 }, ?_, hnodeid, by rw [hcount]⟩
  have hid : ({ inode with nlookup := inode.nlookup + 1 } : TuseInode).nodeid = new.nodeid :=
    hnodeid
  have hstore := store_new s.sb hid hother
  rw [← hstore]
  exact tuseIget_new h.conn hget rfl hinit

theorem step_iget_cases (hconn : s.sb.sFsInfo ≠ none) (hs : s.step (.iget e) = some s') :
    (∃ inode, s.cached e.nodeid = some inode ∧
      s.iget e = .ok (some (s.sb.store { inode with iNew := false, nlookup := inode.nlookup + 1 },
        { inode with iNew := false, nlookup := inode.nlookup + 1 })) ∧
      s' = { s with
        sb := s.sb.store { inode with iNew := false, nlookup := inode.nlookup + 1 }
        calls := Function.update s.calls e.nodeid (s.calls e.nodeid + 1) }) ∨
    (s.cached e.nodeid = none ∧ s.slabObject e.object = none ∧ s.iget e = .ok none ∧ s' = s) ∨
    ∃ object inode, s.cached e.nodeid = none ∧ s.slabObject e.object = some object ∧
      inode.nodeid = e.nodeid ∧ inode.nlookup = object.nlookup + 1 ∧
      s.iget e = .ok (some ({ s.sb with inodes := inode :: s.sb.inodes }, inode)) ∧
      s' = { sb := { s.sb with inodes := inode :: s.sb.inodes }, slab := s.takeObject e.object
             calls := Function.update s.calls e.nodeid 1 } := by
  simp only [step] at hs
  split at hs
  · cases hs
  next hreg =>
    have hready : s.Ready e := ⟨hconn, by simpa using hreg⟩
    cases hc : s.cached e.nodeid with
    | some inode =>
        have hget := iget_cached hready hc
        rw [hget] at hs
        simp only [hc, Option.some.injEq] at hs
        exact .inl ⟨inode, rfl, hget, hs.symm⟩
    | none =>
        cases ho : s.slabObject e.object with
        | none =>
            have hget := iget_noMemory hc ho
            rw [hget] at hs
            exact .inr (.inl ⟨rfl, rfl, hget, (Option.some.inj hs).symm⟩)
        | some object =>
            obtain ⟨inode, hget, hnodeid, hnlookup⟩ := iget_new hready hc ho
            rw [hget] at hs
            simp only [hc, Option.some.injEq] at hs
            exact .inr (.inr ⟨object, inode, rfl, rfl, hnodeid, hnlookup, hget, hs.symm⟩)

/-! ### The counts -/

/-- The invariant of the runs with exact counts: a freed object has a count of its own. -/
structure Counts (s : Lookup) : Prop where
  conn : s.sb.sFsInfo ≠ none
  counts : ∀ i ∈ s.sb.inodes, i.nlookup.toNat = s.calls i.nodeid
  pos : ∀ i ∈ s.sb.inodes, 0 < s.calls i.nodeid
  slab : ∀ i ∈ s.slab, i.nlookup ≠ 0
  calls : ∀ nodeid, s.calls nodeid < 2 ^ 64

theorem mem_of_cached {nodeid : UInt64} {inode : TuseInode} (h : s.cached nodeid = some inode) :
    inode ∈ s.sb.inodes := List.mem_of_find?_eq_some h

theorem Counts.init (h : lookup.init s) : s.Counts := by
  obtain ⟨hconn, hinodes, hslab, hcalls⟩ := h
  refine ⟨hconn, ?_, ?_, ?_, fun nodeid => ?_⟩
  · simp [hinodes]
  · simp [hinodes]
  · simp [hslab]
  · rw [hcalls]
    exact Nat.two_pow_pos 64

theorem mem_store {sb : SuperBlock} {inode i : TuseInode} (h : i ∈ (sb.store inode).inodes) :
    i = inode ∨ i ∈ sb.inodes ∧ i.nodeid ≠ inode.nodeid := by
  obtain ⟨j, hj, rfl⟩ := List.mem_map.mp h
  by_cases hid : j.nodeid = inode.nodeid
  · exact .inl (if_pos hid)
  · rw [if_neg hid]
    exact .inr ⟨hj, hid⟩

theorem mem_takeObject {object : SlabObject} {i : TuseInode} (h : i ∈ s.takeObject object) :
    i ∈ s.slab := by
  cases object with
  | noMemory => exact h
  | fresh o => exact h
  | freed k => exact List.mem_of_mem_eraseIdx h

theorem nodeid_ne_of_cached_eq_none {nodeid : UInt64} (h : s.cached nodeid = none)
    {i : TuseInode} (hi : i ∈ s.sb.inodes) : i.nodeid ≠ nodeid := by
  simpa [tuseInodeEq] using List.find?_eq_none.mp h i hi

/-- The counts after a call: those of the inode that it returned, and the others as before. -/
theorem Counts.update (h : s.Counts) {sb : SuperBlock} {slab : List TuseInode} {nodeid : UInt64}
    {inode : TuseInode} {n : ℕ} (hconn : sb.sFsInfo = s.sb.sFsInfo)
    (hsb : ∀ i ∈ sb.inodes, i = inode ∨ i ∈ s.sb.inodes ∧ i.nodeid ≠ nodeid)
    (hslab : ∀ i ∈ slab, i ∈ s.slab) (hid : inode.nodeid = nodeid)
    (hcount : inode.nlookup.toNat = n) (hpos : 0 < n) :
    Counts { sb := sb, slab := slab, calls := Function.update s.calls nodeid n } := by
  have hself : Function.update s.calls nodeid n nodeid = n := Function.update_self ..
  have hother : ∀ m, m ≠ nodeid → Function.update s.calls nodeid n m = s.calls m :=
    fun m hm => Function.update_of_ne hm ..
  refine ⟨hconn ▸ h.conn, fun i hi => ?_, fun i hi => ?_, fun i hi => h.slab i (hslab i hi),
    fun m => ?_⟩
  · show i.nlookup.toNat = Function.update s.calls nodeid n i.nodeid
    rcases hsb i hi with rfl | ⟨hmem, hne⟩
    · rw [hid, hself, hcount]
    · rw [hother _ hne, h.counts i hmem]
  · show 0 < Function.update s.calls nodeid n i.nodeid
    rcases hsb i hi with rfl | ⟨hmem, hne⟩
    · rwa [hid, hself]
    · rw [hother _ hne]
      exact h.pos i hmem
  · show Function.update s.calls nodeid n m < 2 ^ 64
    by_cases heq : m = nodeid
    · rw [heq, hself, ← hcount]
      exact inode.nlookup.toNat_lt
    · rw [hother m heq]
      exact h.calls m

/-- An exact call keeps the invariant. -/
theorem Counts.iget (h : s.Counts) (he : s.Exact e) (hs : s.step (.iget e) = some s') :
    s'.Counts := by
  rcases step_iget_cases h.conn hs with ⟨inode, hc, hget, rfl⟩ | ⟨-, -, -, rfl⟩ |
    ⟨object, inode, hc, ho, hnodeid, -, hget, rfl⟩
  · obtain ⟨hid, hcount⟩ := he _ _ _ hs hget
    simp only [Function.update_self] at hcount
    refine h.update rfl (fun i hi => ?_) (fun i hi => hi) hid hcount (Nat.succ_pos _)
    exact (mem_store hi).imp_right fun hi => ⟨hi.1, hid ▸ hi.2⟩
  · exact h
  · obtain ⟨-, hcount⟩ := he _ _ _ hs hget
    simp only [Function.update_self] at hcount
    refine h.update rfl (fun i hi => ?_) (fun i => mem_takeObject) hnodeid hcount Nat.one_pos
    exact (List.mem_cons.mp hi).imp_right fun hi => ⟨hi, nodeid_ne_of_cached_eq_none hc hi⟩

theorem Counts.evict (h : s.Counts) {nodeid : UInt64} (hs : s.step (.evict nodeid) = some s') :
    s'.Counts := by
  simp only [step] at hs
  cases hc : s.cached nodeid with
  | none => simp [hc] at hs
  | some inode =>
      rw [hc] at hs
      cases hs
      have hmem := mem_of_cached hc
      refine ⟨h.conn, fun i hi => h.counts i (List.mem_filter.mp hi).1,
        fun i hi => h.pos i (List.mem_filter.mp hi).1, fun i hi => ?_, h.calls⟩
      rcases List.mem_cons.mp hi with rfl | hi
      · intro hzero
        have hcount := h.counts i hmem
        have hpos := h.pos i hmem
        rw [hzero] at hcount
        exact absurd hpos (by rw [← hcount]; decide)
      · exact h.slab i hi

/-- In a state with exact counts, a call is exact if its object is pristine. -/
theorem Counts.exact (h : s.Counts) (he : s.Pristine e)
    (hlt : ∀ s', s.step (.iget e) = some s' → s'.calls e.nodeid < 2 ^ 64) : s.Exact e := by
  intro s' sb inode hs hget
  have hlt' := hlt s' hs
  rcases step_iget_cases h.conn hs with ⟨i, hc, hget', rfl⟩ | ⟨-, -, hget', rfl⟩ |
    ⟨object, i, hc, ho, hnodeid, hnlookup, hget', rfl⟩
  · rw [hget'] at hget
    cases hget
    have hid := nodeid_of_cached hc
    have hcount := h.counts i (mem_of_cached hc)
    rw [hid] at hcount
    simp only [Function.update_self] at hlt' ⊢
    refine ⟨hid, ?_⟩
    rw [UInt64.toNat_add, hcount, show (1 : UInt64).toNat = 1 from rfl, Nat.mod_eq_of_lt hlt']
  · rw [hget'] at hget
    cases hget
  · rw [hget'] at hget
    cases hget
    have hzero : object.nlookup = 0 := by
      have hobject := he hc
      cases heq : e.object with
      | noMemory => simp [heq, slabObject] at ho
      | fresh o =>
          simp only [heq, slabObject, Option.some.injEq] at ho hobject
          exact ho ▸ hobject
      | freed k =>
          simp only [heq, slabObject] at ho hobject
          rw [ho] at hobject
          cases hobject
    refine ⟨hnodeid, ?_⟩
    simp only [Function.update_self, hnlookup, hzero]
    rfl

/-- An exact call takes no other object. -/
theorem Counts.pristine (h : s.Counts) (he : s.Exact e) (hs : s.step (.iget e) = some s') :
    s.Pristine e := by
  intro hc
  -- the count of the object that is taken is 0
  have hzero : ∀ object, s.slabObject e.object = some object → object.nlookup = 0 := by
    intro object ho
    rcases step_iget_cases h.conn hs with ⟨i, hc', -⟩ | ⟨-, ho', -⟩ |
      ⟨object', i, -, ho', -, hnlookup, hget, rfl⟩
    · rw [hc] at hc'
      cases hc'
    · rw [ho] at ho'
      cases ho'
    · rw [ho] at ho'
      cases ho'
      obtain ⟨-, hcount⟩ := he _ _ _ hs hget
      simp only [Function.update_self, hnlookup] at hcount
      have hone : object.nlookup + 1 = 0 + 1 := UInt64.toNat_inj.mp hcount
      exact (UInt64.add_left_inj 1).mp hone
  cases heq : e.object with
  | noMemory => trivial
  | fresh o => exact hzero o (by rw [heq]; rfl)
  | freed k =>
      cases hk : s.slab[k]? with
      | none => exact hk
      | some o =>
          have hfreed := hzero o (by rw [heq]; exact hk)
          exact absurd hfreed (h.slab o (List.mem_of_getElem? hk))

end Lookup

/-- **Lookup counts.**  In a run all calls of `tuse_iget` return inodes with exact counts if and
only if no inode is allocated from a freed object or from memory with another count than 0, and
none is looked up `2^64` times. -/
theorem lookupsExact_iff {s₀ s : Lookup} {es : List LookupEvent} (h₀ : lookup.init s₀)
    (h : lookup.run s₀ es = some s) :
    (∀ m c e, lookup.At s₀ es m c → es[m]? = some (.iget e) → c.Exact e) ↔
      (∀ m c e, lookup.At s₀ es m c → es[m]? = some (.iget e) → c.Pristine e) ∧
        ∀ m c nodeid, lookup.At s₀ es m c → c.calls nodeid < 2 ^ 64 := by
  constructor
  · intro hexact
    have hcounts : ∀ m c, lookup.At s₀ es m c → c.Counts := by
      intro m c hc
      refine Lts.At.segment h (Lts.at_zero _ es) hc (Nat.zero_le m) ?_ (.init h₀)
      intro k e d d' _ _ he hd hcounts hs
      cases e with
      | iget e => exact hcounts.iget (hexact k d e hd he) hs
      | evict nodeid => exact hcounts.evict hs
    refine ⟨fun m c e hc he => ?_, fun m c nodeid hc => (hcounts m c hc).calls nodeid⟩
    obtain ⟨d, hd⟩ := Lts.exists_at h (m + 1)
    exact (hcounts m c hc).pristine (hexact m c e hc he) (hc.step hd he)
  · rintro ⟨hpristine, hlt⟩
    have hexact : ∀ m c e, lookup.At s₀ es m c → es[m]? = some (.iget e) → c.Counts →
        c.Exact e := fun m c e hc he hcounts =>
      hcounts.exact (hpristine m c e hc he) fun s' hs =>
        hlt (m + 1) s' e.nodeid (hc.next he hs)
    intro m c e hc he
    refine hexact m c e hc he ?_
    refine Lts.At.segment h (Lts.at_zero _ es) hc (Nat.zero_le m) ?_ (.init h₀)
    intro k e d d' _ _ hek hd hcounts hs
    cases e with
    | iget e => exact hcounts.iget (hexact k d e hd hek hcounts) hs
    | evict nodeid => exact hcounts.evict hs

theorem calls_le_length {s₀ s : Lookup} {es : List LookupEvent} (h₀ : lookup.init s₀)
    (h : lookup.run s₀ es = some s) (nodeid : UInt64) : s.calls nodeid ≤ es.length := by
  refine (Lts.run_history (P := fun es c => c.sb.sFsInfo ≠ none ∧
    ∀ nodeid, c.calls nodeid ≤ es.length) ?_ ?_ h).2 nodeid
  · obtain ⟨hconn, -, -, hcalls⟩ := h₀
    exact ⟨hconn, fun nodeid => by simp [hcalls]⟩
  · rintro es c e d - ⟨hconn, hle⟩ hs
    rw [List.length_append, List.length_singleton]
    have hupdate : ∀ (id : UInt64) (n : ℕ), n ≤ es.length + 1 → ∀ nodeid,
        Function.update c.calls id n nodeid ≤ es.length + 1 := by
      intro id n hn nodeid
      by_cases heq : nodeid = id
      · rw [heq, Function.update_self]
        exact hn
      · rw [Function.update_of_ne heq]
        exact Nat.le_succ_of_le (hle nodeid)
    cases e with
    | evict id =>
        simp only [lookup, Lookup.step] at hs
        cases hc : c.cached id with
        | none => simp [hc] at hs
        | some inode =>
            rw [hc] at hs
            cases hs
            exact ⟨hconn, fun nodeid => Nat.le_succ_of_le (hle nodeid)⟩
    | iget e =>
        rcases Lookup.step_iget_cases hconn hs with ⟨inode, -, -, rfl⟩ | ⟨-, -, -, rfl⟩ |
          ⟨object, inode, -, -, -, -, -, rfl⟩
        · exact ⟨hconn, hupdate e.nodeid _ (Nat.succ_le_succ (hle e.nodeid))⟩
        · exact ⟨hconn, fun nodeid => Nat.le_succ_of_le (hle nodeid)⟩
        · exact ⟨hconn, hupdate e.nodeid 1 (Nat.succ_le_succ (Nat.zero_le _))⟩

/-- A superblock with a connection. -/
def mountedSb : SuperBlock :=
  { sFlags := 0, sBdev := false, sFsInfo := some 8, sBdi := none, sDev := 0, sBlocksize := 4096
    sBlocksizeBits := 12, sMagic := 0xEFF10, sMaxbytes := 0, sTimeGran := 1, sOp := true
    sDOp := none, inodes := [] }

def lookupInit : Lookup := { sb := mountedSb, slab := [], calls := fun _ => 0 }

/-- New memory that holds zeros. -/
def zeroedInode : TuseInode :=
  { nodeid := 0, nlookup := 0, origIno := 0, iMode := 0, iSize := 0, iFlags := 0
    iGeneration := 0, iNew := false, iOp := false, iFop := false }

/-- The attributes of a regular file. -/
def regAttr : TuseAttr := { ino := 5, size := 0, mode := sIfreg, nlink := 1 }

/-- An inode is looked up when it is new and once more. -/
def twoLookups : List LookupEvent :=
  [.iget ⟨.fresh zeroedInode, 5, 0, regAttr⟩, .iget ⟨.noMemory, 5, 0, regAttr⟩]

theorem lookupsExact_twoLookups : ∃ s, lookup.run lookupInit twoLookups = some s ∧
    s.calls 5 = 2 ∧ ∀ m c e, lookup.At lookupInit twoLookups m c →
      twoLookups[m]? = some (.iget e) → c.Exact e := by
  obtain ⟨s, hs, hcalls⟩ : ∃ s, lookup.run lookupInit twoLookups = some s ∧ s.calls 5 = 2 :=
    ⟨_, rfl, by decide⟩
  have hinit : lookup.init lookupInit := ⟨by decide, rfl, rfl, rfl⟩
  refine ⟨s, hs, hcalls, (lookupsExact_iff hinit hs).mpr ⟨?_, ?_⟩⟩
  · rintro m c e - he -
    rcases m with _ | _ | m <;> cases he
    · rfl
    · trivial
  · intro m c nodeid hc
    have hle := calls_le_length hinit hc nodeid
    have htake : (twoLookups.take m).length ≤ 2 := List.length_take_le' ..
    omega

/-- An inode is evicted, and its object handed out for another one. -/
theorem freed_object_counts : ∃ c sb inode s', lookup.run lookupInit
    [.iget ⟨.fresh zeroedInode, 5, 0, regAttr⟩, .evict 5] = some c ∧
    c.iget ⟨.freed 0, 7, 0, regAttr⟩ = .ok (some (sb, inode)) ∧
    c.step (.iget ⟨.freed 0, 7, 0, regAttr⟩) = some s' ∧
    inode.nlookup = 2 ∧ s'.calls 7 = 1 ∧ ¬ c.Exact ⟨.freed 0, 7, 0, regAttr⟩ := by
  refine ⟨_, _, _, _, rfl, rfl, rfl, by decide, by decide, fun h => ?_⟩
  obtain ⟨-, hcount⟩ := h _ _ _ rfl rfl
  exact absurd hcount (by decide)

end KernelMemo.Mount
