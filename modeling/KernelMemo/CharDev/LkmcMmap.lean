import KernelMemo.Lib.TransitionSystem
import Mathlib.Data.Nat.Notation
import Mathlib.Logic.Function.Basic

/-! # The `lkmc_mmap` file

`old/vmm.c`: a file with one page, which its handlers and its mappings share.

* **Pointers.**  A file has the address of its `mmap_info`, which has the number of its page; a
  mapping has the address of the `mmap_info` and the pages that faults have put into its slots.
* **Memory.**  `kmalloc` and `get_zeroed_page` hand out what is not in use.  When one of them
  fails, `open` goes through `NULL` and its caller dies; no file is open then.
* **Mappings.**  A store goes to a slot that a fault has filled.  User copies succeed. -/

namespace KernelMemo.LkmcMmap

/-- `BUFFER_SIZE` -/
def bufferSize : UInt64 := 4

/-- `PAGE_SIZE` -/
def pageSize : ℕ := 4096

/-- The contents of a page, by offset. -/
abbrev Page := ℕ → UInt8

/-- `struct vm_area_struct`: its file, its `vm_private_data`, and the page behind each slot. -/
structure Vma where
  vmFile : ℕ
  vmPrivateData : ℕ
  ptes : ℕ → Option ℕ

/-- The files with their `private_data`, the objects of type `mmap_info` with their `data`, the
pages, and the mappings. -/
structure State where
  files : ℕ → Option ℕ
  infos : ℕ → Option ℕ
  pages : ℕ → Option Page
  vmas : ℕ → Option Vma

/-- Nothing is open. -/
def blank : State := ⟨fun _ => none, fun _ => none, fun _ => none, fun _ => none⟩

/-- The page after a copy of `k` bytes to its start. -/
def copyToPage (page : Page) (user : ℕ → UInt8) (k : ℕ) : Page :=
  fun i => if i < k then user i else page i

/-- `"asdf"` -/
def asdf : ℕ → UInt8 := fun i => [0x61, 0x73, 0x64, 0x66].getD i 0

/-- A zeroed page after the `memcpy` of `open`. -/
def newPage : Page := copyToPage (fun _ => 0) asdf bufferSize.toNat

inductive Event where
  /-- `open` of the file `f`, with the addresses of the `mmap_info` and the page -/
  | open (f : ℕ) (mem : Option (ℕ × ℕ))
  | mmap (f v : ℕ)
  /-- `vm_fault` on a slot of a mapping -/
  | fault (v slot : ℕ)
  /-- a store of the user at an offset of a mapping -/
  | store (v offset : ℕ) (b : UInt8)
  | read (f : ℕ) (len : UInt64)
  | write (f : ℕ) (len : UInt64) (user : ℕ → UInt8)

/-- The page of an open file. -/
def State.pageOf (s : State) (f : ℕ) : Option ℕ := (s.files f).bind s.infos

/-- `open` -/
def lkmcOpen (s : State) (f : ℕ) : Option (ℕ × ℕ) → Option State
  | some (info, page) =>
      if s.files f = none ∧ s.infos info = none ∧ s.pages page = none then
        some { s with
          files := Function.update s.files f (some info)
          infos := Function.update s.infos info (some page)
          pages := Function.update s.pages page (some newPage) }
      else none
  | none => some s

/-- `mmap` -/
def lkmcMmap (s : State) (f v : ℕ) : Option State :=
  if s.vmas v = none then
    (s.files f).map fun info =>
      { s with vmas := Function.update s.vmas v (some ⟨f, info, fun _ => none⟩) }
  else none

/-- `vm_fault` -/
def vmFault (s : State) (v slot : ℕ) : Option State :=
  (s.vmas v).map fun vma =>
    match s.infos vma.vmPrivateData with
    | some page =>
        let vma := { vma with ptes := Function.update vma.ptes slot (some page) }
        { s with vmas := Function.update s.vmas v (some vma) }
    | none => s

/-- A store of the user. -/
def userStore (s : State) (v offset : ℕ) (b : UInt8) : Option State :=
  (s.vmas v).bind fun vma => (vma.ptes (offset / pageSize)).bind fun page =>
    (s.pages page).map fun data =>
      let data := Function.update data (offset % pageSize) b
      { s with pages := Function.update s.pages page (some data) }

/-- `read` of a page: the bytes that the user gets and the result. -/
def lkmcRead (data : Page) (len : UInt64) : List UInt8 × Int64 :=
  let ret := min len bufferSize
  ((List.range ret.toNat).map data, ret.toInt64)

/-- `write` to a page: the page after it and the result. -/
def lkmcWrite (data : Page) (len : UInt64) (user : ℕ → UInt8) : Page × Int64 :=
  (copyToPage data user (min len bufferSize).toNat, len.toInt64)

/-- One step. -/
def State.step (s : State) : Event → Option State
  | .open f mem => lkmcOpen s f mem
  | .mmap f v => lkmcMmap s f v
  | .fault v slot => vmFault s v slot
  | .store v offset b => userStore s v offset b
  | .read f _ => (s.pageOf f).map fun _ => s
  | .write f len user =>
      (s.pageOf f).bind fun page => (s.pages page).map fun data =>
        { s with pages := Function.update s.pages page (some (lkmcWrite data len user).1) }

def lkmc : Lts State Event where
  init s := s = blank
  step := State.step

/-- The file that an event is about. -/
def Event.file (s : State) : Event → Option ℕ
  | .open f _ => some f
  | .mmap f _ => some f
  | .fault v _ => (s.vmas v).map Vma.vmFile
  | .store v _ _ => (s.vmas v).map Vma.vmFile
  | .read f _ => some f
  | .write f _ _ => some f

/-! ### The pages of the files -/

/-- Every object has its own page, every file its own object, and every mapping what its file
has. -/
structure Inv (s : State) : Prop where
  file : ∀ f info, s.files f = some info → (s.infos info).isSome
  file_inj : ∀ f f' info, s.files f = some info → s.files f' = some info → f = f'
  page : ∀ info page, s.infos info = some page → (s.pages page).isSome
  page_inj : ∀ info info' page, s.infos info = some page → s.infos info' = some page → info = info'
  vma : ∀ v vma, s.vmas v = some vma → s.files vma.vmFile = some vma.vmPrivateData ∧
    ∀ slot page, vma.ptes slot = some page → s.infos vma.vmPrivateData = some page

theorem inv_blank : Inv blank := by
  constructor <;> intros <;> contradiction

variable {s s' : State}

theorem Inv.pages (h : Inv s) {pages : ℕ → Option Page}
    (hpages : ∀ p, (s.pages p).isSome → (pages p).isSome) : Inv { s with pages := pages } :=
  { h with page := fun info page hp => hpages page (h.page info page hp) }

theorem isSome_update {pages : ℕ → Option Page} {page : ℕ} (data : Page) (p : ℕ)
    (hp : (pages p).isSome) : (Function.update pages page (some data) p).isSome := by
  by_cases hpp : p = page
  · rw [hpp, Function.update_self]
    rfl
  · rwa [Function.update_of_ne hpp]

theorem update_inj {f : ℕ → Option ℕ} (hf : ∀ x y c, f x = some c → f y = some c → x = y)
    {a b : ℕ} (hb : ∀ x, f x ≠ some b) (x y c : ℕ) (hx : Function.update f a (some b) x = some c)
    (hy : Function.update f a (some b) y = some c) : x = y := by
  by_cases hxa : x = a <;> by_cases hya : y = a
  · rw [hxa, hya]
  · rw [hxa, Function.update_self] at hx
    rw [Function.update_of_ne hya, ← hx] at hy
    exact absurd hy (hb y)
  · rw [hya, Function.update_self] at hy
    rw [Function.update_of_ne hxa, ← hy] at hx
    exact absurd hx (hb x)
  · rw [Function.update_of_ne hxa] at hx
    rw [Function.update_of_ne hya] at hy
    exact hf x y c hx hy

theorem lkmcOpen_eq_some {f info page : ℕ} (hs : lkmcOpen s f (some (info, page)) = some s') :
    s.files f = none ∧ s.infos info = none ∧ s.pages page = none ∧ s' = { s with
      files := Function.update s.files f (some info)
      infos := Function.update s.infos info (some page)
      pages := Function.update s.pages page (some newPage) } := by
  simp only [lkmcOpen] at hs
  split_ifs at hs with h
  exact ⟨h.1, h.2.1, h.2.2, (Option.some.inj hs).symm⟩

theorem Inv.ne_fresh (h : Inv s) {info page i p : ℕ} (hinfo : s.infos info = none)
    (hpage : s.pages page = none) (hi : s.infos i = some p) : i ≠ info ∧ p ≠ page := by
  constructor
  · rintro rfl
    rw [hinfo] at hi
    cases hi
  · rintro rfl
    have := h.page i p hi
    rw [hpage] at this
    cases this

theorem Inv.open (h : Inv s) {f info page : ℕ}
    (hs : lkmcOpen s f (some (info, page)) = some s') : Inv s' := by
  obtain ⟨hf, hinfo, hpage, rfl⟩ := lkmcOpen_eq_some hs
  have hold {g i : ℕ} (hg : s.files g = some i) : i ≠ info := by
    rintro rfl
    have := h.file g i hg
    rw [hinfo] at this
    cases this
  have hoccupied {i p : ℕ} (hi : s.infos i = some p) : i ≠ info ∧ p ≠ page :=
    h.ne_fresh hinfo hpage hi
  constructor
  · intro g i hg
    by_cases hi : i = info
    · simp only [hi, Function.update_self, Option.isSome_some]
    · by_cases hgf : g = f
      · simp only [hgf, Function.update_self, Option.some.injEq] at hg
        exact absurd hg.symm hi
      · simp only [Function.update_of_ne hgf] at hg
        simp only [Function.update_of_ne hi, h.file g i hg]
  · intro g g' i hg hg'
    exact update_inj h.file_inj (fun x hx => hold hx rfl) g g' i hg hg'
  · intro i p hi
    by_cases hii : i = info
    · simp only [hii, Function.update_self, Option.some.injEq] at hi
      simp only [hi, Function.update_self, Option.isSome_some]
    · simp only [Function.update_of_ne hii] at hi
      exact isSome_update newPage p (h.page i p hi)
  · intro i i' p hi hi'
    exact update_inj h.page_inj (fun x hx => (hoccupied hx).2 rfl) i i' p hi hi'
  · intro v vma hv
    obtain ⟨hfile, hptes⟩ := h.vma v vma hv
    have hne : vma.vmFile ≠ f := by
      intro hff
      rw [hff, hf] at hfile
      cases hfile
    refine ⟨by simp only [Function.update_of_ne hne, hfile], fun slot p hp => ?_⟩
    simp only [Function.update_of_ne (hold hfile), hptes slot p hp]

theorem Inv.mmap (h : Inv s) {f v : ℕ} (hs : lkmcMmap s f v = some s') : Inv s' := by
  simp only [lkmcMmap] at hs
  split_ifs at hs
  obtain ⟨info, hf, rfl⟩ := Option.map_eq_some_iff.mp hs
  refine { h with vma := fun w vma hw => ?_ }
  by_cases hwv : w = v
  · simp only [hwv, Function.update_self, Option.some.injEq] at hw
    subst hw
    exact ⟨hf, fun slot page hp => by cases hp⟩
  · simp only [Function.update_of_ne hwv] at hw
    exact h.vma w vma hw

theorem Inv.fault (h : Inv s) {v slot : ℕ} (hs : vmFault s v slot = some s') : Inv s' := by
  obtain ⟨vma, hv, hs⟩ := Option.map_eq_some_iff.mp hs
  obtain ⟨hfile, hptes⟩ := h.vma v vma hv
  cases hinfo : s.infos vma.vmPrivateData with
  | none =>
      rw [hinfo] at hs
      exact hs ▸ h
  | some page =>
      rw [hinfo] at hs
      subst hs
      refine { h with vma := fun w vma' hw => ?_ }
      by_cases hwv : w = v
      · simp only [hwv, Function.update_self, Option.some.injEq] at hw
        subst hw
        refine ⟨hfile, fun slot' p hp => ?_⟩
        by_cases hslot : slot' = slot
        · simp only [hslot, Function.update_self, Option.some.injEq] at hp
          exact hp ▸ hinfo
        · simp only [Function.update_of_ne hslot] at hp
          exact hptes slot' p hp
      · simp only [Function.update_of_ne hwv] at hw
        exact h.vma w vma' hw

theorem userStore_eq_some (h : Inv s) {v offset : ℕ} {b : UInt8}
    (hs : userStore s v offset b = some s') : ∃ vma page data, s.vmas v = some vma ∧
      s.pageOf vma.vmFile = some page ∧ s.pages page = some data ∧ s' = { s with
        pages := Function.update s.pages page
          (some (Function.update data (offset % pageSize) b)) } := by
  obtain ⟨vma, hv, hs⟩ := Option.bind_eq_some_iff.mp hs
  obtain ⟨page, hp, hs⟩ := Option.bind_eq_some_iff.mp hs
  obtain ⟨data, hdata, rfl⟩ := Option.map_eq_some_iff.mp hs
  obtain ⟨hfile, hptes⟩ := h.vma v vma hv
  refine ⟨vma, page, data, hv, ?_, hdata, rfl⟩
  rw [State.pageOf, hfile, Option.bind_some]
  exact hptes _ _ hp

theorem write_eq_some {f : ℕ} {len : UInt64} {user : ℕ → UInt8}
    (hs : s.step (.write f len user) = some s') : ∃ page data, s.pageOf f = some page ∧
      s.pages page = some data ∧ s' = { s with
        pages := Function.update s.pages page (some (lkmcWrite data len user).1) } := by
  obtain ⟨page, hp, hs⟩ := Option.bind_eq_some_iff.mp hs
  obtain ⟨data, hdata, rfl⟩ := Option.map_eq_some_iff.mp hs
  exact ⟨page, data, hp, hdata, rfl⟩

theorem Inv.step (h : Inv s) {e : Event} (hs : s.step e = some s') : Inv s' := by
  cases e with
  | «open» f mem =>
      cases mem with
      | none =>
          cases hs
          exact h
      | some mem => exact h.open hs
  | mmap f v => exact h.mmap hs
  | fault v slot => exact h.fault hs
  | store v offset b =>
      obtain ⟨vma, page, data, -, -, -, rfl⟩ := userStore_eq_some h hs
      exact h.pages fun p hp => isSome_update _ p hp
  | read f len =>
      obtain ⟨page, -, rfl⟩ := Option.map_eq_some_iff.mp hs
      exact h
  | write f len user =>
      obtain ⟨page, data, -, -, rfl⟩ := write_eq_some hs
      exact h.pages fun p hp => isSome_update _ p hp

theorem Inv.pageOf_inj (h : Inv s) {f f' page : ℕ} (hf : s.pageOf f = some page)
    (hf' : s.pageOf f' = some page) : f = f' := by
  obtain ⟨info, hfile, hinfo⟩ := Option.bind_eq_some_iff.mp hf
  obtain ⟨info', hfile', hinfo'⟩ := Option.bind_eq_some_iff.mp hf'
  have heq : info = info' := h.page_inj info info' page hinfo hinfo'
  rw [← heq] at hfile'
  exact h.file_inj f f' info hfile hfile'

theorem Inv.pages_update (h : Inv s) {f g page p : ℕ} (hf : s.pageOf f = some page)
    (hg : s.pageOf g = some p) (hne : f ≠ g) (data : Option Page) :
    Function.update s.pages page data p = s.pages p := by
  refine Function.update_of_ne ?_ _ _
  rintro rfl
  exact hne (h.pageOf_inj hf hg)

/-- A step leaves the page of a file that it is not about. -/
theorem Inv.frame (h : Inv s) {e : Event} (hs : s.step e = some s') {g p : ℕ}
    (he : e.file s ≠ some g) (hg : s.pageOf g = some p) :
    s'.pageOf g = some p ∧ s'.pages p = s.pages p := by
  obtain ⟨i, hfile, hinfo⟩ := Option.bind_eq_some_iff.mp hg
  cases e with
  | «open» f mem =>
      cases mem with
      | none =>
          cases hs
          exact ⟨hg, rfl⟩
      | some mem =>
          obtain ⟨hf, hi, hp, rfl⟩ := lkmcOpen_eq_some hs
          have hgf : g ≠ f := fun hgf => he (by rw [Event.file, hgf])
          obtain ⟨hne, hpp⟩ := h.ne_fresh hi hp hinfo
          refine ⟨?_, Function.update_of_ne hpp _ _⟩
          simp only [State.pageOf, Function.update_of_ne hgf, hfile, Option.bind_some,
            Function.update_of_ne hne, hinfo]
  | mmap f v =>
      simp only [State.step, lkmcMmap] at hs
      split_ifs at hs
      obtain ⟨info, -, rfl⟩ := Option.map_eq_some_iff.mp hs
      exact ⟨hg, rfl⟩
  | fault v slot =>
      obtain ⟨vma, -, hs⟩ := Option.map_eq_some_iff.mp hs
      subst hs
      split <;> exact ⟨hg, rfl⟩
  | store v offset b =>
      obtain ⟨vma, page, data, hv, hpage, -, rfl⟩ := userStore_eq_some h hs
      have hne : vma.vmFile ≠ g := fun hvg => he (by rw [Event.file, hv, Option.map_some, hvg])
      exact ⟨hg, h.pages_update hpage hg hne _⟩
  | read f len =>
      obtain ⟨page, -, rfl⟩ := Option.map_eq_some_iff.mp hs
      exact ⟨hg, rfl⟩
  | write f len user =>
      obtain ⟨page, data, hpage, -, rfl⟩ := write_eq_some hs
      have hne : f ≠ g := fun hfg => he (by rw [Event.file, hfg])
      exact ⟨hg, h.pages_update hpage hg hne _⟩

/-! ### Runs -/

/-- The law of the files along a run. -/
structure Coherent (es : List Event) : Prop where
  /-- The slots of a mapping have the page that the handlers of its file use. -/
  mapping : ∀ m c v vma slot page, lkmc.At blank es m c → c.vmas v = some vma →
    vma.ptes slot = some page → c.pageOf vma.vmFile = some page
  /-- A store through a mapping changes the byte at its offset. -/
  store : ∀ m c c' v vma page data offset b, lkmc.At blank es m c →
    es[m]? = some (.store v offset b) → c.step (.store v offset b) = some c' →
    c.vmas v = some vma → c.pageOf vma.vmFile = some page → c.pages page = some data →
    c'.pages page = some (Function.update data (offset % pageSize) b)
  /-- `write` changes the first bytes of the page, and returns how many. -/
  write : ∀ m c c' f len user page data, lkmc.At blank es m c →
    es[m]? = some (.write f len user) → c.step (.write f len user) = some c' →
    c.pageOf f = some page → c.pages page = some data →
    c'.pages page = some (copyToPage data user (min len bufferSize).toNat) ∧
      (lkmcWrite data len user).2 = (min len bufferSize).toInt64
  /-- `read` returns the first bytes of the page, and how many. -/
  read : ∀ m c f len page data, lkmc.At blank es m c → es[m]? = some (.read f len) →
    c.pageOf f = some page → c.pages page = some data →
    lkmcRead data len = ((List.range (min len bufferSize).toNat).map data,
      (min len bufferSize).toInt64)
  /-- The page of a file stays as it is when something else happens. -/
  frame : ∀ m c c' e g page, lkmc.At blank es m c → es[m]? = some e → c.step e = some c' →
    e.file c ≠ some g → c.pageOf g = some page →
    c'.pageOf g = some page ∧ c'.pages page = c.pages page

theorem inv_of_at {es : List Event} {m : ℕ} {c : State} (hc : lkmc.At blank es m c) : Inv c :=
  Lts.run_invariant (E := fun _ => True) (fun _ _ _ _ h hs => h.step hs) (fun _ _ => trivial) hc
    inv_blank

/-- The result of `write` is the number of bytes stored as long as they fit. -/
theorem lkmcWrite_ret_iff (data : Page) (len : UInt64) (user : ℕ → UInt8) :
    (lkmcWrite data len user).2 = (min len bufferSize).toInt64 ↔ len ≤ bufferSize := by
  have hmin : min len bufferSize = if len ≤ bufferSize then len else bufferSize := rfl
  rw [lkmcWrite, hmin]
  constructor
  · intro h
    have hlen := congrArg Int64.toUInt64 h
    rw [UInt64.toUInt64_toInt64, UInt64.toUInt64_toInt64] at hlen
    split_ifs at hlen with hle
    · exact hle
    · exact hlen ▸ UInt64.le_refl _
  · intro h
    rw [if_pos h]

/-- **One page for every file.**  A run follows the law if and only if no `write` asks for more
than the buffer. -/
theorem coherent_iff {es : List Event} {s : State} (hrun : lkmc.run blank es = some s) :
    Coherent es ↔ ∀ f len user, .write f len user ∈ es → len ≤ bufferSize := by
  constructor
  · intro h f len user he
    obtain ⟨m, hm⟩ := List.mem_iff_getElem?.mp he
    obtain ⟨c, hc⟩ := Lts.exists_at hrun m
    obtain ⟨c', hc'⟩ := Lts.exists_at hrun (m + 1)
    have hs : c.step (.write f len user) = some c' := hc.step hc' hm
    obtain ⟨page, data, hpage, hdata, -⟩ := write_eq_some hs
    have hret := (h.write m c c' f len user page data hc hm hs hpage hdata).2
    exact (lkmcWrite_ret_iff data len user).mp hret
  · intro hlen
    refine ⟨?_, ?_, ?_, fun m c f len page data _ _ _ _ => rfl,
      fun m c c' e g page hc _ hs => (inv_of_at hc).frame hs⟩
    · intro m c v vma slot page hc hv hslot
      obtain ⟨hfile, hptes⟩ := (inv_of_at hc).vma v vma hv
      rw [State.pageOf, hfile, Option.bind_some, hptes slot page hslot]
    · intro m c c' v vma page data offset b hc _ hs hv hpage hdata
      obtain ⟨vma', page', data', hv', hpage', hdata', rfl⟩ :=
        userStore_eq_some (inv_of_at hc) hs
      rw [hv] at hv'
      cases hv'
      rw [hpage] at hpage'
      cases hpage'
      rw [hdata] at hdata'
      cases hdata'
      exact Function.update_self _ _ _
    · intro m c c' f len user page data hc he hs hpage hdata
      obtain ⟨page', data', hpage', hdata', rfl⟩ := write_eq_some hs
      rw [hpage] at hpage'
      cases hpage'
      rw [hdata] at hdata'
      cases hdata'
      exact ⟨Function.update_self _ _ _,
        (lkmcWrite_ret_iff data len user).mpr (hlen f len user (List.mem_of_getElem? he))⟩

/-- Two mappings of a file, a store through one of them and a `write`, next to another file. -/
theorem coherent_twoFiles : Coherent
    [.open 0 (some (10, 20)), .open 1 (some (11, 21)), .mmap 0 0, .mmap 0 1, .fault 0 0,
      .fault 1 0, .store 0 1 0x77, .write 0 4 (fun _ => 0x7a), .read 1 9] := by
  refine (coherent_iff rfl).mpr fun f len user he => ?_
  simp only [List.mem_cons, List.not_mem_nil, or_false, reduceCtorEq, false_or,
    Event.write.injEq] at he
  rw [he.2.1]
  decide

/-- Eight bytes are written: four are stored, and eight returned. -/
theorem coherent_longWrite :
    (lkmcWrite newPage 8 fun _ => 0x7a).2 = 8 ∧
      ¬ Coherent [.open 0 (some (10, 20)), .write 0 8 fun _ => 0x7a] := by
  refine ⟨rfl, fun h => ?_⟩
  have hret := (h.write 1 _ _ 0 8 _ 20 newPage rfl rfl rfl rfl rfl).2
  exact absurd hret (by decide)

end KernelMemo.LkmcMmap
