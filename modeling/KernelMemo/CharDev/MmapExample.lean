import KernelMemo.Lib.Heap
import KernelMemo.Lib.TransitionSystem

/-! # The `mmap_example` and `gread` files

`old/mma.c` and `old/gread.c`: every open file has an object and a page with a greeting.

* **Two drivers.**  The opens and the releases of both are the same; `mmap_example` has a read
  and an `mmap` of its own, `gread` reads with `generic_file_read_iter`, which touches neither
  the objects nor the pages.
* **Memory.**  Allocations succeed.  Objects and pages have names which are not used again;
  `data` of an object is `none` as long as nothing has been written to it.
* **Mappings.**  A mapping keeps its file open.  Every slot of it gets the page of the file.
* **Leaks.**  The object that a handler allocates first is overwritten or forgotten
  (`accounted_of_run`); the pages and the objects with a page are those of the open files. -/

namespace KernelMemo.MmapExample

/-! ### The files -/

/-- `PAGE_SIZE` -/
def pageSize : ℕ := 4096

/-- The contents of a page, by offset. -/
abbrev Page := ℕ → UInt8

/-- `d_name.name`, which is no longer than `NAME_MAX` -/
structure DName where
  bytes : List UInt8
  noNul : 0 ∉ bytes
  short : bytes.length ≤ 255

/-- `struct vm_area_struct`: its `vm_private_data`, and the page behind each slot. -/
structure Vma where
  vmPrivateData : ℕ
  ptes : ℕ → Option ℕ

/-- An open file, with its mappings. -/
structure File where
  dName : DName
  privateData : Option ℕ
  vmas : List Vma

/-- The files, the objects of type `mmap_info` or `this_data` with their `data`, and the pages. -/
structure State where
  files : ℕ → Option File
  infos : Heap (Option ℕ)
  pages : Heap Page

/-- Nothing is open. -/
def blank : State where
  files _ := none
  infos := ⟨fun _ => .unborn, fun _ => none⟩
  pages := ⟨fun _ => .unborn, fun _ _ => 0⟩

/-- `"hello from kernel this is file: "` -/
def hello : List UInt8 :=
  [0x68, 0x65, 0x6c, 0x6c, 0x6f, 0x20, 0x66, 0x72, 0x6f, 0x6d, 0x20, 0x6b, 0x65, 0x72, 0x6e, 0x65,
    0x6c, 0x20, 0x74, 0x68, 0x69, 0x73, 0x20, 0x69, 0x73, 0x20, 0x66, 0x69, 0x6c, 0x65, 0x3a, 0x20]

/-- A zeroed page after both `memcpy`s. -/
def newPage (name : DName) : Page := fun i => (hello ++ name.bytes).getD i 0

/-- The results of the two calls of `kmalloc` and of `get_zeroed_page`. -/
structure Mem where
  first : ℕ
  second : ℕ
  page : ℕ

/-- The body of `if (!fp->private_data)`. -/
def State.newInfo (s : State) (f : ℕ) (file : File) (m : Mem) : Option State :=
  (s.infos.alloc m.second none).bind fun infos =>
    (s.pages.alloc m.page fun _ => 0).map fun pages =>
      { files := Function.update s.files f (some { file with privateData := some m.second })
        infos := infos.write m.second (some m.page)
        pages := pages.write m.page (newPage file.dName) }

/-- What `mmapfop_open`, `gopen` and `t_read` do first. -/
def State.getInfo (s : State) (f : ℕ) (file : File) (m : Mem) : Option State :=
  (s.infos.alloc m.first none).bind fun infos =>
    match file.privateData with
    | none => { s with infos := infos }.newInfo f file m
    | some _ => some { s with infos := infos }

/-- `mmapfop_open` -/
def mmapfopOpen (s : State) (f : ℕ) (file : File) (m : Mem) : Option State := s.getInfo f file m

/-- `gopen` -/
def gopen (s : State) (f : ℕ) (file : File) (m : Mem) : Option State := s.getInfo f file m

/-- `free_page(info->data)`, `kfree(info)` -/
def State.putInfo (s : State) (f : ℕ) (file : File) : Option State :=
  file.privateData.bind fun info => (s.infos.mem info).map fun page =>
    { files := Function.update s.files f none
      infos := s.infos.free info
      pages := s.pages.free page }

/-- `mmapfop_close` -/
def mmapfopClose (s : State) (f : ℕ) (file : File) : Option State := s.putInfo f file

/-- `gclose` -/
def gclose (s : State) (f : ℕ) (file : File) : Option State := s.putInfo f file

/-- `my_mmap` -/
def myMmap (s : State) (f : ℕ) (file : File) : Option State :=
  file.privateData.map fun info =>
    let vma : Vma := { vmPrivateData := info, ptes := fun _ => none }
    { s with files := Function.update s.files f (some { file with vmas := file.vmas ++ [vma] }) }

/-- `mmap_fault` on a slot of the mapping `v` -/
def mmapFault (s : State) (f : ℕ) (file : File) (v slot : ℕ) : Option State :=
  file.vmas[v]?.bind fun vma => (s.infos.mem vma.vmPrivateData).map fun page =>
    let vma := { vma with ptes := Function.update vma.ptes slot (some page) }
    { s with files := Function.update s.files f (some { file with vmas := file.vmas.set v vma }) }

/-- A store of the user at an offset of the mapping `v`. -/
def userStore (s : State) (file : File) (v offset : ℕ) (b : UInt8) : Option State :=
  file.vmas[v]?.bind fun vma => (vma.ptes (offset / pageSize)).map fun page =>
    { s with
      pages := s.pages.write page (Function.update (s.pages.mem page) (offset % pageSize) b) }

/-- `munmap` of the mapping `v` -/
def munmap (s : State) (f : ℕ) (file : File) (v : ℕ) : State :=
  { s with files := Function.update s.files f (some { file with vmas := file.vmas.eraseIdx v }) }

/-! ### The drivers -/

inductive Driver
  | mmapExample
  | gread
deriving DecidableEq

inductive Event where
  /-- the `open` of a file that is not open -/
  | open (f : ℕ) (name : DName) (m : Mem)
  /-- a `read` of `len` bytes; what is behind the page, and where `copy_to_user` stops -/
  | read (f len : ℕ) (m : Mem) (behind : List UInt8) (fault : Option ℕ)
  | release (f : ℕ)
  | mmap (f : ℕ)
  | fault (f v slot : ℕ)
  | store (f v offset : ℕ) (b : UInt8)
  | munmap (f v : ℕ)

/-- The handler of `open`. -/
def Driver.open : Driver → State → ℕ → File → Mem → Option State
  | mmapExample => mmapfopOpen
  | gread => gopen

/-- The handler of `release`. -/
def Driver.release : Driver → State → ℕ → File → Option State
  | mmapExample => mmapfopClose
  | gread => gclose

/-- The handler of `read`, as far as the objects and the pages are concerned. -/
def Driver.read : Driver → State → ℕ → File → Mem → Option State
  | mmapExample => State.getInfo
  | gread => fun s _ _ _ => some s

/-- The handler of `mmap`. -/
def Driver.mmap : Driver → State → ℕ → File → Option State
  | mmapExample => myMmap
  | gread => fun _ _ _ => none

/-- One step. A file is released when it has no mapping. -/
def State.step (d : Driver) (s : State) : Event → Option State
  | .open f name m =>
      match s.files f with
      | none => d.open s f { dName := name, privateData := none, vmas := [] } m
      | some _ => none
  | .read f _ m _ _ => (s.files f).bind fun file => d.read s f file m
  | .release f =>
      (s.files f).bind fun file => if file.vmas.isEmpty then d.release s f file else none
  | .mmap f => (s.files f).bind fun file => d.mmap s f file
  | .fault f v slot => (s.files f).bind fun file => mmapFault s f file v slot
  | .store f v offset b => (s.files f).bind fun file => userStore s file v offset b
  | .munmap f v => (s.files f).map fun file => munmap s f file v

def driver (d : Driver) : Lts State Event where
  init s := s = blank
  step := State.step d

/-! ### Who has what -/

/-- The object of an open file. -/
def State.infoOf (s : State) (f : ℕ) : Option ℕ := (s.files f).bind File.privateData

/-- The page of an open file. -/
def State.pageOf (s : State) (f : ℕ) : Option ℕ := (s.infoOf f).bind s.infos.mem

/-- The objects are those of the open files, and so are the pages; every open file has both. -/
structure Matched (s : State) : Prop where
  infos : Ledger s.infoOf s.infos.Live
  pages : Ledger s.pageOf s.pages.Live
  file : ∀ f, (s.files f).isSome → (s.infoOf f).isSome ∧ (s.pageOf f).isSome

/-- What the files have, and what nobody has. -/
def State.owns (s : State) (lost : List ℕ) : ℕ ⊕ ℕ → Option ℕ :=
  Sum.elim s.infoOf fun info => if info ∈ lost then some info else none

/-- The objects are those of the open files and the lost ones; the pages are those of the open
files. -/
structure Accounted (lost : List ℕ) (s : State) : Prop where
  infos : Ledger (s.owns lost) s.infos.Live
  pages : Ledger s.pageOf s.pages.Live
  file : ∀ f, (s.files f).isSome → (s.pageOf f).isSome
  nodup : lost.Nodup

theorem accounted_blank : Accounted [] blank where
  infos := .empty (fun w => by cases w <;> rfl) fun _ ho => by cases ho
  pages := .empty (fun _ => rfl) fun _ ho => by cases ho
  file _ h := by cases h
  nodup := List.nodup_nil

variable {s s' : State} {lost : List ℕ}

theorem isSome_infoOf {f : ℕ} (h : (s.pageOf f).isSome) : (s.infoOf f).isSome := by
  rw [State.pageOf] at h
  cases hi : s.infoOf f with
  | none => rw [hi] at h; cases h
  | some info => rfl

/-- All is matched when nothing has been lost. -/
theorem Accounted.matched_iff_nil (h : Accounted lost s) : Matched s ↔ lost = [] := by
  constructor
  · intro hm
    refine List.eq_nil_iff_forall_not_mem.mpr fun info hinfo => ?_
    have hlost : s.owns lost (.inr info) = some info := if_pos hinfo
    obtain ⟨f, hf⟩ := hm.infos.owned (h.infos.live_of_owns hlost)
    have hfile : s.owns lost (.inl f) = some info := hf
    exact absurd (h.infos.unique hfile hlost) Sum.inl_ne_inr
  · rintro rfl
    refine ⟨⟨fun {f o} ho => h.infos.live_of_owns (w := .inl f) ho,
      fun {f g o} hf hg => Sum.inl.inj (h.infos.unique (w := .inl f) (z := .inl g) hf hg),
      fun {o} ho => ?_⟩, h.pages, fun f hf => ⟨isSome_infoOf (h.file f hf), h.file f hf⟩⟩
    obtain ⟨w, hw⟩ := h.infos.owned ho
    cases w with
    | inl f => exact ⟨f, hw⟩
    | inr info => simp [State.owns] at hw

/-! ### One step -/

theorem Accounted.same (h : Accounted lost s) (hinfo : ∀ f, s'.infoOf f = s.infoOf f)
    (hinfos : s'.infos = s.infos) (hlife : s'.pages.life = s.pages.life)
    (hfiles : ∀ f, (s'.files f).isSome → (s.files f).isSome) : Accounted lost s' := by
  have howns : s'.owns lost = s.owns lost := by
    funext w
    cases w with
    | inl f => exact hinfo f
    | inr info => rfl
  have hpage : s'.pageOf = s.pageOf := by
    funext f
    rw [State.pageOf, State.pageOf, hinfo, hinfos]
  have hlive : s'.pages.Live = s.pages.Live := by
    funext p
    rw [Heap.Live, Heap.Live, hlife]
  refine ⟨?_, ?_, fun f hf => ?_, h.nodup⟩
  · rw [howns, hinfos]
    exact h.infos
  · rw [hpage, hlive]
    exact h.pages
  · rw [hpage]
    exact h.file f (hfiles f hf)

theorem infoOf_update {f : ℕ} {file file' : File} (hf : s.files f = some file)
    (hdata : file'.privateData = file.privateData) (g : ℕ) :
    (Function.update s.files f (some file') g).bind File.privateData = s.infoOf g := by
  by_cases hg : g = f
  · rw [hg, Function.update_self, State.infoOf, hf, Option.bind_some, Option.bind_some, hdata]
  · rw [Function.update_of_ne hg, State.infoOf]

theorem isSome_update {f : ℕ} {file file' : File} (hf : s.files f = some file) (g : ℕ)
    (hg : (Function.update s.files f (some file') g).isSome) : (s.files g).isSome := by
  by_cases hgf : g = f
  · rw [hgf, hf]
    rfl
  · rwa [Function.update_of_ne hgf] at hg

theorem Accounted.vmas (h : Accounted lost s) {f : ℕ} {file file' : File}
    (hf : s.files f = some file) (hdata : file'.privateData = file.privateData) :
    Accounted lost { s with files := Function.update s.files f (some file') } :=
  h.same (infoOf_update hf hdata) rfl rfl (isSome_update hf)

theorem Accounted.ne_fresh (h : Accounted lost s) {f info : ℕ} (hf : s.infoOf f = some info) {a : ℕ}
    (ha : s.infos.life a = .unborn) : info ≠ a := by
  rintro rfl
  have hlive : s.infos.life info = .live := h.infos.live_of_owns (w := .inl f) hf
  rw [ha] at hlive
  cases hlive

theorem Accounted.lose (h : Accounted lost s) {a : ℕ} {infos : Heap (Option ℕ)}
    (ha : s.infos.alloc a none = some infos) :
    Accounted (lost ++ [a]) { s with infos := infos } := by
  have hunborn := Heap.alloc_unborn ha
  have hdead : ¬ s.infos.Live a := by simp [Heap.Live, hunborn]
  have hnew : a ∉ lost := fun hmem => hdead (h.infos.live_of_owns (w := .inr a) (if_pos hmem))
  have hpage : { s with infos := infos }.pageOf = s.pageOf := by
    funext f
    show (s.infoOf f).bind infos.mem = (s.infoOf f).bind s.infos.mem
    cases hf : s.infoOf f with
    | none => rfl
    | some info => exact Heap.alloc_mem_of_ne ha (h.ne_fresh hf hunborn)
  refine ⟨h.infos.acquire (w := .inr a) (if_neg hnew) hdead ?_ (Heap.alloc_live ha), ?_,
    fun f hf => ?_, ?_⟩
  · intro w
    cases w with
    | inl f => rfl
    | inr info =>
        by_cases hi : info = a
        · simp [State.owns, hi]
        · simp [State.owns, hi]
  · rw [hpage]
    exact h.pages
  · rw [hpage]
    exact h.file f hf
  · rw [List.nodup_append]
    refine ⟨h.nodup, List.pairwise_singleton _ a, fun b hb c hc => ?_⟩
    rw [List.mem_singleton.mp hc]
    exact fun hba => hnew (hba ▸ hb)

theorem Accounted.newInfo (h : Accounted lost s) {f : ℕ} {file : File} {m : Mem}
    (hf : s.infoOf f = none) (hs : s.newInfo f file m = some s') : Accounted lost s' := by
  simp only [State.newInfo, Option.bind_eq_some_iff, Option.map_eq_some_iff] at hs
  obtain ⟨infos, hi, pages, hp, rfl⟩ := hs
  have hunborn := Heap.alloc_unborn hi
  have hdead : ¬ s.infos.Live m.second := by simp [Heap.Live, hunborn]
  have hdead' : ¬ s.pages.Live m.page := by simp [Heap.Live, Heap.alloc_unborn hp]
  have hpage : s.pageOf f = none := by rw [State.pageOf, hf, Option.bind_none]
  have hold (g : ℕ) (hg : g ≠ f) : (s.infoOf g).bind (infos.write m.second (some m.page)).mem =
      s.pageOf g := by
    rw [State.pageOf]
    cases hgi : s.infoOf g with
    | none => rfl
    | some info =>
        have hne := h.ne_fresh hgi hunborn
        exact (Heap.write_mem_of_ne _ _ hne).trans (Heap.alloc_mem_of_ne hi hne)
  refine ⟨h.infos.acquire (w := .inl f) hf hdead (fun w => ?_) fun o => Heap.alloc_live hi o,
    h.pages.acquire hpage hdead' (fun g => ?_) fun o => Heap.alloc_live hp o, fun g hg => ?_,
    h.nodup⟩
  · cases w with
    | inl g =>
        by_cases hg : g = f
        · simp [State.owns, State.infoOf, hg]
        · simp [State.owns, State.infoOf, hg]
    | inr info => simp [State.owns]
  · by_cases hg : g = f
    · simp [State.pageOf, State.infoOf, hg]
    · rw [if_neg hg, ← hold g hg]
      simp only [State.pageOf, State.infoOf, Function.update_of_ne hg]
  · by_cases hgf : g = f
    · simp [State.pageOf, State.infoOf, hgf]
    · simp only [Function.update_of_ne hgf] at hg
      have hgp := h.file g hg
      rw [← hold g hgf] at hgp
      simpa only [State.pageOf, State.infoOf, Function.update_of_ne hgf] using hgp

theorem Accounted.exists_info (h : Accounted lost s) {f : ℕ} {file : File}
    (hf : s.files f = some file) : ∃ info page, file.privateData = some info ∧
      s.infoOf f = some info ∧ s.infos.mem info = some page ∧ s.pageOf f = some page := by
  have hinfo : s.infoOf f = file.privateData := by rw [State.infoOf, hf, Option.bind_some]
  obtain ⟨page, hpage⟩ := Option.isSome_iff_exists.mp (h.file f (by rw [hf]; rfl))
  have hbind := hpage
  rw [State.pageOf, Option.bind_eq_some_iff] at hbind
  obtain ⟨info, hi, hp⟩ := hbind
  exact ⟨info, page, hinfo ▸ hi, hi, hp, hpage⟩

theorem Accounted.putInfo (h : Accounted lost s) {f : ℕ} {file : File}
    (hf : s.files f = some file) (hs : s.putInfo f file = some s') : Accounted lost s' := by
  obtain ⟨info, page, hdata, hinfo, hmem, hpage⟩ := h.exists_info hf
  rw [State.putInfo, hdata, Option.bind_some, hmem, Option.map_some] at hs
  cases hs
  have hnone : Function.update s.files f none f = none := Function.update_self ..
  refine ⟨h.infos.release (w := .inl f) hinfo (fun w => ?_) fun o => Heap.free_live _ _ o,
    h.pages.release hpage (fun g => ?_) fun o => Heap.free_live _ _ o, fun g hg => ?_, h.nodup⟩
  · cases w with
    | inl g =>
        by_cases hg : g = f
        · simp [State.owns, State.infoOf, hg]
        · simp [State.owns, State.infoOf, hg]
    | inr info => simp [State.owns]
  · by_cases hg : g = f
    · simp [State.pageOf, State.infoOf, hg]
    · simp [State.pageOf, State.infoOf, hg]
  · have hgf : g ≠ f := by
      rintro rfl
      simp at hg
    simp only [Function.update_of_ne hgf] at hg
    show (((Function.update s.files f none g).bind File.privateData).bind s.infos.mem).isSome
    rw [Function.update_of_ne hgf]
    exact h.file g hg

/-! ### The runs -/

/-- The objects that a call allocates and forgets. -/
def loses (d : Driver) (_ : State) : Event → List ℕ
  | .open _ _ m => [m.first]
  | .read _ _ m _ _ => if d = .mmapExample then [m.first] else []
  | _ => []

theorem Accounted.getInfo (h : Accounted lost s) {f : ℕ} {file : File} {m : Mem}
    (hs : s.getInfo f file m = some s') (hf : s.infoOf f = file.privateData) :
    Accounted (lost ++ [m.first]) s' := by
  rw [State.getInfo, Option.bind_eq_some_iff] at hs
  obtain ⟨infos, hi, hs⟩ := hs
  have hlose := h.lose hi
  cases hdata : file.privateData with
  | none =>
      rw [hdata] at hs hf
      exact hlose.newInfo hf hs
  | some info =>
      rw [hdata] at hs
      cases hs
      exact hlose

theorem Accounted.append_nil (h : Accounted lost s) : Accounted (lost ++ []) s := by
  rwa [List.append_nil]

theorem Accounted.step {d : Driver} {e : Event} (h : Accounted lost s)
    (hs : (driver d).step s e = some s') : Accounted (lost ++ loses d s e) s' := by
  cases e with
  | «open» f name m =>
      simp only [driver, State.step] at hs
      cases hf : s.files f with
      | some file => rw [hf] at hs; cases hs
      | none =>
          rw [hf] at hs
          have hinfo : s.infoOf f = none := by rw [State.infoOf, hf, Option.bind_none]
          have hget : s.getInfo f ⟨name, none, []⟩ m = some s' := by
            cases d with
            | mmapExample => exact hs
            | gread => exact hs
          exact h.getInfo hget hinfo
  | read f len m behind fault =>
      simp only [driver, State.step, Option.bind_eq_some_iff] at hs
      obtain ⟨file, hf, hs⟩ := hs
      cases d with
      | mmapExample => exact h.getInfo hs (by rw [State.infoOf, hf, Option.bind_some])
      | gread =>
          cases hs
          exact h.append_nil
  | release f =>
      simp only [driver, State.step, Option.bind_eq_some_iff] at hs
      obtain ⟨file, hf, hs⟩ := hs
      split at hs
      · cases d with
        | mmapExample => exact (h.putInfo hf hs).append_nil
        | gread => exact (h.putInfo hf hs).append_nil
      · cases hs
  | mmap f =>
      simp only [driver, State.step, Option.bind_eq_some_iff] at hs
      obtain ⟨file, hf, hs⟩ := hs
      cases d with
      | mmapExample =>
          simp only [Driver.mmap, myMmap, Option.map_eq_some_iff] at hs
          obtain ⟨info, hi, rfl⟩ := hs
          exact .append_nil (h.vmas hf rfl)
      | gread => cases hs
  | fault f v slot =>
      simp only [driver, State.step, mmapFault, Option.bind_eq_some_iff,
        Option.map_eq_some_iff] at hs
      obtain ⟨file, hf, vma, hv, page, hp, rfl⟩ := hs
      exact .append_nil (h.vmas hf rfl)
  | store f v offset b =>
      simp only [driver, State.step, userStore, Option.bind_eq_some_iff,
        Option.map_eq_some_iff] at hs
      obtain ⟨file, hf, vma, hv, page, hp, rfl⟩ := hs
      exact .append_nil (h.same (fun _ => rfl) rfl rfl fun _ hg => hg)
  | munmap f v =>
      simp only [driver, State.step, Option.map_eq_some_iff] at hs
      obtain ⟨file, hf, rfl⟩ := hs
      exact .append_nil (h.vmas hf rfl)

variable {d : Driver} {es : List Event}

/-- In every run, the objects are those of the open files and one for each open and each read of
`mmap_example`. -/
theorem accounted_of_run (hrun : (driver d).run blank es = some s) :
    Accounted ((driver d).collect (loses d) blank es) s := by
  refine Lts.run_history (M := driver d)
    (P := fun es s => Accounted ((driver d).collect (loses d) blank es) s) accounted_blank ?_ hrun
  intro es c e s hc h hs
  rw [Lts.collect_snoc _ hc]
  exact h.step hs

theorem eq_blank_of_run (hopen : ∀ f name m, .open f name m ∉ es)
    (hrun : (driver d).run blank es = some s) : s = blank := by
  refine Lts.run_invariant (P := (· = blank)) (E := fun e => e ∈ es) ?_ (fun _ he => he) hrun rfl
  rintro c e s' he rfl hs
  cases e with
  | «open» f name m => exact absurd he (hopen f name m)
  | read f len m behind fault => cases hs
  | release f => cases hs
  | mmap f => cases hs
  | fault f v slot => cases hs
  | store f v offset b => cases hs
  | munmap f v => cases hs

/-- **No leak.**  In a run of either driver the objects and the pages are those of the open files
in every state if and only if the run opens no file. -/
theorem matched_iff (hrun : (driver d).run blank es = some s) :
    (∀ m c, (driver d).At blank es m c → Matched c) ↔ ∀ f name m, .open f name m ∉ es := by
  constructor
  · intro h f name m hmem
    have hnil := (accounted_of_run hrun).matched_iff_nil.mp (h _ _ (Lts.at_length hrun))
    have hlost := Lts.mem_collect (f := loses d) hrun hmem (x := m.first)
      fun _ => List.mem_singleton_self _
    rw [hnil] at hlost
    cases hlost
  · intro hopen m c hc
    rw [eq_blank_of_run (fun f name m hmem => hopen f name m (List.mem_of_mem_take hmem)) hc]
    exact accounted_blank.matched_iff_nil.mpr rfl

/-- The name `a`. -/
def nameA : DName := ⟨[0x61], by decide, by decide⟩

theorem not_matched_gread : ¬ ∀ m c, (driver .gread).At blank
    [.open 3 nameA ⟨0, 1, 0⟩, .release 3] m c → Matched c := by
  intro h
  exact (matched_iff (d := .gread) rfl).mp h 3 _ _ List.mem_cons_self

/-- An object that is live when no file is open is not matched. -/
theorem not_matched_of_live (info : ℕ) (hlive : s.infos.Live info)
    (hfiles : ∀ f, s.files f = none) : ¬ Matched s := by
  intro h
  obtain ⟨f, hf⟩ := h.infos.owned hlive
  rw [State.infoOf, hfiles] at hf
  cases hf

/-- When all files have been released, an object is left for the open, in both drivers, and
another for the read of `mmap_example`. -/
theorem live_after_release :
    (∃ s, (driver .gread).run blank
        [.open 3 nameA ⟨0, 1, 0⟩, .release 3] = some s ∧
      (∀ f, s.files f = none) ∧ s.infos.Live 0 ∧ ¬ Matched s) ∧
    ∃ s, (driver .mmapExample).run blank
        [.open 3 nameA ⟨0, 1, 0⟩, .read 3 4096 ⟨2, 3, 1⟩ [] none,
          .release 3] = some s ∧
      (∀ f, s.files f = none) ∧ s.infos.Live 0 ∧ s.infos.Live 2 ∧ ¬ Matched s := by
  have hfiles (file : Option File) (f : ℕ) :
      Function.update (Function.update (fun _ => none) 3 file) 3 none f = none := by
    rw [Function.update_idem]
    by_cases hf : f = 3
    · rw [hf, Function.update_self]
    · rw [Function.update_of_ne hf]
  exact ⟨⟨_, rfl, hfiles _, rfl, not_matched_of_live 0 rfl (hfiles _)⟩,
    _, rfl, hfiles _, rfl, rfl, not_matched_of_live 0 rfl (hfiles _)⟩

end KernelMemo.MmapExample
