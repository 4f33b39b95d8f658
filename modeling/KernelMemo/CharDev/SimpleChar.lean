import KernelMemo.Lib.TransitionSystem
import Mathlib.Data.Nat.Notation
import Mathlib.Logic.Function.Basic

/-! # The `simple_char` devices

`old/hello.c`: an array of devices, each with a buffer of `simple_char_bufsize` bytes.

* **Memory.**  `mem` is the memory from `dev->buf` on, of which `size` bytes were allocated.  User
  memory is given from the pointer on as well; the buffer of the caller is its first `count` bytes.
* **Arithmetic.**  `size_t` is 64 bits wide; comparing one with an `int`, or assigning an `int` to
  one, extends the sign.
* **Copies** to and from user memory succeed, or fail after some bytes.
* **Parameters.**  `simple_char_bufsize` and `simple_char_nr_devs` can be written at any time. -/

namespace KernelMemo.SimpleChar

def efault : Int64 := 14

/-- An `int` as a `size_t`. -/
def toSize (n : Int32) : UInt64 := n.toInt64.toUInt64

/-- `struct simple_char_dev`, with the size that `buf` was allocated with. -/
structure Dev where
  mem : ℕ → UInt8
  size : UInt64
  writeSize : UInt64

/-- How many bytes `simple_char_read` copies. -/
def readSize (dev : Dev) (count : UInt64) : UInt64 :=
  if count > dev.writeSize then dev.writeSize else count

/-- `simple_char_read`: the bytes that the user gets and the result; `fault` is the number of bytes
copied when the copy fails. -/
def simpleCharRead (dev : Dev) (count : UInt64) (fault : Option ℕ) : List UInt8 × Int64 :=
  let writeSize := readSize dev count
  match fault with
  | none => ((List.range writeSize.toNat).map dev.mem, writeSize.toInt64)
  | some k => ((List.range (min k writeSize.toNat)).map dev.mem, -efault)

/-- How many bytes `simple_char_write` copies. -/
def writeSize (bufsize : Int32) (dev : Dev) (count : UInt64) : UInt64 :=
  if count > toSize bufsize then dev.writeSize else toSize bufsize

/-- The memory after a copy of `k` bytes from user memory. -/
def copyFromUser (mem user : ℕ → UInt8) (k : ℕ) : ℕ → UInt8 :=
  fun i => if i < k then user i else mem i

/-- `simple_char_write`: the device after it and the result. -/
def simpleCharWrite (bufsize : Int32) (dev : Dev) (count : UInt64) (user : ℕ → UInt8)
    (fault : Option ℕ) : Dev × Int64 :=
  let writeSize := writeSize bufsize dev count
  match fault with
  | none =>
      ({ dev with mem := copyFromUser dev.mem user writeSize.toNat, writeSize := writeSize },
        writeSize.toInt64)
  | some k => ({ dev with mem := copyFromUser dev.mem user (min k writeSize.toNat) }, -efault)

/-- The module: its parameters, how many devices `simple_char_devs` was allocated for, the devices,
and the `private_data` of the open files. -/
structure State where
  bufsize : Int32
  nrDevs : Int32
  loaded : Bool
  allocated : ℕ
  devs : ℕ → Dev
  files : ℕ → Option ℕ

/-- What a file does. -/
inductive FileEvent where
  /-- `simple_char_open` of the file `f` on the device `d` -/
  | open (f d : ℕ)
  | read (f : ℕ) (count : UInt64) (fault : Option ℕ)
  | write (f : ℕ) (count : UInt64) (user : ℕ → UInt8) (fault : Option ℕ)

/-- What a file does, a write to a parameter, or `simple_char_exit`. -/
inductive Event where
  | file (e : FileEvent)
  | setBufsize (n : Int32)
  | setNrDevs (n : Int32)
  | unload

/-- One step of a file. -/
def State.fileStep (s : State) : FileEvent → Option State
  | .open f d =>
      if d < s.allocated then some { s with files := Function.update s.files f (some d) } else none
  | .read f _ _ => (s.files f).map fun _ => s
  | .write f count user fault =>
      (s.files f).map fun d =>
        let dev := (simpleCharWrite s.bufsize (s.devs d) count user fault).1
        { s with devs := Function.update s.devs d dev }

/-- One step of the module. -/
def State.step (s : State) (e : Event) : Option State :=
  if s.loaded then
    match e with
    | .file e => s.fileStep e
    | .setBufsize n => some { s with bufsize := n }
    | .setNrDevs n => some { s with nrDevs := n }
    | .unload => some { s with loaded := false }
  else none

/-- The indices of `for(i = 0; i < simple_char_nr_devs; ++i)`. -/
def loopIndices (nrDevs : Int32) : List ℕ := List.range nrDevs.toInt.toNat

/-- `simple_char_init`, when it succeeds: the buffers hold what `kmalloc` found there, but for the
first byte. -/
def load (bufsize nrDevs : Int32) (mem : ℕ → ℕ → UInt8) : State where
  bufsize := bufsize
  nrDevs := nrDevs
  loaded := true
  allocated := nrDevs.toInt.toNat
  devs i := { mem := Function.update (mem i) 0 0, size := toSize bufsize, writeSize := 0 }
  files _ := none

/-- The files of a loaded module, while nobody writes the parameters. -/
def files : Lts State FileEvent where
  init s := ∃ bufsize nrDevs mem, s = load bufsize nrDevs mem
  step := State.fileStep

/-- The whole module. -/
def simpleChar : Lts State Event where
  init s := ∃ bufsize nrDevs mem, s = load bufsize nrDevs mem
  step := State.step

/-! ### Read after write -/

/-- The first `min(count, B)` bytes of the caller's buffer are stored, nothing is taken from behind
the buffer, and the result is the number of bytes stored. -/
structure Stores (bufsize : Int32) (dev : Dev) (count : UInt64) (user : ℕ → UInt8) (dev' : Dev)
    (ret : Int64) : Prop where
  taken : writeSize bufsize dev count ≤ count
  ret : ret = (min count (toSize bufsize)).toInt64
  stored : ∀ i, i < (min count (toSize bufsize)).toNat → dev'.mem i = user i
  kept : ∀ i, (min count (toSize bufsize)).toNat ≤ i → dev'.mem i = dev.mem i

variable {bufsize : Int32} {dev : Dev} {count : UInt64} {user : ℕ → UInt8}

theorem writeSize_eq_min_iff : writeSize bufsize dev count = min count (toSize bufsize) ∧
      writeSize bufsize dev count ≤ count ↔
    count = toSize bufsize ∨ toSize bufsize < count ∧ dev.writeSize = toSize bufsize := by
  have hmin : min count (toSize bufsize) = if count ≤ toSize bufsize then count
      else toSize bufsize := rfl
  rw [hmin, writeSize]
  by_cases hlt : toSize bufsize < count
  · have hle : ¬ count ≤ toSize bufsize := by
      rw [UInt64.le_iff_toNat_le]
      rw [UInt64.lt_iff_toNat_lt] at hlt
      omega
    have hne : count ≠ toSize bufsize := fun h => hle (h ▸ UInt64.le_refl _)
    rw [if_pos hlt, if_neg hle]
    constructor
    · exact fun h => .inr ⟨hlt, h.1⟩
    · rintro (h | h)
      · exact absurd h hne
      · exact ⟨h.2, h.2 ▸ UInt64.le_of_lt hlt⟩
  · have hle : count ≤ toSize bufsize := UInt64.not_lt.mp hlt
    rw [if_neg hlt, if_pos hle]
    constructor
    · exact fun h => .inl h.1.symm
    · rintro (h | h)
      · exact ⟨h.symm, h ▸ UInt64.le_refl _⟩
      · exact absurd h.1 hlt

/-- A write stores what it should if and only if its count is the size of the buffer, or larger
with the last write on the device of that size. -/
theorem stores_iff : Stores bufsize dev count user (simpleCharWrite bufsize dev count user none).1
      (simpleCharWrite bufsize dev count user none).2 ↔
    count = toSize bufsize ∨ toSize bufsize < count ∧ dev.writeSize = toSize bufsize := by
  rw [← writeSize_eq_min_iff]
  constructor
  · intro h
    have hret : (writeSize bufsize dev count).toInt64 = (min count (toSize bufsize)).toInt64 :=
      h.ret
    have hsize := congrArg Int64.toUInt64 hret
    rw [UInt64.toUInt64_toInt64, UInt64.toUInt64_toInt64] at hsize
    exact ⟨hsize, h.taken⟩
  · rintro ⟨hsize, htaken⟩
    refine ⟨htaken, by rw [simpleCharWrite, hsize], fun i hi => ?_, fun i hi => ?_⟩
    · simp only [simpleCharWrite, hsize, copyFromUser, if_pos hi]
    · simp only [simpleCharWrite, hsize, copyFromUser, if_neg (Nat.not_lt.mpr hi)]

theorem simpleCharRead_of_holds {k : UInt64} (hsize : dev.writeSize = k)
    (hmem : ∀ i, i < k.toNat → dev.mem i = user i) (count' : UInt64) :
    simpleCharRead dev count' none =
      ((List.range (min count' k).toNat).map user, (min count' k).toInt64) := by
  have hmin : min count' k = if count' ≤ k then count' else k := rfl
  have hread : readSize dev count' = min count' k := by
    rw [readSize, hsize, hmin]
    by_cases hle : count' ≤ k
    · rw [if_neg (UInt64.not_lt.mpr hle), if_pos hle]
    · rw [if_pos (UInt64.not_le.mp hle), if_neg hle]
  have hle : (min count' k).toNat ≤ k.toNat := by
    rw [hmin]
    split_ifs with h
    · exact UInt64.le_iff_toNat_le.mp h
    · exact Nat.le_refl _
  simp only [simpleCharRead, hread, Prod.mk.injEq, and_true]
  refine List.map_congr_left fun i hi => hmem i ?_
  rw [List.mem_range] at hi
  omega

/-! ### Runs of the files -/

/-- The event writes to the device `d`. -/
def FileEvent.WritesTo (e : FileEvent) (s : State) (d : ℕ) : Prop :=
  ∃ f count user fault, e = .write f count user fault ∧ s.files f = some d

variable {s₀ s s' : State} {e : FileEvent} {d : ℕ}

theorem fileStep_devs (hs : s.fileStep e = some s') (hd : ¬ e.WritesTo s d) :
    s'.devs d = s.devs d := by
  cases e with
  | «open» f d =>
      simp only [State.fileStep] at hs
      split_ifs at hs
      cases hs
      rfl
  | read f count fault =>
      obtain ⟨d', -, rfl⟩ := Option.map_eq_some_iff.mp hs
      rfl
  | write f count user fault =>
      obtain ⟨d', hf, rfl⟩ := Option.map_eq_some_iff.mp hs
      have hne : d ≠ d' := by
        rintro rfl
        exact hd ⟨f, count, user, fault, rfl, hf⟩
      simp only [Function.update_of_ne hne]

/-- The law of the devices along a run: what each write stores, what a later read of the device
returns, and that the other devices stay as they are. -/
structure ReadAfterWrite (s₀ : State) (es : List FileEvent) : Prop where
  write : ∀ m c f count user d, files.At s₀ es m c → es[m]? = some (.write f count user none) →
    c.files f = some d → Stores c.bufsize (c.devs d) count user
      (simpleCharWrite c.bufsize (c.devs d) count user none).1
      (simpleCharWrite c.bufsize (c.devs d) count user none).2
  read : ∀ m m' c c' f f' d count count' user, files.At s₀ es m c →
    es[m]? = some (.write f count user none) → c.files f = some d → m < m' →
    files.At s₀ es m' c' → es[m']? = some (.read f' count' none) → c'.files f' = some d →
    (∀ i b e, m < i → i < m' → files.At s₀ es i b → es[i]? = some e → ¬ e.WritesTo b d) →
    simpleCharRead (c'.devs d) count' none =
      ((List.range (min count' (min count (toSize c.bufsize))).toNat).map user,
        (min count' (min count (toSize c.bufsize))).toInt64)
  frame : ∀ m c c' e d, files.At s₀ es m c → es[m]? = some e → c.fileStep e = some c' →
    ¬ e.WritesTo c d → c'.devs d = c.devs d

/-- **Read after write.**  A run follows the law if and only if every write asks for the size of
the buffer, or for more when the last write on the device had that size. -/
theorem readAfterWrite_iff {es : List FileEvent} (hrun : files.run s₀ es = some s) :
    ReadAfterWrite s₀ es ↔
      ∀ m c f count user d, files.At s₀ es m c → es[m]? = some (.write f count user none) →
        c.files f = some d → count = toSize c.bufsize ∨
          toSize c.bufsize < count ∧ (c.devs d).writeSize = toSize c.bufsize := by
  constructor
  · exact fun h m c f count user d hc he hf => stores_iff.mp (h.write m c f count user d hc he hf)
  · intro hcond
    refine ⟨fun m c f count user d hc he hf => stores_iff.mpr (hcond m c f count user d hc he hf),
      ?_, fun m c c' e d _ _ hs hd => fileStep_devs hs hd⟩
    intro m m' c c' f f' d count count' user hc he hf hm hc' he' hf' hbetween
    have hsize := (writeSize_eq_min_iff.mpr (hcond m c f count user d hc he hf)).1
    obtain ⟨b, hb⟩ := Lts.exists_at hrun (m + 1)
    obtain ⟨d', hd', hbs⟩ := Option.map_eq_some_iff.mp (hc.step hb he)
    -- the device after the write, which nothing changes up to the read
    have hdev : b.devs d = (simpleCharWrite c.bufsize (c.devs d) count user none).1 := by
      rw [hf] at hd'
      cases hd'
      rw [← hbs]
      exact Function.update_self _ _ _
    have hkept : c'.devs d = b.devs d :=
      Lts.At.segment (P := fun x => x.devs d = b.devs d) hrun hb hc' hm
        (fun k e x x' hik hkj he hx hP hs =>
          (fileStep_devs hs (hbetween k x e hik hkj hx he)).trans hP) rfl
    rw [hkept, hdev]
    refine simpleCharRead_of_holds (by rw [simpleCharWrite, hsize]) (fun i hi => ?_) count'
    simp only [simpleCharWrite, hsize, copyFromUser, if_pos hi]

theorem readAfterWrite_full : ReadAfterWrite (load 10 2 fun _ _ => 0)
    [.open 0 0, .open 1 1, .write 0 10 (fun _ => 7) none, .read 0 4 none] := by
  refine (readAfterWrite_iff rfl).mpr fun m c f count user d hc he hf => ?_
  rcases m with _ | _ | _ | _ | m <;> cases he
  cases hc
  exact .inl rfl

/-- Two bytes are written: ten are taken, and ten returned. -/
theorem readAfterWrite_short :
    (simpleCharWrite 10 ((load 10 4 fun _ _ => 0).devs 0) 2 (fun _ => 7) none).2 = 10 ∧
      ¬ ReadAfterWrite (load 10 4 fun _ _ => 0) [.open 0 0, .write 0 2 (fun _ => 7) none] := by
  refine ⟨rfl, fun h => ?_⟩
  have htaken := (h.write 1 _ 0 2 _ 0 rfl rfl rfl).taken
  exact absurd htaken (by decide)

end KernelMemo.SimpleChar
