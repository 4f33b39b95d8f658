import KernelMemo.CharDev.SimpleChar

/-! # What `simple_char` touches

The copies from and to `dev->buf`, and the indices of the loops over `simple_char_devs`, while the
parameters are written at run time.

* **Copies.**  `copies` pairs the length of a copy with the size that the buffer was allocated
  with.  A write whose count is at most `simple_char_bufsize` copies as much as that parameter says
  now; the other copies have the length of an earlier one.
* **Loops.**  `simple_char_exit` goes over as many devices as `simple_char_nr_devs` says now. -/

namespace KernelMemo.SimpleChar

/-- The lengths of the copies of an event, with the allocated sizes of their buffers. -/
def copies (s : State) : Event → List (UInt64 × UInt64)
  | .file (.read f count _) =>
      match s.files f with
      | some d => [(readSize (s.devs d) count, (s.devs d).size)]
      | none => []
  | .file (.write f count _ _) =>
      match s.files f with
      | some d => [(writeSize s.bufsize (s.devs d) count, (s.devs d).size)]
      | none => []
  | _ => []

/-- The indices into `simple_char_devs` of the loops in `simple_char_exit`. -/
def indices (s : State) : Event → List ℕ
  | .unload => loopIndices s.nrDevs
  | _ => []

/-- A run touches only what has been allocated. -/
structure WithinAllocations (s₀ : State) (es : List Event) : Prop where
  setup : ∀ i ∈ loopIndices s₀.nrDevs, i < s₀.allocated
  copies : ∀ m c e n size, simpleChar.At s₀ es m c → es[m]? = some e →
    (n, size) ∈ copies c e → n ≤ size
  indices : ∀ m c e i, simpleChar.At s₀ es m c → es[m]? = some e → i ∈ indices c e →
    i < c.allocated

/-- What a step asks of the parameters: a write that copies `simple_char_bufsize` bytes finds it at
most the size of the buffers, and `simple_char_exit` finds at most the devices there are. -/
def ParamsFit (size : UInt64) (c : State) : Event → Prop
  | .file (.write f count _ _) => (c.files f).isSome →
      toSize c.bufsize < count ∨ toSize c.bufsize ≤ size
  | .unload => c.nrDevs.toInt ≤ c.allocated
  | _ => True

/-- The buffers have the size they were allocated with, and no write was longer. -/
structure Bounded (size : UInt64) (s : State) : Prop where
  sizes : ∀ d, (s.devs d).size = size
  writeSizes : ∀ d, (s.devs d).writeSize ≤ size

variable {size : UInt64} {s s' : State} {e : Event}

theorem bounded_load (bufsize nrDevs : Int32) (mem : ℕ → ℕ → UInt8) :
    Bounded (toSize bufsize) (load bufsize nrDevs mem) :=
  ⟨fun _ => rfl, fun _ => UInt64.le_iff_toNat_le.mpr (Nat.zero_le _)⟩

theorem Bounded.writeSize_le (h : Bounded size s) (d : ℕ) {count : UInt64}
    (hfit : toSize s.bufsize < count ∨ toSize s.bufsize ≤ size) :
    SimpleChar.writeSize s.bufsize (s.devs d) count ≤ size := by
  rw [SimpleChar.writeSize]
  split_ifs with hlt
  · exact h.writeSizes d
  · exact hfit.resolve_left hlt

theorem Bounded.readSize_le (h : Bounded size s) (d : ℕ) (count : UInt64) :
    readSize (s.devs d) count ≤ size := by
  rw [readSize]
  split_ifs with hlt
  · exact h.writeSizes d
  · exact UInt64.le_trans (UInt64.not_lt.mp hlt) (h.writeSizes d)

theorem simpleCharWrite_size (bufsize : Int32) (dev : Dev) (count : UInt64) (user : ℕ → UInt8)
    (fault : Option ℕ) : (simpleCharWrite bufsize dev count user fault).1.size = dev.size ∧
      ((simpleCharWrite bufsize dev count user fault).1.writeSize = dev.writeSize ∨
        (simpleCharWrite bufsize dev count user fault).1.writeSize =
          SimpleChar.writeSize bufsize dev count) := by
  cases fault with
  | none => exact ⟨rfl, .inr rfl⟩
  | some k => exact ⟨rfl, .inl rfl⟩

/-- A step changes neither the array nor, when the parameters fit, the bounds. -/
theorem Bounded.step (h : Bounded size s) (hfit : ParamsFit size s e) (hs : s.step e = some s') :
    Bounded size s' := by
  simp only [State.step] at hs
  split_ifs at hs
  cases e with
  | setBufsize n =>
      cases hs
      exact ⟨h.sizes, h.writeSizes⟩
  | setNrDevs n =>
      cases hs
      exact ⟨h.sizes, h.writeSizes⟩
  | unload =>
      cases hs
      exact ⟨h.sizes, h.writeSizes⟩
  | file e =>
      cases e with
      | «open» f d =>
          simp only [State.fileStep] at hs
          split_ifs at hs
          cases hs
          exact ⟨h.sizes, h.writeSizes⟩
      | read f count fault =>
          obtain ⟨d, -, rfl⟩ := Option.map_eq_some_iff.mp hs
          exact h
      | write f count user fault =>
          obtain ⟨d, hf, rfl⟩ := Option.map_eq_some_iff.mp hs
          have hle := h.writeSize_le d (hfit (by rw [hf]; rfl))
          obtain ⟨hsize, hwrite⟩ :=
            simpleCharWrite_size s.bufsize (s.devs d) count user fault
          refine ⟨fun d' => ?_, fun d' => ?_⟩
          · by_cases hd : d' = d
            · subst hd
              simp only [Function.update_self, hsize, h.sizes]
            · simp only [Function.update_of_ne hd, h.sizes]
          · by_cases hd : d' = d
            · subst hd
              simp only [Function.update_self]
              obtain hwrite | hwrite := hwrite
              · rw [hwrite]
                exact h.writeSizes d'
              · rw [hwrite]
                exact hle
            · simp only [Function.update_of_ne hd, h.writeSizes]

theorem mem_loopIndices {n : Int32} {i : ℕ} : i ∈ loopIndices n ↔ (i : Int) < n.toInt := by
  rw [loopIndices, List.mem_range]
  omega

/-- A loop over `simple_char_nr_devs` stays in the array. -/
theorem loopIndices_lt_iff {n : Int32} {allocated : ℕ} :
    (∀ i ∈ loopIndices n, i < allocated) ↔ n.toInt ≤ allocated := by
  constructor
  · intro h
    by_contra hlt
    exact absurd (h allocated (mem_loopIndices.mpr (by omega))) (Nat.lt_irrefl _)
  · intro h i hi
    have := mem_loopIndices.mp hi
    omega

variable {bufsize nrDevs : Int32} {mem : ℕ → ℕ → UInt8} {es : List Event}

theorem bounded_at (hrun : simpleChar.run (load bufsize nrDevs mem) es = some s) {m : ℕ} {c : State}
    (hc : simpleChar.At (load bufsize nrDevs mem) es m c)
    (hfit : ∀ k d e, k < m → simpleChar.At (load bufsize nrDevs mem) es k d → es[k]? = some e →
      ParamsFit (toSize bufsize) d e) : Bounded (toSize bufsize) c :=
  Lts.At.segment hrun (Lts.at_zero _ es) hc (Nat.zero_le m)
    (fun k e d _ _ hk he hd hP hs => hP.step (hfit k d e hk hd he) hs)
    (bounded_load bufsize nrDevs mem)

theorem Bounded.copies_le (h : Bounded size s) (hfit : ParamsFit size s e) {n k : UInt64}
    (hn : (n, k) ∈ copies s e) : n ≤ k := by
  cases e with
  | file e =>
      cases e with
      | «open» f d => simp only [copies, List.not_mem_nil] at hn
      | read f count fault =>
          simp only [copies] at hn
          split at hn
          · cases List.mem_singleton.mp hn
            rw [h.sizes]
            exact h.readSize_le _ count
          · cases hn
      | write f count user fault =>
          simp only [copies] at hn
          split at hn
          · next d hd =>
            cases List.mem_singleton.mp hn
            rw [h.sizes]
            exact h.writeSize_le d (hfit (by rw [hd]; rfl))
          · cases hn
  | setBufsize n => cases hn
  | setNrDevs n => cases hn
  | unload => cases hn

/-- **The allocations of `simple_char`.**  A run from a successful load touches only what has been
allocated if and only if the parameters fit at every step. -/
theorem withinAllocations_iff
    (hrun : simpleChar.run (load bufsize nrDevs mem) es = some s) :
    WithinAllocations (load bufsize nrDevs mem) es ↔
      ∀ m c e, simpleChar.At (load bufsize nrDevs mem) es m c → es[m]? = some e →
        ParamsFit (toSize bufsize) c e := by
  constructor
  · intro h m
    induction m using Nat.strong_induction_on with
    | _ m ih =>
        intro c e hc he
        have hb : Bounded (toSize bufsize) c :=
          bounded_at hrun hc fun k d e hk hd he => ih k hk d e hd he
        cases e with
        | setBufsize n => trivial
        | setNrDevs n => trivial
        | unload => exact loopIndices_lt_iff.mp fun i hi => h.indices m c _ i hc he hi
        | file e =>
            cases e with
            | «open» f d => trivial
            | read f count fault => trivial
            | write f count user fault =>
                intro hf
                obtain ⟨d, hd⟩ := Option.isSome_iff_exists.mp hf
                refine or_iff_not_imp_left.mpr fun hlt => ?_
                have hcopy : (writeSize c.bufsize (c.devs d) count, (c.devs d).size) ∈
                    copies c (.file (.write f count user fault)) := by
                  simp only [copies, hd, List.mem_singleton]
                have hle := h.copies m c _ _ _ hc he hcopy
                rwa [writeSize, if_neg hlt, hb.sizes] at hle
  · intro hfit
    refine ⟨fun i hi => List.mem_range.mp hi, fun m c e n size hc he hn => ?_,
      fun m c e i hc he hi => ?_⟩
    · exact (bounded_at hrun hc fun k d e _ => hfit k d e).copies_le (hfit m c e hc he) hn
    · have hfite := hfit m c e hc he
      cases e with
      | unload => exact loopIndices_lt_iff.mpr hfite i hi
      | file e => cases hi
      | setBufsize n => cases hi
      | setNrDevs n => cases hi

theorem withinAllocations_restored : WithinAllocations (load 10 4 fun _ _ => 0)
    [.file (.open 0 3), .setBufsize 64, .setBufsize 8, .file (.write 0 8 (fun _ => 7) none),
      .setNrDevs 4, .unload] := by
  refine (withinAllocations_iff rfl).mpr fun m c e hc he => ?_
  rcases m with _ | _ | _ | _ | _ | _ | m <;> cases he <;> cases hc <;>
    simp only [ParamsFit] <;> decide

/-- A larger `simple_char_bufsize` lets a write run over its buffer, and a larger
`simple_char_nr_devs` the loops of `simple_char_exit` over the array. -/
theorem withinAllocations_grown :
    ¬ WithinAllocations (load 10 4 fun _ _ => 0)
      [.file (.open 0 0), .setBufsize 64, .file (.write 0 20 (fun _ => 7) none)] ∧
    ¬ WithinAllocations (load 10 4 fun _ _ => 0) [.setNrDevs 5, .unload] := by
  constructor
  · intro h
    exact absurd (h.copies 2 _ _ 64 10 rfl rfl (by decide)) (by decide)
  · intro h
    exact absurd (h.indices 1 _ _ 4 rfl rfl (by decide)) (by decide)

end KernelMemo.SimpleChar
