import KernelMemo.Lib.TransitionSystem
import KernelMemo.Mount.Connection
import Mathlib.Algebra.Group.Nat.Defs

/-! # The references of a connection

The machine of one connection: devices are allocated and freed in any order, and the initial
reference is put once.

* `link` says whether something puts the entry of a new device on a list.  Nothing in the
  sources does: they are the machine with `link = false`.
* `RefCounted` says that the count is that of the references, and that the last one releases the
  connection, once.
* With linked entries the counting is right in every run (`refCounted_of_linked`); as it is,
  `tuse_dev_free` dies in `list_del`, so that it is right in the runs that free no device
  (`refCounted_iff`). -/

namespace KernelMemo.Mount

/-! ### The machine -/

/-- A connection with its live devices; `held` is the initial reference. -/
structure Refs where
  tc : TuseConn
  devs : List TuseDev
  held : Bool
  fault : Option Fault

inductive RefEvent where
  | devAlloc (kzalloc : Option ℕ)
  | devFree (i : ℕ)
  | connPut
deriving DecidableEq

namespace Refs

/-- The references: one for each device, and the initial one. -/
def refs (s : Refs) : ℕ := s.devs.length + if s.held then 1 else 0

/-- One step.  Whoever allocates a device has a reference. -/
def step (link : Bool) (s : Refs) (e : RefEvent) : Option Refs :=
  if s.fault.isSome then none
  else match e with
    | .devAlloc kzalloc =>
        if s.refs = 0 then none
        else match tuseDevAlloc kzalloc s.tc with
          | none => some s
          | some (tud, tc) =>
              some { s with tc := tc, devs := { tud with linked := link } :: s.devs }
    | .devFree i =>
        match s.devs[i]? with
        | none => none
        | some tud =>
            match tuseDevFree tud s.tc with
            | .error f => some { s with fault := some f }
            | .ok (_, tc) => some { s with tc := tc, devs := s.devs.eraseIdx i }
    | .connPut =>
        if !s.held then none
        else match tuseConnPut s.tc with
          | .error f => some { s with fault := some f }
          | .ok tc => some { s with tc := tc, held := false }

end Refs

/-- `tuse_conn_init`, and what `tuse_fill_super` puts into the connection: `tuse_free_conn`, and
a request for `destroy_req` if there is memory. -/
def refsInit (addr : ℕ) (mem : ReqMemory) : Refs :=
  { tc := { tuseConnInit addr with
      release := some .tuseFreeConn, destroyReq := tuseRequestAlloc 0 mem }
    devs := [], held := true, fault := none }

/-- The machine of a connection. -/
def refs (link : Bool) : Lts Refs RefEvent where
  init s := ∃ addr mem, s = refsInit addr mem
  step := Refs.step link

/-- The counting is right: `count` is the number of references, the last of them has released
the connection and freed `destroy_req`, once, and nothing uses it after that. -/
structure RefCounted (link : Bool) (s : Refs) : Prop where
  count : s.tc.count.toInt = s.refs
  releases : s.tc.releases = if s.refs = 0 then 1 else 0
  destroyReq : ∀ r ∈ s.tc.destroyReq, r.frees = s.tc.releases
  unused : 0 < s.tc.releases → ∀ e, s.step link e = none
  fault : s.fault = none

/-! ### Getting and putting -/

/-- The connection has `n` references. -/
structure TuseConn.HasRefs (tc : TuseConn) (n : ℕ) : Prop where
  count : tc.count.toInt = n
  release : tc.release = some .tuseFreeConn
  releases : tc.releases = if n = 0 then 1 else 0
  destroyReq : ∀ r ∈ tc.destroyReq, r.frees = if n = 0 then 1 else 0

namespace TuseConn.HasRefs

variable {tc : TuseConn} {n : ℕ}

theorem get (h : tc.HasRefs n) (hn : n ≠ 0) (hlt : n + 1 < 2 ^ 31) :
    (tuseConnGet tc).HasRefs (n + 1) where
  count := by
    show (tc.count + 1).toInt = ((n + 1 : ℕ) : Int)
    rw [Int32.toInt_add, h.count, show (1 : Int32).toInt = 1 from rfl, Int.bmod_eq_of_le]
    all_goals omega
  release := h.release
  releases := by
    rw [if_neg (Nat.succ_ne_zero n)]
    exact h.releases.trans (if_neg hn)
  destroyReq r hr := by
    rw [if_neg (Nat.succ_ne_zero n)]
    exact (h.destroyReq r hr).trans (if_neg hn)

theorem put (h : tc.HasRefs (n + 1)) : ∃ tc', tuseConnPut tc = .ok tc' ∧ tc'.HasRefs n := by
  have hcount : (tc.count - 1).toInt = n := by
    have hlt := tc.count.toInt_lt
    rw [Int32.toInt_sub, h.count, show (1 : Int32).toInt = 1 from rfl, Int.bmod_eq_of_le]
    all_goals rw [h.count] at hlt; omega
  have hreleases : tc.releases = 0 := h.releases.trans (if_neg (Nat.succ_ne_zero n))
  have hfrees : ∀ r ∈ tc.destroyReq, r.frees = 0 := fun r hr =>
    (h.destroyReq r hr).trans (if_neg (Nat.succ_ne_zero n))
  cases n with
  | zero =>
      have hone : tc.count = 1 := Int32.toInt_inj.mp h.count
      refine ⟨_, tuseConnPut_of_init tc hone h.release, rfl, h.release, ?_, fun r hr => ?_⟩
      · exact congrArg (· + 1) hreleases
      · obtain ⟨r', hr', rfl⟩ := Option.map_eq_some_iff.mp hr
        have hfree : (tuseRequestFree r').frees = r'.frees + 1 := by
          cases hi : r'.inlinePages <;> simp [tuseRequestFree, hi]
        rw [hfree, hfrees r' hr']
        rfl
  | succ n =>
      have hne : tc.count - 1 ≠ 0 := fun hzero => by
        rw [hzero] at hcount
        have h0 : (0 : Int32).toInt = 0 := rfl
        omega
      exact ⟨{ tc with count := tc.count - 1 }, by simp [tuseConnPut, hne], hcount, h.release,
        hreleases, hfrees⟩

end TuseConn.HasRefs

/-! ### Runs -/

theorem Refs.step_cases {link : Bool} {s s' : Refs} {e : RefEvent}
    (h : s.step link e = some s') : s.fault = none ∧
    ((∃ kzalloc, e = .devAlloc kzalloc ∧ s.refs ≠ 0 ∧ (s' = s ∨ ∃ addr,
        s' = { s with
          tc := tuseConnGet s.tc
          devs := ⟨addr, true, Tuse.tuseDevAllocPq, link, 0⟩ :: s.devs })) ∨
      (∃ i tud, e = .devFree i ∧ s.devs[i]? = some tud ∧
        ((∃ f, tuseDevFree tud s.tc = .error f ∧ s' = { s with fault := some f }) ∨
          ∃ tud' tc, tuseDevFree tud s.tc = .ok (tud', tc) ∧
            s' = { s with tc := tc, devs := s.devs.eraseIdx i })) ∨
      (e = .connPut ∧ s.held = true ∧
        ((∃ f, tuseConnPut s.tc = .error f ∧ s' = { s with fault := some f }) ∨
          ∃ tc, tuseConnPut s.tc = .ok tc ∧ s' = { s with tc := tc, held := false }))) := by
  unfold Refs.step at h
  split at h
  · cases h
  next hfault =>
    refine ⟨by simpa using hfault, ?_⟩
    cases e with
    | devAlloc kzalloc =>
        refine .inl ⟨kzalloc, rfl, ?_⟩
        simp only at h
        split at h
        · cases h
        next hrefs =>
          refine ⟨hrefs, ?_⟩
          cases kzalloc with
          | none =>
              cases h
              exact .inl rfl
          | some addr =>
              cases h
              exact .inr ⟨addr, rfl⟩
    | devFree i =>
        simp only at h
        cases htud : s.devs[i]? with
        | none => simp [htud] at h
        | some tud =>
            refine .inr (.inl ⟨i, tud, rfl, htud, ?_⟩)
            simp only [htud] at h
            cases hfree : tuseDevFree tud s.tc with
            | error f =>
                rw [hfree] at h
                cases h
                exact .inl ⟨f, rfl, rfl⟩
            | ok r =>
                rw [hfree] at h
                cases h
                exact .inr ⟨r.1, r.2, rfl, rfl⟩
    | connPut =>
        simp only at h
        split at h
        · cases h
        next hheld =>
          refine .inr (.inr ⟨rfl, by simpa using hheld, ?_⟩)
          cases hput : tuseConnPut s.tc with
          | error f =>
              rw [hput] at h
              cases h
              exact .inl ⟨f, rfl, rfl⟩
          | ok tc =>
              rw [hput] at h
              cases h
              exact .inr ⟨tc, rfl, rfl⟩

/-- The invariant of the runs in which no device dies. -/
structure Refs.Sound (link : Bool) (s : Refs) : Prop where
  conn : s.tc.HasRefs s.refs
  fault : s.fault = none
  devs : ∀ d ∈ s.devs, d.tc = true ∧ d.linked = link

theorem refsInit_sound (link : Bool) (addr : ℕ) (mem : ReqMemory) :
    (refsInit addr mem).Sound link where
  conn := by
    refine ⟨rfl, rfl, rfl, fun r hr => ?_⟩
    cases hc : mem.cache with
    | none => simp [refsInit, tuseRequestAlloc, hc] at hr
    | some a =>
        simp only [refsInit, tuseRequestAlloc, hc, Nat.zero_le, if_true, Option.mem_def,
          Option.some.injEq] at hr
        rw [← hr]
        rfl
  fault := rfl
  devs _ hd := by cases hd

namespace Refs.Sound

variable {link : Bool} {s s' : Refs}

theorem refCounted (h : s.Sound link) : RefCounted link s where
  count := h.conn.count
  releases := h.conn.releases
  destroyReq r hr := (h.conn.destroyReq r hr).trans h.conn.releases.symm
  fault := h.fault
  unused hpos e := by
    have hrefs : s.refs = 0 := by
      by_contra hne
      rw [h.conn.releases, if_neg hne] at hpos
      exact Nat.lt_irrefl _ hpos
    have hdevs : s.devs = [] := List.length_eq_zero_iff.mp (by unfold Refs.refs at hrefs; omega)
    have hheld : s.held = false := by
      cases hh : s.held with
      | false => rfl
      | true => simp [Refs.refs, hh] at hrefs
    cases e <;> simp [Refs.step, hrefs, hdevs, hheld]

theorem devFree (h : s.Sound true) {i : ℕ} {tud : TuseDev} (hi : s.devs[i]? = some tud) :
    ∃ tud' tc, tuseDevFree tud s.tc = .ok (tud', tc) ∧
      ({ s with tc := tc, devs := s.devs.eraseIdx i } : Refs).Sound true := by
  obtain ⟨hlt, hget⟩ := List.getElem?_eq_some_iff.mp hi
  obtain ⟨htc, hlinked⟩ := h.devs tud (hget ▸ List.getElem_mem hlt)
  have hlen : (s.devs.eraseIdx i).length + 1 = s.devs.length := by
    rw [List.length_eraseIdx_of_lt hlt]
    omega
  have hrefs : s.refs =
      ({ s with devs := s.devs.eraseIdx i } : Refs).refs + 1 := by
    simp only [Refs.refs]
    omega
  obtain ⟨tc, hput, hconn⟩ := (hrefs ▸ h.conn).put
  refine ⟨{ tud with linked := false, frees := tud.frees + 1 }, tc, ?_, hconn, h.fault,
    fun d hd => h.devs d (List.mem_of_mem_eraseIdx hd)⟩
  simp only [tuseDevFree, htc, hlinked, hput, if_true, Bool.not_true, Bool.false_eq_true, if_false]
  rfl

theorem step (h : s.Sound link) {e : RefEvent} (hs : s.step link e = some s')
    (hlt : s'.refs < 2 ^ 31) (he : link = true ∨ ∀ i, e ≠ .devFree i) : s'.Sound link := by
  obtain ⟨-, ⟨k, -, hrefs, rfl | ⟨addr, rfl⟩⟩ | ⟨i, tud, rfl, hi, hend⟩ | ⟨-, hheld, hend⟩⟩ :=
    Refs.step_cases hs
  · exact h
  · have hsucc : ({ s with
        tc := tuseConnGet s.tc
        devs := ⟨addr, true, Tuse.tuseDevAllocPq, link, 0⟩ :: s.devs } : Refs).refs =
          s.refs + 1 := by
      simp only [Refs.refs, List.length_cons]
      omega
    refine ⟨?_, h.fault, fun d hd => ?_⟩
    · rw [hsucc] at hlt ⊢
      exact h.conn.get hrefs hlt
    · rcases List.mem_cons.mp hd with rfl | hd
      · exact ⟨rfl, rfl⟩
      · exact h.devs d hd
  · obtain rfl : link = true := he.resolve_right fun hne => hne i rfl
    obtain ⟨tud', tc, hfree, hsound⟩ := h.devFree hi
    rcases hend with ⟨f, hf, -⟩ | ⟨tud'', tc', hfree', rfl⟩
    · rw [hfree] at hf
      cases hf
    · rw [hfree] at hfree'
      cases hfree'
      exact hsound
  · have hsucc : s.refs = s.devs.length + 1 := by simp [Refs.refs, hheld]
    obtain ⟨tc, hput, hconn⟩ := (hsucc ▸ h.conn).put
    rcases hend with ⟨f, hf, -⟩ | ⟨tc', hput', rfl⟩
    · rw [hput] at hf
      cases hf
    · rw [hput] at hput'
      cases hput'
      exact ⟨hconn, h.fault, h.devs⟩

theorem devFree_fault (h : s.Sound false) {i : ℕ} (hs : s.step false (.devFree i) = some s') :
    s'.fault ≠ none := by
  obtain ⟨-, ⟨k, hk, -⟩ | ⟨j, tud, hj, hi, hend⟩ | ⟨hk, -⟩⟩ := Refs.step_cases hs
  · cases hk
  · cases hj
    obtain ⟨hlt, hget⟩ := List.getElem?_eq_some_iff.mp hi
    obtain ⟨htc, hlinked⟩ := h.devs tud (hget ▸ List.getElem_mem hlt)
    have hfree : tuseDevFree tud s.tc = .error .unlinkedEntry := by
      simp [tuseDevFree, htc, hlinked]
    rcases hend with ⟨f, -, rfl⟩ | ⟨tud', tc, hok, -⟩
    · simp
    · rw [hfree] at hok
      cases hok
  · cases hk

end Refs.Sound

/-- Every state of a run, as long as no device dies and the count does not overflow. -/
theorem sound_of_at {link : Bool} {addr : ℕ} {mem : ReqMemory} {es : List RefEvent} {s : Refs}
    (h : (refs link).run (refsInit addr mem) es = some s)
    (hes : link = true ∨ ∀ i, .devFree i ∉ es)
    (hlt : ∀ m c, (refs link).At (refsInit addr mem) es m c → c.refs < 2 ^ 31) {m : ℕ} {c : Refs}
    (hc : (refs link).At (refsInit addr mem) es m c) : c.Sound link := by
  refine Lts.At.segment h (Lts.at_zero _ es) hc (Nat.zero_le m) ?_ (refsInit_sound link addr mem)
  intro k e d d' _ _ he hd hsound hs
  refine hsound.step hs (hlt (k + 1) d' (hd.next he hs)) (hes.imp_right fun hfree i hi => ?_)
  exact hfree i (hi ▸ List.mem_of_getElem? he)

/-- **Counting with linked entries.**  If something linked the entries of the devices, the
counting would be right in every run. -/
theorem refCounted_of_linked {addr : ℕ} {mem : ReqMemory} {es : List RefEvent} {s : Refs}
    (h : (refs true).run (refsInit addr mem) es = some s)
    (hlt : ∀ m c, (refs true).At (refsInit addr mem) es m c → c.refs < 2 ^ 31) {m : ℕ} {c : Refs}
    (hc : (refs true).At (refsInit addr mem) es m c) : RefCounted true c :=
  (sound_of_at h (.inl rfl) hlt hc).refCounted

/-- **The references of a connection.**  The counting is right in all states of a run if and
only if the run frees no device and the references fit the count. -/
theorem refCounted_iff {addr : ℕ} {mem : ReqMemory} {es : List RefEvent} {s : Refs}
    (h : (refs false).run (refsInit addr mem) es = some s) :
    (∀ m c, (refs false).At (refsInit addr mem) es m c → RefCounted false c) ↔
      (∀ i, .devFree i ∉ es) ∧
        ∀ m c, (refs false).At (refsInit addr mem) es m c → c.refs < 2 ^ 31 := by
  constructor
  · intro hcounted
    have hlt : ∀ m c, (refs false).At (refsInit addr mem) es m c → c.refs < 2 ^ 31 := by
      intro m c hc
      have hcount := (hcounted m c hc).count
      have htoInt := c.tc.count.toInt_lt
      omega
    -- up to the first free the machine is sound, and the free ends in a fault
    refine ⟨fun i hi => ?_, hlt⟩
    obtain ⟨k, hk, hget⟩ := List.getElem_of_mem hi
    have he : es[k]? = some (.devFree i) := List.getElem?_eq_some_iff.mpr ⟨hk, hget⟩
    obtain ⟨c, hc⟩ := Lts.exists_at h k
    obtain ⟨d, hd⟩ := Lts.exists_at h (k + 1)
    have hsound : c.Sound false := by
      refine Lts.At.segment h (Lts.at_zero _ es) hc (Nat.zero_le k) ?_
        (refsInit_sound false addr mem)
      intro j e a b _ _ hej ha hsound hs
      have hb := ha.next hej hs
      refine hsound.step hs (hlt (j + 1) b hb) (.inr fun i' hi' => ?_)
      subst hi'
      exact hsound.devFree_fault hs (hcounted (j + 1) b hb).fault
    exact hsound.devFree_fault (hc.step hd he) (hcounted (k + 1) d hd).fault
  · rintro ⟨hfree, hlt⟩ m c hc
    exact (sound_of_at h (.inr hfree) hlt hc).refCounted

/-- Memory for one request. -/
def oneReq : ReqMemory := ⟨some 64, true, true⟩

theorem refCounted_alloc : ∃ s, (refs false).run (refsInit 8 oneReq)
    [.devAlloc (some 16), .connPut] = some s ∧ RefCounted false s := by
  obtain ⟨s, hs⟩ : ∃ s, (refs false).run (refsInit 8 oneReq)
      [.devAlloc (some 16), .connPut] = some s := ⟨_, rfl⟩
  refine ⟨s, hs, (refCounted_iff hs).mpr ⟨by simp, fun m c hc => ?_⟩ 2 s (Lts.at_length hs)⟩
  rcases m with _ | _ | m
  · cases hc
    decide
  · cases hc
    decide
  · have hc' : (refs false).At (refsInit 8 oneReq) [.devAlloc (some 16), .connPut] 2 c := by
      simpa [Lts.At] using hc
    cases hc'
    decide

/-- A device is allocated and freed: the `list_del` is that of an entry that no list has held. -/
theorem devFree_dies : ∃ s, (refs false).run (refsInit 8 oneReq)
    [.devAlloc (some 16), .devFree 0] = some s ∧ s.fault = some .unlinkedEntry ∧
      ¬ RefCounted false s := by
  refine ⟨_, rfl, rfl, fun h => ?_⟩
  have hfault := h.fault
  cases hfault

end KernelMemo.Mount
