import KernelMemo.Fuse.RequestLimits

/-! # The abort of a connection

When `fuse_abort_conn` is over, no request is left on a list: each one that is still in flight is
in the hands of a task, which will end it.  So nobody who waits for an answer waits in vain, and
the tasks of an aborted connection do not wait for each other in a circle.

The limit of background requests must not be written while the connection is aborted: behind
`fc->max_background = UINT_MAX` the queue of background requests is to be emptied. -/

namespace KernelMemo.Fuse

variable {τ : Type*} [DecidableEq τ] {s s' : State τ} {r : ReqId} {t : τ} {d : Dev}

/-- The task is in `fuse_abort_conn`. -/
def Pc.inAbort : Pc → Bool
  | .abortDev _ | .abortFlush | .abortSplice | .abortEnd => true
  | .ending _ _ abort => abort
  | _ => false

/-- The task is in `fuse_dev_do_read` with a request for the device. -/
def Pc.reads (d : Dev) (p : Pc) : Prop := ∃ r, p = .taken d r ∨ p = .copying d r

/-- How far the abort of the connection has come. -/
structure AbortOk (s : State τ) : Prop where
  live : s.connected = true → s.fiqConnected = true
  inside : s.fiqConnected = true → s.connected = true ∨ ∃ t, (s.pc t).aborting = true
  device : ∀ d, s.pqConnected d = false → s.processing d = []
  devices : ∀ d, (s.processing d ≠ [] ∨ ∃ t, (s.pc t).reads d) → d ∈ s.devices
  loop : ∀ t ds, s.pc t = .abortDev ds → ∀ d ∈ s.devices, d ∈ ds ∨ s.pqConnected d = false
  looped : ∀ t, s.pc t = .abortFlush ∨ s.pc t = .abortSplice →
    s.maxBackground = UINT_MAX ∧ ∀ d ∈ s.devices, s.pqConnected d = false
  flushed : ∀ t, s.pc t = .abortSplice → s.bgQueue = []
  spliced : s.fiqConnected = false →
    s.pending = [] ∧ s.bgQueue = [] ∧ ∀ d ∈ s.devices, s.pqConnected d = false
  toEnd : s.toEnd2 ≠ [] → ∃ t, (s.pc t).inAbort = true

theorem Goes.inAbort {op : Op} {p q : Pc} (h : Goes op p q) (hp : p.inAbort = true) :
    q.inAbort = true ∨ op = .abortEnd ∧ q = .idle := by
  cases h with
  | abortEndDone => exact .inr ⟨rfl, rfl⟩
  | _ => first | exact .inl rfl | exact .inl hp

theorem Goes.aborting_of {op : Op} {p q : Pc} (h : Goes op p q) (hp : p.aborting = true) :
    q.aborting = true ∨ op = .abortSplice := by
  cases h <;> first | exact .inl rfl | exact .inr rfl | cases hp

theorem Goes.reads {op : Op} {p q : Pc} (h : Goes op p q) (hq : q.reads d) :
    op = .read d ∨ p.reads d := by
  obtain ⟨r, rfl | rfl⟩ := hq
  · cases h
    exact .inl rfl
  · cases h
    exact .inr ⟨r, .inl rfl⟩

/-- A device is disconnected for good. -/
theorem pqConnected_mono {op : Op} (hs : taskStep s t op = some s')
    (hd : s'.pqConnected d = true) : s.pqConnected d = true := by
  by_cases hx : Var.pqConnected ∈ op.sets
  · cases op with
    | abortDev =>
        obtain ⟨ds, -, rfl⟩ := taskStep_abortDev hs
        cases ds with
        | nil => exact hd
        | cons d' ds =>
            change Function.update s.pqConnected d' false d = true at hd
            by_cases hdd : d = d'
            · simp [hdd] at hd
            · rwa [Function.update_of_ne hdd] at hd
    | _ => simp [Op.sets] at hx
  · have heq : s'.pqConnected = s.pqConnected := taskStep_agree hs hx
    rwa [heq] at hd

theorem devices_eq {op : Op} (hs : taskStep s t op = some s') : s'.devices = s.devices :=
  taskStep_agree hs (x := .devices) (by cases op <;> simp [Op.sets])

theorem abortDev_pqConnected (s : State τ) (t : τ) (d : Dev) (ds : List Dev) :
    (abortDev s t (d :: ds)).pqConnected = Function.update s.pqConnected d false := rfl

theorem AbortOk.device_step (ha : AbortOk s) {op : Op} (hs : taskStep s t op = some s')
    (hd : s'.pqConnected d = false) : s'.processing d = [] := by
  by_cases hpq : s.pqConnected d = false
  · -- nothing comes onto the list of a disconnected device
    refine List.eq_nil_iff_forall_not_mem.mpr fun r hr => ?_
    rcases ((taskStep_lists hs).processing d).mem hr with hr | ⟨-, hconn⟩
    · rw [ha.device d hpq] at hr
      cases hr
    · cases hpq.symm.trans hconn
  · have hx : Var.pqConnected ∈ op.sets := by
      by_contra hx
      have heq : s'.pqConnected = s.pqConnected := taskStep_agree hs hx
      exact hpq (heq ▸ hd)
    cases op with
    | abortDev =>
        obtain ⟨ds, -, rfl⟩ := taskStep_abortDev hs
        cases ds with
        | nil => exact absurd hd hpq
        | cons d' ds =>
            rw [abortDev_pqConnected] at hd
            by_cases hdd : d = d'
            · subst hdd
              exact Function.update_self ..
            · rw [Function.update_of_ne hdd] at hd
              exact absurd hd hpq
    | _ => simp [Op.sets] at hx

/-- Only open devices are read and have requests. -/
theorem AbortOk.devices_step (ha : AbortOk s) {op : Op} (hs : taskStep s t op = some s')
    (hd : s'.processing d ≠ [] ∨ ∃ t, (s'.pc t).reads d) : d ∈ s'.devices := by
  rw [devices_eq hs]
  rcases hd with hne | ⟨t', ht'⟩
  · obtain ⟨r, hr⟩ := List.exists_mem_of_ne_nil _ hne
    rcases ((taskStep_lists hs).processing d).mem hr with hr | ⟨hpc, -⟩
    · exact ha.devices d (.inl (List.ne_nil_of_mem hr))
    · exact ha.devices d (.inr ⟨t, r, .inr hpc⟩)
  · rcases taskStep_moves hs with hpc | ⟨q, hgo, hpc⟩
    · rw [hpc] at ht'
      exact ha.devices d (.inr ⟨t', ht'⟩)
    · by_cases htt : t' = t
      · rw [hpc, htt, Function.update_self] at ht'
        rcases hgo.reads ht' with rfl | hp
        · obtain ⟨r, rest, -, hmem, -⟩ := read_eq (taskStep_read hs).2
          exact hmem
        · exact ha.devices d (.inr ⟨t, hp⟩)
      · rw [hpc, Function.update_of_ne htt] at ht'
        exact ha.devices d (.inr ⟨t', ht'⟩)

/-- The requests on `to_end2` are those of a task that is still in `fuse_abort_conn`. -/
theorem AbortOk.toEnd_step (ha : AbortOk s) (h : Inv s) {op : Op} (hs : taskStep s t op = some s')
    (hne : s'.toEnd2 ≠ []) : ∃ t, (s'.pc t).inAbort = true := by
  obtain ⟨r, hr⟩ := List.exists_mem_of_ne_nil _ hne
  -- a task in `fuse_abort_conn` stays there as long as the list is not empty
  have hstay {t' : τ} (ht' : (s.pc t').inAbort = true) : (s'.pc t').inAbort = true := by
    rcases taskStep_moves hs with hpc | ⟨q, hgo, hpc⟩
    · rwa [hpc]
    · by_cases htt : t' = t
      · rw [hpc, htt, Function.update_self]
        rw [htt] at ht'
        rcases hgo.inAbort ht' with hq | ⟨rfl, rfl⟩
        · exact hq
        · obtain ⟨-, rfl⟩ := taskStep_abortEnd hs
          have hq : (abortEnd s t).pc t = .idle := by rw [hpc, Function.update_self]
          unfold abortEnd at hq hne
          rw [h.sound.toEnd1] at hq hne
          split at hq
          next heq => cases heq
          next => simp at hq
          next _ hend =>
            rw [hend] at hne
            exact absurd hend hne
      · rwa [hpc, Function.update_of_ne htt]
  rcases (taskStep_lists hs).toEnd2 r hr with hr | ⟨d, ds, hpc, -⟩ | ⟨hpc, -⟩
  · obtain ⟨t', ht'⟩ := ha.toEnd (List.ne_nil_of_mem hr)
    exact ⟨t', hstay ht'⟩
  · exact ⟨t, hstay (by rw [hpc]; rfl)⟩
  · exact ⟨t, hstay (by rw [hpc]; rfl)⟩

theorem connected_mono {op : Op} (hs : taskStep s t op = some s') (hc : s'.connected = true) :
    s.connected = true := by
  by_cases hx : Var.connected ∈ op.sets
  · cases op with
    | abort =>
        obtain ⟨-, hs'⟩ := taskStep_abort hs
        unfold abort at hs'
        split at hs'
        · cases hs'
        · split at hs' <;> cases hs'
          · cases hc
          · exact hc
    | _ => simp [Op.sets] at hx
  · have heq : s'.connected = s.connected := taskStep_agree hs hx
    rwa [heq] at hc

theorem fiqConnected_cases {op : Op} (hs : taskStep s t op = some s') :
    s'.fiqConnected = s.fiqConnected ∨ op = .abortSplice ∧ s'.fiqConnected = false := by
  by_cases hx : Var.fiqConnected ∈ op.sets
  · cases op with
    | abortSplice =>
        obtain ⟨-, rfl⟩ := taskStep_abortSplice hs
        exact .inr ⟨rfl, rfl⟩
    | _ => simp [Op.sets] at hx
  · exact .inl (taskStep_agree hs hx)

/-- The connection is not connected when the input queue is not. -/
theorem AbortOk.inside_step (ha : AbortOk s) {op : Op} (hs : taskStep s t op = some s')
    (hf : s'.fiqConnected = true) :
    s'.connected = true ∨ ∃ t, (s'.pc t).aborting = true := by
  have hsplice : op ≠ .abortSplice := by
    rintro rfl
    obtain ⟨-, rfl⟩ := taskStep_abortSplice hs
    cases hf
  have hold : s.fiqConnected = true := by
    rcases fiqConnected_cases hs with heq | ⟨hop, -⟩
    · rwa [heq] at hf
    · exact absurd hop hsplice
  rcases ha.inside hold with hconn | ⟨t', ht'⟩
  · by_cases hx : Var.connected ∈ op.sets
    · cases op with
      | abort =>
          obtain ⟨-, hs'⟩ := taskStep_abort hs
          unfold abort at hs'
          split at hs'
          · cases hs'
          · cases hs'
            exact .inr ⟨t, by rw [State.pc_goto_self]; rfl⟩
      | _ => simp [Op.sets] at hx
    · exact .inl (Eq.trans (taskStep_agree hs hx) hconn)
  · refine .inr ⟨t', ?_⟩
    rcases taskStep_moves hs with hpc | ⟨q, hgo, hpc⟩
    · rwa [hpc]
    · by_cases htt : t' = t
      · rw [hpc, htt, Function.update_self]
        rw [htt] at ht'
        exact (hgo.aborting_of ht').resolve_right hsplice
      · rwa [hpc, Function.update_of_ne htt]

theorem bgQueue_nil {op : Op} (hs : taskStep s t op = some s') (hq : s.bgQueue = [])
    (hconn : s.connected = false) : s'.bgQueue = [] := by
  refine List.eq_nil_iff_forall_not_mem.mpr fun r hr => ?_
  rcases (taskStep_lists hs).bgQueue.mem hr with hr | ⟨-, hc⟩
  · rw [hq] at hr
    cases hr
  · cases hconn.symm.trans hc

theorem AbortOk.loop_step (ha : AbortOk s) {op : Op} (hs : taskStep s t op = some s') {t' : τ}
    {ds : List Dev} (hpc' : s'.pc t' = .abortDev ds) :
    ∀ d ∈ s'.devices, d ∈ ds ∨ s'.pqConnected d = false := by
  have hstay (ds' : List Dev) (h' : s.pc t' = .abortDev ds') (d : Dev) (hd : d ∈ s'.devices) :
      d ∈ ds' ∨ s'.pqConnected d = false := by
    refine (ha.loop t' ds' h' d (devices_eq hs ▸ hd)).imp id fun hpq => ?_
    by_contra hne
    rw [Bool.not_eq_false] at hne
    cases hpq.symm.trans (pqConnected_mono hs hne)
  rcases taskStep_moves hs with hpc | ⟨q, hgo, hpc⟩
  · rw [hpc] at hpc'
    exact hstay ds hpc'
  · by_cases htt : t' = t
    · subst htt
      rw [hpc, Function.update_self] at hpc'
      subst hpc'
      generalize hp : s.pc t' = p at hgo
      cases hgo with
      | abort =>
          obtain ⟨-, hs'⟩ := taskStep_abort hs
          unfold abort at hs'
          split at hs'
          · cases hs'
          · split at hs' <;> cases hs'
            · have heq : Pc.abortDev s.devices = .abortDev ds := by
                have hself := congrFun hpc t'
                simpa [State.goto] using hself
              cases heq
              exact fun d hd => .inl hd
            · have hself := congrFun hpc t'
              rw [Function.update_self, hp] at hself
              cases hself
      | abortDev d' _ =>
          intro d hd
          obtain ⟨ds', hp', hs'⟩ := taskStep_abortDev hs
          cases hp.symm.trans hp'
          rcases hstay _ hp d hd with hmem | hpq
          · rcases List.mem_cons.mp hmem with rfl | hmem
            · right
              rw [hs', abortDev_pqConnected, Function.update_self]
            · exact .inl hmem
          · exact .inr hpq
    · rw [hpc, Function.update_of_ne htt] at hpc'
      exact hstay ds hpc'

theorem pqConnected_stays {op : Op} (hs : taskStep s t op = some s')
    (hd : s.pqConnected d = false) : s'.pqConnected d = false := by
  by_contra hne
  rw [Bool.not_eq_false] at hne
  cases hd.symm.trans (pqConnected_mono hs hne)

/-- The event does not write the limit of an aborted connection, and there are fewer background
requests than an `unsigned` can count. -/
def Undisturbed (s : State τ) (e : Event τ) : Prop :=
  (s.connected = false → ∀ v, e.op ≠ .setMaxBackground v) ∧ s.numBackground < UINT_MAX

/-- A write to `max_background`. -/
def Op.setsMax : Op → Bool
  | .setMaxBackground _ => true
  | _ => false

/-- The limit of an aborted connection is changed by `fuse_abort_conn` only. -/
theorem maxBackground_stays {op : Op} (hs : taskStep s t op = some s')
    (hset : ∀ v, op ≠ .setMaxBackground v) (hmax : s.maxBackground = UINT_MAX) :
    s'.maxBackground = UINT_MAX := by
  by_cases hx : Var.maxBackground ∈ op.sets
  · cases op with
    | abortDev =>
        obtain ⟨ds, -, rfl⟩ := taskStep_abortDev hs
        cases ds with
        | nil => rfl
        | cons d ds => exact hmax
    | setMaxBackground v => exact absurd rfl (hset v)
    | _ => simp [Op.sets] at hx
  · exact Eq.trans (taskStep_agree hs hx) hmax

/-- Behind the loop all devices are disconnected, and the limit is gone. -/
theorem AbortOk.looped_step (ha : AbortOk s)
    (hab : ∀ t, (s.pc t).aborting = true → s.connected = false) {op : Op}
    (hun : Undisturbed s ⟨t, op⟩) (hs : taskStep s t op = some s') {t' : τ}
    (ht' : s'.pc t' = .abortFlush ∨ s'.pc t' = .abortSplice) :
    s'.maxBackground = UINT_MAX ∧ ∀ d ∈ s'.devices, s'.pqConnected d = false := by
  have hstay (h : s.pc t' = .abortFlush ∨ s.pc t' = .abortSplice) :
      s'.maxBackground = UINT_MAX ∧ ∀ d ∈ s'.devices, s'.pqConnected d = false := by
    obtain ⟨hmax, hdev⟩ := ha.looped t' h
    have hdead := hab t' (by rcases h with h | h <;> rw [h] <;> rfl)
    refine ⟨maxBackground_stays hs (hun.1 hdead) hmax, fun d hd => ?_⟩
    rw [devices_eq hs] at hd
    exact pqConnected_stays hs (hdev d hd)
  rcases taskStep_moves hs with hpc | ⟨q, hgo, hpc⟩
  · rw [hpc] at ht'
    exact hstay ht'
  · by_cases htt : t' = t
    · subst htt
      rw [hpc, Function.update_self] at ht'
      generalize hp : s.pc t' = p at hgo
      rcases ht' with rfl | rfl
      · cases hgo
        obtain ⟨ds, hp', rfl⟩ := taskStep_abortDev hs
        cases hp.symm.trans hp'
        refine ⟨rfl, fun d hd => ?_⟩
        exact (ha.loop t' [] hp d hd).resolve_left List.not_mem_nil
      · cases hgo
        exact hstay (.inl hp)
    · rw [hpc, Function.update_of_ne htt] at ht'
      exact hstay ht'

/-- Without a limit `flush_bg_queue` empties the queue of background requests. -/
theorem AbortOk.flushed_step (ha : AbortOk s) (hacc : Accounts s)
    (hab : ∀ t, (s.pc t).aborting = true → s.connected = false) {op : Op}
    (hun : Undisturbed s ⟨t, op⟩) (hs : taskStep s t op = some s') {t' : τ}
    (ht' : s'.pc t' = .abortSplice) : s'.bgQueue = [] := by
  have hstay (h : s.pc t' = .abortSplice) : s'.bgQueue = [] :=
    bgQueue_nil hs (ha.flushed t' h) (hab t' (by rw [h]; rfl))
  rcases taskStep_moves hs with hpc | ⟨q, hgo, hpc⟩
  · rw [hpc] at ht'
    exact hstay ht'
  · by_cases htt : t' = t
    · subst htt
      rw [hpc, Function.update_self] at ht'
      subst ht'
      generalize hp : s.pc t' = p at hgo
      cases hgo
      have hmax := (ha.looped t' (.inl hp)).1
      obtain ⟨q, l, hfl, rfl⟩ := taskStep_flush hs
      rcases flush_cases s t' q l with ⟨r, rest, -, -, heq⟩ | ⟨hdone, heq⟩
      · -- a round of the loop leaves the task where it was
        have hself := congrFun hpc t'
        rw [Function.update_self, heq] at hself
        cases hp.symm.trans hself
      · rw [heq]
        refine hdone.resolve_right fun hle => ?_
        have hsum := hacc.sum
        have hnum := hun.2
        rw [hmax] at hle
        omega
    · rw [hpc, Function.update_of_ne htt] at ht'
      exact hstay ht'

theorem pending_nil {op : Op} (hs : taskStep s t op = some s') (hfiq : s.fiqConnected = false)
    (hq : s.bgQueue = []) (hpend : s.pending = []) : s'.pending = [] := by
  refine List.eq_nil_iff_forall_not_mem.mpr fun r hr => ?_
  rcases (taskStep_lists hs).pending.mem hr with hr | ⟨-, ⟨-, hf⟩ | hhead⟩
  · rw [hpend] at hr
    cases hr
  · cases hfiq.symm.trans hf
  · rw [hq] at hhead
    cases hhead

theorem AbortOk.spliced_step (ha : AbortOk s) {op : Op} (hs : taskStep s t op = some s')
    (hf : s'.fiqConnected = false) :
    s'.pending = [] ∧ s'.bgQueue = [] ∧ ∀ d ∈ s'.devices, s'.pqConnected d = false := by
  rcases fiqConnected_cases hs with heq | ⟨rfl, -⟩
  · rw [hf] at heq
    obtain ⟨hpend, hq, hdev⟩ := ha.spliced heq.symm
    have hdead : s.connected = false := by
      by_contra hne
      rw [Bool.not_eq_false] at hne
      cases heq.trans (ha.live hne)
    refine ⟨pending_nil hs heq.symm hq hpend, bgQueue_nil hs hq hdead, fun d hd => ?_⟩
    rw [devices_eq hs] at hd
    exact pqConnected_stays hs (hdev d hd)
  · obtain ⟨hpc, rfl⟩ := taskStep_abortSplice hs
    exact ⟨rfl, ha.flushed t hpc, (ha.looped t (.inr hpc)).2⟩

theorem AbortOk.step (ha : AbortOk s) (h : Inv s) (hacc : Accounts s)
    (hab : ∀ t, (s.pc t).aborting = true → s.connected = false) {op : Op}
    (hun : Undisturbed s ⟨t, op⟩) (hs : taskStep s t op = some s') : AbortOk s' where
  live hconn := by
    have hold := connected_mono hs hconn
    rcases fiqConnected_cases hs with heq | ⟨rfl, -⟩
    · exact heq.trans (ha.live hold)
    · cases (hab t (by rw [(taskStep_abortSplice hs).1]; rfl)).symm.trans hold
  inside := ha.inside_step hs
  device _ := ha.device_step hs
  devices _ := ha.devices_step hs
  loop _ _ := ha.loop_step hs
  looped _ := ha.looped_step hab hun hs
  flushed _ := ha.flushed_step hacc hab hun hs
  spliced := ha.spliced_step hs
  toEnd := ha.toEnd_step h hs

/-- A run that leaves the limit of the aborted connection alone. -/
def QuietRun (s₀ : State τ) (es : List (Event τ)) (s : State τ) : Prop :=
  FittingRun s₀ es s ∧ (conn τ).Respects Undisturbed s₀ es

theorem QuietRun.abortOk {devices : List Dev} {m c : ℕ} {b : Bool} {es : List (Event τ)}
    (h : QuietRun (connection devices m c b) es s) :
    AbortOk s ∧ LockOk s ∧ ∀ t, (s.pc t).aborting = true → s.connected = false := by
  suffices hall : AbortOk s ∧ Accounts s ∧ LockOk s ∧
      ∀ t, (s.pc t).aborting = true → s.connected = false from ⟨hall.1, hall.2.2⟩
  refine h.1.history (P := fun es s => (conn τ).Respects Undisturbed (connection devices m c b) es →
    AbortOk s ∧ Accounts s ∧ LockOk s ∧ ∀ t, (s.pc t).aborting = true → s.connected = false)
    (fun _ => ?_) ?_ h.2
  · refine ⟨⟨fun _ => rfl, fun _ => .inl rfl, (by rintro _ ⟨⟩), ?_, (by rintro _ _ ⟨⟩), ?_,
        (by rintro _ ⟨⟩), (by rintro ⟨⟩), ?_⟩,
      ⟨rfl, [], List.nodup_nil, fun r => ?_, rfl⟩,
      fun t => iff_of_false (by rintro ⟨⟩) (by rintro ⟨⟩), (by rintro _ ⟨⟩)⟩
    · rintro d (hne | ⟨t, r, hr | hr⟩)
      · exact absurd rfl hne
      · cases hr
      · cases hr
    · rintro t (ht | ht) <;> cases ht
    · exact fun hne => absurd rfl hne
    · exact iff_of_false List.not_mem_nil fun hc => by cases hc.1
  · intro es s e s' hrun hinv hfit ih hs hresp
    obtain ⟨hold, hun⟩ := Lts.respects_snoc hrun hresp
    obtain ⟨ha, hacc, hl, hab⟩ := ih hold
    exact ⟨ha.step hinv hacc hab hun hs, hacc.step hinv (hinv.step hfit hs) hfit hs,
      hl.step hinv hfit hs, aborting_step hab hs⟩

/-- The abort of the connection is over. -/
structure Over (s : State τ) : Prop where
  connected : s.connected = false
  fiqConnected : s.fiqConnected = false
  bgQueue : s.bgQueue = []
  pending : s.pending = []
  processing : ∀ d, s.processing d = []
  toEnd2 : s.toEnd2 = []
  reads : ∀ d t, (s.pc t).reads d → s.pqConnected d = false
  outside : ∀ t, (s.pc t).inAbort = false

omit [DecidableEq τ] in
/-- Only the tasks have requests in hand. -/
theorem Over.task (ho : Over s) {p : Place τ} (hp : s.Holds p r) : ∃ t, p = .task t := by
  cases p with
  | task t => exact ⟨t, rfl⟩
  | bgQueue => exact absurd hp (by simp [State.Holds, ho.bgQueue])
  | pending => exact absurd hp (by simp [State.Holds, ho.pending])
  | processing d => exact absurd hp (by simp [State.Holds, ho.processing])
  | toEnd => exact absurd hp (by simp [State.Holds, ho.toEnd2])

theorem QuietRun.over {devices : List Dev} {m c : ℕ} {b : Bool} {es : List (Event τ)}
    (h : QuietRun (connection devices m c b) es s) (hconn : s.connected = false)
    (hover : ∀ t, (s.pc t).inAbort = false) : Over s := by
  obtain ⟨ha, -, -⟩ := h.abortOk
  have hfiq : s.fiqConnected = false := by
    by_contra hne
    rw [Bool.not_eq_false] at hne
    rcases ha.inside hne with hc | ⟨t, ht⟩
    · cases hconn.symm.trans hc
    · have hno := hover t
      cases hp : s.pc t <;> simp_all [Pc.aborting, Pc.inAbort]
  obtain ⟨hpend, hq, hdev⟩ := ha.spliced hfiq
  refine ⟨hconn, hfiq, hq, hpend, fun d => ?_, ?_,
    fun d t ht => hdev d (ha.devices d (.inr ⟨t, ht⟩)), hover⟩
  · by_contra hne
    exact hne (ha.device d (hdev d (ha.devices d (.inl hne))))
  · by_contra hne
    obtain ⟨t, ht⟩ := ha.toEnd hne
    cases (hover t).symm.trans ht

omit [DecidableEq τ] in
/-- What is in flight, or on `interrupts` or an `io` list, is in the hands of a task. -/
theorem Over.flight (ho : Over s) (h : Inv s)
    (hr : (∃ p, s.Holds p r) ∨ r ∈ s.interrupts ∨ ∃ d, r ∈ s.io d) :
    ∃ t, (s.pc t).flight = some r := by
  obtain ⟨v, w, hok⟩ := h.req r
  rcases hr with ⟨p, hp⟩ | hi | ⟨d, hd⟩
  · obtain ⟨t, rfl⟩ := ho.task hp
    exact ⟨t, hp⟩
  · obtain ⟨-, p, rfl, -⟩ := hok.interrupts hi
    have hp := (hok.place p).mpr rfl
    obtain ⟨t, rfl⟩ := ho.task hp
    exact ⟨t, hp⟩
  · obtain ⟨t, rfl, -⟩ := hok.io d hd
    exact ⟨t, (hok.place (.task t)).mpr rfl⟩

/-- When the abort of a connection is over, the input queue is disconnected and nobody has a
request but the tasks: the queues, the processing lists and the lists of `fuse_abort_conn` are
empty, and a request that is on `interrupts` or on an `io` list is in the hands of a task as
well. -/
theorem abort_strands_nothing {devices : List Dev} {m c : ℕ} {b : Bool} {es : List (Event τ)}
    (h : QuietRun (connection devices m c b) es s) (hconn : s.connected = false)
    (hover : ∀ t, (s.pc t).inAbort = false) :
    s.fiqConnected = false ∧ s.bgQueue = [] ∧ s.pending = [] ∧ (∀ d, s.processing d = []) ∧
      s.toEnd1 = [] ∧ s.toEnd2 = [] ∧
      ∀ r, ((∃ p, s.Holds p r) ∨ r ∈ s.interrupts ∨ ∃ d, r ∈ s.io d) →
        ∃ t, (s.pc t).flight = some r := by
  have ho := h.over hconn hover
  exact ⟨ho.fiqConnected, ho.bgQueue, ho.pending, ho.processing, h.1.inv.sound.toEnd1, ho.toEnd2,
    fun _ => ho.flight h.1.inv⟩

instance (s : State τ) (e : Event τ) : Decidable (Undisturbed s e) :=
  decidable_of_iff ((s.connected = false → e.op.setsMax = false) ∧ s.numBackground < UINT_MAX) (by
    refine and_congr_left fun _ => forall_congr' fun _ => ?_
    cases e.op <;> simp [Op.setsMax])

omit [DecidableEq τ] in
/-- The task `v` aborts the connection while `u` copies the request of `t`. -/
def abortRun (t u v : τ) : List (Event τ) :=
  [⟨t, .blockAlloc false⟩, ⟨t, .getReq (some 7) false⟩, ⟨t, .requestSend true⟩, ⟨t, .waitAnswer⟩,
    ⟨u, .read 0⟩, ⟨u, .startIo⟩, ⟨u, .lockRequest⟩, ⟨v, .abort⟩, ⟨v, .abortDev⟩, ⟨v, .abortDev⟩,
    ⟨v, .flush⟩, ⟨v, .abortSplice⟩, ⟨v, .abortEnd⟩]

theorem quietRun_abort : ∃ s : State (Fin 3),
    QuietRun (connection [0] 12 9 true) (abortRun 0 1 2) s ∧
    s.connected = false ∧ (∀ t, (s.pc t).inAbort = false) ∧ s.pc 1 = .copying 0 7 := by
  have hrun : ((conn (Fin 3)).run (connection [0] 12 9 true) (abortRun 0 1 2)).any fun s =>
      s.connected = false ∧ (∀ t, (s.pc t).inAbort = false) ∧ s.pc 1 = .copying 0 7 := by
    decide +kernel
  obtain ⟨s, hs, hfacts⟩ := (Option.any_eq_true _ _).mp hrun
  exact ⟨s, ⟨⟨hs, by decide +kernel⟩, by decide +kernel⟩, of_decide_eq_true hfacts⟩

theorem abort_strands_nothing_copying : ∃ s : State (Fin 3),
    QuietRun (connection [0] 12 9 true) (abortRun 0 1 2) s ∧ s.Holds (.task 1) 7 ∧
    (s.fiqConnected = false ∧ s.bgQueue = [] ∧ s.pending = [] ∧ (∀ d, s.processing d = []) ∧
      s.toEnd1 = [] ∧ s.toEnd2 = [] ∧
      ∀ r, ((∃ p, s.Holds p r) ∨ r ∈ s.interrupts ∨ ∃ d, r ∈ s.io d) →
        ∃ t, (s.pc t).flight = some r) := by
  obtain ⟨s, hs, hconn, hover, hpc⟩ := quietRun_abort
  exact ⟨s, hs, congrArg Pc.flight hpc, abort_strands_nothing hs hconn hover⟩

end KernelMemo.Fuse
