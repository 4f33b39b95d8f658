import KernelMemo.Fuse.RequestMoves
import KernelMemo.Fuse.RequestSafety

/-! # Every request is delivered once and answered once

* **Delivery.**  `fuse_dev_do_read` hands a request to the daemon once at most: it clears
  `FR_PENDING`, which nobody sets again.
* **Answers.**  `fuse_dev_do_write` accepts one answer to a request at most, and only to a request
  that was delivered before: the answer leaves its number in `out.h.unique`. -/

namespace KernelMemo.Fuse

variable {τ : Type*} [DecidableEq τ] {s s' : State τ} {r : ReqId} {t : τ} {d : Dev}

/-- The request that a step takes off the pending list for the daemon. -/
def delivery (s : State τ) (e : Event τ) : List ReqId :=
  match e.op with
  | .read _ => s.pending.head?.toList
  | _ => []

/-- The request that a step takes the answer of, with the number of the answer. -/
def acceptance (s : State τ) (e : Event τ) : List (ReqId × ℕ) :=
  match e.op with
  | .write d unique _ =>
      if s.pqConnected d then
        ((requestFind s d unique).toList.filter fun r => (s.req r).intrUnique ≠ unique).map
          fun r => (r, unique)
      else []
  | _ => []

/-! ### Delivery -/

/-- `fuse_dev_do_read` takes the first request of the pending list. -/
theorem read_eq (hs : read s t d = some s') : ∃ r rest, s.pending = r :: rest ∧ d ∈ s.devices ∧
    s' = (((s.touch r).upd r fun q => { q with pending := false }).listDel r).goto t
      (.taken d r) := by
  unfold read at hs
  split at hs
  next r rest hpend =>
    split at hs
    next hguard =>
      cases hs
      exact ⟨r, rest, hpend, hguard.2.2, rfl⟩
    next => cases hs
  next => cases hs

omit [DecidableEq τ] in
theorem req_upd_pending (hr : (s.req r).pending = false) (y : ReqId) :
    ((s.upd y fun q => { q with pending := false }).req r).pending = false := by
  by_cases hry : r = y
  · rw [hry, State.req_upd_self]
  · rw [(Frame.upd y s _).req r hry]
    exact hr

/-- `FR_PENDING` is never set again. -/
theorem taskStep_pending {op : Op} (hs : taskStep s t op = some s')
    (hborn : s.heap.life r ≠ .unborn) (hr : (s.req r).pending = false) :
    (s'.req r).pending = false := by
  by_cases hw : Field.pending ∈ op.writes
  · cases op with
    | read d =>
        obtain ⟨y, rest, -, -, rfl⟩ := read_eq (taskStep_read hs).2
        exact req_upd_pending (s := s.touch y) hr y
    | abortSplice =>
        obtain ⟨-, rfl⟩ := taskStep_abortSplice hs
        change (if r ∈ s.pending ++ s.toEnd2 then { s.req r with pending := false }
          else s.req r).pending = false
        split
        · rfl
        · exact hr
    | _ => simp [Op.writes] at hw
  · exact Eq.trans (taskStep_keeps hs hw r hborn).2 hr

theorem taskStep_born {op : Op} (hs : taskStep s t op = some s')
    (hborn : s.heap.life r ≠ .unborn) : s'.heap.life r ≠ .unborn := by
  obtain ⟨f, hf⟩ : ∃ f, f ∉ op.writes := by
    cases op with
    | read d => exact ⟨.finished, by simp [Op.writes]⟩
    | abortSplice => exact ⟨.finished, by simp [Op.writes]⟩
    | _ => exact ⟨.pending, by simp [Op.writes]⟩
  exact (taskStep_keeps hs hf r hborn).1

/-- The requests `l` have been delivered. -/
structure Delivered (l : List ReqId) (s : State τ) : Prop where
  nodup : l.Nodup
  done : ∀ r ∈ l, s.heap.life r ≠ .unborn ∧ (s.req r).pending = false
  reading : ∀ t r, (s.pc t).flight = some r → (s.pc t).stage = .reading → r ∈ l
  processing : ∀ d, ∀ r ∈ s.processing d, r ∈ l

/-- Only a read gets a task to have a request of the daemon in hand. -/
theorem Goes.reading {op : Op} {p q : Pc} (h : Goes op p q) (hfl : q.flight = some r)
    (hst : q.stage = .reading) :
    (∃ d, op = .read d) ∨ p.flight = some r ∧ p.stage = .reading := by
  cases h with
  | read d => exact .inl ⟨d, rfl⟩
  | startIo d => exact .inr ⟨hfl, rfl⟩
  | _ => cases hst

theorem Delivered.step {l : List ReqId} (hl : Delivered l s) (h : Inv s) {e : Event τ}
    (hs : taskStep s e.task e.op = some s') : Delivered (l ++ delivery s e) s' := by
  obtain ⟨t, op⟩ := e
  have hdone : ∀ r ∈ l, s'.heap.life r ≠ .unborn ∧ (s'.req r).pending = false := fun r hr =>
    ⟨taskStep_born hs (hl.done r hr).1, taskStep_pending hs (hl.done r hr).1 (hl.done r hr).2⟩
  have hproc : ∀ d, ∀ r ∈ s'.processing d, r ∈ l := by
    intro d r hr
    rcases ((taskStep_lists hs).processing d).mem hr with hr | ⟨hpc, -⟩
    · exact hl.processing d r hr
    · change s.pc t = _ at hpc
      exact hl.reading t r (by rw [hpc]; rfl) (by rw [hpc]; rfl)
  by_cases hop : ∃ d, op = .read d
  · obtain ⟨d, rfl⟩ := hop
    obtain ⟨r, rest, hpend, -, rfl⟩ := read_eq (taskStep_read hs).2
    obtain ⟨w, hr⟩ := h.of_holds (p := .pending) (r := r) (by simp [State.Holds, hpend])
    have hflag : (s.req r).pending = true := (hr.flight _ rfl).pending
    have hnew : delivery s ⟨t, .read d⟩ = [r] := by simp [delivery, hpend]
    have hlive : s.heap.life r ≠ .unborn := by
      rw [hr.live_of_place]
      decide
    rw [hnew]
    refine ⟨?_, ?_, ?_, fun d' y hy => List.mem_append_left _ (hproc d' y hy)⟩
    · refine nodup_snoc hl.nodup fun hmem => ?_
      cases hflag.symm.trans (hl.done r hmem).2
    · intro y hy
      rcases List.mem_append.mp hy with hy | hy
      · exact hdone y hy
      · rw [List.mem_singleton.mp hy]
        refine ⟨hlive, ?_⟩
        simp
    · intro t' y hfl hst
      by_cases ht : t' = t
      · rw [ht, State.pc_goto_self] at hfl
        cases hfl
        simp
      · rw [State.pc_goto_of_ne ht] at hfl hst
        exact List.mem_append_left _ (hl.reading t' y hfl hst)
  · have hnew : delivery s ⟨t, op⟩ = [] := by
      cases op with
      | read d => exact absurd ⟨d, rfl⟩ hop
      | _ => rfl
    rw [hnew, List.append_nil]
    refine ⟨hl.nodup, hdone, fun t' r hfl hst => ?_, hproc⟩
    rcases taskStep_moves hs with hpc | ⟨q, hgo, hpc⟩
    · rw [hpc] at hfl hst
      exact hl.reading t' r hfl hst
    · by_cases ht : t' = t
      · rw [hpc, ht, Function.update_self] at hfl hst
        rcases hgo.reading hfl hst with hread | ⟨hfl', hst'⟩
        · exact absurd hread hop
        · exact hl.reading t r hfl' hst'
      · rw [hpc, Function.update_of_ne ht] at hfl hst
        exact hl.reading t' r hfl hst

/-! ### Answers -/

/-- `fuse_dev_do_write` takes an answer to a request on the processing list, or it changes no
request. -/
theorem write_cases {unique : ℕ} {error : ℤ} (hs : write s t d unique error = some s') :
    acceptance s ⟨t, .write d unique error⟩ = [] ∧ s'.heap = s.heap ∨
      ∃ r, requestFind s d unique = some r ∧ (s.req r).intrUnique ≠ unique ∧ unique ≠ 0 ∧
        acceptance s ⟨t, .write d unique error⟩ = [(r, unique)] ∧ s'.heap.life = s.heap.life ∧
        (s'.req r).outUnique = unique ∧ ∀ y, y ≠ r → s'.req y = s.req y := by
  unfold write at hs
  split at hs
  next => cases hs
  next hhead =>
    split at hs
    next hconn =>
      cases hs
      rw [Bool.not_eq_true'] at hconn
      exact .inl ⟨by simp [acceptance, hconn], rfl⟩
    next hconn =>
      rw [Bool.not_eq_true', Bool.not_eq_false] at hconn
      split at hs
      next hfind =>
        cases hs
        exact .inl ⟨by simp [acceptance, hfind], rfl⟩
      next r hfind =>
        simp only at hs
        split at hs
        next hintr =>
          cases hs
          change (s.req r).intrUnique = unique at hintr
          exact .inl ⟨by simp [acceptance, hfind, hintr], rfl⟩
        next hintr =>
          cases hs
          change ¬ (s.req r).intrUnique = unique at hintr
          refine .inr ⟨r, hfind, hintr, fun hu => hhead (.inl hu),
            by simp [acceptance, hfind, hintr, hconn], rfl, ?_, fun y hy => ?_⟩
          · rw [State.req_goto, State.req_upd_self]
          · rw [State.req_goto, (Frame.upd r _ _).req y hy, State.req_addIo,
              State.req_listDel, (Frame.upd r _ _).req y hy]
            rfl

/-- The answers `l` have been accepted. -/
structure Answered (l : List (ReqId × ℕ)) (s : State τ) : Prop where
  nodup : (l.map Prod.fst).Nodup
  done : ∀ x ∈ l, s.heap.life x.1 ≠ .unborn ∧ (s.req x.1).outUnique = x.2 ∧ x.2 ≠ 0

theorem Answered.step {l : List (ReqId × ℕ)} (hl : Answered l s) (h : Inv s) {e : Event τ}
    (hs : taskStep s e.task e.op = some s') : Answered (l ++ acceptance s e) s' := by
  obtain ⟨t, op⟩ := e
  have hborn : ∀ x ∈ l, s'.heap.life x.1 ≠ .unborn := fun x hx => taskStep_born hs (hl.done x hx).1
  have hkeep (hsame : ∀ x ∈ l, (s'.req x.1).outUnique = (s.req x.1).outUnique) :
      ∀ x ∈ l, s'.heap.life x.1 ≠ .unborn ∧ (s'.req x.1).outUnique = x.2 ∧ x.2 ≠ 0 := fun x hx =>
    ⟨hborn x hx, (hsame x hx).trans (hl.done x hx).2.1, (hl.done x hx).2.2⟩
  by_cases hop : Field.outUnique ∈ op.writes
  · cases op with
    | write d u err =>
        obtain ⟨hnone, hheap⟩ | ⟨r, hfind, hintr, hu, hnew, hlife, hout, hother⟩ :=
          write_cases (taskStep_write hs).2
        · change Answered (l ++ acceptance s ⟨t, .write d u err⟩) s'
          rw [hnone, List.append_nil]
          refine ⟨hl.nodup, hkeep fun x _ => ?_⟩
          rw [State.req, hheap]
          rfl
        · change Answered (l ++ acceptance s ⟨t, .write d u err⟩) s'
          obtain ⟨w, hr⟩ := h.of_holds (requestFind_mem hfind)
          have hzero : (s.req r).outUnique = 0 := (hr.flight _ rfl).unanswered rfl
          have hfresh : ∀ x ∈ l, x.1 ≠ r := by
            intro x hx hxr
            obtain ⟨-, hx₁, hx₂⟩ := hl.done x hx
            rw [hxr, hzero] at hx₁
            exact hx₂ hx₁.symm
          rw [hnew]
          refine ⟨?_, fun x hx => ?_⟩
          · rw [List.map_append]
            refine nodup_snoc hl.nodup fun hmem => ?_
            obtain ⟨x, hx, hxr⟩ := List.mem_map.mp hmem
            exact hfresh x hx hxr
          · rcases List.mem_append.mp hx with hx | hx
            · exact hkeep (fun y hy => by rw [hother _ (hfresh y hy)]) x hx
            · rw [List.mem_singleton.mp hx]
              refine ⟨?_, hout, hu⟩
              rw [hlife, hr.live_of_place]
              decide
    | _ => simp [Op.writes] at hop
  · have hnew : acceptance s ⟨t, op⟩ = [] := by
      cases op with
      | write d u err => simp [Op.writes] at hop
      | _ => rfl
    rw [hnew, List.append_nil]
    exact ⟨hl.nodup, hkeep fun x hx => (taskStep_keeps hs hop x.1 (hl.done x hx).1).2⟩

omit [DecidableEq τ] in
/-- An answer is accepted to a request on the processing list of its device. -/
theorem acceptance_mem {e : Event τ} {x : ReqId × ℕ} (hx : x ∈ acceptance s e) :
    ∃ d, x.1 ∈ s.processing d := by
  unfold acceptance at hx
  split at hx
  next d u err heq =>
    split at hx
    next =>
      obtain ⟨r, hr, rfl⟩ := List.mem_map.mp hx
      have hfind : requestFind s d u = some r := by simpa using (List.mem_filter.mp hr).1
      exact ⟨d, requestFind_mem hfind⟩
    next => cases hx
  next => cases hx

/-- The deliveries and the answers of a run. -/
structure History (del : List ReqId) (acc : List (ReqId × ℕ)) (s : State τ) : Prop where
  delivered : Delivered del s
  answered : Answered acc s
  subset : ∀ x ∈ acc, x.1 ∈ del

theorem FittingRun.past {devices : List Dev} {m c : ℕ} {b : Bool} {es : List (Event τ)}
    (h : FittingRun (connection devices m c b) es s) :
    History ((conn τ).collect delivery (connection devices m c b) es)
      ((conn τ).collect acceptance (connection devices m c b) es) s := by
  refine h.history (P := fun es s => History
    ((conn τ).collect delivery (connection devices m c b) es)
    ((conn τ).collect acceptance (connection devices m c b) es) s) ?_ ?_
  · refine ⟨⟨List.nodup_nil, (by rintro _ ⟨⟩), fun t r hfl => ?_, (by rintro _ _ ⟨⟩)⟩,
      ⟨List.nodup_nil, (by rintro _ ⟨⟩)⟩, (by rintro _ ⟨⟩)⟩
    cases hfl
  · intro es s e s' hrun hinv _ hP hs
    rw [Lts.collect_snoc delivery hrun, Lts.collect_snoc acceptance hrun]
    refine ⟨hP.delivered.step hinv hs, hP.answered.step hinv hs, fun x hx => ?_⟩
    rcases List.mem_append.mp hx with hx | hx
    · exact List.mem_append_left _ (hP.subset x hx)
    · obtain ⟨d, hd⟩ := acceptance_mem hx
      exact List.mem_append_left _ (hP.delivered.processing d _ hd)

/-- No request is delivered to the daemon twice, no request is answered twice, and only what was
delivered is answered. -/
theorem delivered_once {devices : List Dev} {m c : ℕ} {b : Bool} {es : List (Event τ)}
    (h : FittingRun (connection devices m c b) es s) :
    ((conn τ).collect delivery (connection devices m c b) es).Nodup ∧
      (((conn τ).collect acceptance (connection devices m c b) es).map Prod.fst).Nodup ∧
      ∀ x ∈ (conn τ).collect acceptance (connection devices m c b) es,
        x.1 ∈ (conn τ).collect delivery (connection devices m c b) es :=
  ⟨h.past.delivered.nodup, h.past.answered.nodup, h.past.subset⟩

theorem delivered_once_answered : ∃ s : State (Fin 2),
    FittingRun (connection [0] 12 9 true) (answeredRun 0 1) s ∧
    (((conn (Fin 2)).collect delivery (connection [0] 12 9 true) (answeredRun 0 1)).Nodup ∧
      (((conn (Fin 2)).collect acceptance (connection [0] 12 9 true) (answeredRun 0 1)).map
        Prod.fst).Nodup ∧
      ∀ x ∈ (conn (Fin 2)).collect acceptance (connection [0] 12 9 true) (answeredRun 0 1),
        x.1 ∈ (conn (Fin 2)).collect delivery (connection [0] 12 9 true) (answeredRun 0 1)) := by
  obtain ⟨s, hs⟩ := fittingRun_answered
  exact ⟨s, hs, delivered_once hs⟩

end KernelMemo.Fuse
