import KernelMemo.Fuse.Request
import KernelMemo.Lib.LinkedQueue

/-! # The input queue and its forgets

`fuse_queue_forget`, `dequeue_forget`, the two reads of forgets and the choice that
`fuse_dev_do_read` makes between interrupts, forgets and requests, in `dev.c`.

* **Links.**  A `struct fuse_forget_link` is allocated by its user, with the lookup or the inode
  that may have to forget.  Its user frees it or gives it to the queue; the read that takes it off
  the queue frees it then.
* **Reads.**  A read takes forgets off the queue before it copies them.  When the buffer is too
  small for a single forget, or when a copy fails, what was taken is lost.
* **Left out.**  What a request carries, what becomes of it behind the pending list, and the
  numbers of `fuse_get_unique` (`Fuse/Request.lean`). -/

namespace KernelMemo.Fuse

/-- Forget links are named by their addresses. -/
abbrev LinkId := ℕ

/-- `struct fuse_forget_one` -/
structure ForgetOne where
  nodeid : ℕ
  nlookup : ℕ
deriving DecidableEq, Repr

/-- The sizes of `struct fuse_in_header`, `struct fuse_forget_in`, `struct fuse_batch_forget_in`
and `struct fuse_forget_one`. -/
def sizeofInHeader : ℕ := 40
def sizeofForgetIn : ℕ := 8
def sizeofBatchForgetIn : ℕ := 8
def sizeofForgetOne : ℕ := 16

/-- `struct fuse_iqueue`, with the links and `fc->minor`. -/
structure Iqueue where
  connected : Bool
  pending : List ReqId
  interrupts : List ReqId
  /-- the links with their `forget_one` -/
  links : Heap ForgetOne
  /-- the links that their users have not given away -/
  held : LinkId → Bool
  /-- `forget_list_head`, `forget_list_tail` and the `next` fields -/
  forgets : LinkedQueue LinkId
  forgetBatch : ℤ
  minor : ℕ
  /-- `fuse_abort_conn` is in its loop over the forgets, with the lock held -/
  aborting : Bool
  /-- a freed link has been used -/
  fault : Bool

/-- What the daemon gets, and what is lost on the way. -/
inductive Message where
  | interrupt (r : ReqId)
  | request (r : ReqId)
  | forgets (l : List ForgetOne)
  /-- forgets that were taken and not copied -/
  | lost (l : List ForgetOne)
  /-- `-EINVAL` before anything is taken -/
  | invalid
deriving DecidableEq, Repr

/-- What happens to the queue. -/
inductive FiqEvent where
  /-- `fuse_alloc_forget` finds the link `a` -/
  | alloc (a : LinkId)
  /-- the user of the link frees it -/
  | kfree (a : LinkId)
  | queueForget (a : LinkId) (nodeid nlookup : ℕ)
  | queueRequest (r : ReqId)
  | queueInterrupt (r : ReqId)
  /-- `request_wait_answer` or `request_end` takes the request off the list -/
  | unqueueRequest (r : ReqId)
  | unqueueInterrupt (r : ReqId)
  /-- a read with a buffer of `nbytes`, whose copies succeed if `ok` -/
  | read (nbytes : ℕ) (ok : Bool)
  /-- `fuse_abort_conn` takes `fiq->waitq.lock` -/
  | abort
  /-- one round of its loop `while (forget_pending(fiq))`, or the end -/
  | dropForget
deriving DecidableEq, Repr

/-- The event takes `fiq->waitq.lock`. -/
def FiqEvent.locks : FiqEvent → Bool
  | .alloc _ | .kfree _ | .dropForget => false
  | _ => true

/-- The forgets that come with a message. -/
def Message.carried : Message → List ForgetOne
  | .forgets l | .lost l => l
  | _ => []

/-- The message is a request. -/
def Message.isRequest : Message → Bool
  | .request _ => true
  | _ => false

namespace Iqueue

variable (s : Iqueue)

/-- An access to the link `a`. -/
def touch (a : LinkId) : Iqueue := { s with fault := s.fault || decide (s.links.life a ≠ .live) }

/-- `kfree` of a link. -/
def kfree (a : LinkId) : Iqueue :=
  let s := s.touch a
  { s with links := s.links.free a }

/-- `fuse_alloc_forget`: `kzalloc` clears the link. -/
def allocForget (a : LinkId) : Option Iqueue :=
  (s.links.alloc a ⟨0, 0⟩).map fun h =>
    { s with
      links := h
      held := Function.update s.held a true
      forgets := { s.forgets with next := Function.update s.forgets.next (some a) none } }

/-- The user of the link `a` gives it away, filled in. -/
def give (a : LinkId) (x : ForgetOne) : Iqueue :=
  { s with links := s.links.write a x, held := Function.update s.held a false }

/-- `fuse_queue_forget` -/
def queueForget (a : LinkId) (nodeid nlookup : ℕ) : Iqueue :=
  let s := (s.touch a).give a ⟨nodeid, nlookup⟩
  if s.connected then
    let s := match s.forgets.tail with
      | some b => s.touch b
      | none => s
    { s with forgets := s.forgets.push a }
  else s.kfree a

/-- `forget_pending` -/
def forgetPending : Bool := (s.forgets.next none).isSome

/-- The loop over links that were taken: at most `count` links from the pointer `head`, each of
them is read and freed. -/
def freeLinks : ℕ → Option LinkId → Iqueue → Iqueue × List ForgetOne
  | 0, _, s => (s, [])
  | _ + 1, none, s => (s, [])
  | count + 1, some a, s =>
      let r := freeLinks count (s.forgets.next (some a)) (s.kfree a)
      (r.1, s.links.mem a :: r.2)

/-- `dequeue_forget`: the walk goes through the fields of links that must be there. -/
def dequeueForget (max : ℕ) : Iqueue × Option LinkId × ℕ :=
  let d := s.forgets.take max
  ({ s with forgets := d.1 }, d.2)

/-- Take at most `max` forgets off the queue, and free their links. -/
def takeForgets (max : ℕ) : Iqueue × List ForgetOne :=
  let d := s.dequeueForget max
  freeLinks d.2.2 d.2.1 d.1

/-- `fuse_read_single_forget` -/
def readSingleForget (nbytes : ℕ) (ok : Bool) : Iqueue × Message :=
  let d := s.takeForgets 1
  if nbytes < sizeofInHeader + sizeofForgetIn then (d.1, .lost d.2)
  else (d.1, if ok then .forgets d.2 else .lost d.2)

/-- `fuse_read_batch_forget` -/
def readBatchForget (nbytes : ℕ) (ok : Bool) : Iqueue × Message :=
  let len := sizeofInHeader + sizeofBatchForgetIn
  if nbytes < len then (s, .invalid)
  else
    let d := s.takeForgets ((nbytes - len) / sizeofForgetOne)
    (d.1, if ok then .forgets d.2 else .lost d.2)

/-- `fuse_read_forget` -/
def readForget (nbytes : ℕ) (ok : Bool) : Iqueue × Message :=
  match s.forgets.next none with
  | some a =>
      let s := s.touch a
      if s.minor < 16 ∨ s.forgets.next (some a) = none then s.readSingleForget nbytes ok
      else s.readBatchForget nbytes ok
  | none => ({ s with fault := true }, .invalid)

/-- `fuse_dev_do_read` takes the first request. -/
def readRequest : Option (Iqueue × Message) :=
  match s.pending with
  | r :: rest => some ({ s with pending := rest }, .request r)
  | [] => none

/-- `fuse_dev_do_read`, to the end of its first section under `fiq->waitq.lock` or to its return.
A read that waits, and one of a disconnected queue, is no step. -/
def read (nbytes : ℕ) (ok : Bool) : Option (Iqueue × Message) :=
  if !s.connected then none
  else match s.interrupts with
    | r :: rest => some ({ s with interrupts := rest }, .interrupt r)
    | [] =>
        if s.forgetPending then
          if s.pending = [] then some (s.readForget nbytes ok)
          else
            -- `fiq->forget_batch-- > 0`
            let batch := s.forgetBatch
            let s := { s with forgetBatch := batch - 1 }
            if 0 < batch then some (s.readForget nbytes ok)
            else
              let s := if s.forgetBatch ≤ -8 then { s with forgetBatch := 16 } else s
              s.readRequest
        else s.readRequest

/-- `fuse_abort_conn`, from `fiq->connected = 0` to the loop over the forgets. -/
def abort : Iqueue :=
  if s.connected then { s with connected := false, pending := [], aborting := true } else s

/-- `while (forget_pending(fiq)) kfree(dequeue_forget(fiq, 1, NULL))` -/
def dropForget : Iqueue × List ForgetOne :=
  if s.forgetPending then s.takeForgets 1 else ({ s with aborting := false }, [])

/-- One step.  While `fuse_abort_conn` has `fiq->waitq.lock`, the others wait for it. -/
def step (e : FiqEvent) : Option Iqueue :=
  if s.aborting && e.locks then none
  else match e with
    | .alloc a => s.allocForget a
    | .kfree a =>
        if s.held a then some { s.kfree a with held := Function.update s.held a false } else none
    | .queueForget a nodeid nlookup =>
        if s.held a then some (s.queueForget a nodeid nlookup) else none
    | .queueRequest r =>
        if s.connected then some { s with pending := s.pending ++ [r] } else none
    | .queueInterrupt r => some { s with interrupts := s.interrupts ++ [r] }
    | .unqueueRequest r => some { s with pending := s.pending.erase r }
    | .unqueueInterrupt r => some { s with interrupts := s.interrupts.erase r }
    | .read nbytes ok => (s.read nbytes ok).map Prod.fst
    | .abort => some s.abort
    | .dropForget => if s.aborting then some s.dropForget.1 else none

end Iqueue

/-- The input queue of a new connection. -/
def fuseIqueueInit (minor : ℕ) : Iqueue where
  connected := true
  pending := []
  interrupts := []
  links := { life := fun _ => .unborn, mem := fun _ => ⟨0, 0⟩ }
  held := fun _ => false
  forgets := .empty
  forgetBatch := 0
  minor := minor
  aborting := false
  fault := false

/-- The input queue as a transition system. -/
def fiq : Lts Iqueue FiqEvent where
  init s := ∃ minor, s = fuseIqueueInit minor
  step s e := s.step e

/-! ### The queue of forgets is a FIFO -/

namespace Iqueue

variable {s s' : Iqueue} {l : List LinkId} {a : LinkId}

/-- The queue has the links `l`; all other links belong to their users. -/
structure Ok (s : Iqueue) (l : List LinkId) : Prop where
  holds : s.forgets.Holds l
  live : ∀ a, s.links.Live a ↔ s.held a = true ∨ a ∈ l
  unlinked : ∀ a, s.held a = true → a ∉ l ∧ s.forgets.next (some a) = none
  fault : s.fault = false

theorem touch_of_live (h : s.links.Live a) : s.touch a = s := by
  rw [touch, decide_eq_false (not_not.mpr h), Bool.or_false]

theorem kfree_of_live (h : s.links.Live a) : s.kfree a = { s with links := s.links.free a } := by
  rw [Iqueue.kfree, touch_of_live h]

/-- The links `k` are freed. -/
def freed (s : Iqueue) (k : List LinkId) : Iqueue :=
  { s with links := k.foldl Heap.free s.links }

theorem life_freed (s : Iqueue) (k : List LinkId) (a : LinkId) :
    (s.freed k).links.life a = if a ∈ k then .freed else s.links.life a := by
  unfold freed
  generalize s.links = h
  induction k generalizing h with
  | nil => rfl
  | cons b k ih =>
      simp only [List.foldl_cons, List.mem_cons] at ih ⊢
      rw [ih]
      by_cases hk : a ∈ k
      · simp [hk]
      · by_cases hab : a = b
        · simp [hab]
        · simp [hk, hab, Heap.free_life_of_ne]

theorem mem_freed (s : Iqueue) (k : List LinkId) : (s.freed k).links.mem = s.links.mem := by
  unfold freed
  generalize s.links = h
  induction k generalizing h with
  | nil => rfl
  | cons b k ih => rw [List.foldl_cons]; exact ih (h.free b)

/-- The loop over the links that were taken frees them all, and reads each one before that. -/
theorem freeLinks_eq {p : Option LinkId} {k : List LinkId}
    (h : LinkedQueue.Links s.forgets.next p k none) (hnd : k.Nodup)
    (hlive : ∀ a ∈ k, s.links.Live a) :
    freeLinks k.length p s = (s.freed k, k.map s.links.mem) := by
  induction k generalizing p s with
  | nil => rfl
  | cons a k ih =>
      obtain ⟨rfl, h⟩ := h
      obtain ⟨hak, hnd⟩ := List.nodup_cons.mp hnd
      rw [List.length_cons, freeLinks, kfree_of_live (hlive a List.mem_cons_self)]
      rw [ih (s := { s with links := s.links.free a }) h hnd fun b hb => ?_]
      · rfl
      · have hba : b ≠ a := fun hba => hak (hba ▸ hb)
        exact (Heap.free_live _ _ _).mpr ⟨hba, hlive b (List.mem_cons_of_mem _ hb)⟩

theorem Ok.live_of_mem (h : s.Ok l) (ha : a ∈ l) : s.links.Live a := (h.live a).mpr (.inr ha)

theorem ok_init (minor : ℕ) : (fuseIqueueInit minor).Ok [] where
  holds := LinkedQueue.holds_empty
  live a := by simp [fuseIqueueInit]
  unlinked := by rintro a ⟨⟩
  fault := rfl

/-- What comes off the queue: the first links, which are freed. -/
theorem Ok.takeForgets_eq (h : s.Ok l) (max : ℕ) :
    s.takeForgets max = (freed { s with forgets := (s.forgets.take max).1 } (l.take max),
      (l.take max).map s.links.mem) := by
  obtain ⟨-, hlinks, hcount⟩ := h.holds.take max
  have hlen : (s.forgets.take max).2.2 = (l.take max).length := by rw [hcount, List.length_take]
  rw [takeForgets, dequeueForget, hlen]
  exact freeLinks_eq (s := { s with forgets := (s.forgets.take max).1 }) hlinks
    (h.holds.nodup.sublist (List.take_sublist max l))
    fun a ha => h.live_of_mem (List.mem_of_mem_take ha)

theorem Ok.takeForgets (h : s.Ok l) (max : ℕ) : (s.takeForgets max).1.Ok (l.drop max) := by
  rw [h.takeForgets_eq]
  refine ⟨(h.holds.take max).1, fun a => ?_, fun a ha => ?_, h.fault⟩
  · have hmem : a ∈ l ↔ a ∈ l.take max ∨ a ∈ l.drop max := by
      rw [← List.mem_append, List.take_append_drop]
    have hnd := h.holds.nodup
    rw [← List.take_append_drop max l] at hnd
    rw [Heap.Live, life_freed]
    by_cases hk : a ∈ l.take max
    · have hheld : s.held a ≠ true := fun hh => (h.unlinked a hh).1 (List.mem_of_mem_take hk)
      have hdrop : a ∉ l.drop max := fun hd => (List.nodup_append.mp hnd).2.2 a hk a hd rfl
      simp [hk, freed, hheld, hdrop]
    · have hlive := h.live a
      rw [hmem, or_iff_right hk] at hlive
      rw [if_neg hk]
      exact hlive
  · obtain ⟨hl, hnext⟩ := h.unlinked a ha
    exact ⟨fun hd => hl (List.mem_of_mem_drop hd), LinkedQueue.take_next_eq_none hnext max⟩

/-- The forgets that an event puts on the queue. -/
def queued (s : Iqueue) : FiqEvent → List ForgetOne
  | .queueForget _ nodeid nlookup => if s.connected then [⟨nodeid, nlookup⟩] else []
  | _ => []

/-- The forgets that an event takes off the queue. -/
def taken (s : Iqueue) : FiqEvent → List ForgetOne
  | .read nbytes ok => (s.read nbytes ok).elim [] fun r => r.2.carried
  | .dropForget => s.dropForget.2
  | _ => []

/-- A step from the queue `l` puts `new` on it and takes `old` off. -/
def Steps (s : Iqueue) (l : List LinkId) (s' : Iqueue) (new old : List ForgetOne) : Prop :=
  ∃ l', s'.Ok l' ∧ l.map s.links.mem ++ new = old ++ l'.map s'.links.mem

/-- The queue is left alone. -/
theorem Ok.same (h : s.Ok l) (hlinks : s'.links = s.links) (hheld : s'.held = s.held)
    (hforgets : s'.forgets = s.forgets) (hfault : s'.fault = s.fault) : s.Steps l s' [] [] := by
  refine ⟨l, ⟨?_, ?_, ?_, ?_⟩, by rw [hlinks, List.append_nil, List.nil_append]⟩
  · rw [hforgets]
    exact h.holds
  · rw [hlinks, hheld]
    exact h.live
  · rw [hheld, hforgets]
    exact h.unlinked
  · rw [hfault]
    exact h.fault

theorem Ok.allocForget (h : s.Ok l) (hs : s.allocForget a = some s') : s.Steps l s' [] [] := by
  obtain ⟨m, hm, rfl⟩ := Option.map_eq_some_iff.mp hs
  have hal : a ∉ l := fun hal => by
    have hlive := h.live_of_mem hal
    rw [Heap.Live, Heap.alloc_unborn hm] at hlive
    cases hlive
  refine ⟨l, ⟨?_, fun b => ?_, fun b hb => ?_, h.fault⟩, ?_⟩
  · refine ⟨?_, h.holds.tail, h.holds.nodup⟩
    dsimp only
    rw [Function.update_of_ne (Option.some_ne_none a).symm]
    refine h.holds.links.congr fun b hb => Function.update_of_ne ?_ ..
    rintro ⟨⟩
    exact hal hb
  · rw [Heap.alloc_live hm, h.live]
    by_cases hba : b = a <;> simp [hba]
  · by_cases hba : b = a
    · subst hba
      exact ⟨hal, Function.update_self ..⟩
    · dsimp only at hb ⊢
      rw [Function.update_of_ne hba] at hb
      rw [Function.update_of_ne (by simpa using hba)]
      exact h.unlinked b hb
  · rw [List.append_nil, List.nil_append]
    refine List.map_congr_left fun b hb => (Heap.alloc_mem_of_ne hm ?_).symm
    rintro rfl
    exact hal hb

/-- The user of a link frees it. -/
theorem Ok.kfree (h : s.Ok l) (ha : s.held a = true) :
    s.Steps l { s.kfree a with held := Function.update s.held a false } [] [] := by
  obtain ⟨hal, -⟩ := h.unlinked a ha
  rw [kfree_of_live ((h.live a).mpr (.inl ha))]
  refine ⟨l, ⟨h.holds, fun b => ?_, fun b hb => ?_, h.fault⟩, by simp⟩
  · rw [Heap.free_live, h.live]
    by_cases hba : b = a
    · subst hba
      simp [hal]
    · simp [hba]
  · by_cases hba : b = a
    · simp [hba] at hb
    · dsimp only at hb
      rw [Function.update_of_ne hba] at hb
      exact h.unlinked b hb

theorem Ok.queueForget (h : s.Ok l) (ha : s.held a = true) (nodeid nlookup : ℕ) :
    s.Steps l (s.queueForget a nodeid nlookup)
      (if s.connected then [⟨nodeid, nlookup⟩] else []) [] := by
  obtain ⟨hal, hnext⟩ := h.unlinked a ha
  have hlive : s.links.Live a := (h.live a).mpr (.inl ha)
  have hmem : l.map (s.give a ⟨nodeid, nlookup⟩).links.mem = l.map s.links.mem := by
    refine List.map_congr_left fun b hb => Heap.write_mem_of_ne _ _ ?_
    rintro rfl
    exact hal hb
  have hheld : ∀ b, (s.give a ⟨nodeid, nlookup⟩).held b = true ↔ b ≠ a ∧ s.held b = true := by
    intro b
    by_cases hba : b = a <;> simp [give, hba]
  have hgive : ∀ b, (s.give a ⟨nodeid, nlookup⟩).links.Live b ↔ s.held b = true ∨ b ∈ l := h.live
  rw [Iqueue.queueForget, touch_of_live hlive]
  dsimp only
  by_cases hc : s.connected = true
  · have htail : (match (s.give a ⟨nodeid, nlookup⟩).forgets.tail with
        | some b => (s.give a ⟨nodeid, nlookup⟩).touch b
        | none => s.give a ⟨nodeid, nlookup⟩) = s.give a ⟨nodeid, nlookup⟩ := by
      cases ht : (s.give a ⟨nodeid, nlookup⟩).forgets.tail with
      | none => rfl
      | some b =>
          have hb : l.getLast? = some b := h.holds.tail.symm.trans ht
          exact touch_of_live ((hgive b).mpr (.inr (List.mem_of_getLast? hb)))
    rw [if_pos (show (s.give a _).connected = true from hc), if_pos hc, htail]
    refine ⟨l ++ [a], ⟨h.holds.push hal hnext, fun b => ?_, fun b hb => ?_, h.fault⟩, ?_⟩
    · refine (hgive b).trans ?_
      rw [hheld, List.mem_append, List.mem_singleton]
      by_cases hba : b = a
      · simp [hba, ha]
      · simp [hba]
    · obtain ⟨hba, hb⟩ := (hheld b).mp hb
      obtain ⟨hbl, hbn⟩ := h.unlinked b hb
      refine ⟨by simp [hbl, hba], ?_⟩
      have hbt : some b ≠ s.forgets.tail := by
        rw [h.holds.tail]
        exact fun hbt => hbl (List.mem_of_getLast? hbt.symm)
      exact (Function.update_of_ne hbt ..).trans hbn
    · rw [List.map_append, hmem, List.nil_append]
      simp [give]
  · rw [if_neg (show ¬ (s.give a _).connected = true from hc), if_neg hc,
      kfree_of_live (show (s.give a _).links.Live a from hlive)]
    refine ⟨l, ⟨h.holds, fun b => ?_, fun b hb => ?_, h.fault⟩, ?_⟩
    · rw [Heap.free_live, hgive, hheld]
      by_cases hba : b = a
      · subst hba
        simp [hal]
      · simp [hba]
    · exact h.unlinked b ((hheld b).mp hb).2
    · rw [List.append_nil, List.nil_append]
      exact hmem.symm

theorem Ok.takes (h : s.Ok l) (max : ℕ) :
    s.Steps l (s.takeForgets max).1 [] (s.takeForgets max).2 := by
  refine ⟨l.drop max, h.takeForgets max, ?_⟩
  rw [h.takeForgets_eq, List.append_nil, mem_freed, ← List.map_append, List.take_append_drop]

theorem Ok.readForget (h : s.Ok l) (hp : s.forgetPending = true) (nbytes : ℕ) (ok : Bool) :
    s.Steps l (s.readForget nbytes ok).1 [] (s.readForget nbytes ok).2.carried := by
  obtain ⟨a, ha⟩ := Option.isSome_iff_exists.mp hp
  have hal : a ∈ l := List.mem_of_head? (h.holds.head.symm.trans ha)
  rw [Iqueue.readForget, ha]
  dsimp only
  rw [touch_of_live (h.live_of_mem hal)]
  split
  · have htake := h.takes 1
    unfold readSingleForget
    split
    · exact htake
    · cases ok <;> exact htake
  · unfold readBatchForget
    dsimp only
    split
    · exact ⟨l, h, by rw [List.append_nil]; rfl⟩
    · have htake := h.takes
        ((nbytes - (sizeofInHeader + sizeofBatchForgetIn)) / sizeofForgetOne)
      cases ok <;> exact htake

/-- A read of a request leaves the forgets alone. -/
theorem readRequest_eq {r : Iqueue × Message} (hs : s.readRequest = some r) :
    ∃ i rest, s.pending = i :: rest ∧ r = ({ s with pending := rest }, .request i) := by
  unfold readRequest at hs
  split at hs
  next i rest hp => exact ⟨i, rest, hp, (Option.some.inj hs).symm⟩
  next => cases hs

/-- What a read takes: interrupts come first, and `forget_batch` decides between forgets and
requests. -/
inductive ReadStep (s : Iqueue) (nbytes : ℕ) (ok : Bool) : Iqueue × Message → Prop where
  | interrupt (r : ReqId) (rest : List ReqId) (hi : s.interrupts = r :: rest) :
      ReadStep s nbytes ok ({ s with interrupts := rest }, .interrupt r)
  | onlyForgets (hi : s.interrupts = []) (hf : s.forgetPending = true) (hp : s.pending = []) :
      ReadStep s nbytes ok (s.readForget nbytes ok)
  | forgetsTurn (hi : s.interrupts = []) (hf : s.forgetPending = true) (hp : s.pending ≠ [])
      (hb : 0 < s.forgetBatch) :
      ReadStep s nbytes ok (readForget { s with forgetBatch := s.forgetBatch - 1 } nbytes ok)
  | requestsTurn (i : ReqId) (rest : List ReqId) (hi : s.interrupts = [])
      (hf : s.forgetPending = true) (hp : s.pending = i :: rest) (hb : s.forgetBatch ≤ 0) :
      ReadStep s nbytes ok ({ s with
        forgetBatch := if s.forgetBatch ≤ -7 then 16 else s.forgetBatch - 1, pending := rest },
        .request i)
  | onlyRequests (i : ReqId) (rest : List ReqId) (hf : ¬ s.forgetPending = true)
      (hp : s.pending = i :: rest) :
      ReadStep s nbytes ok ({ s with pending := rest }, .request i)

theorem read_cases {nbytes : ℕ} {ok : Bool} {r : Iqueue × Message}
    (hs : s.read nbytes ok = some r) : ReadStep s nbytes ok r := by
  unfold Iqueue.read at hs
  split at hs
  next => cases hs
  next =>
    split at hs
    next i rest hi => cases hs; exact .interrupt i rest hi
    next hi =>
      split at hs
      next hf =>
        split at hs
        next hp => cases hs; exact .onlyForgets hi hf hp
        next hp =>
          dsimp only at hs
          split at hs
          next hb => cases hs; exact .forgetsTurn hi hf hp hb
          next hb =>
            have hreset : (if s.forgetBatch - 1 ≤ -8 then { s with forgetBatch := 16 }
                else { s with forgetBatch := s.forgetBatch - 1 }) =
                { s with forgetBatch := if s.forgetBatch ≤ -7 then 16 else s.forgetBatch - 1 } := by
              split_ifs <;> first | rfl | omega
            rw [hreset] at hs
            obtain ⟨i, rest, hpend, rfl⟩ := readRequest_eq hs
            exact .requestsTurn i rest hi hf hpend (by omega)
      next hf =>
        obtain ⟨i, rest, hp, rfl⟩ := readRequest_eq hs
        exact .onlyRequests i rest hf hp

theorem Ok.withBatch (h : s.Ok l) (b : ℤ) : Ok { s with forgetBatch := b } l :=
  ⟨h.holds, h.live, h.unlinked, h.fault⟩

theorem Ok.read (h : s.Ok l) {nbytes : ℕ} {ok : Bool} {r : Iqueue × Message}
    (hs : s.read nbytes ok = some r) : s.Steps l r.1 [] r.2.carried := by
  cases read_cases hs with
  | interrupt i rest hi => exact h.same rfl rfl rfl rfl
  | onlyForgets hi hf hp => exact h.readForget hf nbytes ok
  | forgetsTurn hi hf hp hb => exact (h.withBatch (s.forgetBatch - 1)).readForget hf nbytes ok
  | requestsTurn i rest hi hf hp hb => exact h.same rfl rfl rfl rfl
  | onlyRequests i rest hf hp => exact h.same rfl rfl rfl rfl

theorem Ok.dropForget (h : s.Ok l) : s.Steps l s.dropForget.1 [] s.dropForget.2 := by
  unfold Iqueue.dropForget
  split
  · exact h.takes 1
  · exact h.same rfl rfl rfl rfl

theorem Ok.step {e : FiqEvent} (h : s.Ok l) (hs : s.step e = some s') :
    s.Steps l s' (s.queued e) (s.taken e) := by
  unfold Iqueue.step at hs
  obtain ⟨-, hs⟩ := Option.ite_none_left_eq_some.mp hs
  cases e with
  | alloc a => exact h.allocForget hs
  | kfree a =>
      obtain ⟨ha, hs⟩ := Option.ite_none_right_eq_some.mp hs
      cases hs
      exact h.kfree ha
  | queueForget a nodeid nlookup =>
      obtain ⟨ha, hs⟩ := Option.ite_none_right_eq_some.mp hs
      cases hs
      exact h.queueForget ha nodeid nlookup
  | queueRequest r =>
      obtain ⟨-, hs⟩ := Option.ite_none_right_eq_some.mp hs
      cases hs
      exact h.same rfl rfl rfl rfl
  | queueInterrupt r => cases hs; exact h.same rfl rfl rfl rfl
  | unqueueRequest r => cases hs; exact h.same rfl rfl rfl rfl
  | unqueueInterrupt r => cases hs; exact h.same rfl rfl rfl rfl
  | read nbytes ok =>
      obtain ⟨r, hr, rfl⟩ := Option.map_eq_some_iff.mp hs
      simp only [queued, taken, hr, Option.elim_some]
      exact h.read hr
  | abort =>
      cases hs
      unfold Iqueue.abort
      split <;> exact h.same rfl rfl rfl rfl
  | dropForget =>
      obtain ⟨-, hs⟩ := Option.ite_none_right_eq_some.mp hs
      cases hs
      exact h.dropForget

end Iqueue

/-- In every run the queue is well formed. -/
theorem fiq_ok {minor : ℕ} {es : List FiqEvent} {s : Iqueue}
    (h : fiq.run (fuseIqueueInit minor) es = some s) : ∃ l, s.Ok l := by
  refine Lts.run_invariant (P := fun s => ∃ l, s.Ok l) (E := fun _ => True) ?_
    (fun _ _ => trivial) h ⟨[], Iqueue.ok_init minor⟩
  rintro c e d - ⟨l, hl⟩ hs
  obtain ⟨l', hl', -⟩ := hl.step hs
  exact ⟨l', hl'⟩

/-- Over every run the forgets leave the queue in the order in which they were queued, each of
them once; nothing else comes off it.  The links on the queue and those of their users are all that
is allocated, and no freed link is used. -/
theorem forgets_fifo {minor : ℕ} {es : List FiqEvent} {s : Iqueue}
    (h : fiq.run (fuseIqueueInit minor) es = some s) :
    ∃ l, s.forgets.Holds l ∧
      fiq.collect Iqueue.queued (fuseIqueueInit minor) es =
        fiq.collect Iqueue.taken (fuseIqueueInit minor) es ++ l.map s.links.mem ∧
      (∀ a, s.links.Live a ↔ s.held a = true ∨ a ∈ l) ∧ s.fault = false := by
  suffices hok : ∃ l, s.Ok l ∧ fiq.collect Iqueue.queued (fuseIqueueInit minor) es =
      fiq.collect Iqueue.taken (fuseIqueueInit minor) es ++ l.map s.links.mem by
    obtain ⟨l, hl, hq⟩ := hok
    exact ⟨l, hl.holds, hq, hl.live, hl.fault⟩
  refine Lts.run_history (P := fun es s => ∃ l, s.Ok l ∧ fiq.collect _ _ es =
    fiq.collect _ _ es ++ l.map s.links.mem) ?_ ?_ h
  · exact ⟨[], Iqueue.ok_init minor, rfl⟩
  · rintro es c e d hrun ⟨l, hl, hq⟩ hs
    obtain ⟨l', hl', hq'⟩ := hl.step hs
    refine ⟨l', hl', ?_⟩
    rw [Lts.collect_snoc _ hrun, Lts.collect_snoc _ hrun, hq, List.append_assoc, hq',
      List.append_assoc]

/-- Three forgets, read in a batch of two and in one of one. -/
def forgetRun : List FiqEvent :=
  [.alloc 0, .alloc 1, .alloc 2, .queueForget 1 7 2, .queueForget 0 8 1, .queueForget 2 7 1,
    .read 80 true, .alloc 3, .read 80 false, .queueForget 3 9 1, .abort, .dropForget, .dropForget]

theorem forgets_fifo_batches : ∃ s, fiq.run (fuseIqueueInit 26) forgetRun = some s ∧
    ∃ l, s.forgets.Holds l ∧
      fiq.collect Iqueue.queued (fuseIqueueInit 26) forgetRun =
        fiq.collect Iqueue.taken (fuseIqueueInit 26) forgetRun ++ l.map s.links.mem ∧
      (∀ a, s.links.Live a ↔ s.held a = true ∨ a ∈ l) ∧ s.fault = false := by
  have hrun : (fiq.run (fuseIqueueInit 26) forgetRun).isSome := by decide +kernel
  obtain ⟨s, hs⟩ := Option.isSome_iff_exists.mp hrun
  exact ⟨s, hs, forgets_fifo hs⟩

/-! ### Forgets and requests take turns -/

namespace Iqueue

variable {s s' : Iqueue} {l : List LinkId}

/-- A read that finds both forgets and requests, and no interrupt: the size of its buffer, and what
it takes. -/
def contended (s : Iqueue) : FiqEvent → List (ℕ × Message)
  | .read nbytes ok =>
      if s.interrupts = [] ∧ s.forgetPending ∧ s.pending ≠ [] then
        (s.read nbytes ok).elim [] fun r => [(nbytes, r.2)]
      else []
  | _ => []

/-- What a contended read takes: a request, or else one forget at least, if its buffer has room for
a batch of one. -/
def Takes (request : Prop) (x : ℕ × Message) : Prop :=
  (x.2.isRequest = true ↔ request) ∧
    (¬ request → sizeofInHeader + sizeofBatchForgetIn + sizeofForgetOne ≤ x.1 → x.2.carried ≠ [])

@[simp] theorem freeLinks_forgetBatch (count : ℕ) (p : Option LinkId) (s : Iqueue) :
    (freeLinks count p s).1.forgetBatch = s.forgetBatch := by
  induction count generalizing p s with
  | zero => rfl
  | succ count ih =>
      cases p with
      | none => rfl
      | some a => exact ih _ (s.kfree a)

theorem readForget_forgetBatch (s : Iqueue) (nbytes : ℕ) (ok : Bool) :
    (s.readForget nbytes ok).1.forgetBatch = s.forgetBatch := by
  have htake (s : Iqueue) (max : ℕ) : (s.takeForgets max).1.forgetBatch = s.forgetBatch :=
    freeLinks_forgetBatch ..
  have htouch (a : LinkId) : (s.touch a).forgetBatch = s.forgetBatch := rfl
  unfold readForget
  split
  · dsimp only
    split
    · unfold readSingleForget
      split <;> exact (htake ..).trans (htouch _)
    · unfold readBatchForget
      dsimp only
      split
      · exact htouch _
      · exact (htake ..).trans (htouch _)
  · rfl

theorem readForget_isRequest (s : Iqueue) (nbytes : ℕ) (ok : Bool) :
    (s.readForget nbytes ok).2.isRequest = false := by
  unfold readForget
  split
  · dsimp only
    split
    · unfold readSingleForget
      split
      · rfl
      · cases ok <;> rfl
    · unfold readBatchForget
      dsimp only
      split
      · rfl
      · cases ok <;> rfl
  · rfl

theorem Ok.takeForgets_ne_nil (h : s.Ok l) (hl : l ≠ []) {max : ℕ} (hmax : 0 < max) :
    (s.takeForgets max).2 ≠ [] := by
  rw [h.takeForgets_eq]
  intro hnil
  rcases List.take_eq_nil_iff.mp (List.map_eq_nil_iff.mp hnil) with hz | hz
  · exact hmax.ne' hz
  · exact hl hz

/-- A read of forgets with room for a batch of one takes a forget off the queue. -/
theorem Ok.readForget_carried (h : s.Ok l) (hp : s.forgetPending = true) {nbytes : ℕ}
    (hn : sizeofInHeader + sizeofBatchForgetIn + sizeofForgetOne ≤ nbytes) (ok : Bool) :
    (s.readForget nbytes ok).2.carried ≠ [] := by
  obtain ⟨a, ha⟩ := Option.isSome_iff_exists.mp hp
  have hal : a ∈ l := List.mem_of_head? (h.holds.head.symm.trans ha)
  have hl : l ≠ [] := List.ne_nil_of_mem hal
  rw [Iqueue.readForget, ha]
  dsimp only
  rw [touch_of_live (h.live_of_mem hal)]
  split
  · have hone := h.takeForgets_ne_nil hl Nat.one_pos
    unfold readSingleForget
    split
    · exact hone
    · cases ok <;> exact hone
  · have hroom : 0 < (nbytes - (sizeofInHeader + sizeofBatchForgetIn)) / sizeofForgetOne :=
      Nat.div_pos (by omega) (by decide)
    have hsome := h.takeForgets_ne_nil hl hroom
    unfold readBatchForget
    dsimp only
    rw [if_neg (by omega)]
    cases ok <;> exact hsome

/-- What a read does to `forget_batch`, and which of the two it takes when it is contended. -/
theorem Ok.contended_read (h : s.Ok l) {nbytes : ℕ} {ok : Bool} {r : Iqueue × Message}
    (hs : s.read nbytes ok = some r) :
    (s.contended (.read nbytes ok) = [] ∧ r.1.forgetBatch = s.forgetBatch) ∨
    (∃ x, s.contended (.read nbytes ok) = [x] ∧ Takes (s.forgetBatch ≤ 0) x ∧
      r.1.forgetBatch = if s.forgetBatch ≤ -7 then 16 else s.forgetBatch - 1) := by
  simp only [contended, hs, Option.elim_some]
  cases read_cases hs with
  | interrupt i rest hi =>
      exact .inl ⟨if_neg fun hc => List.cons_ne_nil _ _ (hi.symm.trans hc.1), rfl⟩
  | onlyForgets hi hf hp => exact .inl ⟨if_neg fun hc => hc.2.2 hp, readForget_forgetBatch ..⟩
  | forgetsTurn hi hf hp hb =>
      refine .inr ⟨_, if_pos ⟨hi, hf, hp⟩, ⟨?_, fun _ hn =>
        (h.withBatch (s.forgetBatch - 1)).readForget_carried hf hn ok⟩, ?_⟩
      · rw [readForget_isRequest]
        exact iff_of_false Bool.false_ne_true (by omega)
      · rw [readForget_forgetBatch, if_neg (by omega)]
  | requestsTurn i rest hi hf hp hb =>
      exact .inr ⟨_, if_pos ⟨hi, hf, fun hnil => List.cons_ne_nil _ _ (hp.symm.trans hnil)⟩,
        ⟨iff_of_true rfl hb, fun hno => absurd hb hno⟩, rfl⟩
  | onlyRequests i rest hf hp => exact .inl ⟨if_neg fun hc => hf hc.2.1, rfl⟩

/-- The other steps leave `forget_batch` as it is. -/
theorem step_forgetBatch {e : FiqEvent} (hs : s.step e = some s')
    (he : ∀ nbytes ok, e ≠ .read nbytes ok) : s'.forgetBatch = s.forgetBatch := by
  unfold Iqueue.step at hs
  obtain ⟨-, hs⟩ := Option.ite_none_left_eq_some.mp hs
  cases e with
  | read nbytes ok => exact absurd rfl (he nbytes ok)
  | alloc a =>
      obtain ⟨m, -, rfl⟩ := Option.map_eq_some_iff.mp hs
      rfl
  | kfree a | queueRequest r =>
      obtain ⟨-, hs⟩ := Option.ite_none_right_eq_some.mp hs
      cases hs
      rfl
  | queueForget a nodeid nlookup =>
      obtain ⟨-, hs⟩ := Option.ite_none_right_eq_some.mp hs
      cases hs
      unfold Iqueue.queueForget
      dsimp only
      split
      · split <;> rfl
      · rfl
  | queueInterrupt r | unqueueRequest r | unqueueInterrupt r =>
      cases hs
      rfl
  | abort =>
      cases hs
      unfold Iqueue.abort
      split <;> rfl
  | dropForget =>
      obtain ⟨-, hs⟩ := Option.ite_none_right_eq_some.mp hs
      cases hs
      unfold Iqueue.dropForget
      split
      · exact freeLinks_forgetBatch ..
      · rfl

/-- What a step does to `forget_batch`, and which of the two a contended read takes. -/
theorem Ok.contended_step (h : s.Ok l) {e : FiqEvent} (hs : s.step e = some s') :
    (s.contended e = [] ∧ s'.forgetBatch = s.forgetBatch) ∨
    (∃ x, s.contended e = [x] ∧ Takes (s.forgetBatch ≤ 0) x ∧
      s'.forgetBatch = if s.forgetBatch ≤ -7 then 16 else s.forgetBatch - 1) := by
  cases e with
  | read nbytes ok =>
      obtain ⟨-, hs⟩ := Option.ite_none_left_eq_some.mp hs
      obtain ⟨r, hr, rfl⟩ := Option.map_eq_some_iff.mp hs
      exact h.contended_read hr
  | _ => exact .inl ⟨rfl, step_forgetBatch hs fun _ _ he => by cases he⟩

end Iqueue

/-- `forget_batch` after `k` reads that found forgets and requests. -/
def batchAfter (k : ℕ) : ℤ := if k % 24 < 8 then -(k % 24 : ℕ) else (24 : ℤ) - (k % 24 : ℕ)

theorem batchAfter_nonpos (k : ℕ) : batchAfter k ≤ 0 ↔ k % 24 < 8 := by
  unfold batchAfter
  split <;> omega

theorem batchAfter_succ (k : ℕ) :
    batchAfter (k + 1) = if batchAfter k ≤ -7 then 16 else batchAfter k - 1 := by
  unfold batchAfter
  split_ifs <;> omega

/-- Of the reads that find forgets and requests, and no interrupt, the first eight take a request,
the next sixteen do not, and so on: whatever else happens in between, neither of the two waits
for more than sixteen of the other.  A read that takes no request takes forgets, as long as its
buffer has room for a batch of one. -/
theorem contended_reads {minor : ℕ} {es : List FiqEvent} {s : Iqueue}
    (h : fiq.run (fuseIqueueInit minor) es = some s) {n : ℕ} {x : ℕ × Message}
    (hx : (fiq.collect Iqueue.contended (fuseIqueueInit minor) es)[n]? = some x) :
    (x.2.isRequest = true ↔ n % 24 < 8) ∧ (8 ≤ n % 24 → 64 ≤ x.1 → x.2.carried ≠ []) := by
  suffices hall : (∀ n x, (fiq.collect Iqueue.contended (fuseIqueueInit minor) es)[n]? = some x →
      Iqueue.Takes (n % 24 < 8) x) ∧ s.forgetBatch =
        batchAfter (fiq.collect Iqueue.contended (fuseIqueueInit minor) es).length by
    obtain ⟨hreq, hforgets⟩ := hall.1 n x hx
    exact ⟨hreq, fun hn => hforgets (by omega)⟩
  refine Lts.run_history (P := fun es s => (∀ n x,
    (fiq.collect Iqueue.contended (fuseIqueueInit minor) es)[n]? = some x →
      Iqueue.Takes (n % 24 < 8) x) ∧ s.forgetBatch =
        batchAfter (fiq.collect Iqueue.contended (fuseIqueueInit minor) es).length) ?_ ?_ h
  · refine ⟨?_, rfl⟩
    rintro n x ⟨⟩
  · rintro es c e d hrun ⟨hall, hb⟩ hs
    obtain ⟨l, hok⟩ := fiq_ok hrun
    rw [Lts.collect_snoc _ hrun]
    generalize fiq.collect Iqueue.contended (fuseIqueueInit minor) es = turns at hall hb ⊢
    rcases hok.contended_step hs with ⟨hc, hd⟩ | ⟨x, hc, hx, hd⟩
    · rw [hc, List.append_nil]
      exact ⟨hall, hd.trans hb⟩
    · rw [hc]
      refine ⟨fun n y hy => ?_, ?_⟩
      · rcases Nat.lt_trichotomy n turns.length with hlt | heq | hlt
        · rw [List.getElem?_append_left hlt] at hy
          exact hall n y hy
        · rw [heq, List.getElem?_concat_length] at hy
          cases hy
          rwa [heq, ← batchAfter_nonpos, ← hb]
        · have hlen : (turns ++ [x]).length ≤ n := by
            rw [List.length_append, List.length_singleton]
            omega
          rw [List.getElem?_eq_none hlen] at hy
          cases hy
      · rw [hd, hb, List.length_append, List.length_singleton, batchAfter_succ]

/-- One forget and nine requests, read nine times. -/
def contendedRun : List FiqEvent :=
  [.alloc 0, .queueForget 0 7 1] ++ (List.range 9).map .queueRequest ++
    List.replicate 9 (.read 80 true)

theorem contended_reads_nine : ∃ s x, fiq.run (fuseIqueueInit 26) contendedRun = some s ∧
    (fiq.collect Iqueue.contended (fuseIqueueInit 26) contendedRun)[8]? = some x ∧
    x = (80, .forgets [⟨7, 1⟩]) ∧
    ((x.2.isRequest = true ↔ 8 % 24 < 8) ∧ (8 ≤ 8 % 24 → 64 ≤ x.1 → x.2.carried ≠ [])) := by
  have hrun : (fiq.run (fuseIqueueInit 26) contendedRun).isSome := by decide +kernel
  obtain ⟨s, hs⟩ := Option.isSome_iff_exists.mp hrun
  have hx : (fiq.collect Iqueue.contended (fuseIqueueInit 26) contendedRun)[8]? =
      some (80, .forgets [⟨7, 1⟩]) := by decide +kernel
  exact ⟨s, _, hs, hx, rfl, contended_reads hs hx⟩

end KernelMemo.Fuse
