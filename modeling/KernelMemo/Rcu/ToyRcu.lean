import KernelMemo.Lib.GracePeriod
import Mathlib.Algebra.BigOperators.Group.Finset.Basic
import Mathlib.Algebra.Order.BigOperators.Group.Finset
import Mathlib.Tactic.IntervalCases

/-! # The toy RCU of `rcu/toy_impl/sample_locking.c`

`toy_rcu_read_lock`, `toy_rcu_read_unlock` and `toy_synchronize_rcu` are `read_lock`,
`read_unlock` and a `write_lock` followed by a `write_unlock` of the one reader-writer lock
`rcu_gp_mutex`.

* **The lock.**  `RwLock` is `rwlock_t`: a count of read holders, which does not know who they
  are, and whether a writer holds it.  `read_lock` proceeds when no writer holds the lock,
  `write_lock` when nobody does; a step that has to spin is not enabled.
* **The implementation.**  `toyRcu` is the toy as an `Api`: the first half of
  `toy_synchronize_rcu` is the step of `write_lock`, the second half the rest.
* **Correctness.**  The lock's holder count is the number of sections the threads have open
  (`toyImplements`), so the toy implements the documented semantics, and `toySynchronizeRcu_waits`
  is the grace-period guarantee for it. -/

namespace KernelMemo.Rcu

open GracePeriod

/-- `rwlock_t`. -/
structure RwLock where
  readers : ℕ
  writer : Bool
deriving DecidableEq, Repr

namespace RwLock

/-- `DEFINE_RWLOCK`: nobody holds the lock. -/
def unlocked : RwLock := ⟨0, false⟩

def readLock (l : RwLock) : Option RwLock :=
  if l.writer then none else some { l with readers := l.readers + 1 }

def readUnlock (l : RwLock) : Option RwLock :=
  if 0 < l.readers then some { l with readers := l.readers - 1 } else none

def writeLock (l : RwLock) : Option RwLock :=
  if l.writer = false ∧ l.readers = 0 then some { l with writer := true } else none

def writeUnlock (l : RwLock) : Option RwLock :=
  if l.writer then some { l with writer := false } else none

theorem readLock_eq_some {l l' : RwLock} (h : l.readLock = some l') :
    l.writer = false ∧ l' = ⟨l.readers + 1, l.writer⟩ := by
  unfold readLock at h
  split_ifs at h with hw
  exact ⟨by simpa using hw, (Option.some.inj h).symm⟩

theorem readUnlock_eq_some {l l' : RwLock} (h : l.readUnlock = some l') :
    0 < l.readers ∧ l' = ⟨l.readers - 1, l.writer⟩ := by
  unfold readUnlock at h
  split_ifs at h with hr
  exact ⟨hr, (Option.some.inj h).symm⟩

theorem writeLock_eq_some {l l' : RwLock} (h : l.writeLock = some l') :
    l.writer = false ∧ l.readers = 0 ∧ l' = ⟨0, true⟩ := by
  unfold writeLock at h
  split_ifs at h with hl
  obtain ⟨hw, hr⟩ := hl
  cases h
  exact ⟨hw, hr, by rw [hr]⟩

theorem writeUnlock_eq_some {l l' : RwLock} (h : l.writeUnlock = some l') :
    l.writer = true ∧ l' = ⟨l.readers, false⟩ := by
  unfold writeUnlock at h
  split_ifs at h with hw
  exact ⟨hw, (Option.some.inj h).symm⟩

end RwLock

/-! ### The functions of the toy -/

/-- `toy_rcu_read_lock` -/
def toyRcuReadLock (rcuGpMutex : RwLock) : Option RwLock := rcuGpMutex.readLock

/-- `toy_rcu_read_unlock` -/
def toyRcuReadUnlock (rcuGpMutex : RwLock) : Option RwLock := rcuGpMutex.readUnlock

/-- The barrier orders memory accesses, which are sequentially consistent here. -/
def smpMbAfterSpinlock (rcuGpMutex : RwLock) : RwLock := rcuGpMutex

/-- `toy_synchronize_rcu`, up to and including its `write_lock`. -/
def toySynchronizeRcuLock (rcuGpMutex : RwLock) : Option RwLock := rcuGpMutex.writeLock

/-- `toy_synchronize_rcu`, after its `write_lock`. -/
def toySynchronizeRcuUnlock (rcuGpMutex : RwLock) : Option RwLock :=
  (smpMbAfterSpinlock rcuGpMutex).writeUnlock

variable {τ : Type} [DecidableEq τ]

/-- The toy as an implementation of read-side sections and grace periods. -/
def toyRcu (τ : Type) : Api τ where
  State := RwLock
  Ticket := Unit
  init := RwLock.unlocked
  readLock l _ := toyRcuReadLock l
  readUnlock l _ := toyRcuReadUnlock l
  start l := (toySynchronizeRcuLock l).map fun l' => (l', ())
  finish l _ := toySynchronizeRcuUnlock l

/-! ### The holder count -/

variable [Fintype τ]

theorem sum_depth_update (depth : τ → ℕ) (t : τ) (n : ℕ) :
    (∑ u, if u = t then n else depth u) + depth t = (∑ u, depth u) + n := by
  have h₁ : ∑ u, depth u = depth t + ∑ u ∈ Finset.univ.erase t, depth u :=
    (Finset.add_sum_erase _ _ (Finset.mem_univ t)).symm
  have h₂ : (∑ u, if u = t then n else depth u) = n + ∑ u ∈ Finset.univ.erase t, depth u := by
    rw [← Finset.add_sum_erase _ _ (Finset.mem_univ t), if_pos rfl]
    congr 1
    refine Finset.sum_congr rfl fun u hu => if_neg (Finset.ne_of_mem_erase hu)
  omega

/-- The toy implements the documented semantics: the read holders of `rcu_gp_mutex` are the
sections open, nested ones included, and a writer gets in only when there is none. -/
def toyImplements : Implements (toyRcu τ) where
  rel l k := l.readers = ∑ t, k.depth t
  covers k _ g := k.Elapsed g
  init := by simp [toyRcu, RwLock.unlocked, Sections.none]
  lock := by
    intro l l' k t h hl
    obtain ⟨-, rfl⟩ := RwLock.readLock_eq_some hl
    have := sum_depth_update k.depth t (k.depth t + 1)
    simp only [Sections.lock_depth]
    omega
  unlock := by
    intro l l' k k' t h hl hk
    obtain ⟨hpos, rfl⟩ := RwLock.readUnlock_eq_some hl
    obtain ⟨hdt, hdepth, -⟩ := Sections.unlock_cases hk
    have := sum_depth_update k.depth t (k.depth t - 1)
    simp only [hdepth]
    omega
  start := by
    intro l l' k x h hl
    obtain ⟨l'', hl'', hp⟩ := Option.map_eq_some_iff.mp hl
    obtain ⟨rfl, -⟩ := Prod.mk.inj hp
    obtain ⟨-, hr, rfl⟩ := RwLock.writeLock_eq_some hl''
    rw [hr] at h
    refine ⟨h, Sections.elapsed_snapshot_of_quiescent fun t => ?_⟩
    exact Finset.sum_eq_zero_iff.mp h.symm t (Finset.mem_univ t)
  finish := by
    intro l l' k x g h hcov hl
    obtain ⟨-, rfl⟩ := RwLock.writeUnlock_eq_some hl
    exact ⟨h, hcov⟩
  covers_lock t h := h.lock t
  covers_unlock h hk := h.unlock hk

/-- **Grace periods of the toy.**  In every run of any threads that nest sections and call
`toy_synchronize_rcu` outside of them, a call that returns has waited for the final unlock of
every section whose `read_lock` was done before the call. -/
theorem toySynchronizeRcu_waits {s₀ s : Clients (toyRcu τ)} {es : List (Event τ)}
    (hs₀ : (clients (toyRcu τ)).init s₀) (hrun : (clients (toyRcu τ)).run s₀ es = some s)
    {w r : τ} {c d i : ℕ} (hw : Synchronizes es w c d) (hopen : Opens es r i) (hic : i < c) :
    ∃ j, Closes es r i j ∧ j < d :=
  grace_period toyImplements hs₀ hrun hw hopen hic

/-- A reader is in a nested section when the updater calls. -/
theorem toySynchronizeRcu_waits_nested :
    ∃ j, Closes (τ := Fin 2) [.readLock 0, .readLock 0, .syncCall 1, .readUnlock 0, .readUnlock 0,
      .syncStart 1, .syncFinish 1, .syncReturn 1] 0 0 j ∧ j < 7 := by
  refine toySynchronizeRcu_waits (w := 1) (c := 2) rfl rfl ⟨rfl, rfl, by decide, ?_⟩ ⟨rfl, rfl⟩
    (by decide)
  intro k h₁ h₂
  interval_cases k <;> decide

end KernelMemo.Rcu
