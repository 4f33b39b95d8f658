import Mathlib.Logic.Function.Basic
import Mathlib.Data.Nat.Notation
import Mathlib.Data.Option.Basic
import Mathlib.Tactic.SplitIfs

/-! # Objects with a lifetime and their owners

* **Heaps.**  A `Heap α` has objects named by natural numbers.  A name is `unborn` until it is
  handed out by the allocator, `live` until it is freed, and `freed` for ever after: names are
  never reused, so a stale pointer stays recognisable as stale.
* **Ledgers.**  `Ledger owns live` says that the live objects are the disjoint union of what
  the owners hold: every owner's object is live, no two owners hold the same object, and no
  live object is without owner.  A program step that moves ownership around is an instance of
  `Ledger.acquire`, `Ledger.move` or `Ledger.release`. -/

namespace KernelMemo

/-- What has become of an object. -/
inductive Life where
  | unborn
  | live
  | freed
deriving DecidableEq, Repr

/-- The memory of an allocator that hands out objects of type `α`. -/
structure Heap (α : Type*) where
  life : ℕ → Life
  mem : ℕ → α

namespace Heap

variable {α : Type*}

/-- Hand out the object `o`, with the contents `x` it happens to have. -/
def alloc (h : Heap α) (o : ℕ) (x : α) : Option (Heap α) :=
  if h.life o = .unborn then
    some { life := Function.update h.life o .live, mem := Function.update h.mem o x }
  else none

/-- Overwrite the object `o`. -/
def write (h : Heap α) (o : ℕ) (x : α) : Heap α := { h with mem := Function.update h.mem o x }

/-- Give the object `o` back. -/
def free (h : Heap α) (o : ℕ) : Heap α := { h with life := Function.update h.life o .freed }

/-- The object `o` is allocated. -/
abbrev Live (h : Heap α) (o : ℕ) : Prop := h.life o = .live

@[simp] theorem write_life (h : Heap α) (o : ℕ) (x : α) : (h.write o x).life = h.life := rfl

@[simp] theorem free_mem (h : Heap α) (o : ℕ) : (h.free o).mem = h.mem := rfl

@[simp] theorem write_mem_self (h : Heap α) (o : ℕ) (x : α) : (h.write o x).mem o = x := by
  simp [write]

theorem write_mem_of_ne (h : Heap α) {o p : ℕ} (x : α) (hne : p ≠ o) :
    (h.write o x).mem p = h.mem p := by
  simp [write, hne]

@[simp] theorem free_life_self (h : Heap α) (o : ℕ) : (h.free o).life o = .freed := by
  simp [free]

theorem free_life_of_ne (h : Heap α) {o p : ℕ} (hne : p ≠ o) :
    (h.free o).life p = h.life p := by
  simp [free, hne]

theorem free_live (h : Heap α) (o p : ℕ) : (h.free o).Live p ↔ p ≠ o ∧ h.Live p := by
  by_cases hp : p = o
  · simp [Live, hp]
  · simp [Live, free_life_of_ne h hp, hp]

theorem alloc_eq_some {h h' : Heap α} {o : ℕ} {x : α} :
    h.alloc o x = some h' ↔ h.life o = .unborn ∧
      { life := Function.update h.life o .live, mem := Function.update h.mem o x } = h' := by
  simp [alloc]

section alloc

variable {h h' : Heap α} {o : ℕ} {x : α} (ha : h.alloc o x = some h')
include ha

theorem alloc_unborn : h.life o = .unborn := (alloc_eq_some.mp ha).1

theorem alloc_mem_of_ne {p : ℕ} (hne : p ≠ o) : h'.mem p = h.mem p := by
  obtain ⟨-, rfl⟩ := alloc_eq_some.mp ha
  simp [hne]

theorem alloc_life_self : h'.life o = .live := by
  obtain ⟨-, rfl⟩ := alloc_eq_some.mp ha
  simp

theorem alloc_life_of_ne {p : ℕ} (hne : p ≠ o) : h'.life p = h.life p := by
  obtain ⟨-, rfl⟩ := alloc_eq_some.mp ha
  simp [hne]

theorem alloc_live (p : ℕ) : h'.Live p ↔ p = o ∨ h.Live p := by
  by_cases hp : p = o
  · simp [Live, hp, alloc_life_self ha]
  · simp [Live, hp, alloc_life_of_ne ha hp]

end alloc

end Heap

/-- The live objects are the disjoint union of what the owners hold. -/
structure Ledger {ι ω : Type*} (owns : ι → Option ω) (live : ω → Prop) : Prop where
  live_of_owns : ∀ {w o}, owns w = some o → live o
  unique : ∀ {w z o}, owns w = some o → owns z = some o → w = z
  owned : ∀ {o}, live o → ∃ w, owns w = some o

namespace Ledger

variable {ι ω : Type*} {owns owns' : ι → Option ω} {live live' : ω → Prop}

/-- Nobody holds anything, and nothing is live. -/
theorem empty (howns : ∀ w, owns w = none) (hlive : ∀ o, ¬ live o) : Ledger owns live where
  live_of_owns := by
    intro w o hw
    rw [howns] at hw
    cases hw
  unique := by
    intro w z o hw
    rw [howns] at hw
    cases hw
  owned ho := absurd ho (hlive _)

theorem ne_of_ne (h : Ledger owns live) {w z : ι} {o o' : ω} (hw : owns w = some o)
    (hz : owns z = some o') (hne : w ≠ z) : o ≠ o' := by
  rintro rfl
  exact hne (h.unique hw hz)

/-- Only the owner with an object can hold what is live, when it is the only owner. -/
theorem eq_of_only (h : Ledger owns live) {w : ι} (honly : ∀ z, z ≠ w → owns z = none) {o : ω}
    (ho : live o) : owns w = some o := by
  obtain ⟨z, hz⟩ := h.owned ho
  by_cases hww : z = w
  · rwa [hww] at hz
  · rw [honly z hww] at hz
    cases hz

variable [DecidableEq ι]

/-- A fresh object goes to an owner that held nothing. -/
theorem acquire (h : Ledger owns live) {w : ι} {o : ω} (hw : owns w = none) (ho : ¬ live o)
    (howns : ∀ v, owns' v = if v = w then some o else owns v)
    (hlive : ∀ p, live' p ↔ p = o ∨ live p) : Ledger owns' live' where
  live_of_owns := by
    intro v p hv
    rw [howns] at hv
    split_ifs at hv with hvw
    · cases hv
      exact (hlive _).mpr (.inl rfl)
    · exact (hlive _).mpr (.inr (h.live_of_owns hv))
  unique := by
    intro v v' p hv hv'
    rw [howns] at hv hv'
    split_ifs at hv hv' with h₁ h₂ h₂
    · rw [h₁, h₂]
    · cases hv
      exact absurd (h.live_of_owns hv') ho
    · cases hv'
      exact absurd (h.live_of_owns hv) ho
    · exact h.unique hv hv'
  owned := by
    intro p hp
    rcases (hlive p).mp hp with rfl | hp
    · exact ⟨w, by rw [howns, if_pos rfl]⟩
    · obtain ⟨v, hv⟩ := h.owned hp
      have hvw : v ≠ w := by
        rintro rfl
        rw [hw] at hv
        cases hv
      exact ⟨v, by rw [howns, if_neg hvw, hv]⟩

/-- An owner hands its object over to an owner that held nothing. -/
theorem move (h : Ledger owns live) {w z : ι} (hz : owns z = none)
    (howns : ∀ v, owns' v = if v = z then owns w else if v = w then none else owns v) :
    Ledger owns' live where
  live_of_owns := by
    intro v p hv
    rw [howns] at hv
    split_ifs at hv <;> exact h.live_of_owns hv
  unique := by
    intro v v' p hv hv'
    rw [howns] at hv hv'
    split_ifs at hv hv' with h₁ h₂ h₂ h₂ h₂ h₂
    · rw [h₁, h₂]
    · exact absurd (h.unique hv' hv) ‹_›
    · exact absurd (h.unique hv hv') ‹_›
    · exact h.unique hv hv'
  owned := by
    intro p hp
    obtain ⟨v, hv⟩ := h.owned hp
    have hvw' : v ≠ z := by
      rintro rfl
      rw [hz] at hv
      cases hv
    by_cases hvw : v = w
    · exact ⟨z, by rw [howns, if_pos rfl, ← hvw, hv]⟩
    · exact ⟨v, by rw [howns, if_neg hvw', if_neg hvw, hv]⟩

/-- An owner gives its object back. -/
theorem release (h : Ledger owns live) {w : ι} {o : ω} (hw : owns w = some o)
    (howns : ∀ v, owns' v = if v = w then none else owns v)
    (hlive : ∀ p, live' p ↔ p ≠ o ∧ live p) : Ledger owns' live' where
  live_of_owns := by
    intro v p hv
    rw [howns] at hv
    split_ifs at hv with hvw
    exact (hlive p).mpr ⟨h.ne_of_ne hv hw hvw, h.live_of_owns hv⟩
  unique := by
    intro v v' p hv hv'
    rw [howns] at hv hv'
    split_ifs at hv hv'
    exact h.unique hv hv'
  owned := by
    intro p hp
    obtain ⟨hne, hp⟩ := (hlive p).mp hp
    obtain ⟨v, hv⟩ := h.owned hp
    have hvw : v ≠ w := by
      rintro rfl
      rw [hw] at hv
      exact hne (Option.some.inj hv).symm
    exact ⟨v, by rw [howns, if_neg hvw, hv]⟩

end Ledger

end KernelMemo
