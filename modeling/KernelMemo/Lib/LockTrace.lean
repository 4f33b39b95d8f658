import Mathlib.Logic.Function.Basic

/-! # Lock traces

What one thread does with a family of locks, as the list of its operations.

* `held` is the set of locks the thread has after a trace.  It is `none` once the thread has
  released a lock it does not have, taken one it has, or accessed data without its lock.
* A trace is `Disciplined` when this never happens, and `Balanced` when in addition nothing is
  held at its end. -/

namespace KernelMemo

/-- An operation of a thread that uses the locks `L`. -/
inductive LockOp (L : Type*) where
  | acquire (l : L)
  | release (l : L)
  /-- an access to data that `l` protects -/
  | access (l : L)
  | free

namespace LockOp

variable {L : Type*} [DecidableEq L]

/-- The locks held after one operation. -/
def step (h : L → Bool) : LockOp L → Option (L → Bool)
  | acquire l => if h l then none else some (Function.update h l true)
  | release l => if h l then some (Function.update h l false) else none
  | access l => if h l then some h else none
  | free => some h

/-- The locks held after a trace. -/
def held (h : L → Bool) : List (LockOp L) → Option (L → Bool)
  | [] => some h
  | a :: t => (step h a).bind (held · t)

/-- Every operation of the trace has the locks it needs. -/
def Disciplined (t : List (LockOp L)) : Prop := (held (fun _ => false) t).isSome

instance (t : List (LockOp L)) : Decidable (Disciplined t) :=
  inferInstanceAs (Decidable (_ = true))

/-- A disciplined trace that ends without a lock. -/
def Balanced (t : List (LockOp L)) : Prop := held (fun _ => false) t = some fun _ => false

theorem held_append (h : L → Bool) (t u : List (LockOp L)) :
    held h (t ++ u) = (held h t).bind (held · u) := by
  induction t generalizing h with
  | nil => rfl
  | cons a t ih =>
      cases ha : step h a with
      | none => simp only [List.cons_append, held, ha, Option.bind_none]
      | some h' => simp only [List.cons_append, held, ha, Option.bind_some, ih h']

theorem Balanced.disciplined {t : List (LockOp L)} (ht : Balanced t) : Disciplined t := by
  rw [Disciplined, ht]
  rfl

/-- After a balanced trace everything starts again. -/
theorem Balanced.held_append {t : List (LockOp L)} (ht : Balanced t) (u : List (LockOp L)) :
    held (fun _ => false) (t ++ u) = held (fun _ => false) u := by
  rw [LockOp.held_append, ht, Option.bind_some]

theorem Balanced.append {t u : List (LockOp L)} (ht : Balanced t) (hu : Balanced u) :
    Balanced (t ++ u) := by
  rw [Balanced, ht.held_append u]
  exact hu

theorem Balanced.disciplined_append {t : List (LockOp L)} (ht : Balanced t)
    (u : List (LockOp L)) : Disciplined (t ++ u) ↔ Disciplined u := by
  rw [Disciplined, Disciplined, ht.held_append u]

theorem balanced_flatMap {α : Type*} {f : α → List (LockOp L)} (hf : ∀ a, Balanced (f a))
    (l : List α) : Balanced (l.flatMap f) := by
  induction l with
  | nil => rfl
  | cons a l ih =>
      rw [List.flatMap_cons]
      exact (hf a).append ih

/-- With no lock held, neither a release nor an access is possible. -/
theorem not_disciplined_cons {a : LockOp L} (ha : ∀ l, a ≠ acquire l) (hfree : a ≠ free)
    (t : List (LockOp L)) : ¬ Disciplined (a :: t) := by
  cases a with
  | acquire l => exact absurd rfl (ha l)
  | release l => simp [Disciplined, held, step]
  | access l => simp [Disciplined, held, step]
  | free => exact absurd rfl hfree

/-- Inside a critical section the trace may access what the lock protects. -/
theorem held_section {h : L → Bool} {l : L} (hl : h l = true) {t : List (LockOp L)}
    (ht : ∀ a ∈ t, a = access l ∨ a = free) : held h t = some h := by
  induction t with
  | nil => rfl
  | cons a t ih =>
      have hstep : step h a = some h := by
        rcases ht a List.mem_cons_self with rfl | rfl
        · simp [step, hl]
        · rfl
      rw [held, hstep, Option.bind_some]
      exact ih fun b hb => ht b (List.mem_cons_of_mem _ hb)

/-- A critical section is balanced. -/
theorem balanced_section (l : L) {t : List (LockOp L)}
    (ht : ∀ a ∈ t, a = access l ∨ a = free) : Balanced (acquire l :: (t ++ [release l])) := by
  have hl : Function.update (fun _ : L => false) l true l = true := Function.update_self ..
  have hend : Function.update (Function.update (fun _ : L => false) l true) l false =
      fun _ => false := by
    rw [Function.update_idem, Function.update_eq_self_iff]
  simp only [Balanced, held, step, Bool.false_eq_true, if_false, Option.bind_some,
    LockOp.held_append, held_section hl ht, hl, if_true, hend]

end LockOp

end KernelMemo
