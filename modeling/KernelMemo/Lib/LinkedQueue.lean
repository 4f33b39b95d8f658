import Mathlib.Data.List.Basic
import Mathlib.Data.List.Nodup
import Mathlib.Data.List.TakeDrop
import Mathlib.Data.Nat.Notation
import Mathlib.Logic.Function.Basic

/-! # Singly linked queues with a tail pointer

Links are linked through a field `next`.  The queue itself has a link as its head; it stands in
front of all others and is written `none` here, so a pointer to a link is an `Option α`.  The value
of a `next` field is one as well, with `none` for `NULL`.

* **Operations.**  `push` puts a link behind the tail.  `take` walks at most `max` links down the
  queue, with a pointer to the field that is to be cut, and cuts there.
* **Refinement.**  `Holds q l` says that the queue holds the links `l`, in this order; `push` is
  an append (`Holds.push`) and `take` splits the list (`Holds.take`). -/

namespace KernelMemo

/-- The links of a queue and its tail pointer. -/
structure LinkedQueue (α : Type*) where
  /-- the `next` fields; that of the head is at `none` -/
  next : Option α → Option α
  /-- the last link -/
  tail : Option α

namespace LinkedQueue

variable {α : Type*}

/-- The queue without links. -/
def empty : LinkedQueue α := { next := fun _ => none, tail := none }

/-- From the pointer `p` the links `l` lead to the pointer `d`. -/
def Links (next : Option α → Option α) : Option α → List α → Option α → Prop
  | p, [], d => p = d
  | p, a :: l, d => p = some a ∧ Links next (next (some a)) l d

section links

variable {next next' : Option α → Option α} {p d : Option α} {l : List α} {a : α}

theorem links_append {k : List α} :
    Links next p (l ++ k) d ↔ ∃ m, Links next p l m ∧ Links next m k d := by
  induction l generalizing p with
  | nil =>
      constructor
      · exact fun h => ⟨p, rfl, h⟩
      · rintro ⟨m, rfl, h⟩
        exact h
  | cons a l ih =>
      constructor
      · rintro ⟨hp, h⟩
        obtain ⟨m, hm, hk⟩ := ih.mp h
        exact ⟨m, ⟨hp, hm⟩, hk⟩
      · rintro ⟨m, ⟨hp, hm⟩, hk⟩
        exact ⟨hp, ih.mpr ⟨m, hm, hk⟩⟩

/-- Links depend on their own fields only. -/
theorem Links.congr (h : Links next p l d) (hl : ∀ a ∈ l, next' (some a) = next (some a)) :
    Links next' p l d := by
  induction l generalizing p with
  | nil => exact h
  | cons a l ih =>
      refine ⟨h.1, ?_⟩
      rw [hl a List.mem_cons_self]
      exact ih h.2 fun b hb => hl b (List.mem_cons_of_mem _ hb)

theorem Links.head (h : Links next p l none) : p = l.head? := by
  cases l with
  | nil => exact h
  | cons a l => exact h.1

/-- The links down to `a`, and the field of `a`. -/
theorem links_concat : Links next p (l ++ [a]) d ↔ Links next p l (some a) ∧ next (some a) = d := by
  rw [links_append]
  constructor
  · rintro ⟨m, hm, rfl, hd⟩
    exact ⟨hm, hd⟩
  · rintro ⟨hm, hd⟩
    exact ⟨some a, hm, rfl, hd⟩

/-- Another value for the last field. -/
theorem Links.relink [DecidableEq α] (h : Links next p (l ++ [a]) d) (hnd : (l ++ [a]).Nodup)
    (d' : Option α) : Links (Function.update next (some a) d') p (l ++ [a]) d' := by
  rw [links_concat] at h ⊢
  refine ⟨h.1.congr fun b hb => ?_, Function.update_self ..⟩
  have hne : some b ≠ some a := by
    rintro ⟨⟩
    exact (List.nodup_append.mp hnd).2.2 a hb a (List.mem_singleton_self a) rfl
  rw [Function.update_of_ne hne]

end links

/-- The queue holds the links `l`. -/
structure Holds (q : LinkedQueue α) (l : List α) : Prop where
  links : Links q.next (q.next none) l none
  tail : q.tail = l.getLast?
  nodup : l.Nodup

theorem holds_empty : (empty : LinkedQueue α).Holds [] := ⟨rfl, rfl, List.nodup_nil⟩

variable {q : LinkedQueue α} {l : List α} {a : α}

theorem Holds.head (h : q.Holds l) : q.next none = l.head? := h.links.head

section operations

variable [DecidableEq α]

/-- Put the link `a` behind the others. -/
def push (q : LinkedQueue α) (a : α) : LinkedQueue α where
  next := Function.update q.next q.tail (some a)
  tail := some a

theorem Holds.push (h : q.Holds l) (ha : a ∉ l) (hnext : q.next (some a) = none) :
    (q.push a).Holds (l ++ [a]) := by
  refine ⟨?_, by simp [LinkedQueue.push], ?_⟩
  · rcases List.eq_nil_or_concat' l with rfl | ⟨k, b, rfl⟩
    · have htail : q.tail = none := h.tail
      simp [LinkedQueue.push, htail, Links, hnext]
    · have htail : q.tail = some b := by simp [h.tail]
      have hab : some a ≠ some b := by
        rintro ⟨⟩
        exact ha (by simp)
      rw [links_concat]
      simp only [LinkedQueue.push, htail]
      rw [Function.update_of_ne (by simp), Function.update_of_ne hab]
      exact ⟨h.links.relink h.nodup (some a), hnext⟩
  · refine List.nodup_append.mpr ⟨h.nodup, List.nodup_singleton a, fun b hb c hc => ?_⟩
    rw [List.mem_singleton.mp hc]
    rintro rfl
    exact ha hb

/-- At most `max` steps along the links, from the field of `c`: the field where it ends, and the
number of steps. -/
def walk (next : Option α → Option α) : ℕ → Option α → Option α × ℕ
  | 0, c => (c, 0)
  | max + 1, c => match next c with
      | none => (c, 0)
      | some a => ((walk next max (some a)).1, (walk next max (some a)).2 + 1)

omit [DecidableEq α] in
theorem walk_eq {next : Option α → Option α} {c : Option α} (h : Links next (next c) l none)
    (max : ℕ) : walk next max c = ((l.take max).getLast?.or c, min max l.length) := by
  induction max generalizing c l with
  | zero => simp [walk]
  | succ max ih =>
      cases l with
      | nil =>
          have hc : next c = none := h
          simp [walk, hc]
      | cons a l =>
          have hc : next c = some a := h.1
          simp only [walk, hc, ih h.2, List.take_succ_cons, List.length_cons,
            Nat.add_min_add_right, List.getLast?_cons, Prod.mk.injEq, and_true]
          cases (l.take max).getLast? <;> rfl

/-- Cut off at most `max` links: what is left, the links that are cut off, and their number. -/
def take (q : LinkedQueue α) (max : ℕ) : LinkedQueue α × Option α × ℕ :=
  let head := q.next none
  let w := walk q.next max none
  let rest := q.next w.1
  let next := Function.update q.next none rest
  ({ next := if w.1 = none then next else Function.update next w.1 none
     tail := if rest = none then none else q.tail },
    if w.1 = none then none else head, w.2)

theorem Holds.take (h : q.Holds l) (max : ℕ) :
    (q.take max).1.Holds (l.drop max) ∧
      Links (q.take max).1.next (q.take max).2.1 (l.take max) none ∧
      (q.take max).2.2 = min max l.length := by
  have hw := walk_eq h.links max
  rw [Option.or_none] at hw
  have hsplit : l.take max ++ l.drop max = l := List.take_append_drop max l
  have hlinks := h.links
  have hnd := h.nodup
  have htail := h.tail
  rw [← hsplit] at hlinks hnd htail
  refine ⟨?_, ?_, by simp only [LinkedQueue.take, hw]⟩
  · refine ⟨?_, ?_, h.nodup.sublist (List.drop_sublist max l)⟩
    · rcases List.eq_nil_or_concat' (l.take max) with hnil | ⟨k, b, hk⟩
      · simp only [LinkedQueue.take, hw, hnil, List.getLast?_nil, if_true, Function.update_eq_self]
        rwa [hnil] at hlinks
      · rw [hk] at hlinks hnd
        obtain ⟨m, hm, hrest⟩ := links_append.mp hlinks
        have hb : q.next (some b) = m := (links_concat.mp hm).2
        simp only [LinkedQueue.take, hw, hk, List.getLast?_concat, hb,
          if_neg (Option.some_ne_none b)]
        rw [Function.update_of_ne (Option.some_ne_none b).symm, Function.update_self]
        refine hrest.congr fun a ha => ?_
        have hab : some a ≠ some b := by
          rintro ⟨⟩
          exact (List.nodup_append.mp hnd).2.2 b (by simp) b ha rfl
        rw [Function.update_of_ne hab, Function.update_of_ne (Option.some_ne_none a)]
    · rcases List.eq_nil_or_concat' (l.take max) with hnil | ⟨k, b, hk⟩
      · simp only [LinkedQueue.take, hw, hnil, List.getLast?_nil]
        rw [hnil] at hlinks htail
        rw [hlinks.head, htail]
        cases hd : l.drop max <;> simp
      · rw [hk] at hlinks htail
        obtain ⟨m, hm, hrest⟩ := links_append.mp hlinks
        have hb : q.next (some b) = m := (links_concat.mp hm).2
        simp only [LinkedQueue.take, hw, hk, List.getLast?_concat, hb, hrest.head]
        rw [htail]
        cases hd : l.drop max <;> simp [List.getLast?_cons]
  · rcases List.eq_nil_or_concat' (l.take max) with hnil | ⟨k, b, hk⟩
    · simp [LinkedQueue.take, hw, hnil, Links]
    · rw [hk] at hlinks hnd
      obtain ⟨m, hm, -⟩ := links_append.mp hlinks
      simp only [LinkedQueue.take, hw, hk, List.getLast?_concat, if_neg (Option.some_ne_none b)]
      refine Links.relink (hm.congr fun a _ => ?_) (List.nodup_append.mp hnd).1 none
      rw [Function.update_of_ne (Option.some_ne_none a)]

/-- A field that is empty stays so. -/
theorem take_next_eq_none {a : α} (h : q.next (some a) = none) (max : ℕ) :
    (q.take max).1.next (some a) = none := by
  simp only [LinkedQueue.take]
  split
  · rwa [Function.update_of_ne (Option.some_ne_none a)]
  · rw [Function.update_apply]
    split
    · rfl
    · rwa [Function.update_of_ne (Option.some_ne_none a)]

end operations

end LinkedQueue

end KernelMemo
