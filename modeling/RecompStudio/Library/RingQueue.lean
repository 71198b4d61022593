import Mathlib.Data.List.Basic
import Mathlib.Data.Nat.ModEq
import Mathlib.Logic.Function.Basic
import Mathlib.Tactic.Common

/-!
Queues of a fixed capacity that drop their oldest entries, and rings of cells that hold
them.
-/

namespace RecompStudio.RingQueue

variable {α : Type*} {cap : Nat}

/-- More entries on a queue: the newest are kept. -/
@[grind =]
def pushDropping (cap : Nat) (q xs : List α) : List α := (q ++ xs).drop ((q ++ xs).length - cap)

/-- The oldest entries make room in two steps: those of a push that is longer than the
queue itself, then those that were queued before. -/
theorem pushDropping_eq (cap : Nat) (q xs : List α) :
    pushDropping cap q xs =
      q.drop (q.length + (xs.drop (xs.length - cap)).length - cap) ++
          xs.drop (xs.length - cap) := by
  rw [pushDropping, List.length_append, List.length_drop, List.drop_append]
  by_cases hLong : cap < xs.length
  · have hOld : q.drop (q.length + xs.length - cap) = [] := List.drop_eq_nil_of_le (by omega)
    have hAll : q.drop (q.length + (xs.length - (xs.length - cap)) - cap) = [] :=
      List.drop_eq_nil_of_le (by omega)
    have hSkip : q.length + xs.length - cap - q.length = xs.length - cap := by omega
    rw [hOld, hAll, hSkip]
  · have hNone : xs.length - cap = 0 := by omega
    have hKept : q.length + xs.length - cap - q.length = 0 := by omega
    rw [hNone, hKept, Nat.sub_zero]

theorem length_pushDropping (cap : Nat) (q xs : List α) :
    (pushDropping cap q xs).length = min cap (q.length + xs.length) := by
  rw [pushDropping, List.length_drop, List.length_append]
  omega

/-- A queue, with what was pushed on it and popped from it and how many were dropped. -/
structure Ledger (α : Type*) where
  queue : List α
  pushed : List α
  popped : List α
  dropped : Nat

namespace Ledger

def empty : Ledger α := ⟨[], [], [], 0⟩

@[grind =] def push (cap : Nat) (l : Ledger α) (xs : List α) : Ledger α :=
  { l with
    queue := pushDropping cap l.queue xs
    pushed := l.pushed ++ xs
    dropped := l.dropped + (l.queue.length + xs.length - cap) }

def pop (l : Ledger α) : Ledger α :=
  { l with
    queue := l.queue.tail
    popped := l.popped ++ l.queue.head?.toList }

@[simp] theorem queue_push (l : Ledger α) (xs : List α) :
    (l.push cap xs).queue = pushDropping cap l.queue xs := rfl

@[simp] theorem pushed_push (l : Ledger α) (xs : List α) :
    (l.push cap xs).pushed = l.pushed ++ xs := rfl

@[simp] theorem dropped_push (l : Ledger α) (xs : List α) :
    (l.push cap xs).dropped = l.dropped + (l.queue.length + xs.length - cap) := rfl

theorem push_nil {l : Ledger α} (hLength : l.queue.length ≤ cap) : l.push cap [] = l := by
  have hNone : l.queue.length + ([] : List α).length - cap = 0 := Nat.sub_eq_zero_of_le hLength
  have hQueue : pushDropping cap l.queue [] = l.queue := by
    rw [pushDropping, List.append_nil, Nat.sub_eq_zero_of_le hLength, List.drop_zero]
  rw [Ledger.push, hNone, hQueue, List.append_nil, Nat.add_zero]

/-- Everything pushed was popped or dropped or is queued, in the order of the pushes. -/
structure Balanced (cap : Nat) (l : Ledger α) : Prop where
  length_le : l.queue.length ≤ cap
  sum : l.pushed.length = l.popped.length + l.dropped + l.queue.length
  ordered : (l.popped ++ l.queue).Sublist l.pushed

theorem balanced_empty : Balanced cap (empty : Ledger α) := ⟨Nat.zero_le _, rfl, .slnil⟩

theorem Balanced.push {l : Ledger α} (h : l.Balanced cap) (xs : List α) :
    (l.push cap xs).Balanced cap := by
  obtain ⟨hLength, hSum, hOrdered⟩ := h
  refine ⟨?_, ?_, ?_⟩
  · exact (length_pushDropping cap l.queue xs).trans_le (Nat.min_le_left _ _)
  · simp only [Ledger.push, List.length_append, length_pushDropping]
    omega
  · have hKept : (pushDropping cap l.queue xs).Sublist (l.queue ++ xs) := List.drop_sublist _ _
    refine (hKept.append_left l.popped).trans ?_
    rw [← List.append_assoc]
    exact hOrdered.append_right xs

theorem Balanced.pop {l : Ledger α} (h : l.Balanced cap) : l.pop.Balanced cap := by
  obtain ⟨queue, pushed, popped, dropped⟩ := l
  cases queue with
  | nil =>
      exact ⟨h.length_le, by simpa [Ledger.pop] using h.sum, by simpa [Ledger.pop] using h.ordered⟩
  | cons x rest =>
      refine ⟨(Nat.le_succ _).trans h.length_le, ?_, ?_⟩
      · have hSum := h.sum
        simp only [Ledger.pop, List.head?_cons, Option.toList_some, List.length_append,
          List.length_cons, List.length_nil, List.tail_cons] at hSum ⊢
        omega
      · simpa [Ledger.pop] using h.ordered

end Ledger

/-- The cells of a ring from the read position on hold a queue. -/
structure Holds (cap : Nat) (cell : Nat → α) (readPos writePos : Nat) (q : List α) : Prop where
  read_lt : readPos < cap
  write_eq : writePos = (readPos + q.length) % cap
  length_le : q.length ≤ cap
  cells : ∀ i x, q[i]? = some x → cell ((readPos + i) % cap) = x

variable {cell : Nat → α} {readPos writePos : Nat} {q : List α}

theorem holds_nil (cell : Nat → α) (hPos : readPos < cap) : Holds cap cell readPos readPos [] :=
  ⟨hPos, (Nat.mod_eq_of_lt hPos).symm, Nat.zero_le _, fun _ _ h => by simp at h⟩

/-- Different places of a ring are different cells. -/
theorem place_ne {i j : Nat} (hi : i < j) (hj : j < cap) (base : Nat) :
    (base + i) % cap ≠ (base + j) % cap := by
  intro h
  have hEq : i % cap = j % cap := Nat.ModEq.add_left_cancel' base h
  rw [Nat.mod_eq_of_lt (hi.trans hj), Nat.mod_eq_of_lt hj] at hEq
  exact Nat.ne_of_lt hi hEq

/-- The oldest entries are dropped by moving the read position. -/
theorem Holds.drop (h : Holds cap cell readPos writePos q) {n : Nat} (hn : n ≤ q.length) :
    Holds cap cell ((readPos + n) % cap) writePos (q.drop n) := by
  refine ⟨Nat.mod_lt _ (Nat.zero_lt_of_lt h.read_lt), ?_, ?_, ?_⟩
  · rw [h.write_eq, Nat.mod_add_mod, List.length_drop, Nat.add_assoc, Nat.add_sub_of_le hn]
  · exact (List.length_drop).trans_le ((Nat.sub_le _ _).trans h.length_le)
  · intro i x hx
    rw [List.getElem?_drop] at hx
    rw [Nat.mod_add_mod, Nat.add_assoc]
    exact h.cells _ _ hx

/-- An entry is pushed at the write position. -/
theorem Holds.store (h : Holds cap cell readPos writePos q) (hRoom : q.length < cap) (x : α) :
    Holds cap (Function.update cell writePos x) readPos ((writePos + 1) % cap) (q ++ [x]) := by
  refine ⟨h.read_lt, ?_, ?_, ?_⟩
  · rw [h.write_eq, Nat.mod_add_mod, List.length_append, Nat.add_assoc]
    rfl
  · rw [List.length_append]
    exact hRoom
  · intro i y hy
    rw [h.write_eq]
    rcases Nat.lt_trichotomy i q.length with hOld | hNew | hOut
    · rw [List.getElem?_append_left hOld] at hy
      rw [Function.update_of_ne (place_ne hOld hRoom readPos)]
      exact h.cells _ _ hy
    · rw [hNew, Function.update_self]
      rw [hNew, List.getElem?_concat_length] at hy
      exact Option.some.inj hy
    · rw [List.getElem?_eq_none (by rw [List.length_append]; exact hOut)] at hy
      exact absurd hy (by simp)

/-- The oldest entry is read at the read position. -/
theorem Holds.head (h : Holds cap cell readPos writePos q) (hSome : q ≠ []) :
    q.head? = some (cell readPos) ∧ Holds cap cell ((readPos + 1) % cap) writePos q.tail := by
  obtain ⟨x, rest, rfl⟩ := List.exists_cons_of_ne_nil hSome
  have hFirst := h.cells 0 x rfl
  rw [Nat.add_zero, Nat.mod_eq_of_lt h.read_lt] at hFirst
  have hRest := h.drop (Nat.succ_le_of_lt (Nat.zero_lt_succ rest.length))
  exact ⟨congrArg some hFirst.symm, hRest⟩

end RecompStudio.RingQueue
