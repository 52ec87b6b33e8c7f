import Mathlib.Algebra.GroupWithZero.Nat
import RingStore.Bytes

/-!
# Computations that the runtime may stop

A program that indexes a list beyond its end, or adds up to more than a word holds, is stopped by
its runtime. Here both are told apart from a result: a computation that indexes and adds ends with
its result or with the mishap for which it is stopped. The greatest number that a word holds is left
open.

## Main definitions

* `Mishap`, `Guarded`: what a computation can be stopped for, and computations that can be stopped.
* `Guarded.item`, `Guarded.tail`, `Guarded.add`: indexing, cutting off and adding.
* `Guarded.sum`, `Guarded.filter`: adding up several numbers, and checking several items.
-/

namespace RingStore

/-- What a computation is stopped for. -/
inductive Mishap where
  /-- A position lies beyond the end. -/
  | outOfRange
  /-- A number is greater than a word holds. -/
  | overflow
  deriving DecidableEq

/-- A computation that can be stopped. -/
abbrev Guarded :=
  Except Mishap

namespace Guarded

variable {α β : Type}

/-- The item at a position. -/
def item (items : List α) (position : Nat) : Guarded α :=
  if h : position < items.length then .ok items[position] else .error .outOfRange

/-- The items from a position on. -/
def tail (items : List α) (position : Nat) : Guarded (List α) :=
  if position ≤ items.length then .ok (items.drop position) else .error .outOfRange

/-- The sum of two numbers, if words hold it. -/
def add (greatest left right : Nat) : Guarded Nat :=
  if left + right ≤ greatest then .ok (left + right) else .error .overflow

/-- Adds numbers to a total, one after the other. -/
def sum (greatest total : Nat) (numbers : List Nat) : Guarded Nat :=
  numbers.foldlM (add greatest) total

/-- The items for which a check holds. -/
def filter (check : α → Guarded Bool) : List α → Guarded (List α)
  | [] => .ok []
  | first :: rest => do
    let holds ← check first
    let others ← filter check rest
    return if holds then first :: others else others

@[simp]
theorem pure_eq_ok (result : α) : (pure result : Guarded α) = .ok result :=
  rfl

@[simp]
theorem ok_bind (first : α) (next : α → Guarded β) : (Except.ok first >>= next) = next first :=
  rfl

/-- A computation in two parts has a result if both parts have. -/
theorem bind_eq_ok_iff {first : Guarded α} {next : α → Guarded β} {result : β} :
    (first >>= next) = .ok result ↔ ∃ between, first = .ok between ∧ next between = .ok result := by
  cases first with
  | error mishap =>
    constructor
    · intro h
      cases h
    · rintro ⟨_, h, _⟩
      cases h
  | ok between => simp

@[simp]
theorem item_zero (first : α) (rest : List α) : item (first :: rest) 0 = .ok first :=
  rfl

@[simp]
theorem item_one (first second : α) (rest : List α) :
    item (first :: second :: rest) 1 = .ok second :=
  rfl

theorem item_of_lt {items : List α} {position : Nat} (h : position < items.length) :
    item items position = .ok items[position] :=
  dif_pos h

theorem tail_of_le {items : List α} {position : Nat} (h : position ≤ items.length) :
    tail items position = .ok (items.drop position) :=
  if_pos h

theorem add_of_le {greatest left right : Nat} (h : left + right ≤ greatest) :
    add greatest left right = .ok (left + right) :=
  if_pos h

/-- A sum that words hold is the sum. -/
theorem eq_add_of_add {greatest left right total : Nat} (h : add greatest left right = .ok total) :
    total = left + right := by
  unfold add at h
  split at h
  · exact (Except.ok.inj h).symm
  · cases h

/-- Numbers are added up if words hold all of them together. -/
theorem sum_of_le {greatest total : Nat} {numbers : List Nat} (h : total + numbers.sum ≤ greatest) :
    sum greatest total numbers = .ok (total + numbers.sum) := by
  induction numbers generalizing total with
  | nil => rfl
  | cons number rest ih =>
    -- the total so far is not greater than that of all numbers
    rw [List.sum_cons, ← Nat.add_assoc] at h ⊢
    show (add greatest total number >>= fun next => sum greatest next rest) = _
    rw [add_of_le (Nat.le_trans (Nat.le_add_right _ _) h), ok_bind, ih h]

/-- Items are checked if each check goes well. -/
theorem filter_of_forall {check : α → Guarded Bool} {holds : α → Bool} {items : List α}
    (h : ∀ item ∈ items, check item = .ok (holds item)) :
    filter check items = .ok (items.filter holds) := by
  induction items with
  | nil => rfl
  | cons first rest ih =>
    rw [List.forall_mem_cons] at h
    rw [filter, h.1, ok_bind, ih h.2, ok_bind, pure_eq_ok, List.filter_cons]

end Guarded

end RingStore
