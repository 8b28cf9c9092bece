/-!
Collections whose items are numbered from 1 in the order in which they were
added. Nothing is ever taken out, so a number is never used twice.
-/
namespace KernelThreads

structure Numbered (α : Type) where
  items : List α
deriving DecidableEq, Repr

namespace Numbered
variable {α : Type}

def empty : Numbered α := ⟨[]⟩

def size (s : Numbered α) : Nat := s.items.length

def get? (s : Numbered α) : Nat → Option α
  | 0 => none
  | i + 1 => s.items[i]?

/-- The number of the new item is `(s.add a).size`. -/
def add (s : Numbered α) (a : α) : Numbered α := ⟨s.items ++ [a]⟩

/-- Changes nothing if no item has the number. -/
def set (s : Numbered α) (number : Nat) (a : α) : Numbered α :=
  match number with
  | 0 => s
  | i + 1 => ⟨s.items.set i a⟩

theorem size_set (s : Numbered α) (i : Nat) (a : α) : (s.set i a).size = s.size := by
  cases i with
  | zero => rfl
  | succ i => exact List.length_set

theorem get?_set (s : Numbered α) (i j : Nat) (a : α) :
    (s.set i a).get? j = if i = j then (s.get? i).map fun _ => a else s.get? j := by
  cases i with
  | zero =>
    cases j with
    | zero => rfl
    | succ j => rfl
  | succ i =>
    cases j with
    | zero => rfl
    | succ j =>
      simp only [set, get?, List.getElem?_set', Nat.add_right_cancel_iff, Option.map_eq_map]
      by_cases e : i = j
      · subst e
        rw [if_pos rfl, if_pos rfl]
        rfl
      · rw [if_neg e, if_neg e]

theorem get?_add (s : Numbered α) (a : α) (i : Nat) :
    (s.add a).get? i = if i = (s.add a).size then some a else s.get? i := by
  cases i with
  | zero => simp [get?, add, size]
  | succ i =>
    simp only [get?, add, size, List.length_append, List.length_singleton, Nat.add_right_cancel_iff]
    by_cases h : i = s.items.length
    · simp [h]
    · rw [if_neg h]
      by_cases hi : i < s.items.length
      · rw [List.getElem?_append_left hi]
      · rw [List.getElem?_eq_none (by simp; omega), List.getElem?_eq_none (by omega)]

end Numbered

end KernelThreads
