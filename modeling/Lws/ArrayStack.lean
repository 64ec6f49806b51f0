import Mathlib.Data.List.TakeWhile
/-!
# ArrayStack — a stack in an array that is replaced by a larger one

The cells below `n` are in use, and a cell is none before it is first written.  An access outside the array, or of a cell that has
not been written, has no result.  `Holds` says which list the stack is; while it holds one, every access is inside.
-/
namespace ArrayStack

structure Stack (α : Type) where
  cells : List (Option α)
  n : Nat := 0

variable {α : Type}

def Stack.size (s : Stack α) : Nat := s.cells.length

def Stack.read (s : Stack α) (i : Nat) : Option α := s.cells[i]?.join

def Stack.write (s : Stack α) (i : Nat) (x : α) : Option (Stack α) :=
  if i < s.size then some { s with cells := s.cells.set i (some x) } else none

def Stack.pop (s : Stack α) : Stack α := { s with n := s.n - 1 }

def Stack.push (s : Stack α) (x : α) : Option (Stack α) := (s.write s.n x).map fun s => { s with n := s.n + 1 }

/-- The first `n` cells of `source`, copied over those of `target`. -/
def copyCells (n : Nat) (source target : List (Option α)) : Option (List (Option α)) :=
  if n ≤ source.length ∧ n ≤ target.length then some (source.take n ++ target.drop n) else none

/-- The stack in a new array, to which the cells in use are copied. -/
def Stack.grow (s : Stack α) (size : Nat) : Option (Stack α) :=
  (copyCells s.n s.cells (List.replicate size none)).map fun cells => { s with cells := cells }

/-- **The stack holds a list**, the last pushed first. -/
structure Stack.Holds (s : Stack α) (l : List α) : Prop where
  n : s.n = l.length
  cells : s.cells.take s.n = (l.map some).reverse

variable {s : Stack α} {l : List α} {x : α}

theorem holds_new (size : Nat) : Stack.Holds (α := α) ⟨List.replicate size none, 0⟩ [] := ⟨rfl, rfl⟩

theorem Stack.Holds.le (h : s.Holds l) : s.n ≤ s.size := by
  have hlen := congrArg List.length h.cells
  rw [List.length_take, List.length_reverse, List.length_map, ← h.n] at hlen
  exact Nat.le_trans (Nat.le_of_eq hlen.symm) (Nat.min_le_right _ _)

theorem Stack.Holds.read (h : s.Holds l) {i : Nat} (hi : i < s.n) : ∃ x ∈ l, s.read i = some x := by
  have hget : (s.cells.take s.n)[i]? = s.cells[i]? := List.getElem?_take_of_lt hi
  rw [h.cells] at hget
  have hlt : i < (l.map some).reverse.length := by rwa [List.length_reverse, List.length_map, ← h.n]
  rw [List.getElem?_eq_getElem hlt] at hget
  obtain ⟨x, hx, hxi⟩ := List.mem_map.1 (List.mem_reverse.1 (List.getElem_mem hlt))
  refine ⟨x, hx, ?_⟩
  rw [Stack.read, ← hget, ← hxi]
  rfl

theorem Stack.Holds.top (h : s.Holds (x :: l)) : s.read (s.n - 1) = some x := by
  have hn : s.n = l.length + 1 := h.n
  have hget : (s.cells.take s.n)[l.length]? = s.cells[l.length]? := List.getElem?_take_of_lt (by omega)
  rw [h.cells, List.map_cons, List.reverse_cons, List.getElem?_append_right (by simp)] at hget
  rw [Stack.read, hn, Nat.add_sub_cancel, ← hget]
  simp

theorem Stack.Holds.pop (h : s.Holds (x :: l)) : s.pop.Holds l := by
  have hn : s.n = l.length + 1 := h.n
  refine ⟨by rw [Stack.pop, hn]; rfl, ?_⟩
  have htake : s.cells.take l.length = (s.cells.take s.n).take l.length := by
    rw [List.take_take, Nat.min_eq_left (by omega)]
  rw [Stack.pop, hn, Nat.add_sub_cancel, htake, h.cells, List.map_cons, List.reverse_cons]
  exact List.take_left' (by rw [List.length_reverse, List.length_map])

theorem Stack.Holds.push (h : s.Holds l) (hroom : s.n < s.size) (x : α) :
    ∃ s', s.push x = some s' ∧ s'.Holds (x :: l) ∧ s'.size = s.size := by
  refine ⟨⟨s.cells.set s.n (some x), s.n + 1⟩, ?_, ⟨?_, ?_⟩, List.length_set⟩
  · rw [Stack.push, Stack.write, if_pos hroom]
    rfl
  · exact congrArg Nat.succ h.n
  · have hlt : s.n < (s.cells.set s.n (some x)).length := by rwa [List.length_set]
    rw [List.take_succ_eq_append_getElem hlt, List.getElem_set_self, List.take_set_of_le (Nat.le_refl _), h.cells,
      List.map_cons, List.reverse_cons]

theorem Stack.push_full (hfull : s.size ≤ s.n) (x : α) : s.push x = none := by
  rw [Stack.push, Stack.write, if_neg (Nat.not_lt.2 hfull), Option.map_none]

theorem Stack.Holds.grow (h : s.Holds l) {size : Nat} (hsize : s.n ≤ size) :
    ∃ s', s.grow size = some s' ∧ s'.Holds l ∧ s'.size = size := by
  have hle := h.le
  let cells := s.cells.take s.n ++ (List.replicate size none).drop s.n
  have hcopy : copyCells s.n s.cells (List.replicate size none) = some cells :=
    if_pos ⟨hle, by rwa [List.length_replicate]⟩
  have hlen : (s.cells.take s.n).length = s.n := List.length_take_of_le hle
  refine ⟨⟨cells, s.n⟩, by rw [Stack.grow, hcopy, Option.map_some], ⟨h.n, ?_⟩, ?_⟩
  · rw [← h.cells]
    exact List.take_left' hlen
  · rw [Stack.size, List.length_append, hlen, List.length_drop, List.length_replicate]
    omega

end ArrayStack
