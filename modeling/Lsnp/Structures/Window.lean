import Mathlib.Data.Nat.ModEq
import Mathlib.Logic.Function.Basic

namespace Lsnp.Structures

variable {Entry : Type}

/-- The entries in the slots from `head` on, in order. -/
def window (capacity : Nat) (slots : Nat → Entry) (head count : Nat) : List Entry :=
  (List.range count).map fun index => slots ((head + index) % capacity)

variable {capacity head count : Nat} {slots : Nat → Entry}

@[simp] theorem length_window : (window capacity slots head count).length = count := by
  simp [window]

theorem window_succ : window capacity slots head (count + 1) =
    window capacity slots head count ++ [slots ((head + count) % capacity)] := by
  simp [window, List.range_succ]

private theorem slot_apart {index : Nat} (room : count < capacity) (inside : index < count) :
    (head + index) % capacity ≠ (head + count) % capacity := by
  intro same
  have slots : index % capacity = count % capacity := Nat.ModEq.add_left_cancel' head same
  rw [Nat.mod_eq_of_lt room, Nat.mod_eq_of_lt (Nat.lt_trans inside room)] at slots
  exact Nat.ne_of_lt inside slots

theorem window_update (room : count < capacity) (entry : Entry) :
    window capacity (Function.update slots ((head + count) % capacity) entry) head count =
      window capacity slots head count := by
  apply List.map_congr_left
  intro index member
  exact Function.update_of_ne (slot_apart room (List.mem_range.mp member)) _ _

theorem window_cons (bound : head < capacity) : window capacity slots head (count + 1) =
    slots head :: window capacity slots ((head + 1) % capacity) count := by
  induction count with
  | zero => simp [window, Nat.mod_eq_of_lt bound]
  | succ count ih =>
    have next : ((head + 1) % capacity + count) % capacity = (head + (count + 1)) % capacity := by
      rw [Nat.mod_add_mod, Nat.add_assoc, Nat.add_comm 1]
    rw [window_succ, ih, window_succ, next, List.cons_append]

end Lsnp.Structures
