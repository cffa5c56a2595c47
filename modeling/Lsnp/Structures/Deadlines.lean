import Mathlib.Data.List.Basic

namespace Lsnp.Structures

/-- If from now on one entry leaves with each tick, all leave by their deadlines. -/
def OnTime : Nat → List Nat → Prop
  | _, [] => True
  | clock, deadline :: deadlines => clock ≤ deadline ∧ OnTime (clock + 1) deadlines

variable {clock other deadline : Nat} {deadlines : List Nat}

@[simp] theorem onTime_nil : OnTime clock [] := trivial

theorem OnTime.push (onTime : OnTime clock deadlines) (late : clock + deadlines.length ≤ deadline) :
    OnTime clock (deadlines ++ [deadline]) := by
  induction deadlines generalizing clock with
  | nil => exact ⟨late, trivial⟩
  | cons first deadlines ih =>
    obtain ⟨inTime, rest⟩ := onTime
    rw [List.length_cons] at late
    exact ⟨inTime, ih rest (by omega)⟩

theorem OnTime.putOff (onTime : OnTime clock deadlines) :
    OnTime (clock + 1) (deadlines.map (· + 1)) := by
  induction deadlines generalizing clock with
  | nil => trivial
  | cons deadline deadlines ih =>
    obtain ⟨first, rest⟩ := onTime
    exact ⟨Nat.add_le_add_right first 1, ih rest⟩

theorem OnTime.le_of_mem (onTime : OnTime clock deadlines) (member : deadline ∈ deadlines) :
    clock ≤ deadline := by
  induction deadlines generalizing clock with
  | nil => cases member
  | cons first deadlines ih =>
    obtain ⟨inTime, rest⟩ := onTime
    rcases List.mem_cons.mp member with rfl | later
    · exact inTime
    · exact Nat.le_of_succ_le (ih rest later)

end Lsnp.Structures
