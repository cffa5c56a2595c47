import Lsnp.SysV.Objects

namespace Lsnp.SysV

/-- The values of a set, and what is added to them when each process exits. -/
structure Semaphores (Process : Type) where
  values : Nat → Nat
  undo : Process → Nat → Int

namespace Semaphores

variable {Process : Type}

def fresh : Semaphores Process := ⟨fun _ => 0, fun _ _ => 0⟩

/-- `SETVAL`, which also clears the adjustments of the semaphore. -/
def setval (index value : Nat) (set : Semaphores Process) : Semaphores Process where
  values := Function.update set.values index value
  undo process := Function.update (set.undo process) index 0

def SEMVMX : Nat := 32767

/-- Neither the value nor the adjustment gets out of its range; else `semop` fails with `ERANGE`. -/
def inRange (process : Process) (index : Nat) (change : Int) (set : Semaphores Process) : Prop :=
  (set.values index + change).toNat ≤ SEMVMX ∧ -(SEMVMX : Int) - 1 ≤ set.undo process index - change ∧
    set.undo process index - change ≤ SEMVMX

instance (process : Process) (index : Nat) (change : Int) (set : Semaphores Process) :
    Decidable (set.inRange process index change) := inferInstanceAs (Decidable (_ ∧ _ ∧ _))

/-- `semop` with `SEM_UNDO`, where it does not have to wait. If it fails nothing is changed. -/
def semop [DecidableEq Process] (process : Process) (index : Nat) (change : Int) (set : Semaphores Process) :
    Semaphores Process :=
  if set.inRange process index change then
    { values := Function.update set.values index (set.values index + change).toNat
      undo := Function.update set.undo process
        (Function.update (set.undo process) index (set.undo process index - change)) }
  else set

/-- The process exits. -/
def leave [DecidableEq Process] (process : Process) (set : Semaphores Process) : Semaphores Process where
  values index := min SEMVMX (set.values index + set.undo process index).toNat
  undo := Function.update set.undo process fun _ => 0

/-- The process has used each semaphore so many times at most. -/
def Used (process : Process) (times : Nat → Nat) (set : Semaphores Process) : Prop :=
  ∀ index, (set.undo process index).natAbs ≤ times index

variable {process other : Process} {set : Semaphores Process} {index : Nat} {change : Int}
  {times : Nat → Nat}

@[simp] theorem values_setval (value other : Nat) :
    (set.setval index value).values other = if other = index then value else set.values other :=
  Function.update_apply _ _ _ _

theorem used_fresh : Used process times (fresh : Semaphores Process) := fun _ => Nat.zero_le _

theorem Used.setval (used : set.Used process times) (index value : Nat) :
    (set.setval index value).Used process times := by
  intro at'
  by_cases same : at' = index
  · simp [Semaphores.setval, same]
  · simpa [Semaphores.setval, Function.update_of_ne same] using used at'

theorem Used.mono {more : Nat → Nat} (used : set.Used process times)
    (fewer : ∀ index, times index ≤ more index) : set.Used process more :=
  fun index => Nat.le_trans (used index) (fewer index)

/-- The adjustment stays in its range while the semaphore has been used less often. -/
theorem Used.inRange (used : set.Used process times) (one : change.natAbs = 1)
    (value : (set.values index + change).toNat ≤ SEMVMX) (fewer : times index < SEMVMX) :
    set.inRange process index change := by
  have bound := used index
  unfold Semaphores.inRange
  omega

section

variable [DecidableEq Process]

theorem values_semop (fits : set.inRange process index change) (other : Nat) :
    (set.semop process index change).values other =
      if other = index then (set.values index + change).toNat else set.values other := by
  rw [semop, if_pos fits]
  exact Function.update_apply _ _ _ _

theorem values_semop_of_ne (process : Process) (change : Int) {at' : Nat} (apart : at' ≠ index) :
    (set.semop process index change).values at' = set.values at' := by
  unfold semop
  split
  · exact Function.update_of_ne apart ..
  · rfl

theorem Used.semop (used : set.Used process times) (one : change.natAbs = 1) :
    (set.semop process index change).Used process (Function.update times index (times index + 1)) := by
  have grown : ∀ at', times at' ≤ Function.update times index (times index + 1) at' := by
    intro at'
    by_cases same : at' = index
    · rw [same, Function.update_self]
      exact Nat.le_succ _
    · exact Nat.le_of_eq (Function.update_of_ne same ..).symm
  unfold Semaphores.semop
  split
  · intro at'
    by_cases same : at' = index
    · have bound := used index
      simp only [same, Function.update_self]
      omega
    · simpa only [Function.update_self, Function.update_of_ne same] using used at'
  · exact used.mono grown

theorem Used.semop_of_ne (used : set.Used process times) (apart : process ≠ other) (index : Nat)
    (change : Int) : (set.semop other index change).Used process times := by
  unfold Semaphores.semop
  split
  · intro at'
    simpa only [Function.update_of_ne apart] using used at'
  · exact used

theorem Used.leave (used : set.Used process times) (other : Process) :
    (set.leave other).Used process times := by
  intro at'
  by_cases same : process = other
  · simp [Semaphores.leave, same]
  · simpa [Semaphores.leave, Function.update_of_ne same] using used at'

end

end Semaphores

end Lsnp.SysV
