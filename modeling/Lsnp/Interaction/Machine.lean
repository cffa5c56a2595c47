import Mathlib.Logic.Relation

namespace Lsnp.Interaction

/-- Where a run may start, and what one step may do. -/
structure Machine (State : Type) where
  initial : State → Prop
  step : State → State → Prop

variable {State : Type}

namespace Machine

def Reachable (machine : Machine State) (state : State) : Prop :=
  ∃ start, machine.initial start ∧ Relation.ReflTransGen machine.step start state

variable {machine : Machine State} {state after : State}

theorem Reachable.start (initial : machine.initial state) : machine.Reachable state :=
  ⟨state, initial, .refl⟩

theorem Reachable.next (reachable : machine.Reachable state) (step : machine.step state after) :
    machine.Reachable after := by
  obtain ⟨start, initial, run⟩ := reachable
  exact ⟨start, initial, run.tail step⟩

/-- A property of the starts that every step keeps is one of all reachable states. -/
theorem Reachable.invariant (property : State → Prop)
    (initially : ∀ state, machine.initial state → property state)
    (kept : ∀ {state after}, property state → machine.step state after → property after)
    (reachable : machine.Reachable state) : property state := by
  obtain ⟨start, initial, run⟩ := reachable
  induction run with
  | refl => exact initially start initial
  | tail _ last ih => exact kept ih last

/-- The runs of a machine whose steps all meet a condition. -/
def restrict (machine : Machine State) (condition : State → State → Prop) : Machine State where
  initial := machine.initial
  step state after := machine.step state after ∧ condition state after

theorem Reachable.of_restrict {condition : State → State → Prop}
    (reachable : (machine.restrict condition).Reachable state) : machine.Reachable state := by
  obtain ⟨start, initial, run⟩ := reachable
  have wider : (machine.restrict condition).step ≤ machine.step := fun _ _ step => step.1
  exact ⟨start, initial, Relation.ReflTransGen.mono wider _ _ run⟩

end Machine

end Lsnp.Interaction
