import Lsnp.Interaction.Program
import Mathlib.Logic.Relation

namespace Lsnp.Interaction

/-- The replies an environment may give, with the state they leave, and its own moves. -/
structure Service (Request : Type) (Reply : Request → Type) (State : Type) where
  serve : State → (asked : Request) → Reply asked → State → Prop
  moves : State → State → Prop

variable {Request : Type} {Reply : Request → Type} {State Shadow α β : Type}

namespace Service

/-- One reply to the waiting program, or one move of the environment. -/
inductive Step (service : Service Request Reply State) :
    Program Request Reply α × State → Program Request Reply α × State → Prop where
  | reply {state after : State} {asked : Request} {reply : Reply asked}
      {next : Reply asked → Program Request Reply α}
      (served : service.serve state asked reply after) :
      Step service (.ask asked next, state) (next reply, after)
  | move {program : Program Request Reply α} {state after : State}
      (moved : service.moves state after) : Step service (program, state) (program, after)

/-- The configurations an interleaved run can pass through. -/
def Reach (service : Service Request Reply State) :
    Program Request Reply α × State → Program Request Reply α × State → Prop :=
  Relation.ReflTransGen service.Step

variable {service : Service Request Reply State}

theorem Reach.refl (config : Program Request Reply α × State) : service.Reach config config :=
  Relation.ReflTransGen.refl

theorem Reach.trans {first second third : Program Request Reply α × State}
    (front : service.Reach first second) (back : service.Reach second third) :
    service.Reach first third :=
  Relation.ReflTransGen.trans front back

theorem Reach.reply {state after : State} {asked : Request} {reply : Reply asked}
    {next : Reply asked → Program Request Reply α} {final : Program Request Reply α × State}
    (served : service.serve state asked reply after)
    (rest : service.Reach (next reply, after) final) :
    service.Reach (.ask asked next, state) final :=
  Relation.ReflTransGen.head (.reply served) rest

/-- A property that replies and moves keep holds wherever a run gets to. -/
theorem Reach.invariant {start final : Program Request Reply α × State} (property : State → Prop)
    (replies : ∀ state asked reply after,
      property state → service.serve state asked reply after → property after)
    (moves : ∀ state after, property state → service.moves state after → property after)
    (reach : service.Reach start final) (initially : property start.2) : property final.2 := by
  induction reach with
  | refl => exact initially
  | tail _ last ih =>
    cases last with
    | reply served => exact replies _ _ _ _ ih served
    | move moved => exact moves _ _ ih moved

/-- A view of the state carries runs over to any service that allows what is seen. -/
theorem Reach.project {shadow : Service Request Reply Shadow} (view : State → Shadow)
    (replies : ∀ state asked reply after, service.serve state asked reply after →
      shadow.serve (view state) asked reply (view after))
    (moves : ∀ state after, service.moves state after → view after = view state)
    {start final : Program Request Reply α × State} (reach : service.Reach start final) :
    shadow.Reach (start.1, view start.2) (final.1, view final.2) := by
  induction reach with
  | refl => exact .refl _
  | tail _ last ih =>
    cases last with
    | reply served => exact Relation.ReflTransGen.tail ih (.reply (replies _ _ _ _ served))
    | move moved => simpa only [moves _ _ moved] using ih

/-- After the result only the environment moves, as it can beside any program. -/
theorem Reach.of_done {value : α} {state : State} {final : Program Request Reply α × State}
    (reach : service.Reach (.done value, state) final) :
    final.1 = .done value ∧
      ∀ program : Program Request Reply β, service.Reach (program, state) (program, final.2) := by
  induction reach with
  | refl => exact ⟨rfl, fun _ => .refl _⟩
  | tail _ last ih =>
    cases last with
    | reply _ => cases ih.1
    | move moved => exact ⟨ih.1, fun program => (ih.2 program).tail (.move moved)⟩

/-- A run of a composed program is still in its first part, or has finished it
and is in the part chosen by the result. -/
theorem Reach.bind_cases {program : Program Request Reply α} {state : State}
    {rest : α → Program Request Reply β} {final : Program Request Reply β × State}
    (reach : service.Reach (program >>= rest, state) final) :
    (∃ middle, service.Reach (program, state) (middle, final.2) ∧ final.1 = middle >>= rest) ∨
      ∃ value after, service.Reach (program, state) (.done value, after) ∧
        service.Reach (rest value, after) final := by
  induction reach with
  | refl => exact .inl ⟨program, .refl _, rfl⟩
  | @tail before final _ last ih =>
    rcases ih with ⟨middle, first, same⟩ | ⟨value, after, first, second⟩
    · obtain ⟨shape, current⟩ := before
      simp only at same first
      subst same
      cases middle with
      | done value => exact .inr ⟨value, current, first, .single last⟩
      | ask asked next =>
        left
        cases last with
        | reply served => exact ⟨_, first.tail (.reply served), rfl⟩
        | move moved => exact ⟨_, first.tail (.move moved), rfl⟩
    · exact .inr ⟨value, after, first, second.tail last⟩

theorem Reach.bind_done {program : Program Request Reply α} {state after : State}
    {rest : α → Program Request Reply β} {result : β}
    (reach : service.Reach (program >>= rest, state) (.done result, after)) :
    ∃ value between, service.Reach (program, state) (.done value, between) ∧
      service.Reach (rest value, between) (.done result, after) := by
  rcases reach.bind_cases with ⟨middle, first, same⟩ | split
  · cases middle with
    | done value =>
      refine ⟨value, after, first, ?_⟩
      rw [show rest value = .done result from same.symm]
      exact .refl _
    | ask asked next => simp at same
  · exact split

theorem Reach.gives {held : α → Prop} {program : Program Request Reply α} {state after : State}
    {value : α} (reach : service.Reach (program, state) (.done value, after))
    (gives : program.gives held) : held value := by
  have along : ∀ start stop : Program Request Reply α × State, service.Reach start stop →
      start.1.gives held → stop.1.gives held := by
    intro start stop reach held
    induction reach with
    | refl => exact held
    | tail _ last ih =>
      cases last with
      | reply served => exact ih _
      | move moved => exact ih
  exact along _ _ reach gives

end Service

end Lsnp.Interaction
