import Lsnp.Interaction.Ensures

/-! Environments with moves of their own, seen only when they reply. The moves before and
after a reply are made part of it; what is left is a quiet service with the same runs, to
which the rules for quiet services apply. -/

namespace Lsnp.Interaction

variable {Request : Type} {Reply : Request → Type} {State α : Type}

namespace Service

/-- The service with its own moves made part of its replies. -/
def settled (service : Service Request Reply State) : Service Request Reply State where
  serve state asked reply after := ∃ first second, Relation.ReflTransGen service.moves state first ∧
    service.serve first asked reply second ∧ Relation.ReflTransGen service.moves second after
  moves _ _ := False

variable {service : Service Request Reply State} {program final : Program Request Reply α}
  {state after : State}

theorem settled_quiet (service : Service Request Reply State) : service.settled.Quiet :=
  fun _ _ moved => moved

theorem Reach.moves {program : Program Request Reply α}
    (moved : Relation.ReflTransGen service.moves state after) :
    service.Reach (program, state) (program, after) := by
  induction moved with
  | refl => exact .refl _
  | tail _ last ih => exact ih.tail (.move last)

theorem Reach.of_settled {start stop : Program Request Reply α × State}
    (reach : service.settled.Reach start stop) : service.Reach start stop := by
  induction reach with
  | refl => exact .refl _
  | tail _ last ih =>
    cases last with
    | reply served =>
      obtain ⟨first, second, before, served, behind⟩ := served
      exact ih.trans ((Reach.moves before).trans (.reply served (Reach.moves behind)))
    | move moved => exact (moved : False).elim

/-- A run makes some moves in front of its first reply; the others are part of replies. -/
theorem Reach.settled (reach : service.Reach (program, state) (final, after)) :
    ∃ first, Relation.ReflTransGen service.moves state first ∧
      service.settled.Reach (program, first) (final, after) := by
  have along : ∀ start stop : Program Request Reply α × State, service.Reach start stop →
      ∃ first, Relation.ReflTransGen service.moves start.2 first ∧
        service.settled.Reach (start.1, first) stop := by
    intro start stop reach
    induction reach with
    | refl => exact ⟨_, .refl, .refl _⟩
    | tail _ last ih =>
      obtain ⟨first, moved, settled⟩ := ih
      cases last with
      | reply served =>
        exact ⟨first, moved, settled.tail (.reply ⟨_, _, .refl, served, .refl⟩)⟩
      | move next =>
        -- the move joins the last reply, or the moves in front if there is none yet
        rcases Relation.ReflTransGen.cases_tail settled with same | ⟨middle, before, step⟩
        · obtain ⟨rfl, rfl⟩ := Prod.mk.inj same
          exact ⟨_, moved.tail next, .refl _⟩
        · cases step with
          | reply served =>
            obtain ⟨earlier, second, front, served, behind⟩ := served
            exact ⟨first, moved, before.tail (.reply ⟨earlier, second, front, served, behind.tail next⟩)⟩
          | move moved => exact (moved : False).elim
  exact along _ _ reach

/-- What the settled service ensures from every state that moves lead to holds of every
result of the service itself. -/
theorem Reach.returned (conclusion : α → State → Prop) {value : α}
    (reach : service.Reach (program, state) (.done value, after))
    (returns : ∀ first, Relation.ReflTransGen service.moves state first →
      service.settled.Returns conclusion program first) : conclusion value after := by
  obtain ⟨first, moved, settled⟩ := reach.settled
  exact (returns first moved).reach (settled_quiet service) settled

theorem moves_keep {property : State → Prop}
    (moves : ∀ {before after}, property before → service.moves before after → property after)
    (moved : Relation.ReflTransGen service.moves state after) (initially : property state) :
    property after := by
  induction moved with
  | refl => exact initially
  | tail _ last ih => exact moves ih last

/-- A property that the moves keep is kept by a settled reply if it is by the reply. -/
theorem settled_keeps (property held : State → Prop) {asked : Request} {reply : Reply asked}
    (moves : ∀ {before after}, property before → service.moves before after → property after)
    (replies : ∀ {before after}, property before → service.serve before asked reply after →
      held after)
    (stays : ∀ {before after}, held before → service.moves before after → held after)
    (served : service.settled.serve state asked reply after) (initially : property state) :
    held after := by
  obtain ⟨first, second, front, served, behind⟩ := served
  exact moves_keep stays behind (replies (moves_keep moves front initially) served)

/-- From each of these states the service can be brought to reply to these requests, and is in
such a state again. -/
def Answers (service : Service Request Reply State) (sane : State → Prop)
    (allowed : Request → Prop) : Prop :=
  ∀ state asked, sane state → allowed asked → ∃ between reply after,
    Relation.ReflTransGen service.moves state between ∧ service.serve between asked reply after ∧
      sane after

theorem Reach.uses {allowed : Request → Prop} (reach : service.Reach (program, state) (final, after))
    (uses : program.uses allowed) : final.uses allowed := by
  have along : ∀ start stop : Program Request Reply α × State, service.Reach start stop →
      start.1.uses allowed → stop.1.uses allowed := by
    intro start stop reach uses
    induction reach with
    | refl => exact uses
    | tail _ last ih =>
      cases last with
      | reply served => exact ih.2 _
      | move moved => exact ih
  exact along _ _ reach uses

theorem Answers.finishes {sane : State → Prop} {allowed : Request → Prop}
    (answers : service.Answers sane allowed) (uses : program.uses allowed) (initially : sane state) :
    ∃ value after, service.Reach (program, state) (.done value, after) ∧ sane after := by
  induction program generalizing state with
  | done value => exact ⟨value, state, .refl _, initially⟩
  | ask asked next ih =>
    obtain ⟨between, reply, after, moved, served, kept⟩ := answers state asked initially uses.1
    obtain ⟨value, final, rest, held⟩ := ih reply (uses.2 reply) kept
    exact ⟨value, final, (Reach.moves moved).trans (.reply served rest), held⟩

end Service

end Lsnp.Interaction
