import Lsnp.Interaction.Service

namespace Lsnp.Interaction

variable {Request : Type} {Reply : Request → Type} {State α β : Type}

namespace Service

/-- A quiet service changes its state only when it replies. -/
def Quiet (service : Service Request Reply State) : Prop :=
  ∀ state after, ¬ service.moves state after

/-- Whatever the service replies, `during` holds at every request and `after` at the end. -/
def Ensures (service : Service Request Reply State) (during : Request → State → Prop)
    (after : α → State → Prop) : Program Request Reply α → State → Prop
  | .done value, state => after value state
  | .ask asked next, state => during asked state ∧
      ∀ reply changed, service.serve state asked reply changed →
        service.Ensures during after (next reply) changed

abbrev Returns (service : Service Request Reply State) (after : α → State → Prop) :
    Program Request Reply α → State → Prop :=
  service.Ensures (fun _ _ => True) after

variable {service : Service Request Reply State} {during : Request → State → Prop}
  {after : α → State → Prop} {state : State}

@[simp] theorem ensures_pure {value : α} :
    service.Ensures during after (pure value) state ↔ after value state := Iff.rfl

@[simp] theorem ensures_done {value : α} :
    service.Ensures during after (.done value) state ↔ after value state := Iff.rfl

@[simp] theorem ensures_request {asked : Request} {after : Reply asked → State → Prop} :
    service.Ensures during after (Program.request asked) state ↔ during asked state ∧
      ∀ reply changed, service.serve state asked reply changed → after reply changed := Iff.rfl

@[simp] theorem ensures_bind {after : β → State → Prop} (program : Program Request Reply α)
    (rest : α → Program Request Reply β) (state : State) :
    service.Ensures during after (program >>= rest) state ↔
      service.Ensures during (fun value => service.Ensures during after (rest value))
        program state := by
  induction program generalizing state with
  | done value => rfl
  | ask asked next ih =>
    simp only [Program.ask_bind, Ensures]
    exact and_congr_right fun _ => forall_congr' fun reply => forall_congr' fun changed =>
      imp_congr_right fun _ => ih reply changed

@[simp] theorem ensures_map {after : β → State → Prop} (f : α → β)
    (program : Program Request Reply α) (state : State) :
    service.Ensures during after (f <$> program) state ↔
      service.Ensures during (fun value => after (f value)) program state := by
  rw [map_eq_pure_bind, ensures_bind]
  exact Iff.rfl

theorem Ensures.mono {weaker : Request → State → Prop} {conclusion : α → State → Prop}
    {program : Program Request Reply α} (ensures : service.Ensures during after program state)
    (requests : ∀ asked state, during asked state → weaker asked state)
    (results : ∀ value state, after value state → conclusion value state) :
    service.Ensures weaker conclusion program state := by
  induction program generalizing state with
  | done value => exact results value state ensures
  | ask asked next ih =>
    exact ⟨requests asked state ensures.1, fun reply changed served =>
      ih reply (ensures.2 reply changed served)⟩

/-- The rule for a composition: the second part starts from what the first one ensures. -/
theorem Ensures.bind {middle : α → State → Prop} {after : β → State → Prop}
    {program : Program Request Reply α} {rest : α → Program Request Reply β}
    (first : service.Ensures during middle program state)
    (second : ∀ value changed, middle value changed →
      service.Ensures during after (rest value) changed) :
    service.Ensures during after (program >>= rest) state :=
  (ensures_bind program rest state).mpr (first.mono (fun _ _ held => held) second)

theorem Ensures.and {also : Request → State → Prop} {other : α → State → Prop}
    {program : Program Request Reply α} (first : service.Ensures during after program state)
    (second : service.Ensures also other program state) :
    service.Ensures (fun asked state => during asked state ∧ also asked state)
      (fun value state => after value state ∧ other value state) program state := by
  induction program generalizing state with
  | done value => exact ⟨first, second⟩
  | ask asked next ih =>
    exact ⟨⟨first.1, second.1⟩, fun reply changed served =>
      ih reply (first.2 reply changed served) (second.2 reply changed served)⟩

theorem Ensures.returns {conclusion : α → State → Prop} {program : Program Request Reply α}
    (ensures : service.Ensures during after program state)
    (results : ∀ value state, after value state → conclusion value state) :
    service.Returns conclusion program state :=
  ensures.mono (fun _ _ _ => trivial) results

theorem returns_true (program : Program Request Reply α) (state : State) :
    service.Returns (fun _ _ => True) program state := by
  induction program generalizing state with
  | done value => trivial
  | ask asked next ih => exact ⟨trivial, fun reply changed _ => ih reply changed⟩

theorem Returns.and {other : α → State → Prop} {program : Program Request Reply α}
    (first : service.Returns after program state) (second : service.Returns other program state) :
    service.Returns (fun value state => after value state ∧ other value state) program state :=
  (Ensures.and first second).returns fun _ _ held => held

theorem Ensures.also {other : α → State → Prop} {program : Program Request Reply α}
    (first : service.Ensures during after program state)
    (second : service.Returns other program state) :
    service.Ensures during (fun value state => after value state ∧ other value state) program state :=
  (Ensures.and first second).mono (fun _ _ held => held.1) fun _ _ held => held

/-- A property kept by every request a program may make holds all along its runs. -/
theorem ensures_of_uses {allowed : Request → Prop} {property : State → Prop}
    {program : Program Request Reply α} (uses : program.uses allowed)
    (kept : ∀ state asked reply changed, allowed asked → property state →
      service.serve state asked reply changed → property changed)
    (initially : property state) :
    service.Ensures (fun asked state => allowed asked ∧ property state)
      (fun _ state => property state) program state := by
  induction program generalizing state with
  | done value => exact initially
  | ask asked next ih =>
    exact ⟨⟨uses.1, initially⟩, fun reply changed served =>
      ih reply (uses.2 reply) (kept state asked reply changed uses.1 initially served)⟩

theorem Returns.using {allowed : Request → Prop} {program : Program Request Reply α}
    (returns : service.Returns after program state) (uses : program.uses allowed) :
    service.Ensures (fun asked _ => allowed asked) after program state := by
  have asked : service.Ensures (fun asked _ => allowed asked ∧ True) (fun _ _ => True) program state :=
    ensures_of_uses uses (fun _ _ _ _ _ held _ => held) trivial
  exact (asked.also returns).mono (fun _ _ held => held.1) fun _ _ held => held.2

theorem Ensures.reach {program final : Program Request Reply α} {state changed : State}
    (quiet : service.Quiet) (ensures : service.Ensures during after program state)
    (reach : service.Reach (program, state) (final, changed)) :
    service.Ensures during after final changed := by
  have along : ∀ start stop : Program Request Reply α × State, service.Reach start stop →
      service.Ensures during after start.1 start.2 →
        service.Ensures during after stop.1 stop.2 := by
    intro start stop reach initially
    induction reach with
    | refl => exact initially
    | tail _ last ih =>
      cases last with
      | reply served => exact ih.2 _ _ served
      | move moved => exact (quiet _ _ moved).elim
  exact along _ _ reach ensures

theorem Reach.of_done_quiet {value : α} {final : Program Request Reply α × State}
    (quiet : service.Quiet) (reach : service.Reach (.done value, state) final) :
    final = (.done value, state) := by
  rcases Relation.ReflTransGen.cases_head reach with same | ⟨middle, first, -⟩
  · exact same.symm
  · cases first with
    | move moved => exact (quiet _ _ moved).elim

theorem Reach.of_ask_quiet {asked : Request} {next : Reply asked → Program Request Reply α}
    {value : α} {changed : State} (quiet : service.Quiet)
    (reach : service.Reach (.ask asked next, state) (.done value, changed)) :
    ∃ reply between, service.serve state asked reply between ∧
      service.Reach (next reply, between) (.done value, changed) := by
  rcases Relation.ReflTransGen.cases_head reach with same | ⟨middle, first, rest⟩
  · cases same
  · cases first with
    | reply served => exact ⟨_, _, served, rest⟩
    | move moved => exact (quiet _ _ moved).elim

/-- A property that every request keeps in which `during` holds is true all along a run. -/
theorem Ensures.invariant {property : State → Prop} {program final : Program Request Reply α}
    {state changed : State} (quiet : service.Quiet)
    (ensures : service.Ensures during after program state)
    (kept : ∀ state asked reply changed, during asked state → property state →
      service.serve state asked reply changed → property changed)
    (reach : service.Reach (program, state) (final, changed)) (initially : property state) :
    property changed := by
  have along : ∀ start stop : Program Request Reply α × State, service.Reach start stop →
      service.Ensures during after start.1 start.2 → property start.2 →
        service.Ensures during after stop.1 stop.2 ∧ property stop.2 := by
    intro start stop reach ensured initially
    induction reach with
    | refl => exact ⟨ensured, initially⟩
    | tail _ last ih =>
      cases last with
      | reply served => exact ⟨ih.1.2 _ _ served, kept _ _ _ _ ih.1.1 ih.2 served⟩
      | move moved => exact (quiet _ _ moved).elim
  exact (along _ _ reach ensures initially).2

/-- Rules and runs agree: what is ensured holds at every request and every result
that a run reaches, and conversely. -/
theorem ensures_iff_reach {program : Program Request Reply α} (quiet : service.Quiet) :
    service.Ensures during after program state ↔
      (∀ asked next changed, service.Reach (program, state) (.ask asked next, changed) →
        during asked changed) ∧
      ∀ value changed, service.Reach (program, state) (.done value, changed) →
        after value changed := by
  constructor
  · intro ensures
    exact ⟨fun asked next changed reach => (ensures.reach quiet reach).1,
      fun value changed reach => ensures.reach quiet reach⟩
  · intro reached
    induction program generalizing state with
    | done value => exact reached.2 value state (.refl _)
    | ask asked next ih =>
      refine ⟨reached.1 asked next state (.refl _), fun reply changed served => ih reply ⟨?_, ?_⟩⟩
      · intro other rest later reach
        exact reached.1 other rest later (.reply served reach)
      · intro value later reach
        exact reached.2 value later (.reply served reach)

end Service

namespace Program

/-- The run in which every reply is computed from the state; `none` when one is refused. -/
def eval (answer : State → (asked : Request) → Option (Reply asked × State)) :
    Program Request Reply α → State → Option (α × State)
  | .done value, state => some (value, state)
  | .ask asked next, state =>
    match answer state asked with
    | none => none
    | some (reply, after) => (next reply).eval answer after

/-- The requests of the computed run, each with the state it is made in. -/
def trail (answer : State → (asked : Request) → Option (Reply asked × State)) :
    Program Request Reply α → State → List (Request × State)
  | .done _, _ => []
  | .ask asked next, state => (asked, state) ::
    match answer state asked with
    | none => []
    | some (reply, after) => (next reply).trail answer after

variable {answer : State → (asked : Request) → Option (Reply asked × State)}

@[simp] theorem eval_pure (value : α) (state : State) :
    (pure value : Program Request Reply α).eval answer state = some (value, state) := rfl

end Program

namespace Service

variable {service : Service Request Reply State} {state : State}
  {answer : State → (asked : Request) → Option (Reply asked × State)}

/-- The computed replies are among those the service may give. -/
def Permits (service : Service Request Reply State)
    (answer : State → (asked : Request) → Option (Reply asked × State)) : Prop :=
  ∀ state asked reply after, answer state asked = some (reply, after) →
    service.serve state asked reply after

/-- The service that gives the computed replies and no others. -/
def computed (answer : State → (asked : Request) → Option (Reply asked × State)) :
    Service Request Reply State :=
  ⟨fun state asked reply after => answer state asked = some (reply, after), fun _ _ => False⟩

theorem Ensures.permitted {during : Request → State → Prop} {after : α → State → Prop}
    {program : Program Request Reply α} (ensures : service.Ensures during after program state)
    (permits : service.Permits answer) : (computed answer).Ensures during after program state := by
  induction program generalizing state with
  | done value => exact ensures
  | ask asked next ih =>
    exact ⟨ensures.1, fun reply changed served =>
      ih reply (ensures.2 reply changed (permits _ _ _ _ served))⟩

theorem Returns.permitted {after : α → State → Prop} {program : Program Request Reply α}
    (returns : service.Returns after program state) (permits : service.Permits answer) :
    (computed answer).Returns after program state :=
  Ensures.permitted returns permits

/-- A program that only asks what is answered has a computed run. -/
theorem exists_eval {allowed : Request → Prop} {during : Request → State → Prop}
    {after : α → State → Prop} {program : Program Request Reply α}
    (ensures : (computed answer).Ensures during after program state)
    (uses : program.uses allowed)
    (total : ∀ state asked, allowed asked → ∃ reply changed,
      answer state asked = some (reply, changed)) :
    ∃ value final, program.eval answer state = some (value, final) ∧ after value final := by
  induction program generalizing state with
  | done value => exact ⟨value, state, rfl, ensures⟩
  | ask asked next ih =>
    obtain ⟨reply, changed, answered⟩ := total state asked uses.1
    obtain ⟨value, final, run, held⟩ := ih reply (ensures.2 reply changed answered) (uses.2 reply)
    exact ⟨value, final, by simp only [Program.eval, answered, run], held⟩

/-- In a computed run what is ensured of a composition is ensured of its second part, from
a result of the first part of which all else that is known may be used. -/
theorem Ensures.proceed {allowed : Request → Prop} {during : Request → State → Prop}
    {facts : α → State → Prop} {after : β → State → Prop} {program : Program Request Reply α}
    {rest : α → Program Request Reply β}
    (ensures : (computed answer).Ensures during after (program >>= rest) state)
    (returns : (computed answer).Returns facts program state) (uses : program.uses allowed)
    (total : ∀ state asked, allowed asked → ∃ reply changed,
      answer state asked = some (reply, changed)) :
    ∃ value changed, facts value changed ∧
      (computed answer).Ensures during after (rest value) changed := by
  have both := (ensures_bind program rest state).mp ensures |>.and returns
  obtain ⟨value, changed, -, rest, fact⟩ := exists_eval both uses total
  exact ⟨value, changed, fact, rest⟩

theorem reach_of_eval {program : Program Request Reply α} {value : α} {after : State}
    (permits : service.Permits answer) (run : program.eval answer state = some (value, after)) :
    service.Reach (program, state) (.done value, after) := by
  induction program generalizing state with
  | done result =>
    obtain ⟨rfl, rfl⟩ : result = value ∧ state = after := by simpa [Program.eval] using run
    exact .refl _
  | ask asked next ih =>
    simp only [Program.eval] at run
    cases replied : answer state asked with
    | none => simp [replied] at run
    | some reply =>
      rw [replied] at run
      exact .reply (permits _ _ _ _ replied) (ih reply.1 run)

theorem reach_of_mem_trail {program : Program Request Reply α} {asked : Request} {after : State}
    (permits : service.Permits answer) (visited : (asked, after) ∈ program.trail answer state) :
    ∃ next, service.Reach (program, state) (.ask asked next, after) := by
  induction program generalizing state with
  | done result => simp [Program.trail] at visited
  | ask first next ih =>
    rw [Program.trail] at visited
    rcases List.mem_cons.mp visited with here | later
    · obtain ⟨rfl, rfl⟩ := Prod.mk.inj here
      exact ⟨next, .refl _⟩
    · cases replied : answer state first with
      | none => simp [replied] at later
      | some reply =>
        rw [replied] at later
        obtain ⟨rest, reach⟩ := ih reply.1 later
        exact ⟨rest, .reply (permits _ _ _ _ replied) reach⟩

end Service

end Lsnp.Interaction
