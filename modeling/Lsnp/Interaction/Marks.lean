import Lsnp.Interaction.Ensures

namespace Lsnp.Interaction

variable {Request : Type} {Reply : Request → Type} {Mark State Seen α β : Type}

abbrev MarkedReply (Reply : Request → Type) (Mark : Type) : Request ⊕ Mark → Type :=
  Sum.elim Reply fun _ => Unit

abbrev Marked {Request : Type} (Reply : Request → Type) (Mark : Type) :=
  Program (Request ⊕ Mark) (MarkedReply Reply Mark)

namespace Program

def unmarked : Program Request Reply α → Marked Reply Mark α
  | .done value => .done value
  | .ask asked next => .ask (.inl asked) fun reply => (next reply).unmarked

def mark (mark : Mark) : Marked Reply Mark Unit := .ask (Sum.inr mark) .done

def erase : Marked Reply Mark α → Program Request Reply α
  | .done value => .done value
  | .ask (.inl asked) next => .ask asked fun reply => (next reply).erase
  | .ask (.inr _) next => (next ()).erase

@[simp] theorem erase_pure (value : α) :
    (pure value : Marked Reply Mark α).erase = pure value := rfl

@[simp] theorem erase_mark (mark : Mark) :
    (Program.mark mark : Marked Reply Mark Unit).erase = pure () := rfl

@[simp] theorem unmarked_pure (value : α) :
    (pure value : Program Request Reply α).unmarked = (pure value : Marked Reply Mark α) := rfl

@[simp] theorem erase_unmarked (program : Program Request Reply α) :
    (program.unmarked : Marked Reply Mark α).erase = program := by
  induction program with
  | done value => rfl
  | ask asked next ih => exact congrArg (Program.ask asked) (funext ih)

@[simp] theorem erase_bind (program : Marked Reply Mark α) (rest : α → Marked Reply Mark β) :
    (program >>= rest).erase = program.erase >>= fun value => (rest value).erase := by
  induction program with
  | done value => rfl
  | ask asked next ih =>
    cases asked with
    | inl asked => exact congrArg (Program.ask asked) (funext ih)
    | inr mark => exact ih ()

@[simp] theorem erase_map (f : α → β) (program : Marked Reply Mark α) :
    (f <$> program).erase = f <$> program.erase := by
  simp only [map_eq_pure_bind, erase_bind, erase_pure]

theorem uses_unmarked {allowed : Request ⊕ Mark → Prop} (requests : ∀ asked, allowed (.inl asked))
    (program : Program Request Reply α) :
    (program.unmarked : Marked Reply Mark α).uses allowed := by
  induction program with
  | done value => trivial
  | ask asked next ih => exact ⟨requests asked, ih⟩

end Program

namespace Service

/-- The service, which keeps what is noted at each mark. -/
def marking (service : Service Request Reply State) (note : State → Mark → Seen) :
    Service (Request ⊕ Mark) (MarkedReply Reply Mark) (State × List Seen) where
  serve before
    | .inl asked, reply, after =>
      service.serve before.1 asked reply after.1 ∧ after.2 = before.2
    | .inr mark, _, after => after = (before.1, before.2 ++ [note before.1 mark])
  moves before after := service.moves before.1 after.1 ∧ after.2 = before.2

variable {service : Service Request Reply State} {note : State → Mark → Seen}
  {state after : State} {seen later : List Seen}

theorem marking_quiet (quiet : service.Quiet) (note : State → Mark → Seen) :
    (service.marking note).Quiet :=
  fun _ _ moved => quiet _ _ moved.1

@[simp] theorem ensures_mark {during : Request ⊕ Mark → State × List Seen → Prop}
    {conclusion : Unit → State × List Seen → Prop} {mark : Mark} {marked : State × List Seen} :
    (service.marking note).Ensures during conclusion (Program.mark mark) marked ↔
      during (.inr mark) marked ∧
        conclusion () (marked.1, marked.2 ++ [note marked.1 mark]) := by
  constructor
  · intro ensures
    exact ⟨ensures.1, ensures.2 () _ rfl⟩
  · intro ensures
    refine ⟨ensures.1, fun _ changed noted => ?_⟩
    cases noted
    exact ensures.2

/-- What a program ensures that leaves no mark, and nothing is noted meanwhile. -/
theorem Returns.unmarked {conclusion : α → State → Prop} {program : Program Request Reply α}
    (returns : service.Returns conclusion program state) :
    (service.marking note).Returns (fun value last => conclusion value last.1 ∧ last.2 = seen)
      program.unmarked (state, seen) := by
  induction program generalizing state with
  | done value => exact ⟨returns, rfl⟩
  | ask asked next ih =>
    refine ⟨trivial, fun reply changed served => ?_⟩
    obtain ⟨changed, unchanged⟩ := changed
    obtain ⟨served, rfl⟩ := served
    exact ih reply (returns.2 reply changed served)

/-- Only what is noted at marks that the program may leave comes to be seen. -/
theorem returns_noted {allowed : Request ⊕ Mark → Prop} {program : Marked Reply Mark α}
    (uses : program.uses allowed) :
    (service.marking note).Returns
      (fun _ last => ∀ entry ∈ last.2, entry ∈ seen ∨
        ∃ at' mark, allowed (.inr mark) ∧ entry = note at' mark) program (state, seen) := by
  have kept : ∀ (before : State × List Seen) asked reply after, allowed asked →
      (∀ entry ∈ before.2, entry ∈ seen ∨ ∃ at' mark, allowed (.inr mark) ∧ entry = note at' mark) →
      (service.marking note).serve before asked reply after →
      ∀ entry ∈ after.2, entry ∈ seen ∨ ∃ at' mark, allowed (.inr mark) ∧ entry = note at' mark := by
    rintro ⟨before, earlier⟩ (asked | mark) reply after permitted held served
    · rw [served.2]
      exact held
    · obtain rfl := served
      intro entry member
      rcases List.mem_append.mp member with old | new
      · exact held entry old
      · exact .inr ⟨before, mark, permitted, List.mem_singleton.mp new⟩
  exact (ensures_of_uses uses kept fun _ => .inl).returns fun _ _ held => held

theorem Reach.marked {program : Marked Reply Mark α} {value : α}
    (reach : service.Reach (program.erase, state) (.done value, after)) (quiet : service.Quiet)
    (seen : List Seen) :
    ∃ later, (service.marking note).Reach (program, (state, seen)) (.done value, (after, later)) := by
  induction program generalizing state seen with
  | done result =>
    rcases reach.cases_head with same | ⟨next, first, -⟩
    · obtain ⟨finished, rfl⟩ := Prod.mk.inj same
      obtain rfl := Program.done.inj finished
      exact ⟨seen, .refl _⟩
    · cases first with
      | move moved => exact (quiet _ _ moved).elim
  | ask asked next ih =>
    cases asked with
    | inr mark =>
      obtain ⟨later, run⟩ := ih () reach (seen ++ [note state mark])
      have noted : (service.marking note).serve (state, seen) (.inr mark) ()
        (state, seen ++ [note state mark]) := rfl
      exact ⟨later, .reply noted run⟩
    | inl asked =>
      rcases reach.cases_head with same | ⟨changed, first, rest⟩
      · cases congrArg Prod.fst same
      · cases first with
        | move moved => exact (quiet _ _ moved).elim
        | @reply _ between _ reply _ served =>
          obtain ⟨later, run⟩ := ih reply rest seen
          have unnoted : (service.marking note).serve (state, seen) (.inl asked) reply
            (between, seen) := ⟨served, rfl⟩
          exact ⟨later, .reply unnoted run⟩

end Service

end Lsnp.Interaction
