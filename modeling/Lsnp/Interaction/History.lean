import Lsnp.Interaction.Program

namespace Lsnp.Interaction

variable {Request : Type} {Reply : Request → Type} {α β : Type}

/-- Requests with their replies, the first one in front. -/
abbrev History (Reply : Request → Type) := List (Σ asked : Request, Reply asked)

namespace Program

/-- After this history this is left of the program. -/
inductive Leads : Program Request Reply α → History Reply → Program Request Reply α → Prop where
  | here (program : Program Request Reply α) : Leads program [] program
  | reply {asked : Request} {next : Reply asked → Program Request Reply α} {reply : Reply asked}
      {history : History Reply} {left : Program Request Reply α}
      (rest : Leads (next reply) history left) :
      Leads (.ask asked next) (⟨asked, reply⟩ :: history) left

def Asks (program : Program Request Reply α) (history : History Reply) (asked : Request) : Prop :=
  ∃ next, Leads program history (.ask asked next)

def ComesTo (program : Program Request Reply α) (value : α) : Prop :=
  ∃ history, Leads program history (.done value)

/-- After each history the programs make the same requests among those that are observed. -/
def SameRequests (observed : Request → Prop) (first second : Program Request Reply α) : Prop :=
  ∀ history asked, observed asked → (Asks first history asked ↔ Asks second history asked)

variable {program left : Program Request Reply α} {history later : History Reply}

theorem Leads.append {final : Program Request Reply α} (leads : Leads program history left)
    (more : Leads left later final) : Leads program (history ++ later) final := by
  induction leads with
  | here program => exact more
  | reply rest ih => exact .reply (ih more)

theorem Leads.split {final : Program Request Reply α} (leads : Leads program history left)
    (whole : Leads program (history ++ later) final) : Leads left later final := by
  induction leads with
  | here program => exact whole
  | reply rest ih =>
    cases whole with
    | reply more => exact ih more

theorem Leads.bind (leads : Leads program history left) (rest : α → Program Request Reply β) :
    Leads (program >>= rest) history (left >>= rest) := by
  induction leads with
  | here program => exact .here _
  | reply _ ih => exact .reply ih

theorem asks_of_leads {asked : Request} (leads : Leads program history left) :
    Asks program (history ++ later) asked ↔ Asks left later asked :=
  ⟨fun ⟨next, whole⟩ => ⟨next, leads.split whole⟩, fun ⟨next, more⟩ => ⟨next, leads.append more⟩⟩

theorem asks_nil {asked made : Request} {next : Reply made → Program Request Reply α} :
    Asks (.ask made next) [] asked ↔ made = asked := by
  constructor
  · rintro ⟨_, ⟨⟩⟩
    rfl
  · rintro rfl
    exact ⟨next, .here _⟩

theorem comesTo_pure (value : α) : ComesTo (pure value : Program Request Reply α) value :=
  ⟨[], .here _⟩

theorem comesTo_request (asked : Request) (reply : Reply asked) :
    ComesTo (request asked : Program Request Reply _) reply :=
  ⟨[⟨asked, reply⟩], .reply (.here _)⟩

theorem ComesTo.bind {value : α} {result : β} {rest : α → Program Request Reply β}
    (comes : ComesTo program value) (next : ComesTo (rest value) result) :
    ComesTo (program >>= rest) result := by
  obtain ⟨history, leads⟩ := comes
  obtain ⟨later, more⟩ := next
  exact ⟨history ++ later, (leads.bind rest).append more⟩

theorem exists_comesTo {allowed : Request → Prop} (uses : program.uses allowed)
    (replies : ∀ asked, allowed asked → Nonempty (Reply asked)) : ∃ value, ComesTo program value := by
  induction program with
  | done value => exact ⟨value, comesTo_pure value⟩
  | ask asked next ih =>
    obtain ⟨reply⟩ := replies asked uses.1
    obtain ⟨value, history, leads⟩ := ih reply (uses.2 reply)
    exact ⟨value, ⟨asked, reply⟩ :: history, .reply leads⟩

namespace SameRequests

variable {observed : Request → Prop}

theorem refl (program : Program Request Reply α) : SameRequests observed program program :=
  fun _ _ _ => Iff.rfl

theorem of_leads {first second : Program Request Reply α} {former latter : Program Request Reply α}
    (same : SameRequests observed first second) (here : Leads first history former)
    (there : Leads second history latter) : SameRequests observed former latter := by
  intro later asked seen
  rw [← asks_of_leads here, ← asks_of_leads there]
  exact same (history ++ later) asked seen

/-- Behind a common part the programs still do the same, for each of its results. -/
theorem of_bind {value : α} {first second : α → Program Request Reply β}
    (same : SameRequests observed (program >>= first) (program >>= second))
    (comes : ComesTo program value) : SameRequests observed (first value) (second value) := by
  obtain ⟨history, leads⟩ := comes
  exact same.of_leads (leads.bind first) (leads.bind second)

theorem head {made other : Request} {next : Reply made → Program Request Reply α}
    {rest : Reply other → Program Request Reply α}
    (same : SameRequests observed (.ask made next) (.ask other rest)) (seen : observed made) :
    other = made :=
  asks_nil.mp ((same [] made seen).mp (asks_nil.mpr rfl))

end SameRequests

end Program

end Lsnp.Interaction
