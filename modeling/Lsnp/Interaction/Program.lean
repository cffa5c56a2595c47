import Mathlib.Control.Basic

/-! Programs as trees of requests. A program asks its environment one request at
a time and goes on with the reply; nothing here says what a request means. -/

namespace Lsnp.Interaction

/-- A program that either has finished or waits for the reply to one request. -/
inductive Program (Request : Type) (Reply : Request → Type) (α : Type) where
  | done (value : α)
  | ask (request : Request) (next : Reply request → Program Request Reply α)

variable {Request : Type} {Reply : Request → Type} {α β γ : Type}

namespace Program

def bind (program : Program Request Reply α) (rest : α → Program Request Reply β) :
    Program Request Reply β :=
  match program with
  | .done value => rest value
  | .ask request next => .ask request (fun reply => (next reply).bind rest)

instance : Monad (Program Request Reply) where
  pure := .done
  bind := .bind

def request (asked : Request) : Program Request Reply (Reply asked) :=
  .ask asked .done

@[simp] theorem done_bind (value : α) (rest : α → Program Request Reply β) :
    (Program.done value : Program Request Reply α) >>= rest = rest value := rfl

@[simp] theorem ask_bind (asked : Request) (next : Reply asked → Program Request Reply α)
    (rest : α → Program Request Reply β) :
    Program.ask asked next >>= rest = .ask asked (fun reply => next reply >>= rest) := rfl

private theorem bind_done (program : Program Request Reply α) : program >>= .done = program := by
  induction program with
  | done value => rfl
  | ask asked next ih => exact congrArg (Program.ask asked) (funext ih)

private theorem bind_bind (program : Program Request Reply α) (first : α → Program Request Reply β)
    (second : β → Program Request Reply γ) :
    program >>= first >>= second = program >>= fun value => first value >>= second := by
  induction program with
  | done value => rfl
  | ask asked next ih => exact congrArg (Program.ask asked) (funext ih)

instance : LawfulMonad (Program Request Reply) :=
  LawfulMonad.mk' _ bind_done (fun _ _ => rfl) bind_bind

/-- Every request the program can make is among the allowed ones. -/
def uses (allowed : Request → Prop) : Program Request Reply α → Prop
  | .done _ => True
  | .ask asked next => allowed asked ∧ ∀ reply, (next reply).uses allowed

@[simp] theorem uses_pure (allowed : Request → Prop) (value : α) :
    (pure value : Program Request Reply α).uses allowed := trivial

@[simp] theorem uses_request {allowed : Request → Prop} {asked : Request} :
    (request asked : Program Request Reply _).uses allowed ↔ allowed asked := by
  simp [request, uses]

@[simp] theorem uses_request_bind {allowed : Request → Prop} {asked : Request}
    {rest : Reply asked → Program Request Reply α} :
    (request asked >>= rest).uses allowed ↔
      allowed asked ∧ ∀ reply, (rest reply).uses allowed := Iff.rfl

theorem uses_bind {allowed : Request → Prop} {program : Program Request Reply α}
    {rest : α → Program Request Reply β} (first : program.uses allowed)
    (second : ∀ value, (rest value).uses allowed) : (program >>= rest).uses allowed := by
  induction program with
  | done value => exact second value
  | ask asked next ih => exact ⟨first.1, fun reply => ih reply (first.2 reply)⟩

@[simp] theorem uses_map {allowed : Request → Prop} {program : Program Request Reply α}
    (f : α → β) : (f <$> program).uses allowed ↔ program.uses allowed := by
  rw [map_eq_pure_bind]
  induction program with
  | done value => exact Iff.rfl
  | ask asked next ih => exact and_congr_right fun _ => forall_congr' ih

theorem uses_mono {allowed permitted : Request → Prop} {program : Program Request Reply α}
    (uses : program.uses allowed) (weaker : ∀ asked, allowed asked → permitted asked) :
    program.uses permitted := by
  induction program with
  | done value => trivial
  | ask asked next ih => exact ⟨weaker asked uses.1, fun reply => ih reply (uses.2 reply)⟩

/-- Whatever is replied, the program comes to no other results. -/
def gives (held : α → Prop) : Program Request Reply α → Prop
  | .done value => held value
  | .ask _ next => ∀ reply, (next reply).gives held

@[simp] theorem gives_pure (held : α → Prop) (value : α) :
    (pure value : Program Request Reply α).gives held ↔ held value := Iff.rfl

@[simp] theorem gives_request_bind {held : α → Prop} {asked : Request}
    {rest : Reply asked → Program Request Reply α} :
    (request asked >>= rest).gives held ↔ ∀ reply, (rest reply).gives held := Iff.rfl

@[simp] theorem gives_bind {held : β → Prop} (program : Program Request Reply α)
    (rest : α → Program Request Reply β) :
    (program >>= rest).gives held ↔ program.gives fun value => (rest value).gives held := by
  induction program with
  | done value => rfl
  | ask asked next ih => exact forall_congr' ih

theorem gives_mono {held weaker : α → Prop} {program : Program Request Reply α}
    (gives : program.gives held) (weaken : ∀ value, held value → weaker value) :
    program.gives weaker := by
  induction program with
  | done value => exact weaken value gives
  | ask asked next ih => exact fun reply => ih reply (gives reply)

theorem gives_of_forall {held : α → Prop} (program : Program Request Reply α)
    (always : ∀ value, held value) : program.gives held := by
  induction program with
  | done value => exact always value
  | ask asked next ih => exact ih

theorem bind_congr_of_gives {held : α → Prop} {program : Program Request Reply α}
    {first second : α → Program Request Reply β} (gives : program.gives held)
    (same : ∀ value, held value → first value = second value) :
    program >>= first = program >>= second := by
  induction program with
  | done value => exact same value gives
  | ask asked next ih => exact congrArg (Program.ask asked) (funext fun reply => ih reply (gives reply))

/-- What follows a program makes allowed requests for each of its results. -/
theorem gives_of_uses_bind {allowed : Request → Prop} {program : Program Request Reply α}
    {rest : α → Program Request Reply β} (uses : (program >>= rest).uses allowed) :
    program.gives fun value => (rest value).uses allowed := by
  induction program with
  | done value => exact uses
  | ask asked next ih => exact fun reply => ih reply (uses.2 reply)

theorem uses_of_uses_bind {allowed : Request → Prop} {program : Program Request Reply α}
    {rest : α → Program Request Reply β} (uses : (program >>= rest).uses allowed) :
    program.uses allowed := by
  induction program with
  | done value => trivial
  | ask asked next ih => exact ⟨uses.1, fun reply => ih reply (uses.2 reply)⟩

theorem uses_bind_of_gives {allowed : Request → Prop} {held : α → Prop}
    {program : Program Request Reply α} {rest : α → Program Request Reply β}
    (first : program.uses allowed) (gives : program.gives held)
    (second : ∀ value, held value → (rest value).uses allowed) :
    (program >>= rest).uses allowed := by
  induction program with
  | done value => exact second value gives
  | ask asked next ih => exact ⟨first.1, fun reply => ih reply (first.2 reply) (gives reply)⟩

end Program

end Lsnp.Interaction
