import Lsnp.Lab.IsExecutable

namespace Lsnp.Lab

open Lsnp.Interaction Lsnp.Unix

variable {State : Type} {service : Service Call Call.Reply State}

/-- The next operator is `&&`. -/
def Interp.atAnd (interp : Interp) : Bool :=
  match getOpType interp.args interp.currPtr with
  | some (.and, _, _) => true
  | _ => false

def Flow.interp : Flow → Interp
  | .again interp => interp
  | .leave interp => interp

def Flow.goesOn : Flow → Bool
  | .again _ => true
  | .leave _ => false

theorem Interp.round_of_atAnd {interp : Interp} (atAnd : interp.atAnd = true) :
    ∃ args stop, round interp = opAnd { interp with args := args } stop := by
  unfold Interp.atAnd at atAnd
  split at atAnd
  · next args stop read => exact ⟨args, stop, by simp only [round, read]⟩
  · cases atAnd

/-- What a call has come to after some rounds: the state in which the last `&&` was
carried out (at first the state at entry), the variables and the state now. -/
inductive Progress (service : Service Call Call.Reply State) (tokens : List Text) (entry : State) :
    State → Interp → State → Prop where
  | start : Progress service tokens entry entry (.initial tokens) entry
  | round {mark state after : State} {interp next : Interp}
      (before : Progress service tokens entry mark interp state)
      (ran : service.Reach (round interp, state) (.done (.again next), after)) :
      Progress service tokens entry (if interp.atAnd then after else mark) next after

/-- A call that has returned, through a background operator or not. -/
structure Returned (service : Service Call Call.Reply State) (tokens : List Text)
    (entry mark : State) (background : Bool) (after : State) : Prop where
  rounds : ∃ interp state last between, Progress service tokens entry mark interp state ∧
    service.Reach (round interp, state) (.done (.leave last), between) ∧
    last.background = background ∧
    service.Reach (errorExit last.background last.pids last.fds, between) (.done (), after)

/-- In some run of the call an `&&` is reached in `before` and has been decided in `after`:
the rest of the line is started or not. -/
def Decided (service : Service Call Call.Reply State) (tokens : List Text)
    (entry before after : State) (started : Bool) : Prop :=
  ∃ mark interp flow, Progress service tokens entry mark interp before ∧ interp.atAnd = true ∧
    service.Reach (round interp, before) (.done flow, after) ∧ flow.goesOn = started

private theorem progress_of_reach {tokens : List Text} {entry mark state after : State}
    {rounds : Nat} {interp last : Interp}
    (before : Progress service tokens entry mark interp state)
    (reach : service.Reach (chainLoop rounds interp, state) (.done last, after)) :
    ∃ mark interp state, Progress service tokens entry mark interp state ∧
      service.Reach (round interp, state) (.done (.leave last), after) := by
  induction rounds generalizing mark interp state with
  | zero => exact (not_reach_of_fault reach).elim
  | succ rounds ih =>
    obtain ⟨flow, between, ran, rest⟩ := Service.Reach.bind_done reach
    cases flow with
    | again next => exact ih (before.round ran) rest
    | leave left =>
      obtain ⟨same, moves⟩ := rest.of_done
      obtain rfl := Program.done.inj same
      exact ⟨mark, interp, state, before, ran.trans (moves _)⟩

/-- Every call that returns consists of rounds, the last of which leaves the loop. -/
theorem returned_of_reach {tokens : List Text} {entry after : State}
    (reach : service.Reach (isExecutable tokens, entry) (.done (), after)) :
    ∃ mark background, Returned service tokens entry mark background after := by
  obtain ⟨last, between, loop, exit⟩ := Service.Reach.bind_done reach
  obtain ⟨mark, interp, state, before, ran⟩ := progress_of_reach .start loop
  exact ⟨mark, last.background, ⟨interp, state, last, between, before, ran, rfl, exit⟩⟩

end Lsnp.Lab
