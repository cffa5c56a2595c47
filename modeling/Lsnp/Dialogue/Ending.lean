import Lsnp.Dialogue.Exchange

namespace Lsnp.Dialogue

open Lsnp.Interaction Lsnp.Libc Lsnp.SysV

/-- What is asked of each state of a run. -/
structure Obeys (machine : Machine State) (state : State) : Prop where
  inOrder : ∀ program, state.taken program <+: state.sent program
  received : ∀ queue, (state.queues queue).made ≠ 0 → (state.queues queue).current = none →
    state.taken queue = state.sent queue
  index : ∀ program n, (state.peers program).place = .terminating n → 0 ≤ n ∧ n ≤ 1023
  onEnd : ∀ program sender number, (state.peers program).leftOn = some (sender, number) →
    ∃ text, (state.sent sender)[number]? = some text ∧ text.ends = true
  onSame : ∀ program message, (state.peers program).leftOn = some message →
    (state.peers program.other).leftOn = none ∨ (state.peers program.other).leftOn = some message
  bothLeave : (∀ after, ¬ machine.step state after) →
    ∃ message, ∀ program, (state.peers program).place = .returned ∧
      (state.peers program).leftOn = some message

/-- The runs obey, and when one of the programs has left its loop they come to an end. -/
structure Holds (machine : Machine State) : Prop where
  always : ∀ state, machine.Reachable state → Obeys machine state
  ends : WellFounded fun after state => machine.Reachable state ∧
    (∃ program, (state.peers program).leftOn ≠ none) ∧ machine.step state after

variable {program : Program} {state after : State}

private theorem inOrder_of_takes {turn : Turn} (takes : state.takes turn) (queue : Program) :
    state.taken queue <+: state.sent queue := by
  cases turn with
  | thinking holder => exact (takes.2.2 queue).2 ▸ List.prefix_refl _
  | travelling holder text =>
    obtain ⟨-, -, -, -, sent, taken, -⟩ := takes
    rcases Program.eq_or_other holder queue with rfl | rfl
    · rw [sent]
      exact List.prefix_append _ _
    · exact taken ▸ List.prefix_refl _
  | taken holder text => exact (takes.2.2.1 queue).2 ▸ List.prefix_refl _
  | left holder text => exact (takes.2.2.2.2.1 queue).2 ▸ List.prefix_refl _

private theorem removed_of_gone (founded : Founded state) {queue : Program}
    (made : (state.queues queue).made ≠ 0) (gone : (state.queues queue).current = none) :
    (state.peers .second).place.removed queue = true := by
  by_contra kept
  rw [Bool.not_eq_true] at kept
  have shared := founded.shared queue
  rw [kept] at shared
  have here := shared.has_of_made made
  rw [Objects.has, gone] at here
  cases here

private theorem received_of_takes {turn : Turn} (takes : state.takes turn) {queue : Program}
    (removed : (state.peers .second).place.removed queue = true) :
    state.taken queue = state.sent queue := by
  cases turn with
  | thinking holder => exact (takes.2.2 queue).2
  | travelling holder text =>
    obtain ⟨-, waits, -, -, -, taken, kept⟩ := takes
    cases queue with
    | second =>
      rw [kept] at removed
      cases removed
    | first =>
      cases holder with
      | first =>
        have kept : (state.peers .second).place.removed .first = false := removed_of_waits waits _
        rw [kept] at removed
        cases removed
      | second => exact taken
  | taken holder text => exact (takes.2.2.1 queue).2
  | left holder text => exact (takes.2.2.2.2.1 queue).2

private theorem index_of_takes {turn : Turn} (takes : state.takes turn) {n : Int}
    (at' : (state.peers program).place = .terminating n) : 0 ≤ n ∧ n ≤ 1023 := by
  cases turn with
  | thinking holder =>
    rcases Program.eq_or_other program holder with rfl | rfl <;>
      simp [State.takes, Place.thinks, Peer.waits, at'] at takes
  | travelling holder text =>
    rcases Program.eq_or_other program holder with rfl | rfl <;>
      simp [State.takes, Peer.passedOn, Place.left, Peer.waits, at'] at takes
  | taken holder text =>
    rcases Program.eq_or_other program holder with rfl | rfl
    · simp [State.takes, Peer.passedOn, Place.left, at'] at takes
    · obtain ⟨-, took, -⟩ := takes
      rw [Program.other_other] at took
      simp only [Peer.took, at'] at took
      have fits := text.fits
      omega
  | left holder text =>
    rcases Program.eq_or_other program holder with rfl | rfl <;>
      simp [State.takes, Peer.passedOn, Place.left, at'] at takes

/-- The message that was sent last, unless a program is to send the next one. -/
def Turn.said : Turn → Option (Program × Text)
  | .thinking _ => none
  | .travelling program text | .taken program text | .left program text => some (program, text)

private theorem not_left_of_waits {peer : Peer} (waits : peer.waits program) :
    ¬ peer.place.left program := by
  intro left
  cases place : peer.place <;> simp [Peer.waits, Place.left, place] at waits left

private theorem not_left_of_thinks {place : Place} (thinks : place.thinks program) :
    ¬ place.left program := by
  intro left
  cases place <;> simp [Place.thinks, Place.left] at thinks left

private theorem not_left_of_took {peer : Peer} {text : Text} (took : peer.took text) :
    ¬ peer.place.left program := by
  intro left
  cases place : peer.place <;> simp [Peer.took, Place.left, place] at took left

private theorem leftOn_of_passedOn {peer : Peer} {text : Text} {count : Nat}
    (passedOn : peer.passedOn program text count) (left : peer.place.left program) :
    text.ends = true ∧ peer.leftOn = some (program, count - 1) := by
  cases place : peer.place <;> simp [Peer.passedOn, Place.left, place] at passedOn left
  · exact passedOn.2
  · exact passedOn

private theorem left_on_said (invariant : Invariant state) {turn : Turn} (takes : state.takes turn)
    {message : Program × Nat} (on : (state.peers program).leftOn = some message) :
    ∃ sender text, turn.said = some (sender, text) ∧ text.ends = true ∧
      message = (sender, (state.sent sender).length - 1) ∧
      (state.sent sender).getLast? = some text := by
  have left : (state.peers program).place.left program := by
    by_contra within
    rw [invariant.inside program within] at on
    cases on
  cases turn with
  | thinking holder =>
    rcases Program.eq_or_other program holder with rfl | rfl
    · exact (not_left_of_thinks takes.1 left).elim
    · obtain ⟨-, waits, -⟩ := takes
      rw [Program.other_other] at waits
      exact (not_left_of_waits waits left).elim
  | travelling holder text =>
    obtain ⟨passedOn, waits, -, -, sent, -⟩ := takes
    rcases Program.eq_or_other program holder with rfl | rfl
    · obtain ⟨ends, message⟩ := leftOn_of_passedOn passedOn left
      exact ⟨holder, text, rfl, ends, Option.some.inj (on.symm.trans message), by simp [sent]⟩
    · rw [Program.other_other] at waits
      exact (not_left_of_waits waits left).elim
  | taken holder text =>
    obtain ⟨passedOn, took, -, last⟩ := takes
    rcases Program.eq_or_other program holder with rfl | rfl
    · obtain ⟨ends, message⟩ := leftOn_of_passedOn passedOn left
      exact ⟨holder, text, rfl, ends, Option.some.inj (on.symm.trans message), last⟩
    · rw [Program.other_other] at took
      exact (not_left_of_took took left).elim
  | left holder text =>
    obtain ⟨passedOn, -, message, ends, -, last⟩ := takes
    refine ⟨holder, text, rfl, ends, ?_, last⟩
    rcases Program.eq_or_other program holder with rfl | rfl
    · exact Option.some.inj (on.symm.trans (leftOn_of_passedOn passedOn left).2)
    · rw [Program.other_other] at message
      exact Option.some.inj (on.symm.trans message)

private theorem others_of_step (step : Step program state after) (holder : Program)
    (apart : holder ≠ program) : after.peers holder = state.peers holder := by
  cases step with
  | testSent | testReceived =>
    split <;> exact peers_put_of_ne apart _
  | _ => exact peers_put_of_ne apart _

private theorem meets {stdin : Program → List Char} (step : Step program state after)
    (other : (state.peers program).place = .removing .second → state.queued .second = [])
    (opened : (state.peers .second).place.opened → ∀ queue, (state.peers .second).msgid queue = .got 0) :
    ((dialogue stdin).restrict TakenBeforeRemoval).step state after := by
  refine ⟨⟨program, step⟩, ?_⟩
  intro at' returned msgid got
  have zero := opened (by rw [at']; nofun) .second
  obtain rfl := Getting.got.inj (got.symm.trans zero)
  by_cases it : Program.second = program
  · subst it
    exact other at'
  · rw [others_of_step step .second it, at'] at returned
    cases returned

private theorem goes (stdin : Program → List Char) (founded : Founded state)
    (running : (state.peers program).place ≠ .returned)
    (mail : (state.peers program).place = .receiving →
      takeFirst program.other.type (state.queued program.other) ≠ none)
    (empty : (state.peers program).place = .removing .second → state.queued .second = []) :
    ∃ after, ((dialogue stdin).restrict TakenBeforeRemoval).step state after := by
  have own : ∃ after, Step program state after := by
    cases place : (state.peers program).place with
    | opening queue => exact ⟨_, .msgget place⟩
    | reading => exact ⟨_, .read place⟩
    | sending =>
      have queue := founded.opened program (by rw [place]; nofun) program
      by_cases here : (state.queues program).has 0
      · exact ⟨_, .msgsnd place queue here⟩
      · exact ⟨_, .msgsndFails place queue here⟩
    | testingSent => exact ⟨_, .testSent place⟩
    | receiving =>
      have queue := founded.opened program (by rw [place]; nofun) program.other
      by_cases here : (state.queues program.other).has 0
      · obtain ⟨⟨message, rest⟩, found⟩ := Option.ne_none_iff_exists'.mp (mail place)
        exact ⟨_, .msgrcv place queue here found⟩
      · exact ⟨_, .msgrcvFails place queue here⟩
    | terminating n => exact ⟨_, .terminate place⟩
    | printing => exact ⟨_, .print place⟩
    | testingReceived => exact ⟨_, .testReceived place⟩
    | removing queue =>
      exact ⟨_, .remove place (founded.opened program (by rw [place]; nofun) queue)⟩
    | returned => exact (running place).elim
  obtain ⟨after, step⟩ := own
  exact ⟨after, meets step empty fun opened => founded.opened _ opened⟩

private theorem returned_of_stuck {stdin : Program → List Char} (invariant : Invariant state)
    (stuck : ∀ after, ¬ ((dialogue stdin).restrict TakenBeforeRemoval).step state after) :
    ∃ message, ∀ program, (state.peers program).place = .returned ∧
      (state.peers program).leftOn = some message := by
  obtain ⟨turn, takes⟩ := invariant.turn
  have runs : ∀ program, (state.peers program).place ≠ .returned →
      ((state.peers program).place = .receiving →
        takeFirst program.other.type (state.queued program.other) ≠ none) →
      ((state.peers program).place = .removing .second → state.queued .second = []) → False := by
    intro program running mail empty
    obtain ⟨after, step⟩ := goes stdin invariant.founded running mail empty
    exact stuck after step
  cases turn with
  | thinking holder =>
    obtain ⟨thinks, -⟩ := takes
    apply (runs holder ?_ ?_ ?_).elim <;> intro place <;> simp [place, Place.thinks] at thinks
  | travelling holder text =>
    obtain ⟨-, waits, way, -⟩ := takes
    apply (runs holder.other ?_ ?_ ?_).elim <;> intro place
    · simp [place, Peer.waits] at waits
    · rw [Program.other_other, way]
      simp [takeFirst]
    · simp [place, Peer.waits] at waits
  | taken holder text =>
    obtain ⟨-, took, -⟩ := takes
    apply (runs holder.other ?_ ?_ ?_).elim <;> intro place <;> simp [place, Peer.took] at took
  | left holder text =>
    obtain ⟨passedOn, left, message, ends, settled, -⟩ := takes
    have other : (state.peers holder.other).place = .returned := by
      by_contra running
      apply runs _ running _ fun _ => (settled _).1
      intro place
      simp [place, Place.left] at left
    have own : (state.peers holder).place = .returned := by
      by_contra running
      apply runs _ running _ fun _ => (settled _).1
      intro place
      simp [place, Peer.passedOn, ends] at passedOn
    refine ⟨(holder, (state.sent holder).length - 1), fun program => ?_⟩
    rcases Program.eq_or_other holder program with rfl | rfl
    · exact ⟨own, (leftOn_of_passedOn passedOn (by simp [own, Place.left])).2⟩
    · exact ⟨other, message⟩

/-- How many steps a program has in front of it that is not to send any more. -/
def Place.work : Place → Nat
  | .reading => 12
  | .sending => 11
  | .opening .first => 10
  | .opening .second => 9
  | .testingSent => 8
  | .receiving => 7
  | .terminating _ => 6
  | .printing => 5
  | .testingReceived => 4
  | .removing .first => 2
  | .removing .second => 1
  | .returned => 0

private theorem not_thinks_of_said {turn : Turn} (takes : state.takes turn)
    {message : Program × Text} (said : turn.said = some message) (program : Program) :
    ¬ (state.peers program).place.thinks program := by
  intro thinks
  cases turn with
  | thinking holder => cases said
  | travelling holder text =>
    obtain ⟨own, other, -⟩ := takes
    rcases Program.eq_or_other holder program with rfl | rfl
    · cases place : (state.peers program).place <;>
        simp [place, Place.thinks, Peer.passedOn, Place.left] at thinks own
    · cases place : (state.peers holder.other).place <;>
        simp [place, Place.thinks, Peer.waits] at thinks other
      simp [thinks] at other
  | taken holder text =>
    obtain ⟨own, other, -⟩ := takes
    rcases Program.eq_or_other holder program with rfl | rfl
    · cases place : (state.peers program).place <;>
        simp [place, Place.thinks, Peer.passedOn, Place.left] at thinks own
    · cases place : (state.peers holder.other).place <;>
        simp [place, Place.thinks, Peer.took] at thinks other
  | left holder text =>
    obtain ⟨own, other, -⟩ := takes
    rcases Program.eq_or_other holder program with rfl | rfl
    · cases place : (state.peers program).place <;>
        simp [place, Place.thinks, Peer.passedOn, Place.left] at thinks own
    · exact not_left_of_thinks thinks other

private theorem work_lt (invariant : Invariant state)
    (on : ∃ holder, (state.peers holder).leftOn ≠ none) (step : Step program state after) :
    (after.peers program).place.work < (state.peers program).place.work := by
  obtain ⟨turn, takes⟩ := invariant.turn
  obtain ⟨holder, on⟩ := on
  obtain ⟨message, on⟩ := Option.ne_none_iff_exists'.mp on
  obtain ⟨sender, text, said, ends, -⟩ := left_on_said invariant takes on
  have quiet := not_thinks_of_said takes said program
  cases step with
  | @msgget queue at' =>
    rw [at'] at quiet
    have second : program = .second := by
      cases program with
      | first => exact (quiet rfl).elim
      | second => rfl
    subst second
    rw [peers_put, at']
    cases queue <;> simp [Program.goesOn, Program.begins, Place.work]
  | read at' | msgsnd at' | msgsndFails at' =>
    rw [at'] at quiet
    exact (quiet trivial).elim
  | testSent at' =>
    split <;> rw [at']
    · rw [State.leave, peers_put]
      cases program <;> simp [Program.leaves, Place.work]
    · simp [State.go, Place.work]
  | msgrcv at' | msgrcvFails at' | terminate at' | print at' =>
    rw [at']
    simp [State.go, Place.work]
  | testReceived at' =>
    obtain ⟨other, rfl⟩ := taken_of_tests takes at'
    obtain ⟨rfl, rfl⟩ := Prod.mk.inj (Option.some.inj said)
    have took := takes.2.1
    rw [Program.other_other] at took
    rw [starts_of_took took at', if_pos ends, at', State.leave, peers_put]
    cases program <;> simp [Program.leaves, Place.work]
  | @remove queue _ at' =>
    rw [at', State.go, peers_put]
    cases queue <;> simp [Program.ends, Place.work]

private theorem loses {stdin : Program → List Char} (invariant : Invariant state)
    (step : (dialogue stdin).step state after) (lost : ¬ TakenBeforeRemoval state after) :
    ¬ Obeys (dialogue stdin) after := by
  intro obeys
  simp only [TakenBeforeRemoval, not_forall] at lost
  obtain ⟨at', returned, msgid, got, some⟩ := lost
  obtain ⟨rfl, here⟩ := invariant.founded.has (by rw [at']; nofun) got (by rw [at']; rfl)
  obtain ⟨turn, takes⟩ := invariant.turn
  have sent : ∃ text, state.sent .second = state.taken .second ++ [text] := by
    cases turn with
    | thinking holder => exact (some (takes.2.2 _).1).elim
    | travelling holder text =>
      cases holder with
      | first => exact (some takes.2.2.2.1).elim
      | second => exact ⟨text, takes.2.2.2.2.1⟩
    | taken holder text => exact (some (takes.2.2.1 _).1).elim
    | left holder text => exact (some (takes.2.2.2.2.1 _).1).elim
  obtain ⟨text, sent⟩ := sent
  obtain ⟨program, step⟩ := step
  by_cases it : Program.second = program
  · subst it
    cases step with
    | @remove queue _ place found =>
      obtain rfl : queue = .second := by
        rw [at'] at place
        exact (Place.removing.inj place).symm
      obtain rfl := Getting.got.inj (found.symm.trans got)
      have made := (invariant.founded.shared .second).made_of_has here
      have received := obeys.received .second
      simp [State.go, State.put, Objects.remove, here, made, sent] at received
    | msgget place | read place | msgsnd place | msgsndFails place | testSent place | msgrcv place
    | msgrcvFails place | terminate place | print place | testReceived place =>
      rw [at'] at place
      cases place
  · rw [others_of_step step .second it, at'] at returned
    cases returned

/-- In every run in which the second queue is not removed with a message in it, no message
is lost and both programs leave on the same one; and the first step that removes it with a
message in it loses that message. -/
theorem holds_of_taken (stdin : Program → List Char) :
    Holds ((dialogue stdin).restrict TakenBeforeRemoval) ∧
      ∀ state after, ((dialogue stdin).restrict TakenBeforeRemoval).Reachable state →
        (dialogue stdin).step state after → ¬ TakenBeforeRemoval state after →
          ¬ Obeys (dialogue stdin) after := by
  refine ⟨⟨?_, ?_⟩, fun state after reachable => loses (invariant_of_reachable reachable)⟩
  · intro state reachable
    have invariant := invariant_of_reachable reachable
    obtain ⟨turn, takes⟩ := invariant.turn
    constructor
    · exact inOrder_of_takes takes
    · exact fun queue made gone => received_of_takes takes (removed_of_gone invariant.founded made gone)
    · exact fun program n => index_of_takes takes
    · intro program sender number on
      obtain ⟨_, text, -, ends, same, last⟩ := left_on_said invariant takes on
      obtain ⟨rfl, rfl⟩ := Prod.mk.inj same
      exact ⟨text, by rw [← List.getLast?_eq_getElem?, last], ends⟩
    · intro program message on
      obtain ⟨sender, text, said, -, same, -⟩ := left_on_said invariant takes on
      cases other : (state.peers program.other).leftOn with
      | none => exact .inl rfl
      | some message =>
        obtain ⟨_, _, said', -, same', -⟩ := left_on_said invariant takes other
        obtain ⟨rfl, rfl⟩ := Prod.mk.inj (Option.some.inj (said.symm.trans said'))
        exact .inr (congrArg _ (same'.trans same.symm))
    · exact returned_of_stuck invariant
  · apply Subrelation.wf (r := InvImage (· < ·) fun state : State =>
      (state.peers .first).place.work + (state.peers .second).place.work)
    · rintro after state ⟨reachable, on, ⟨program, step⟩, -⟩
      have fewer := work_lt (invariant_of_reachable reachable) on step
      have same := others_of_step step
      change (after.peers .first).place.work + _ < (state.peers .first).place.work + _
      cases program with
      | first =>
        rw [same .second (by decide)]
        omega
      | second =>
        rw [same .first (by decide)]
        omega
    · exact InvImage.wf _ Nat.lt_wfRel.wf

def answeredByEnd : Program → List Char
  | .first => ['a', '\n']
  | .second => ['e', 'n', 'd', '\n']

/-- The second program says `end` and removes the queues before the first has taken that. -/
theorem not_holds_end : ¬ Holds (dialogue answeredByEnd) := by
  intro holds
  have start : (dialogue answeredByEnd).Reachable
      (.start answeredByEnd (fun _ => .of [] (by decide)) fun _ => []) := .start ⟨_, _, rfl⟩
  have opened := start.next ⟨.first, .msgget rfl⟩
  have opened := opened.next ⟨.first, .msgget rfl⟩
  have opened := opened.next ⟨.second, .msgget rfl⟩
  have opened := opened.next ⟨.second, .msgget rfl⟩
  have typed := opened.next ⟨.first, .read rfl⟩
  have sent := typed.next ⟨.first, .msgsnd rfl rfl rfl⟩
  have taken := sent.next ⟨.second, .msgrcv rfl rfl rfl rfl⟩
  have shown := (taken.next ⟨.second, .terminate rfl⟩).next ⟨.second, .print rfl⟩
  have tested := shown.next ⟨.second, .testReceived rfl⟩
  have typed := tested.next ⟨.second, .read rfl⟩
  have sent := typed.next ⟨.second, .msgsnd rfl rfl rfl⟩
  have left := sent.next ⟨.second, .testSent rfl⟩
  have removed := left.next ⟨.second, .remove rfl rfl⟩
  have removed := removed.next ⟨.second, .remove rfl rfl⟩
  have received := (holds.always _ removed).received .second (by decide) rfl
  cases received

end Lsnp.Dialogue
