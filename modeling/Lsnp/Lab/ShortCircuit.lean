import Lsnp.Lab.Waiting

namespace Lsnp.Lab

open Lsnp.Interaction Lsnp.Unix

/-- What came of the last command of a pipeline. A command that has ended may have been reaped by
`child_handler`, and then the shell's own `waitpid` fails and tells nothing of its end. -/
inductive Outcome where
  | notStarted
  | acted (succeeded : Bool)
  | ended (termination : Termination) (told : Bool)
  deriving DecidableEq, Repr

/-- An external command succeeds if it exits with 0, a builtin if its action does. -/
def Outcome.succeeded : Outcome → Bool
  | .notStarted => false
  | .acted succeeded => succeeded
  | .ended (.exited code) _ => code.val = 0
  | .ended (.signaled _ _) _ => false

/-- The command exited by itself and the shell's `waitpid` got its status, or it was a builtin whose
action succeeded. -/
def Outcome.regular : Outcome → Bool
  | .notStarted => false
  | .acted succeeded => succeeded
  | .ended (.exited _) told => told
  | .ended (.signaled _ _) _ => false

/-- The events of the round at an `&&` tell what came of the command in front of it: a
process was forked and waited for last, or a builtin acted, or neither. Where that wait has failed
the process may have ended in any way. -/
inductive CameTo (events : List Event) : Outcome → Prop where
  | ended {child : Fork} {termination : Termination} (forked : forks events = [child])
      (waited : (waits events).getLast? = some (child.pid, some termination.encode)) :
      CameTo events (.ended termination true)
  | untold {child : Fork} (forked : forks events = [child])
      (waited : (waits events).getLast? = some (child.pid, none)) (termination : Termination) :
      CameTo events (.ended termination false)
  | acted {succeeded : Bool} (unforked : forks events = [])
      (action : (actions events).getLast? = some succeeded) : CameTo events (.acted succeeded)
  | notStarted (unforked : forks events = []) (idle : actions events = []) :
      CameTo events .notStarted

/-- Where the shell is told, only one thing can have come of the command. -/
theorem CameTo.unique {events : List Event} {first second : Outcome} (one : CameTo events first)
    (told : ∀ termination, first ≠ .ended termination false) (other : CameTo events second) :
    second = first := by
  cases one with
  | untold _ _ termination => exact (told termination rfl).elim
  | ended forked waited =>
    cases other with
    | ended forked' waited' =>
      rw [waited] at waited'
      have same := congrArg Prod.snd (Option.some.inj waited')
      rw [Termination.encode_injective (Option.some.inj same)]
    | untold forked' waited' =>
      rw [waited] at waited'
      cases congrArg Prod.snd (Option.some.inj waited')
    | acted unforked | notStarted unforked => simp [forked] at unforked
  | acted unforked action =>
    cases other with
    | ended forked | untold forked => simp [forked] at unforked
    | acted _ action' => exact congrArg _ (Option.some.inj (action'.symm.trans action))
    | notStarted _ idle => simp [idle] at action
  | notStarted unforked idle =>
    cases other with
    | ended forked | untold forked => simp [forked] at unforked
    | acted _ action => simp [idle] at action
    | notStarted => rfl

variable {shell : Shell}

def foundEvents (found : List (Pid × Option Termination)) : List Event :=
  found.map fun one => .waited one.1 (one.2.map Termination.encode)

@[simp] theorem forks_foundEvents (found : List (Pid × Option Termination)) :
    forks (foundEvents found) = [] := by
  simp [forks, foundEvents, List.filterMap_map]

@[simp] theorem waits_foundEvents (found : List (Pid × Option Termination)) :
    waits (foundEvents found) = found.map fun one => (one.1, one.2.map Termination.encode) := by
  simp [waits, foundEvents, List.filterMap_map]

/-- The status kept is that of the last process, if the wait for it has not failed. -/
theorem waitLoop_last (andPid : Option Pid) (pids : List Pid) (status lastStatus : Nat) :
    (kernel true).Returns
      (fun last after => ∃ found : List (Pid × Option Termination),
        after.log = shell.log ++ foundEvents found ∧ found.map Prod.fst = pids ∧
        (andPid = none ∨ pids = [] → last = lastStatus) ∧
        ∀ pid, andPid = some pid → pids.getLast? = some pid →
          ∃ ended, found.getLast? = some (pid, ended) ∧
            ∀ termination, ended = some termination → last = termination.encode)
      (waitLoop andPid pids status lastStatus) shell := by
  induction pids generalizing shell status lastStatus with
  | nil => exact ⟨[], by simp [foundEvents], rfl, fun _ => rfl, nofun⟩
  | cons pid pids ih =>
    refine ⟨trivial, fun reply waited served => ?_⟩
    obtain ⟨ended, rfl, rfl⟩ : ∃ ended : Option Termination, reply = ended.map Termination.encode ∧
        waited = shell.note (.waited pid reply) := by
      obtain ⟨rfl, ⟨-, rfl⟩ | ⟨termination, rfl⟩⟩ := served
      · exact ⟨none, rfl, rfl⟩
      · exact ⟨some termination, rfl, rfl⟩
    refine (ih _ _).returns fun last after ⟨found, log, pids_eq, kept, told⟩ => ?_
    refine ⟨(pid, ended) :: found, by simp [log, Shell.note, foundEvents], by simp [pids_eq], ?_, ?_⟩
    · rintro (none | empty)
      · simpa [none] using kept (.inl none)
      · cases empty
    · intro other here lastOne
      cases pids with
      | nil =>
        obtain rfl : pid = other := by simpa using lastOne
        obtain rfl := List.map_eq_nil_iff.mp pids_eq
        refine ⟨ended, rfl, ?_⟩
        rintro termination rfl
        simpa [here] using kept (.inr rfl)
      | cons next pids =>
        obtain ⟨last', atEnd, same⟩ := told other here (by simpa using lastOne)
        exact ⟨last', by rw [List.getLast?_cons, atEnd]; rfl, same⟩

theorem waitAnd_last (pids : List Pid) (andPid : Option Pid) :
    (kernel true).Returns
      (fun last after => ∃ found : List (Pid × Option Termination),
        after.log = shell.log ++ foundEvents found ∧ (andPid = none → last = 0) ∧
        ∀ pid, andPid = some pid → ∃ ended, found.getLast? = some (pid, ended) ∧
          ∀ termination, ended = some termination → last = termination.encode)
      (waitAnd (pids ++ andPid.toList) andPid) shell := by
  refine ⟨trivial, fun status begun served => ?_⟩
  obtain rfl : begun = shell := served
  refine (waitLoop_last andPid _ status 0).returns fun last after ⟨found, log, _, kept, told⟩ => ?_
  exact ⟨found, log, fun none => kept (.inl none), fun pid here => told pid here (by simp [here])⟩

def eventsSince (before after : Shell) : List Event := after.log.drop before.log.length

/-- What the code makes of the commands whose events these are: the rest of the line is started
exactly if the last command succeeded, whatever can have come of it, just where all that can have come
of it is regular. -/
def Decides (events : List Event) (started : Bool) : Prop :=
  (∃ outcome, CameTo events outcome) ∧
    ((∀ outcome, CameTo events outcome → (started = true ↔ outcome.succeeded = true)) ↔
      ∀ outcome, CameTo events outcome → outcome.regular = true)

theorem CameTo.decides {events : List Event} {outcome : Outcome} {started : Bool}
    (came : CameTo events outcome) (told : ∀ termination, outcome ≠ .ended termination false)
    (law : started = (outcome.succeeded || !outcome.regular)) : Decides events started := by
  have decides : (started = true ↔ outcome.succeeded = true) ↔ outcome.regular = true := by
    rw [law]
    cases outcome with
    | notStarted => decide
    | acted succeeded => cases succeeded <;> decide
    | ended termination got =>
      cases got with
      | false => exact (told termination rfl).elim
      | true => cases termination <;> simp [Outcome.succeeded, Outcome.regular]
  refine ⟨⟨outcome, came⟩, fun right other here => ?_, fun regular other here => ?_⟩
  · rw [came.unique told here]
    exact decides.mp (right outcome came)
  · rw [came.unique told here]
    exact decides.mpr (regular outcome came)

/-- A command of whose end the shell is not told may have succeeded or failed. -/
theorem decides_untold {events : List Event} {child : Fork} (forked : forks events = [child])
    (waited : (waits events).getLast? = some (child.pid, none)) (started : Bool) :
    Decides events started := by
  have came := CameTo.untold forked waited
  refine ⟨⟨_, came (.exited 0)⟩, fun right => ?_, fun regular => ?_⟩
  · have first := right _ (came (.exited 0))
    have second := right _ (came (.exited 1))
    cases started <;> simp [Outcome.succeeded] at first second
  · have never := regular _ (came (.exited 0))
    cases never

/-- What came of the command in front of an `&&`, and what the code makes of it. -/
theorem opAnd_decides (interp : Interp) (stop : Nat) :
    (kernel true).Returns (fun flow after => Decides (eventsSince shell after) flow.goesOn)
      (opAnd interp stop) shell := by
  refine ((interp_execute_ran interp interp.fds).and (returns_extends _)).bind
    fun andPid executed ⟨ran, events, log⟩ => ?_
  refine (waitAnd_last interp.pids andPid).bind fun last waited ⟨found, more, unforked, told⟩ => ?_
  have all : eventsSince shell waited = events ++ foundEvents found := by
    simp [eventsSince, more, log]
  have forked : (forks events).map Fork.pid = andPid.toList := by
    have grown := ran.forked
    simpa [Shell.forkedPids, log] using grown
  have decides : ∀ flow : Flow, flow.goesOn = !andFailed last →
      Decides (eventsSince shell waited) flow.goesOn := by
    intro flow same
    cases andPid with
    | none =>
      have none : forks (eventsSince shell waited) = [] := by
        simpa [all] using forked
      rw [unforked rfl, andFailed_zero] at same
      cases action : (actions (eventsSince shell waited)).getLast? with
      | none =>
        have came := CameTo.notStarted none (List.getLast?_eq_none_iff.mp action)
        exact came.decides (fun _ => Outcome.noConfusion) same
      | some succeeded =>
        have came := CameTo.acted none action
        exact came.decides (fun _ => Outcome.noConfusion) (by cases succeeded <;> exact same)
    | some pid =>
      obtain ⟨ended, atEnd, status⟩ := told pid rfl
      obtain ⟨child, one, rfl⟩ := List.map_eq_singleton_iff.mp forked
      have single : forks (eventsSince shell waited) = [child] := by simp [all, one]
      cases ended with
      | none => exact decides_untold single (by simp [all, atEnd]) _
      | some termination =>
        obtain rfl := status termination rfl
        have came := CameTo.ended single (by simp [all, atEnd] :
          (waits (eventsSince shell waited)).getLast? = some (child.pid, some termination.encode))
        refine came.decides (fun _ => by simp) ?_
        cases termination with
        | exited code =>
          rw [same, andFailed_exited]
          by_cases zero : code = 0
          · simp [zero, Outcome.succeeded, Outcome.regular]
          · have nonzero : code.val ≠ 0 := fun value => zero (Fin.ext value)
            simp [nonzero, Outcome.succeeded, Outcome.regular]
        | signaled signal core => simp [same, Outcome.succeeded, Outcome.regular]
  split
  · exact decides _ (by simp_all [Flow.goesOn])
  · exact decides _ (by simp_all [Flow.goesOn])

/-- The rest of the line is started exactly if the last command in front of the `&&` succeeded, in the
cases where that command exited and the shell got its status or was a builtin that succeeded, and in
no other case. -/
theorem startsRest_iff {tokens : List Text} {entry before after : Shell} {started : Bool}
    (decided : Decided (kernel true) tokens entry before after started) :
    (∃ outcome, CameTo (eventsSince before after) outcome) ∧
      ((∀ outcome, CameTo (eventsSince before after) outcome →
          (started = true ↔ outcome.succeeded = true)) ↔
        ∀ outcome, CameTo (eventsSince before after) outcome → outcome.regular = true) := by
  obtain ⟨mark, interp, flow, -, atAnd, ran, rfl⟩ := decided
  obtain ⟨args, stop, same⟩ := Interp.round_of_atAnd atAnd
  rw [same] at ran
  exact (opAnd_decides { interp with args := args } stop).reach (kernel_quiet true) ran

/-- Every process is killed by the signal 9. -/
def killing : Policy := ⟨fun count => count + 1, fun _ _ => some (.signaled 8 false), fun _ _ => false⟩

theorem startsRest_iff_killed : ∃ before after : Shell, forks (eventsSince before after) ≠ [] ∧
    (∃ outcome, CameTo (eventsSince before after) outcome) ∧
      ((∀ outcome, CameTo (eventsSince before after) outcome →
          (true = true ↔ outcome.succeeded = true)) ↔
        ∀ outcome, CameTo (eventsSince before after) outcome → outcome.regular = true) := by
  have ran : (kernel true).Reach
      (round (.initial ["a".toList, "&&".toList, "b".toList]), Shell.initial) (.done (.again _), _) :=
    Service.reach_of_eval (killing.permits_of (.inl rfl)) rfl
  exact ⟨_, _, by decide, startsRest_iff ⟨_, _, _, .start, by decide, ran, rfl⟩⟩

/-- In `a && b` with `a` killed by a signal, `b` is started although `a` did not succeed. -/
theorem startsRest_after_signal : ∃ before after,
    Decided (kernel true) ["a".toList, "&&".toList, "b".toList] .initial before after true ∧
      CameTo (eventsSince before after) (.ended (.signaled 8 false) true) ∧
      (Outcome.ended (.signaled 8 false) true).succeeded = false := by
  have ran : (kernel true).Reach
      (round (.initial ["a".toList, "&&".toList, "b".toList]), Shell.initial) (.done (.again _), _) :=
    Service.reach_of_eval (killing.permits_of (.inl rfl)) rfl
  exact ⟨_, _, ⟨_, _, _, .start, by decide, ran, rfl⟩, .ended rfl rfl, rfl⟩

end Lsnp.Lab
