import Lsnp.Lab.Calls
import Lsnp.Lab.Rounds
import Lsnp.Unix.Obliging

namespace Lsnp.Lab

open Lsnp.Interaction Lsnp.Unix

variable {theft : Bool} {shell : Shell}

private theorem request_idle {asked : Call} (other : ¬ asked.isFork ∧ ¬ asked.isWaitpid) :
    (kernel theft).Returns (fun _ after => Ran shell after [] [])
      (Program.request asked : Prog asked.Reply) shell :=
  returns_idle (Program.uses_request.mpr other)

private theorem keptIdle_ran (entry : Shell) (forked : List Pid) :
    KeptIdle (kernel theft) fun state => Ran entry state forked [] := by
  intro state asked reply after other ran served
  obtain ⟨sameForks, sameWaits⟩ := serve_processes served other.1 other.2
  exact ⟨by simpa [Shell.forkedPids, sameForks] using ran.forked,
    by simpa [Shell.waitedPids, sameWaits] using ran.waited⟩

theorem execute_ran (arglist : Nat) (argv : List Text) (fdIn fdOut : Option Fd) :
    (kernel theft).Returns (fun pid after => Ran shell after pid.toList [])
      (execute arglist argv fdIn fdOut) shell := by
  have forking : Forking (kernel theft) arglist argv (Ran shell · [] [])
      fun pid state => Ran shell state [pid] [] := by
    intro state reply after ran served
    have forked : (kernel theft).Returns (fun pid after => Ran state after pid.toList [])
        (Sys.fork arglist argv) state := fork_ran arglist argv
    have whole := ran.trans (forked.2 reply after served)
    cases reply <;> exact whole
  apply (execute_forks (keptIdle_ran shell []) (fun pid => keptIdle_ran shell [pid]) forking
    fdIn fdOut (Ran.refl shell)).returns
  intro pid after started
  cases pid <;> exact started

theorem waitEach_ran (pids : List Pid) :
    (kernel theft).Returns (fun _ after => Ran shell after [] pids) (waitEach pids) shell := by
  induction pids generalizing shell with
  | nil => exact Ran.refl shell
  | cons pid pids ih =>
    exact (waitpid_ran pid).bind fun _ waited ran => ih.returns fun _ _ rest => ran.trans rest

theorem waitLoop_ran (andPid : Option Pid) (pids : List Pid) (status lastStatus : Nat) :
    (kernel theft).Returns (fun _ after => Ran shell after [] pids)
      (waitLoop andPid pids status lastStatus) shell := by
  induction pids generalizing shell status lastStatus with
  | nil => exact Ran.refl shell
  | cons pid pids ih =>
    exact (waitpid_ran pid).bind fun _ waited ran =>
      (ih _ _).returns fun _ _ rest => ran.trans rest

theorem waitAnd_ran (pids : List Pid) (andPid : Option Pid) :
    (kernel theft).Returns (fun _ after => Ran shell after [] pids)
      (waitAnd pids andPid) shell :=
  (request_idle ⟨id, id⟩).bind fun status _ begun =>
    (waitLoop_ran andPid pids status 0).returns fun _ _ rest => begun.trans rest

/-- What a round does about processes: it forks some; an `&&` waits for them and for
those in the list, and any other round adds them to the list. -/
def RoundRan (atAnd : Bool) (interp : Interp) (before : Shell) (flow : Flow) (after : Shell) : Prop :=
  ∃ forked, Ran before after forked (if atAnd then interp.pids ++ forked else []) ∧
    flow.interp.pids = (if atAnd then [] else interp.pids ++ forked) ∧
    (flow.goesOn = true ∨ atAnd = true → flow.interp.background = interp.background)

private theorem fault_ensures {α : Type} {after : α → Shell → Prop} :
    (kernel theft).Returns after fault shell := ⟨trivial, fun reply => reply.elim⟩

theorem interp_execute_ran (interp : Interp) (fds : Fds) :
    (kernel theft).Returns (fun pid after => Ran shell after pid.toList [])
      (interp.execute fds) shell := by
  unfold Interp.execute
  split
  · exact fault_ensures
  · exact execute_ran _ _ _ _

private theorem closeIfOpen_ran (fd : Option Fd) :
    (kernel theft).Returns (fun _ after => Ran shell after [] []) (closeIfOpen fd) shell := by
  cases fd with
  | none => exact Ran.refl shell
  | some fd => exact request_idle ⟨id, id⟩

private theorem RoundRan.idle {interp : Interp} {before after : Shell} {flow : Flow}
    (ran : Ran before after [] []) (pids : flow.interp.pids = interp.pids)
    (background : flow.interp.background = interp.background) :
    RoundRan false interp before flow after :=
  ⟨[], ran, by simp [pids], fun _ => background⟩

private theorem opRedirect_ran (direction : Direction) (interp : Interp) (stop : Nat) :
    (kernel theft).Returns (fun flow after => RoundRan false interp shell flow after)
      (opRedirect direction interp stop) shell := by
  unfold opRedirect
  split
  · exact fault_ensures
  · exact (request_idle ⟨id, id⟩).bind fun _ _ told => .idle told rfl rfl
  · refine (closeIfOpen_ran _).bind fun _ closed first => ?_
    refine (request_idle ⟨id, id⟩).bind fun fd opened second => ?_
    cases fd with
    | none =>
      exact (request_idle ⟨id, id⟩).bind fun _ _ told =>
        .idle ((first.trans second).trans told) rfl rfl
    | some fd => exact .idle (first.trans second) rfl rfl

private theorem opPipe_ran (interp : Interp) (stop : Nat) :
    (kernel theft).Returns (fun flow after => RoundRan false interp shell flow after)
      (opPipe interp stop) shell := by
  have piping : (openPipe interp.cmdArglist (stop + 1) interp.fds.fdOut).uses
      fun asked => ¬ asked.isFork ∧ ¬ asked.isWaitpid :=
    openPipe_uses _ _ _ ⟨id, id⟩ (fun _ => ⟨id, id⟩) fun _ => ⟨id, id⟩
  refine (returns_idle piping).bind fun ends piped first => ?_
  cases ends with
  | none => exact .idle first rfl rfl
  | some ends =>
    refine (interp_execute_ran interp _).bind fun pid started second => ?_
    cases pid with
    | none =>
      exact (request_idle ⟨id, id⟩).bind fun _ _ closed =>
        .idle ((first.trans second).trans closed) rfl rfl
    | some pid => exact ⟨[pid], first.trans second, rfl, fun _ => rfl⟩

private theorem opAnd_ran (interp : Interp) (stop : Nat) :
    (kernel theft).Returns (fun flow after => RoundRan true interp shell flow after)
      (opAnd interp stop) shell := by
  refine (interp_execute_ran interp _).bind fun andPid started first => ?_
  refine (waitAnd_ran _ _).bind fun lastStatus waited second => ?_
  have ran : Ran shell waited andPid.toList (interp.pids ++ andPid.toList) := by
    simpa using first.trans second
  split
  · exact ⟨andPid.toList, ran, rfl, fun _ => rfl⟩
  · exact ⟨andPid.toList, ran, rfl, fun _ => rfl⟩

private theorem opBackground_ran (interp : Interp) :
    (kernel theft).Returns (fun flow after => RoundRan false interp shell flow after)
      (opBackground interp) shell := by
  refine (interp_execute_ran interp _).bind fun bgPid started first => ?_
  have announced : (kernel theft).Returns (fun _ after => Ran started after [] [])
      (announce bgPid) started := by
    cases bgPid with
    | none => exact Ran.refl started
    | some pid => exact request_idle ⟨id, id⟩
  refine announced.bind fun _ told second => ⟨bgPid.toList, ?_, rfl, ?_⟩
  · simpa using first.trans second
  · rintro (again | atAnd)
    · cases again
    · cases atAnd

theorem round_ran (interp : Interp) :
    (kernel theft).Returns (fun flow after => RoundRan interp.atAnd interp shell flow after)
      (round interp) shell := by
  unfold round Interp.atAnd
  cases read : getOpType interp.args interp.currPtr with
  | none => exact fault_ensures
  | some found =>
    obtain ⟨op, args, stop⟩ := found
    cases op with
    | none =>
      exact (interp_execute_ran _ _).bind fun pid started ran =>
        ⟨pid.toList, ran, rfl, fun _ => rfl⟩
    | pipe => exact opPipe_ran { interp with args := args } stop
    | out => exact opRedirect_ran .output { interp with args := args } stop
    | input => exact opRedirect_ran .input { interp with args := args } stop
    | and => exact opAnd_ran { interp with args := args } stop
    | background => exact opBackground_ran { interp with args := args }

theorem errorExit_ran (background : Bool) (pids : List Pid) (fds : Fds) :
    (kernel theft).Returns (fun _ after => Ran shell after [] (if background then [] else pids))
      (errorExit background pids fds) shell := by
  have waiting : (kernel theft).Returns
      (fun _ after => Ran shell after [] (if background then [] else pids))
      (waitForeground background pids) shell := by
    cases background with
    | true => exact Ran.refl shell
    | false => exact waitEach_ran pids
  refine waiting.bind fun _ waited first => ?_
  refine (closeIfOpen_ran _).bind fun _ closed second => ?_
  exact (closeIfOpen_ran _).returns fun _ after third => by
    simpa using (first.trans second).trans third

/-- What holds between two rounds: all that was forked up to the last `&&` has been
waited for, and what was forked since is in the list. -/
structure Accounted (entry mark : Shell) (interp : Interp) (state : Shell) (done : List Pid) :
    Prop where
  marked : Ran entry mark done done
  now : Ran entry state (done ++ interp.pids) done
  foreground : interp.background = false

theorem progress_accounted {tokens : List Text} {entry mark state : Shell} {interp : Interp}
    (progress : Progress (kernel theft) tokens entry mark interp state) :
    ∃ done, Accounted entry mark interp state done := by
  induction progress with
  | start => exact ⟨[], Ran.refl entry, Ran.refl entry, rfl⟩
  | @round mark state after interp next before ran ih =>
    obtain ⟨done, marked, now, foreground⟩ := ih
    obtain ⟨forked, ran, pids, background⟩ := (round_ran interp).reach (kernel_quiet theft) ran
    have background := (background (.inl rfl)).trans foreground
    have whole := now.trans ran
    change next.pids = _ at pids
    cases atAnd : interp.atAnd with
    | true =>
      simp only [atAnd, if_true] at whole pids
      refine ⟨done ++ (interp.pids ++ forked), ?_, ?_, background⟩
      · simpa using whole
      · simpa [pids] using whole
    | false =>
      simp only [atAnd, Bool.false_eq_true, if_false] at whole pids
      refine ⟨done, by simpa using marked, ?_, background⟩
      simpa [pids] using whole

/-- A call that returns has waited for each process it forked, once and in order. If it
ends through a background operator these are the processes up to the last `&&`, and
nothing is waited for after that. -/
theorem waits_for_forked {tokens : List Text} {entry after : Shell}
    (reach : (kernel true).Reach (isExecutable tokens, entry) (.done (), after)) :
    ∃ mark background, Returned (kernel true) tokens entry mark background after ∧
      (background = false → waitedSince entry after = forkedSince entry after) ∧
      (background = true → waitedSince entry after = waitedSince entry mark ∧
        waitedSince entry after = forkedSince entry mark) := by
  obtain ⟨mark, background, returned⟩ := returned_of_reach reach
  refine ⟨mark, background, returned, ?_⟩
  obtain ⟨interp, state, last, between, progress, ran, same, exit⟩ := returned.rounds
  obtain ⟨done, accounted⟩ := progress_accounted progress
  obtain ⟨forked, ran, pids, foreground⟩ := (round_ran interp).reach (kernel_quiet true) ran
  have exited := (errorExit_ran _ _ _).reach (kernel_quiet true) exit
  have whole := (accounted.now.trans ran).trans exited
  change last.pids = _ at pids
  change _ → last.background = _ at foreground
  obtain ⟨markForked, markWaited⟩ := accounted.marked.since
  obtain ⟨allForked, allWaited⟩ := whole.since
  rw [allForked, allWaited, markForked, markWaited, pids, same]
  cases atAnd : interp.atAnd with
  | true =>
    have never : background = false := by
      rw [← same, foreground (.inr atAnd), accounted.foreground]
    simp [never]
  | false => constructor <;> rintro rfl <;> simp

theorem waits_for_forked_pipeline : ∃ after, ∃ mark background,
    Returned (kernel true) ["a".toList, "|".toList, "b".toList] .initial mark background after ∧
      (background = false → waitedSince .initial after = forkedSince .initial after) ∧
      (background = true → waitedSince .initial after = waitedSince .initial mark ∧
        waitedSince .initial after = forkedSince .initial mark) :=
  ⟨_, waits_for_forked (Service.reach_of_eval obliging.permits rfl)⟩

end Lsnp.Lab
