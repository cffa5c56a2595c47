import Lsnp.Lab.Grammar
import Lsnp.Lab.Willing
import Lsnp.Lab2.Runs

namespace Lsnp.Lab2

open Lsnp.Interaction Lsnp.Unix

def Common.ending (line : Common) : Lab.Ending :=
  if line.background then .background else .none

def Common.plans (line : Common) : List Lab.Plan :=
  match line.rest with
  | .nothing => [⟨line.argv, [], line.ending⟩]
  | .pipe name args _ => [⟨line.argv, [], .pipe⟩, ⟨texts name args, [], line.ending⟩]
  | .redirection target _ => [⟨line.argv, [(.output, target.text)], line.ending⟩]

theorem closes_common (line : Common) :
    Lab.Closes (if line.background then ["&".toList] else []) line.ending [] := by
  rw [Common.ending]
  split
  · exact Lab.closes_background
  · exact Lab.closes_end

variable {tail : List Text} {ending : Lab.Ending} {more : List Lab.Plan}

theorem plan_words (closes : Lab.Closes tail ending more) {words : List Text} (plain : Plain words)
    {draft : Lab.Draft} (safe : draft.Safe) (slot : Nat) :
    (Lab.parse draft slot (words ++ tail)).map Lab.Stage.plan =
      ⟨(draft.pushAll words).argv, [], ending⟩ :: more := by
  rw [Lab.parse_words fun word member => (plain word member).1]
  refine closes _ _ fun word last => ?_
  rw [Lab.pushAll_last] at last
  cases found : words.getLast? with
  | none =>
    rw [found] at last
    exact safe word last
  | some other =>
    rw [found] at last
    obtain rfl := Option.some.inj last
    exact (plain _ (List.mem_of_getLast? found)).2

theorem plan_texts (closes : Lab.Closes tail ending more) (name : Lab.Word) (args : List Lab.Word)
    (slot : Nat) : (Lab.parse (.fresh slot) slot (texts name args ++ tail)).map Lab.Stage.plan =
      ⟨texts name args, [], ending⟩ :: more := by
  have fresh : (Lab.Draft.fresh slot).Safe := by rintro word ⟨⟩
  rw [plan_words closes (plain_texts name args) fresh]
  simp [Lab.pushAll_argv, Lab.Draft.fresh]

theorem plan_redirected (closes : Lab.Closes tail ending more) {words : List Text}
    (plain : Plain words) (target : Text) (draft : Lab.Draft) (slot : Nat) :
    (Lab.parse draft slot (">".toList :: target :: (words ++ tail))).map Lab.Stage.plan =
      ⟨draft.argv, [(.output, target)], ending⟩ :: more := by
  have redirected : draft.redirect.Safe := by rintro word ⟨⟩
  have opened : Lab.parse draft slot (">".toList :: target :: (words ++ tail)) =
      Lab.addRedirection (.output, target) (Lab.parse draft.redirect (slot + 2) (words ++ tail)) := rfl
  rw [opened, Lab.plan_addRedirection _ (plan_words closes plain redirected _)]
  simp [Lab.pushAll_argv, Lab.Draft.redirect]

theorem stages_common (line : Common) :
    (Lab.stages line.tokens).map Lab.Stage.plan = line.plans := by
  have closes := closes_common line
  rw [Lab.stages, Common.tokens, Common.words, Common.plans, Common.argv]
  cases rest : line.rest with
  | nothing =>
    simpa [Rest.tokens] using plan_texts closes line.name line.args 0
  | pipe name args external =>
    have piped := Lab.closes_pipe (plan_texts closes name args)
    simpa [Rest.tokens] using plan_texts piped line.name line.args 0
  | redirection target further =>
    have plain : Plain (further.map Lab.Word.text) := fun word member =>
      plain_texts target further word (List.mem_cons_of_mem _ member)
    have words := plain_texts line.name line.args
    have stages := plan_redirected closes plain target.text
      ((Lab.Draft.fresh 0).pushAll (texts line.name line.args))
      (0 + (texts line.name line.args).length)
    rw [← Lab.parse_words fun word member => (words word member).1] at stages
    simpa [Rest.tokens, texts, Lab.pushAll_argv, Lab.Draft.fresh] using stages

def forkedCommand (child : Fork) : Command := ⟨child.argv, child.table.file 0, child.table.file 1⟩

def deedCommand : Lab.Deed → Option Command
  | .forks _ argv stdin stdout => some ⟨argv, stdin, stdout⟩
  | _ => none

theorem commands_deeds (log : List Event) :
    (Lab.deeds log).filterMap deedCommand = (forks log).map forkedCommand := by
  rw [Lab.deeds, forks, List.filterMap_filterMap, List.map_filterMap]
  refine List.filterMap_congr fun event _ => ?_
  cases event <;> rfl

variable (setting : Lab.Setting) (tally : Lab.Tally)

theorem evaluate_commands (line : Common) :
    (Lab.evaluate setting line.plans tally none []).filterMap deedCommand =
      line.commands setting.stdin setting.stdout tally.files tally.pipes := by
  rw [Common.plans, Common.commands, Common.ending]
  cases line.rest <;> cases line.background <;> rfl

theorem evaluate_background {line : Common} (background : line.background = true) (pid : Pid) :
    .waits pid ∉ Lab.evaluate setting line.plans tally none [] := by
  rw [Common.plans, Common.ending, background]
  cases line.rest <;>
    simp [Lab.evaluate, Lab.openedFiles]

theorem evaluate_foreground {line : Common} (foreground : line.background = false) :
    ∃ front pid argv stdin stdout back, Lab.evaluate setting line.plans tally none [] =
        front ++ .forks pid argv stdin stdout :: back ∧ .waits pid ∈ back ∧
      back.filterMap deedCommand = [] := by
  rw [Common.plans, Common.ending, foreground]
  cases line.rest with
  | nothing => exact ⟨[], _, _, _, _, [.waits (setting.name tally.forked)], rfl, by simp, rfl⟩
  | pipe name args external =>
    refine ⟨[_], _, _, _, _, [.waits (setting.name tally.forked),
      .waits (setting.name (tally.forked + 1))], rfl, by simp, rfl⟩
  | redirection target further =>
    exact ⟨[_], _, _, _, _, [.waits (setting.name tally.forked)], rfl, by simp, rfl⟩

theorem waits_deeds {pid : Pid} {log : List Event} :
    .waits pid ∈ Lab.deeds log ↔ pid ∈ (Unix.waits log).map Prod.fst := by
  rw [Lab.deeds, Unix.waits, List.map_filterMap, List.mem_filterMap, List.mem_filterMap]
  refine exists_congr fun event => and_congr_right fun _ => ?_
  cases event <;> simp [Lab.deed]

/-- The first shell in front of `is_executable`, with the processes of earlier lines. -/
structure LabStart where
  world : Lab.World
  idle : world.handler = .idle
  orderly : Lab.Orderly world
  reckoned : Lab.Reckoned world
  standardIn : world.shell.table.file 0 ≠ none
  standardOut : world.shell.table.file 1 ≠ none

namespace LabStart

variable (start : LabStart) (line : Common) (after : Lab.World)

/-- In some run on a line, with every call succeeding that can, `is_executable` returns in this
state. -/
def Returns : Prop :=
  Lab.willingSystem.Reach (Lab.isExecutable line.tokens, start.world) (.done (), after)

def started : List Command :=
  ((forks after.shell.log).drop (forks start.world.shell.log).length).map forkedCommand

def commands : List Command :=
  line.commands (start.world.shell.table.file 0) (start.world.shell.table.file 1)
    start.world.shell.files start.world.shell.pipes.length

/-- The right-most command of the line has been started and has ended. -/
def LastEnded : Prop :=
  ∃ number child termination, (forks start.world.shell.log).length ≤ number ∧
    (forks after.shell.log)[number]? = some child ∧
    (start.commands line).getLast? = some (forkedCommand child) ∧
    (number, termination) ∈ after.died

variable {start line after}

/-- The commands of the line are forked, and nothing is chained with `&&`. -/
theorem plain_common (line : Common) : ∀ stage ∈ Lab.stages line.tokens,
    stage.plan.Plain ∧ stage.ending ≠ .and := by
  have listed : ∀ plan ∈ line.plans, plan.Plain ∧ plan.ending ≠ .and := by
    have command : ∀ name args redirections (ending : Lab.Ending),
        Lab.isBuiltin [name.text] = false →
        ending = .pipe ∨ ending = .none ∨ ending = .background →
        (Lab.Plan.mk (texts name args) redirections ending).Plain ∧ ending ≠ .and := by
      intro name args redirections ending external either
      refine ⟨⟨nofun, external, ?_, ?_⟩, ?_⟩ <;> rcases either with rfl | rfl | rfl <;> nofun
    have last : line.ending = .pipe ∨ line.ending = .none ∨ line.ending = .background := by
      rw [Common.ending]
      split <;> simp
    have first := fun redirections ending =>
      command line.name line.args redirections ending line.external
    rw [Common.plans, Common.argv]
    cases line.rest with
    | nothing => simpa using first [] _ last
    | pipe name args external =>
      have both := And.intro (first [] .pipe (.inl rfl)) (command name args [] _ external last)
      simpa using both
    | redirection target further => simpa using first _ _ last
  intro stage member
  refine listed stage.plan ?_
  rw [← stages_common]
  exact List.mem_map_of_mem member

theorem Returns.deeds (returns : start.Returns line after) :
    ∃ setting events, setting.stdin = start.world.shell.table.file 0 ∧
      setting.stdout = start.world.shell.table.file 1 ∧
      after.shell.log = start.world.shell.log ++ events ∧
      Lab.deeds events = Lab.evaluate setting line.plans (.of start.world.shell) none [] := by
  have plain := plain_common line
  let policy := Policy.replay after.shell.log
  have granting : Lab.Granting policy := fun _ _ => rfl
  have exiting : (∃ stage ∈ Lab.stages line.tokens, stage.ending = .and) →
      Lab.Exiting policy fun _ => 0 := fun ⟨stage, member, and⟩ => ((plain stage member).2 and).elim
  have run := Lab.reach_willing returns
  rw [Lab.isExecutable_eq] at run
  obtain ⟨computed, events, log⟩ := reach_replay (Lab.runStages_recorded
    (fun stage member => (plain stage member).1.external)
    (fun stage member => ⟨(plain stage member).2, (plain stage member).1.full⟩) _ _) run
  have done := (Lab.runStages_deeds granting (fun stage member => (plain stage member).1) exiting
    (Lab.carries_none start.standardIn start.standardOut) rfl).reach (fun _ _ moved => moved) computed
  refine ⟨.of policy (start.world.shell.table.file 0) (start.world.shell.table.file 1) fun _ => 0,
    events, rfl, rfl, log, ?_⟩
  change Lab.deeds after.shell.log = _ at done
  have grown : after.shell.log = start.world.shell.log ++ events := log
  rw [grown, Lab.deeds_append] at done
  rw [← stages_common]
  exact List.append_cancel_left done

/-- When it returns, the commands of the line have been started, in this order and no others. -/
theorem Returns.started (returns : start.Returns line after) :
    start.started after = start.commands line := by
  obtain ⟨setting, events, stdin, stdout, log, done⟩ := returns.deeds
  rw [LabStart.started, LabStart.commands, log, forks_append, List.drop_left, ← commands_deeds, done,
    evaluate_commands, stdin, stdout]
  rfl

theorem forked_of_deeds {events : List Event} {front back : List Lab.Deed} {pid : Pid}
    {argv : List Text} {stdin stdout : Option File}
    (done : Lab.deeds events = front ++ .forks pid argv stdin stdout :: back) :
    ∃ before child behind, events = before ++ .forked child :: behind ∧ child.pid = pid ∧
      Lab.deeds behind = back := by
  obtain ⟨before, others, rfl, -, there⟩ := List.filterMap_eq_append_iff.mp done
  obtain ⟨silent, event, behind, rfl, -, forked, later⟩ := List.filterMap_eq_cons_iff.mp there
  cases event with
  | forked child =>
    obtain ⟨rfl, -⟩ := Lab.Deed.forks.inj (Option.some.inj forked)
    exact ⟨before ++ silent, child, behind, by simp, rfl, later⟩
  | _ => cases forked

/-- On a line without a final `&` it returns after the end of the right-most command. -/
theorem Returns.late (foreground : line.background = false) (returns : start.Returns line after) :
    start.LastEnded line after := by
  obtain ⟨setting, events, -, -, log, done⟩ := returns.deeds
  obtain ⟨front, pid, argv, stdin, stdout, back, same, waited, alone⟩ :=
    evaluate_foreground setting (.of start.world.shell) foreground
  rw [same] at done
  obtain ⟨before, child, behind, rfl, rfl, rfl⟩ := forked_of_deeds done
  have last : (forks behind).map forkedCommand = [] := by rw [← commands_deeds, alone]
  have none : forks behind = [] := by simpa using last
  have buried := Lab.died_of_waited (Lab.reach_system returns) start.orderly start.reckoned
  obtain ⟨termination, died⟩ := buried (start.world.shell.log ++ before) child behind
    (by rw [log, List.append_assoc]) (by simp) (waits_deeds.mp waited)
  have forked : forks after.shell.log =
      forks (start.world.shell.log ++ before) ++ [child] := by
    have first : forks (.forked child :: behind) = child :: forks behind := rfl
    rw [log, ← List.append_assoc, forks_append, first, none]
  refine ⟨_, child, termination, ?_, ?_, ?_, died⟩
  · simp
  · rw [forked, List.getElem?_concat_length]
  · rw [← returns.started, LabStart.started, forked]
    simp

theorem tokens_full (line : Common) : ∀ token ∈ line.tokens, token ≠ [] := by
  have words : ∀ name args, ∀ token ∈ texts name args, token ≠ [] := fun name args token member =>
    (plain_texts name args token member).2.1
  have operand : ∀ (sign : Text) name args, sign ≠ [] → ∀ token ∈ sign :: texts name args, token ≠ [] := by
    intro sign name args filled token member
    rcases List.mem_cons.mp member with rfl | later
    · exact filled
    · exact words name args token later
  intro token member
  rw [Common.tokens, Common.words, List.append_assoc, List.mem_append, List.mem_append] at member
  rcases member with command | rest | last
  · exact words _ _ token command
  · unfold Rest.tokens at rest
    split at rest
    · cases rest
    · exact operand _ _ _ (by decide) token rest
    · exact operand _ _ _ (by decide) token rest
  · split at last
    · rw [List.mem_singleton.mp last]
      decide
    · cases last

/-- Some run returns, and if the line has a final `&` one in which its last command goes on. -/
theorem exists_returns (start : LabStart) (line : Common) : ∃ after, start.Returns line after ∧
    (line.background = true → ¬ start.LastEnded line after) := by
  obtain ⟨⟨⟩, after, returns, waited, log, quiet⟩ :=
    Lab.exists_run (Lab.isExecutable_faultless (tokens_full line)) start.idle
  refine ⟨after, returns, fun background => ?_⟩
  rintro ⟨number, child, termination, later, -, -, died⟩
  obtain ⟨setting, events, -, -, grown, done⟩ := Returns.deeds returns
  have nobody : Unix.waits events = [] := by
    refine List.eq_nil_iff_forall_not_mem.mpr fun entry member => ?_
    have listed := waits_deeds.mpr (List.mem_map_of_mem (f := Prod.fst) member)
    rw [done] at listed
    exact evaluate_background setting _ background _ listed
  have none : waited = [] := by
    rw [grown, waits_append, nobody] at log
    simpa using log.symm
  rw [quiet none] at died
  exact absurd later (Nat.not_le.mpr (start.reckoned.forked_of_died died))

end LabStart

def Settled (world : World) : Prop := ∀ process ∈ world.processes, process.isSettled = true

/-- On this line the shells start the same commands, and each returns only after the end of the
right-most one if and only if there is no final `&`. -/
structure Agree (first : LabStart) (second : Start) (line : Common) : Prop where
  runs : (∃ after, first.Returns line after) ∧
    ∃ world, second.Reaches line world ∧ Returned world ∧ Settled world
  started : ∀ after world, first.Returns line after → second.Reaches line world → Settled world →
    first.started after = first.commands line ∧
      ∃ files pipes, started world.processes = started second.others +
        line.commands (first.world.shell.table.file 0) (first.world.shell.table.file 1) files pipes
  first : (∀ after, first.Returns line after → first.LastEnded line after) ↔
    line.background = false
  second : (∀ world, second.Reaches line world → Returned world → LastEnded second line world) ↔
    line.background = false

/-- With the same standard input and output the two shells agree on their common lines. -/
theorem shells_agree (line : Common) (first : LabStart) (second : Start)
    (sameIn : second.own.table.file 0 = first.world.shell.table.file 0)
    (sameOut : second.own.table.file 1 = first.world.shell.table.file 1) :
    Agree first second line := by
  have foregroundOf : ∀ {claim : Prop}, (line.background = true → ¬ claim) → claim →
      line.background = false := fun background held =>
    Bool.eq_false_iff.mpr fun some => background some held
  refine ⟨⟨?_, runs_out second line⟩, fun after world returns reaches settled => ⟨?_, ?_⟩, ⟨?_, ?_⟩,
    ⟨?_, ?_⟩⟩
  · obtain ⟨after, returns, -⟩ := first.exists_returns line
    exact ⟨after, returns⟩
  · exact returns.started
  · rw [← sameIn, ← sameOut]
    exact started_common reaches settled
  · refine foregroundOf fun background always => ?_
    obtain ⟨after, returns, goesOn⟩ := first.exists_returns line
    exact goesOn background (always after returns)
  · exact fun foreground after returns => returns.late foreground
  · refine foregroundOf fun background always => ?_
    obtain ⟨world, reaches, returned, goesOn⟩ := returns_early second background
    exact goesOn (always world reaches returned)
  · exact fun foreground world reaches returned => returns_late foreground reaches returned

/-- `ls | wc`, the first line of both shells. -/
theorem shells_agree_pipe : ∃ (line : Common) (first : LabStart) (second : Start),
    line.tokens = ["ls".toList, "|".toList, "wc".toList] ∧
    first.commands line =
      [⟨["ls".toList], some (.inherited 0), some (.pipeWrite 0)⟩,
        ⟨["wc".toList], some (.pipeRead 0), some (.inherited 1)⟩] ∧
    Agree first second line := by
  let line : Common := ⟨⟨"ls".toList, by decide, by decide, by decide⟩, [],
    .pipe ⟨"wc".toList, by decide, by decide, by decide⟩ [] (by decide), false, by decide⟩
  let first : LabStart := ⟨.initial, rfl, Lab.initial_orderly, Lab.initial_reckoned, by decide, by decide⟩
  let second : Start := ⟨⟨Shell.initial.table, fun _ => .default⟩, ⟨0, 0⟩, 1, 0, [], by decide,
    by decide, nofun⟩
  exact ⟨line, first, second, by decide, by decide, shells_agree line first second rfl rfl⟩

end Lsnp.Lab2
