import Lsnp.Lab.Conservation
import Lsnp.Lab.Course
import Lsnp.Lab.Reference

namespace Lsnp.Lab

open Lsnp.Interaction Lsnp.Unix

/-- A word of the grammar. -/
structure Word where
  text : Text
  plain : operator text = .none
  full : text ≠ []
  ends : text.getLast? ≠ some '&'

/-- `cmd ::= word+ (('>' | '<') word)*` -/
structure Cmd where
  name : Word
  args : List Word
  redirections : List (Direction × Word)
  external : isBuiltin [name.text] = false

/-- `pipeline ::= cmd ('|' cmd)*` -/
structure Pipeline where
  first : Cmd
  rest : List Cmd

/-- `line ::= pipeline ('&&' pipeline)* ['&']` -/
structure Line where
  first : Pipeline
  rest : List Pipeline
  background : Bool

def Direction.token : Direction → Text
  | .input => "<".toList
  | .output => ">".toList

namespace Cmd

variable (cmd : Cmd)

def argv : List Text := cmd.name.text :: cmd.args.map Word.text

def targets : List (Direction × Text) :=
  cmd.redirections.map fun (direction, target) => (direction, target.text)

def tokens : List Text :=
  cmd.argv ++ cmd.targets.flatMap fun (direction, target) => [Direction.token direction, target]

end Cmd

def Pipeline.tokens (pipeline : Pipeline) : List Text :=
  pipeline.first.tokens ++ pipeline.rest.flatMap fun cmd => "|".toList :: cmd.tokens

def Line.tokens (line : Line) : List Text :=
  line.first.tokens ++ (line.rest.flatMap fun pipeline => "&&".toList :: pipeline.tokens) ++
    if line.background then ["&".toList] else []

/-- Open the targets from left to right and fork the command. It reads its last `<` target,
else the pipe on its left, else the shell's input, and writes alike. -/
def Cmd.run (cmd : Cmd) (setting : Setting) (tally : Tally) (left right : Option File) :
    List Deed :=
  let opened := openedFiles tally.files cmd.targets
  opened.map .opens ++ [.forks (setting.name tally.forked) cmd.argv
    ((lastFile .input opened).or (left.or setting.stdin))
    ((lastFile .output opened).or (right.or setting.stdout))]

def Cmd.count (cmd : Cmd) (tally : Tally) : Tally :=
  ⟨tally.files + cmd.targets.length, tally.pipes, tally.forked + 1⟩

/-- Run the commands of a pipeline from left to right, with a pipe between each two. -/
def runCmds (setting : Setting) (cmd : Cmd) : List Cmd → Tally → Option File → List Deed × Tally
  | [], tally, left => (cmd.run setting tally left none, cmd.count tally)
  | next :: rest, tally, left =>
    let counted := cmd.count tally
    let (deeds, final) := runCmds setting next rest { counted with pipes := tally.pipes + 1 }
      (some (.pipeRead tally.pipes))
    (cmd.run setting tally left (some (.pipeWrite tally.pipes)) ++ deeds, final)

/-- The pids of the processes that are forked from one tally to another. -/
def Setting.pids (setting : Setting) (before after : Tally) : List Pid :=
  (List.range' before.forked (after.forked - before.forked)).map setting.name

/-- Run the pipelines from left to right. Once all processes of a pipeline are forked they
are waited for in this order, except at the end of a background line; the next pipeline is
run if the last process has exited with 0. -/
def runPipelines (setting : Setting) (background : Bool) (pipeline : Pipeline) :
    List Pipeline → Tally → List Deed
  | [], tally =>
    let (deeds, final) := runCmds setting pipeline.first pipeline.rest tally none
    deeds ++ if background then [] else (setting.pids tally final).map .waits
  | next :: rest, tally =>
    let (deeds, final) := runCmds setting pipeline.first pipeline.rest tally none
    deeds ++ (setting.pids tally final).map .waits ++
      if setting.fails (setting.name (final.forked - 1)) then []
      else runPipelines setting background next rest final

def Line.run (line : Line) (setting : Setting) (tally : Tally) : List Deed :=
  runPipelines setting line.background line.first line.rest tally

def Cmd.plan (ending : Ending) (cmd : Cmd) : Plan := ⟨cmd.argv, cmd.targets, ending⟩

def plansOf (ending : Ending) : Cmd → List Cmd → List Plan
  | cmd, [] => [cmd.plan ending]
  | cmd, next :: rest => cmd.plan .pipe :: plansOf ending next rest

def Pipeline.plans (pipeline : Pipeline) (ending : Ending) : List Plan :=
  plansOf ending pipeline.first pipeline.rest

def linePlans (background : Bool) : Pipeline → List Pipeline → List Plan
  | pipeline, [] => pipeline.plans (if background then .background else .none)
  | pipeline, next :: rest => pipeline.plans .and ++ linePlans background next rest

def Line.plans (line : Line) : List Plan := linePlans line.background line.first line.rest

/-- The last word does not end in `&`. -/
def Draft.Safe (draft : Draft) : Prop :=
  ∀ word, draft.last = some word → word ≠ [] ∧ word.getLast? ≠ some '&'

/-- Behind a command these tokens give it this ending, and give these further plans. -/
def Closes (tail : List Text) (ending : Ending) (more : List Plan) : Prop :=
  ∀ (draft : Draft) (slot : Nat), draft.Safe →
    (parse draft slot tail).map Stage.plan = ⟨draft.argv, [], ending⟩ :: more

theorem closes_end : Closes [] .none [] := by
  intro draft slot safe
  cases last : draft.last with
  | none => simp [parse, Draft.finish, last, Draft.close, Stage.plan]
  | some word =>
    obtain ⟨full, ends⟩ := safe word last
    rw [List.getLast?_eq_some_getLast full, ne_eq, Option.some.injEq] at ends
    simp [parse, Draft.finish, last, List.getLast?_eq_some_getLast full, ends, Draft.close, Stage.plan]

theorem closes_background : Closes ["&".toList] .background [] := fun _ _ _ => rfl

theorem closes_pipe {tail : List Text} {more : List Plan}
    (rest : ∀ slot, (parse (.fresh slot) slot tail).map Stage.plan = more) :
    Closes ("|".toList :: tail) .pipe more := by
  intro draft slot _
  rw [← rest (slot + 1)]
  rfl

theorem closes_and {tail : List Text} {more : List Plan}
    (rest : ∀ slot, (parse (.fresh slot) slot tail).map Stage.plan = more) :
    Closes ("&&".toList :: tail) .and more := by
  intro draft slot _
  rw [← rest (slot + 1)]
  rfl

theorem plan_addRedirection (redirection : Direction × Text) {stages : List Stage}
    {plan : Plan} {more : List Plan} (same : stages.map Stage.plan = plan :: more) :
    (addRedirection redirection stages).map Stage.plan =
      { plan with redirections := redirection :: plan.redirections } :: more := by
  cases stages with
  | nil => cases same
  | cons stage stages =>
    obtain ⟨rfl, rfl⟩ := List.cons.inj same
    rfl

theorem closes_targets {tail : List Text} {ending : Ending} {more : List Plan}
    (closes : Closes tail ending more) (targets : List (Direction × Text)) (draft : Draft)
    (slot : Nat) (safe : draft.Safe) :
    (parse draft slot ((targets.flatMap fun (direction, target) =>
        [Direction.token direction, target]) ++ tail)).map Stage.plan =
      ⟨draft.argv, targets, ending⟩ :: more := by
  induction targets generalizing draft slot with
  | nil => exact closes draft slot safe
  | cons redirection targets ih =>
    obtain ⟨direction, target⟩ := redirection
    have later := ih draft.redirect (slot + 2) nofun
    have opened : ∀ rest, parse draft slot (Direction.token direction :: target :: rest) =
        addRedirection (direction, target) (parse draft.redirect (slot + 2) rest) := by
      intro rest
      cases direction <;> rfl
    simp only [List.flatMap_cons, List.cons_append, List.nil_append]
    rw [opened, plan_addRedirection _ later]
    rfl

theorem plan_cmd (cmd : Cmd) {tail : List Text} {ending : Ending} {more : List Plan}
    (closes : Closes tail ending more) (slot : Nat) :
    (parse (.fresh slot) slot (cmd.tokens ++ tail)).map Stage.plan = cmd.plan ending :: more := by
  have words : ∀ text ∈ cmd.argv, ∃ word : Word, word.text = text := by
    intro text member
    rcases List.mem_cons.mp member with rfl | later
    · exact ⟨_, rfl⟩
    · obtain ⟨word, -, same⟩ := List.mem_map.mp later
      exact ⟨word, same⟩
  have plain : ∀ text ∈ cmd.argv, operator text = .none := by
    intro text member
    obtain ⟨word, rfl⟩ := words text member
    exact word.plain
  have safe : ((Draft.fresh slot).pushAll cmd.argv).Safe := by
    intro text last
    rw [pushAll_last, Draft.fresh, Option.or_none] at last
    obtain ⟨word, rfl⟩ := words text (List.mem_of_getLast? last)
    exact ⟨word.full, word.ends⟩
  rw [Cmd.tokens, List.append_assoc, parse_words plain, closes_targets closes _ _ _ safe]
  simp [Cmd.plan, pushAll_argv, Draft.fresh]

theorem plans_cmds {tail : List Text} {ending : Ending} {more : List Plan}
    (closes : Closes tail ending more) (cmd : Cmd) (rest : List Cmd) (slot : Nat) :
    (parse (.fresh slot) slot (cmd.tokens ++
        ((rest.flatMap fun cmd => "|".toList :: cmd.tokens) ++ tail))).map Stage.plan =
      plansOf ending cmd rest ++ more := by
  induction rest generalizing cmd slot with
  | nil => exact plan_cmd cmd closes slot
  | cons next rest ih =>
    have step := plan_cmd cmd (closes_pipe (ih next)) slot
    simpa only [List.flatMap_cons, List.cons_append, List.append_assoc, plansOf] using step

theorem plans_pipelines (background : Bool) (pipeline : Pipeline) (rest : List Pipeline)
    (slot : Nat) :
    (parse (.fresh slot) slot (pipeline.tokens ++
        ((rest.flatMap fun pipeline => "&&".toList :: pipeline.tokens) ++
          if background then ["&".toList] else []))).map Stage.plan =
      linePlans background pipeline rest := by
  induction rest generalizing pipeline slot with
  | nil =>
    have closes : Closes (if background then ["&".toList] else [])
        (if background then .background else .none) [] := by
      cases background with
      | false => exact closes_end
      | true => exact closes_background
    have plans := plans_cmds closes pipeline.first pipeline.rest slot
    simpa only [Pipeline.tokens, List.flatMap_nil, List.nil_append, List.append_assoc,
      List.append_nil, linePlans, Pipeline.plans] using plans
  | cons next rest ih =>
    have plans := plans_cmds (closes_and (ih next)) pipeline.first pipeline.rest slot
    simpa only [Pipeline.tokens, List.flatMap_cons, List.cons_append, List.append_assoc, linePlans,
      Pipeline.plans] using plans

theorem stages_line (line : Line) : (stages line.tokens).map Stage.plan = line.plans := by
  rw [Line.tokens, List.append_assoc]
  exact plans_pipelines line.background line.first line.rest 0

variable (setting : Setting)

theorem pids_count (cmd : Cmd) (tally : Tally) :
    setting.pids tally (cmd.count tally) = [setting.name tally.forked] := by
  simp [Setting.pids, Cmd.count]

theorem forked_runCmds (cmd : Cmd) (rest : List Cmd) (tally : Tally) (left : Option File) :
    (runCmds setting cmd rest tally left).2.forked = tally.forked + (rest.length + 1) := by
  induction rest generalizing cmd tally left with
  | nil => rfl
  | cons next rest ih =>
    simp only [runCmds, ih, Cmd.count, List.length_cons]
    omega

theorem pids_runCmds (cmd next : Cmd) (rest : List Cmd) (tally : Tally) (left : Option File) :
    setting.pids tally (runCmds setting cmd (next :: rest) tally left).2 =
      setting.name tally.forked ::
        setting.pids { cmd.count tally with pipes := tally.pipes + 1 }
          (runCmds setting cmd (next :: rest) tally left).2 := by
  have more := forked_runCmds setting cmd (next :: rest) tally left
  simp only [Setting.pids, more, Cmd.count, List.length_cons]
  rw [Nat.add_sub_cancel_left, show tally.forked + (rest.length + 1 + 1) - (tally.forked + 1) =
    rest.length + 1 by omega, List.range'_succ, List.map_cons]

/-- What the evaluator does once all commands of a pipeline are forked. -/
def closing (setting : Setting) (ending : Ending) (more : List Plan) (final : Tally)
    (pids : List Pid) : List Deed :=
  match ending with
  | .none => pids.map .waits
  | .and => pids.map .waits ++
      if setting.fails (setting.name (final.forked - 1)) then []
      else evaluate setting more final none []
  | _ => []

theorem evaluate_cmds {ending : Ending} (last : ending = .none ∨ ending = .and ∨ ending = .background)
    (more : List Plan) (cmd : Cmd) (rest : List Cmd) (tally : Tally) (left : Option File)
    (pids : List Pid) :
    evaluate setting (plansOf ending cmd rest ++ more) tally left pids =
      (runCmds setting cmd rest tally left).1 ++
        closing setting ending more (runCmds setting cmd rest tally left).2
          (pids ++ setting.pids tally (runCmds setting cmd rest tally left).2) := by
  induction rest generalizing cmd tally left pids with
  | nil =>
    simp only [plansOf, runCmds, pids_count]
    rcases last with rfl | rfl | rfl
    · simp [evaluate, Cmd.plan, closing, Cmd.run]
    · simp only [evaluate, Cmd.plan, closing, Cmd.run, Cmd.count, List.nil_append, List.append_assoc,
        List.cons_append, Nat.add_sub_cancel]
    · simp [evaluate, Cmd.plan, closing, Cmd.run]
  | cons next rest ih =>
    have first : evaluate setting (cmd.plan .pipe :: (plansOf ending next rest ++ more)) tally left
        pids = cmd.run setting tally left (some (.pipeWrite tally.pipes)) ++
          evaluate setting (plansOf ending next rest ++ more)
            { cmd.count tally with pipes := tally.pipes + 1 } (some (.pipeRead tally.pipes))
            (pids ++ [setting.name tally.forked]) := by
      simp [evaluate, Cmd.plan, Cmd.run, Cmd.count]
    rw [plansOf, List.cons_append, first, ih, pids_runCmds]
    simp [runCmds]

theorem evaluate_pipelines (background : Bool) (pipeline : Pipeline) (rest : List Pipeline)
    (tally : Tally) :
    evaluate setting (linePlans background pipeline rest) tally none [] =
      runPipelines setting background pipeline rest tally := by
  induction rest generalizing pipeline tally with
  | nil =>
    cases background with
    | false => simpa [linePlans, Pipeline.plans, runPipelines, closing] using
        evaluate_cmds setting (.inl rfl) [] pipeline.first pipeline.rest tally none []
    | true => simpa [linePlans, Pipeline.plans, runPipelines, closing] using
        evaluate_cmds setting (.inr (.inr rfl)) [] pipeline.first pipeline.rest tally none []
  | cons next rest ih =>
    have cmds := evaluate_cmds setting (.inr (.inl rfl))
      (linePlans background next rest) pipeline.first pipeline.rest tally none []
    simpa only [linePlans, Pipeline.plans, runPipelines, closing, ih, List.append_assoc,
      List.nil_append] using cmds

theorem plain_plansOf {ending : Ending} (last : ending = .none ∨ ending = .and ∨ ending = .background)
    (cmd : Cmd) (rest : List Cmd) : ∀ plan ∈ plansOf ending cmd rest, plan.Plain := by
  have plain : ∀ (cmd : Cmd) ending, ending = .pipe ∨ ending = .none ∨ ending = .and ∨
      ending = .background → (cmd.plan ending).Plain := by
    intro cmd ending last
    refine ⟨nofun, cmd.external, ?_, ?_⟩ <;> rcases last with rfl | rfl | rfl | rfl <;> nofun
  induction rest generalizing cmd with
  | nil => simpa [plansOf] using plain cmd ending (.inr last)
  | cons next rest ih =>
    simp only [plansOf, List.mem_cons, forall_eq_or_imp]
    exact ⟨plain cmd .pipe (.inl rfl), ih next⟩

theorem plain_linePlans (background : Bool) (pipeline : Pipeline) (rest : List Pipeline) :
    ∀ plan ∈ linePlans background pipeline rest, plan.Plain := by
  induction rest generalizing pipeline with
  | nil =>
    cases background with
    | false => exact plain_plansOf (.inl rfl) _ _
    | true => exact plain_plansOf (.inr (.inr rfl)) _ _
  | cons next rest ih =>
    intro plan member
    rcases List.mem_append.mp member with here | later
    · exact plain_plansOf (.inr (.inl rfl)) _ _ plan here
    · exact ih next plan later

theorem plain_line (line : Line) : ∀ stage ∈ stages line.tokens, stage.plan.Plain := by
  intro stage member
  apply plain_linePlans line.background line.first line.rest
  have listed := List.mem_map_of_mem (f := Stage.plan) member
  rwa [stages_line] at listed

/-- When every call succeeds and the processes exit with these codes, the interpreter does on
a line of the grammar what the reference evaluator says, in the same order. `Exiting` means as
well that the shell's own `waitpid` gets each status, so nothing is reaped by `child_handler`. -/
theorem runs_as_reference (line : Line) {policy : Policy} {code : Pid → Fin 256} {shell : Shell}
    (granting : Granting policy) (exiting : Exiting policy code)
    (standardIn : shell.table.file 0 ≠ none) (standardOut : shell.table.file 1 ≠ none) :
    ∃ after, (isExecutable line.tokens).eval policy.answer shell = some ((), after) ∧
      deedsSince shell after =
        line.run (.of policy (shell.table.file 0) (shell.table.file 1) code) (.of shell) := by
  have plain := plain_line line
  have full : ∀ stage ∈ stages line.tokens, stage.ending ≠ .blank := fun stage member =>
    (plain stage member).full
  have carries := carries_none standardIn standardOut
  obtain ⟨_, after, run, done⟩ := Service.exists_eval
    (runStages_deeds granting plain (fun _ => exiting) carries rfl)
    (runStages_uses full _ _) policy.total
  refine ⟨after, by rw [isExecutable_eq]; exact run, ?_⟩
  rw [stages_line] at done
  rw [deedsSince, done, List.drop_left, Line.run, ← evaluate_pipelines]
  rfl

/-- `a | b > f && c`, run for the first time: each process exits with 0. -/
theorem runs_as_reference_both : ∃ after,
    (isExecutable ["a".toList, "|".toList, "b".toList, ">".toList, "f".toList, "&&".toList,
      "c".toList]).eval obliging.answer .initial = some ((), after) ∧
    deedsSince .initial after =
      [.forks 1 ["a".toList] (some (.inherited 0)) (some (.pipeWrite 0)),
        .opens (.regular 0 "f".toList .output),
        .forks 2 ["b".toList] (some (.pipeRead 0)) (some (.regular 0 "f".toList .output)),
        .waits 1, .waits 2,
        .forks 3 ["c".toList] (some (.inherited 0)) (some (.inherited 1)), .waits 3] := by
  let a : Cmd := ⟨⟨"a".toList, by decide, by decide, by decide⟩, [], [], by decide⟩
  let b : Cmd := ⟨⟨"b".toList, by decide, by decide, by decide⟩, [],
    [(.output, ⟨"f".toList, by decide, by decide, by decide⟩)], by decide⟩
  let c : Cmd := ⟨⟨"c".toList, by decide, by decide, by decide⟩, [], [], by decide⟩
  obtain ⟨after, run, same⟩ := runs_as_reference ⟨⟨a, [b]⟩, [⟨c, []⟩], false⟩
    (fun _ _ => rfl : Granting obliging) (fun _ _ => rfl : Exiting obliging fun _ => 0)
    (by decide : Shell.initial.table.file 0 ≠ none) (by decide : Shell.initial.table.file 1 ≠ none)
  exact ⟨after, run, same.trans (by decide)⟩

end Lsnp.Lab
