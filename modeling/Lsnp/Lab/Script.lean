import Lsnp.Lab.Grammar
import Lsnp.Lab.Reading
import Lsnp.Lab.Unstuck
import Lsnp.Lab.Waiting

namespace Lsnp.Lab

open Lsnp.Interaction Lsnp.Unix Lsnp.Libc

/-- A line of a script. -/
inductive Entry where
  | blank
  | builtin (cmd : Text) (args : List Text) (named : isBuiltin [cmd] = true)
  | command (line : Line)

def Entry.tokens : Entry → List Text
  | .blank => []
  | .builtin cmd args _ => cmd :: args
  | .command line => line.tokens

/-- An entry as it is typed: its tokens are the words of this text, which fits in the array of
`main` with its newline and does not start with `exit`. -/
structure Typed where
  entry : Entry
  text : Text
  words : tokens delim text = entry.tokens
  plain : '\n' ∉ text ∧ nul ∉ text
  fits : text.length + 1 < MAXLINE
  goesOn : exits text = false

def typedText (script : List Typed) : List Char := script.flatMap fun typed => typed.text ++ ['\n']

/-- How much has been done when the pipelines are through. -/
def countPipelines (setting : Setting) (pipeline : Pipeline) : List Pipeline → Tally → Tally
  | [], tally => (runCmds setting pipeline.first pipeline.rest tally none).2
  | next :: rest, tally =>
    let final := (runCmds setting pipeline.first pipeline.rest tally none).2
    if setting.fails (setting.name (final.forked - 1)) then final
    else countPipelines setting next rest final

def Line.count (line : Line) (setting : Setting) (tally : Tally) : Tally :=
  countPipelines setting line.first line.rest tally

/-- Run the command lines of a script from the first to the last. -/
def runEntries (setting : Setting) : List Entry → Tally → List Deed
  | [], _ => []
  | .blank :: rest, tally | .builtin _ _ _ :: rest, tally => runEntries setting rest tally
  | .command line :: rest, tally =>
    line.run setting tally ++ runEntries setting rest (line.count setting tally)

/-- How much has been done when the evaluator is through. -/
def tallied (setting : Setting) : List Plan → Tally → Tally
  | [], tally => tally
  | plan :: rest, tally =>
    let files := tally.files + plan.redirections.length
    match plan.ending with
    | .none | .background => ⟨files, tally.pipes, tally.forked + 1⟩
    | .pipe => tallied setting rest ⟨files, tally.pipes + 1, tally.forked + 1⟩
    | .and =>
      if setting.fails (setting.name tally.forked) then ⟨files, tally.pipes, tally.forked + 1⟩
      else tallied setting rest ⟨files, tally.pipes, tally.forked + 1⟩
    | .missing _ | .blank => ⟨files, tally.pipes, tally.forked⟩

section

variable {setting : Setting}

/-- The evaluator goes on behind a pipeline if there is an `&&` and it has not failed. -/
theorem tallied_cmds {ending : Ending} (last : ending = .none ∨ ending = .and ∨ ending = .background)
    (more : List Plan) (cmd : Cmd) (rest : List Cmd) (tally : Tally) (left : Option File) :
    tallied setting (plansOf ending cmd rest ++ more) tally =
      let final := (runCmds setting cmd rest tally left).2
      if ending = .and ∧ setting.fails (setting.name (final.forked - 1)) = false
      then tallied setting more final else final := by
  induction rest generalizing cmd tally left with
  | nil =>
    rcases last with rfl | rfl | rfl
    · simp [plansOf, tallied, Cmd.plan, Cmd.targets, runCmds, Cmd.count]
    · cases failed : setting.fails (setting.name tally.forked) <;>
        simp [plansOf, tallied, Cmd.plan, Cmd.targets, runCmds, Cmd.count, failed]
    · simp [plansOf, tallied, Cmd.plan, Cmd.targets, runCmds, Cmd.count]
  | cons next rest ih =>
    have first : tallied setting (plansOf ending cmd (next :: rest) ++ more) tally =
        tallied setting (plansOf ending next rest ++ more)
          { cmd.count tally with pipes := tally.pipes + 1 } := by
      simp [plansOf, tallied, Cmd.plan, Cmd.count]
    rw [first, ih next _ (some (.pipeRead tally.pipes))]
    rfl

theorem tallied_pipelines (background : Bool) (pipeline : Pipeline) (rest : List Pipeline) (tally : Tally) :
    tallied setting (linePlans background pipeline rest) tally =
      countPipelines setting pipeline rest tally := by
  induction rest generalizing pipeline tally with
  | nil =>
    have last : (if background then Ending.background else .none) = .none ∨
        (if background then Ending.background else .none) = .and ∨
        (if background then Ending.background else .none) = .background := by
      cases background <;> simp
    rw [linePlans, Pipeline.plans, ← List.append_nil (plansOf _ _ _),
      tallied_cmds last [] pipeline.first pipeline.rest tally none, countPipelines]
    cases background <;> rfl
  | cons next rest ih =>
    rw [linePlans, Pipeline.plans,
      tallied_cmds (.inr (.inl rfl)) _ pipeline.first pipeline.rest tally none, countPipelines]
    simp only [ih, true_and]
    cases setting.fails _ <;> rfl

end

section

variable {policy : Policy} {code : Pid → Fin 256} {shell after : Shell} {base : Fd → Option File}
  {carried : Carried}

private theorem errorExit_tally (background : Bool) (pids : List Pid) (fds : Fds) :
    (kernel true).Returns (fun _ after => Tally.of after = .of shell) (errorExit background pids fds) shell := by
  have made : (kernel true).Returns
      (fun _ after => after.files = shell.files ∧ after.pipes = shell.pipes)
      (errorExit background pids fds) shell := by
    refine (returns_files ?_).and (returns_pipes_kept ?_)
    · exact errorExit_uses background pids fds (fun _ _ _ => Call.noConfusion) fun _ _ _ => Call.noConfusion
    · exact errorExit_uses background pids fds (fun _ _ _ => Call.noConfusion) fun _ _ _ => Call.noConfusion
  refine (made.and (errorExit_ran background pids fds)).returns fun _ after known => ?_
  obtain ⟨⟨files, pipes⟩, ran⟩ := known
  have forked := congrArg List.length ran.forked
  simp only [Shell.forkedPids, List.append_nil, List.length_map] at forked
  simp only [Tally.of, files, pipes, forked]

theorem runStages_tally (granting : Granting policy) (exiting : Exiting policy code)
    {stages : List Stage} {pids : List Pid} (plain : ∀ stage ∈ stages, stage.plan.Plain)
    (carries : Carries base carried shell.table) (vacant : carried.output = none) :
    (Service.computed policy.answer).Returns
      (fun _ after => Tally.of after =
        tallied (.of policy (base 0) (base 1) code) (stages.map Stage.plan) (.of shell))
      (runStages stages carried.fds pids) shell := by
  induction stages generalizing base carried shell pids with
  | nil => exact (errorExit_tally false pids carried.fds).permitted policy.permits
  | cons stage rest ih =>
    have here := plain stage (List.mem_cons_self ..)
    have plain' : ∀ other ∈ rest, other.plan.Plain := fun other member =>
      plain other (List.mem_cons_of_mem _ member)
    refine (openAll_deeds granting carries).bind ?_
    rintro ⟨_, fds⟩ middle ⟨rfl, final, rfl, held, -, -, tally⟩
    have forked : (forks middle.log).length = (forks shell.log).length := congrArg Tally.forked tally
    have files : middle.files = shell.files + stage.redirections.length := congrArg Tally.files tally
    have pipes : middle.pipes.length = shell.pipes.length := congrArg Tally.pipes tally
    simp only [if_true, runEnding]
    cases ending : stage.ending with
    | missing direction => exact (here.targeted direction ending).elim
    | blank => exact (here.full ending).elim
    | none =>
      refine (execute_deeds here.argv here.external held).bind fun pid ran known => ?_
      obtain ⟨-, -, -, counted⟩ := known
      refine ((errorExit_tally false _ _).permitted policy.permits).returns fun _ after last => ?_
      rw [last, counted, files, pipes, forked]
      simp [tallied, Stage.plan, ending, Tally.of]
    | background =>
      refine (execute_deeds here.argv here.external held).bind fun bgPid ran known => ?_
      obtain ⟨named, -, -, counted⟩ := known
      have told : (kernel true).Returns (fun _ after => Tally.of after = .of ran) (announce bgPid) ran := by
        subst named
        exact ⟨trivial, fun _ after served => by obtain rfl := served; rfl⟩
      refine (told.permitted policy.permits).bind fun _ printed same => ?_
      refine ((errorExit_tally true _ _).permitted policy.permits).returns fun _ after last => ?_
      rw [last, same, counted, files, pipes, forked]
      simp [tallied, Stage.plan, ending, Tally.of]
    | and =>
      refine (execute_deeds here.argv here.external held).bind fun andPid ran known => ?_
      obtain ⟨named, clear, -, counted⟩ := known
      subst named
      refine (waitAnd_deeds exiting pids _).bind fun lastStatus waited known => ?_
      obtain ⟨table, -, same, failed⟩ := known
      rw [counted, files, pipes, forked] at same
      rw [forked] at failed
      split
      · next fails =>
        refine ((errorExit_tally false _ _).permitted policy.permits).returns fun _ after last => ?_
        rw [failed] at fails
        rw [last, same]
        simp [tallied, Stage.plan, ending, Tally.of, Setting.of, fails]
      · next passes =>
        refine (ih plain' (clear.congr (congrArg FdTable.file table)) rfl).returns fun _ after last => ?_
        rw [failed] at passes
        rw [last, same]
        simp [tallied, Stage.plan, ending, Tally.of, Setting.of, passes]
    | pipe =>
      refine (openPipe_deeds granting stage.start (stage.stop + 1) held).bind ?_
      rintro _ piped ⟨readEnd, writeEnd, rfl, unused, both, log, made⟩
      have apart := held.apart_of_unused unused
      refine (execute_deeds here.argv here.external both).bind fun pid ran known => ?_
      obtain ⟨named, clear, -, counted⟩ := known
      subst named
      have found : Function.update base readEnd (some (.pipeRead middle.pipes.length)) readEnd =
          some (.pipeRead middle.pipes.length) := Function.update_self ..
      have next := clear.carry found apart
      rw [Function.update_idem, ← unused, Function.update_eq_self] at next
      refine (ih plain' next rfl).returns fun _ after last => ?_
      have madeFiles : piped.files = middle.files := congrArg Tally.files made
      have madePipes : piped.pipes.length = middle.pipes.length + 1 := congrArg Tally.pipes made
      rw [last, counted, madeFiles, madePipes, files, pipes, log, forked]
      simp [tallied, Stage.plan, ending, Tally.of]

/-- The standard input and output are there, and are those of the other shell. -/
structure SameEnds (shell after : Shell) : Prop where
  standardIn : after.table.file 0 = shell.table.file 0
  standardOut : after.table.file 1 = shell.table.file 1

/-- From one state to the other this was done, and counted. -/
structure Did (shell after : Shell) (done : List Deed) (tally : Tally) : Prop where
  deeds : deeds after.log = Lab.deeds shell.log ++ done
  tally : Tally.of after = tally
  ends : SameEnds shell after

theorem Did.refl (shell : Shell) : Did shell shell [] (.of shell) :=
  ⟨(List.append_nil _).symm, rfl, rfl, rfl⟩

theorem Did.trans {middle : Shell} {first second : List Deed} {tally last : Tally}
    (front : Did shell middle first tally) (back : Did middle after second last) :
    Did shell after (first ++ second) last where
  deeds := by rw [back.deeds, front.deeds, List.append_assoc]
  tally := back.tally
  ends := ⟨back.ends.standardIn.trans front.ends.standardIn,
    back.ends.standardOut.trans front.ends.standardOut⟩

private theorem serve_nothing {asked : Call} {reply : asked.Reply}
    (served : (kernel true).serve shell asked reply after) (mere : ofBuiltin asked ∨ asked = .fgets) :
    Did shell after [] (.of shell) := by
  have kept : ∀ {after : Shell}, after.log = shell.log → after.files = shell.files →
      after.pipes = shell.pipes → after.table = shell.table → Did shell after [] (.of shell) := by
    intro after log files pipes table
    refine ⟨by rw [log, List.append_nil], by simp [Tally.of, log, files, pipes], ?_, ?_⟩ <;> rw [table]
  have logged : ∀ event : Event, deed event = none → forks [event] = [] →
      Did shell (shell.note event) [] (.of shell) := by
    intro event none unforked
    refine ⟨?_, ?_, rfl, rfl⟩
    · simp [Shell.note, deeds, none]
    · simp [Shell.note, Tally.of, unforked]
  rcases mere with builtin | rfl
  · cases asked with
    | printf | getenv =>
      obtain rfl := served
      exact kept rfl rfl rfl rfl
    | perror label =>
      obtain rfl := served
      exact logged (.complained label) rfl rfl
    | uname | chdir | getcwd =>
      obtain rfl := served
      exact logged (.acted _) rfl rfl
    | _ => exact builtin.elim
  · obtain rfl := served
    exact kept rfl rfl rfl rfl

private theorem returns_nothing {α : Type} {program : Prog α}
    (uses : program.uses fun asked => ofBuiltin asked ∨ asked = .fgets) :
    (kernel true).Returns (fun _ after => Did shell after [] (.of shell)) program shell := by
  have kept : ∀ state asked (reply : asked.Reply) after, ofBuiltin asked ∨ asked = .fgets →
      Did shell state [] (.of shell) → (kernel true).serve state asked reply after →
        Did shell after [] (.of shell) := by
    intro state asked reply after mere did served
    have whole := did.trans (serve_nothing served mere)
    exact ⟨whole.deeds, whole.tally.trans did.tally, whole.ends⟩
  exact (Service.ensures_of_uses uses kept (Did.refl shell)).returns fun _ _ did => did

/-- An entry does what the evaluator says, and leaves the shell its input and output. -/
theorem dispatch_did (granting : Granting policy) (exiting : Exiting policy code)
    (standardIn : shell.table.file 0 ≠ none) (standardOut : shell.table.file 1 ≠ none) (entry : Entry) :
    let setting : Setting := .of policy (shell.table.file 0) (shell.table.file 1) code
    (Service.computed policy.answer).Returns
      (fun _ after => ∃ done tally, Did shell after done tally ∧
        ∀ rest, runEntries setting (entry :: rest) (.of shell) = done ++ runEntries setting rest tally)
      (dispatch entry.tokens) shell := by
  cases entry with
  | blank => exact ⟨[], _, Did.refl shell, fun _ => rfl⟩
  | builtin cmd args named =>
    obtain ⟨btFunc, found⟩ := Option.isSome_iff_exists.mp (show (findBuiltin cmd).isSome = true from named)
    have checked : dispatch (cmd :: args) = btFunc.run (cmd :: args) := by
      simp [dispatch, checkBuiltin, found]
    have uses : (btFunc.run (cmd :: args)).uses fun asked => ofBuiltin asked ∨ asked = .fgets :=
      Program.uses_mono (btFunc.run_uses (cmd :: args)) fun _ => .inl
    rw [Entry.tokens, checked]
    exact ((returns_nothing uses).permitted policy.permits).returns fun _ after did =>
      ⟨[], _, did, fun _ => rfl⟩
  | command line =>
    have external : dispatch line.tokens = isExecutable line.tokens := by
      obtain ⟨args, same⟩ : ∃ args, line.tokens = line.first.first.name.text :: args := ⟨_, rfl⟩
      have other : isBuiltin (line.first.first.name.text :: args) = false := line.first.first.external
      rw [same, dispatch, checkBuiltin_external other]
      rfl
    have carries := carries_none standardIn standardOut
    have plain := plain_line line
    rw [Entry.tokens, external, isExecutable_eq]
    refine (((runStages_deeds granting plain (fun _ => exiting) carries rfl).and
      (runStages_tally granting exiting plain carries rfl)).and
      ((runStages_leaves carries rfl).permitted policy.permits)).returns ?_
    rintro ⟨⟩ after ⟨⟨done, counted⟩, wider, extended, -, held⟩
    rw [stages_line] at done counted
    refine ⟨_, _, ⟨done, counted, ?_, ?_⟩, fun rest => ?_⟩
    · rw [held.files]
      exact extended 0 standardIn
    · rw [held.files]
      exact extended 1 standardOut
    · rw [runEntries, Line.run, ← evaluate_pipelines, Line.count, ← tallied_pipelines line.background]
      rfl

theorem session_did (granting : Granting policy) (exiting : Exiting policy code)
    (standardIn : shell.table.file 0 ≠ none) (standardOut : shell.table.file 1 ≠ none)
    (entries : List Entry) :
    (Service.computed policy.answer).Returns
      (fun _ after => deeds after.log = deeds shell.log ++
        runEntries (.of policy (shell.table.file 0) (shell.table.file 1) code) entries (.of shell))
      (session (entries.map Entry.tokens)) shell := by
  induction entries generalizing shell with
  | nil => exact (List.append_nil _).symm
  | cons entry rest ih =>
    have nothing : ∀ {asked : Call} (shell : Shell), ofBuiltin asked ∨ asked = .fgets →
        (Service.computed policy.answer).Returns (fun _ after => Did shell after [] (.of shell))
          (Program.request asked : Prog asked.Reply) shell := fun shell mere =>
      (returns_nothing (Program.uses_request.mpr mere)).permitted policy.permits
    simp only [List.map_cons, session, runLine, bind_assoc]
    refine (nothing shell (.inr rfl)).bind fun _ read first => ?_
    have inHere := first.ends.standardIn
    have outHere := first.ends.standardOut
    refine (dispatch_did granting exiting (inHere.trans_ne standardIn) (outHere.trans_ne standardOut)
      entry).bind fun _ dispatched known => ?_
    obtain ⟨done, tally, second, evaluated⟩ := known
    have printed : ofBuiltin (.printf prompt) := trivial
    refine (nothing dispatched (.inl printed)).bind fun _ prompted third => ?_
    have whole := (first.trans second).trans third
    rw [List.nil_append, List.append_nil] at whole
    refine (ih (whole.ends.standardIn.trans_ne standardIn)
      (whole.ends.standardOut.trans_ne standardOut)).returns fun _ after last => ?_
    rw [inHere, outHere, first.tally] at evaluated
    rw [last, whole.deeds, whole.ends.standardIn, whole.ends.standardOut, whole.tally, second.tally,
      evaluated, List.append_assoc]

private theorem maxline_one_lt : 1 < MAXLINE := by decide

theorem Typed.parsed (typed : Typed) : commandParse (typed.text ++ ['\n']) = typed.entry.tokens := by
  have free : nul ∉ typed.text ++ ['\n'] := by
    intro member
    rcases List.mem_append.mp member with inside | last
    · exact typed.plain.2 inside
    · exact absurd (List.mem_singleton.mp last) (by decide)
  have blank : ∀ char ∈ ['\n'], char ∈ delim := List.forall_mem_singleton.mpr (by simp [delim])
  rw [commandParse_eq, cString_of_notMem free, tokens_append_blank blank, typed.words]

theorem Typed.notExit (typed : Typed) : exits (typed.text ++ ['\n']) = false := by
  refine Bool.eq_false_iff.mpr fun starts => ?_
  rcases List.prefix_concat_iff.mp (List.isPrefixOf_iff_prefix.mp starts) with same | inside
  · have newline : '\n' ∈ "exit".toList := by
      rw [same]
      simp
    exact absurd newline (by decide)
  · exact Bool.false_ne_true (typed.goesOn.symm.trans (List.isPrefixOf_iff_prefix.mpr inside))

theorem pieces_typed (script : List Typed) (tail : List Char) :
    pieces MAXLINE (typedText script ++ tail) =
      script.map (fun typed => typed.text ++ ['\n']) ++ pieces MAXLINE tail := by
  induction script with
  | nil => rfl
  | cons typed script ih =>
    let rest := typedText script ++ tail
    have split : typedText (typed :: script) ++ tail = typed.text ++ '\n' :: rest := by
      simp [typedText, rest]
    have first := line_append_newline typed.plain.1 rest
    have some' : typed.text ++ '\n' :: rest ≠ [] := by simp
    have short : (line (typed.text ++ '\n' :: rest)).length < MAXLINE := by
      rw [first, List.length_append]
      exact typed.fits
    have left : (typed.text ++ '\n' :: rest).drop (typed.text ++ ['\n']).length = rest := by
      simp
    have read := fgets_line some' short
    rw [first, left] at read
    rw [split, pieces_eq_cons read, ih, List.map_cons, List.cons_append]

private theorem exits_piece {tail : List Char} (ends : exits tail = true) :
    ∃ read more, pieces MAXLINE tail = read :: more ∧ exits read = true := by
  obtain ⟨rest, rfl⟩ := List.isPrefixOf_iff_prefix.mp ends
  have spelled : "exit".toList = ['e', 'x', 'i', 't'] := by decide
  have cut : piece (MAXLINE - 1) ("exit".toList ++ rest) =
      "exit".toList ++ piece (MAXLINE - 5) rest := by
    rw [spelled]
    simp [piece, MAXLINE]
  rcases pieces_cases maxline_one_lt ("exit".toList ++ rest) with ⟨empty, -⟩ | ⟨read, left, found, -, -, -, same⟩
  · rw [spelled] at empty
    cases empty
  · refine ⟨read, _, same, ?_⟩
    rw [(fgets_eq_some found).1, cut]
    exact List.isPrefixOf_iff_prefix.mpr (List.prefix_append _ _)

/-- The loop of `main` runs the lines of the script, and stops behind them. -/
theorem mainLoop_typed (script : List Typed) {tail : List Char} (ended : tail = [] ∨ exits tail = true) :
    mainLoop (pieces MAXLINE (typedText script ++ tail)) =
      session ((script.map Typed.entry).map Entry.tokens) >>= fun _ => Sys.fgets := by
  have stops : (pieces MAXLINE tail).takeWhile (fun line => !exits line) = [] := by
    rcases ended with rfl | ends
    · rw [pieces_eq_nil ((fgets_eq_none maxline_one_lt).mpr rfl)]
      rfl
    · obtain ⟨read, more, same, starts⟩ := exits_piece ends
      rw [same, List.takeWhile_cons_of_neg (by simp [starts])]
  have runs : ∀ line ∈ script.map (fun typed => typed.text ++ ['\n']), (!exits line) = true := by
    intro line member
    obtain ⟨typed, -, rfl⟩ := List.mem_map.mp member
    rw [typed.notExit]
    rfl
  rw [mainLoop_eq, pieces_typed, List.takeWhile_append_of_pos runs, stops, List.append_nil,
    List.map_map, List.map_map]
  have same : commandParse ∘ (fun typed : Typed => typed.text ++ ['\n']) = Entry.tokens ∘ Typed.entry :=
    funext Typed.parsed
  rw [same]

/-- When every call succeeds and the processes exit with these codes, the shell does on the text of a
script, up to its end or an `exit`, what the reference evaluator says of its lines, in this order. -/
theorem script_runs (script : List Typed) {tail : List Char} (ended : tail = [] ∨ exits tail = true)
    (granting : Granting policy) (exiting : Exiting policy code)
    (standardIn : shell.table.file 0 ≠ none) (standardOut : shell.table.file 1 ≠ none) :
    ∃ after, (mainLoop (pieces MAXLINE (typedText script ++ tail))).eval policy.answer shell =
        some ((), after) ∧
      deedsSince shell after = runEntries (.of policy (shell.table.file 0) (shell.table.file 1) code)
        (script.map Typed.entry) (.of shell) := by
  have full : ∀ tokens ∈ (script.map Typed.entry).map Entry.tokens, ∀ token ∈ tokens, token ≠ [] := by
    intro tokens member
    obtain ⟨entry, among, rfl⟩ := List.mem_map.mp member
    obtain ⟨typed, -, rfl⟩ := List.mem_map.mp among
    rw [← typed.parsed]
    exact full_commandParse _
  have done : (Service.computed policy.answer).Returns
      (fun _ after => deeds after.log = deeds shell.log ++
        runEntries (.of policy (shell.table.file 0) (shell.table.file 1) code)
          (script.map Typed.entry) (.of shell))
      (session ((script.map Typed.entry).map Entry.tokens) >>= fun _ => Sys.fgets) shell := by
    refine (session_did granting exiting standardIn standardOut _).bind fun _ between done => ?_
    have read : (kernel true).Returns (fun _ after => Did between after [] (.of between)) Sys.fgets between :=
      returns_nothing (Program.uses_request.mpr (.inr rfl))
    refine (read.permitted policy.permits).returns fun _ after did => ?_
    rw [did.deeds, List.append_nil, done]
  have uses : (session ((script.map Typed.entry).map Entry.tokens) >>= fun _ => Sys.fgets).uses
      (· ≠ .fault) :=
    Program.uses_bind (session_unfaulting full) fun _ => Program.uses_request.mpr Call.noConfusion
  obtain ⟨⟨⟩, after, run, same⟩ := Service.exists_eval done uses policy.total
  refine ⟨after, ?_, ?_⟩
  · rw [mainLoop_typed script ended]
    exact run
  · rw [deedsSince, same, List.drop_left]

/-- A blank line, `cd`, `a | b` and ` c &` behind each other, then `exit`. -/
theorem script_runs_lines : ∃ after,
    (mainLoop (pieces MAXLINE "\ncd\na | b\n c &\nexit\n".toList)).eval obliging.answer .initial =
      some ((), after) ∧
    deedsSince .initial after =
      [.forks 1 ["a".toList] (some (.inherited 0)) (some (.pipeWrite 0)),
        .forks 2 ["b".toList] (some (.pipeRead 0)) (some (.inherited 1)), .waits 1, .waits 2,
        .forks 3 ["c".toList] (some (.inherited 0)) (some (.inherited 1))] := by
  let a : Cmd := ⟨⟨"a".toList, by decide, by decide, by decide⟩, [], [], by decide⟩
  let b : Cmd := ⟨⟨"b".toList, by decide, by decide, by decide⟩, [], [], by decide⟩
  let c : Cmd := ⟨⟨"c".toList, by decide, by decide, by decide⟩, [], [], by decide⟩
  let script : List Typed := [
    ⟨.blank, [], by decide, by decide, by decide, by decide⟩,
    ⟨.builtin "cd".toList [] (by decide), "cd".toList, by decide, by decide, by decide, by decide⟩,
    ⟨.command ⟨⟨a, [b]⟩, [], false⟩, "a | b".toList, by decide, by decide, by decide, by decide⟩,
    ⟨.command ⟨⟨c, []⟩, [], true⟩, " c &".toList, by decide, by decide, by decide, by decide⟩]
  obtain ⟨after, run, same⟩ := script_runs script (.inr (by decide : exits "exit\n".toList = true))
    (fun _ _ => rfl : Granting obliging) (fun _ _ => rfl : Exiting obliging fun _ => 0)
    (by decide : Shell.initial.table.file 0 ≠ none) (by decide : Shell.initial.table.file 1 ≠ none)
  exact ⟨after, run, same.trans (by decide)⟩

end

end Lsnp.Lab
