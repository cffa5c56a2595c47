import Lsnp.Lab.Granted

namespace Lsnp.Lab

open Lsnp.Interaction Lsnp.Unix

inductive Deed where
  | opens (file : File)
  | forks (pid : Pid) (argv : List Text) (stdin stdout : Option File)
  | waits (pid : Pid)
  deriving DecidableEq, Repr

def deed : Event → Option Deed
  | .opened file => some (.opens file)
  | .forked child => some (.forks child.pid child.argv (child.table.file 0) (child.table.file 1))
  | .waited pid _ => some (.waits pid)
  | _ => none

def deeds (log : List Event) : List Deed := log.filterMap deed

@[simp] theorem deeds_append (log events : List Event) :
    deeds (log ++ events) = deeds log ++ deeds events := by simp [deeds]

@[simp] theorem deeds_waited (pid : Pid) (status : Option Nat) :
    deeds [.waited pid status] = [.waits pid] := rfl

@[simp] theorem deeds_forked (file : Option File) (text : Text) (child : Fork) :
    deeds [.wrote file text, .forked child] =
      [.forks child.pid child.argv (child.table.file 0) (child.table.file 1)] := rfl

theorem deeds_waitEvents (code : Pid → Fin 256) (pids : List Pid) :
    deeds (waitEvents code pids) = pids.map .waits := by
  simp [waitEvents, deeds, deed, List.filterMap_map, Function.comp_def]

theorem forks_waitEvents (code : Pid → Fin 256) (pids : List Pid) :
    forks (waitEvents code pids) = [] := by
  simp [waitEvents, forks, List.filterMap_map]

/-- What was done from one state to a later one, in order. -/
def deedsSince (entry now : Shell) : List Deed := (deeds now.log).drop (deeds entry.log).length

/-- What a stage asks for, without its slots. -/
structure Plan where
  argv : List Text
  redirections : List (Direction × Text)
  ending : Ending
  deriving DecidableEq, Repr

def Stage.plan (stage : Stage) : Plan := ⟨stage.argv, stage.redirections, stage.ending⟩

/-- A command that is forked, and not behind an operator without a target. -/
structure Plan.Plain (plan : Plan) : Prop where
  argv : plan.argv ≠ []
  external : isBuiltin plan.argv = false
  targeted : ∀ direction, plan.ending ≠ .missing direction
  full : plan.ending ≠ .blank

/-- How many files were opened, pipes made and processes forked. -/
structure Tally where
  files : Nat
  pipes : Nat
  forked : Nat

/-- What the reference evaluator takes from outside: the shell's standard input and output,
the pid of each process, and which processes fail. -/
structure Setting where
  stdin : Option File
  stdout : Option File
  name : Nat → Pid
  fails : Pid → Bool

/-- The reference evaluator. It runs the commands from left to right; a command gets its last
`<` target, else the pipe on its left, else the shell's input, and the same for its output.
`pids` are the processes of the pipeline so far. -/
def evaluate (setting : Setting) : List Plan → Tally → Option File → List Pid → List Deed
  | [], _, _, pids => pids.map .waits
  | plan :: rest, tally, left, pids =>
    let opened := openedFiles tally.files plan.redirections
    let pid := setting.name tally.forked
    let forked (right : Option File) : Deed := .forks pid plan.argv
      ((lastFile .input opened).or (left.or setting.stdin))
      ((lastFile .output opened).or (right.or setting.stdout))
    let files := tally.files + plan.redirections.length
    opened.map .opens ++
      match plan.ending with
      | .none => forked none :: (pids ++ [pid]).map .waits
      | .pipe => forked (some (.pipeWrite tally.pipes)) ::
          evaluate setting rest ⟨files, tally.pipes + 1, tally.forked + 1⟩
            (some (.pipeRead tally.pipes)) (pids ++ [pid])
      | .and => forked none :: (pids ++ [pid]).map .waits ++
          if setting.fails pid then []
          else evaluate setting rest ⟨files, tally.pipes, tally.forked + 1⟩ none []
      | .background => [forked none]
      | .missing _ => pids.map .waits
      | .blank => []

def Tally.of (shell : Shell) : Tally :=
  ⟨shell.files, shell.pipes.length, (forks shell.log).length⟩

/-- The setting in which a policy runs the shell, with these exit codes. -/
def Setting.of (policy : Policy) (stdin stdout : Option File) (code : Pid → Fin 256) : Setting :=
  ⟨stdin, stdout, policy.name, fun pid => (code pid).val != 0⟩

variable {theft : Bool} {policy : Policy} {shell : Shell} {base : Fd → Option File}
  {carried : Carried} {code : Pid → Fin 256}

theorem waitEach_deeds (pids : List Pid) :
    (kernel theft).Returns (fun _ after => deeds after.log = deeds shell.log ++ pids.map .waits)
      (waitEach pids) shell := by
  induction pids generalizing shell with
  | nil => exact (List.append_nil _).symm
  | cons pid pids ih =>
    refine ⟨trivial, fun reply waited served => (@ih waited).returns fun _ after done => ?_⟩
    obtain ⟨rfl, -⟩ := served
    rw [done]
    simp [Shell.note]

theorem errorExit_deeds (background : Bool) (pids : List Pid) (fds : Fds) :
    (kernel theft).Returns
      (fun _ after => deeds after.log =
        deeds shell.log ++ if background then [] else pids.map .waits)
      (errorExit background pids fds) shell := by
  have waiting : (kernel theft).Returns
      (fun _ after => deeds after.log = deeds shell.log ++ if background then [] else pids.map .waits)
      (waitForeground background pids) shell := by
    cases background with
    | true => exact (List.append_nil _).symm
    | false => exact waitEach_deeds pids
  have closing : ∀ (fd : Option Fd) (shell : Shell),
      (kernel theft).Returns (fun _ after => after.log = shell.log) (closeIfOpen fd) shell := by
    intro fd shell
    refine returns_log ?_
    cases fd <;> simp [closeIfOpen, Call.logs]
  refine waiting.bind fun _ waited done => ?_
  refine (closing _ _).bind fun _ first same => (closing _ _).returns fun _ after same' => ?_
  rw [same', same, done]

theorem openAll_deeds (granting : Granting policy) {redirections : List (Direction × Text)}
    (carries : Carries base carried shell.table) :
    (Service.computed policy.answer).Returns
      (fun result after => result.1 = true ∧ ∃ final : Carried, result.2 = final.fds ∧
        Carries base final after.table ∧ Redirected shell.files redirections carried true final ∧
        deeds after.log =
          deeds shell.log ++ (openedFiles shell.files redirections).map .opens ∧
        Tally.of after = ⟨shell.files + redirections.length, shell.pipes.length,
          (forks shell.log).length⟩)
      (openAll redirections carried.fds) shell := by
  have piped : (kernel true).Returns (fun _ after => after.pipes = shell.pipes)
      (openAll redirections carried.fds) shell := by
    refine returns_pipes_kept (Program.uses_mono (openAll_uses _ _) ?_)
    rintro _ opens left right rfl
    exact opens
  refine (((openAll_granted granting redirections carried.fds).and
    ((openAll_carries carries).permitted policy.permits)).and
    (piped.permitted policy.permits)).returns ?_
  rintro ⟨_, fds⟩ after ⟨⟨⟨rfl, log, files⟩, final, rfl, held, redirected⟩, pipes⟩
  refine ⟨rfl, final, rfl, held, redirected, ?_, ?_⟩
  · simp [log, deeds, deed, List.filterMap_map, Function.comp_def]
  · simp [Tally.of, files, pipes, log, forks, List.filterMap_map]

theorem execute_deeds {arglist : Nat} {argv : List Text} (nonempty : argv ≠ [])
    (external : isBuiltin argv = false) (carries : Carries base carried shell.table) :
    (Service.computed policy.answer).Returns
      (fun pid after => pid = some (policy.name (forks shell.log).length) ∧
        Carries base .none after.table ∧
        deeds after.log = deeds shell.log ++ [.forks (policy.name (forks shell.log).length) argv
          (carried.standard base .input) (carried.standard base .output)] ∧
        Tally.of after = ⟨shell.files, shell.pipes.length, (forks shell.log).length + 1⟩)
      (execute arglist argv carried.fds.fdIn carried.fds.fdOut) shell := by
  obtain ⟨cmd, args, rfl⟩ := List.exists_cons_of_ne_nil nonempty
  let program := execute arglist (cmd :: args) carried.fds.fdIn carried.fds.fdOut
  have made : (kernel true).Returns
      (fun _ after => after.files = shell.files ∧ after.pipes = shell.pipes) program shell := by
    refine (returns_files ?_).and (returns_pipes_kept ?_)
    · refine Program.uses_mono (execute_uses _ _ _ _) ?_
      rintro _ executes direction path rfl
      exact executes
    · refine Program.uses_mono (execute_uses _ _ _ _) ?_
      rintro _ executes left right rfl
      exact executes
  refine (((execute_granted external carries).and
    ((execute_carries carries).permitted policy.permits)).and
    (made.permitted policy.permits)).returns ?_
  rintro pid after ⟨⟨⟨child, forked, named, rfl, log⟩, held⟩, files, pipes⟩
  refine ⟨by rw [named], held, ?_, ?_⟩
  · simp [log, named, forked.argv, forked.input, forked.output]
  · simp [Tally.of, files, pipes, log, forks]

theorem openPipe_deeds (granting : Granting policy) (left right : Nat)
    (carries : Carries base carried shell.table) :
    (Service.computed policy.answer).Returns
      (fun reply after => ∃ readEnd writeEnd,
        reply = some (readEnd, (carried.left shell.pipes.length writeEnd).1) ∧
        base readEnd = none ∧
        Carries (Function.update base readEnd (some (.pipeRead shell.pipes.length)))
          (carried.set .output (some (carried.left shell.pipes.length writeEnd))) after.table ∧
        after.log = shell.log ∧
        Tally.of after = ⟨shell.files, shell.pipes.length + 1, (forks shell.log).length⟩)
      (openPipe left right carried.fds.fdOut) shell := by
  refine ((openPipe_granted (granting shell _) _).and
    ((openPipe_carries left right carries).permitted policy.permits)).returns ?_
  rintro reply after ⟨⟨granted, log, files, -, pipes⟩, made⟩
  rcases made with ⟨rfl, -⟩ | ⟨readEnd, writeEnd, same, unused, held⟩
  · exact (granted rfl).elim
  · exact ⟨readEnd, writeEnd, same, unused, held, log, by simp [Tally.of, log, files, pipes]⟩

theorem standard_left (carried : Carried) (pipe : Nat) (writeEnd : Fd) {readEnd : Fd}
    (file : Option File) (apart : readEnd ≠ 0 ∧ readEnd ≠ 1) :
    let held := carried.set .output (some (carried.left pipe writeEnd))
    let wider := Function.update base readEnd file
    held.standard wider .input = carried.standard base .input ∧
      held.standard wider .output =
        (carried.output.map Prod.snd).or (some (.pipeWrite pipe)) := by
  obtain ⟨input, output⟩ := carried
  refine ⟨?_, ?_⟩
  · simp [Carried.standard, Carried.set, Function.update_of_ne apart.1.symm]
  · cases output <;> simp [Carried.standard, Carried.set, Carried.left]

theorem waitAnd_deeds (exiting : Exiting policy code) (pids : List Pid) (pid : Pid) :
    (Service.computed policy.answer).Returns
      (fun last after => after.table = shell.table ∧
        deeds after.log = deeds shell.log ++ (pids ++ [pid]).map .waits ∧
        Tally.of after = Tally.of shell ∧ andFailed last = ((code pid).val != 0))
      (waitAnd (pids ++ (some pid).toList) (some pid)) shell := by
  refine (waitAnd_granted exiting pids (some pid)).returns fun last after ⟨same, status⟩ => ?_
  subst same status
  refine ⟨rfl, ?_, ?_, andFailed_exited _⟩
  · simp [deeds_waitEvents]
  · simp [Tally.of, forks_waitEvents]

/-- The loop does what the reference evaluator says; an `&&` is decided on exit codes. -/
theorem runStages_deeds (granting : Granting policy) {stages : List Stage} {pids : List Pid}
    (plain : ∀ stage ∈ stages, stage.plan.Plain)
    (exiting : (∃ stage ∈ stages, stage.ending = .and) → Exiting policy code)
    (carries : Carries base carried shell.table) (vacant : carried.output = none) :
    (Service.computed policy.answer).Returns
      (fun _ after => deeds after.log = deeds shell.log ++
        evaluate (.of policy (base 0) (base 1) code) (stages.map Stage.plan) (.of shell)
          (carried.input.map Prod.snd) pids)
      (runStages stages carried.fds pids) shell := by
  induction stages generalizing base carried shell pids with
  | nil => exact (errorExit_deeds false pids carried.fds).permitted policy.permits
  | cons stage rest ih =>
    have here := plain stage (by simp)
    have plain' : ∀ other ∈ rest, other.plan.Plain := fun other member => plain other (by simp [member])
    have exiting' : (∃ other ∈ rest, other.ending = .and) → Exiting policy code := by
      rintro ⟨other, member, and⟩
      exact exiting ⟨other, by simp [member], and⟩
    refine (openAll_deeds granting carries).bind ?_
    rintro ⟨_, fds⟩ middle ⟨rfl, final, rfl, held, redirected, opened, tally⟩
    have input : final.standard base .input =
        (lastFile .input (openedFiles shell.files stage.redirections)).or
          ((carried.input.map Prod.snd).or (base 0)) := by
      rw [Carried.standard, ← Option.or_assoc]
      exact congrArg (Option.or · (base 0)) (redirected.file .input)
    have output : final.output.map Prod.snd =
        lastFile .output (openedFiles shell.files stage.redirections) := by
      simpa [Carried.get, vacant] using redirected.file .output
    have standard : final.standard base .output =
        (lastFile .output (openedFiles shell.files stage.redirections)).or (base 1) := by
      rw [Carried.standard, output]
    have forked : (forks middle.log).length = (forks shell.log).length := congrArg Tally.forked tally
    have files : middle.files = shell.files + stage.redirections.length := congrArg Tally.files tally
    have pipes : middle.pipes.length = shell.pipes.length := congrArg Tally.pipes tally
    simp only [if_true, runEnding]
    cases ending : stage.ending with
    | missing direction => exact (here.targeted direction ending).elim
    | blank => exact (here.full ending).elim
    | none =>
      refine (execute_deeds here.argv here.external held).bind fun pid ran known => ?_
      obtain ⟨named, _, done, _⟩ := known
      refine ((errorExit_deeds false _ _).permitted policy.permits).returns fun _ after last => ?_
      rw [last, done, opened, named, input, standard, forked]
      simp [evaluate, Stage.plan, ending, Tally.of, Setting.of]
    | background =>
      refine (execute_deeds here.argv here.external held).bind fun bgPid ran known => ?_
      obtain ⟨named, _, done, _⟩ := known
      have told : (kernel true).Returns (fun _ after => after.log = ran.log) (announce bgPid) ran := by
        subst named
        exact returns_log (Program.uses_request.mpr id)
      refine (told.permitted policy.permits).bind fun _ printed same => ?_
      refine ((errorExit_deeds true _ _).permitted policy.permits).returns fun _ after last => ?_
      rw [last, same, done, opened, input, standard, forked]
      simp [evaluate, Stage.plan, ending, Tally.of, Setting.of]
    | and =>
      have exits := exiting ⟨stage, by simp, ending⟩
      refine (execute_deeds here.argv here.external held).bind
        fun andPid ran known => ?_
      obtain ⟨named, clear, done, counted⟩ := known
      subst named
      refine (waitAnd_deeds exits pids _).bind fun lastStatus waited known => ?_
      obtain ⟨table, waits, same, failed⟩ := known
      rw [counted] at same
      split
      · next fails =>
        refine ((errorExit_deeds false _ _).permitted policy.permits).returns fun _ final last => ?_
        rw [last, waits, done, opened, input, standard, forked]
        rw [failed, forked] at fails
        simp [evaluate, Stage.plan, ending, Tally.of, Setting.of, fails]
      · next passes =>
        refine (ih plain' exiting' (clear.congr (congrArg FdTable.file table)) rfl).returns
          fun _ final last => ?_
        rw [last, waits, done, opened, input, standard, same, files, pipes, forked]
        rw [failed, forked] at passes
        simp [evaluate, Stage.plan, ending, Tally.of, Setting.of, passes, Carried.none]
    | pipe =>
      refine (openPipe_deeds granting stage.start (stage.stop + 1) held).bind ?_
      rintro _ piped ⟨readEnd, writeEnd, rfl, unused, both, log, made⟩
      have apart := held.apart_of_unused unused
      refine (execute_deeds here.argv here.external both).bind
        fun pid ran known => ?_
      obtain ⟨named, clear, done, counted⟩ := known
      subst named
      have found : Function.update base readEnd (some (.pipeRead middle.pipes.length)) readEnd =
          some (.pipeRead middle.pipes.length) := Function.update_self ..
      have next := clear.carry found apart
      rw [Function.update_idem, ← unused, Function.update_eq_self] at next
      refine (ih plain' exiting' next rfl).returns fun _ after last => ?_
      have left := @standard_left base final middle.pipes.length writeEnd _
        (some (.pipeRead middle.pipes.length)) apart
      have madeFiles : piped.files = middle.files := congrArg Tally.files made
      have madePipes : piped.pipes.length = middle.pipes.length + 1 := congrArg Tally.pipes made
      rw [last, done, log, opened, left.1, left.2, input, output, counted, madeFiles, madePipes,
        files, pipes, log, forked]
      simp [evaluate, Stage.plan, ending, Tally.of, Setting.of]

end Lsnp.Lab
