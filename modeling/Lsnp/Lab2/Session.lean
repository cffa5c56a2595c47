import Lsnp.Interaction.Roles
import Lsnp.Lab.Interrupts
import Lsnp.Lab2.Iteration

/-! `main` of the second mini-shell on all that is typed: what its own process does and what
those that it forks do, and what each of them does about `SIGINT`. -/

namespace Lsnp.Lab2

open Lsnp.Interaction Lsnp.Unix

def MAXLINE : Nat := 255

/-- The loop of `main`, whose calls of `fgets` read these lines. -/
def mainLoop : List (List Char) → Prog Unit
  | [] => pure ()
  | line :: rest => do
    iteration line
    mainLoop rest

/-- `main` with this text to be read -/
def main (stdin : List Char) : Prog Unit := do
  request (.signal Lab.SIGCHLD (.handler sigfillset))
  request (.signal SIGINT .ignore)
  printCwd
  mainLoop (Libc.pieces MAXLINE stdin)

/-- The shell is started in this state of its own, and is the only process. -/
def Starts (stdin : List Char) (own : Local) (world : World) : Prop :=
  ∃ pid parent, world.processes = [⟨own, pid, parent, .running (main stdin), false⟩]

/-- Whatever the calls reply and in whatever order the processes take their steps. -/
def Session (stdin : List Char) (own : Local) (world : World) : Prop :=
  ((platform True).crowd (Starts stdin own)).Reachable world

def ofShell : Ask Call (List Text) → Prop
  | .exec _ | .own .pipe | .own (.openFile _) | .own (.dup2 _ _) | .own (.close _) => False
  | _ => True

def ofChild : Ask Call (List Text) → Prop
  | .own .uname | .own .getenv | .own (.chdir _) | .own .getcwd | .own (.printf _)
  | .own (.fprintf _) => False
  | _ => True

/-- The process of the shell reads and prompts, and its descriptors stay as they were; those
that are forked do not get into the loop. -/
structure Parted (table : FdTable File) (world : World) : Prop where
  asks : ∀ shell, world.processes[0]? = some shell → ∀ asked, shell.Asks asked → ofShell asked
  table : ∀ shell, world.processes[0]? = some shell → ∀ code, shell.doing = .running code →
    shell.own.table = table
  forked : ∀ index child, 0 < index → world.processes[index]? = some child →
    (∀ asked, child.Asks asked → ofChild asked) ∧ ∀ value, child.doing ≠ .running (.done value)

/-- `Ctrl+C` reaches the commands and, once it has been started, not the shell. -/
structure Interruptible (world : World) : Prop where
  shell : ∀ shell, world.processes[0]? = some shell → ∀ asked, shell.Asks asked →
    (∀ signo disposition, asked ≠ .own (.signal signo disposition)) →
    shell.own.dispositions SIGINT = .ignore
  commands : ∀ process ∈ world.processes, ∀ argv, process.doing = .turned argv →
    process.own.dispositions.exec SIGINT = .default

/-- What the loop asks besides `is_executable`. -/
def ofLoop : Ask Call (List Text) → Prop
  | .fork | .own (.signal _ _) => False
  | asked => ofShell asked

/-- What a process that is forked asks behind its `signal`. -/
def ofCommand : Ask Call (List Text) → Prop
  | .own (.signal _ _) => False
  | asked => ofChild asked

/-- What a process that is forked asks behind its `signal` on one side of a pipe, or without. -/
def ofSide : Ask Call (List Text) → Prop
  | .fork | .own .pipe => False
  | asked => ofCommand asked

def Departs (allowed : Ask Call (List Text) → Prop) (code : Prog α) : Prop :=
  code.uses allowed ∧ code.gives fun _ => False

section

variable {allowed : Ask Call (List Text) → Prop}

theorem Departs.ask {asked : Ask Call (List Text)} {next : asked.Answer Call.Reply → Prog α}
    (used : allowed asked) (departs : ∀ reply, Departs allowed (next reply)) :
    Departs allowed (.ask asked next : Prog α) :=
  ⟨⟨used, fun reply => (departs reply).1⟩, fun reply => (departs reply).2⟩

theorem Departs.mono {weaker : Ask Call (List Text) → Prop} {code : Prog α}
    (departs : Departs allowed code) (weaken : ∀ asked, allowed asked → weaker asked) :
    Departs weaker code :=
  ⟨Program.uses_mono departs.1 weaken, departs.2⟩

theorem departs_exit (exits : ∀ code, allowed (.exit code)) (code : Nat) :
    Departs allowed (exit code : Prog α) :=
  .ask (exits code) fun reply => reply.elim

theorem departs_fault (faults : allowed (.own .fault)) : Departs allowed (fault : Prog α) :=
  .ask faults fun reply => reply.elim

theorem departs_perror (exits : ∀ code, allowed (.exit code)) {label : Text}
    (perror : allowed (.own (.perror label))) (code : Nat) :
    Departs allowed (do request (.perror label); exit code : Prog α) :=
  .ask perror fun _ => departs_exit exits code

theorem departs_execvp (args : List (Option Text)) (slot : Nat) {rest : Unit → Prog α}
    (failed : Departs ofSide (rest ())) : Departs ofSide (execvp args slot >>= rest) := by
  have faults : ofSide (.own .fault) := trivial
  unfold execvp
  split
  · exact .ask faults fun reply => reply.elim
  · exact .ask trivial fun _ => failed

theorem runCommand_departs (args : List (Option Text)) : Departs ofSide (runCommand args : Prog α) :=
  departs_execvp args 0 (departs_perror (fun _ => trivial) trivial _)

theorem runLeft_departs (args : List (Option Text)) (readEnd writeEnd : Fd) :
    Departs ofSide (runLeft args readEnd writeEnd : Prog α) := by
  refine .ask trivial fun _ => .ask trivial fun _ => ?_
  exact departs_execvp args 0 (departs_perror (fun _ => trivial) trivial _)

theorem runRight_departs (args : List (Option Text)) (slot : Nat) (readEnd writeEnd : Fd) (pid : Pid) :
    Departs ofSide (runRight args slot readEnd writeEnd pid : Prog α) := by
  refine .ask trivial fun _ => .ask trivial fun _ => departs_execvp args slot ?_
  refine .ask trivial fun _ => .ask trivial fun _ => .ask trivial fun waited => ?_
  cases waited with
  | true => exact departs_exit (fun _ => trivial) _
  | false => exact departs_perror (fun _ => trivial) trivial _

theorem runRedirection_departs (args : List (Option Text)) (slot : Nat) :
    Departs ofSide (runRedirection args slot : Prog α) := by
  unfold runRedirection
  split
  · exact departs_fault trivial
  · refine .ask trivial fun fd => .ask trivial fun _ => .ask trivial fun _ => ?_
    exact departs_execvp args 0 (departs_exit (fun _ => trivial) _)

theorem ofCommand_of_side {asked : Ask Call (List Text)} (used : ofSide asked) : ofCommand asked := by
  cases asked with
  | own asked => cases asked <;> first | exact used | exact (used : False).elim
  | _ => first | exact used | trivial

theorem runPipe_departs (args : List (Option Text)) (slot : Nat) :
    Departs ofCommand (runPipe args slot : Prog α) := by
  refine .ask trivial fun ends => ?_
  cases ends with
  | none => exact departs_perror (fun _ => trivial) trivial _
  | some ends =>
    refine .ask trivial fun reply => ?_
    cases reply with
    | failed => exact departs_perror (fun _ => trivial) trivial _
    | child => exact (runLeft_departs _ _ _).mono fun _ => ofCommand_of_side
    | parent pid => exact (runRight_departs _ _ _ _ _).mono fun _ => ofCommand_of_side

/-- A child behind its `signal`. -/
def operate (args : List (Option Text)) : Prog α :=
  match scan args 0 with
  | none => fault
  | some (.neither, _) => runCommand args
  | some (.pipe, slot) => runPipe (args.set slot none) (slot + 1)
  | some (.redirection, slot) => runRedirection (args.set slot none) (slot + 1)

theorem operate_departs (args : List (Option Text)) : Departs ofCommand (operate args : Prog α) := by
  unfold operate
  split
  · exact departs_fault trivial
  · exact (runCommand_departs args).mono fun _ => ofCommand_of_side
  · exact runPipe_departs _ _
  · exact (runRedirection_departs _ _).mono fun _ => ofCommand_of_side

private theorem printCwd_uses_loop : printCwd.uses ofLoop := by
  refine ⟨trivial, fun cwd => ?_⟩
  cases cwd <;> exact ⟨trivial, fun _ => trivial⟩

private theorem hasBuiltin_uses_loop (args : List (Option Text)) : (hasBuiltin args).uses ofLoop := by
  unfold hasBuiltin
  split
  · split
    · rename_i entry found
      refine Program.uses_bind ?_ fun _ => trivial
      have among := List.mem_of_find?_eq_some found
      simp only [builtinList, List.mem_cons, List.not_mem_nil, or_false] at among
      rcases among with rfl | rfl | rfl
      · refine ⟨trivial, fun nodename => ?_⟩
        cases nodename <;> exact ⟨trivial, fun _ => trivial⟩
      · show (funcCd args).uses ofLoop
        unfold funcCd
        split
        · exact ⟨trivial, fun reply => reply.elim⟩
        · exact ⟨trivial, fun _ => trivial⟩
        · exact ⟨trivial, fun reply => reply.elim⟩
        · exact ⟨trivial, fun _ => ⟨trivial, fun _ => trivial⟩⟩
        · refine ⟨trivial, fun entered => ?_⟩
          cases entered with
          | true => trivial
          | false => exact ⟨trivial, fun _ => trivial⟩
      · refine ⟨trivial, fun cwd => ?_⟩
        cases cwd <;> exact ⟨trivial, fun _ => trivial⟩
    · trivial
  · exact ⟨trivial, fun reply => reply.elim⟩

private theorem commandFreelist_uses_loop (args : Option (List (Option Text))) :
    (commandFreelist args).uses ofLoop := by
  unfold commandFreelist
  split
  · exact ⟨trivial, fun reply => reply.elim⟩
  · trivial

end

variable {table : FdTable File} {own : Local}

def shellAsks (table : FdTable File) (asked : Ask Call (List Text)) (own : Local) : Prop :=
  ofShell asked ∧ own.table = table ∧
    ((∀ signo disposition, asked ≠ .own (.signal signo disposition)) →
      own.dispositions SIGINT = .ignore)

/-- The demand on a process that is forked where it asks something. -/
def childAsks (asked : Ask Call (List Text)) (own : Local) : Prop :=
  ofChild asked ∧ ((∃ signo disposition, asked = .own (.signal signo disposition)) ∨
    own.dispositions SIGINT = .default)

def Looping (table : FdTable File) (own : Local) : Prop :=
  own.table = table ∧ own.dispositions SIGINT = .ignore

theorem serve_dispositions {fails : Prop} {after : Local} {made changed : Made} {asked : Call}
    {reply : asked.Reply} (served : serve fails own made asked reply after changed)
    (other : ∀ signo disposition, asked ≠ .signal signo disposition) :
    after.dispositions = own.dispositions := by
  cases asked with
  | signal signo disposition => exact (other _ _ rfl).elim
  | fault => exact reply.elim
  | pipe => rcases served with ⟨-, -, rfl, -⟩ | ⟨-, rfl, -⟩ <;> rfl
  | openFile path =>
    cases path with
    | none =>
      obtain ⟨-, rfl, -⟩ := served
      rfl
    | some path => rcases served with ⟨-, -, rfl, -⟩ | ⟨-, rfl, -⟩ <;> rfl
  | dup2 fd standard => rcases served with ⟨-, ⟨-, -, rfl⟩ | ⟨_, -, -, rfl⟩⟩ <;> rfl
  | close fd =>
    obtain ⟨-, rfl⟩ := served
    cases fd <;> rfl
  | perror | printf | fprintf | uname | getenv | chdir | getcwd =>
    obtain ⟨rfl, -⟩ := served
    rfl

private theorem shellAsks_of_loop {asked : Ask Call (List Text)} (used : ofLoop asked)
    (looping : Looping table own) : shellAsks table asked own := by
  refine ⟨?_, looping.1, fun _ => looping.2⟩
  cases asked with
  | own asked => cases asked <;> first | exact used | exact (used : False).elim
  | _ => first | exact used | trivial

section

variable {Role : Type} {roles : Roles Call Call.Reply (List Text) Local Made Role} {shell : Role}

/-- The shell in this role may ask what it asks in its loop, and stays in the role. -/
structure Admits (roles : Roles Call Call.Reply (List Text) Local Made Role) (shell : Role)
    (table : FdTable File) : Prop where
  asks : ∀ asked own, shellAsks table asked own → roles.asks shell asked own
  stays : ∀ shared asked answer, ofShell asked → asked ≠ .fork →
    roles.after shell shared asked answer = shell

/-- Behind `is_executable` the shell is as before. -/
def Executes (roles : Roles Call Call.Reply (List Text) Local Made Role) (shell : Role)
    (table : FdTable File) (args : List (Option Text)) : Prop :=
  ∀ own, Looping table own → (platform True).Plays roles
    (fun role _ own => role = shell ∧ Looping table own) (isExecutable args) shell own

theorem loop_plays {code : Prog α} {results : Role → α → Local → Prop}
    (admits : Admits roles shell table) (uses : code.uses ofLoop) (looping : Looping table own)
    (ends : ∀ value own, Looping table own → results shell value own) :
    (platform True).Plays roles results code shell own := by
  refine Platform.plays_of_uses (Looping table) (fun _ => True) uses
    (Program.gives_of_forall _ fun _ => trivial) ?_ (fun forks => (forks : False).elim) ?_
    (fun value own _ => ends value own) ?_ looping
  · rintro shared asked answer used
    refine admits.stays shared asked answer (shellAsks_of_loop used looping).1 ?_
    rintro rfl
    exact used
  · exact fun asked own used looping => admits.asks asked own (shellAsks_of_loop used looping)
  · intro own shared asked reply after changed used looping served
    cases asked <;> first | exact (used : False).elim | skip
    case fault => exact reply.elim
    all_goals
      obtain ⟨rfl, -⟩ := served
      exact looping

private theorem iteration_plays (line : List Char) {results : Role → Unit → Local → Prop}
    (admits : Admits roles shell table)
    (executes : ∀ args, commandParse line = some args → Executes roles shell table args)
    (looping : Looping table own) (ends : ∀ own, Looping table own → results shell () own) :
    (platform True).Plays roles results (iteration line) shell own := by
  unfold iteration
  split
  · exact admits.asks _ _ (shellAsks_of_loop trivial looping)
  · split
    · refine loop_plays admits ?_ looping fun _ => ends
      exact Program.uses_bind (commandFreelist_uses_loop _) fun _ => printCwd_uses_loop
    · rename_i args parsed
      refine Platform.Plays.bind (loop_plays admits (hasBuiltin_uses_loop args) looping ?_)
      intro found own looping
      cases found with
      | true =>
        refine loop_plays admits ?_ looping fun _ => ends
        exact Program.uses_bind (commandFreelist_uses_loop _) fun _ => printCwd_uses_loop
      | false =>
        refine Platform.Plays.bind ((executes args parsed own looping).mono ?_)
        rintro _ value own ⟨rfl, looping⟩
        refine loop_plays admits ?_ looping fun _ => ends
        exact Program.uses_bind (commandFreelist_uses_loop _) fun _ => printCwd_uses_loop

private theorem mainLoop_plays (lines : List (List Char)) (admits : Admits roles shell table)
    (executes : ∀ line ∈ lines, ∀ args, commandParse line = some args →
      Executes roles shell table args) (looping : Looping table own) :
    (platform True).Plays roles (fun role _ own => role = shell ∧ own.table = table)
      (mainLoop lines) shell own := by
  induction lines generalizing own with
  | nil => exact ⟨rfl, looping.1⟩
  | cons line lines ih =>
    refine Platform.Plays.bind (iteration_plays line admits ?_ looping fun own looping => ?_)
    · exact executes line (List.mem_cons_self ..)
    · exact ih (fun other member => executes other (List.mem_cons_of_mem _ member)) looping

theorem main_plays (stdin : List Char) (admits : Admits roles shell own.table)
    (executes : ∀ line ∈ Libc.pieces MAXLINE stdin, ∀ args, commandParse line = some args →
      Executes roles shell own.table args) :
    (platform True).Plays roles (fun role _ after => role = shell ∧ after.table = own.table)
      (main stdin) shell own := by
  refine ⟨admits.asks _ _ ⟨trivial, rfl, fun other => (other _ _ rfl).elim⟩, ?_⟩
  rintro shared _ _ _ ⟨-, rfl⟩
  rw [admits.stays shared (.own (.signal Lab.SIGCHLD _)) () trivial (fun same => by cases same)]
  refine ⟨admits.asks _ _ ⟨trivial, rfl, fun other => (other _ _ rfl).elim⟩, ?_⟩
  rintro shared _ _ _ ⟨-, rfl⟩
  rw [admits.stays shared (.own (.signal SIGINT _)) () trivial (fun same => by cases same)]
  let started : Local := ⟨own.table, sigaction (sigaction own.dispositions Lab.SIGCHLD
    (.handler sigfillset)) SIGINT .ignore⟩
  have looping : Looping own.table started :=
    ⟨rfl, sigaction_self (sigaction own.dispositions Lab.SIGCHLD (.handler sigfillset)) SIGINT
      .ignore⟩
  change (platform True).Plays roles _ (do printCwd; mainLoop (Libc.pieces MAXLINE stdin)) _ started
  exact Platform.Plays.bind (loop_plays admits printCwd_uses_loop looping fun _ own looping =>
    mainLoop_plays _ admits executes looping)

/-- In `is_executable` the shell plays a role that a `fork` does not change if its child plays
the one that it is forked in. -/
theorem executes_of_child {args : List (Option Text)} (admits : Admits roles shell table)
    (stays : ∀ shared reply, roles.after shell shared .fork reply = shell)
    (child : ∀ args own, own.table = table →
      (platform True).Plays roles (fun _ _ _ => False) (runChild args : Prog Unit)
        (roles.forked shell) own) :
    Executes roles shell table args := by
  intro own looping
  unfold isExecutable
  split
  · exact ⟨admits.asks _ _ (shellAsks_of_loop trivial looping), fun _ reply => reply.elim⟩
  · rename_i args foreground cut
    refine ⟨admits.asks _ _ ⟨trivial, looping.1, fun _ => looping.2⟩,
      (child args own looping.1).mono fun _ _ _ => False.elim, fun shared pid => ?_,
      fun _ shared => ?_⟩
    · rw [stays]
      refine loop_plays admits ?_ looping fun _ own looping => ⟨rfl, looping⟩
      cases foreground with
      | true => exact ⟨trivial, fun _ => trivial⟩
      | false => trivial
    · rw [stays]
      exact loop_plays admits (departs_perror (fun _ => trivial) trivial _).1 looping
        fun _ own looping => ⟨rfl, looping⟩

end

inductive Party where
  | shell
  | forked

/-- The demands on the two parties, which nothing changes. -/
def parties (table : FdTable File) : Roles Call Call.Reply (List Text) Local Made Party where
  asks
    | .shell => shellAsks table
    | .forked => childAsks
  after party _ _ _ := party
  forked _ := .forked

private theorem child_plays (args : List (Option Text)) :
    (platform True).Plays (parties table) (fun _ _ _ => False) (runChild args : Prog α) .forked
      own := by
  refine ⟨⟨trivial, .inl ⟨_, _, rfl⟩⟩, ?_⟩
  rintro shared reply after changed ⟨-, rfl⟩
  refine Platform.plays_of_uses (fun own => own.dispositions SIGINT = .default) (fun _ => False)
    (operate_departs args).1 (operate_departs args).2 (fun _ _ _ _ => rfl) (fun _ => rfl) ?_
    (fun _ _ never => never.elim) ?_ ?_
  · intro asked own used default
    refine ⟨?_, .inr default⟩
    cases asked with
    | own asked => cases asked <;> first | exact used | exact (used : False).elim
    | _ => exact used
  · intro own shared asked reply after changed used default served
    rw [serve_dispositions served ?_]
    · exact default
    · rintro signo disposition rfl
      exact used
  · exact sigaction_self own.dispositions SIGINT .default

variable {stdin : List Char} {world : World}

theorem session_parties (session : Session stdin own world) :
    world.Cast (platform True) (parties own.table)
      (fun party _ after => party = .shell ∧ after.table = own.table)
      (leading .shell .forked) := by
  have admits : Admits (parties own.table) .shell own.table := ⟨fun _ _ asks => asks, fun _ _ _ _ _ => rfl⟩
  refine (Platform.cast_of_reachable (fun _ _ _ _ => rfl) (fun _ => rfl) ?_ session).2
  rintro start ⟨pid, parent, only⟩
  refine ⟨_, only, main_plays stdin admits fun _ _ args _ => ?_⟩
  exact executes_of_child admits (fun _ _ => rfl) fun args own _ => child_plays args

theorem mayAsk_own {asked : Ask Call (List Text)} {made : Call} (reply : made.Reply)
    {rest : made.Reply → Prog α} {later : Local} {shared changed : Made}
    (served : serve True own shared made reply later changed)
    (next : (platform True).MayAsk asked (rest reply) later changed) :
    (platform True).MayAsk asked (request made >>= rest) own shared :=
  .own served next

def Local.started (own : Local) : Local :=
  ⟨own.table, sigaction (sigaction own.dispositions Lab.SIGCHLD (.handler sigfillset)) SIGINT .ignore⟩

/-- What the child may ask on the first line is asked in some session, with `getcwd` failing. -/
theorem mayAsk_main {line : List Char} {args cut : List (Option Text)} {foreground : Bool}
    {asked : Ask Call (List Text)} {made : Made}
    (read : Libc.fgets MAXLINE line = some (line, [])) (other : Lab.exits line = false)
    (parsed : commandParse line = some args) (external : hasBuiltin args = pure false)
    (background : isBackground args = some (cut, foreground))
    (may : (platform True).MayAsk asked (runChild cut : Prog Unit) own.started made) :
    (platform True).MayAsk asked (main line) own made := by
  refine mayAsk_own () ⟨rfl, rfl⟩ (mayAsk_own () ⟨rfl, rfl⟩ (mayAsk_own none ⟨rfl, rfl⟩ ?_))
  change (platform True).MayAsk _ (do
    request (.perror "getcwd".toList)
    mainLoop (Libc.pieces MAXLINE line)) _ _
  refine mayAsk_own () ⟨rfl, rfl⟩ ?_
  rw [Libc.pieces_eq_cons read]
  refine Platform.MayAsk.bind ?_ _
  rw [iteration, other, parsed]
  simp only [external, pure_bind, Bool.false_eq_true, if_false]
  refine Platform.MayAsk.bind ?_ _
  rw [isExecutable, background]
  exact .child may

theorem session_turned {line : List Char} {argv : List Text}
    (may : (platform True).MayAsk (.exec argv) (main line) own ⟨0, 0⟩) :
    ∃ world, Session line own world ∧ ∃ process ∈ world.processes, process.doing = .turned argv := by
  let start : Member := ⟨own, 1, 1, .running (main line), false⟩
  have first : Session line own ⟨⟨0, 0⟩, [start]⟩ := .start ⟨1, 1, rfl⟩
  obtain ⟨world, session, process, member, next, doing⟩ :=
    may.reachable first (List.nil_append _).symm rfl rfl rfl
  obtain ⟨front, back, here⟩ := List.append_of_mem member
  exact ⟨_, session.next (.of here (.exec doing)), { process with doing := .turned _ }, by simp, rfl⟩

theorem session_ls (own : Local) : ∃ world, Session "ls\n".toList own world ∧
    ∃ process ∈ world.processes, process.doing = .turned ["ls".toList] := by
  have parsed : commandParse "ls\n".toList = some (argsOf ["ls".toList]) := by decide
  have cut : isBackground (argsOf ["ls".toList]) = some (argsOf ["ls".toList], true) := by decide
  refine session_turned (mayAsk_main rfl (by decide) parsed rfl cut ?_)
  rw [runChild]
  exact mayAsk_own () ⟨rfl, rfl⟩ .here

/-- Whatever is typed and whichever calls fail, the loop of `main` is run by the process of the
shell alone, which does not redirect itself and becomes no command. -/
theorem session_parted (session : Session stdin own world) : Parted own.table world := by
  have cast := session_parties session
  refine ⟨fun shell first asked asks => ?_, fun shell first code doing => ?_, ?_⟩
  · exact ((cast 0 shell first).asks asks).1
  · have own := cast 0 shell first
    rw [Process.Plays, doing] at own
    cases code with
    | done value => exact own.2
    | ask asked next =>
      have asks : shell.Asks asked := ⟨next, doing⟩
      exact ((cast 0 shell first).asks asks).2.1
  · intro index child behind found
    have own := cast index child found
    rw [leading, if_neg (Nat.ne_of_gt behind)] at own
    refine ⟨fun asked asks => (own.asks asks).1, fun value doing => ?_⟩
    rw [Process.Plays, doing] at own
    cases own.1

theorem session_parted_ls : ∃ world, Session "ls\n".toList ⟨⟨[]⟩, fun _ => .default⟩ world ∧
    (∃ process ∈ world.processes, process.doing = .turned ["ls".toList]) ∧ Parted ⟨[]⟩ world := by
  obtain ⟨world, session, turned⟩ := session_ls ⟨⟨[]⟩, fun _ => .default⟩
  exact ⟨world, session, turned, session_parted session⟩

/-- In every session `SIGINT` kills the commands only: the shell ignores it from its second call
on, and each process has the default action again when it becomes a command. -/
theorem session_interruptible (session : Session stdin own world) : Interruptible world := by
  have cast := session_parties session
  refine ⟨fun shell first asked asks other => ?_, fun process member argv doing => ?_⟩
  · exact ((cast 0 shell first).asks asks).2.2 other
  · obtain ⟨index, found⟩ := List.mem_iff_getElem?.mp member
    have own := cast index process found
    rw [Process.Plays, doing] at own
    rcases Nat.eq_zero_or_pos index with rfl | behind
    · exact own.1.elim
    · rw [leading, if_neg (Nat.ne_of_gt behind)] at own
      have default : process.own.dispositions SIGINT = .default := by
        rcases own.2 with ⟨_, _, same⟩ | default
        · cases same
        · exact default
      rw [Dispositions.exec, default]

theorem session_interruptible_ls : ∃ world,
    Session "ls\n".toList ⟨⟨[]⟩, fun _ => .ignore⟩ world ∧
    (∃ process ∈ world.processes, process.doing = .turned ["ls".toList]) ∧
    Interruptible world := by
  obtain ⟨world, session, turned⟩ := session_ls ⟨⟨[]⟩, fun _ => .ignore⟩
  exact ⟨world, session, turned, session_interruptible session⟩

end Lsnp.Lab2
