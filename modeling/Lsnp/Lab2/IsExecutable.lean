import Lsnp.Interaction.Forking
import Lsnp.Unix.Kernel
import Lsnp.Unix.Signals

/-! `is_executable.c` of the second mini-shell. The shell forks a child, which looks for the
one operator it knows, forks once more for a pipe, and calls `execvp` itself. -/

namespace Lsnp.Lab2

open Lsnp.Interaction Lsnp.Unix

/-- What a process has of its own and `fork` copies. -/
structure Local where
  table : FdTable File
  dispositions : Dispositions

/-- How many files were opened and pipes made, by whatever process. -/
structure Made where
  files : Nat
  pipes : Nat

/-- The calls that are not about processes. A descriptor is `none` for -1 and a path for a
null pointer; `fault` is an access out of bounds. -/
inductive Call where
  | signal (signo : Signo) (disposition : Disposition)
  | pipe
  | openFile (path : Option Text)
  | dup2 (fd : Option Fd) (standard : Fd)
  | close (fd : Option Fd)
  | perror (label : Text)
  | printf (text : Text)
  | fprintf (text : Text)
  | uname
  | getenv
  | chdir (directory : Option Text)
  | getcwd
  | fault

abbrev Call.Reply : Call → Type
  | .signal _ _ | .close _ | .perror _ | .printf _ | .fprintf _ => Unit
  | .pipe => Option (Fd × Fd)
  | .openFile _ => Option Fd
  | .dup2 _ _ | .chdir _ => Bool
  | .uname | .getenv | .getcwd => Option Text
  | .fault => Empty

/-- Code of the shell; an image is the array that is handed to `execvp`, which is empty if
the name is a null pointer. -/
abbrev Prog : Type → Type := Code Call Call.Reply (List Text)

def request (asked : Call) : Prog asked.Reply := .request (Ask.own asked)

def fork : Prog ForkReply := .request Ask.fork

def waitpid (pid : Pid) : Prog Bool := .request (Ask.wait pid)

def exit (code : Nat) : Prog α := .ask (.exit code) nofun

def fault : Prog α := .ask (.own .fault) nofun

/-- The strings from a slot up to the next `NULL`; `none` if there is no `NULL`. -/
def strings : List (Option Text) → Option (List Text)
  | [] => none
  | none :: _ => some []
  | some text :: rest => (strings rest).map (text :: ·)

/-- `execvp(args[0], args)` for the array that begins at this slot -/
def execvp (args : List (Option Text)) (slot : Nat) : Prog Unit :=
  match strings (args.drop slot) with
  | none => fault
  | some argv => .request (Ask.exec argv)

/-- `is_background`: the array, where a last `&` has become `NULL`, and what it returns. -/
def isBackground (args : List (Option Text)) : Option (List (Option Text) × Bool) := do
  let index := (← strings args).length
  if index = 0 then pure (args, true)
  else
    if args[index - 1]? = some (some "&".toList) then pure (args.set (index - 1) none, false)
    else pure (args, true)

/-- `is_pipe` and `is_redirection`; both are 0 for `neither`. -/
inductive Operator where
  | neither
  | pipe
  | redirection
  deriving DecidableEq, Repr

/-- The loop of the child: the first `|` or `>` and its slot. -/
def scan : List (Option Text) → Nat → Option (Operator × Nat)
  | [], _ => none
  | none :: _, slot => some (.neither, slot)
  | some text :: rest, slot =>
    if text = "|".toList then some (.pipe, slot)
    else if text = ">".toList then some (.redirection, slot)
    else scan rest (slot + 1)

/-- The child without an operator. -/
def runCommand (args : List (Option Text)) : Prog α := do
  execvp args 0
  request (.perror "execvp".toList)
  exit 255

/-- The child of the child, in front of its `execvp`. -/
def runLeft (args : List (Option Text)) (readEnd writeEnd : Fd) : Prog α := do
  request (.close (some readEnd))
  let _ ← request (.dup2 (some writeEnd) 1)
  execvp args 0
  request (.perror "execvp".toList)
  exit 1

/-- The child behind the `fork` of a pipe. -/
def runRight (args : List (Option Text)) (args2 : Nat) (readEnd writeEnd : Fd) (pid : Pid) :
    Prog α := do
  request (.close (some writeEnd))
  let _ ← request (.dup2 (some readEnd) 0)
  execvp args args2
  request (.perror "execvp".toList)
  request (.close (some readEnd))
  if ← waitpid pid then
    exit 255
  else do
    request (.perror "waitpid".toList)
    exit 1

def runPipe (args : List (Option Text)) (args2 : Nat) : Prog α := do
  match ← request .pipe with
  | none => do
    request (.perror "pipe".toList)
    exit 1
  | some (readEnd, writeEnd) => do
    match ← fork with
    | .failed => do
      request (.perror "fork".toList)
      exit 1
    | .child => runLeft args readEnd writeEnd
    | .parent pid => runRight args args2 readEnd writeEnd pid

def runRedirection (args : List (Option Text)) (args2 : Nat) : Prog α :=
  match args[args2]? with
  | none => fault
  | some path => do
    let fd ← request (.openFile path)
    let _ ← request (.dup2 fd 1)
    request (.close fd)
    execvp args 0
    exit 255

/-- Case 0 of the first `fork`. -/
def runChild (args : List (Option Text)) : Prog α := do
  request (.signal SIGINT .default)
  match scan args 0 with
  | none => fault
  | some (.neither, _) => runCommand args
  | some (.pipe, slot) => runPipe (args.set slot none) (slot + 1)
  | some (.redirection, slot) => runRedirection (args.set slot none) (slot + 1)

/-- `is_executable` -/
def isExecutable (args : List (Option Text)) : Prog Unit :=
  match isBackground args with
  | none => fault
  | some (args, foreground) => do
    match ← fork with
    | .failed => do
      request (.perror "fork".toList)
      exit 255
    | .child => runChild args
    | .parent pid =>
      if foreground then do
        let _ ← waitpid pid
      else pure ()

/-- The array that `command_parse` makes of the tokens. -/
def argsOf (tokens : List Text) : List (Option Text) := tokens.map some ++ [none]

namespace Local

variable (own : Local)

def set (fd : Fd) (file : File) : Local := { own with table := own.table.set fd file }

def drop (fd : Fd) : Local := { own with table := own.table.close fd }

def pipeEnds (pipe : Nat) : Fd × Fd :=
  (own.table.lowest, (own.table.set own.table.lowest (.pipeRead pipe)).lowest)

def addPipe (pipe : Nat) : Local :=
  (own.set (own.pipeEnds pipe).1 (.pipeRead pipe)).set (own.pipeEnds pipe).2 (.pipeWrite pipe)

end Local

/-- What a call may return and change. A `dup2` of a descriptor that is not open fails, and
so does an `open` of a null pointer; where `fails`, any `pipe`, `open` or `dup2` can. -/
def serve (fails : Prop) (own : Local) (made : Made) : (asked : Call) → asked.Reply → Local →
    Made → Prop
  | .signal signo disposition, _, after, changed => changed = made ∧
      after = { own with dispositions := sigaction own.dispositions signo disposition }
  | .pipe, reply, after, changed =>
      fails ∧ reply = none ∧ after = own ∧ changed = made ∨
      reply = some (own.pipeEnds made.pipes) ∧ after = own.addPipe made.pipes ∧
        changed = { made with pipes := made.pipes + 1 }
  | .openFile none, reply, after, changed => reply = none ∧ after = own ∧ changed = made
  | .openFile (some path), reply, after, changed =>
      fails ∧ reply = none ∧ after = own ∧ changed = made ∨
      reply = some own.table.lowest ∧
        after = own.set own.table.lowest (.regular made.files path .output) ∧
        changed = { made with files := made.files + 1 }
  | .dup2 fd standard, reply, after, changed => changed = made ∧
      ((fails ∨ fd.bind own.table.file = none) ∧ reply = false ∧ after = own ∨
        ∃ file, fd.bind own.table.file = some file ∧ reply = true ∧ after = own.set standard file)
  | .close fd, _, after, changed => changed = made ∧ after = fd.elim own own.drop
  | .perror _, _, after, changed | .printf _, _, after, changed | .fprintf _, _, after, changed
  | .uname, _, after, changed | .getenv, _, after, changed | .chdir _, _, after, changed
  | .getcwd, _, after, changed => after = own ∧ changed = made
  | .fault, reply, _, _ => reply.elim

def platform (fails : Prop) : Platform Call Call.Reply Local Made := ⟨serve fails, fails⟩

end Lsnp.Lab2
