import Lsnp.Unix.Descriptors
import Lsnp.Unix.Status
import Lsnp.Interaction.Ensures

/-! The calls the shell makes and the replies it can get, as far as the shell's own
process is concerned. The processes it has forked are in `Lsnp.Lab.System`. -/

namespace Lsnp.Unix

open Lsnp.Interaction

abbrev Text := List Char

abbrev Pid := Nat

inductive Direction where
  | input
  | output
  deriving DecidableEq, Repr

/-- An open file description; every successful `open` and `pipe` makes new ones. -/
inductive File where
  | inherited (number : Nat)
  | regular (serial : Nat) (path : Text) (direction : Direction)
  | pipeRead (pipe : Nat)
  | pipeWrite (pipe : Nat)
  deriving DecidableEq, Repr

/-- For which line, and between the commands starting at which two slots of its
token array, a pipe was made. -/
structure PipeRecord where
  line : Nat
  left : Nat
  right : Nat
  deriving DecidableEq, Repr

/-- A process as it was forked: the slot its command starts at, its arguments and
its copy of the descriptor table, with which it calls `execvp`. -/
structure Fork where
  pid : Pid
  line : Nat
  arglist : Nat
  argv : List Text
  table : FdTable File
  deriving DecidableEq, Repr

/-- What the shell did, in order. -/
inductive Event where
  | opened (file : File)
  | forked (child : Fork)
  | waited (pid : Pid) (status : Option Nat)
  | wrote (file : Option File) (text : Text)
  | complained (text : Text)
  | acted (succeeded : Bool)
  deriving DecidableEq, Repr

/-- The shell process: its descriptors, its `stdout` buffer, the numbers of files
and pipes made so far, the number of the current line, and its history. -/
structure Shell where
  table : FdTable File
  files : Nat
  pipes : List PipeRecord
  line : Nat
  buffer : Text
  log : List Event
  deriving DecidableEq, Repr

/-- The calls of the shell. `pipe` and `fork` also say for which slots of the token
array they are made; `restore` is a `dup2` that puts a saved descriptor back,
`indeterminate` a read of an uninitialised `int`, `fault` an access out of bounds. -/
inductive Call where
  | fgets
  | fflush
  | printf (text : Text)
  | fprintf (text : Text)
  | perror (label : Text)
  | dup (fd : Fd)
  | dup2 (fd standard : Fd)
  | restore (saved standard : Fd)
  | close (fd : Fd)
  | pipe (left right : Nat)
  | openFile (direction : Direction) (path : Text)
  | fork (arglist : Nat) (argv : List Text)
  | waitpid (pid : Pid)
  | uname
  | getenv
  | chdir (directory : Option Text)
  | getcwd
  | indeterminate
  | fault
  deriving DecidableEq, Repr

/-- What a call returns; `-1` is `none` or `false`. -/
abbrev Call.Reply : Call → Type
  | .fgets | .fflush | .printf _ | .fprintf _ | .perror _ | .restore _ _ | .close _ => Unit
  | .dup _ | .openFile _ _ => Option Fd
  | .dup2 _ _ | .chdir _ => Bool
  | .pipe _ _ => Option (Fd × Fd)
  | .fork _ _ => Option Pid
  | .waitpid _ => Option Nat
  | .uname | .getenv => Option Text
  | .getcwd => Bool × Text
  | .indeterminate => Nat
  | .fault => Empty

abbrev Prog := Program Call Call.Reply

/-! Each call as a program whose result is the reply. -/

namespace Sys

abbrev fgets : Prog Unit := .request Call.fgets
abbrev fflush : Prog Unit := .request Call.fflush
abbrev printf (text : Text) : Prog Unit := .request (Call.printf text)
abbrev fprintf (text : Text) : Prog Unit := .request (Call.fprintf text)
abbrev perror (label : Text) : Prog Unit := .request (Call.perror label)
abbrev dup (fd : Fd) : Prog (Option Fd) := .request (Call.dup fd)
abbrev dup2 (fd standard : Fd) : Prog Bool := .request (Call.dup2 fd standard)
abbrev restore (saved standard : Fd) : Prog Unit := .request (Call.restore saved standard)
abbrev close (fd : Fd) : Prog Unit := .request (Call.close fd)
abbrev pipe (left right : Nat) : Prog (Option (Fd × Fd)) := .request (Call.pipe left right)
abbrev openFile (direction : Direction) (path : Text) : Prog (Option Fd) :=
  .request (Call.openFile direction path)
abbrev fork (arglist : Nat) (argv : List Text) : Prog (Option Pid) := .request (Call.fork arglist argv)
abbrev waitpid (pid : Pid) : Prog (Option Nat) := .request (Call.waitpid pid)
abbrev uname : Prog (Option Text) := .request Call.uname
abbrev getenv : Prog (Option Text) := .request Call.getenv
abbrev chdir (directory : Option Text) : Prog Bool := .request (Call.chdir directory)
abbrev getcwd : Prog (Bool × Text) := .request Call.getcwd
abbrev indeterminate : Prog Nat := .request Call.indeterminate

end Sys

/-- Undefined behaviour: nobody replies. -/
def fault : Prog α := .ask .fault nofun

theorem not_reach_of_fault {State : Type} {service : Service Call Call.Reply State} {value : α}
    {state after : State} : ¬ service.Reach (fault, state) (.done value, after) := by
  have stuck : ∀ config, service.Reach ((fault : Prog α), state) config → config.1 = fault := by
    intro config reach
    induction reach with
    | refl => rfl
    | tail _ last ih =>
      cases last with
      | @reply _ _ asked reply next =>
        obtain ⟨rfl, -⟩ := Program.ask.inj ih
        exact reply.elim
      | move _ => exact ih
  intro reach
  cases stuck _ reach

namespace Shell

/-- The shell as it is started: standard input, output and error, and nothing done yet. -/
def initial : Shell :=
  ⟨⟨[some (.inherited 0), some (.inherited 1), some (.inherited 2)]⟩, 0, [], 0, [], []⟩

def note (shell : Shell) (event : Event) : Shell :=
  { shell with log := shell.log ++ [event] }

def print (shell : Shell) (text : Text) : Shell :=
  { shell with buffer := shell.buffer ++ text }

/-- Write out the `stdout` buffer to whatever descriptor 1 refers to. -/
def flush (shell : Shell) : Shell :=
  { shell with buffer := [], log := shell.log ++ [.wrote (shell.table.file 1) shell.buffer] }

def install (shell : Shell) (fd : Fd) (file : File) : Shell :=
  { shell with table := shell.table.set fd file }

def drop (shell : Shell) (fd : Fd) : Shell :=
  { shell with table := shell.table.close fd }

/-- The two descriptors the next `pipe` returns. -/
def pipeEnds (shell : Shell) : Fd × Fd :=
  (shell.table.lowest, (shell.table.set shell.table.lowest (.pipeRead shell.pipes.length)).lowest)

def addPipe (shell : Shell) (left right : Nat) : Shell :=
  { shell with
    table := (shell.table.set shell.pipeEnds.1 (.pipeRead shell.pipes.length)).set
      shell.pipeEnds.2 (.pipeWrite shell.pipes.length)
    pipes := shell.pipes ++ [⟨shell.line, left, right⟩] }

def addFile (shell : Shell) (direction : Direction) (path : Text) : Shell :=
  { shell with
    table := shell.table.set shell.table.lowest (.regular shell.files path direction)
    files := shell.files + 1
    log := shell.log ++ [.opened (.regular shell.files path direction)] }

/-- The process that a `fork` of this shell makes. -/
def child (shell : Shell) (pid : Pid) (arglist : Nat) (argv : List Text) : Fork :=
  ⟨pid, shell.line, arglist, argv, shell.table⟩

end Shell

def forks (log : List Event) : List Fork :=
  log.filterMap fun | .forked child => some child | _ => none

/-- The pids handed to `waitpid`, with what it stored, in order. -/
def waits (log : List Event) : List (Pid × Option Nat) :=
  log.filterMap fun | .waited pid status => some (pid, status) | _ => none

/-- The replies a call may get. Any of `pipe`, `open`, `dup`, `dup2` and `fork` may
fail; `close` and the restoring `dup2` do not. `waitpid` gets the status of a process
that has ended; with `theft` it may also find that the process is already reaped. -/
def serve (theft : Bool) (shell : Shell) : (asked : Call) → asked.Reply → Shell → Prop
  | .fgets, _, after => after = { shell with line := shell.line + 1 }
  | .fflush, _, after => after = shell.flush
  | .printf text, _, after => after = shell.print text
  | .fprintf text, _, after => after = shell.note (.complained text)
  | .perror label, _, after => after = shell.note (.complained label)
  | .dup fd, reply, after => reply = none ∧ after = shell ∨
      ∃ file, shell.table.file fd = some file ∧ reply = some shell.table.lowest ∧
        after = shell.install shell.table.lowest file
  | .dup2 fd standard, reply, after => reply = false ∧ after = shell ∨
      ∃ file, shell.table.file fd = some file ∧ reply = true ∧
        after = shell.install standard file
  | .restore saved standard, _, after => shell.table.file saved = none ∧ after = shell ∨
      ∃ file, shell.table.file saved = some file ∧ after = shell.install standard file
  | .close fd, _, after => after = shell.drop fd
  | .pipe left right, reply, after => reply = none ∧ after = shell ∨
      reply = some shell.pipeEnds ∧ after = shell.addPipe left right
  | .openFile direction path, reply, after => reply = none ∧ after = shell ∨
      reply = some shell.table.lowest ∧ after = shell.addFile direction path
  | .fork arglist argv, reply, after => reply = none ∧ after = shell ∨
      ∃ pid, reply = some pid ∧ after = shell.note (.forked (shell.child pid arglist argv))
  | .waitpid pid, reply, after => after = shell.note (.waited pid reply) ∧
      (theft = true ∧ reply = none ∨ ∃ ended : Termination, reply = some ended.encode)
  | .uname, reply, after => after = shell.note (.acted reply.isSome)
  | .getenv, _, after => after = shell
  | .chdir _, reply, after => after = shell.note (.acted reply)
  | .getcwd, reply, after => after = shell.note (.acted reply.1)
  | .indeterminate, _, after => after = shell
  | .fault, reply, _ => reply.elim

/-- The shell's process on its own, with every combination of replies. -/
def kernel (theft : Bool) : Service Call Call.Reply Shell :=
  ⟨serve theft, fun _ _ => False⟩

theorem kernel_quiet (theft : Bool) : (kernel theft).Quiet := fun _ _ moved => moved

end Lsnp.Unix
