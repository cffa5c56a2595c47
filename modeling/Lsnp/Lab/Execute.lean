import Lsnp.Lab.Builtin

/-! `execute` of `isexecutable.c`: run one command with its input and output
redirected, in the shell itself for a builtin and in a child otherwise. -/

namespace Lsnp.Lab

open Lsnp.Interaction Lsnp.Unix

/-- `if (fd != -1) close(fd)` -/
def closeIfOpen : Option Fd → Prog Unit
  | none => pure ()
  | some fd => Sys.close fd

/-- `if (saved != -1) { dup2(saved, standard); close(saved); }` -/
def putBack (saved : Option Fd) (standard : Fd) : Prog Unit :=
  match saved with
  | none => pure ()
  | some fd => do
    Sys.restore fd standard
    Sys.close fd

/-- The code at the label `exit_execute`. -/
def exitExecute (savedIn savedOut fdIn fdOut : Option Fd) : Prog Unit := do
  putBack savedIn 0
  putBack savedOut 1
  closeIfOpen fdIn
  closeIfOpen fdOut

/-- `fd == -1 || dup2(fd, standard) != -1` -/
def redirect (fd : Option Fd) (standard : Fd) : Prog Bool :=
  match fd with
  | none => pure true
  | some fd => Sys.dup2 fd standard

/-- The part of `execute` that runs with the redirections applied: a builtin, or
the `fork` of a child that calls `execvp` with this table. -/
def start (arglist : Nat) (argv : List Text) : Prog (Option Pid) := do
  if ← checkBuiltin argv then
    Sys.fflush
    pure none
  else
    match ← Sys.fork arglist argv with
    | none => do
      Sys.perror "fork".toList
      pure none
    | some pid => pure (some pid)

/-- The redirections of `execute` and what runs under them; a failed `dup2` skips the rest. -/
def redirectAndStart (arglist : Nat) (argv : List Text) (fdIn fdOut : Option Fd) :
    Prog (Option Pid) := do
  if ← redirect fdIn 0 then
    if ← redirect fdOut 1 then
      start arglist argv
    else do
      Sys.perror "dup2".toList
      pure none
  else do
    Sys.perror "dup2".toList
    pure none

/-- `execute` between the two `dup` and the label `exit_execute`. -/
def startSaved (savedIn savedOut : Option Fd) (arglist : Nat) (argv : List Text)
    (fdIn fdOut : Option Fd) : Prog (Option Pid) := do
  if savedIn.isSome && savedOut.isSome then
    redirectAndStart arglist argv fdIn fdOut
  else do
    Sys.perror "dup".toList
    pure none

/-- `execute(arglist, fd_in, fd_out)`: `argv` are the tokens from slot `arglist` up to
the next `NULL`; the result is the pid of the child, if one was forked. -/
def execute (arglist : Nat) (argv : List Text) (fdIn fdOut : Option Fd) :
    Prog (Option Pid) :=
  match argv with
  -- the early return closes neither descriptor
  | [] => pure none
  | cmd :: args => do
    Sys.fflush
    let savedIn ← Sys.dup 0
    let savedOut ← Sys.dup 1
    let pid ← startSaved savedIn savedOut arglist (cmd :: args) fdIn fdOut
    exitExecute savedIn savedOut fdIn fdOut
    pure pid

end Lsnp.Lab
