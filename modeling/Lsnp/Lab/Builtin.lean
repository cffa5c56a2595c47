import Lsnp.Unix.Kernel

namespace Lsnp.Lab

open Lsnp.Interaction Lsnp.Unix

/-- The functions that `bt_array` points to. -/
inductive BtFunc where
  | hostname
  | cd
  | pwd
  deriving DecidableEq, Repr

/-- `hostname_func` -/
def hostnameFunc (_arg : List Text) : Prog Unit := do
  match ← Sys.uname with
  | none => Sys.perror "uname".toList
  | some nodename => Sys.printf ("hostname: ".toList ++ nodename ++ " \n".toList)

/-- `cd_func`: without an argument it changes to `HOME` and ignores the outcome. -/
def cdFunc (arg : List Text) : Prog Unit := do
  match arg[1]? with
  | none =>
    let homedir ← Sys.getenv
    let _ ← Sys.chdir homedir
  | some directory =>
    if ← Sys.chdir (some directory) then
      Sys.printf ("Success change directory: ".toList ++ directory ++ ['\n'])
    else
      Sys.perror "chdir".toList

/-- `pwd_func`: the outcome of `getcwd` is not checked. -/
def pwdFunc (_arg : List Text) : Prog Unit := do
  let (_, path) ← Sys.getcwd
  Sys.printf ("Pwd: ".toList ++ path)

def BtFunc.run : BtFunc → List Text → Prog Unit
  | .hostname => hostnameFunc
  | .cd => cdFunc
  | .pwd => pwdFunc

def btArray : List (Text × BtFunc) :=
  [("hostname".toList, .hostname), ("cd".toList, .cd), ("pwd".toList, .pwd)]

/-- The entry of `bt_array` for a command name. -/
def findBuiltin (cmd : Text) : Option BtFunc :=
  (btArray.find? fun entry => entry.1 == cmd).map Prod.snd

/-- `check_builtin`: run the builtin that `arglist[0]` names, if there is one. -/
def checkBuiltin : List Text → Prog Bool
  -- `strcmp` on a null pointer
  | [] => fault
  | cmd :: args =>
    match findBuiltin cmd with
    | some btFunc => do
      btFunc.run (cmd :: args)
      pure true
    | none => pure false

def isBuiltin (argv : List Text) : Bool :=
  match argv with
  | [] => false
  | cmd :: _ => (findBuiltin cmd).isSome

end Lsnp.Lab
