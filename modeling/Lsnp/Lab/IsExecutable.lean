import Lsnp.Lab.Execute

/-! `get_op_type` and the loop of `is_executable` (`isexecutable.c`). The token array
is cut in place: a slot is `none` once it holds `NULL`. -/

namespace Lsnp.Lab

open Lsnp.Interaction Lsnp.Unix

/-- `OP_NONE` … `OP_BACKGROUND` -/
inductive Op where
  | none
  | pipe
  | out
  | input
  | and
  | background
  deriving DecidableEq, Repr

/-- The comparisons of `get_op_type` with one token. -/
def operator (token : Text) : Op :=
  if token = "|".toList then .pipe
  else if token = ">".toList then .out
  else if token = "<".toList then .input
  else if token = "&&".toList then .and
  else if token = "&".toList then .background
  else .none

/-- The loop of `get_op_type`: the first operator and its slot, or the slot of the
terminating `NULL`; `none` when the array ends before one. -/
def scan : List (Option Text) → Nat → Option (Op × Nat)
  | [], _ => none
  | none :: _, slot => some (.none, slot)
  | some token :: rest, slot =>
    if operator token = .none then scan rest (slot + 1) else some (operator token, slot)

/-- `get_op_type(&args[start], &end)`: the operator, the array afterwards and `end`.
An operator's slot becomes `NULL`; a `&` at the end of the last token is cut off. -/
def getOpType (args : List (Option Text)) (start : Nat) :
    Option (Op × List (Option Text) × Nat) :=
  match scan (args.drop start) start with
  | none => none
  | some (.none, stop) =>
    if stop = start then some (.none, args, stop)
    else
      match args[stop - 1]? with
      | some (some last) =>
        match last.getLast? with
        | none => none
        | some character =>
          if character = '&' then
            some (.background, args.set (stop - 1) (some last.dropLast), stop)
          else some (.none, args, stop)
      | _ => none
  | some (op, stop) => some (op, args.set stop none, stop)

/-- `fd_in` and `fd_out`. -/
structure Fds where
  fdIn : Option Fd
  fdOut : Option Fd
  deriving DecidableEq, Repr

def Fds.get (fds : Fds) : Direction → Option Fd
  | .input => fds.fdIn
  | .output => fds.fdOut

def Fds.set (fds : Fds) (direction : Direction) (fd : Option Fd) : Fds :=
  match direction with
  | .input => { fds with fdIn := fd }
  | .output => { fds with fdOut := fd }

/-- `fd_in = -1; fd_out = -1;` -/
def Fds.none : Fds := ⟨.none, .none⟩

/-- The local variables of `is_executable`; pointers into the array are slot numbers. The list
`pids` has no bound, where the source has `pids[1024]` and makes no test: `within_bounds` keeps
each line that `main` reads below that. -/
structure Interp where
  args : List (Option Text)
  cmdArglist : Nat
  currPtr : Nat
  fds : Fds
  pids : List Pid
  background : Bool
  deriving DecidableEq, Repr

/-- How a round of the loop ends: `goto chain_loop`, or on to `error_exit`. -/
inductive Flow where
  | again (interp : Interp)
  | leave (interp : Interp)
  deriving DecidableEq, Repr

/-- The strings of an array of pointers up to its `NULL`. -/
def cStrings : List (Option Text) → Option (List Text)
  | [] => none
  | none :: _ => some []
  | some token :: rest => (cStrings rest).map (token :: ·)

/-- `execute(cmd_arglist, fd_in, fd_out)` -/
def Interp.execute (interp : Interp) (fds : Fds) : Prog (Option Pid) :=
  match cStrings (interp.args.drop interp.cmdArglist) with
  | none => fault
  | some argv => Lab.execute interp.cmdArglist argv fds.fdIn fds.fdOut

/-- Case `OP_NONE`. -/
def opNone (interp : Interp) : Prog Flow := do
  let pid ← interp.execute interp.fds
  pure <| .leave { interp with fds := .none, pids := interp.pids ++ pid.toList }

/-- `if (fd_out != -1) close(pipefd[1]); else fd_out = pipefd[1];` -/
def takeWriteEnd (fdOut : Option Fd) (writeEnd : Fd) : Prog Fd :=
  match fdOut with
  | none => pure writeEnd
  | some fd => do
    Sys.close writeEnd
    pure fd

/-- The `pipe` of `OP_PIPE`: its read end and the output of the command on its left. -/
def openPipe (left right : Nat) (fdOut : Option Fd) : Prog (Option (Fd × Fd)) := do
  match ← Sys.pipe left right with
  | none => do
    Sys.perror "pipe".toList
    pure none
  | some (readEnd, writeEnd) => do
    let fdOut ← takeWriteEnd fdOut writeEnd
    pure (some (readEnd, fdOut))

/-- Case `OP_PIPE`. -/
def opPipe (interp : Interp) (stop : Nat) : Prog Flow := do
  match ← openPipe interp.cmdArglist (stop + 1) interp.fds.fdOut with
  | none => pure (.leave interp)
  | some (readEnd, fdOut) => do
    match ← interp.execute ⟨interp.fds.fdIn, some fdOut⟩ with
    | some pid =>
      pure <| .again { interp with
        cmdArglist := stop + 1
        currPtr := stop + 1
        fds := ⟨some readEnd, none⟩
        pids := interp.pids ++ [pid] }
    | none => do
      Sys.close readEnd
      pure <| .leave { interp with fds := .none }

def syntaxError : Direction → Text
  | .input => "minishell: syntax error near '<'\n".toList
  | .output => "minishell: syntax error near '>'\n".toList

/-- The common body of the cases `OP_OUT` and `OP_IN`. -/
def opRedirect (direction : Direction) (interp : Interp) (stop : Nat) : Prog Flow :=
  match interp.args[stop + 1]? with
  | none => fault
  | some none => do
    Sys.fprintf (syntaxError direction)
    pure (.leave interp)
  | some (some target) => do
    closeIfOpen (interp.fds.get direction)
    match ← Sys.openFile direction target with
    | none => do
      Sys.perror target
      pure <| .leave { interp with fds := interp.fds.set direction none }
    | some fd =>
      pure <| .again { interp with
        fds := interp.fds.set direction (some fd)
        currPtr := stop + 2 }

/-- Case `OP_OUT`. -/
def opOut : Interp → Nat → Prog Flow := opRedirect .output

/-- Case `OP_IN`. -/
def opIn : Interp → Nat → Prog Flow := opRedirect .input

/-- The wait loop of `OP_AND`. A failing `waitpid` leaves `status` as it is; the
result is `last_status`. -/
def waitLoop (andPid : Option Pid) : List Pid → Nat → Nat → Prog Nat
  | [], _, lastStatus => pure lastStatus
  | pid :: pids, status, lastStatus => do
    let reply ← Sys.waitpid pid
    let status := reply.getD status
    waitLoop andPid pids status (if some pid = andPid then status else lastStatus)

/-- `int status; int last_status = 0;` and the wait loop. -/
def waitAnd (pids : List Pid) (andPid : Option Pid) : Prog Nat := do
  let status ← Sys.indeterminate
  waitLoop andPid pids status 0

/-- `WIFEXITED(last_status) && WEXITSTATUS(last_status) != 0` -/
def andFailed (lastStatus : Nat) : Bool :=
  wifexited lastStatus && wexitstatus lastStatus != 0

@[simp] theorem andFailed_exited (code : Fin 256) :
    andFailed (Termination.exited code).encode = (code.val != 0) := by
  simp [andFailed]

@[simp] theorem andFailed_signaled (signal : Fin 126) (core : Bool) :
    andFailed (Termination.signaled signal core).encode = false := by
  simp [andFailed]

@[simp] theorem andFailed_zero : andFailed 0 = false := by
  simp [andFailed, wexitstatus]

/-- Case `OP_AND`. -/
def opAnd (interp : Interp) (stop : Nat) : Prog Flow := do
  let andPid ← interp.execute interp.fds
  let lastStatus ← waitAnd (interp.pids ++ andPid.toList) andPid
  let interp := { interp with fds := .none, pids := [] }
  if andFailed lastStatus then
    pure (.leave interp)
  else
    pure <| .again { interp with cmdArglist := stop + 1, currPtr := stop + 1 }

def backgroundText (pid : Pid) : Text :=
  "[background] ".toList ++ Nat.toDigits 10 pid ++ ['\n']

/-- `if (bg_pid > 0) printf("[background] %d\n", bg_pid);` -/
def announce : Option Pid → Prog Unit
  | none => pure ()
  | some pid => Sys.printf (backgroundText pid)

/-- Case `OP_BACKGROUND`. -/
def opBackground (interp : Interp) : Prog Flow := do
  let bgPid ← interp.execute interp.fds
  announce bgPid
  pure <| .leave { interp with
    fds := .none, pids := interp.pids ++ bgPid.toList, background := true }

/-- One pass from the label `chain_loop` through the `switch`. -/
def round (interp : Interp) : Prog Flow :=
  match getOpType interp.args interp.currPtr with
  | none => fault
  | some (op, args, stop) =>
    let interp := { interp with args := args }
    match op with
    | .none => opNone interp
    | .pipe => opPipe interp stop
    | .out => opOut interp stop
    | .input => opIn interp stop
    | .and => opAnd interp stop
    | .background => opBackground interp

/-- The `goto chain_loop` loop, for at most so many rounds. -/
def chainLoop : Nat → Interp → Prog Interp
  | 0, _ => fault
  | rounds + 1, interp => do
    match ← round interp with
    | .again interp => chainLoop rounds interp
    | .leave interp => pure interp

/-- `for (…) waitpid(pids[i], NULL, 0);` -/
def waitEach : List Pid → Prog Unit
  | [] => pure ()
  | pid :: pids => do
    let _ ← Sys.waitpid pid
    waitEach pids

/-- `if (!background)` and the loop below it. -/
def waitForeground (background : Bool) (pids : List Pid) : Prog Unit :=
  if background then pure () else waitEach pids

/-- The code at the label `error_exit`, on the variables it reads. -/
def errorExit (background : Bool) (pids : List Pid) (fds : Fds) : Prog Unit := do
  waitForeground background pids
  closeIfOpen fds.fdIn
  closeIfOpen fds.fdOut

def Interp.initial (tokens : List Text) : Interp :=
  ⟨tokens.map some ++ [none], 0, 0, .none, [], false⟩

/-- `is_executable` on the `NULL`-terminated array of the tokens. Every round moves
`curr_ptr` on, so as many rounds as there are slots are enough. -/
def isExecutable (tokens : List Text) : Prog Unit := do
  let interp ← chainLoop (tokens.length + 1) (.initial tokens)
  errorExit interp.background interp.pids interp.fds

def prompt : Text := "minishell> ".toList

/-- What `main` does with the tokens of a line; an empty list stands for the null
pointer that `command_parse` returns for a blank line. -/
def dispatch (tokens : List Text) : Prog Unit :=
  if tokens.isEmpty then pure ()
  else do
    if ← checkBuiltin tokens then pure () else isExecutable tokens

/-- One iteration of the loop of `main`, once `fgets` and `command_parse` have
delivered the tokens of a line. -/
def runLine (tokens : List Text) : Prog Unit := do
  Sys.fgets
  dispatch tokens
  Sys.printf prompt

/-- The loop of `main` over the lines it is given. -/
def session : List (List Text) → Prog Unit
  | [] => pure ()
  | tokens :: lines => do
    runLine tokens
    session lines

end Lsnp.Lab
