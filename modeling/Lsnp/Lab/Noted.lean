import Lsnp.Lab.IsExecutable
import Lsnp.Interaction.Marks

/-! The functions of `isexecutable.c` once more, with a mark at each thing they have done:
a command that was run, an operator that was acted on, a target that was opened, an error
that was printed. Without the marks they are the functions they have their names from. -/

namespace Lsnp.Lab.Noted

open Lsnp.Interaction Lsnp.Unix

/-- What has been done, by the slots of the token array. A command has the arguments from
slot `arglist` on; `failure` is an `&&` whose left side has failed. -/
inductive Mark where
  | command (arglist : Nat) (argv : List Text)
  | operator (slot : Nat)
  | target (slot : Nat)
  | complaint (text : Text)
  | failure (slot : Nat)
  deriving DecidableEq, Repr

abbrev Prog := Marked Call.Reply Mark

abbrev mark : Mark → Prog Unit := Program.mark

/-- `perror` -/
def perror (label : Text) : Prog Unit := do
  mark (.complaint label)
  (Sys.perror label).unmarked

/-- `fprintf(stderr, …)` -/
def fprintf (text : Text) : Prog Unit := do
  mark (.complaint text)
  (Sys.fprintf text).unmarked

/-- `check_builtin`; a builtin runs in the shell itself. -/
def checkBuiltin (arglist : Nat) (argv : List Text) : Prog Bool := do
  if isBuiltin argv then mark (.command arglist argv) else pure ()
  (Lab.checkBuiltin argv).unmarked

def start (arglist : Nat) (argv : List Text) : Prog (Option Pid) := do
  if ← checkBuiltin arglist argv then
    Sys.fflush.unmarked
    pure none
  else
    match ← (Sys.fork arglist argv).unmarked with
    | none => do
      perror "fork".toList
      pure none
    | some pid => do
      mark (.command arglist argv)
      pure (some pid)

def redirectAndStart (arglist : Nat) (argv : List Text) (fdIn fdOut : Option Fd) :
    Prog (Option Pid) := do
  if ← (redirect fdIn 0).unmarked then
    if ← (redirect fdOut 1).unmarked then
      start arglist argv
    else do
      perror "dup2".toList
      pure none
  else do
    perror "dup2".toList
    pure none

def startSaved (savedIn savedOut : Option Fd) (arglist : Nat) (argv : List Text)
    (fdIn fdOut : Option Fd) : Prog (Option Pid) := do
  if savedIn.isSome && savedOut.isSome then
    redirectAndStart arglist argv fdIn fdOut
  else do
    perror "dup".toList
    pure none

def execute (arglist : Nat) (argv : List Text) (fdIn fdOut : Option Fd) : Prog (Option Pid) :=
  match argv with
  | [] => pure none
  | cmd :: args => do
    Sys.fflush.unmarked
    let savedIn ← (Sys.dup 0).unmarked
    let savedOut ← (Sys.dup 1).unmarked
    let pid ← startSaved savedIn savedOut arglist (cmd :: args) fdIn fdOut
    (exitExecute savedIn savedOut fdIn fdOut).unmarked
    pure pid

def executeAt (interp : Interp) (fds : Fds) : Prog (Option Pid) :=
  match cStrings (interp.args.drop interp.cmdArglist) with
  | none => fault.unmarked
  | some argv => execute interp.cmdArglist argv fds.fdIn fds.fdOut

def opNone (interp : Interp) : Prog Flow := do
  let pid ← executeAt interp interp.fds
  pure <| .leave { interp with fds := .none, pids := interp.pids ++ pid.toList }

def openPipe (left right : Nat) (fdOut : Option Fd) : Prog (Option (Fd × Fd)) := do
  match ← (Sys.pipe left right).unmarked with
  | none => do
    perror "pipe".toList
    pure none
  | some (readEnd, writeEnd) => do
    let fdOut ← (takeWriteEnd fdOut writeEnd).unmarked
    pure (some (readEnd, fdOut))

/-- A `|` has been acted on when the loop goes on to the command behind it. -/
def opPipe (interp : Interp) (stop : Nat) : Prog Flow := do
  match ← openPipe interp.cmdArglist (stop + 1) interp.fds.fdOut with
  | none => pure (.leave interp)
  | some (readEnd, fdOut) => do
    match ← executeAt interp ⟨interp.fds.fdIn, some fdOut⟩ with
    | some pid =>
      mark (.operator stop)
      pure <| .again { interp with
        cmdArglist := stop + 1
        currPtr := stop + 1
        fds := ⟨some readEnd, none⟩
        pids := interp.pids ++ [pid] }
    | none => do
      (Sys.close readEnd).unmarked
      pure <| .leave { interp with fds := .none }

def opRedirect (direction : Direction) (interp : Interp) (stop : Nat) : Prog Flow :=
  match interp.args[stop + 1]? with
  | none => fault.unmarked
  | some none => do
    fprintf (syntaxError direction)
    pure (.leave interp)
  | some (some target) => do
    (closeIfOpen (interp.fds.get direction)).unmarked
    match ← (Sys.openFile direction target).unmarked with
    | none => do
      perror target
      pure <| .leave { interp with fds := interp.fds.set direction none }
    | some fd => do
      mark (.operator stop)
      mark (.target (stop + 1))
      pure <| .again { interp with
        fds := interp.fds.set direction (some fd)
        currPtr := stop + 2 }

def opAnd (interp : Interp) (stop : Nat) : Prog Flow := do
  let andPid ← executeAt interp interp.fds
  let lastStatus ← (waitAnd (interp.pids ++ andPid.toList) andPid).unmarked
  let interp := { interp with fds := .none, pids := [] }
  if andFailed lastStatus then
    mark (.failure stop)
    pure (.leave interp)
  else
    mark (.operator stop)
    pure <| .again { interp with cmdArglist := stop + 1, currPtr := stop + 1 }

/-- `ampersand` is the slot of the token `&`, if it is one of its own. -/
def opBackground (interp : Interp) (ampersand : Option Nat) : Prog Flow := do
  let bgPid ← executeAt interp interp.fds
  (announce bgPid).unmarked
  match ampersand with
  | none => pure ()
  | some slot => mark (.operator slot)
  pure <| .leave { interp with
    fds := .none, pids := interp.pids ++ bgPid.toList, background := true }

def round (interp : Interp) : Prog Flow :=
  match getOpType interp.args interp.currPtr with
  | none => fault.unmarked
  | some (op, args, stop) =>
    let cut := { interp with args := args }
    match op with
    | .none => opNone cut
    | .pipe => opPipe cut stop
    | .out => opRedirect .output cut stop
    | .input => opRedirect .input cut stop
    | .and => opAnd cut stop
    | .background => opBackground cut (interp.args[stop]?.join.map fun _ => stop)

def chainLoop : Nat → Interp → Prog Interp
  | 0, _ => fault.unmarked
  | rounds + 1, interp => do
    match ← round interp with
    | .again interp => chainLoop rounds interp
    | .leave interp => pure interp

def isExecutable (tokens : List Text) : Prog Unit := do
  let interp ← chainLoop (tokens.length + 1) (.initial tokens)
  (errorExit interp.background interp.pids interp.fds).unmarked

/-- What `main` does with the tokens of a line. -/
def dispatch (tokens : List Text) : Prog Unit :=
  if tokens.isEmpty then pure ()
  else do
    if ← checkBuiltin 0 tokens then pure () else isExecutable tokens

@[simp] theorem fault_unmarked_bind {α β : Type} (rest : α → Prog β) :
    (fault.unmarked : Prog α) >>= rest = fault.unmarked :=
  congrArg (Program.ask (Sum.inl Call.fault)) (funext nofun)

@[simp] theorem erase_perror (label : Text) : (perror label).erase = Sys.perror label := rfl

@[simp] theorem erase_fprintf (text : Text) : (fprintf text).erase = Sys.fprintf text := rfl

@[simp] theorem erase_checkBuiltin (arglist : Nat) (argv : List Text) :
    (checkBuiltin arglist argv).erase = Lab.checkBuiltin argv := by
  unfold checkBuiltin
  split <;> simp

@[simp] theorem erase_start (arglist : Nat) (argv : List Text) :
    (start arglist argv).erase = Lab.start arglist argv := by
  simp only [start, Lab.start, Program.erase_bind, erase_checkBuiltin]
  apply bind_congr
  rintro (_ | _)
  · simp only [Bool.false_eq_true, if_false, Program.erase_bind, Program.erase_unmarked]
    apply bind_congr
    rintro (_ | pid) <;> simp
  · simp

@[simp] theorem erase_redirectAndStart (arglist : Nat) (argv : List Text) (fdIn fdOut : Option Fd) :
    (redirectAndStart arglist argv fdIn fdOut).erase =
      Lab.redirectAndStart arglist argv fdIn fdOut := by
  simp only [redirectAndStart, Lab.redirectAndStart, Program.erase_bind, Program.erase_unmarked]
  apply bind_congr
  rintro (_ | _)
  · simp
  · simp only [if_true, Program.erase_bind, Program.erase_unmarked]
    apply bind_congr
    rintro (_ | _) <;> simp

@[simp] theorem erase_startSaved (savedIn savedOut : Option Fd) (arglist : Nat) (argv : List Text)
    (fdIn fdOut : Option Fd) : (startSaved savedIn savedOut arglist argv fdIn fdOut).erase =
      Lab.startSaved savedIn savedOut arglist argv fdIn fdOut := by
  unfold startSaved Lab.startSaved
  split <;> simp

@[simp] theorem erase_execute (arglist : Nat) (argv : List Text) (fdIn fdOut : Option Fd) :
    (execute arglist argv fdIn fdOut).erase = Lab.execute arglist argv fdIn fdOut := by
  cases argv with
  | nil => rfl
  | cons cmd args => simp [execute, Lab.execute]

@[simp] theorem erase_executeAt (interp : Interp) (fds : Fds) :
    (executeAt interp fds).erase = interp.execute fds := by
  unfold executeAt Interp.execute
  cases cStrings (interp.args.drop interp.cmdArglist) with
  | none => exact Program.erase_unmarked _
  | some argv => exact erase_execute _ argv _ _

@[simp] theorem erase_openPipe (left right : Nat) (fdOut : Option Fd) :
    (openPipe left right fdOut).erase = Lab.openPipe left right fdOut := by
  simp only [openPipe, Lab.openPipe, Program.erase_bind, Program.erase_unmarked]
  apply bind_congr
  rintro (_ | ends) <;> simp

theorem erase_opPipe (interp : Interp) (stop : Nat) :
    (opPipe interp stop).erase = Lab.opPipe interp stop := by
  simp only [opPipe, Lab.opPipe, Program.erase_bind, erase_openPipe]
  apply bind_congr
  rintro (_ | ⟨readEnd, fdOut⟩)
  · rfl
  · simp only [Program.erase_bind, erase_executeAt]
    apply bind_congr
    rintro (_ | pid) <;> simp

theorem erase_opRedirect (direction : Direction) (interp : Interp) (stop : Nat) :
    (opRedirect direction interp stop).erase = Lab.opRedirect direction interp stop := by
  unfold opRedirect Lab.opRedirect
  rcases interp.args[stop + 1]? with _ | _ | target
  · exact Program.erase_unmarked _
  · simp
  · simp only [Program.erase_bind, Program.erase_unmarked]
    apply bind_congr
    intro _
    apply bind_congr
    rintro (_ | fd) <;> simp

theorem erase_opAnd (interp : Interp) (stop : Nat) :
    (opAnd interp stop).erase = Lab.opAnd interp stop := by
  simp only [opAnd, Lab.opAnd, Program.erase_bind, erase_executeAt, Program.erase_unmarked]
  apply bind_congr
  intro andPid
  apply bind_congr
  intro lastStatus
  split <;> simp

theorem erase_opBackground (interp : Interp) (ampersand : Option Nat) :
    (opBackground interp ampersand).erase = Lab.opBackground interp := by
  cases ampersand <;> simp [opBackground, Lab.opBackground]

@[simp] theorem erase_round (interp : Interp) : (round interp).erase = Lab.round interp := by
  unfold round Lab.round
  rcases getOpType interp.args interp.currPtr with _ | ⟨op, args, stop⟩
  · exact Program.erase_unmarked _
  · cases op with
    | none => simp [opNone, Lab.opNone]
    | pipe => exact erase_opPipe _ stop
    | out => exact erase_opRedirect .output _ stop
    | input => exact erase_opRedirect .input _ stop
    | and => exact erase_opAnd _ stop
    | background => exact erase_opBackground _ _

@[simp] theorem erase_chainLoop (rounds : Nat) (interp : Interp) :
    (chainLoop rounds interp).erase = Lab.chainLoop rounds interp := by
  induction rounds generalizing interp with
  | zero => simp [chainLoop, Lab.chainLoop]
  | succ rounds ih =>
    simp only [chainLoop, Lab.chainLoop, Program.erase_bind, erase_round]
    apply bind_congr
    intro flow
    cases flow with
    | again interp => exact ih interp
    | leave interp => rfl

theorem erase_isExecutable (tokens : List Text) :
    (isExecutable tokens).erase = Lab.isExecutable tokens := by
  simp [isExecutable, Lab.isExecutable]

theorem erase_dispatch (tokens : List Text) : (dispatch tokens).erase = Lab.dispatch tokens := by
  unfold dispatch Lab.dispatch
  split
  · rfl
  · simp only [Program.erase_bind, erase_checkBuiltin]
    apply bind_congr
    rintro (_ | _)
    · simp [erase_isExecutable]
    · rfl

end Lsnp.Lab.Noted
