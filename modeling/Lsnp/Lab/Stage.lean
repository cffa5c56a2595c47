import Lsnp.Lab.IsExecutable

/-! The line as a list of stages. `parse` reads the tokens once, without running
anything; `runStages` runs the stages it returns. The `goto` loop on the array that it
cuts in place is the second applied to the first. -/

namespace Lsnp.Lab

open Lsnp.Interaction Lsnp.Unix

/-- What follows a stage; `missing` is a redirection at the end of the line, `blank`
an empty last word, in front of whose first character `get_op_type` reads. -/
inductive Ending where
  | none
  | pipe
  | and
  | background
  | missing (direction : Direction)
  | blank
  deriving DecidableEq, Repr

/-- One command of a line: the slot it starts at, its arguments, its redirections in
order, and the slot of the operator or `NULL` that ends it. -/
structure Stage where
  start : Nat
  argv : List Text
  redirections : List (Direction × Text)
  ending : Ending
  stop : Nat
  deriving DecidableEq, Repr

/-- A stage being read: words after its first redirection are no arguments any more,
and `last` is the last word since the scan was last restarted. -/
structure Draft where
  start : Nat
  argv : List Text
  redirected : Bool
  last : Option Text

namespace Draft

def fresh (start : Nat) : Draft := ⟨start, [], false, none⟩

def push (draft : Draft) (word : Text) : Draft :=
  { draft with
    argv := if draft.redirected then draft.argv else draft.argv ++ [word]
    last := some word }

def redirect (draft : Draft) : Draft := { draft with redirected := true, last := none }

def close (draft : Draft) (ending : Ending) (stop : Nat) : Stage :=
  ⟨draft.start, draft.argv, [], ending, stop⟩

/-- The end of the line; a `&` at the end of the last word is cut off. -/
def finish (draft : Draft) (stop : Nat) : Stage :=
  match draft.last with
  | none => draft.close .none stop
  | some word =>
    match word.getLast? with
    | none => draft.close .blank stop
    | some character =>
      if character = '&' then
        let argv := if draft.redirected then draft.argv else draft.argv.dropLast ++ [word.dropLast]
        { draft with argv := argv }.close .background stop
      else draft.close .none stop

end Draft

/-- Put a redirection in front of those of the first stage. -/
def addRedirection (redirection : Direction × Text) : List Stage → List Stage
  | [] => []
  | stage :: stages =>
    { stage with redirections := redirection :: stage.redirections } :: stages

/-- The stages of a line, up to a background operator or a missing target. -/
def parse (draft : Draft) (slot : Nat) : List Text → List Stage
  | [] => [draft.finish slot]
  | token :: rest =>
    match operator token, rest with
    | .none, rest => parse (draft.push token) (slot + 1) rest
    | .pipe, rest => draft.close .pipe slot :: parse (.fresh (slot + 1)) (slot + 1) rest
    | .and, rest => draft.close .and slot :: parse (.fresh (slot + 1)) (slot + 1) rest
    | .background, _ => [draft.close .background slot]
    | .out, [] => [draft.close (.missing .output) slot]
    | .out, target :: rest =>
      addRedirection (.output, target) (parse draft.redirect (slot + 2) rest)
    | .input, [] => [draft.close (.missing .input) slot]
    | .input, target :: rest =>
      addRedirection (.input, target) (parse draft.redirect (slot + 2) rest)

def stages (tokens : List Text) : List Stage := parse (.fresh 0) 0 tokens

/-- Open the redirections of a stage one after the other; `false` when one fails. -/
def openAll : List (Direction × Text) → Fds → Prog (Bool × Fds)
  | [], fds => pure (true, fds)
  | (direction, target) :: rest, fds => do
    closeIfOpen (fds.get direction)
    match ← Sys.openFile direction target with
    | none => do
      Sys.perror target
      pure (false, fds.set direction none)
    | some fd => openAll rest (fds.set direction (some fd))

/-- Run the command of a stage, then `next` with the descriptors and processes it leaves. -/
def runEnding (next : Fds → List Pid → Prog Unit) (stage : Stage) (fds : Fds)
    (pids : List Pid) : Prog Unit :=
  match stage.ending with
  | .none => do
    let pid ← execute stage.start stage.argv fds.fdIn fds.fdOut
    errorExit false (pids ++ pid.toList) .none
  | .pipe => do
    match ← openPipe stage.start (stage.stop + 1) fds.fdOut with
    | none => errorExit false pids fds
    | some (readEnd, fdOut) => do
      match ← execute stage.start stage.argv fds.fdIn (some fdOut) with
      | some pid => next ⟨some readEnd, none⟩ (pids ++ [pid])
      | none => do
        Sys.close readEnd
        errorExit false pids .none
  | .and => do
    let andPid ← execute stage.start stage.argv fds.fdIn fds.fdOut
    let lastStatus ← waitAnd (pids ++ andPid.toList) andPid
    if andFailed lastStatus then errorExit false [] .none
    else next .none []
  | .background => do
    let bgPid ← execute stage.start stage.argv fds.fdIn fds.fdOut
    announce bgPid
    errorExit true (pids ++ bgPid.toList) .none
  | .missing direction => do
    Sys.fprintf (syntaxError direction)
    errorExit false pids fds
  | .blank => fault

/-- Run the stages with the descriptors and the processes of the line so far. -/
def runStages : List Stage → Fds → List Pid → Prog Unit
  | [], fds, pids => errorExit false pids fds
  | stage :: rest, carried, pids => do
    let (opened, fds) ← openAll stage.redirections carried
    if opened then runEnding (runStages rest) stage fds pids
    else errorExit false pids fds

theorem parse_ne_nil (draft : Draft) (slot : Nat) (tokens : List Text) :
    parse draft slot tokens ≠ [] := by
  have added : ∀ redirection {stages : List Stage}, stages ≠ [] →
      addRedirection redirection stages ≠ [] := by
    intro redirection stages nonempty
    cases stages with
    | nil => exact (nonempty rfl).elim
    | cons stage stages => simp [addRedirection]
  fun_induction parse draft slot tokens with
  | case1 => simp
  | case2 => assumption
  | case3 => simp
  | case4 => simp
  | case5 => simp
  | case6 => simp
  | case7 _ _ _ _ _ _ ih => exact added _ ih
  | case8 => simp
  | case9 _ _ _ _ _ _ ih => exact added _ ih

theorem parse_full {draft : Draft} {slot : Nat} {tokens : List Text}
    (full : ∀ token ∈ tokens, token ≠ []) (last : draft.last ≠ some []) :
    ∀ stage ∈ parse draft slot tokens, stage.ending ≠ .blank := by
  have added : ∀ redirection {stages : List Stage},
      (∀ stage ∈ stages, stage.ending ≠ .blank) →
        ∀ stage ∈ addRedirection redirection stages, stage.ending ≠ .blank := by
    intro redirection stages held
    cases stages with
    | nil => nofun
    | cons stage stages => simpa [addRedirection] using held
  have rest : ∀ {token : Text} {tokens : List Text}, (∀ other ∈ token :: tokens, other ≠ []) →
      ∀ other ∈ tokens, other ≠ [] := fun held other member => held other (by simp [member])
  fun_induction parse draft slot tokens with
  | case1 draft slot =>
    simp only [List.mem_singleton, forall_eq, Draft.finish]
    rcases found : draft.last with - | word
    · nofun
    · have nonempty : word ≠ [] := fun empty => last (by rw [found, empty])
      simp only [List.getLast?_eq_some_getLast nonempty]
      split <;> nofun
  | case2 draft slot token tokens plain ih =>
    exact ih (rest full) (by simpa [Draft.push] using full token (by simp))
  | case3 draft slot token tokens found ih =>
    simpa [Draft.close] using ih (rest full) nofun
  | case4 draft slot token tokens found ih =>
    simpa [Draft.close] using ih (rest full) nofun
  | case5 => simp [Draft.close]
  | case6 => simp [Draft.close]
  | case7 draft slot token target tokens found ih => exact added _ (ih (rest (rest full)) nofun)
  | case8 => simp [Draft.close]
  | case9 draft slot token target tokens found ih => exact added _ (ih (rest (rest full)) nofun)

theorem stages_full {tokens : List Text} (full : ∀ token ∈ tokens, token ≠ []) :
    ∀ stage ∈ stages tokens, stage.ending ≠ .blank :=
  parse_full full nofun

def Placed : Nat → List Stage → Prop
  | _, [] => True
  | slot, stage :: rest => stage.start = slot ∧ slot ≤ stage.stop ∧ Placed (stage.stop + 1) rest

theorem placed_parse {draft : Draft} {slot : Nat} (tokens : List Text) (behind : draft.start ≤ slot) :
    Placed draft.start (parse draft slot tokens) := by
  have added : ∀ {redirection start} {stages : List Stage}, Placed start stages →
      Placed start (addRedirection redirection stages) := by
    intro redirection start stages placed
    cases stages with
    | nil => exact placed
    | cons stage stages => exact placed
  fun_induction parse draft slot tokens with
  | case1 draft slot =>
    have same : (draft.finish slot).start = draft.start ∧ (draft.finish slot).stop = slot := by
      unfold Draft.finish
      split
      · exact ⟨rfl, rfl⟩
      · split
        · exact ⟨rfl, rfl⟩
        · split <;> exact ⟨rfl, rfl⟩
    exact ⟨same.1, by rw [same.2]; exact behind, trivial⟩
  | case2 draft slot token rest plain ih => exact ih (Nat.le_succ_of_le behind)
  | case3 draft slot token rest found ih => exact ⟨rfl, behind, ih (Nat.le_refl _)⟩
  | case4 draft slot token rest found ih => exact ⟨rfl, behind, ih (Nat.le_refl _)⟩
  | case5 => exact ⟨rfl, behind, trivial⟩
  | case6 => exact ⟨rfl, behind, trivial⟩
  | case7 draft slot token target rest found ih =>
    exact added (ih (Nat.le_add_right_of_le behind))
  | case8 => exact ⟨rfl, behind, trivial⟩
  | case9 draft slot token target rest found ih =>
    exact added (ih (Nat.le_add_right_of_le behind))

theorem placed_stages (tokens : List Text) : Placed 0 (stages tokens) := by
  have behind : (Draft.fresh 0).start ≤ 0 := Nat.le_refl 0
  exact placed_parse tokens behind

theorem runStages_addRedirection (direction : Direction) (target : Text) {stages : List Stage}
    (nonempty : stages ≠ []) (fds : Fds) (pids : List Pid) :
    runStages (addRedirection (direction, target) stages) fds pids = (do
      closeIfOpen (fds.get direction)
      match ← Sys.openFile direction target with
      | none => do
        Sys.perror target
        errorExit false pids (fds.set direction none)
      | some fd => runStages stages (fds.set direction (some fd)) pids) := by
  cases stages with
  | nil => exact (nonempty rfl).elim
  | cons stage stages =>
    simp only [addRedirection, runStages, openAll, bind_assoc]
    refine bind_congr fun closed => ?_
    refine bind_congr fun fd => ?_
    cases fd with
    | none => simp only [bind_assoc, pure_bind, Bool.false_eq_true, if_false]
    | some fd => rfl

end Lsnp.Lab
