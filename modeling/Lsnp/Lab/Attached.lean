import Lsnp.Interaction.History
import Lsnp.Lab.Calls

namespace Lsnp.Lab

open Lsnp.Interaction Lsnp.Unix

/-- The calls that do something; the others write messages. -/
def Call.isEffect : Call → Prop
  | .printf _ | .fprintf _ | .perror _ => False
  | _ => True

/-- The same files are opened, the same commands run, with the same redirections, and the same
processes waited for, whatever the calls reply. -/
def SameEffect (first second : Prog Unit) : Prop :=
  Program.SameRequests Call.isEffect first second

def runsForked (argv : List Text) : Bool := !argv.isEmpty && !isBuiltin argv

/-- Behind these tokens, the first of which is in this slot, the loop opens the target of a
redirection, if no call fails. The line ends at a background operator, and at a pipe whose command
has no process. -/
def reachesTarget (draft : Draft) (slot : Nat) : List Text → Bool
  | [] => false
  | token :: rest =>
    match operator token, rest with
    | .none, rest => reachesTarget (draft.push token) (slot + 1) rest
    | .pipe, rest => runsForked draft.argv && reachesTarget (.fresh (slot + 1)) (slot + 1) rest
    | .and, rest => reachesTarget (.fresh (slot + 1)) (slot + 1) rest
    | .background, _ => false
    | .out, [] => true
    | .out, _ :: rest => reachesTarget draft.redirect (slot + 2) rest
    | .input, [] => true
    | .input, _ :: rest => reachesTarget draft.redirect (slot + 2) rest

theorem start_forked (arglist : Nat) (cmd : Text) (args : List Text) :
    (start arglist (cmd :: args)).gives fun pid => pid.isSome → isBuiltin (cmd :: args) = false := by
  cases found : findBuiltin cmd with
  | none =>
    simp only [start, checkBuiltin, found, pure_bind, Bool.false_eq_true, if_false]
    intro pid
    cases pid with
    | none => exact fun _ some => by cases some
    | some pid => exact fun _ => by simp [isBuiltin, found]
  | some btFunc =>
    simp only [start, checkBuiltin, found, bind_assoc, pure_bind, if_true, Program.gives_bind]
    exact Program.gives_of_forall _ fun _ _ some => by cases some

theorem startSaved_forked (savedIn savedOut : Option Fd) (arglist : Nat) (cmd : Text)
    (args : List Text) (fdIn fdOut : Option Fd) :
    (startSaved savedIn savedOut arglist (cmd :: args) fdIn fdOut).gives
      fun pid => pid.isSome → isBuiltin (cmd :: args) = false := by
  unfold startSaved redirectAndStart
  split
  · refine (Program.gives_bind _ _).mpr (Program.gives_of_forall _ fun first => ?_)
    cases first with
    | false => exact fun _ => nofun
    | true =>
      refine (Program.gives_bind _ _).mpr (Program.gives_of_forall _ fun second => ?_)
      cases second with
      | false => exact fun _ => nofun
      | true => exact start_forked arglist cmd args
  · exact fun _ => nofun

theorem execute_forked (arglist : Nat) (argv : List Text) (fdIn fdOut : Option Fd) :
    (execute arglist argv fdIn fdOut).gives fun pid => pid.isSome → runsForked argv = true := by
  cases argv with
  | nil => exact nofun
  | cons cmd args =>
    simp only [execute, Program.gives_request_bind]
    intro _ savedIn savedOut
    refine (Program.gives_bind _ _).mpr ?_
    refine Program.gives_mono (startSaved_forked savedIn savedOut arglist cmd args fdIn fdOut) ?_
    intro pid external
    refine (Program.gives_bind _ _).mpr (Program.gives_of_forall _ fun _ forked => ?_)
    simp [runsForked, external forked]

private theorem nonempty_reply {asked : Call} (possible : asked ≠ .fault) :
    Nonempty asked.Reply := by
  cases asked <;> first | exact (possible rfl).elim | infer_instance

private theorem comesTo_call (asked : Call) (reply : asked.Reply) {α : Type} {value : α}
    {rest : asked.Reply → Prog α} (comes : (rest reply).ComesTo value) :
    (Program.request asked >>= rest).ComesTo value :=
  (Program.comesTo_request asked reply).bind comes

theorem start_comesTo (arglist : Nat) {cmd : Text} {args : List Text}
    (external : isBuiltin (cmd :: args) = false) (pid : Pid) :
    (start arglist (cmd :: args)).ComesTo (some pid) := by
  have unknown : findBuiltin cmd = none := by simpa [isBuiltin] using external
  simp only [start, checkBuiltin, unknown, pure_bind, Bool.false_eq_true, if_false]
  exact comesTo_call (.fork arglist (cmd :: args)) (some pid) (Program.comesTo_pure _)

theorem redirect_comesTo (fd : Option Fd) (standard : Fd) : (redirect fd standard).ComesTo true := by
  cases fd with
  | none => exact Program.comesTo_pure true
  | some fd => exact comesTo_call (.dup2 fd standard) true (Program.comesTo_pure true)

theorem execute_comesTo (arglist : Nat) {argv : List Text} (external : runsForked argv = true)
    (fdIn fdOut : Option Fd) (pid : Pid) :
    (execute arglist argv fdIn fdOut).ComesTo (some pid) := by
  cases argv with
  | nil => cases external
  | cons cmd args =>
    have started : (startSaved (some 3) (some 4) arglist (cmd :: args) fdIn fdOut).ComesTo
        (some pid) :=
      (redirect_comesTo fdIn 0).bind <| (redirect_comesTo fdOut 1).bind <|
        start_comesTo arglist (by simpa [runsForked] using external) pid
    have faultless : (exitExecute (some 3) (some 4) fdIn fdOut).uses (· ≠ .fault) :=
      exitExecute_uses _ _ _ _ nofun nofun
    obtain ⟨_, exits⟩ := Program.exists_comesTo faultless fun _ => nonempty_reply
    unfold execute
    refine comesTo_call .fflush () ?_
    refine comesTo_call (.dup 0) (some 3) ?_
    refine comesTo_call (.dup 1) (some 4) ?_
    exact started.bind (exits.bind (Program.comesTo_pure _))

theorem waitLoop_comesTo (andPid : Option Pid) (pids : List Pid) :
    (waitLoop andPid pids 0 0).ComesTo 0 := by
  induction pids with
  | nil => exact Program.comesTo_pure 0
  | cons pid pids ih =>
    refine comesTo_call (.waitpid pid) none ?_
    simpa using ih

theorem waitAnd_comesTo (andPid : Option Pid) (pids : List Pid) : (waitAnd pids andPid).ComesTo 0 :=
  comesTo_call .indeterminate (0 : Nat) (waitLoop_comesTo andPid pids)

section

variable {word : Text}

private theorem operator_attached (some : word ≠ []) (plain : operator word = .none) :
    operator (word ++ ['&']) = .none := by
  have other : word ≠ ['&'] := by
    rintro rfl
    exact absurd plain (by decide)
  have last : ∀ {token : Text}, word ++ ['&'] = token → token.getLast? = .some '&' ∧
      token.dropLast = word := by
    rintro _ rfl
    simp
  unfold operator
  repeat rw [if_neg]
  all_goals intro same
  · exact some (last same).2.symm
  · exact other (last same).2.symm
  all_goals exact absurd (last same).1 (by decide)

private theorem parse_attached (some : word ≠ []) (plain : operator word = .none) (draft : Draft)
    (slot : Nat) : parse draft slot [word ++ ['&']] = parse draft slot [word, ['&']] := by
  have ampersand : operator ['&'] = .background := by decide
  simp only [parse, operator_attached some plain, plain, ampersand]
  unfold Draft.finish Draft.push Draft.close
  cases draft.redirected <;> simp

private theorem runStages_pipe_congr {draft : Draft} {slot : Nat} {first second : List Stage}
    (same : runsForked draft.argv = true → ∀ fds pids, runStages first fds pids = runStages second fds pids)
    (fds : Fds) (pids : List Pid) :
    runStages (draft.close .pipe slot :: first) fds pids =
      runStages (draft.close .pipe slot :: second) fds pids := by
  simp only [runStages, runEnding, Draft.close, openAll, pure_bind, if_true]
  refine bind_congr fun ends => ?_
  cases ends with
  | none => rfl
  | some ends =>
    refine Program.bind_congr_of_gives (execute_forked _ _ _ _) fun pid forked => ?_
    cases pid with
    | none => rfl
    | some pid => exact same (forked rfl) _ _

private theorem runStages_attached (some : word ≠ []) (plain : operator word = .none)
    {draft : Draft} {slot : Nat} {ts : List Text} (apart : reachesTarget draft slot ts = false)
    (fds : Fds) (pids : List Pid) :
    runStages (parse draft slot (ts ++ [word ++ ['&']])) fds pids =
      runStages (parse draft slot (ts ++ [word, ['&']])) fds pids := by
  fun_induction reachesTarget draft slot ts generalizing fds pids with
  | case1 => rw [List.nil_append, List.nil_append, parse_attached some plain]
  | case2 draft slot token rest read ih =>
    simp only [List.cons_append, parse, read]
    exact ih apart fds pids
  | case3 draft slot token rest found ih =>
    simp only [List.cons_append, parse, found]
    refine runStages_pipe_congr (fun forked => ?_) fds pids
    exact ih (by simpa [forked] using apart)
  | case4 draft slot token rest found ih =>
    simp only [List.cons_append, parse, found]
    simp only [runStages, runEnding, Draft.close, openAll, pure_bind, if_true, ih apart]
  | case5 draft slot token rest found => simp only [List.cons_append, parse, found]
  | case6 | case8 => cases apart
  | case7 draft slot token target rest found ih | case9 draft slot token target rest found ih =>
    simp only [List.cons_append, parse, found]
    rw [runStages_addRedirection _ _ (parse_ne_nil _ _ _),
      runStages_addRedirection _ _ (parse_ne_nil _ _ _)]
    simp only [ih apart]

private theorem closeIfOpen_comesTo (fd : Option Fd) : (closeIfOpen fd).ComesTo () := by
  cases fd with
  | none => exact Program.comesTo_pure ()
  | some fd => exact comesTo_call (.close fd) () (Program.comesTo_pure ())

private theorem openPipe_comesTo (left right : Nat) (fdOut : Option Fd) :
    ∃ ends, (openPipe left right fdOut).ComesTo (some ends) := by
  cases fdOut with
  | none => exact ⟨(3, 4), comesTo_call (.pipe left right) (some (3, 4)) (Program.comesTo_pure _)⟩
  | some fd =>
    exact ⟨(3, fd), comesTo_call (.pipe left right) (some (3, 4))
      (comesTo_call (.close 4) () (Program.comesTo_pure _))⟩

private theorem of_redirection {direction : Direction} {former latter : Text}
    {first second : List Stage} (someFirst : first ≠ []) (someSecond : second ≠ []) {fds : Fds}
    {pids : List Pid}
    (same : SameEffect (runStages (addRedirection (direction, former) first) fds pids)
      (runStages (addRedirection (direction, latter) second) fds pids)) :
    former = latter ∧ SameEffect (runStages first (fds.set direction (some 3)) pids)
      (runStages second (fds.set direction (some 3)) pids) := by
  rw [runStages_addRedirection _ _ someFirst, runStages_addRedirection _ _ someSecond] at same
  have opens := same.of_bind (closeIfOpen_comesTo _)
  have target := opens.head trivial
  simp only [Call.openFile.injEq, true_and] at target
  subst target
  have opened : (Sys.openFile direction latter).ComesTo (some 3) :=
    ⟨[⟨.openFile direction latter, some 3⟩], .reply (.here _)⟩
  exact ⟨rfl, opens.of_bind opened⟩

private theorem not_sameEffect {draft : Draft} {slot : Nat} {ts : List Text}
    (reaches : reachesTarget draft slot ts = true) (fds : Fds) (pids : List Pid) :
    ¬ SameEffect (runStages (parse draft slot (ts ++ [word ++ ['&']])) fds pids)
      (runStages (parse draft slot (ts ++ [word, ['&']])) fds pids) := by
  intro same
  fun_induction reachesTarget draft slot ts generalizing fds pids with
  | case1 => cases reaches
  | case2 draft slot token rest read ih =>
    simp only [List.cons_append, parse, read] at same
    exact ih reaches _ _ same
  | case3 draft slot token rest found ih =>
    obtain ⟨forked, reaches⟩ := Bool.and_eq_true_iff.mp reaches
    simp only [List.cons_append, parse, found] at same
    simp only [runStages, runEnding, Draft.close, openAll, pure_bind, if_true] at same
    obtain ⟨⟨readEnd, fdOut⟩, piped⟩ := openPipe_comesTo draft.start (slot + 1) fds.fdOut
    exact ih reaches _ _ ((same.of_bind piped).of_bind (execute_comesTo _ forked _ _ 1))
  | case4 draft slot token rest found ih =>
    simp only [List.cons_append, parse, found] at same
    simp only [runStages, runEnding, Draft.close, openAll, pure_bind, if_true] at same
    obtain ⟨andPid, ran⟩ := Program.exists_comesTo
      (execute_faultless draft.start draft.argv fds.fdIn fds.fdOut) fun _ => nonempty_reply
    exact ih reaches _ _ ((same.of_bind ran).of_bind (waitAnd_comesTo _ _))
  | case5 => cases reaches
  | case6 draft slot token found | case8 draft slot token found =>
    simp only [List.cons_append, List.nil_append, parse, found] at same
    have target := (of_redirection (parse_ne_nil _ _ []) (parse_ne_nil _ _ [['&']]) same).1
    simp at target
  | case7 draft slot token target rest found ih | case9 draft slot token target rest found ih =>
    simp only [List.cons_append, parse, found] at same
    exact ih reaches _ _ (of_redirection (parse_ne_nil _ _ _) (parse_ne_nil _ _ _) same).2

end

/-- A `&` that ends the last word means the same as one behind it exactly when the word is not
opened as the target of a redirection. -/
theorem attached_same_iff (ts : List Text) (word : Text) (some : word ≠ [])
    (plain : operator word = .none) :
    SameEffect (isExecutable (ts ++ [word ++ ['&']])) (isExecutable (ts ++ [word, ['&']])) ↔
      reachesTarget (.fresh 0) 0 ts = false := by
  rw [isExecutable_eq, isExecutable_eq]
  unfold stages
  constructor
  · intro same
    by_contra apart
    exact not_sameEffect (by simpa using apart) _ _ same
  · intro apart
    rw [runStages_attached some plain apart]
    exact .refl _

/-- The last argument of a command in a pipe. -/
theorem attached_same_iff_pipe :
    SameEffect (isExecutable (["ls".toList, "|".toList, "wc".toList] ++ ["-l".toList ++ ['&']]))
      (isExecutable (["ls".toList, "|".toList, "wc".toList] ++ ["-l".toList, ['&']])) :=
  (attached_same_iff ["ls".toList, "|".toList, "wc".toList] "-l".toList (by decide) (by decide)).mpr
    (by decide)

/-- In `ls > f&` the file `f&` is opened, and nothing runs in the background. -/
theorem not_attached_same :
    ¬ SameEffect (isExecutable (["ls".toList, ">".toList] ++ ["f".toList ++ ['&']]))
      (isExecutable (["ls".toList, ">".toList] ++ ["f".toList, ['&']])) := by
  intro same
  rw [isExecutable_eq, isExecutable_eq] at same
  have reaches : reachesTarget (.fresh 0) 0 ["ls".toList, ">".toList] = true := by decide
  exact not_sameEffect reaches _ _ same

end Lsnp.Lab
