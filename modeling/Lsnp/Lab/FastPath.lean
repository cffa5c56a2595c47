import Lsnp.Lab.Account

namespace Lsnp.Lab.Noted

open Lsnp.Interaction Lsnp.Unix

/-- A mark, and what standard output was when it was left. -/
structure Seen where
  mark : Mark
  output : Option File
  deriving DecidableEq, Repr

def note (shell : Shell) (mark : Mark) : Seen := ⟨mark, shell.table.file 1⟩

/-- The commands that were run, in order: their arguments, and where their output went. -/
def commands (seen : List Seen) : List (List Text × Option File) :=
  seen.filterMap fun entry =>
    match entry.mark with
    | .command _ argv => some (argv, entry.output)
    | _ => none

/-- A `dup` of an open descriptor succeeds where `saves` says so. -/
def DupsAs (saves : Shell → Fd → Bool) (shell : Shell) : (asked : Call) → asked.Reply → Prop
  | .dup fd, reply => reply.isSome = (saves shell fd && (shell.table.file fd).isSome)
  | _, _ => True

/-- The shell's process on its own, with `dup` decided and every other reply open. -/
def duplicating (saves : Shell → Fd → Bool) : Service Call Call.Reply Shell :=
  ⟨fun shell asked reply after => serve true shell asked reply after ∧
    DupsAs saves shell asked reply, fun _ _ => False⟩

abbrev observed (saves : Shell → Fd → Bool) :
    Service (Call ⊕ Mark) (MarkedReply Call.Reply Mark) (Shell × List Seen) :=
  (duplicating saves).marking note

/-- Whatever else the calls reply, what `main` does with the tokens and what
`is_executable` does with them run the same commands. -/
def Agrees (saves : Shell → Fd → Bool) (entry : Shell) (tokens : List Text) : Prop :=
  ∀ direct interpreted : Shell × List Seen,
    (observed saves).Reach (dispatch tokens, (entry, [])) (.done (), direct) →
    (observed saves).Reach (isExecutable tokens, (entry, [])) (.done (), interpreted) →
    commands interpreted.2 = commands direct.2

/-- No token is an operator, and the last one does not end in `&`. -/
def OneCommand (tokens : List Text) : Prop :=
  (∀ token ∈ tokens, operator token = .none) ∧
    ∀ word, tokens.getLast? = some word → word.getLast? ≠ some '&'

instance (tokens : List Text) : Decidable (OneCommand tokens) := by
  unfold OneCommand
  cases last : tokens.getLast? with
  | none => exact decidable_of_iff (∀ token ∈ tokens, operator token = .none) (by simp)
  | some word =>
    exact decidable_of_iff
      ((∀ token ∈ tokens, operator token = .none) ∧ word.getLast? ≠ some '&') (by simp)

/-- Both `dup` of `execute` succeed. -/
def BothSaved (saves : Shell → Fd → Bool) (entry : Shell) : Prop :=
  saves entry.flush 0 = true ∧ ∀ input, entry.table.file 0 = some input →
    saves (entry.flush.install entry.flush.table.lowest input) 1 = true

variable {saves : Shell → Fd → Bool} {entry : Shell} {tokens : List Text}

/-- A request, or a mark that is that of one of these commands if it is a command's. -/
def Commands (allowed : List Text → Prop) : Call ⊕ Mark → Prop
  | .inr (.command _ argv) => allowed argv
  | _ => True

private theorem unmarked_uses {α : Type} {allowed : List Text → Prop} (program : Unix.Prog α) :
    (program.unmarked : Prog α).uses (Commands allowed) :=
  Program.uses_unmarked (fun _ => trivial) program

private theorem mark_uses {allowed : List Text → Prop} {left : Mark}
    (permitted : Commands allowed (.inr left)) : (mark left).uses (Commands allowed) :=
  ⟨permitted, fun _ => trivial⟩

private theorem perror_uses {allowed : List Text → Prop} (label : Text) :
    (perror label).uses (Commands allowed) :=
  ⟨trivial, fun _ => unmarked_uses _⟩

theorem execute_uses {allowed : List Text → Prop} (arglist : Nat) {argv : List Text}
    (permitted : allowed argv) (fdIn fdOut : Option Fd) :
    (execute arglist argv fdIn fdOut).uses (Commands allowed) := by
  have complain : ∀ label, (do perror label; pure none : Prog (Option Pid)).uses
      (Commands allowed) :=
    fun label => Program.uses_bind (perror_uses label) fun _ => trivial
  have started : (start arglist argv).uses (Commands allowed) := by
    refine Program.uses_bind ?_ fun found => ?_
    · unfold checkBuiltin
      split
      · exact Program.uses_bind (mark_uses permitted) fun _ => unmarked_uses _
      · exact unmarked_uses _
    · split
      · exact Program.uses_bind (unmarked_uses _) fun _ => trivial
      · refine Program.uses_bind (unmarked_uses _) fun pid => ?_
        cases pid with
        | none => exact complain _
        | some pid => exact Program.uses_bind (mark_uses permitted) fun _ => trivial
  cases argv with
  | nil => trivial
  | cons cmd args =>
    refine Program.uses_bind (unmarked_uses _) fun _ => ?_
    refine Program.uses_bind (unmarked_uses _) fun savedIn => ?_
    refine Program.uses_bind (unmarked_uses _) fun savedOut => ?_
    refine Program.uses_bind ?_ fun pid => Program.uses_bind (unmarked_uses _) fun _ => trivial
    unfold startSaved
    split
    · refine Program.uses_bind (unmarked_uses _) fun inDone => ?_
      split
      · refine Program.uses_bind (unmarked_uses _) fun outDone => ?_
        split
        · exact started
        · exact complain _
      · exact complain _
    · exact complain _

private theorem background_uses {allowed : List Text → Prop} (stage : Stage)
    (permitted : allowed stage.argv) (fds : Fds) (pids : List Pid) (ampersand : Option Nat) :
    (background stage fds pids ampersand).uses (Commands allowed) := by
  refine Program.uses_bind (execute_uses _ permitted _ _) fun bgPid => ?_
  refine Program.uses_bind (unmarked_uses _) fun _ => ?_
  cases ampersand with
  | none => exact unmarked_uses _
  | some slot => exact Program.uses_bind (mark_uses trivial) fun _ => unmarked_uses _

private theorem redirected_uses {allowed : List Text → Prop} (direction : Direction) (slot : Nat)
    (target : Text) (fds : Fds) (pids : List Pid) {next : Fds → Prog Unit}
    (later : ∀ fds, (next fds).uses (Commands allowed)) :
    (redirected direction slot target fds pids next).uses (Commands allowed) := by
  refine Program.uses_bind (unmarked_uses _) fun _ => ?_
  refine Program.uses_bind (unmarked_uses _) fun fd => ?_
  cases fd with
  | none => exact Program.uses_bind (perror_uses _) fun _ => unmarked_uses _
  | some fd =>
    refine Program.uses_bind (mark_uses trivial) fun _ => ?_
    exact Program.uses_bind (mark_uses trivial) fun _ => later _

private theorem forall_addRedirection (property : List Text → Prop) (redirection : Direction × Text)
    (stages : List Stage) : (∀ stage ∈ addRedirection redirection stages, property stage.argv) ↔
      ∀ stage ∈ stages, property stage.argv := by
  cases stages with
  | nil => exact Iff.rfl
  | cons first rest => simp [addRedirection]

theorem course_uses (allowed : List Text → Prop) {draft : Draft} {slot : Nat}
    (permitted : ∀ stage ∈ parse draft slot tokens, allowed stage.argv) (fds : Fds)
    (pids : List Pid) : (course draft slot fds pids tokens).uses (Commands allowed) := by
  fun_induction parse draft slot tokens generalizing fds pids with
  | case1 draft slot =>
    have last := permitted (draft.finish slot) (by simp)
    unfold course lastCommand
    split
    · exact background_uses _ last fds pids none
    · exact unmarked_uses _
    · exact Program.uses_bind (execute_uses _ last _ _) fun _ => unmarked_uses _
  | case2 draft slot token rest plain ih =>
    simp only [course, plain]
    exact ih permitted fds pids
  | case3 draft slot token rest op ih =>
    obtain ⟨first, later⟩ := List.forall_mem_cons.mp permitted
    simp only [course, op]
    refine Program.uses_bind (Program.uses_bind (unmarked_uses _) fun ends => ?_) fun ends => ?_
    · cases ends with
      | none => exact Program.uses_bind (perror_uses _) fun _ => trivial
      | some ends => exact Program.uses_bind (unmarked_uses _) fun _ => trivial
    · cases ends with
      | none => exact unmarked_uses _
      | some ends =>
        refine Program.uses_bind (execute_uses _ first _ _) fun pid => ?_
        cases pid with
        | none => exact Program.uses_bind (unmarked_uses _) fun _ => unmarked_uses _
        | some pid => exact Program.uses_bind (mark_uses trivial) fun _ => ih later _ _
  | case4 draft slot token rest op ih =>
    obtain ⟨first, later⟩ := List.forall_mem_cons.mp permitted
    simp only [course, op]
    refine Program.uses_bind (execute_uses _ first _ _) fun andPid => ?_
    refine Program.uses_bind (unmarked_uses _) fun lastStatus => ?_
    split
    · exact Program.uses_bind (mark_uses trivial) fun _ => unmarked_uses _
    · exact Program.uses_bind (mark_uses trivial) fun _ => ih later _ _
  | case5 draft slot token rest op =>
    simp only [course, op]
    exact background_uses _ (permitted _ (by simp)) fds pids (some slot)
  | case6 draft slot token op | case8 draft slot token op =>
    simp only [course, op]
    exact Program.uses_bind (perror_uses _) fun _ => unmarked_uses _
  | case7 draft slot token target rest op ih | case9 draft slot token target rest op ih =>
    simp only [course, op]
    exact redirected_uses _ slot target fds pids fun fds =>
      ih ((forall_addRedirection allowed _ _).mp permitted) fds pids

private theorem length_argv {draft : Draft} {slot : Nat} (reading : Reading draft slot) :
    ∀ stage ∈ parse draft slot tokens,
      stage.argv.length ≤ draft.argv.length + tokens.length ∧
      ((∃ token ∈ tokens, operator token ≠ .none) →
        stage.argv.length < draft.argv.length + tokens.length) := by
  fun_induction parse draft slot tokens with
  | case1 draft slot => simp [reading.finish.2]
  | case2 draft slot token rest plain ih =>
    intro stage member
    obtain ⟨most, fewer⟩ := ih (reading.push token) stage member
    have length : (draft.push token).argv.length ≤ draft.argv.length + 1 := by
      unfold Draft.push
      split <;> simp
    simp only [List.length_cons, List.mem_cons, exists_eq_or_imp, plain, ne_eq, not_true_eq_false,
      false_or]
    constructor
    · omega
    · intro found
      have less := fewer found
      omega
  | case3 draft slot token rest op ih | case4 draft slot token rest op ih =>
    intro stage member
    simp only [List.length_cons]
    rcases List.mem_cons.mp member with rfl | later
    · simp only [Draft.close]
      omega
    · obtain ⟨most, -⟩ := ih (reading_fresh _) stage later
      simp only [Draft.fresh, List.length_nil] at most
      omega
  | case5 | case6 | case8 => simp [Draft.close]
  | case7 draft slot token target rest op ih | case9 draft slot token target rest op ih =>
    refine (forall_addRedirection (fun argv => argv.length ≤ _ ∧ (_ → argv.length < _)) _ _).mpr ?_
    intro stage member
    obtain ⟨most, -⟩ := ih (reading_redirect _ _) stage member
    simp only [Draft.redirect] at most
    simp only [List.length_cons]
    omega

private theorem argv_ne_tokens (full : ∀ token ∈ tokens, token ≠ []) (more : ¬ OneCommand tokens) :
    ∀ stage ∈ stages tokens, stage.argv ≠ tokens := by
  intro stage member same
  by_cases plain : ∀ token ∈ tokens, operator token = .none
  · obtain ⟨word, last, ends⟩ : ∃ word, tokens.getLast? = some word ∧ word.getLast? = some '&' := by
      by_contra never
      exact more ⟨plain, fun word last ends => never ⟨word, last, ends⟩⟩
    rw [stages, ← List.append_nil tokens, parse_words plain] at member
    obtain rfl := List.mem_singleton.mp member
    have filled : word ≠ [] := full word (List.mem_of_getLast? last)
    have cut : ((Draft.fresh 0).pushAll tokens).finish (0 + tokens.length) =
        ⟨0, tokens.dropLast ++ [word.dropLast], [], .background, 0 + tokens.length⟩ := by
      simp [Draft.finish, Draft.close, pushAll_last, pushAll_argv, pushAll_start,
        pushAll_redirected, Draft.fresh, last, ends]
    rw [cut] at same
    have shorter : word.dropLast = word := by
      have ends := congrArg List.getLast? same
      simpa [last] using ends
    have length := congrArg List.length shorter
    have positive := List.length_pos_of_ne_nil filled
    rw [List.length_dropLast] at length
    omega
  · have found : ∃ token ∈ tokens, operator token ≠ .none := by simpa using plain
    obtain ⟨-, fewer⟩ := length_argv (reading_fresh 0) stage member
    have less := fewer found
    rw [same] at less
    simp [Draft.fresh] at less

private theorem seen_unmarked {α : Type} {shell : Shell} {seen : List Seen}
    (program : Unix.Prog α) :
    (observed saves).Returns (fun _ after => after.2 = seen) program.unmarked (shell, seen) :=
  (Service.returns_true program shell).unmarked.returns fun _ _ same => same.2

private theorem checkBuiltin_seen (builtin : isBuiltin tokens = true) {shell : Shell}
    {seen : List Seen} :
    (observed saves).Returns
      (fun found after => found = true ∧
        after.2 = seen ++ [⟨.command 0 tokens, shell.table.file 1⟩])
      (checkBuiltin 0 tokens) (shell, seen) := by
  obtain - | ⟨cmd, args⟩ := tokens
  · cases builtin
  · obtain ⟨btFunc, found⟩ : ∃ btFunc, findBuiltin cmd = some btFunc :=
      Option.isSome_iff_exists.mp builtin
    simp only [checkBuiltin, builtin, if_true, Lab.checkBuiltin, found]
    refine ⟨trivial, fun _ noted served => ?_⟩
    obtain rfl := served
    have called : (duplicating saves).Returns (fun found _ => found = true)
        (do btFunc.run (cmd :: args); pure true) shell :=
      (Service.returns_true _ _).bind fun _ _ _ => rfl
    exact called.unmarked

theorem dispatch_commands (builtin : isBuiltin tokens = true) :
    (observed saves).Returns
      (fun _ after => commands after.2 = [(tokens, entry.table.file 1)])
      (dispatch tokens) (entry, []) := by
  have some : tokens.isEmpty = false := by
    cases tokens with
    | nil => cases builtin
    | cons token rest => rfl
  simp only [dispatch, some, Bool.false_eq_true, if_false]
  refine (checkBuiltin_seen builtin).bind fun found after ⟨same, seen⟩ => ?_
  subst same
  simp [seen, commands]

private theorem isExecutable_one (one : OneCommand tokens) (some : tokens ≠ [])
    (full : ∀ token ∈ tokens, token ≠ []) :
    isExecutable tokens = (do
      let pid ← execute 0 tokens none none
      (errorExit false pid.toList .none).unmarked) := by
  have words := course_words one.1 (.fresh 0) 0 .none [] []
  have finished : ((Draft.fresh 0).pushAll tokens).finish (0 + tokens.length) =
      ⟨0, tokens, [], .none, 0 + tokens.length⟩ := by
    have last : tokens.getLast? = Option.some (tokens.getLast some) :=
      List.getLast?_eq_some_getLast some
    have filled : tokens.getLast some ≠ [] := full _ (List.getLast_mem some)
    have ends : (tokens.getLast some).getLast filled ≠ '&' := by
      have ends := one.2 _ last
      rwa [List.getLast?_eq_some_getLast filled, ne_eq, Option.some.injEq] at ends
    simp [Draft.finish, Draft.close, pushAll_last, pushAll_argv, pushAll_start, Draft.fresh, last,
      List.getLast?_eq_some_getLast filled, ends]
  rw [isExecutable_course, ← List.append_nil tokens, words, course, finished]
  simp [lastCommand, Fds.none]

private theorem dup_decided (shell : Shell) {fd : Fd} {file : File}
    (found : shell.table.file fd = some file) :
    (duplicating saves).Returns
      (fun saved after => saved.isSome = saves shell fd ∧
        after = if saves shell fd then shell.install shell.table.lowest file else shell)
      (Sys.dup fd) shell := by
  refine ⟨trivial, fun saved after ⟨served, decided⟩ => ?_⟩
  have decided : saved.isSome = saves shell fd := by simpa [DupsAs, found] using decided
  refine ⟨decided, ?_⟩
  rcases served with ⟨rfl, rfl⟩ | ⟨file', found', rfl, rfl⟩
  · simp [← decided]
  · rw [found] at found'
    simp [← decided, Option.some.inj found']

private theorem unsaved_seen {savedIn savedOut : Option Fd} {argv : List Text} {shell : Shell}
    (failed : (savedIn.isSome && savedOut.isSome) = false) :
    (observed saves).Returns (fun _ after => commands after.2 = [])
      (do
        let pid ← startSaved savedIn savedOut 0 argv none none
        (exitExecute savedIn savedOut none none).unmarked
        pure pid) (shell, []) := by
  simp only [startSaved, failed, Bool.false_eq_true, if_false, bind_assoc, pure_bind]
  refine ⟨trivial, fun _ noted served => ?_⟩
  obtain rfl := served
  refine (seen_unmarked _).bind fun _ complained same => ?_
  refine (seen_unmarked _).bind fun _ after same' => ?_
  simp [same, same', commands, note]

private theorem saved_seen (builtin : isBuiltin tokens = true) {savedIn savedOut : Option Fd}
    {shell : Shell} (both : (savedIn.isSome && savedOut.isSome) = true) :
    (observed saves).Returns (fun _ after => commands after.2 = [(tokens, shell.table.file 1)])
      (do
        let pid ← startSaved savedIn savedOut 0 tokens none none
        (exitExecute savedIn savedOut none none).unmarked
        pure pid) (shell, []) := by
  simp only [startSaved, both, if_true, redirectAndStart, redirect, Program.unmarked_pure, pure_bind,
    start, bind_assoc]
  refine (checkBuiltin_seen builtin).bind fun found called known => ?_
  obtain ⟨same, seen⟩ := known
  subst same
  simp only [if_true, bind_assoc, pure_bind]
  refine (seen_unmarked _).bind fun _ flushed same => ?_
  refine (seen_unmarked _).bind fun _ after same' => ?_
  simp [same, same', seen, commands]

private theorem execute_seen (builtin : isBuiltin tokens = true)
    (standardIn : entry.table.file 0 ≠ none) (standardOut : entry.table.file 1 ≠ none) :
    (observed saves).Returns
      (fun _ after => (BothSaved saves entry → commands after.2 = [(tokens, entry.table.file 1)]) ∧
        (¬ BothSaved saves entry → commands after.2 = []))
      (execute 0 tokens none none) (entry, []) := by
  obtain ⟨input, inFound⟩ := Option.ne_none_iff_exists'.mp standardIn
  obtain ⟨output, outFound⟩ := Option.ne_none_iff_exists'.mp standardOut
  obtain - | ⟨cmd, args⟩ := tokens
  · cases builtin
  · have flushed : (duplicating saves).Returns (fun _ after => after = entry.flush)
        Sys.fflush entry := ⟨trivial, fun _ _ served => served.1⟩
    refine flushed.unmarked.bind ?_
    rintro _ ⟨flush, seen⟩ ⟨rfl, rfl⟩
    refine (dup_decided entry.flush inFound).unmarked.bind ?_
    rintro savedIn ⟨first, seen⟩ ⟨⟨inSaved, inDup⟩, rfl⟩
    change first = _ at inDup
    have outThere : first.table.file 1 = some output := by
      rw [inDup]
      split
      · exact (kept_saved outFound rfl rfl).1
      · exact outFound
    refine (dup_decided first outThere).unmarked.bind ?_
    rintro savedOut ⟨second, seen⟩ ⟨⟨outSaved, outDup⟩, rfl⟩
    change second = _ at outDup
    have both : (savedIn.isSome && savedOut.isSome) = true ↔ BothSaved saves entry := by
      rw [inSaved, outSaved, BothSaved]
      cases inSaves : saves entry.flush 0 with
      | false => simp
      | true =>
        rw [if_pos inSaves] at inDup
        simp [← inDup, inFound]
    by_cases saved : BothSaved saves entry
    · have same : second.table.file 1 = entry.table.file 1 := by
        have inSaves := saved.1
        have outSaves := saved.2 input inFound
        rw [if_pos inSaves] at inDup
        rw [← inDup] at outSaves
        rw [if_pos outSaves] at outDup
        exact (kept_saved outFound inDup outDup).2 1 standardOut
      refine (saved_seen builtin (both.mpr saved)).returns fun _ after ran => ?_
      exact ⟨fun _ => by rw [ran, same], fun never => (never saved).elim⟩
    · have failed : (savedIn.isSome && savedOut.isSome) = false :=
        Bool.eq_false_iff.mpr fun some => saved (both.mp some)
      refine (unsaved_seen failed).returns fun _ after ran => ?_
      exact ⟨fun here => (saved here).elim, fun _ => ran⟩

/-- `is_executable` on one command: the builtin is run unless a `dup` fails. -/
theorem isExecutable_commands (builtin : isBuiltin tokens = true) (one : OneCommand tokens)
    (full : ∀ token ∈ tokens, token ≠ []) (standardIn : entry.table.file 0 ≠ none)
    (standardOut : entry.table.file 1 ≠ none) :
    (observed saves).Returns
      (fun _ after => (BothSaved saves entry → commands after.2 = [(tokens, entry.table.file 1)]) ∧
        (¬ BothSaved saves entry → commands after.2 = []))
      (isExecutable tokens) (entry, []) := by
  have some : tokens ≠ [] := by
    rintro rfl
    cases builtin
  rw [isExecutable_one one some full]
  refine (execute_seen builtin standardIn standardOut).bind fun pid ran held => ?_
  exact (seen_unmarked _).returns fun _ after same => by rwa [same]

theorem isExecutable_other (more : ¬ OneCommand tokens) (full : ∀ token ∈ tokens, token ≠ []) :
    (observed saves).Returns
      (fun _ after => ∀ command ∈ commands after.2, command.1 ≠ tokens)
      (isExecutable tokens) (entry, []) := by
  rw [isExecutable_course]
  have others : ∀ stage ∈ parse (.fresh 0) 0 tokens, stage.argv ≠ tokens :=
    argv_ne_tokens full more
  have uses := course_uses (· ≠ tokens) others .none []
  refine (Service.returns_noted uses).returns fun _ after noted => ?_
  intro command member
  obtain ⟨left, here, same⟩ := List.mem_filterMap.mp member
  obtain ⟨at', mark, permitted, rfl⟩ := (noted left here).resolve_left (by simp)
  cases mark with
  | command arglist argv =>
    obtain rfl := Option.some.inj same
    exact permitted
  | operator | target | complaint | failure => cases same

/-- The obliging kernel, with `dup` as `saves` says. -/
private def answer (saves : Shell → Fd → Bool) (shell : Shell) (asked : Call) :
    Option (asked.Reply × Shell) :=
  match asked with
  | .dup fd => if saves shell fd then obliging.answer shell (.dup fd) else some (none, shell)
  | asked => obliging.answer shell asked

private theorem answer_permits (saves : Shell → Fd → Bool) :
    (duplicating saves).Permits (answer saves) := by
  intro shell asked reply after replied
  cases asked with
  | dup fd =>
    change (if saves shell fd then obliging.answer shell (.dup fd) else some (none, shell)) =
      some (reply, after) at replied
    split at replied
    · next saved =>
      refine ⟨obliging.permits _ _ _ _ replied, ?_⟩
      simp only [Policy.answer] at replied
      split at replied <;> next found => cases replied; simp [DupsAs, saved, found]
    · next failed =>
      cases replied
      exact ⟨.inl ⟨rfl, rfl⟩, by simp [DupsAs, failed]⟩
  | _ =>
    have granted : obliging.answer shell _ = some (reply, after) := replied
    exact ⟨obliging.permits _ _ _ _ granted, trivial⟩

private theorem answer_total (saves : Shell → Fd → Bool) (shell : Shell) (asked : Call)
    (possible : asked ≠ .fault) : ∃ reply after, answer saves shell asked = some (reply, after) := by
  cases asked with
  | dup fd =>
    change ∃ reply after, (if saves shell fd then obliging.answer shell (.dup fd)
      else some (none, shell)) = some (reply, after)
    split
    · exact obliging.total shell (.dup fd) nofun
    · exact ⟨_, _, rfl⟩
  | _ => exact obliging.total shell _ possible

private theorem exists_run (saves : Shell → Fd → Bool) (entry : Shell) {program : Prog Unit}
    (faultless : program.erase.uses (· ≠ .fault)) :
    ∃ after, (observed saves).Reach (program, (entry, [])) (.done (), after) := by
  obtain ⟨_, after, run, -⟩ := Service.exists_eval (Service.returns_true program.erase entry)
    faultless (answer_total saves)
  have reach := Service.reach_of_eval (answer_permits saves) run
  obtain ⟨seen, marked⟩ := reach.marked (fun _ _ moved => moved) []
  exact ⟨(after, seen), marked⟩

private theorem at_end {program : Prog Unit} {after : Shell × List Seen}
    {property : Shell × List Seen → Prop}
    (returns : (observed saves).Returns (fun _ after => property after) program (entry, []))
    (reach : (observed saves).Reach (program, (entry, [])) (.done (), after)) : property after :=
  returns.reach (Service.marking_quiet (fun _ _ moved => moved) _) reach

private theorem exists_runs (saves : Shell → Fd → Bool) (entry : Shell)
    (full : ∀ token ∈ tokens, token ≠ []) : ∃ direct interpreted,
      (observed saves).Reach (dispatch tokens, (entry, [])) (.done (), direct) ∧
      (observed saves).Reach (isExecutable tokens, (entry, [])) (.done (), interpreted) := by
  have dispatched : (dispatch tokens).erase.uses (· ≠ .fault) := by
    rw [erase_dispatch]
    exact dispatch_faultless full
  have executed : (isExecutable tokens).erase.uses (· ≠ .fault) := by
    rw [erase_isExecutable]
    exact isExecutable_faultless full
  obtain ⟨direct, first⟩ := exists_run saves entry dispatched
  obtain ⟨interpreted, second⟩ := exists_run saves entry executed
  exact ⟨direct, interpreted, first, second⟩

private theorem not_agrees_of_more (builtin : isBuiltin tokens = true)
    (full : ∀ token ∈ tokens, token ≠ []) (more : ¬ OneCommand tokens) :
    ¬ Agrees saves entry tokens := by
  intro agrees
  obtain ⟨direct, interpreted, first, second⟩ := exists_runs saves entry full
  have same := agrees direct interpreted first second
  rw [at_end (dispatch_commands builtin) first] at same
  have other := at_end (isExecutable_other more full) second
  rw [same] at other
  exact other _ (List.mem_singleton_self _) rfl

/-- The two ways run the same commands exactly when the line is one command, for which
`execute` can save the shell's input and output. -/
theorem agrees_iff (builtin : isBuiltin tokens = true) (full : ∀ token ∈ tokens, token ≠ [])
    (standardIn : entry.table.file 0 ≠ none) (standardOut : entry.table.file 1 ≠ none) :
    Agrees saves entry tokens ↔ OneCommand tokens ∧ BothSaved saves entry := by
  constructor
  · intro agrees
    have one : OneCommand tokens := by
      by_contra more
      exact not_agrees_of_more builtin full more agrees
    refine ⟨one, ?_⟩
    by_contra never
    obtain ⟨direct, interpreted, first, second⟩ := exists_runs saves entry full
    have same := agrees direct interpreted first second
    rw [at_end (dispatch_commands builtin) first] at same
    have executed := at_end (isExecutable_commands builtin one full standardIn standardOut) second
    rw [executed.2 never] at same
    cases same
  · rintro ⟨one, saved⟩ direct interpreted first second
    rw [at_end (dispatch_commands builtin) first]
    exact (at_end (isExecutable_commands builtin one full standardIn standardOut) second).1 saved

/-- `pwd` -/
theorem agrees_iff_pwd : isBuiltin ["pwd".toList] = true ∧
    Agrees (fun _ _ => true) .initial ["pwd".toList] :=
  ⟨by decide, (agrees_iff (by decide) (by decide) (by decide) (by decide)).mpr
    ⟨by decide, rfl, fun _ _ => rfl⟩⟩

/-- `pwd > f`: `main` hands `>` and `f` to `pwd` and opens no file. -/
theorem not_agrees_redirected :
    ¬ Agrees (fun _ _ => true) .initial ["pwd".toList, ['>'], ['f']] :=
  not_agrees_of_more (by decide) (by decide) (by decide)

end Lsnp.Lab.Noted
