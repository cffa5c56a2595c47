import Lsnp.Lab.Granted

namespace Lsnp.Lab

open Lsnp.Interaction Lsnp.Unix

/-- The value that `execute` returns. -/
def returned : Option Pid → Int
  | none => -1
  | some pid => pid

/-- `fd` is -1 or an open descriptor above the standard ones. -/
def Passed (shell : Shell) (fd : Option Fd) : Prop :=
  ∀ number ∈ fd, 2 < number ∧ shell.table.file number ≠ none

theorem passed_some {shell : Shell} {fd : Fd} :
    Passed shell (some fd) ↔ 2 < fd ∧ shell.table.file fd ≠ none := by
  simp [Passed]

/-- The process calls `execvp` with these arguments, standard input and standard output. -/
structure Launched (argv : List Text) (stdin stdout : Option File) (child : Fork) : Prop where
  argv : child.argv = argv
  stdin : child.table.file 0 = stdin
  stdout : child.table.file 1 = stdout

/-- The shell after a call of `execute`, next to the shell before it. -/
structure Untraced (shell : Shell) (argv : List Text) (fdIn fdOut : Option Fd) (pid : Option Pid)
    (after : Shell) : Prop where
  standardIn : after.table.file 0 = shell.table.file 0
  standardOut : after.table.file 1 = shell.table.file 1
  closed : ∀ fd, fd ∈ fdIn ∨ fd ∈ fdOut → after.table.file fd = none
  others : ∀ fd, fd ∉ fdIn → fd ∉ fdOut → after.table.file fd = shell.table.file fd
  positive : 0 < returned pid ↔ forks after.log ≠ forks shell.log
  forked : forks after.log ≠ forks shell.log → ∃ child,
    forks after.log = forks shell.log ++ [child] ∧
      Launched argv (shell.table.file (fdIn.getD 0)) (shell.table.file (fdOut.getD 1)) child

/-- At most one process has been forked, one of this kind, and its pid is the result. -/
def ForksOne (shell : Shell) (kind : Fork → Prop) (pid : Option Pid) (after : Shell) : Prop :=
  ∃ child : Option Fork, forks after.log = forks shell.log ++ child.toList ∧
    pid = child.map Fork.pid ∧ ∀ fork ∈ child, kind fork

theorem ForksOne.none {shell after : Shell} {kind : Fork → Prop}
    (same : forks after.log = forks shell.log) : ForksOne shell kind .none after :=
  ⟨.none, by simp [same], rfl, nofun⟩

/-- What else is done before and after does not matter if it forks nothing. -/
theorem ForksOne.mono {shell later before after : Shell} {kind other : Fork → Prop}
    {pid : Option Pid} (forksOne : ForksOne later kind pid before)
    (first : forks later.log = forks shell.log) (last : forks after.log = forks before.log)
    (weaken : ∀ child, kind child → other child) : ForksOne shell other pid after := by
  obtain ⟨child, log, named, launched⟩ := forksOne
  exact ⟨child, by rw [last, log, first], named, fun fork member => weaken fork (launched fork member)⟩

variable {theft : Bool} {shell : Shell}

theorem complain_forksOne (label : Text) {kind : Fork → Prop} :
    (kernel theft).Returns (ForksOne shell kind) (do Sys.perror label; pure none) shell := by
  refine ⟨trivial, fun _ after served => ?_⟩
  exact .none (serve_processes served id id).1

theorem builtin_quiet {α : Type} {program : Prog α} (uses : program.uses ofBuiltin) :
    (kernel theft).Returns
      (fun _ after => forks after.log = forks shell.log ∧ after.table = shell.table)
      program shell := by
  refine (Service.ensures_of_uses uses ?_ ⟨rfl, rfl⟩).returns fun _ _ same => same
  rintro state asked reply after builtin ⟨sameForks, sameTable⟩ served
  have idle : ¬ asked.isFork ∧ ¬ asked.isWaitpid ∧ ¬ asked.touchesTable := by
    cases asked <;> first | exact builtin.elim | exact ⟨id, id, id⟩
  exact ⟨(serve_processes served idle.1 idle.2.1).1.trans sameForks,
    (serve_table served idle.2.2).trans sameTable⟩

theorem start_forksOne (arglist : Nat) (cmd : Text) (args : List Text) :
    (kernel theft).Returns
      (ForksOne shell fun child => child.argv = cmd :: args ∧ child.table = shell.table)
      (start arglist (cmd :: args)) shell := by
  refine (builtin_quiet (checkBuiltin_uses cmd args)).bind fun found checked ⟨sameForks, sameTable⟩ => ?_
  cases found with
  | true =>
    refine ⟨trivial, fun _ flushed served => ?_⟩
    exact .none ((serve_processes served id id).1.trans sameForks)
  | false =>
    refine ⟨trivial, fun pid forked served => ?_⟩
    rcases served with ⟨rfl, rfl⟩ | ⟨pid, rfl, rfl⟩
    · exact (complain_forksOne _).returns fun _ _ none => none.mono sameForks rfl fun _ => id
    · refine ⟨some (checked.child pid arglist (cmd :: args)), by simp [sameForks], rfl, ?_⟩
      intro child member
      obtain rfl := Option.mem_some_iff.mp member
      exact ⟨rfl, sameTable⟩

/-- A redirection that succeeds replaces the standard descriptor and no other. -/
theorem redirect_files (fd : Option Fd) (standard : Fd) :
    (kernel theft).Returns
      (fun done after => forks after.log = forks shell.log ∧ (done = true →
        after.table.file = Function.update shell.table.file standard
          (shell.table.file (fd.getD standard))))
      (redirect fd standard) shell := by
  cases fd with
  | none => exact ⟨rfl, fun _ => by simp⟩
  | some fd =>
    refine ⟨trivial, fun done after served => ?_⟩
    rcases served with ⟨rfl, rfl⟩ | ⟨file, found, rfl, rfl⟩
    · exact ⟨rfl, nofun⟩
    · exact ⟨rfl, fun _ => by simp [Shell.install, found]⟩

theorem redirectAndStart_forksOne (arglist : Nat) (cmd : Text) (args : List Text)
    {fdIn fdOut : Option Fd} (apart : fdOut ≠ some 0) :
    (kernel theft).Returns
      (ForksOne shell (Launched (cmd :: args) (shell.table.file (fdIn.getD 0))
        (shell.table.file (fdOut.getD 1))))
      (redirectAndStart arglist (cmd :: args) fdIn fdOut) shell := by
  refine (redirect_files fdIn 0).bind fun inDone first ⟨firstForks, inPlace⟩ => ?_
  cases inDone with
  | false => exact (complain_forksOne _).returns fun _ _ none => none.mono firstForks rfl fun _ => id
  | true =>
    refine (redirect_files fdOut 1).bind fun outDone second ⟨secondForks, outPlace⟩ => ?_
    have sameForks := secondForks.trans firstForks
    cases outDone with
    | false => exact (complain_forksOne _).returns fun _ _ none => none.mono sameForks rfl fun _ => id
    | true =>
      -- the output is taken from where the input has not been put
      have source : fdOut.getD 1 ≠ 0 := by
        cases fdOut with
        | none => exact Nat.one_ne_zero
        | some fd => exact fun zero => apart (congrArg some zero)
      have stdin : second.table.file 0 = shell.table.file (fdIn.getD 0) := by
        rw [outPlace rfl, inPlace rfl, Function.update_of_ne Nat.zero_ne_one, Function.update_self]
      have stdout : second.table.file 1 = shell.table.file (fdOut.getD 1) := by
        rw [outPlace rfl, inPlace rfl, Function.update_self, Function.update_of_ne source]
      refine (start_forksOne arglist cmd args).returns fun pid after forksOne =>
        forksOne.mono sameForks rfl fun child ⟨argv, table⟩ => ?_
      exact ⟨argv, by rw [table, stdin], by rw [table, stdout]⟩

theorem release_of_mem {fd : Option Fd} {number : Fd} {files : Fd → Option File}
    (given : number ∈ fd) : release fd files number = none := by
  obtain rfl := Option.mem_def.mp given
  exact Function.update_self _ _ _

theorem release_of_not_mem {fd : Option Fd} {number : Fd} {files : Fd → Option File}
    (other : number ∉ fd) : release fd files number = files number := by
  cases fd with
  | none => rfl
  | some fd => exact Function.update_of_ne (fun same => other (congrArg some same.symm)) _ _

theorem Saved.kept {files after : Fd → Option File} {saved : Option Fd} {standard fd : Fd}
    (made : Saved files saved standard after) (used : files fd ≠ none) : after fd = files fd := by
  rcases made with ⟨-, rfl⟩ | ⟨copy, -, vacant, -, rfl⟩
  · rfl
  · exact Function.update_of_ne (fun same => used (by rw [same, vacant])) _ _

theorem Saved.used {files after : Fd → Option File} {saved : Option Fd} {standard : Fd}
    (made : Saved files saved standard after) (some : saved.isSome) : files standard ≠ none := by
  rcases made with ⟨rfl, -⟩ | ⟨copy, -, -, used, -⟩
  · cases some
  · exact used

/-- `execute` forks at most one process, whose standard input and output are `fd_in` and
`fd_out` as far as these are given, and otherwise those of the shell. -/
theorem execute_forksOne {arglist : Nat} {cmd : Text} {args : List Text} {fdIn fdOut : Option Fd}
    (standard : shell.table.file 0 ≠ none → shell.table.file 1 ≠ none)
    (givenIn : Passed shell fdIn) (givenOut : Passed shell fdOut) :
    (kernel theft).Returns
      (ForksOne shell (Launched (cmd :: args) (shell.table.file (fdIn.getD 0))
        (shell.table.file (fdOut.getD 1))))
      (execute arglist (cmd :: args) fdIn fdOut) shell := by
  have duplicates : ∀ fd (shell : Shell),
      (kernel theft).Returns (fun _ after => after.log = shell.log) (Sys.dup fd) shell :=
    fun fd shell => returns_log (Program.uses_request.mpr id)
  refine ⟨trivial, fun _ flushed served => ?_⟩
  have flushedForks := (serve_processes served id id).1
  obtain rfl : flushed = shell.flush := served
  refine ((dup_saved 0).and (duplicates 0 _)).bind fun savedIn first known => ?_
  obtain ⟨inSaved, firstLog⟩ := known
  refine ((dup_saved 1).and (duplicates 1 _)).bind fun savedOut second known => ?_
  obtain ⟨outSaved, secondLog⟩ := known
  have sameForks : forks second.log = forks shell.log := by
    rw [secondLog, firstLog, flushedForks]
  have started : (kernel theft).Returns
      (ForksOne shell (Launched (cmd :: args) (shell.table.file (fdIn.getD 0))
        (shell.table.file (fdOut.getD 1))))
      (startSaved savedIn savedOut arglist (cmd :: args) fdIn fdOut) second := by
    cases both : savedIn.isSome && savedOut.isSome with
    | false =>
      simp only [startSaved, both, Bool.false_eq_true, if_false]
      exact (complain_forksOne _).returns fun _ _ none => none.mono sameForks rfl fun _ => id
    | true =>
      obtain ⟨inSome, outSome⟩ := Bool.and_eq_true_iff.mp both
      have standardIn : shell.table.file 0 ≠ none := inSaved.used inSome
      have kept : ∀ fd, shell.table.file fd ≠ none → second.table.file fd = shell.table.file fd := by
        intro fd used
        have first := inSaved.kept used
        exact (outSaved.kept (first ▸ used)).trans first
      have source : ∀ fd standard, Passed shell fd → shell.table.file standard ≠ none →
          second.table.file (fd.getD standard) = shell.table.file (fd.getD standard) := by
        intro fd standard given used
        cases fd with
        | none => exact kept standard used
        | some fd => exact kept fd (given fd rfl).2
      have apart : fdOut ≠ some 0 := fun zero => absurd (givenOut 0 zero).1 (by decide)
      simp only [startSaved, both, if_true]
      refine (redirectAndStart_forksOne arglist cmd args apart).returns fun pid after forksOne =>
        forksOne.mono sameForks rfl fun child known => ?_
      obtain ⟨argv, stdin, stdout⟩ := known
      exact ⟨argv, stdin.trans (source fdIn 0 givenIn standardIn),
        stdout.trans (source fdOut 1 givenOut (standard standardIn))⟩
  refine started.bind fun pid between forksOne => ?_
  refine (exitExecute_log _ _ _ _).bind fun _ after sameLog => ?_
  exact forksOne.mono rfl (by rw [sameLog]) fun _ => id

/-- The result tells whether a process was forked, as long as pids are positive. -/
theorem ForksOne.positive {kind : Fork → Prop} {pid : Option Pid} {after : Shell}
    (forksOne : ForksOne shell kind pid after) (positive : ∀ child ∈ forks after.log, 0 < child.pid) :
    (0 < returned pid ↔ forks after.log ≠ forks shell.log) ∧
      (forks after.log ≠ forks shell.log →
        ∃ child, forks after.log = forks shell.log ++ [child] ∧ kind child) := by
  obtain ⟨child, log, rfl, launched⟩ := forksOne
  cases child with
  | none =>
    have same : forks after.log = forks shell.log := by simpa using log
    exact ⟨by simp [returned, same], fun forked => (forked same).elim⟩
  | some child =>
    rw [Option.toList_some] at log
    have forked : forks after.log ≠ forks shell.log := by simp [log]
    have above : 0 < child.pid := positive child (by simp [log])
    exact ⟨iff_of_true (Int.natCast_pos.mpr above) forked, fun _ => ⟨child, log, launched child rfl⟩⟩

/-- Whichever of its calls fail, `execute` leaves the descriptors of the shell as they were,
but for `fd_in` and `fd_out`, which are closed; its result is positive exactly when it has
forked a process, which then has them as its standard input and output. -/
theorem execute_untraced {arglist : Nat} {argv : List Text} {fdIn fdOut : Option Fd}
    {pid : Option Pid} {after : Shell} (nonempty : argv ≠ [])
    (standard : shell.table.file 0 ≠ none → shell.table.file 1 ≠ none)
    (givenIn : Passed shell fdIn) (givenOut : Passed shell fdOut)
    (reach : (kernel theft).Reach (execute arglist argv fdIn fdOut, shell) (.done pid, after))
    (positive : ∀ child ∈ forks after.log, 0 < child.pid) :
    Untraced shell argv fdIn fdOut pid after := by
  obtain ⟨cmd, args, rfl⟩ := List.exists_cons_of_ne_nil nonempty
  have table : after.table.file = release fdOut (release fdIn shell.table.file) :=
    (execute_table standard).reach (kernel_quiet theft) reach
  have forksOne := (execute_forksOne standard givenIn givenOut).reach (kernel_quiet theft) reach
  have others : ∀ fd, fd ∉ fdIn → fd ∉ fdOut → after.table.file fd = shell.table.file fd := by
    intro fd notIn notOut
    rw [table, release_of_not_mem notOut, release_of_not_mem notIn]
  have low : ∀ fd : Fd, fd ≤ 2 → after.table.file fd = shell.table.file fd := by
    intro fd low
    exact others fd (fun given => absurd (givenIn fd given).1 (Nat.not_lt.mpr low))
      fun given => absurd (givenOut fd given).1 (Nat.not_lt.mpr low)
  obtain ⟨result, forked⟩ := forksOne.positive positive
  refine ⟨low 0 (by decide), low 1 (by decide), fun fd given => ?_, others, result, forked⟩
  rw [table]
  rcases given with given | given
  · by_cases also : fd ∈ fdOut
    · exact release_of_mem also
    · rw [release_of_not_mem also, release_of_mem given]
  · exact release_of_mem given

/-- A command between a file and a pipe. -/
theorem execute_untraced_between : ∃ shell after : Shell,
    shell.table = ⟨[some (.inherited 0), some (.inherited 1), some (.inherited 2),
      some (.regular 0 "f".toList .input), some (.pipeWrite 0)]⟩ ∧
      Untraced shell ["wc".toList] (some 3) (some 4) (some 1) after := by
  let shell : Shell := ⟨⟨[some (.inherited 0), some (.inherited 1), some (.inherited 2),
    some (.regular 0 "f".toList .input), some (.pipeWrite 0)]⟩, 1, [⟨1, 0, 2⟩], 1, [], []⟩
  -- Evaluated as one closed term: the shell after the call is large to write out.
  have ends : ((execute 0 ["wc".toList] (some 3) (some 4)).eval obliging.answer shell).map
      (fun result : Option Pid × Shell =>
        (result.1, decide (∀ child ∈ forks result.2.log, 0 < child.pid))) =
      some (some 1, true) := by
    decide +kernel
  obtain ⟨⟨pid, after⟩, run, seen⟩ := Option.map_eq_some_iff.mp ends
  obtain ⟨rfl, positive⟩ := Prod.mk.inj seen
  have reach := Service.reach_of_eval obliging.permits run
  exact ⟨shell, after, rfl, execute_untraced (List.cons_ne_nil _ _) (fun _ => by decide)
    (passed_some.mpr (by decide)) (passed_some.mpr (by decide)) reach
    (of_decide_eq_true positive)⟩

end Lsnp.Lab
