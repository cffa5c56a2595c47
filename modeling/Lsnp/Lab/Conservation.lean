import Lsnp.Lab.Granted

namespace Lsnp.Lab

open Lsnp.Interaction Lsnp.Unix

/-- An empty command is handed a descriptor, which `execute` then does not close. -/
def Stage.leaks (piped : Bool) (stage : Stage) : Bool :=
  stage.argv.isEmpty &&
    match stage.ending with
    | .pipe => true
    | .none | .and | .background => piped || !stage.redirections.isEmpty
    | .missing _ | .blank => false

def Stage.passes (stage : Stage) : Bool :=
  match stage.ending with
  | .pipe => !stage.argv.isEmpty && !isBuiltin stage.argv
  | .and => true
  | _ => false

/-- No stage that the loop can reach leaks; `piped` says that a `|` is in front. -/
def tidy : Bool → List Stage → Bool
  | _, [] => true
  | piped, stage :: rest =>
    !stage.leaks piped && (!stage.passes || tidy (stage.ending = .pipe) rest)

/-- What is open in the first table is open in the second. -/
def Extends (base wider : Fd → Option File) : Prop := ∀ fd, base fd ≠ none → wider fd = base fd

/-- The shell is left with what was open before, and with no more if `clean`. -/
def Leaves (base : Fd → Option File) (clean : Prop) (after : Shell) : Prop :=
  ∃ wider, Extends base wider ∧ (clean → wider = base) ∧ Carries wider .none after.table

theorem Extends.trans {first second third : Fd → Option File} (front : Extends first second)
    (back : Extends second third) : Extends first third := fun fd used =>
  (back fd (by rw [front fd used]; exact used)).trans (front fd used)

theorem Leaves.after {base wider : Fd → Option File} {clean cleaner : Prop} {after : Shell}
    (leaves : Leaves wider cleaner after) (extended : Extends base wider)
    (same : clean → wider = base) (weaker : clean → cleaner) : Leaves base clean after := by
  obtain ⟨widest, more, equal, held⟩ := leaves
  exact ⟨widest, extended.trans more, fun given => (equal (weaker given)).trans (same given), held⟩

variable {theft : Bool} {shell : Shell} {base : Fd → Option File} {carried : Carried}

theorem carries_none {table : FdTable File} (standardIn : table.file 0 ≠ none)
    (standardOut : table.file 1 ≠ none) : Carries table.file .none table where
  standardIn := standardIn
  standardOut := standardOut
  files := rfl
  free := by
    intro direction held found
    cases direction <;> cases found
  apart := nofun

theorem Carries.rebase {table : FdTable File} (carries : Carries base carried table) :
    Carries table.file .none table :=
  carries_none (by rw [carries.file_of_base carries.standardIn]; exact carries.standardIn)
    (by rw [carries.file_of_base carries.standardOut]; exact carries.standardOut)

theorem execute_leaves {arglist : Nat} {argv : List Text}
    (carries : Carries base carried shell.table) :
    (kernel theft).Returns (fun _ after => Leaves base (argv = [] → carried = .none) after)
      (execute arglist argv carried.fds.fdIn carried.fds.fdOut) shell := by
  cases argv with
  | nil =>
    refine ⟨shell.table.file, fun _ => carries.file_of_base, fun idle => ?_, carries.rebase⟩
    obtain rfl := idle rfl
    exact carries.files
  | cons cmd args =>
    exact (execute_carries carries).returns fun _ after held =>
      ⟨base, fun _ _ => rfl, fun _ => rfl, held⟩

/-- The command on the left of a pipe leaves the read end for the one on the right. -/
theorem execute_left_leaves {arglist : Nat} {argv : List Text} {readEnd : Fd} {file : File}
    {out : Fd × File} (unused : base readEnd = none) (apart : readEnd ≠ 0 ∧ readEnd ≠ 1)
    (carries : Carries (Function.update base readEnd (some file)) (carried.set .output (some out))
      shell.table) :
    (kernel theft).Returns
      (fun _ after => ∃ wider, Extends base wider ∧ (argv ≠ [] → wider = base) ∧
        Carries wider ⟨some (readEnd, file), none⟩ after.table)
      (execute arglist argv carried.fds.fdIn (some out.1)) shell := by
  refine (execute_leaves carries).returns fun _ after ⟨wider, extended, same, cleared⟩ => ?_
  have found : wider readEnd = some file := by
    simpa using extended readEnd (by simp)
  refine ⟨Function.update wider readEnd none, ?_, ?_, cleared.carry found apart⟩
  · intro fd used
    have other : fd ≠ readEnd := by
      rintro rfl
      exact used unused
    have kept := extended fd (by rw [Function.update_of_ne other]; exact used)
    rw [Function.update_of_ne other, kept, Function.update_of_ne other]
  · intro nonempty
    simp [same fun empty => (nonempty empty).elim, ← unused]

theorem announce_table (bgPid : Option Pid) :
    (kernel theft).Returns (fun _ after => after.table = shell.table) (announce bgPid) shell := by
  cases bgPid with
  | none => rfl
  | some pid =>
    refine ⟨trivial, fun _ after served => ?_⟩
    obtain rfl : after = shell.print (backgroundText pid) := served
    rfl

theorem errorExit_leaves {background : Bool} {pids : List Pid} {clean : Prop}
    (carries : Carries base carried shell.table) :
    (kernel theft).Returns (fun _ after => Leaves base clean after)
      (errorExit background pids carried.fds) shell :=
  (errorExit_carries carries).returns fun _ _ held => ⟨base, fun _ _ => rfl, fun _ => rfl, held⟩

private theorem idle_of_tidy {stage : Stage} {serial : Nat} {final : Carried}
    (tight : stage.leaks carried.input.isSome = false)
    (ending : stage.ending = .none ∨ stage.ending = .and ∨ stage.ending = .background)
    (vacant : carried.output = none)
    (redirected : Redirected serial stage.redirections carried true final)
    (empty : stage.argv = []) : final = .none := by
  have idle : carried.input.isSome = false ∧ stage.redirections = [] := by
    rcases ending with ending | ending | ending <;>
      simpa [Stage.leaks, empty, ending] using tight
  rw [idle.2] at redirected
  cases redirected
  obtain ⟨input, output⟩ := carried
  simp only [Option.isSome_eq_false_iff, Option.isNone_iff_eq_none] at idle vacant
  rw [idle.1, vacant]
  rfl

/-- A line leaves everything open that was, and nothing else if it is tidy. -/
theorem runStages_leaves {stages : List Stage} {pids : List Pid}
    (carries : Carries base carried shell.table) (vacant : carried.output = none) :
    (kernel theft).Returns
      (fun _ after => Leaves base (tidy carried.input.isSome stages = true) after)
      (runStages stages carried.fds pids) shell := by
  induction stages generalizing base carried shell pids with
  | nil => exact errorExit_leaves carries
  | cons stage rest ih =>
    refine (openAll_carries carries).bind
      fun result middle known => ?_
    obtain ⟨opened, fds⟩ := result
    obtain ⟨final, same, held, redirected⟩ := known
    subst same
    cases opened with
    | false => exact errorExit_leaves held
    | true =>
      have tight : tidy carried.input.isSome (stage :: rest) = true →
          stage.leaks carried.input.isSome = false ∧
            (stage.passes = true → tidy (stage.ending = .pipe) rest = true) := by
        intro neat
        simpa [tidy, imp_iff_not_or] using neat
      simp only [if_true, runEnding]
      cases ending : stage.ending with
      | none =>
        refine (execute_leaves held).bind fun pid after known => ?_
        obtain ⟨wider, extended, same, cleared⟩ := known
        refine (errorExit_leaves cleared).returns fun _ last leaves =>
          leaves.after extended (fun neat => same ?_) fun _ => trivial
        exact idle_of_tidy (tight neat).1 (.inl ending) vacant redirected
      | pipe =>
        refine (openPipe_carries _ _ held).bind fun ends piped made => ?_
        rcases made with ⟨rfl, kept⟩ | ⟨readEnd, writeEnd, rfl, unused, both⟩
        · exact errorExit_leaves kept
        · refine ((execute_left_leaves unused (held.apart_of_unused unused) both).and
            (execute_external _ _ _ _)).bind
            fun pid after known => ?_
          obtain ⟨⟨wider, extended, same, read⟩, external⟩ := known
          have neat : tidy carried.input.isSome (stage :: rest) = true → wider = base := by
            intro neat
            refine same fun empty => ?_
            simpa [Stage.leaks, ending, empty] using (tight neat).1
          cases pid with
          | none =>
            refine ⟨trivial, fun _ closed served => ?_⟩
            obtain rfl : closed = after.drop readEnd := served
            have cleared : Carries wider .none (after.drop readEnd).table :=
              read.closed .input (by simp [Shell.drop, Carried.fds, Fds.get, release])
            exact (errorExit_leaves cleared).returns fun _ last leaves =>
              leaves.after extended neat fun _ => trivial
          | some pid =>
            refine (ih read rfl).returns fun _ last leaves =>
              leaves.after extended neat fun all => ?_
            obtain ⟨nonempty, external⟩ := external (Option.some_ne_none pid)
            have later := (tight all).2 (by simp [Stage.passes, ending, nonempty, external])
            rwa [ending] at later
      | and =>
        refine (execute_leaves held).bind fun andPid after known => ?_
        obtain ⟨wider, extended, same, cleared⟩ := known
        refine (waitAnd_table _ _).bind fun lastStatus waited unchanged => ?_
        have cleared := cleared.congr (congrArg FdTable.file unchanged)
        have neat : tidy carried.input.isSome (stage :: rest) = true → wider = base := fun neat =>
          same (idle_of_tidy (tight neat).1 (.inr (.inl ending)) vacant redirected)
        split
        · exact (errorExit_leaves cleared).returns fun _ last leaves =>
            leaves.after extended neat fun _ => trivial
        · refine (ih cleared rfl).returns fun _ last leaves => leaves.after extended neat fun all => ?_
          have later := (tight all).2 (by simp [Stage.passes, ending])
          rwa [ending] at later
      | background =>
        refine (execute_leaves held).bind fun bgPid after known => ?_
        obtain ⟨wider, extended, same, cleared⟩ := known
        refine (announce_table bgPid).bind fun _ told unchanged => ?_
        refine (errorExit_leaves (cleared.congr (congrArg FdTable.file unchanged))).returns
          fun _ last leaves => leaves.after extended (fun neat => same ?_) fun _ => trivial
        exact idle_of_tidy (tight neat).1 (.inr (.inr ending)) vacant redirected
      | missing direction =>
        refine ⟨trivial, fun _ after served => ?_⟩
        obtain rfl : after = middle.note (.complained (syntaxError direction)) := served
        exact errorExit_leaves held
      | blank => exact ⟨trivial, fun reply => reply.elim⟩

def Leaked (base : Fd → Option File) (after : Shell) : Prop :=
  ∃ fd, base fd = none ∧ after.table.file fd ≠ none

theorem Leaves.leaked {wider : Fd → Option File} {clean : Prop} {after : Shell} {fd : Fd}
    (leaves : Leaves wider clean after) (unused : base fd = none) (used : wider fd ≠ none) :
    Leaked base after := by
  obtain ⟨widest, extended, -, held⟩ := leaves
  refine ⟨fd, unused, ?_⟩
  rw [held.files]
  change widest fd ≠ none
  rw [extended fd used]
  exact used

private theorem held_of_redirected {serial : Nat} {redirections : List (Direction × Text)}
    {final : Carried} (redirected : Redirected serial redirections carried true final)
    (handed : carried.input.isSome ∨ redirections ≠ []) :
    ∃ direction held, final.get direction = some held := by
  have some_of_held : ∀ direction, final.get direction ≠ none →
      ∃ direction held, final.get direction = some held := fun direction found =>
    ⟨direction, Option.ne_none_iff_exists'.mp found⟩
  rcases handed with piped | redirects
  · exact some_of_held .input (redirected.held (.inl (Option.isSome_iff_ne_none.mp piped)))
  · obtain ⟨⟨direction, target⟩, rest, rfl⟩ := List.exists_cons_of_ne_nil redirects
    exact some_of_held direction (redirected.held (.inr ⟨target, by simp⟩))

private theorem pipe_empty_leaks {final : Carried} {piped : Shell} {pipe : Nat} {readEnd writeEnd : Fd}
    (apart : readEnd ≠ 0 ∧ readEnd ≠ 1)
    (both : Carries (Function.update base readEnd (some (.pipeRead pipe)))
      (final.set .output (some (final.left pipe writeEnd))) piped.table) (pids : List Pid) :
    (Service.computed obliging.answer).Returns (fun _ after => Leaked base after)
      (errorExit false pids .none) (piped.drop readEnd) := by
  have outHeld : (final.set .output (some (final.left pipe writeEnd))).get .output =
      some (final.left pipe writeEnd) := by simp [Carried.get_set]
  have outFree := both.free .output _ outHeld
  have outOpen := both.file_of_get outHeld
  have readOpen : piped.table.file readEnd = some (.pipeRead pipe) := by
    rw [both.file_of_base (by simp), Function.update_self]
  have outApart : (final.left pipe writeEnd).1 ≠ readEnd := by
    intro same
    rw [same, Function.update_self] at outFree
    cases outFree
  rw [Function.update_of_ne outApart] at outFree
  have cleared : Carries (Function.update piped.table.file readEnd none) .none
      (piped.drop readEnd).table :=
    (both.rebase.carry readOpen apart).closed .input
      (by simp [Shell.drop, Carried.fds, Fds.get, release])
  have leaves : (kernel true).Returns
      (fun _ after => Leaves (Function.update piped.table.file readEnd none) True after)
      (errorExit false pids .none) (piped.drop readEnd) := errorExit_leaves cleared
  exact (leaves.permitted obliging.permits).returns fun _ _ leaves =>
    leaves.leaked outFree (by simp [Function.update_of_ne outApart, outOpen])

private theorem granting_obliging : Granting obliging := fun _ _ => rfl

private theorem exiting_obliging : Exiting obliging fun _ => 0 := fun _ _ => rfl

section

variable {rest : Fds → List Pid → Prog Unit} {stage : Stage} {final : Carried} {pids : List Pid}
  {serial : Nat}

/-- Whatever is handed to an empty command stays open. -/
private theorem leaked_of_handed {middle after : Shell} {clean : Prop}
    (redirected : Redirected serial stage.redirections carried true final)
    (held : Carries base final middle.table)
    (handed : carried.input.isSome ∨ stage.redirections ≠ [])
    (leaves : Leaves middle.table.file clean after) : Leaked base after := by
  obtain ⟨direction, held', given⟩ := held_of_redirected redirected handed
  exact leaves.leaked (held.free direction held' given) (by simp [held.file_of_get given])

private theorem errorExit_leaks {middle : Shell} {background : Bool}
    (redirected : Redirected serial stage.redirections carried true final)
    (held : Carries base final middle.table)
    (handed : carried.input.isSome ∨ stage.redirections ≠ [])
    (cleared : Carries middle.table.file .none shell.table) :
    (Service.computed obliging.answer).Returns (fun _ after => Leaked base after)
      (errorExit background pids .none) shell := by
  have leaves : (kernel true).Returns (fun _ after => Leaves middle.table.file True after)
      (errorExit background pids .none) shell := errorExit_leaves cleared
  exact (leaves.permitted obliging.permits).returns fun _ _ leaves =>
    leaked_of_handed redirected held handed leaves

private theorem empty_of_leaks (leaks : stage.leaks carried.input.isSome = true)
    (ending : stage.ending = .none ∨ stage.ending = .and ∨ stage.ending = .background) :
    stage.argv = [] ∧ (carried.input.isSome ∨ stage.redirections ≠ []) := by
  rcases ending with ending | ending | ending <;> simpa [Stage.leaks, ending] using leaks

/-- In front of a pipe an empty command leaks; behind another one the rest of the line must. -/
private theorem runEnding_pipe_leaks (ending : stage.ending = .pipe)
    (held : Carries base final shell.table)
    (external : stage.argv ≠ [] → isBuiltin stage.argv = false)
    (goes : stage.argv ≠ [] → ∀ {readEnd : Fd} {pipe : Nat} {pids : List Pid} {after : Shell},
      Carries base ⟨some (readEnd, .pipeRead pipe), none⟩ after.table →
      (Service.computed obliging.answer).Returns (fun _ after => Leaked base after)
        (rest ⟨some readEnd, none⟩ pids) after) :
    (Service.computed obliging.answer).Returns (fun _ after => Leaked base after)
      (runEnding rest stage final.fds pids) shell := by
  simp only [runEnding, ending]
  refine (((openPipe_carries _ _ held).permitted obliging.permits).and
    (openPipe_granted (granting_obliging _ _) _)).bind fun ends piped known => ?_
  obtain ⟨made, done, _⟩ := known
  rcases made with ⟨rfl, _⟩ | ⟨readEnd, writeEnd, rfl, unused, both⟩
  · exact (done rfl).elim
  have apart := held.apart_of_unused unused
  cases command : stage.argv with
  | nil =>
    refine ⟨trivial, fun _ closed served => ?_⟩
    obtain rfl : piped.drop readEnd = closed := by
      simpa [Service.computed, Policy.answer] using served
    exact pipe_empty_leaks apart both pids
  | cons cmd args =>
    rw [command] at external goes
    have nonempty : cmd :: args ≠ [] := List.cons_ne_nil cmd args
    refine (((execute_left_leaves unused apart both).permitted obliging.permits).and
      (execute_granted (external nonempty) both)).bind fun pid after known => ?_
    obtain ⟨⟨wider, extended, same, read⟩, child, _, _, forked, _⟩ := known
    obtain rfl := same nonempty
    subst forked
    exact goes nonempty read

private theorem runEnding_and_leaks (ending : stage.ending = .and)
    (redirected : Redirected serial stage.redirections carried true final)
    (held : Carries base final shell.table) (leaks : stage.leaks carried.input.isSome = true)
    {stages : List Stage} :
    (Service.computed obliging.answer).Returns (fun _ after => Leaked base after)
      (runEnding (runStages stages) stage final.fds pids) shell := by
  obtain ⟨empty, given⟩ := empty_of_leaks leaks (.inr (.inl ending))
  simp only [runEnding, ending, empty]
  refine ((waitAnd_table _ _).permitted obliging.permits).bind fun last waited unchanged => ?_
  have rebased := held.rebase.congr (congrArg FdTable.file unchanged)
  split
  · exact errorExit_leaks redirected held given rebased
  · exact ((runStages_leaves rebased rfl).permitted obliging.permits).returns
      fun _ _ leaves => leaked_of_handed redirected held given leaves

/-- Behind an `&&` every command here exits with 0, so the rest of the line is run. -/
private theorem runEnding_and_goesOn (ending : stage.ending = .and) (vacant : carried.output = none)
    (redirected : Redirected serial stage.redirections carried true final)
    (held : Carries base final shell.table) (tight : stage.leaks carried.input.isSome = false)
    (goes : ∀ {after : Shell}, Carries base .none after.table →
      (Service.computed obliging.answer).Returns (fun _ after => Leaked base after)
        (rest .none []) after) :
    (Service.computed obliging.answer).Returns (fun _ after => Leaked base after)
      (runEnding rest stage final.fds pids) shell := by
  simp only [runEnding, ending]
  refine ((execute_leaves held).permitted obliging.permits).bind fun andPid after known => ?_
  obtain ⟨wider, extended, same, cleared⟩ := known
  obtain rfl := same (idle_of_tidy tight (.inr (.inl ending)) vacant redirected)
  refine (waitAnd_granted exiting_obliging _ _).bind fun last waited known => ?_
  obtain ⟨unchanged, found⟩ := known
  have passed : andFailed last = false := by
    rw [found]
    cases andPid with
    | none => exact andFailed_zero
    | some pid => exact andFailed_exited 0
  rw [if_neg (by simp [passed])]
  exact goes (cleared.congr (by rw [unchanged]))

end

theorem runStages_leaks {stages : List Stage} {pids : List Pid}
    (carries : Carries base carried shell.table) (vacant : carried.output = none)
    (untidy : tidy carried.input.isSome stages = false) :
    (Service.computed obliging.answer).Returns (fun _ after => Leaked base after)
      (runStages stages carried.fds pids) shell := by
  induction stages generalizing base carried shell pids with
  | nil => cases untidy
  | cons stage rest ih =>
    refine (((openAll_carries carries).permitted obliging.permits).and
      (openAll_granted granting_obliging stage.redirections carried.fds)).bind
      fun result middle known => ?_
    obtain ⟨opened, fds⟩ := result
    obtain ⟨⟨final, same, held, redirected⟩, done, _⟩ := known
    subst same done
    have later : stage.leaks carried.input.isSome = false →
        stage.passes = true ∧ tidy (stage.ending = .pipe) rest = false := by
      simpa [tidy] using untidy
    have leaks_of_stop : stage.passes = false → stage.leaks carried.input.isSome = true := by
      intro stops
      cases leaks : stage.leaks carried.input.isSome with
      | true => rfl
      | false => exact absurd (later leaks).1 (by simp [stops])
    simp only [if_true]
    cases ending : stage.ending with
    | none =>
      obtain ⟨empty, given⟩ :=
        empty_of_leaks (leaks_of_stop (by simp [Stage.passes, ending])) (.inl ending)
      simp only [runEnding, ending, empty]
      exact errorExit_leaks redirected held given held.rebase
    | background =>
      obtain ⟨empty, given⟩ :=
        empty_of_leaks (leaks_of_stop (by simp [Stage.passes, ending])) (.inr (.inr ending))
      simp only [runEnding, ending, empty]
      exact errorExit_leaks redirected held given held.rebase
    | pipe =>
      have passing : stage.argv ≠ [] →
          isBuiltin stage.argv = false ∧ tidy (stage.ending = .pipe) rest = false := by
        intro nonempty
        obtain ⟨passes, untidy⟩ := later (by simp [Stage.leaks, ending, nonempty])
        exact ⟨by simpa [Stage.passes, ending, nonempty] using passes, untidy⟩
      refine runEnding_pipe_leaks ending held (fun nonempty => (passing nonempty).1)
        fun nonempty _ _ _ _ read => ih read rfl ?_
      simpa [ending] using (passing nonempty).2
    | and =>
      cases leaks : stage.leaks carried.input.isSome with
      | true => exact runEnding_and_leaks ending redirected held leaks
      | false =>
        have untidy := (later leaks).2
        rw [ending] at untidy
        exact runEnding_and_goesOn ending vacant redirected held leaks
          fun cleared => ih cleared rfl untidy
    | missing direction =>
      have leaks := leaks_of_stop (by simp [Stage.passes, ending])
      simp [Stage.leaks, ending] at leaks
    | blank =>
      have leaks := leaks_of_stop (by simp [Stage.passes, ending])
      simp [Stage.leaks, ending] at leaks

/-- Every call of `is_executable` on these tokens that returns leaves the descriptor
table as it was. -/
def ConservesDescriptors (shell : Shell) (tokens : List Text) : Prop :=
  ∀ after, (kernel true).Reach (isExecutable tokens, shell) (.done (), after) →
    after.table.file = shell.table.file

/-- A line conserves the descriptor table, whichever calls fail, exactly if it is tidy. -/
theorem conservesDescriptors_iff {shell : Shell} {tokens : List Text}
    (full : ∀ token ∈ tokens, token ≠ []) (standardIn : shell.table.file 0 ≠ none)
    (standardOut : shell.table.file 1 ≠ none) :
    ConservesDescriptors shell tokens ↔ tidy false (stages tokens) = true := by
  have carries := carries_none standardIn standardOut
  rw [ConservesDescriptors, isExecutable_eq]
  constructor
  · intro conserves
    by_contra untidy
    have leaks : (Service.computed obliging.answer).Returns
        (fun _ after => Leaked shell.table.file after) (runStages (stages tokens) .none []) shell :=
      runStages_leaks carries rfl (Bool.not_eq_true _ ▸ untidy)
    obtain ⟨_, after, run, fd, unused, used⟩ := Service.exists_eval leaks
      (runStages_uses (stages_full full) _ _) obliging.total
    have same := conserves after (Service.reach_of_eval obliging.permits run)
    exact used (by rw [same, unused])
  · intro neat after reach
    obtain ⟨wider, -, same, held⟩ :=
      (runStages_leaves carries rfl).reach (kernel_quiet true) reach
    rw [held.files]
    exact same neat

theorem conservesDescriptors_iff_pipeline :
    ConservesDescriptors .initial ["a".toList, "|".toList, "b".toList, ">".toList, "f".toList] :=
  (conservesDescriptors_iff (by decide) (by decide) (by decide)).mpr (by decide)

/-- `> f` leaves the file open in the shell. -/
theorem not_conservesDescriptors_redirection :
    ¬ ConservesDescriptors .initial [">".toList, "f".toList] := by
  intro conserves
  have run : (kernel true).Reach (isExecutable [">".toList, "f".toList], .initial) (.done (), _) :=
    Service.reach_of_eval obliging.permits rfl
  have same := congrFun (conserves _ run) 3
  revert same
  decide

end Lsnp.Lab
