import Lsnp.Lab.Wiring
import Lsnp.Unix.Signals

namespace Lsnp.Lab

open Lsnp.Interaction Lsnp.Unix

def SIGCHLD : Signo := 17

/-- The calls of `signal` and `sigaction` at the start of `main`. -/
def startUp (dispositions : Dispositions) : Dispositions :=
  sigaction (sigaction dispositions SIGINT .ignore) SIGCHLD (.handler sigfillset)

/-- What the child of `execute` makes of its copy of the table in front of `execvp`:
there is no call. -/
def atExecvp (dispositions : Dispositions) : Dispositions := dispositions

/-- A child at its `execvp`. -/
structure Image where
  fork : Fork
  dispositions : Dispositions

/-- The shell with what it does about signals, and its children at their `execvp`. -/
structure Signalled where
  shell : Shell
  dispositions : Dispositions
  images : List Image

/-- A fork copies the table of the shell, which no call of the loop changes. -/
def signalling : Service Call Call.Reply Signalled where
  serve before asked reply after := (kernel true).serve before.shell asked reply after.shell ∧
    after.dispositions = before.dispositions ∧
    after.images = before.images ++
      ((forks after.shell.log).drop (forks before.shell.log).length).map
        fun child => ⟨child, atExecvp before.dispositions⟩
  moves _ _ := False

/-- The shell in front of its loop, with any table inherited. -/
def Signalled.initial (inherited : Dispositions) : Signalled :=
  ⟨.initial, startUp inherited, []⟩

/-- `Ctrl+C` reaches the commands and not the shell. -/
structure Interruptible (state : Signalled) : Prop where
  shell : state.dispositions SIGINT = .ignore
  commands : ∀ image ∈ state.images, image.dispositions SIGINT = .default

/-- The loop of `is_executable` forks a process when its calls succeed. -/
def starts : List Stage → Bool
  | [] => false
  | stage :: rest => stage.forksOne || stage.ending = .and && starts rest

def startsProcess (tokens : List Text) : Bool :=
  !isBuiltin tokens && starts (stages tokens)

variable {theft : Bool} {shell after : Shell}

theorem serve_forkless {asked : Call} {reply : asked.Reply}
    (served : (kernel theft).serve shell asked reply after) (other : ¬ asked.isFork) :
    forks after.log = forks shell.log := by
  by_cases waits : asked.isWaitpid
  · cases asked <;> first | exact waits.elim | skip
    obtain ⟨rfl, -⟩ := served
    simp
  · exact (serve_processes served other waits).1

private abbrev Forkless (asked : Call) (_ : Shell) : Prop := ¬ asked.isFork

private theorem forkless_of_uses {α : Type} {program : Prog α}
    (uses : program.uses fun asked => ¬ asked.isFork) :
    (kernel theft).Ensures Forkless (fun _ _ => True) program shell := by
  have kept : ∀ state asked (reply : asked.Reply) changed, ¬ asked.isFork → True →
      (kernel theft).serve state asked reply changed → True :=
    fun _ _ _ _ _ _ _ => trivial
  exact (Service.ensures_of_uses uses kept trivial).mono (fun _ _ held => held.1)
    fun _ _ _ => trivial

private theorem forkless_openAll (redirections : List (Direction × Text)) (fds : Fds) :
    (openAll redirections fds).uses fun asked => ¬ asked.isFork := by
  apply Program.uses_mono (openAll_uses redirections fds)
  intro asked opens forks
  cases asked <;> first | exact opens.elim | exact forks.elim

private theorem forkless_errorExit (background : Bool) (pids : List Pid) (fds : Fds) :
    (kernel theft).Ensures Forkless (fun _ _ => True) (errorExit background pids fds) shell :=
  forkless_of_uses (errorExit_uses background pids fds (fun _ => id) fun _ => id)

private theorem forkless_waitAnd (pids : List Pid) (andPid : Option Pid) :
    (waitAnd pids andPid).uses fun asked => ¬ asked.isFork := by
  refine ⟨id, fun status => ?_⟩
  apply Program.uses_mono (waitLoop_uses andPid pids status 0)
  intro asked waits forks
  cases asked <;> first | exact waits.elim | exact forks.elim

private theorem forkless_execute {arglist : Nat} {argv : List Text}
    (quiet : ¬ (argv ≠ [] ∧ isBuiltin argv = false)) (fdIn fdOut : Option Fd) :
    (kernel theft).Ensures Forkless (fun pid _ => pid = none) (execute arglist argv fdIn fdOut)
      shell := by
  have forkless : (execute arglist argv fdIn fdOut).uses fun asked => ¬ asked.isFork :=
    Program.uses_mono (execute_forks_external arglist argv fdIn fdOut)
      fun asked allowed forks => quiet (allowed.2 forks)
  apply ((forkless_of_uses forkless).also (execute_external arglist argv fdIn fdOut)).mono
  · exact fun _ _ => id
  · rintro pid after ⟨-, external⟩
    by_contra forked
    exact quiet (external forked)

private theorem quiet_of_starts {stage : Stage} {rest : List Stage}
    (quiet : starts (stage :: rest) = false)
    (runs : ∀ direction, stage.ending ≠ .missing direction) (full : stage.ending ≠ .blank) :
    ¬ (stage.argv ≠ [] ∧ isBuiltin stage.argv = false) ∧
      (stage.ending = .and → starts rest = false) := by
  simp only [starts, Bool.or_eq_false_iff, Bool.and_eq_false_iff, decide_eq_false_iff_not] at quiet
  refine ⟨fun external => ?_, fun ending => ?_⟩
  · have forks : stage.forksOne = true := by
      cases ending : stage.ending with
      | missing direction => exact (runs direction ending).elim
      | blank => exact (full ending).elim
      | none | pipe | and | background => simp [Stage.forksOne, external, ending]
    rw [quiet.1] at forks
    cases forks
  · exact quiet.2.resolve_left fun other => other ending

theorem runStages_forkless {stages : List Stage} (quiet : starts stages = false) (fds : Fds)
    (pids : List Pid) :
    (kernel theft).Ensures Forkless (fun _ _ => True) (runStages stages fds pids) shell := by
  induction stages generalizing fds pids shell with
  | nil => exact forkless_errorExit _ _ _
  | cons stage rest ih =>
    apply (forkless_of_uses (forkless_openAll stage.redirections fds)).bind
    rintro ⟨opened, fds⟩ middle -
    cases opened with
    | false => exact forkless_errorExit _ _ _
    | true =>
      have command := quiet_of_starts quiet
      simp only [if_true, runEnding]
      cases ending : stage.ending with
      | none =>
        obtain ⟨nothing, -⟩ := command (by simp [ending]) (by simp [ending])
        exact (forkless_execute nothing _ _).bind fun _ _ _ => forkless_errorExit _ _ _
      | pipe =>
        obtain ⟨nothing, -⟩ := command (by simp [ending]) (by simp [ending])
        apply (forkless_of_uses (openPipe_uses _ _ _ id (fun _ => id) fun _ => id)).bind
        rintro (_ | ends) piped -
        · exact forkless_errorExit _ _ _
        · apply (forkless_execute nothing _ _).bind
          rintro pid after rfl
          exact ⟨id, fun _ _ _ => forkless_errorExit _ _ _⟩
      | and =>
        obtain ⟨nothing, later⟩ := command (by simp [ending]) (by simp [ending])
        apply (forkless_execute nothing _ _).bind
        rintro andPid after rfl
        apply (forkless_of_uses (forkless_waitAnd _ _)).bind
        rintro lastStatus waited -
        split
        · exact forkless_errorExit _ _ _
        · exact ih (later ending) _ _
      | background =>
        obtain ⟨nothing, -⟩ := command (by simp [ending]) (by simp [ending])
        apply (forkless_execute nothing _ _).bind
        rintro bgPid after rfl
        exact forkless_errorExit _ _ _
      | missing direction => exact ⟨id, fun _ _ _ => forkless_errorExit _ _ _⟩
      | blank => exact ⟨id, fun reply => reply.elim⟩

private theorem forkless_of_builtin {asked : Call} (builtin : ofBuiltin asked) :
    ¬ asked.isFork := by
  intro forks
  cases asked <;> first | exact builtin.elim | exact forks.elim

private theorem forkless_builtin {argv : List Text} (some : argv ≠ []) :
    (checkBuiltin argv).uses fun asked => ¬ asked.isFork := by
  cases argv with
  | nil => exact (some rfl).elim
  | cons cmd args =>
    apply Program.uses_mono (checkBuiltin_uses cmd args)
    exact fun asked builtin => forkless_of_builtin builtin

theorem dispatch_forkless {tokens : List Text} (quiet : startsProcess tokens = false) :
    (kernel theft).Ensures Forkless (fun _ _ => True) (dispatch tokens) shell := by
  unfold dispatch
  split
  · exact trivial
  · rename_i some
    have filled : tokens ≠ [] := by simpa using some
    rw [startsProcess, Bool.and_eq_false_iff, Bool.not_eq_false'] at quiet
    rcases quiet with builtin | quiet
    · obtain ⟨cmd, args, rfl⟩ := List.exists_cons_of_ne_nil filled
      obtain ⟨btFunc, found⟩ := Option.isSome_iff_exists.mp builtin
      simp only [checkBuiltin, found, bind_assoc, pure_bind, if_true]
      have uses : (btFunc.run (cmd :: args)).uses fun asked => ¬ asked.isFork := by
        apply Program.uses_mono (BtFunc.run_uses btFunc (cmd :: args))
        exact fun asked calls => forkless_of_builtin calls
      exact (forkless_of_uses uses).bind fun _ _ _ => trivial
    · apply (forkless_of_uses (forkless_builtin filled)).bind
      rintro builtin checked -
      cases builtin with
      | true => exact trivial
      | false =>
        simp only [Bool.false_eq_true, if_false, isExecutable_eq]
        exact runStages_forkless quiet _ _

theorem session_forkless {lines : List (List Text)}
    (quiet : ∀ tokens ∈ lines, startsProcess tokens = false) :
    (kernel theft).Ensures Forkless (fun _ _ => True) (session lines) shell := by
  induction lines generalizing shell with
  | nil => exact trivial
  | cons tokens lines ih =>
    have line : (kernel theft).Ensures Forkless (fun _ _ => True) (runLine tokens) shell := by
      refine ⟨id, fun _ read _ => ?_⟩
      apply (dispatch_forkless (quiet tokens (List.mem_cons_self ..))).bind
      exact fun _ _ _ => ⟨id, fun _ _ _ => trivial⟩
    exact line.bind fun _ _ _ => ih fun other member => quiet other (List.mem_cons_of_mem _ member)

def Grown (count : Nat) (shell : Shell) : Prop :=
  count < (forks shell.log).length

private theorem returns_grown {α : Type} {count : Nat} (program : Prog α) (grown : Grown count shell) :
    (Service.computed obliging.answer).Returns (fun _ after => Grown count after) program shell := by
  apply ((returns_extends program).permitted obliging.permits).returns
  rintro _ after ⟨events, same⟩
  rw [Grown, same, forks_append, List.length_append]
  exact Nat.lt_add_right _ grown

private theorem execute_grows {base : Fd → Option File} {carried : Carried} {count arglist : Nat}
    {argv : List Text} (external : argv ≠ [] ∧ isBuiltin argv = false)
    (carries : Carries base carried shell.table) (before : count ≤ (forks shell.log).length) :
    (Service.computed obliging.answer).Returns (fun pid after => pid ≠ none ∧ Grown count after)
      (execute arglist argv carried.fds.fdIn carried.fds.fdOut) shell := by
  obtain ⟨cmd, args, rfl⟩ := List.exists_cons_of_ne_nil external.1
  apply (execute_granted external.2 carries).returns
  rintro pid after ⟨child, -, -, rfl, log⟩
  refine ⟨nofun, ?_⟩
  rw [Grown, log, forks_append, List.length_append]
  exact Nat.lt_of_le_of_lt before (Nat.lt_add_of_pos_right Nat.one_pos)

private theorem forks_opened (files : List File) : forks (files.map .opened) = [] := by
  induction files with
  | nil => rfl
  | cons file files ih => exact ih

theorem runStages_grows {stages : List Stage} {base : Fd → Option File} {carried : Carried}
    {count : Nat} (carries : Carries base carried shell.table)
    (before : count ≤ (forks shell.log).length) (started : starts stages = true) :
    (Service.computed obliging.answer).Returns (fun _ after => Grown count after)
      (runStages stages carried.fds []) shell := by
  have granting : Granting obliging := fun _ _ => rfl
  have exiting : Exiting obliging fun _ => 0 := fun _ _ => rfl
  induction stages generalizing base carried shell with
  | nil => cases started
  | cons stage rest ih =>
    apply (((openAll_carries carries).permitted obliging.permits).and
      (openAll_granted granting stage.redirections carried.fds)).bind
    rintro ⟨opened, fds⟩ middle ⟨⟨final, rfl, held, -⟩, rfl, log, -⟩
    have still : count ≤ (forks middle.log).length := by
      rw [log, forks_append, forks_opened, List.append_nil]
      exact before
    by_cases external : stage.forksOne = true
    · simp only [Stage.forksOne, Bool.and_eq_true, Bool.not_eq_true', List.isEmpty_eq_false_iff]
        at external
      obtain ⟨command, runs⟩ := external
      simp only [if_true, runEnding]
      cases ending : stage.ending with
      | none =>
        exact (execute_grows command held still).bind fun _ _ grown => returns_grown _ grown.2
      | pipe =>
        apply (((openPipe_carries _ _ held).permitted obliging.permits).and
          (openPipe_granted (granting _ _) _)).bind
        rintro ends piped ⟨made, done, same, -⟩
        rcases made with ⟨rfl, -⟩ | ⟨readEnd, writeEnd, rfl, unused, both⟩
        · exact (done rfl).elim
        · have same' : count ≤ (forks piped.log).length := by
            rw [same]
            exact still
          exact (execute_grows command both same').bind fun _ _ grown => returns_grown _ grown.2
      | and =>
        exact (execute_grows command held still).bind fun _ _ grown => returns_grown _ grown.2
      | background =>
        exact (execute_grows command held still).bind fun _ _ grown => returns_grown _ grown.2
      | missing direction => simp [ending] at runs
      | blank => simp [ending] at runs
    · have later : stage.ending = .and ∧ starts rest = true := by
        simpa [starts, external] using started
      simp only [if_true, runEnding, later.1]
      have leaves : (Service.computed obliging.answer).Returns
          (fun pid after => pid = none ∧ count ≤ (forks after.log).length ∧
            ∃ wider, Carries wider .none after.table)
          (execute stage.start stage.argv final.fds.fdIn final.fds.fdOut) middle := by
        have nothing : ¬ (stage.argv ≠ [] ∧ isBuiltin stage.argv = false) := by
          rintro ⟨some, command⟩
          simp [Stage.forksOne, some, command, later.1] at external
        apply ((((execute_leaves held).and (execute_external _ _ _ _)).and
          (returns_extends _)).permitted obliging.permits).returns
        rintro pid after ⟨⟨⟨wider, -, -, cleared⟩, forked⟩, events, same⟩
        refine ⟨?_, ?_, wider, cleared⟩
        · by_contra some
          exact nothing (forked some)
        · rw [same, forks_append, List.length_append]
          exact Nat.le_add_right_of_le still
      apply leaves.bind
      rintro andPid after ⟨rfl, still, wider, cleared⟩
      apply (waitAnd_granted exiting [] none).bind
      rintro lastStatus waited ⟨rfl, rfl⟩
      rw [if_neg (by simp)]
      apply @ih _ wider .none
      · exact cleared.congr rfl
      · simpa [waitEvents] using still
      · exact later.2

private theorem dispatch_grows {tokens : List Text} {count : Nat} (ready : Ready shell)
    (before : count ≤ (forks shell.log).length) (started : startsProcess tokens = true) :
    (Service.computed obliging.answer).Returns (fun _ after => Grown count after)
      (dispatch tokens) shell := by
  simp only [startsProcess, Bool.and_eq_true, Bool.not_eq_true'] at started
  cases tokens with
  | nil => simp [stages, parse, Draft.finish, Draft.fresh, Draft.close, starts, Stage.forksOne] at started
  | cons cmd args =>
    simp only [dispatch, List.isEmpty_cons, Bool.false_eq_true, if_false,
      checkBuiltin_external started.1, pure_bind, isExecutable_eq]
    exact runStages_grows (carries_none ready.standardIn ready.standardOut) before started.2

private theorem session_grows {lines : List (List Text)} (ready : Ready shell)
    {tokens : List Text} (member : tokens ∈ lines) (started : startsProcess tokens = true) :
    (Service.computed obliging.answer).Returns (fun _ after => Grown 0 after)
      (session lines) shell := by
  induction lines generalizing shell with
  | nil => cases member
  | cons first lines ih =>
    have plain : ∀ {asked : Call} {shell : Shell}, ¬ asked.touchesTable → Ready shell →
        (Service.computed obliging.answer).Returns (fun _ after => Ready after)
          (Program.request asked : Prog asked.Reply) shell := by
      intro asked shell untouched ready
      exact (returns_ready ready (Program.uses_request.mpr untouched)).permitted obliging.permits
    simp only [session, runLine, bind_assoc]
    apply (plain id ready).bind
    rintro _ read ready
    rcases List.mem_cons.mp member with rfl | later
    · apply (dispatch_grows ready (Nat.zero_le _) started).bind
      exact fun _ _ grown => returns_grown _ grown
    · apply ((dispatch_ready first ready).permitted obliging.permits).bind
      rintro _ done ready
      apply (plain id ready).bind
      exact fun _ _ ready => ih ready later

private theorem session_faultless {lines : List (List Text)}
    (full : ∀ tokens ∈ lines, ∀ token ∈ tokens, token ≠ []) :
    (session lines).uses (· ≠ .fault) := by
  induction lines with
  | nil => trivial
  | cons tokens lines ih =>
    have line := runLine_faultless (full tokens (List.mem_cons_self ..))
    exact Program.uses_bind line fun _ =>
      ih fun other member => full other (List.mem_cons_of_mem _ member)

/-- A run of the loop of `main` on these lines gets to the state. -/
def Signalled.Reached (lines : List (List Text)) (state : Signalled) : Prop :=
  ∃ inherited program, signalling.Reach (session lines, .initial inherited) (program, state)

variable {lines : List (List Text)} {state : Signalled}

/-- Each child has the table of the shell. -/
structure Copied (state : Signalled) : Prop where
  ignores : state.dispositions SIGINT = .ignore
  images : state.images = (forks state.shell.log).map fun child => ⟨child, state.dispositions⟩

private theorem copied_initial (inherited : Dispositions) : Copied (.initial inherited) := by
  refine ⟨?_, rfl⟩
  have apart : SIGINT ≠ SIGCHLD := by decide
  show startUp inherited SIGINT = .ignore
  rw [startUp, sigaction_of_ne _ _ apart, sigaction_self]

private theorem serve_copied {before after : Signalled} {asked : Call} {reply : asked.Reply}
    (copied : Copied before) (served : signalling.serve before asked reply after) :
    Copied after := by
  obtain ⟨shell, dispositions, images⟩ := served
  obtain ⟨events, log⟩ := serve_extends shell
  refine ⟨by rw [dispositions, copied.ignores], ?_⟩
  rw [images, copied.images, log, forks_append, List.drop_left, List.map_append, dispositions]
  rfl

theorem copied_of_reached (reached : Signalled.Reached lines state) : Copied state := by
  obtain ⟨inherited, program, reach⟩ := reached
  apply reach.invariant Copied
  · exact fun _ _ _ _ copied served => serve_copied copied served
  · exact fun _ _ _ moved => moved.elim
  · exact copied_initial inherited

theorem interruptible_iff_forkless (reached : Signalled.Reached lines state) :
    Interruptible state ↔ forks state.shell.log = [] := by
  have copied := copied_of_reached reached
  constructor
  · intro interruptible
    by_contra some
    obtain ⟨child, rest, forked⟩ := List.exists_cons_of_ne_nil some
    have member : ⟨child, state.dispositions⟩ ∈ state.images := by
      rw [copied.images, forked]
      exact List.mem_cons_self ..
    have default : state.dispositions SIGINT = .default := interruptible.commands _ member
    rw [copied.ignores] at default
    cases default
  · intro none
    refine ⟨copied.ignores, fun image member => ?_⟩
    rw [copied.images, none] at member
    cases member

private theorem reached_of_kernel {program : Prog Unit} {shell : Shell}
    (reach : (kernel true).Reach (session lines, .initial) (program, shell)) :
    ∃ state, Signalled.Reached lines state ∧ state.shell = shell := by
  have along : ∀ config, (kernel true).Reach (session lines, .initial) config →
      ∃ state, signalling.Reach (session lines, .initial fun _ => .default) (config.1, state) ∧
        state.shell = config.2 := by
    intro config reach
    induction reach with
    | refl => exact ⟨_, .refl _, rfl⟩
    | tail _ last ih =>
      obtain ⟨state, before, same⟩ := ih
      cases last with
      | @reply _ after asked reply next served =>
        refine ⟨⟨after, state.dispositions, state.images ++
          ((forks after.log).drop (forks state.shell.log).length).map
            fun child => ⟨child, atExecvp state.dispositions⟩⟩,
          before.tail (.reply ⟨?_, rfl, rfl⟩), rfl⟩
        rw [same]
        exact served
      | move moved => exact moved.elim
  obtain ⟨state, reach, same⟩ := along _ reach
  exact ⟨state, ⟨_, program, reach⟩, same⟩

private theorem not_interruptible_of_starts (full : ∀ tokens ∈ lines, ∀ token ∈ tokens, token ≠ [])
    {tokens : List Text} (member : tokens ∈ lines) (started : startsProcess tokens = true) :
    ∃ state, Signalled.Reached lines state ∧ ¬ Interruptible state := by
  obtain ⟨_, shell, run, grown⟩ := Service.exists_eval
    (session_grows initial_ready member started) (session_faultless full) obliging.total
  obtain ⟨state, reached, rfl⟩ := reached_of_kernel (Service.reach_of_eval obliging.permits run)
  refine ⟨state, reached, fun interruptible => ?_⟩
  rw [Grown, (interruptible_iff_forkless reached).mp interruptible] at grown
  cases grown

private def Childless (shell : Shell) : Prop := forks shell.log = []

/-- On these lines `Ctrl+C` reaches the commands and not the shell exactly if they start no
process. -/
theorem interruptible_iff (full : ∀ tokens ∈ lines, ∀ token ∈ tokens, token ≠ []) :
    (∀ state, Signalled.Reached lines state → Interruptible state) ↔
      ∀ tokens ∈ lines, startsProcess tokens = false := by
  constructor
  · intro interruptible tokens member
    by_contra started
    obtain ⟨state, reached, wrong⟩ :=
      not_interruptible_of_starts full member (Bool.not_eq_false _ ▸ started)
    exact wrong (interruptible state reached)
  · intro quiet state reached
    apply (interruptible_iff_forkless reached).mpr
    obtain ⟨inherited, program, reach⟩ := reached
    have alone : (kernel true).Reach (session lines, .initial) (program, state.shell) :=
      reach.project Signalled.shell (fun _ _ _ _ served => And.left served)
        fun _ _ moved => False.elim moved
    have started : (kernel true).Ensures Forkless (fun _ _ => True) (session lines) .initial :=
      session_forkless quiet
    have kept : ∀ state asked (reply : asked.Reply) changed, Forkless asked state →
        Childless state → (kernel true).serve state asked reply changed → Childless changed :=
      fun _ _ _ _ forkless none served => (serve_forkless served forkless).trans none
    have none : Childless state.shell := started.invariant (kernel_quiet true) kept alone rfl
    exact none

/-- A builtin. -/
theorem interruptible_iff_pwd : startsProcess ["pwd".toList] = false ∧
    ∀ state, Signalled.Reached [["pwd".toList]] state → Interruptible state :=
  ⟨by decide, (interruptible_iff (by decide)).mpr (by decide)⟩

/-- A command that is not a builtin runs with `SIGINT` ignored. -/
theorem not_interruptible_sleep :
    ¬ ∀ state, Signalled.Reached [["sleep".toList, "9".toList]] state → Interruptible state := by
  intro interruptible
  obtain ⟨state, reached, wrong⟩ := not_interruptible_of_starts
    (by decide : ∀ tokens ∈ [["sleep".toList, "9".toList]], ∀ token ∈ tokens, token ≠ [])
    (List.mem_singleton_self _) (by decide)
  exact wrong (interruptible state reached)

end Lsnp.Lab
