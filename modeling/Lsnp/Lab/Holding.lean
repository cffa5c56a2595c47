import Lsnp.Lab.Session

namespace Lsnp.Lab

open Lsnp.Interaction Lsnp.Unix

/-- The stage is in front of a `|` and the shell neither waits nor can fail in it before
it has let go of that pipe: an `<` comes before any `>` and, unless nothing is waited
for, there is one wherever the command is empty, its line incomplete, or another pipe
follows; an empty command in front of that pipe has a `>` as well. -/
def Stage.letsGo (stage : Stage) : Bool :=
  (stage.redirections.head?.map Prod.fst != some .output) &&
    (stage.redirections.any (·.1 == .input) ||
      match stage.ending with
      | .none | .and => !stage.argv.isEmpty
      | .pipe | .missing _ => false
      | .background | .blank => true) &&
    (stage.ending != .pipe || !stage.argv.isEmpty || stage.redirections.any (·.1 == .output))

/-- Every stage behind a `|` that the loop can reach lets go of the pipe. -/
def prudent : Bool → List Stage → Bool
  | piped, [] => !piped
  | piped, stage :: rest =>
    (!piped || stage.letsGo) && (!stage.passes || prudent (stage.ending = .pipe) rest)

def Plain (held : Option (Fd × File)) : Prop :=
  ∀ fd file, held = some (fd, file) → ∃ serial path direction, file = .regular serial path direction

/-- At every `waitpid` the shell has no end of the pipes open. -/
def WaitsFree (first : Nat) (asked : Call) (state : Shell) : Prop :=
  asked.isWaitpid → NoPipe first state.table.file

variable {theft : Bool} {shell : Shell} {base : Fd → Option File} {carried : Carried} {first : Nat}

theorem Plain.none : Plain none := nofun

theorem Carries.noPipe {table : FdTable File} (carries : Carries base carried table)
    (free : NoPipe first base) (plain : ∀ direction, Plain (carried.get direction)) :
    NoPipe first table.file := by
  intro fd pipe later
  have here := free fd pipe later
  have input := plain .input
  have output := plain .output
  rw [carries.files]
  obtain ⟨- | ⟨fdIn, fileIn⟩, - | ⟨fdOut, fileOut⟩⟩ := carried <;>
    simp only [place, Carried.get, Plain, Function.update_apply] at * <;> grind

theorem Carries.noPipe_none {table : FdTable File} (carries : Carries base .none table)
    (free : NoPipe first base) : NoPipe first table.file :=
  carries.noPipe free fun direction => by cases direction <;> exact Plain.none

theorem Carries.noPipe_close {table : FdTable File} {readEnd : Fd} {file : File}
    (carries : Carries (Function.update base readEnd (some file)) carried table)
    (free : NoPipe first base) (plain : ∀ direction, Plain (carried.get direction)) :
    NoPipe first (Function.update table.file readEnd none) := by
  intro fd pipe later
  have here := free fd pipe later
  have input := plain .input
  have output := plain .output
  rw [carries.files]
  obtain ⟨- | ⟨fdIn, fileIn⟩, - | ⟨fdOut, fileOut⟩⟩ := carried <;>
    simp only [place, Carried.get, Plain, Function.update_apply] at * <;> grind

theorem Redirected.plain {serial : Nat} {redirections : List (Direction × Text)} {opened : Bool}
    {final : Carried} (redirected : Redirected serial redirections carried opened final)
    {direction : Direction}
    (replaced : Plain (carried.get direction) ∨ redirections.head?.map Prod.fst = some direction ∨
      opened = true ∧ ∃ target, (direction, target) ∈ redirections) :
    Plain (final.get direction) := by
  induction redirected with
  | nil => simpa using replaced
  | @refused serial other target rest carried =>
    rw [Carried.get_set]
    split
    · exact Plain.none
    · next apart => simpa [Ne.symm apart] using replaced
  | @cons serial other target rest carried final opened fd others ih =>
    refine ih ?_
    rw [Carried.get_set]
    by_cases here : direction = other
    · left
      rw [if_pos here]
      intro fd file found
      exact ⟨serial, target, other, (congrArg Prod.snd (Option.some.inj found)).symm⟩
    · rw [if_neg here]
      rcases replaced with plain | atHead | ⟨opened, target, member⟩
      · exact .inl plain
      · simp [Ne.symm here] at atHead
      · simp only [List.mem_cons, Prod.mk.injEq, here, false_and, false_or] at member
        exact .inr (.inr ⟨opened, target, member⟩)

private theorem quietly {α : Type} {program : Prog α} {after : α → Shell → Prop}
    (returns : (kernel theft).Returns after program shell)
    (uses : program.uses fun asked => ¬ asked.isWaitpid) :
    (kernel theft).Ensures (WaitsFree first) after program shell := by
  have silent : (kernel theft).Ensures (fun asked _ => ¬ asked.isWaitpid ∧ True)
      (fun _ _ => True) program shell :=
    Service.ensures_of_uses uses (fun _ _ _ _ _ _ _ => trivial) trivial
  exact (silent.and returns).mono
    (fun asked _ held waits => (held.1.1 waits).elim) fun _ _ held => held.2

private theorem execute_silent (arglist : Nat) (argv : List Text) (fdIn fdOut : Option Fd) :
    (execute arglist argv fdIn fdOut).uses fun asked => ¬ asked.isWaitpid := by
  refine Program.uses_mono (execute_uses arglist argv fdIn fdOut) fun asked executes waits => ?_
  cases asked <;> first | exact waits | exact executes

private theorem waits_free {α : Type} {program : Prog α}
    (free : NoPipe first shell.table.file)
    (uses : program.uses fun asked => ¬ asked.touchesTable) :
    (kernel theft).Ensures (WaitsFree first) (fun _ after => after.table = shell.table)
      program shell := by
  have kept : ∀ state asked (reply : asked.Reply) after, ¬ asked.touchesTable →
      state.table = shell.table → (kernel theft).serve state asked reply after →
        after.table = shell.table :=
    fun _ _ _ _ untouched same served => (serve_table served untouched).trans same
  refine (Service.ensures_of_uses uses kept rfl).mono (fun asked state held _ => ?_)
    fun _ _ same => same
  rw [held.2]
  exact free

private theorem errorExit_free {background : Bool} {pids : List Pid} {fds : Fds}
    (idle : background = true ∨ pids = [] ∨ NoPipe first shell.table.file) :
    (kernel theft).Ensures (WaitsFree first) (fun _ _ => True)
      (errorExit background pids fds) shell := by
  have closing : ∀ (state : Shell), (kernel theft).Ensures (WaitsFree first) (fun _ _ => True)
      (do closeIfOpen fds.fdIn; closeIfOpen fds.fdOut) state := by
    intro state
    refine quietly (Service.returns_true _ _) ?_
    cases fds.fdIn <;> cases fds.fdOut <;> simp [closeIfOpen, Call.isWaitpid]
  have waiting : (kernel theft).Ensures (WaitsFree first) (fun _ _ => True)
      (waitForeground background pids) shell := by
    rcases idle with rfl | rfl | free
    · exact trivial
    · cases background <;> exact trivial
    · refine (waits_free free (Program.uses_mono (waitForeground_uses background pids)
        fun asked waits => ?_)).mono (fun _ _ held => held) fun _ _ _ => trivial
      cases asked <;> first | exact waits.elim | exact fun touched => touched
  exact waiting.bind fun _ state _ => closing state

/-- The pipe in front is gone once the redirections are done with, if one of them fails
or one of them is an input. -/
private theorem input_plain {stage : Stage} {serial : Nat} {opened : Bool} {final : Carried}
    (redirected : Redirected serial stage.redirections carried opened final)
    (careful : carried.input.isSome = true → stage.letsGo = true)
    (replaced : carried.input.isSome = true → opened = true →
      stage.redirections.any (·.1 == .input) = true) : Plain final.input := by
  cases piped : carried.input with
  | none =>
    change Plain (final.get .input)
    exact redirected.plain (.inl (by simp [Carried.get, piped, Plain]))
  | some held =>
    change Plain (final.get .input)
    refine redirected.plain (.inr ?_)
    cases opened with
    | true =>
      right
      obtain ⟨⟨direction, target⟩, member, same⟩ :=
        List.any_eq_true.mp (replaced (by simp [piped]) rfl)
      obtain rfl : direction = .input := by simpa using same
      exact ⟨rfl, target, member⟩
    | false =>
      left
      have letsGo := careful (by simp [piped])
      simp only [Stage.letsGo, Bool.and_eq_true] at letsGo
      have notOutput := letsGo.1.1
      cases redirections : stage.redirections with
      | nil => rw [redirections] at redirected; cases redirected
      | cons redirection rest =>
        obtain ⟨direction, target⟩ := redirection
        cases direction with
        | input => rfl
        | output => simp [redirections] at notOutput

private theorem execute_free {arglist : Nat} {argv : List Text} (free : NoPipe first base)
    (carries : Carries base carried shell.table)
    (plain : argv = [] → ∀ direction, Plain (carried.get direction)) :
    (kernel theft).Ensures (WaitsFree first)
      (fun _ after => ∃ wider, NoPipe first wider ∧ Carries wider .none after.table)
      (execute arglist argv carried.fds.fdIn carried.fds.fdOut) shell := by
  refine quietly ?_ (execute_silent _ _ _ _)
  cases argv with
  | nil => exact ⟨_, carries.noPipe free (plain rfl), carries.rebase⟩
  | cons cmd args =>
    exact (execute_carries carries).returns fun _ after cleared => ⟨base, free, cleared⟩

/-- Where the command in front of a pipe is empty and its output redirected, the shell gives up both
ends of the pipe. -/
private theorem pipe_empty_free {stage : Stage} {serial pipe : Nat} {final : Carried}
    {piped : Shell} {readEnd writeEnd : Fd}
    (redirected : Redirected serial stage.redirections carried true final)
    (letsGo : stage.letsGo = true) (ending : stage.ending = .pipe) (command : stage.argv = [])
    (plain : ∀ direction, Plain (final.get direction)) (free : NoPipe first base)
    (both : Carries (Function.update base readEnd (some (.pipeRead pipe)))
      (final.set .output (some (final.left pipe writeEnd))) piped.table) :
    NoPipe first (piped.drop readEnd).table.file := by
  simp only [Stage.letsGo, Bool.and_eq_true, Bool.or_eq_true] at letsGo
  obtain ⟨⟨direction, target⟩, member, same⟩ := List.any_eq_true.mp
    (letsGo.2.resolve_left (by simp [ending, command]))
  obtain rfl : direction = .output := by simpa using same
  obtain ⟨out, found⟩ := Option.ne_none_iff_exists'.mp
    (redirected.held (.inr ⟨target, member⟩))
  have kept : final.left pipe writeEnd = out := by
    have given : final.output = some out := found
    simp [Carried.left, given]
  have gone := both.noPipe_close free fun direction => by
    rw [Carried.get_set]
    split
    · rw [kept, ← found]
      exact plain .output
    · exact plain direction
  simpa [Shell.drop] using gone

section

variable {rest : Fds → List Pid → Prog Unit} {stage : Stage} {final : Carried} {pids : List Pid}

private theorem runEnding_none_free (ending : stage.ending = .none) (free : NoPipe first base)
    (held : Carries base final shell.table)
    (plain : stage.argv = [] → ∀ direction, Plain (final.get direction)) :
    (kernel theft).Ensures (WaitsFree first) (fun _ _ => True)
      (runEnding rest stage final.fds pids) shell := by
  simp only [runEnding, ending]
  refine (execute_free free held plain).bind fun pid after known => ?_
  obtain ⟨wider, still, cleared⟩ := known
  exact errorExit_free (.inr (.inr (cleared.noPipe_none still)))

private theorem runEnding_background_free (ending : stage.ending = .background) :
    (kernel theft).Ensures (WaitsFree first) (fun _ _ => True)
      (runEnding rest stage final.fds pids) shell := by
  simp only [runEnding, ending]
  refine (quietly (Service.returns_true _ _) (execute_silent _ _ _ _)).bind
    fun bgPid after _ => ?_
  refine (quietly (Service.returns_true _ _) ?_).bind fun _ told _ => errorExit_free (.inl rfl)
  cases bgPid <;> simp [announce, Call.isWaitpid]

private theorem runEnding_missing_free {direction : Direction}
    (ending : stage.ending = .missing direction) (free : NoPipe first shell.table.file) :
    (kernel theft).Ensures (WaitsFree first) (fun _ _ => True)
      (runEnding rest stage final.fds pids) shell := by
  simp only [runEnding, ending]
  refine ⟨False.elim, fun _ after served => ?_⟩
  obtain rfl : after = shell.note (.complained (syntaxError direction)) := served
  exact errorExit_free (.inr (.inr free))

private theorem runEnding_and_free (ending : stage.ending = .and) (free : NoPipe first base)
    (held : Carries base final shell.table)
    (plain : stage.argv = [] → ∀ direction, Plain (final.get direction))
    (goes : ∀ {wider : Fd → Option File} {after : Shell}, NoPipe first wider →
      Carries wider .none after.table →
      (kernel theft).Ensures (WaitsFree first) (fun _ _ => True) (rest .none []) after) :
    (kernel theft).Ensures (WaitsFree first) (fun _ _ => True)
      (runEnding rest stage final.fds pids) shell := by
  simp only [runEnding, ending]
  refine (execute_free free held plain).bind fun andPid after known => ?_
  obtain ⟨wider, still, cleared⟩ := known
  have waiting : (waitAnd (pids ++ andPid.toList) andPid).uses
      fun asked => ¬ asked.touchesTable := by
    refine ⟨fun touched => touched, fun status => ?_⟩
    refine Program.uses_mono (waitLoop_uses andPid _ status 0) fun asked waits => ?_
    cases asked <;> first | exact waits.elim | exact fun touched => touched
  refine (waits_free (cleared.noPipe_none still) waiting).bind fun last waited same => ?_
  have cleared := cleared.congr (congrArg FdTable.file same)
  split
  · exact errorExit_free (.inr (.inr (cleared.noPipe_none still)))
  · exact goes still cleared

/-- In front of a pipe the shell is left with the end that the next command reads. -/
private theorem runEnding_pipe_free {serial : Nat} (ending : stage.ending = .pipe)
    (free : NoPipe first base) (held : Carries base final shell.table)
    (redirected : Redirected serial stage.redirections carried true final)
    (letsGo : carried.input.isSome = true → stage.letsGo = true)
    (unpiped : carried.input = none → pids = []) (plain : ∀ direction, Plain (final.get direction))
    (goes : stage.argv ≠ [] → isBuiltin stage.argv = false → ∀ {readEnd : Fd} {pipe : Nat}
      {pids : List Pid} {after : Shell},
      Carries base ⟨some (readEnd, .pipeRead pipe), none⟩ after.table →
      (kernel theft).Ensures (WaitsFree first) (fun _ _ => True)
        (rest ⟨some readEnd, none⟩ pids) after) :
    (kernel theft).Ensures (WaitsFree first) (fun _ _ => True)
      (runEnding rest stage final.fds pids) shell := by
  have piping : (openPipe stage.start (stage.stop + 1) final.fds.fdOut).uses
      fun asked => ¬ asked.isWaitpid := openPipe_uses _ _ _ id (fun _ => id) fun _ => id
  simp only [runEnding, ending]
  refine (quietly (openPipe_carries _ _ held) piping).bind fun ends piped made => ?_
  rcases made with ⟨rfl, kept⟩ | ⟨readEnd, writeEnd, rfl, unused, both⟩
  · exact errorExit_free (.inr (.inr (kept.noPipe free plain)))
  cases command : stage.argv with
  | nil =>
    refine ⟨False.elim, fun _ closed served => errorExit_free ?_⟩
    obtain rfl : closed = piped.drop readEnd := served
    cases input : carried.input with
    | none => exact .inr (.inl (unpiped input))
    | some held' =>
      exact .inr (.inr (pipe_empty_free redirected (letsGo (by simp [input])) ending command
        plain free both))
  | cons cmd args =>
    refine (quietly ((execute_left_leaves unused (held.apart_of_unused unused) both).and
      (execute_external _ _ _ _)) (execute_silent _ _ _ _)).bind fun pid after known => ?_
    obtain ⟨⟨wider, _, same, read⟩, external⟩ := known
    obtain rfl := same (List.cons_ne_nil cmd args)
    cases pid with
    | none =>
      refine ⟨False.elim, fun _ closed served => errorExit_free (.inr (.inr ?_))⟩
      obtain rfl : closed = after.drop readEnd := served
      have cleared : Carries wider .none (after.drop readEnd).table :=
        read.closed .input (by simp [Shell.drop, Carried.fds, Fds.get, release])
      exact cleared.noPipe_none free
    | some pid =>
      rw [command] at goes
      exact goes (List.cons_ne_nil cmd args) (external (Option.some_ne_none pid)).2 read

end

theorem runStages_free {stages : List Stage} {pids : List Pid}
    (carries : Carries base carried shell.table) (free : NoPipe first base)
    (vacant : carried.output = none) (unpiped : carried.input = none → pids = [])
    (careful : prudent carried.input.isSome stages = true) :
    (kernel theft).Ensures (WaitsFree first) (fun _ _ => True)
      (runStages stages carried.fds pids) shell := by
  induction stages generalizing base carried shell pids with
  | nil =>
    refine errorExit_free (.inr (.inl (unpiped ?_)))
    simpa [prudent] using careful
  | cons stage rest ih =>
    simp only [prudent, Bool.and_eq_true, Bool.or_eq_true, Bool.not_eq_true'] at careful
    have letsGo : carried.input.isSome = true → stage.letsGo = true := fun piped =>
      careful.1.resolve_left (by simp [piped])
    have opening : (openAll stage.redirections carried.fds).uses fun asked => ¬ asked.isWaitpid := by
      refine Program.uses_mono (openAll_uses _ _) fun asked opens waits => ?_
      cases asked <;> first | exact waits | exact opens
    refine (quietly (openAll_carries carries) opening).bind fun result middle known => ?_
    obtain ⟨opened, fds⟩ := result
    obtain ⟨final, same, held, redirected⟩ := known
    subst same
    have outPlain : Plain (final.get .output) :=
      redirected.plain (.inl (by simp [Carried.get, vacant, Plain]))
    have plain : (carried.input.isSome = true → opened = true →
        stage.redirections.any (·.1 == .input) = true) →
        ∀ direction, Plain (final.get direction) := by
      intro replaced direction
      cases direction with
      | input => exact input_plain redirected letsGo replaced
      | output => exact outPlain
    cases opened with
    | false =>
      have plain := plain fun _ done => absurd done Bool.false_ne_true
      exact errorExit_free (.inr (.inr (held.noPipe free plain)))
    | true =>
      -- what `letsGo` says about the ending, for a stage behind a pipe
      have ended : carried.input.isSome = true → stage.redirections.any (·.1 == .input) = true ∨
          (match stage.ending with
            | .none | .and => !stage.argv.isEmpty
            | .pipe | .missing _ => false
            | .background | .blank => true) = true := by
        intro piped
        have letsGo := letsGo piped
        simp only [Stage.letsGo, Bool.and_eq_true, Bool.or_eq_true] at letsGo
        exact letsGo.1.2
      simp only [if_true]
      cases ending : stage.ending with
      | none =>
        exact runEnding_none_free ending free held fun empty =>
          plain fun piped _ => (ended piped).resolve_right (by simp [ending, empty])
      | pipe =>
        have plain := plain fun piped _ => (ended piped).resolve_right (by simp [ending])
        refine runEnding_pipe_free ending free held redirected letsGo unpiped plain
          fun nonempty external _ _ _ _ read => ?_
        have later := careful.2.resolve_left (by simp [Stage.passes, ending, nonempty, external])
        rw [ending] at later
        exact ih read free rfl (fun none => by cases none) later
      | and =>
        have later := careful.2.resolve_left (by simp [Stage.passes, ending])
        rw [ending] at later
        exact runEnding_and_free ending free held
          (fun empty => plain fun piped _ => (ended piped).resolve_right (by simp [ending, empty]))
          fun still cleared => ih cleared still rfl (fun _ => rfl) later
      | background => exact runEnding_background_free ending
      | missing direction =>
        have plain := plain fun piped _ => (ended piped).resolve_right (by simp [ending])
        exact runEnding_missing_free ending (held.noPipe free plain)
      | blank =>
        simp only [runEnding, ending]
        exact ⟨False.elim, fun reply => reply.elim⟩

/-- The file is an end of a pipe from number `first` on. -/
def isPipeFrom (first : Nat) : File → Bool
  | .pipeRead pipe => first ≤ pipe
  | .pipeWrite pipe => first ≤ pipe
  | _ => false

/-- Every call succeeds, except that no descriptor is opened while a pipe is open. -/
def grudging (first : Nat) : Policy :=
  { obliging with refuses := fun shell _ => shell.table.anyFile (isPipeFrom first) }

theorem anyFile_isPipeFrom {table : FdTable File} :
    table.anyFile (isPipeFrom first) = true ↔ ¬ NoPipe first table.file := by
  rw [FdTable.anyFile_eq_true]
  constructor
  · rintro ⟨fd, file, here, found⟩ free
    cases file with
    | pipeRead pipe => exact (free fd pipe (by simpa [isPipeFrom] using found)).1 here
    | pipeWrite pipe => exact (free fd pipe (by simpa [isPipeFrom] using found)).2 here
    | inherited | regular => cases found
  · intro held
    simp only [NoPipe, not_forall] at held
    obtain ⟨fd, pipe, later, held⟩ := held
    by_cases read : table.file fd = some (.pipeRead pipe)
    · exact ⟨fd, _, read, by simpa [isPipeFrom] using later⟩
    · by_cases write : table.file fd = some (.pipeWrite pipe)
      · exact ⟨fd, _, write, by simpa [isPipeFrom] using later⟩
      · exact (held ⟨read, write⟩).elim

section

variable {service : Service Call Call.Reply Shell}

private theorem noPipe_of_errorExit {pids : List Pid} {fds : Fds} {after : Unit → Shell → Prop}
    (safe : service.Ensures (WaitsFree first) after (errorExit false pids fds) shell)
    (busy : pids ≠ []) : NoPipe first shell.table.file := by
  obtain ⟨pid, pids, rfl⟩ := List.exists_cons_of_ne_nil busy
  exact safe.1 trivial

end

variable {fds : Fds} {pids : List Pid}

private theorem noPipe_of_waitAnd {pids : List Pid} {andPid : Option Pid}
    {rest : Nat → Prog Unit} {after : Unit → Shell → Prop}
    (safe : (Service.computed (grudging first).answer).Ensures (WaitsFree first) after
      (waitAnd pids andPid >>= rest) shell)
    (busy : pids ≠ []) : NoPipe first shell.table.file := by
  obtain ⟨pid, pids, rfl⟩ := List.exists_cons_of_ne_nil busy
  exact (safe.2 0 shell rfl).1 trivial

private theorem openAll_refused {target : Text} {rest : List (Direction × Text)}
    (held : ¬ NoPipe first shell.table.file) (vacant : fds.fdOut = none) :
    (Service.computed (grudging first).answer).Returns
      (fun result after => result = (false, fds) ∧ after.table = shell.table)
      (openAll ((.output, target) :: rest) fds) shell := by
  have refused : (grudging first).refuses shell (.openFile .output target) = true :=
    anyFile_isPipeFrom.mpr held
  simp only [openAll, Fds.get, vacant, closeIfOpen, pure_bind]
  refine ⟨trivial, fun reply after served => ?_⟩
  simp only [Service.computed, Policy.answer, refused, if_true] at served
  obtain ⟨rfl, rfl⟩ := Prod.mk.inj (Option.some.inj served)
  refine ⟨trivial, fun _ told served => ?_⟩
  simp only [Service.computed, Policy.answer] at served
  obtain ⟨-, rfl⟩ := Prod.mk.inj (Option.some.inj served)
  obtain ⟨fdIn, fdOut⟩ := fds
  obtain rfl : fdOut = none := vacant
  exact ⟨rfl, rfl⟩

private theorem openAll_grudging {redirections : List (Direction × Text)} (free : NoPipe first base)
    (carries : Carries base carried shell.table)
    (plain : redirections = [] ∨ ∀ direction, Plain (carried.get direction) ∨
      redirections.head?.map Prod.fst = some direction) :
    (Service.computed (grudging first).answer).Returns (fun result _ => result.1 = true)
      (openAll redirections carried.fds) shell := by
  induction redirections generalizing carried shell with
  | nil => rfl
  | cons redirection rest ih =>
    obtain ⟨direction, target⟩ := redirection
    have plain := plain.resolve_left nofun
    refine ((closeIfOpen_release _).permitted (grudging first).permits).bind
      fun _ closed same => ⟨trivial, fun reply opened served => ?_⟩
    have vacant := carries.closed direction same
    have others : ∀ held, Plain held → ∀ other,
        Plain ((carried.set direction held).get other) := by
      intro held simple other
      rw [Carried.get_set]
      split
      · exact simple
      · next apart => exact (plain other).resolve_right (by simpa using Ne.symm apart)
    have granted : (grudging first).refuses closed (.openFile direction target) = false := by
      rw [← Bool.not_eq_true]
      exact fun refused => anyFile_isPipeFrom.mp refused (vacant.noPipe free (others _ Plain.none))
    simp only [Service.computed, Policy.answer, granted, Bool.false_eq_true, if_false] at served
    obtain ⟨rfl, rfl⟩ := Prod.mk.inj (Option.some.inj served)
    have held : Carries base (carried.set direction
        (some (closed.table.lowest, .regular closed.files target direction)))
        (closed.addFile direction target).table := by
      have added := vacant.opened direction (by simp [Carried.get_set]) closed.table.file_lowest
        (closed.table.file_set _ (.regular closed.files target direction))
      rwa [Carried.set_set] at added
    have run := ih held (.inr fun other => .inl (others _ (fun fd file same =>
      ⟨closed.files, target, direction, (congrArg Prod.snd (Option.some.inj same)).symm⟩) other))
    rwa [Carried.fds_set] at run

private theorem openPipe_grudging (left right : Nat) (fdOut : Option Fd) :
    (Service.computed (grudging first).answer).Returns
      (fun reply after => (NoPipe first shell.table.file → reply ≠ none) ∧
        (¬ NoPipe first shell.table.file → reply = none ∧ after.table = shell.table))
      (openPipe left right fdOut) shell := by
  by_cases free : NoPipe first shell.table.file
  · have granted : (grudging first).refuses shell (.pipe left right) = false := by
      rw [← Bool.not_eq_true]
      exact fun refused => anyFile_isPipeFrom.mp refused free
    exact (openPipe_granted granted fdOut).returns fun reply after given =>
      ⟨fun _ => given.1, fun held => (held free).elim⟩
  · have refused : (grudging first).refuses shell (.pipe left right) = true :=
      anyFile_isPipeFrom.mpr free
    refine ⟨trivial, fun reply after served => ?_⟩
    simp only [Service.computed, Policy.answer, refused, if_true] at served
    obtain ⟨rfl, rfl⟩ := Prod.mk.inj (Option.some.inj served)
    refine ⟨trivial, fun _ told served => ?_⟩
    simp only [Service.computed, Policy.answer] at served
    obtain ⟨-, rfl⟩ := Prod.mk.inj (Option.some.inj served)
    exact ⟨fun given => (free given).elim, fun _ => ⟨rfl, rfl⟩⟩

/-- A stage behind a pipe: the pipe's read end is carried, and there is something to wait for. -/
private structure BehindPipe (first : Nat) (carried : Carried) (pids : List Pid) : Prop where
  carries : ∃ fd pipe, first ≤ pipe ∧ carried.input = some (fd, .pipeRead pipe)
  busy : pids ≠ []

private theorem BehindPipe.held {table : FdTable File} (behind : BehindPipe first carried pids)
    (carries : Carries base carried table) : ¬ NoPipe first table.file := by
  obtain ⟨fd, pipe, later, input⟩ := behind.carries
  intro free
  exact (free fd pipe later).1 (carries.file_of_get (show carried.get .input = _ from input))

private theorem stage_opened {stage : Stage} {rest : List Stage} (free : NoPipe first base)
    (carries : Carries base carried shell.table) (vacant : carried.output = none)
    (behind : carried.input.isSome = true → BehindPipe first carried pids)
    (safe : (Service.computed (grudging first).answer).Ensures (WaitsFree first) (fun _ _ => True)
      (runStages (stage :: rest) carried.fds pids) shell) :
    (carried.input.isSome = true → stage.redirections.head?.map Prod.fst ≠ some .output) ∧
      ∃ (final : Carried) (middle : Shell), Carries base final middle.table ∧
        Redirected shell.files stage.redirections carried true final ∧
        (∃ made, middle.pipes = shell.pipes ++ made) ∧
        (Service.computed (grudging first).answer).Ensures (WaitsFree first) (fun _ _ => True)
          (runEnding (runStages rest) stage final.fds pids) middle := by
  have notOutput : carried.input.isSome = true →
      stage.redirections.head?.map Prod.fst ≠ some .output := by
    intro piped atHead
    have held := (behind piped).held carries
    obtain ⟨⟨direction, target⟩, others, same⟩ :
        ∃ redirection others, stage.redirections = redirection :: others := by
      cases redirections : stage.redirections with
      | nil => simp [redirections] at atHead
      | cons redirection others => exact ⟨_, _, rfl⟩
    obtain rfl : direction = .output := by simpa [same] using atHead
    rw [runStages, same] at safe
    have refused : (Service.computed (grudging first).answer).Returns
        (fun result after => result = (false, carried.fds) ∧ after.table = shell.table)
        (openAll ((.output, target) :: others) carried.fds) shell :=
      openAll_refused held (by simp [Carried.fds, vacant])
    obtain ⟨_, middle, ⟨rfl, unchanged⟩, exit⟩ :=
      safe.proceed refused (openAll_faultless _ _) (grudging first).total
    refine held ?_
    rw [← unchanged]
    exact noPipe_of_errorExit exit (behind piped).busy
  refine ⟨notOutput, ?_⟩
  have plain : stage.redirections = [] ∨ ∀ direction, Plain (carried.get direction) ∨
      stage.redirections.head?.map Prod.fst = some direction := by
    cases redirections : stage.redirections with
    | nil => exact .inl rfl
    | cons redirection others =>
      refine .inr fun direction => ?_
      cases direction with
      | output => exact .inl (by simp [Carried.get, vacant, Plain])
      | input =>
        cases input : carried.input with
        | none => exact .inl (by simp [Carried.get, input, Plain])
        | some held =>
          have other := notOutput (by simp [input])
          obtain ⟨- | -, target⟩ := redirection
          · exact .inr rfl
          · simp [redirections] at other
  obtain ⟨⟨opened, fds⟩, middle, ⟨⟨⟨final, same, held, redirected⟩, grown⟩, done⟩, next⟩ :=
    safe.proceed ((((openAll_carries carries).and (returns_pipes _)).permitted
      (grudging first).permits).and (openAll_grudging free carries plain))
      (openAll_faultless _ _) (grudging first).total
  subst same done
  exact ⟨final, middle, held, redirected, grown, next⟩

private theorem final_plain {stage : Stage} {serial : Nat} {final : Carried}
    (redirected : Redirected serial stage.redirections carried true final)
    (vacant : carried.output = none)
    (replaced : carried.input.isSome = true → stage.redirections.any (·.1 == .input) = true)
    (direction : Direction) : Plain (final.get direction) := by
  cases direction with
  | output => exact redirected.plain (.inl (by simp [Carried.get, vacant, Plain]))
  | input =>
    cases input : carried.input with
    | none => exact redirected.plain (.inl (by simp [Carried.get, input, Plain]))
    | some held =>
      obtain ⟨⟨direction, target⟩, member, same⟩ :=
        List.any_eq_true.mp (replaced (by simp [input]))
      obtain rfl : direction = .input := by simpa using same
      exact redirected.plain (.inr (.inr ⟨rfl, target, member⟩))

private theorem ending_of_safe {stage : Stage} {rest : List Stage} {middle : Shell}
    (carries : Carries base carried middle.table) (behind : BehindPipe first carried pids)
    (safe : (Service.computed (grudging first).answer).Ensures (WaitsFree first) (fun _ _ => True)
      (runEnding (runStages rest) stage carried.fds pids) middle) :
    (match stage.ending with
      | .none | .and => !stage.argv.isEmpty
      | .pipe | .missing _ => false
      | .background | .blank => true) = true := by
  have held := behind.held carries
  have busy : pids ++ [] ≠ [] := by simpa using behind.busy
  unfold runEnding at safe
  cases ending : stage.ending with
  | none =>
    cases command : stage.argv with
    | nil =>
      simp only [ending, command] at safe
      exact (held (noPipe_of_errorExit safe busy)).elim
    | cons cmd args => rfl
  | pipe =>
    simp only [ending] at safe
    obtain ⟨reply, after, ⟨-, refused⟩, exit⟩ :=
      safe.proceed (openPipe_grudging _ _ _) (openPipe_faultless _ _ _) (grudging first).total
    obtain ⟨rfl, unchanged⟩ := refused held
    refine (held ?_).elim
    rw [← unchanged]
    exact noPipe_of_errorExit exit behind.busy
  | and =>
    cases command : stage.argv with
    | nil =>
      simp only [ending, command] at safe
      exact (held (noPipe_of_waitAnd safe busy)).elim
    | cons cmd args => rfl
  | missing direction =>
    simp only [ending] at safe
    have exit : (Service.computed (grudging first).answer).Ensures (WaitsFree first)
        (fun _ _ => True) (errorExit false pids carried.fds)
        (middle.note (.complained (syntaxError direction))) := safe.2 () _ rfl
    have gone : NoPipe first (middle.note (.complained (syntaxError direction))).table.file :=
      noPipe_of_errorExit exit behind.busy
    exact (held gone).elim
  | background => rfl
  | blank => rfl

private theorem output_of_safe {stage : Stage} {rest : List Stage} {middle : Shell}
    (free : NoPipe first base) (carries : Carries base carried middle.table)
    (plain : ∀ direction, Plain (carried.get direction)) (later : first ≤ middle.pipes.length)
    (busy : pids ≠ []) (ending : stage.ending = .pipe) (empty : stage.argv = [])
    (safe : (Service.computed (grudging first).answer).Ensures (WaitsFree first) (fun _ _ => True)
      (runEnding (runStages rest) stage carried.fds pids) middle) :
    carried.output ≠ none := by
  intro vacant
  unfold runEnding at safe
  simp only [ending, empty] at safe
  obtain ⟨reply, after, ⟨⟨granted, -⟩, made⟩, exit⟩ :=
    safe.proceed ((openPipe_grudging _ _ _).and
      ((openPipe_carries _ _ carries).permitted (grudging first).permits))
      (openPipe_faultless _ _ _) (grudging first).total
  rcases made with ⟨rfl, -⟩ | ⟨readEnd, writeEnd, rfl, unused, both⟩
  · exact granted (carries.noPipe free plain) rfl
  have exit : (Service.computed (grudging first).answer).Ensures (WaitsFree first)
      (fun _ _ => True) (errorExit false pids .none) (after.drop readEnd) := exit.2 () _ rfl
  have gone : NoPipe first (after.drop readEnd).table.file := noPipe_of_errorExit exit busy
  have output : (carried.set .output (some (carried.left middle.pipes.length writeEnd))).get
      .output = some (writeEnd, .pipeWrite middle.pipes.length) := by
    simp [Carried.get_set, Carried.left, vacant]
  have apart : writeEnd ≠ readEnd := by
    have outFree := both.free .output _ output
    rintro rfl
    simp at outFree
  refine (gone writeEnd _ later).2 ?_
  simpa [Shell.drop, Function.update_of_ne apart] using both.file_of_get output

private theorem rest_of_pipe {stage : Stage} {rest : List Stage} {middle : Shell}
    (free : NoPipe first base) (carries : Carries base carried middle.table)
    (plain : ∀ direction, Plain (carried.get direction)) (later : first ≤ middle.pipes.length)
    (ending : stage.ending = .pipe) (passes : stage.passes = true)
    (safe : (Service.computed (grudging first).answer).Ensures (WaitsFree first) (fun _ _ => True)
      (runEnding (runStages rest) stage carried.fds pids) middle) :
    ∃ (next : Carried) (pids : List Pid) (after : Shell), Carries base next after.table ∧
      next.output = none ∧ next.input.isSome = true ∧ BehindPipe first next pids ∧
      first ≤ after.pipes.length ∧
      (Service.computed (grudging first).answer).Ensures (WaitsFree first) (fun _ _ => True)
        (runStages rest next.fds pids) after := by
  unfold runEnding at safe
  simp only [ending] at safe
  obtain ⟨reply, piped, ⟨⟨⟨granted, -⟩, made⟩, grown⟩, exit⟩ :=
    safe.proceed (((openPipe_grudging _ _ _).and
      ((openPipe_carries _ _ carries).permitted (grudging first).permits)).and
      ((returns_pipes _).permitted (grudging first).permits))
      (openPipe_faultless _ _ _) (grudging first).total
  rcases made with ⟨rfl, -⟩ | ⟨readEnd, writeEnd, rfl, unused, both⟩
  · exact (granted (carries.noPipe free plain) rfl).elim
  cases command : stage.argv with
  | nil => simp [Stage.passes, ending, command] at passes
  | cons cmd args =>
    have external : isBuiltin (cmd :: args) = false := by
      simpa [Stage.passes, ending, command] using passes
    rw [command] at exit
    let left := carried.set .output (some (carried.left middle.pipes.length writeEnd))
    have ran := @execute_granted (grudging first) piped _ left stage.start cmd args external both
    obtain ⟨pid, after, ⟨⟨⟨wider, -, same, read⟩, further⟩, child, -, -, rfl, -⟩, next⟩ :=
      exit.proceed ((((execute_left_leaves unused (carries.apart_of_unused unused) both).and
        (returns_pipes _)).permitted (grudging first).permits).and ran)
        (execute_faultless _ _ _ _) (grudging first).total
    obtain rfl := same (List.cons_ne_nil cmd args)
    obtain ⟨some', one⟩ := grown
    obtain ⟨more, two⟩ := further
    refine ⟨_, _, after, read, rfl, rfl, ⟨⟨_, _, later, rfl⟩, by simp⟩, ?_, next⟩
    rw [two, one]
    simp only [List.length_append]
    omega

private theorem rest_of_and {stage : Stage} {rest : List Stage} {middle : Shell}
    (free : NoPipe first base) (carries : Carries base carried middle.table)
    (plain : stage.argv = [] → ∀ direction, Plain (carried.get direction))
    (later : first ≤ middle.pipes.length) (ending : stage.ending = .and)
    (safe : (Service.computed (grudging first).answer).Ensures (WaitsFree first) (fun _ _ => True)
      (runEnding (runStages rest) stage carried.fds pids) middle) :
    ∃ (wider : Fd → Option File) (after : Shell), NoPipe first wider ∧
      Carries wider .none after.table ∧ first ≤ after.pipes.length ∧
      (Service.computed (grudging first).answer).Ensures (WaitsFree first) (fun _ _ => True)
        (runStages rest .none []) after := by
  have exiting : Exiting (grudging first) fun _ => 0 := fun _ _ => rfl
  unfold runEnding at safe
  simp only [ending] at safe
  have executes : (kernel true).Returns
      (fun _ after => ∃ wider, NoPipe first wider ∧ Carries wider .none after.table)
      (execute stage.start stage.argv carried.fds.fdIn carried.fds.fdOut) middle :=
    (execute_free free carries plain).returns fun _ _ held => held
  obtain ⟨andPid, executed, ⟨⟨wider, still, cleared⟩, grown⟩, exit⟩ :=
    safe.proceed ((executes.and (returns_pipes _)).permitted (grudging first).permits)
      (execute_faultless _ _ _ _) (grudging first).total
  obtain ⟨last, after, ⟨same, found⟩, next⟩ :=
    exit.proceed (waitAnd_granted exiting pids andPid) (waitAnd_faultless _ _) (grudging first).total
  have passed : andFailed last = false := by
    rw [found]
    cases andPid with
    | none => exact andFailed_zero
    | some pid => exact andFailed_exited 0
  rw [if_neg (by simp [passed])] at next
  refine ⟨wider, after, still, cleared.congr (by rw [same]), ?_, next⟩
  obtain ⟨made, one⟩ := grown
  rw [same]
  simp only [one, List.length_append]
  omega

/-- If the shell never waits with a pipe end open whatever happens, the line is careful. -/
theorem prudent_of_safe {stages : List Stage} (carries : Carries base carried shell.table)
    (free : NoPipe first base) (vacant : carried.output = none)
    (later : first ≤ shell.pipes.length)
    (behind : carried.input.isSome = true → BehindPipe first carried pids)
    (safe : (Service.computed (grudging first).answer).Ensures (WaitsFree first) (fun _ _ => True)
      (runStages stages carried.fds pids) shell) :
    prudent carried.input.isSome stages = true := by
  induction stages generalizing base carried shell pids with
  | nil =>
    cases piped : carried.input.isSome with
    | false => rfl
    | true =>
      have behind := behind piped
      exact (behind.held carries (noPipe_of_errorExit safe behind.busy)).elim
  | cons stage rest ih =>
    obtain ⟨notOutput, final, middle, held, redirected, grown, next⟩ :=
      stage_opened free carries vacant behind safe
    have later : first ≤ middle.pipes.length := by
      obtain ⟨made, same⟩ := grown
      rw [same, List.length_append]
      omega
    have replaced : carried.input.isSome = true →
        stage.redirections.any (·.1 == .input) = true ∨ stage.redirections = [] := by
      intro piped
      have first := notOutput piped
      cases redirections : stage.redirections with
      | nil => exact .inr rfl
      | cons redirection others =>
        obtain ⟨- | -, target⟩ := redirection
        · exact .inl (by simp)
        · simp [redirections] at first
    have ended : carried.input.isSome = true →
        stage.redirections.any (·.1 == .input) = true ∨
          (match stage.ending with
            | .none | .and => !stage.argv.isEmpty
            | .pipe | .missing _ => false
            | .background | .blank => true) = true := by
      intro piped
      rcases replaced piped with given | none
      · exact .inl given
      · rw [none] at redirected
        cases redirected
        exact .inr (ending_of_safe held (behind piped) next)
    have written : carried.input.isSome = true → stage.ending = .pipe → stage.argv = [] →
        stage.redirections.any (·.1 == .output) = true := by
      intro piped ending empty
      have given := (ended piped).resolve_right (by simp [ending])
      by_contra none
      refine output_of_safe free held (final_plain redirected vacant fun _ => given)
        later (behind piped).busy ending empty next ?_
      have kept : final.get .output = carried.get .output := redirected.kept fun target member =>
        none (List.any_eq_true.mpr ⟨_, member, rfl⟩)
      exact kept.trans vacant
    have letsGo : carried.input.isSome = true → stage.letsGo = true := by
      intro piped
      have notOutput := notOutput piped
      have ended := ended piped
      have written := written piped
      simp only [Stage.letsGo, Bool.and_eq_true, Bool.or_eq_true, bne_iff_ne]
      refine ⟨⟨notOutput, ended⟩, ?_⟩
      by_cases ending : stage.ending = .pipe
      · by_cases empty : stage.argv = []
        · exact .inr (written ending empty)
        · exact .inl (.inr (by simpa using empty))
      · exact .inl (.inl ending)
    have going : stage.passes = true → prudent (stage.ending = .pipe) rest = true := by
      intro passes
      cases ending : stage.ending with
      | pipe =>
        have plain := final_plain redirected vacant fun piped =>
          (ended piped).resolve_right (by simp [ending])
        obtain ⟨next', pids', after, carries', vacant', piped', behind', later', safe'⟩ :=
          rest_of_pipe free held plain later ending passes next
        have careful := ih carries' free vacant' later' (fun _ => behind') safe'
        rwa [piped'] at careful
      | and =>
        have plain : stage.argv = [] → ∀ direction, Plain (final.get direction) := fun empty =>
          final_plain redirected vacant fun piped =>
            (ended piped).resolve_right (by simp [ending, empty])
        obtain ⟨wider, after, still, cleared, later', safe'⟩ :=
          rest_of_and free held plain later ending next
        exact ih cleared still rfl later' nofun safe'
      | none | background | missing | blank => simp [Stage.passes, ending] at passes
    simp only [prudent, Bool.and_eq_true, Bool.or_eq_true, Bool.not_eq_true']
    refine ⟨?_, ?_⟩
    · cases piped : carried.input.isSome with
      | false => exact .inl rfl
      | true => exact .inr (letsGo piped)
    · cases passes : stage.passes with
      | false => exact .inl rfl
      | true => exact .inr (going passes)

/-- Whenever a call of `is_executable` on these tokens waits for a process, the shell has
no end of a pipe of this line open. -/
def WaitsWithoutPipes (entry : Shell) (tokens : List Text) : Prop :=
  ∀ pid next state, (kernel true).Reach (isExecutable tokens, entry) (.ask (.waitpid pid) next, state) →
    NoPipe entry.pipes.length state.table.file

/-- The shell never waits with a pipe of the line open, whatever happens to its calls,
exactly if every command behind a `|` lets go of the pipe in time. -/
theorem waitsWithoutPipes_iff {entry : Shell} (called : Called entry) (tokens : List Text) :
    WaitsWithoutPipes entry tokens ↔ prudent false (stages tokens) = true := by
  have ready := called.ready
  have carries := carries_none ready.standardIn ready.standardOut
  rw [WaitsWithoutPipes, isExecutable_eq]
  constructor
  · intro waits
    have safe : (kernel true).Ensures (WaitsFree entry.pipes.length) (fun _ _ => True)
        (runStages (stages tokens) .none []) entry := by
      refine (Service.ensures_iff_reach (kernel_quiet true)).mpr ⟨?_, fun _ _ _ => trivial⟩
      intro asked next state reach isWaitpid
      cases asked <;> first | exact isWaitpid.elim | exact waits _ _ _ reach
    exact prudent_of_safe carries ready.sound rfl (Nat.le_refl _) nofun
      (safe.permitted (grudging entry.pipes.length).permits)
  · intro careful pid next state reach
    have safe : (kernel true).Ensures (WaitsFree entry.pipes.length) (fun _ _ => True)
        (runStages (stages tokens) .none []) entry :=
      runStages_free carries ready.sound rfl (fun _ => rfl) careful
    exact (safe.reach (kernel_quiet true) reach).1 trivial

theorem waitsWithoutPipes_iff_pipeline :
    WaitsWithoutPipes { Shell.initial with line := 1 } ["a".toList, "|".toList, "b".toList] :=
  (waitsWithoutPipes_iff ⟨[], .reply rfl (.refl _)⟩ _).mpr (by decide)

/-- On `a | b <` the shell waits for `a` with the read end of the pipe open. -/
theorem not_waitsWithoutPipes_missing :
    ¬ WaitsWithoutPipes { Shell.initial with line := 1 }
      ["a".toList, "|".toList, "b".toList, "<".toList] := by
  intro waits
  let entry : Shell := { Shell.initial with line := 1 }
  let program := isExecutable ["a".toList, "|".toList, "b".toList, "<".toList]
  have visited : ∃ state, (Call.waitpid 1, state) ∈ program.trail obliging.answer entry ∧
      state.table.file 3 = some (.pipeRead 0) := by
    refine ⟨((program.trail obliging.answer entry).find? fun visit =>
      visit.1 = .waitpid 1).elim entry Prod.snd, ?_⟩
    decide
  obtain ⟨state, visited, held⟩ := visited
  obtain ⟨next, reach⟩ := Service.reach_of_mem_trail obliging.permits visited
  exact (waits 1 next state reach 3 0 (Nat.zero_le _)).1 held

end Lsnp.Lab
