import Lsnp.Lab.Session
import Lsnp.Lab.Zombies

namespace Lsnp.Lab

open Lsnp.Interaction Lsnp.Unix

/-- The process was forked for the command on the left of the pipe. -/
def IsLeft (record : PipeRecord) (child : Fork) : Prop :=
  child.line = record.line ∧ child.arglist = record.left

/-- The process was forked for the command on the right of the pipe. -/
def IsRight (record : PipeRecord) (child : Fork) : Prop :=
  child.line = record.line ∧ child.arglist = record.right

/-- Once the process that reads a pipe has been forked, only the one on the left was
forked with its write end, and the shell does not have it. -/
def Sealed (shell : Shell) : Prop :=
  ∀ pipe record, shell.pipes[pipe]? = some record →
    (∃ reader ∈ forks shell.log, IsRight record reader) →
      ¬ shell.table.Holds (.pipeWrite pipe) ∧
        ∀ child ∈ forks shell.log, child.table.Holds (.pipeWrite pipe) → IsLeft record child

/-- No process was forked for the command on the right of one of these pipes. -/
def Unread (first : Nat) (shell : Shell) : Prop :=
  ∀ pipe record, first ≤ pipe → shell.pipes[pipe]? = some record →
    ∀ child ∈ forks shell.log, ¬ IsRight record child

/-- What is the case when the shell makes a pipe or forks a process: every command of the
line that was started is in front of the right side of the pipe; a process on the right of
a pipe is forked only if `flag`, and when nobody but the left one can write to it. -/
def Wires (flag : Prop) (asked : Call) (shell : Shell) : Prop :=
  match asked with
  | .pipe _ right => ∀ child ∈ forks shell.log, child.line = shell.line → child.arglist < right
  | .fork arglist _ => ∀ pipe record, shell.pipes[pipe]? = some record →
      record.line = shell.line → record.right = arglist →
        flag ∧ ¬ shell.table.Holds (.pipeWrite pipe) ∧
          ∀ child ∈ forks shell.log, child.table.Holds (.pipeWrite pipe) → IsLeft record child
  | _ => True

variable {theft : Bool} {shell after : Shell} {flag : Prop} {first : Nat}

/-- A call that makes no pipe, forks nothing and reads no line, as far as pipes go. -/
theorem serve_inert {asked : Call} {reply : asked.Reply}
    (served : (kernel theft).serve shell asked reply after) (fork : ¬ asked.isFork)
    (pipe : ∀ left right, asked ≠ .pipe left right) (fgets : asked ≠ .fgets) :
    forks after.log = forks shell.log ∧ after.pipes = shell.pipes ∧ after.line = shell.line ∧
      ∀ pipe, after.table.Holds (.pipeWrite pipe) → shell.table.Holds (.pipeWrite pipe) := by
  have copied : ∀ {fd standard : Fd} {file : File}, shell.table.file fd = some file →
      ∀ pipe, (shell.install standard file).table.Holds (.pipeWrite pipe) →
        shell.table.Holds (.pipeWrite pipe) := by
    intro fd standard file found pipe held
    rcases held.of_set with rfl | held
    · exact ⟨fd, found⟩
    · exact held
  cases asked <;> simp only [kernel, serve] at served
  case fork => exact (fork trivial).elim
  case pipe left right => exact (pipe left right rfl).elim
  case fgets => exact (fgets rfl).elim
  case fault => exact reply.elim
  case dup | dup2 =>
    rcases served with ⟨-, rfl⟩ | ⟨file, found, -, rfl⟩
    · exact ⟨rfl, rfl, rfl, fun _ held => held⟩
    · exact ⟨rfl, rfl, rfl, copied found⟩
  case restore =>
    rcases served with ⟨-, rfl⟩ | ⟨file, found, rfl⟩
    · exact ⟨rfl, rfl, rfl, fun _ held => held⟩
    · exact ⟨rfl, rfl, rfl, copied found⟩
  case openFile =>
    rcases served with ⟨-, rfl⟩ | ⟨-, rfl⟩
    · exact ⟨rfl, rfl, rfl, fun _ held => held⟩
    · refine ⟨by simp [Shell.addFile, forks], rfl, rfl, fun pipe held => ?_⟩
      exact held.of_set.resolve_left fun same => by cases same
  case close =>
    subst served
    exact ⟨rfl, rfl, rfl, fun _ held => held.of_close⟩
  case waitpid =>
    rcases served with ⟨rfl, -⟩
    exact ⟨by simp, rfl, rfl, fun _ held => held⟩
  all_goals
    subst served
    exact ⟨by simp [Shell.note, Shell.flush, Shell.print, forks], rfl, rfl, fun _ held => held⟩

private theorem listed_cases {pipes : List PipeRecord} {made record : PipeRecord} {pipe : Nat}
    (found : (pipes ++ [made])[pipe]? = some record) :
    pipes[pipe]? = some record ∨ pipe = pipes.length ∧ record = made := by
  rcases Nat.lt_trichotomy pipe pipes.length with old | rfl | beyond
  · rw [List.getElem?_append_left old] at found
    exact .inl found
  · right
    simpa [eq_comm] using found
  · rw [List.getElem?_eq_none (by simp; omega)] at found
    cases found

theorem serve_sealed {asked : Call} {reply : asked.Reply} (wires : Wires flag asked shell)
    (held : Sealed shell) (served : (kernel theft).serve shell asked reply after) :
    Sealed after := by
  intro pipe record found right
  cases asked
  case fork arglist argv =>
    rcases served with ⟨-, rfl⟩ | ⟨pid, -, rfl⟩
    · exact held pipe record found right
    · -- the new process has the descriptors of the shell
      obtain ⟨reader, member, right⟩ := right
      have closed : ¬ shell.table.Holds (.pipeWrite pipe) ∧
          ∀ child ∈ forks shell.log, child.table.Holds (.pipeWrite pipe) → IsLeft record child := by
        simp only [Shell.forks_note_forked, List.mem_append, List.mem_singleton] at member
        rcases member with member | rfl
        · exact held pipe record found ⟨reader, member, right⟩
        · exact (wires pipe record found right.1.symm right.2.symm).2
      refine ⟨closed.1, fun child member holds => ?_⟩
      simp only [Shell.forks_note_forked, List.mem_append, List.mem_singleton] at member
      rcases member with member | rfl
      · exact closed.2 child member holds
      · exact (closed.1 holds).elim
  case pipe left right' =>
    rcases served with ⟨-, rfl⟩ | ⟨-, rfl⟩
    · exact held pipe record found right
    · obtain ⟨reader, member, right⟩ := right
      rcases listed_cases found with found | ⟨rfl, rfl⟩
      · obtain ⟨closed, others⟩ := held pipe record found ⟨reader, member, right⟩
        refine ⟨fun holds => closed ?_, others⟩
        have old := (List.getElem?_eq_some_iff.mp found).1
        rcases holds.of_set with same | holds
        · simp at same
          omega
        · exact holds.of_set.resolve_left nofun
      · have below := wires reader member right.1
        rw [right.2] at below
        exact (Nat.lt_irrefl _ below).elim
  case fgets =>
    obtain rfl : after = { shell with line := shell.line + 1 } := served
    exact held pipe record found right
  all_goals
    obtain ⟨sameForks, samePipes, -, shrinks⟩ := serve_inert served id nofun nofun
    rw [samePipes] at found
    rw [sameForks] at right ⊢
    obtain ⟨closed, others⟩ := held pipe record found right
    exact ⟨fun holds => closed (shrinks pipe holds), others⟩

theorem serve_unread {asked : Call} {reply : asked.Reply} (wires : Wires False asked shell)
    (unread : Unread first shell) (served : (kernel theft).serve shell asked reply after) :
    Unread first after := by
  intro pipe record later found child member right
  cases asked
  case fork arglist argv =>
    rcases served with ⟨-, rfl⟩ | ⟨pid, -, rfl⟩
    · exact unread pipe record later found child member right
    · simp only [Shell.forks_note_forked, List.mem_append, List.mem_singleton] at member
      rcases member with member | rfl
      · exact unread pipe record later found child member right
      · exact (wires pipe record found right.1.symm right.2.symm).1
  case pipe left right' =>
    rcases served with ⟨-, rfl⟩ | ⟨-, rfl⟩
    · exact unread pipe record later found child member right
    · rcases listed_cases found with found | ⟨rfl, rfl⟩
      · exact unread pipe record later found child member right
      · have below := wires child member right.1
        rw [right.2] at below
        exact Nat.lt_irrefl _ below
  case fgets =>
    obtain rfl : after = { shell with line := shell.line + 1 } := served
    exact unread pipe record later found child member right
  all_goals
    obtain ⟨sameForks, samePipes, -, -⟩ := serve_inert served id nofun nofun
    rw [samePipes] at found
    rw [sameForks] at member
    exact unread pipe record later found child member right

/-- Every pipe end that a process was forked with belongs to a pipe made before, and
nothing belongs to a line that has not been read. -/
structure Known (shell : Shell) : Prop where
  sound : Sound shell
  children : ∀ child ∈ forks shell.log, NoPipe shell.pipes.length child.table.file
  lines : ∀ child ∈ forks shell.log, child.line ≤ shell.line
  records : ∀ record ∈ shell.pipes, record.line ≤ shell.line

theorem initial_known : Known .initial := ⟨initial_ready.sound, nofun, nofun, nofun⟩

theorem serve_known {asked : Call} {reply : asked.Reply} (known : Known shell)
    (served : (kernel theft).serve shell asked reply after) : Known after := by
  have sound := serve_sound known.sound served
  cases asked
  case fork arglist argv =>
    rcases served with ⟨-, rfl⟩ | ⟨pid, -, rfl⟩
    · exact known
    · refine ⟨sound, fun child member => ?_, fun child member => ?_, known.records⟩
      · simp only [Shell.forks_note_forked, List.mem_append, List.mem_singleton] at member
        rcases member with member | rfl
        · exact known.children child member
        · exact known.sound
      · simp only [Shell.forks_note_forked, List.mem_append, List.mem_singleton] at member
        rcases member with member | rfl
        · exact known.lines child member
        · exact Nat.le_refl _
  case pipe left right =>
    rcases served with ⟨-, rfl⟩ | ⟨-, rfl⟩
    · exact known
    · refine ⟨sound, fun child member => ?_, known.lines, fun record member => ?_⟩
      · refine (known.children child member).later ?_
        simp [Shell.addPipe]
      · rcases List.mem_append.mp member with member | new
        · exact known.records record member
        · obtain rfl := List.mem_singleton.mp new
          exact Nat.le_refl _
  case fgets =>
    obtain rfl : after = { shell with line := shell.line + 1 } := served
    exact ⟨sound, known.children, fun child member => Nat.le_succ_of_le (known.lines child member),
      fun record member => Nat.le_succ_of_le (known.records record member)⟩
  all_goals
    obtain ⟨sameForks, samePipes, sameLine, -⟩ :=
      serve_inert served id (fun _ _ same => by cases same) fun same => by cases same
    refine ⟨sound, ?_, ?_, ?_⟩
    · rw [sameForks, samePipes]
      exact known.children
    · rw [sameForks, sameLine]
      exact known.lines
    · rw [samePipes, sameLine]
      exact known.records

/-- A process is forked for a command that is not empty, no builtin, and followed by
nothing that keeps it from being run. -/
def Stage.forksOne (stage : Stage) : Bool :=
  !stage.argv.isEmpty && !isBuiltin stage.argv &&
    match stage.ending with
    | .missing _ | .blank => false
    | _ => true

/-- The loop can fork a process on the right of a pipe; `piped` says that a `|` is in
front of the first stage. -/
def startsRight : Bool → List Stage → Bool
  | _, [] => false
  | piped, stage :: rest =>
    piped && stage.forksOne || stage.passes && startsRight (stage.ending = .pipe) rest

/-- The pipes while the command at `slot` is dealt with: those made for it to read are
sealed, and a pipe it is to write to is the last one made and leads to `next`. -/
structure Wired (piped : Prop) (slot next : Nat) (shell : Shell) : Prop where
  known : Known shell
  below : ∀ child ∈ forks shell.log, child.line = shell.line → child.arglist ≤ slot
  behind : ∀ pipe record, shell.pipes[pipe]? = some record → record.line = shell.line →
    record.right = slot → piped ∧ ¬ shell.table.Holds (.pipeWrite pipe) ∧
      ∀ child ∈ forks shell.log, child.table.Holds (.pipeWrite pipe) → IsLeft record child
  ahead : ∀ pipe record, shell.pipes[pipe]? = some record → record.line = shell.line →
    slot < record.right → record.right = next ∧ record.left = slot ∧
      pipe + 1 = shell.pipes.length ∧
      ∀ child ∈ forks shell.log, child.table.Holds (.pipeWrite pipe) → IsLeft record child

/-- No pipe of the line leads beyond `slot` yet. -/
def Ends (slot : Nat) (shell : Shell) : Prop :=
  ∀ record ∈ shell.pipes, record.line = shell.line → record.right ≤ slot

variable {piped : Prop} {slot next : Nat}

theorem Wired.renext {other : Nat} (wired : Wired piped slot next shell) (ends : Ends slot shell) :
    Wired piped slot other shell where
  known := wired.known
  below := wired.below
  behind := wired.behind
  ahead pipe record found here beyond := by
    have within := ends record (List.mem_of_getElem? found) here
    omega

/-- The calls that deal with one command once its pipe is made. -/
def within (slot : Nat) (allowed : Prop) : Call → Prop
  | .pipe _ _ | .fgets => False
  | .fork arglist _ => arglist = slot ∧ allowed
  | _ => True

theorem serve_wired {allowed : Prop} {asked : Call} {reply : asked.Reply}
    (inside : within slot allowed asked) (wired : Wired piped slot next shell)
    (served : (kernel theft).serve shell asked reply after) :
    Wired piped slot next after ∧ after.pipes = shell.pipes ∧ after.line = shell.line := by
  have known := serve_known wired.known served
  by_cases fork : asked.isFork
  · cases asked <;> first | exact fork.elim | skip
    obtain ⟨rfl, -⟩ := inside
    rcases served with ⟨-, rfl⟩ | ⟨pid, -, rfl⟩
    · exact ⟨wired, rfl, rfl⟩
    · refine ⟨⟨known, ?_, ?_, ?_⟩, rfl, rfl⟩
      · intro child member here
        simp only [Shell.forks_note_forked, List.mem_append, List.mem_singleton] at member
        rcases member with member | rfl
        · exact wired.below child member here
        · exact Nat.le_refl _
      · intro pipe record found here same
        obtain ⟨front, closed, others⟩ := wired.behind pipe record found here same
        refine ⟨front, closed, fun child member holds => ?_⟩
        simp only [Shell.forks_note_forked, List.mem_append, List.mem_singleton] at member
        rcases member with member | rfl
        · exact others child member holds
        · exact (closed holds).elim
      · intro pipe record found here beyond
        obtain ⟨right, left, last, others⟩ := wired.ahead pipe record found here beyond
        refine ⟨right, left, last, fun child member holds => ?_⟩
        simp only [Shell.forks_note_forked, List.mem_append, List.mem_singleton] at member
        rcases member with member | rfl
        · exact others child member holds
        · exact ⟨here.symm, left.symm⟩
  · obtain ⟨sameForks, samePipes, sameLine, shrinks⟩ := serve_inert served fork
      (by rintro left right rfl; exact inside) (by rintro rfl; exact inside)
    refine ⟨⟨known, ?_, ?_, ?_⟩, samePipes, sameLine⟩
    · rw [sameForks, sameLine]
      exact wired.below
    · rw [sameForks, samePipes, sameLine]
      intro pipe record found here same
      obtain ⟨front, closed, others⟩ := wired.behind pipe record found here same
      exact ⟨front, fun holds => closed (shrinks pipe holds), others⟩
    · rw [sameForks, samePipes, sameLine]
      exact wired.ahead

theorem Wired.wires {asked : Call} (wired : Wired piped slot next shell)
    (inside : within slot (piped → flag) asked) : Wires flag asked shell := by
  cases asked
  case fork arglist argv =>
    obtain ⟨rfl, allowed⟩ := inside
    intro pipe record found here same
    obtain ⟨front, closed⟩ := wired.behind pipe record found here same
    exact ⟨allowed front, closed⟩
  case pipe => exact inside.elim
  all_goals trivial

theorem wired_ensures {α : Type} {program : Prog α} (wired : Wired piped slot next shell)
    (uses : program.uses (within slot (piped → flag))) :
    (kernel theft).Ensures (Wires flag)
      (fun _ after => Wired piped slot next after ∧ after.pipes = shell.pipes ∧
        after.line = shell.line) program shell := by
  have kept : ∀ state asked (reply : asked.Reply) after, within slot (piped → flag) asked →
      (Wired piped slot next state ∧ state.pipes = shell.pipes ∧ state.line = shell.line) →
        (kernel theft).serve state asked reply after →
          Wired piped slot next after ∧ after.pipes = shell.pipes ∧ after.line = shell.line := by
    rintro state asked reply after inside ⟨wired, pipes, line⟩ served
    obtain ⟨wired, samePipes, sameLine⟩ := serve_wired inside wired served
    exact ⟨wired, samePipes.trans pipes, sameLine.trans line⟩
  apply (Service.ensures_of_uses uses kept ⟨wired, rfl, rfl⟩).mono
  · rintro asked state ⟨inside, wired, -⟩
    exact wired.wires inside
  · exact fun _ _ held => held

theorem returns_level {α : Type} {allowed : Prop} {program : Prog α}
    (uses : program.uses (within slot allowed)) :
    (kernel theft).Returns (fun _ after => after.pipes = shell.pipes ∧ after.line = shell.line)
      program shell := by
  have kept : ∀ state asked (reply : asked.Reply) after, within slot allowed asked →
      (state.pipes = shell.pipes ∧ state.line = shell.line) →
        (kernel theft).serve state asked reply after →
          after.pipes = shell.pipes ∧ after.line = shell.line := by
    rintro state asked reply after inside ⟨pipes, line⟩ served
    by_cases fork : asked.isFork
    · cases asked <;> first | exact fork.elim | skip
      rcases served with ⟨-, rfl⟩ | ⟨_, -, rfl⟩ <;> exact ⟨pipes, line⟩
    · obtain ⟨-, samePipes, sameLine, -⟩ := serve_inert served fork
        (by rintro left right rfl; exact inside) (by rintro rfl; exact inside)
      exact ⟨samePipes.trans pipes, sameLine.trans line⟩
  exact (Service.ensures_of_uses uses kept ⟨rfl, rfl⟩).returns fun _ _ same => same

theorem within_openAll {allowed : Prop} (redirections : List (Direction × Text)) (fds : Fds) :
    (openAll redirections fds).uses (within slot allowed) := by
  refine Program.uses_mono (openAll_uses redirections fds) fun asked opens => ?_
  cases asked <;> first | exact opens.elim | trivial

theorem within_execute {allowed : Prop} {argv : List Text} {fdIn fdOut : Option Fd}
    (external : argv ≠ [] → isBuiltin argv = false → allowed) :
    (execute slot argv fdIn fdOut).uses (within slot allowed) := by
  apply Program.uses_mono (execute_forks_external slot argv fdIn fdOut)
  rintro asked ⟨executes, forked⟩
  cases asked
  case fork =>
    obtain ⟨nonempty, notBuiltin⟩ := forked trivial
    exact ⟨executes.1, external nonempty notBuiltin⟩
  all_goals first | exact executes.elim | trivial

theorem within_errorExit {allowed : Prop} (background : Bool) (pids : List Pid) (fds : Fds) :
    (errorExit background pids fds).uses (within slot allowed) :=
  errorExit_uses background pids fds (fun _ => trivial) fun _ => trivial

/-- A new pipe leads from this command to the next one, and nobody has its write end. -/
theorem openPipe_wired (fdOut : Option Fd) (wired : Wired piped slot next shell)
    (ends : Ends slot shell) (later : slot < next) :
    (kernel theft).Ensures (Wires flag)
      (fun reply after => Wired piped slot next after ∧
        (reply ≠ none → after.pipes = shell.pipes ++ [⟨shell.line, slot, next⟩]))
      (openPipe slot next fdOut) shell := by
  constructor
  · intro child member here
    exact Nat.lt_of_le_of_lt (wired.below child member here) later
  · intro reply opened served
    have known := serve_known wired.known served
    rcases served with ⟨rfl, rfl⟩ | ⟨rfl, rfl⟩
    · refine ⟨trivial, fun _ told noted => ⟨?_, fun made => (made rfl).elim⟩⟩
      have inside : within slot True (.perror "pipe".toList) := trivial
      exact (serve_wired inside wired noted).1
    · have added : Wired piped slot next (shell.addPipe slot next) := by
        refine ⟨known, wired.below, ?_, ?_⟩
        · intro pipe record found here same
          rcases listed_cases found with found | ⟨-, rfl⟩
          · obtain ⟨front, closed, others⟩ := wired.behind pipe record found here same
            refine ⟨front, fun holds => closed ?_, others⟩
            have old := (List.getElem?_eq_some_iff.mp found).1
            rcases holds.of_set with same | holds
            · simp at same
              omega
            · exact holds.of_set.resolve_left nofun
          · exact (Nat.lt_irrefl _ (same ▸ later)).elim
        · intro pipe record found here beyond
          rcases listed_cases found with found | ⟨rfl, rfl⟩
          · exact (Nat.not_lt.mpr (ends record (List.mem_of_getElem? found) here) beyond).elim
          · refine ⟨rfl, rfl, by simp [Shell.addPipe], fun child member ⟨fd, held⟩ => ?_⟩
            exact ((wired.known.children child member fd _ (Nat.le_refl _)).2 held).elim
      cases fdOut with
      | none => exact ⟨added, fun _ => rfl⟩
      | some fd =>
        refine ⟨trivial, fun _ closed dropped => ?_⟩
        have inside : within slot True (.close (shell.pipeEnds.2)) := trivial
        obtain ⟨wired, pipes, -⟩ := serve_wired inside added dropped
        exact ⟨wired, fun _ => pipes⟩

theorem Wired.fresh {other : Nat} (wired : Wired piped slot other shell) (ends : Ends slot shell)
    (later : slot < next) : Wired False next next shell ∧ Ends next shell := by
  have within : ∀ record ∈ shell.pipes, record.line = shell.line → record.right < next :=
    fun record member here => Nat.lt_of_le_of_lt (ends record member here) later
  refine ⟨⟨wired.known, ?_, ?_, ?_⟩, fun record member here => Nat.le_of_lt (within record member here)⟩
  · exact fun child member here =>
      Nat.le_of_lt (Nat.lt_of_le_of_lt (wired.below child member here) later)
  · intro pipe record found here same
    have short := within record (List.mem_of_getElem? found) here
    omega
  · intro pipe record found here beyond
    have short := within record (List.mem_of_getElem? found) here
    omega

/-- Behind a command that writes to a pipe the next one reads it, and if the shell has let
go of the write end only that command has it. -/
theorem Wired.onward (wired : Wired piped slot next shell) (later : slot < next)
    (closed : ∀ pipe, pipe + 1 = shell.pipes.length → ¬ shell.table.Holds (.pipeWrite pipe)) :
    Wired True next next shell ∧ Ends next shell := by
  have within : ∀ record ∈ shell.pipes, record.line = shell.line → record.right ≤ next := by
    intro record member here
    obtain ⟨pipe, found⟩ := List.mem_iff_getElem?.mp member
    by_cases beyond : slot < record.right
    · exact Nat.le_of_eq (wired.ahead pipe record found here beyond).1
    · omega
  refine ⟨⟨wired.known, ?_, ?_, ?_⟩, within⟩
  · exact fun child member here =>
      Nat.le_of_lt (Nat.lt_of_le_of_lt (wired.below child member here) later)
  · intro pipe record found here same
    obtain ⟨-, -, last, others⟩ := wired.ahead pipe record found here (by omega)
    exact ⟨trivial, closed pipe last, others⟩
  · intro pipe record found here beyond
    have short := within record (List.mem_of_getElem? found) here
    omega

/-- Behind the command on its left the shell has the read end of a pipe, and what it had before
there was the pipe. -/
private theorem writeEnd_closed {base : Fd → Option File} {carried : Carried} {middle after : Shell}
    {readEnd : Fd} (sound : Sound middle) (carries : Carries base carried middle.table)
    (read : Carries base ⟨some (readEnd, .pipeRead middle.pipes.length), none⟩ after.table)
    {pipe : Nat} (made : pipe = middle.pipes.length) : ¬ after.table.Holds (.pipeWrite pipe) := by
  rintro ⟨fd, found⟩
  obtain rfl := made
  rw [read.files] at found
  simp only [place, Function.update_apply] at found
  split at found
  · simp at found
  · have before := carries.file_of_base (by rw [found]; exact Option.some_ne_none _)
    rw [found] at before
    exact (sound fd _ (Nat.le_refl _)).2 before

theorem errorExit_wires (wired : Wired piped slot next shell) (background : Bool) (pids : List Pid)
    (fds : Fds) : (kernel theft).Ensures (Wires flag) (fun _ after => Known after)
      (errorExit background pids fds) shell :=
  (wired_ensures wired (within_errorExit background pids fds)).mono
    (fun _ _ wires => wires) fun _ _ held => held.1.known

section

variable {rest : Fds → List Pid → Prog Unit} {stage : Stage} {base : Fd → Option File}
  {final : Carried} {pids : List Pid}

private theorem runEnding_none_wires (ending : stage.ending = .none)
    (forking : stage.argv ≠ [] → isBuiltin stage.argv = false → piped → flag)
    (wired : Wired piped stage.start next shell) :
    (kernel theft).Ensures (Wires flag) (fun _ after => Known after)
      (runEnding rest stage final.fds pids) shell := by
  simp only [runEnding, ending]
  refine (wired_ensures wired (within_execute forking)).bind fun pid after known => ?_
  exact errorExit_wires known.1 ..

private theorem runEnding_background_wires (ending : stage.ending = .background)
    (forking : stage.argv ≠ [] → isBuiltin stage.argv = false → piped → flag)
    (wired : Wired piped stage.start next shell) :
    (kernel theft).Ensures (Wires flag) (fun _ after => Known after)
      (runEnding rest stage final.fds pids) shell := by
  simp only [runEnding, ending]
  refine (wired_ensures wired (within_execute forking)).bind fun bgPid after known => ?_
  have announcing : (announce bgPid).uses (within stage.start (piped → flag)) := by
    cases bgPid with
    | none => trivial
    | some pid => exact Program.uses_request.mpr trivial
  exact (wired_ensures known.1 announcing).bind fun _ _ held => errorExit_wires held.1 ..

private theorem runEnding_missing_wires {direction : Direction}
    (ending : stage.ending = .missing direction) (wired : Wired piped stage.start next shell) :
    (kernel theft).Ensures (Wires flag) (fun _ after => Known after)
      (runEnding rest stage final.fds pids) shell := by
  simp only [runEnding, ending]
  refine ⟨trivial, fun _ told served => ?_⟩
  have inside : within stage.start True (.fprintf (syntaxError direction)) := trivial
  exact errorExit_wires (serve_wired inside wired served).1 ..

/-- Behind an `&&` the next command starts without a pipe. -/
private theorem runEnding_and_wires (ending : stage.ending = .and) (later : stage.start < next)
    (forking : stage.argv ≠ [] → isBuiltin stage.argv = false → piped → flag)
    (held : Carries base final shell.table) (wired : Wired piped stage.start stage.start shell)
    (ends : Ends stage.start shell)
    (goes : ∀ {wider : Fd → Option File} {after : Shell}, Carries wider .none after.table →
      Wired False next next after → Ends next after →
      (kernel theft).Ensures (Wires flag) (fun _ after => Known after) (rest .none []) after) :
    (kernel theft).Ensures (Wires flag) (fun _ after => Known after)
      (runEnding rest stage final.fds pids) shell := by
  simp only [runEnding, ending]
  refine ((wired_ensures wired (within_execute forking)).also (execute_leaves held)).bind
    fun andPid executed known => ?_
  obtain ⟨⟨wired, samePipes, sameLine⟩, wider, _, _, cleared⟩ := known
  have waiting : (waitAnd (pids ++ andPid.toList) andPid).uses
      (within stage.start (piped → flag)) := by
    refine ⟨trivial, fun status => Program.uses_mono (waitLoop_uses _ _ _ _) ?_⟩
    intro asked waits
    cases asked <;> first | exact waits.elim | trivial
  refine ((wired_ensures wired waiting).also (waitAnd_table _ _)).bind
    fun lastStatus waited known => ?_
  obtain ⟨⟨wired, waitPipes, waitLine⟩, sameTable⟩ := known
  have ends : Ends stage.start waited := by
    intro record member here
    rw [waitPipes, samePipes] at member
    exact ends record member (by rw [here, waitLine, sameLine])
  split
  · exact errorExit_wires wired ..
  · obtain ⟨wired, ends⟩ := wired.fresh ends later
    exact goes (cleared.congr (by rw [sameTable])) wired ends

/-- Behind a `|` the next command reads the pipe that was made for it. -/
private theorem runEnding_pipe_wires (ending : stage.ending = .pipe) (later : stage.start < stage.stop + 1)
    (forking : stage.argv ≠ [] → isBuiltin stage.argv = false → piped → flag)
    (held : Carries base final shell.table) (wired : Wired piped stage.start stage.start shell)
    (ends : Ends stage.start shell)
    (goes : stage.argv ≠ [] → isBuiltin stage.argv = false → ∀ {readEnd : Fd} {pipe : Nat}
      {pids : List Pid} {after : Shell},
      Carries base ⟨some (readEnd, .pipeRead pipe), none⟩ after.table →
      Wired True (stage.stop + 1) (stage.stop + 1) after → Ends (stage.stop + 1) after →
      (kernel theft).Ensures (Wires flag) (fun _ after => Known after)
        (rest ⟨some readEnd, none⟩ pids) after) :
    (kernel theft).Ensures (Wires flag) (fun _ after => Known after)
      (runEnding rest stage final.fds pids) shell := by
  have sound := wired.known.sound
  simp only [runEnding, ending]
  refine ((openPipe_wired final.fds.fdOut (wired.renext ends) ends later).also
    (openPipe_carries stage.start (stage.stop + 1) held)).bind fun reply piped known => ?_
  obtain ⟨⟨wired, made⟩, both⟩ := known
  rcases both with ⟨rfl, kept⟩ | ⟨readEnd, writeEnd, rfl, unused, both⟩
  · exact errorExit_wires wired ..
  refine ((wired_ensures wired (within_execute forking)).also
    ((execute_left_leaves unused (held.apart_of_unused unused) both).and
      (execute_external _ _ _ _))).bind fun pid after known => ?_
  obtain ⟨⟨wired, samePipes, sameLine⟩, ⟨wider, _, same, read⟩, external⟩ := known
  cases pid with
  | none =>
    refine ⟨trivial, fun _ closed served => ?_⟩
    have inside : within stage.start True (.close readEnd) := trivial
    exact errorExit_wires (serve_wired inside wired served).1 ..
  | some pid =>
    obtain ⟨nonempty, notBuiltin⟩ := external (Option.some_ne_none pid)
    obtain rfl := same nonempty
    have closed : ∀ pipe, pipe + 1 = after.pipes.length →
        ¬ after.table.Holds (.pipeWrite pipe) := by
      intro pipe last
      rw [samePipes, made (Option.some_ne_none _)] at last
      exact writeEnd_closed sound held read (by simpa using last)
    obtain ⟨wired, ends⟩ := wired.onward later closed
    exact goes nonempty notBuiltin read wired ends

end

theorem runStages_wires {stages : List Stage} {base : Fd → Option File} {carried : Carried}
    {pids : List Pid} (carries : Carries base carried shell.table) (vacant : carried.output = none)
    (wired : Wired (carried.input.isSome = true) slot slot shell) (ends : Ends slot shell)
    (placed : Placed slot stages)
    (flagged : startsRight carried.input.isSome stages = true → flag) :
    (kernel theft).Ensures (Wires flag) (fun _ after => Known after)
      (runStages stages carried.fds pids) shell := by
  induction stages generalizing base carried shell pids slot with
  | nil => exact errorExit_wires wired ..
  | cons stage rest ih =>
    obtain ⟨rfl, behind, others⟩ := placed
    have later : stage.start < stage.stop + 1 := Nat.lt_succ_of_le behind
    have forking : stage.forksOne = true → carried.input.isSome = true → flag := by
      intro forks front
      exact flagged (by simp [startsRight, forks, front])
    have going : stage.passes = true → startsRight (stage.ending = .pipe) rest = true → flag := by
      intro passes starts
      exact flagged (by simp [startsRight, passes, starts])
    refine ((wired_ensures wired (within_openAll stage.redirections carried.fds)).also
      (openAll_carries carries)).bind fun result middle known => ?_
    obtain ⟨opened, fds⟩ := result
    obtain ⟨⟨wired, pipes, line⟩, final, same, held, redirected⟩ := known
    subst same
    have ends : Ends stage.start middle := by
      intro record member here
      rw [pipes] at member
      exact ends record member (here.trans line)
    cases opened with
    | false => exact errorExit_wires wired ..
    | true =>
      simp only [if_true]
      cases ending : stage.ending with
      | none =>
        refine runEnding_none_wires ending (fun nonempty external => forking ?_) wired
        simp [Stage.forksOne, ending, nonempty, external]
      | background =>
        refine runEnding_background_wires ending (fun nonempty external => forking ?_) wired
        simp [Stage.forksOne, ending, nonempty, external]
      | missing direction => exact runEnding_missing_wires ending wired
      | blank =>
        simp only [runEnding, ending]
        exact ⟨trivial, fun reply => reply.elim⟩
      | and =>
        have going := going (by simp [Stage.passes, ending])
        rw [ending] at going
        refine runEnding_and_wires ending later (fun nonempty external => forking ?_) held wired ends
          fun cleared wired ends => ?_
        · simp [Stage.forksOne, ending, nonempty, external]
        · exact ih cleared rfl (by simpa [Carried.none] using wired) ends others
            (by simpa [Carried.none] using going)
      | pipe =>
        refine runEnding_pipe_wires ending later (fun nonempty external => forking ?_) held wired ends
          fun nonempty external _ _ _ _ read wired ends => ?_
        · simp [Stage.forksOne, ending, nonempty, external]
        · have going := going (by simp [Stage.passes, ending, nonempty, external])
          rw [ending] at going
          exact ih read rfl (by simpa using wired) ends others (by simpa using going)

/-- Nothing has been done for the current line yet. -/
structure Opening (shell : Shell) : Prop where
  known : Known shell
  lines : ∀ child ∈ forks shell.log, child.line < shell.line
  records : ∀ record ∈ shell.pipes, record.line < shell.line

theorem Known.opening (known : Known shell) : Opening { shell with line := shell.line + 1 } where
  known := ⟨known.sound, known.children,
    fun child member => Nat.le_succ_of_le (known.lines child member),
    fun record member => Nat.le_succ_of_le (known.records record member)⟩
  lines child member := Nat.lt_succ_of_le (known.lines child member)
  records record member := Nat.lt_succ_of_le (known.records record member)

theorem isExecutable_wires {tokens : List Text} (ready : Ready shell) (opening : Opening shell)
    (flagged : startsRight false (stages tokens) = true → flag) :
    (kernel theft).Ensures (Wires flag) (fun _ after => Known after) (isExecutable tokens) shell := by
  have wired : Wired (Carried.none.input.isSome = true) 0 0 shell := by
    refine ⟨opening.known, ?_, ?_, ?_⟩
    · intro child member here
      exact (Nat.ne_of_lt (opening.lines child member) here).elim
    · intro pipe record found here
      exact (Nat.ne_of_lt (opening.records record (List.mem_of_getElem? found)) here).elim
    · intro pipe record found here
      exact (Nat.ne_of_lt (opening.records record (List.mem_of_getElem? found)) here).elim
  have ends : Ends 0 shell := fun record member here =>
    (Nat.ne_of_lt (opening.records record member) here).elim
  rw [isExecutable_eq]
  exact runStages_wires (carries_none ready.standardIn ready.standardOut) rfl wired ends
    (placed_stages tokens) flagged

private theorem plain_wires {α : Type} {program : Prog α} (known : Known shell)
    (uses : program.uses fun asked => ¬ asked.isFork ∧ ¬ asked.touchesTable) :
    (kernel theft).Ensures (Wires flag) (fun _ after => Known after) program shell := by
  apply (Service.ensures_of_uses uses
    (fun _ _ _ _ _ known served => serve_known known served) known).mono
  · rintro asked state ⟨⟨fork, untouched⟩, -⟩
    cases asked <;> first | trivial | exact (fork trivial).elim | exact (untouched trivial).elim
  · exact fun _ _ known => known

theorem session_wires (lines : List (List Text)) (ready : Ready shell) (known : Known shell) :
    (kernel theft).Ensures (Wires True) (fun _ after => Known after ∧ Ready after)
      (session lines) shell := by
  induction lines generalizing shell with
  | nil => exact ⟨known, ready⟩
  | cons tokens lines ih =>
    have line : (kernel theft).Ensures (Wires True) (fun _ after => Known after ∧ Ready after)
        (runLine tokens) shell := by
      refine ⟨trivial, fun _ read served => ?_⟩
      obtain rfl : read = { shell with line := shell.line + 1 } := served
      have opening := known.opening
      have ready : Ready { shell with line := shell.line + 1 } :=
        ⟨ready.standardIn, ready.standardOut, ready.sound⟩
      have dispatched : (kernel theft).Ensures (Wires True) (fun _ after => Known after)
          (dispatch tokens) { shell with line := shell.line + 1 } := by
        cases tokens with
        | nil => exact opening.known
        | cons cmd args =>
          -- a line that starts with a builtin goes no further
          cases builtin : findBuiltin cmd with
          | none =>
            simp only [dispatch, List.isEmpty_cons, Bool.false_eq_true, if_false, checkBuiltin,
              builtin, pure_bind]
            exact isExecutable_wires ready opening fun _ => trivial
          | some btFunc =>
            simp only [dispatch, List.isEmpty_cons, Bool.false_eq_true, if_false, checkBuiltin,
              builtin, bind_assoc, pure_bind, if_true]
            refine (plain_wires opening.known
              (Program.uses_mono (BtFunc.run_uses _ _) fun asked calls => ?_)).bind
              fun _ _ known => known
            cases asked <;> first | exact calls.elim | exact ⟨id, id⟩
      refine (dispatched.also (dispatch_ready tokens ready)).bind fun _ done known => ?_
      obtain ⟨known, ready⟩ := known
      refine ⟨trivial, fun _ printed served => ?_⟩
      obtain rfl : printed = done.print prompt := served
      exact ⟨⟨known.sound, known.children, known.lines, known.records⟩,
        ⟨ready.standardIn, ready.standardOut, ready.sound⟩⟩
    exact line.bind fun _ _ reached => ih reached.2 reached.1

/-- Whatever lines the shell is given and whatever fails, its pipes are sealed. -/
theorem sealed_of_reach {lines : List (List Text)} {program : Prog Unit}
    (reach : (kernel true).Reach (session lines, Shell.initial) (program, shell)) :
    Sealed shell :=
  (session_wires lines initial_ready initial_known).invariant (kernel_quiet true)
    (fun _ _ _ _ wires held served => serve_sealed wires held served) reach
    (fun _ _ found => by simp [Shell.initial] at found)

/-- Each child is a process that was forked, and has no pipe end it was not forked with. -/
def Inherited (world : World) : Prop :=
  ∀ child ∈ world.children, child.fork ∈ forks world.shell.log ∧
    Narrower child.table child.fork.table

variable {mayReap : World → Process → Prop} {world after : World}

theorem serve_inherited {asked : Call} {reply : asked.Reply} (inherited : Inherited world)
    (served : world.serve asked reply after) : Inherited after := by
  intro child member
  rcases serve_cases served with ⟨pid, arglist, argv, -, rfl⟩ |
    ⟨front, back, other, shell, here, -, same, rfl⟩ | ⟨shell, same, rfl⟩
  · simp only [World.spawn, Shell.forks_note_forked]
    rcases List.mem_append.mp member with old | new
    · obtain ⟨forked, narrower⟩ := inherited child old
      exact ⟨List.mem_append_left _ forked, narrower⟩
    · obtain rfl := List.mem_singleton.mp new
      exact ⟨by simp, fun _ => ⟨id, id⟩⟩
  · have old : child ∈ world.children := by
      rw [here]
      rcases List.mem_append.mp member with front | back <;> simp [*]
    obtain ⟨forked, narrower⟩ := inherited child old
    exact ⟨by simpa [World.advance, same] using forked, narrower⟩
  · obtain ⟨forked, narrower⟩ := inherited child member
    exact ⟨by simpa [World.advance, same] using forked, narrower⟩

theorem moves_inherited (inherited : Inherited world) (moved : Moves mayReap world after) :
    Inherited after := by
  intro child member
  rw [moves_shell moved]
  rcases moves_cases moved with ⟨front, back, other, altered, here, there, -, fork, narrower, -⟩ |
    ⟨front, back, other, here, there, -⟩ | unchanged
  · rw [there, List.mem_append, List.mem_cons] at member
    rcases member with before | rfl | behind
    · exact inherited child (by simp [here, before])
    · obtain ⟨forked, wider⟩ := inherited other (by simp [here])
      rw [fork]
      exact ⟨forked, fun pipe => ⟨fun held => (wider pipe).1 ((narrower pipe).1 held),
        fun held => (wider pipe).2 ((narrower pipe).2 held)⟩⟩
    · exact inherited child (by simp [here, behind])
  · rw [there, List.mem_append] at member
    exact inherited child (by rw [here]; rcases member with front | back <;> simp [*])
  · exact inherited child (by rwa [unchanged] at member)

theorem reach_inherited {α : Type} {start final : Prog α × World}
    (reach : (system mayReap).Reach start final) (initially : Inherited start.2) :
    Inherited final.2 :=
  system_invariant Inherited serve_inherited moves_inherited reach initially

end Lsnp.Lab
