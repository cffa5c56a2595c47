import Lsnp.Lab.Statuses
import Lsnp.Lab.Waiting
import Lsnp.Lab.Wiring

namespace Lsnp.Lab

open Lsnp.Interaction Lsnp.Unix

def Entered (entry : World) : Prop :=
  ∃ lines, (system everything).Reach (do session lines; Sys.fgets, World.initial) (.done (), entry)

/-- In every run of a call on these tokens, at every moment after the process on the right
of a `|` has been forked, nobody but that process has the read end of the pipe open. -/
def ReadEndsSealed (tokens : List Text) : Prop :=
  ∀ entry program world, Entered entry →
    (system everything).Reach (isExecutable tokens, entry) (program, world) →
      ∀ pipe record, entry.shell.pipes.length ≤ pipe → world.shell.pipes[pipe]? = some record →
        (∃ reader ∈ forks world.shell.log, IsRight record reader) →
          ¬ world.shell.table.Holds (.pipeRead pipe) ∧
            ∀ child ∈ world.children, child.table.Holds (.pipeRead pipe) →
              IsRight record child.fork

/-- A process that was not waited for, and is not on the right of a pipe, was forked with
the read end of the pipe, and the one on the right has been forked. -/
def Exposed (shell : Shell) : Prop :=
  ∃ pipe record left, shell.pipes[pipe]? = some record ∧
    (∃ reader ∈ forks shell.log, IsRight record reader) ∧ left ∈ forks shell.log ∧
    left.pid ∉ shell.waitedPids ∧ left.table.Holds (.pipeRead pipe) ∧ ¬ IsRight record left

/-- Nothing has happened to the children that were not waited for. -/
structure Tracked (world : World) : Prop where
  calm : world.calm = true
  orderly : Orderly world
  named : ∀ child ∈ world.children, child.fork.pid ≤ (forks world.shell.log).length
  present : ∀ fork ∈ forks world.shell.log, fork.pid ∉ world.shell.waitedPids →
    ∃ child ∈ world.children, child.fork = fork ∧ child.table = fork.table

theorem Tracked.exposed {world : World} (tracked : Tracked world) (exposed : Exposed world.shell) :
    ∃ pipe record, world.shell.pipes[pipe]? = some record ∧
      (∃ reader ∈ forks world.shell.log, IsRight record reader) ∧
      ∃ child ∈ world.children, child.table.Holds (.pipeRead pipe) ∧ ¬ IsRight record child.fork := by
  obtain ⟨pipe, record, left, made, reader, member, unwaited, holds, other⟩ := exposed
  obtain ⟨child, found, rfl, same⟩ := tracked.present left member unwaited
  exact ⟨pipe, record, made, reader, child, found, by rw [same]; exact holds, other⟩

variable {world : World} {shell after : Shell}

theorem answer_idle (policy : Policy) (lost : Termination) {asked : Call}
    (idle : ¬ asked.isFork ∧ ¬ asked.isWaitpid) (calm : world.calm = true) :
    World.answer policy lost world asked =
      (policy.answer world.shell asked).map fun replied => (replied.1, world.advance replied.2) := by
  cases asked <;> first
    | exact (idle.1 trivial).elim
    | exact (idle.2 trivial).elim
    | exact if_pos calm

private theorem Tracked.settled {asked : Call} {reply : asked.Reply} {later : World}
    (tracked : Tracked world)
    (given : World.answer thieving (.exited 0) world asked = some (reply, later)) : Orderly later :=
  settled_orderly tracked.orderly (answer_permits (.inl rfl) _ _ _ _ given)

private theorem Tracked.answer_fork (tracked : Tracked world) (arglist : Nat) (argv : List Text) :
    World.answer thieving (.exited 0) world (.fork arglist argv) =
        some (some ((forks world.shell.log).length + 1),
          world.spawn ((forks world.shell.log).length + 1) arglist argv) ∧
      Tracked (world.spawn ((forks world.shell.log).length + 1) arglist argv) := by
  obtain ⟨idle, running⟩ := calm_iff.mp tracked.calm
  have fresh : ∀ child ∈ world.children,
      child.fork.pid ≠ (forks world.shell.log).length + 1 := fun child member same =>
    Nat.not_succ_le_self _ (same ▸ tracked.named child member)
  have given : World.answer thieving (.exited 0) world (.fork arglist argv) =
      some (some ((forks world.shell.log).length + 1),
        world.spawn ((forks world.shell.log).length + 1) arglist argv) :=
    if_pos ⟨tracked.calm, fresh⟩
  refine ⟨given, ?_, tracked.settled given, ?_, ?_⟩
  · apply calm_iff.mpr
    refine ⟨idle, fun child member => ?_⟩
    rcases List.mem_append.mp member with old | new
    · exact running child old
    · obtain rfl := List.mem_singleton.mp new
      rfl
  · intro child member
    simp only [World.spawn, Shell.forks_note_forked, List.length_append, List.length_singleton]
    rcases List.mem_append.mp member with old | new
    · exact Nat.le_succ_of_le (tracked.named child old)
    · obtain rfl := List.mem_singleton.mp new
      exact Nat.le_refl _
  · intro fork member unwaited
    simp only [World.spawn, Shell.forks_note_forked, List.mem_append, List.mem_singleton]
      at member ⊢
    rcases member with old | rfl
    · obtain ⟨child, found, same⟩ := tracked.present fork old
        (by simpa [World.spawn, Shell.waitedPids] using unwaited)
      exact ⟨child, .inl found, same⟩
    · exact ⟨_, .inr rfl, rfl, rfl⟩

private theorem unwaited_note {fork : Fork} {pid : Pid}
    (unwaited : fork.pid ∉ (shell.note (.waited pid none)).waitedPids) :
    fork.pid ∉ shell.waitedPids ∧ fork.pid ≠ pid := by
  simpa [Shell.waitedPids] using unwaited

private theorem Tracked.answer_waitpid (tracked : Tracked world) {front back : List Process}
    {child : Process} (here : world.children = front ++ child :: back)
    (found : world.split child.fork.pid = some (front, child, back)) :
    World.answer thieving (.exited 0) world (.waitpid child.fork.pid) =
        some (none, (world.lose (front ++ back) child (.exited 0)).advance
          (world.shell.note (.waited child.fork.pid none))) ∧
      Tracked ((world.lose (front ++ back) child (.exited 0)).advance
        (world.shell.note (.waited child.fork.pid none))) := by
  obtain ⟨-, running⟩ := calm_iff.mp tracked.calm
  have others : ∀ other ∈ front ++ back, other.fork.pid ≠ child.fork.pid := by
    intro other member same
    have distinct := tracked.orderly.distinct
    rw [here, List.map_append, List.map_cons, List.nodup_append] at distinct
    have behind := List.nodup_cons.mp distinct.2.1
    rcases List.mem_append.mp member with before | after
    · exact distinct.2.2 _ (List.mem_map_of_mem before) _ (List.mem_cons_self) same
    · exact behind.1 (same ▸ List.mem_map_of_mem (f := fun child => child.fork.pid) after)
  have kept : ∀ other ∈ front ++ back, other ∈ world.children := by
    intro other member
    rw [here]
    rcases List.mem_append.mp member with before | after <;> simp [*]
  have given : World.answer thieving (.exited 0) world (.waitpid child.fork.pid) =
      some (none, (world.lose (front ++ back) child (.exited 0)).advance
        (world.shell.note (.waited child.fork.pid none))) := by
    simp only [World.answer, tracked.calm, found]
    exact if_pos others
  refine ⟨given, ?_, tracked.settled given, ?_, ?_⟩
  · exact calm_iff.mpr ⟨rfl, fun other member => running other (kept other member)⟩
  · intro other member
    simpa [World.advance] using tracked.named other (kept other member)
  · intro fork member unwaited
    obtain ⟨unwaited, apart⟩ := unwaited_note unwaited
    obtain ⟨process, old, rfl, same⟩ :=
      tracked.present fork (by simpa [World.advance] using member) unwaited
    refine ⟨process, ?_, rfl, same⟩
    rw [here, List.mem_append, List.mem_cons] at old
    rcases old with before | rfl | behind
    · exact List.mem_append_left _ before
    · exact (apart rfl).elim
    · exact List.mem_append_right _ behind

/-- Where every child is lost before it is waited for, the shell's calls get the replies of
the policy in the system as well. -/
theorem Tracked.answer {asked : Call} {reply : asked.Reply} (tracked : Tracked world)
    (answered : thieving.answer world.shell asked = some (reply, shell)) :
    ∃ later, World.answer thieving (.exited 0) world asked = some (reply, later) ∧ later.shell = shell ∧
      Tracked later := by
  by_cases other : ¬ asked.isFork ∧ ¬ asked.isWaitpid
  · have given := answer_idle thieving (.exited 0) other tracked.calm
    rw [answered] at given
    obtain ⟨sameForks, sameWaits⟩ :=
      serve_processes (thieving.permits _ _ _ _ answered) other.1 other.2
    refine ⟨_, given, rfl, tracked.calm, tracked.settled given, ?_, ?_⟩
    · intro child member
      change child.fork.pid ≤ (forks shell.log).length
      rw [sameForks]
      exact tracked.named child member
    · intro fork member unwaited
      change fork ∈ forks shell.log at member
      change fork.pid ∉ shell.waitedPids at unwaited
      rw [sameForks] at member
      apply tracked.present fork member
      simpa [Shell.waitedPids, sameWaits] using unwaited
  · cases asked <;> first | exact (other ⟨id, id⟩).elim | skip
    case fork arglist argv =>
      obtain ⟨rfl, rfl⟩ := Prod.mk.inj (Option.some.inj answered)
      obtain ⟨given, tracked⟩ := tracked.answer_fork arglist argv
      exact ⟨_, given, rfl, tracked⟩
    case waitpid pid =>
      obtain ⟨rfl, rfl⟩ := Prod.mk.inj (Option.some.inj answered)
      cases found : world.split pid with
      | none =>
        have given : World.answer thieving (.exited 0) world (.waitpid pid) =
            some (none, world.advance (world.shell.note (.waited pid none))) := by
          simp [World.answer, tracked.calm, found]
        refine ⟨_, given, rfl, tracked.calm, tracked.settled given, ?_, ?_⟩
        · intro child member
          simpa [World.advance] using tracked.named child member
        · intro fork member unwaited
          exact tracked.present fork (by simpa [World.advance] using member)
            (unwaited_note unwaited).1
      | some parts =>
        obtain ⟨front, child, back⟩ := parts
        obtain ⟨here, rfl⟩ := split_eq_some found
        obtain ⟨given, tracked⟩ := tracked.answer_waitpid here found
        exact ⟨_, given, rfl, tracked⟩

/-- A run of the shell in which every child is lost is one of the system. -/
theorem Tracked.reach {α : Type} {program final : Prog α} (tracked : Tracked world)
    (reach : (Service.computed thieving.answer).Reach (program, world.shell) (final, after)) :
    ∃ later, later.shell = after ∧ Tracked later ∧
      (system everything).Reach (program, world) (final, later) := by
  have along : ∀ start stop : Prog α × Shell,
      (Service.computed thieving.answer).Reach start stop → ∀ world, world.shell = start.2 →
        Tracked world → ∃ later, later.shell = stop.2 ∧ Tracked later ∧
          (system everything).Reach (start.1, world) (stop.1, later) := by
    intro start stop reach world same tracked
    induction reach with
    | refl => exact ⟨world, same, tracked, .refl _⟩
    | tail _ last ih =>
      obtain ⟨middle, here, tracked, front⟩ := ih
      cases last with
      | @reply state after asked reply next served =>
        change middle.shell = state at here
        subst here
        obtain ⟨later, given, same, tracked⟩ := tracked.answer served
        have permitted := answer_permits (.inl rfl) _ _ _ _ given
        exact ⟨later, same, tracked, front.trans (.of_settled (.reply permitted (.refl _)))⟩
      | move moved => exact (moved : False).elim
  exact along _ _ reach world rfl tracked

variable {base : Fd → Option File} {carried : Carried} {pids : List Pid} {slot : Nat}

theorem thieving_granting : Granting thieving := fun _ _ => rfl

/-- The pids given so far are numbers up to that of the last process; so are those that
were waited for, and those in the list. -/
structure Numbered (pids : List Pid) (shell : Shell) : Prop where
  forked : ∀ pid ∈ shell.forkedPids, pid ≤ (forks shell.log).length
  waited : ∀ pid ∈ shell.waitedPids, pid ≤ (forks shell.log).length
  listed : ∀ pid ∈ pids, pid ≤ (forks shell.log).length

/-- The pipe that the command at `slot` reads, and the process that writes to it. -/
def Reading (slot : Nat) (shell : Shell) : Prop :=
  ∃ pipe record left, shell.pipes[pipe]? = some record ∧ record.line = shell.line ∧
    record.right = slot ∧ left ∈ forks shell.log ∧ left.pid ∉ shell.waitedPids ∧
    left.table.Holds (.pipeRead pipe) ∧ left.arglist ≠ slot

private theorem ensures_now {State α : Type} {service : Service Call Call.Reply State}
    {property : State → Prop} {program : Prog α} {state : State}
    (ensures : service.Ensures (fun _ state => property state) (fun _ state => property state)
      program state) : property state := by
  cases program with
  | done value => exact ensures
  | ask asked next => exact ensures.1

private theorem waitLoop_thieving (andPid : Option Pid) (pids : List Pid) :
    (Service.computed thieving.answer).Returns (fun last _ => last = 0)
      (waitLoop andPid pids 0 0) shell := by
  induction pids generalizing shell with
  | nil => rfl
  | cons pid pids ih =>
    refine ⟨trivial, fun reply waited served => ?_⟩
    obtain ⟨rfl, rfl⟩ := Prod.mk.inj (Option.some.inj served)
    change (Service.computed thieving.answer).Returns (fun last _ => last = 0)
      (waitLoop andPid pids 0 (if some pid = andPid then 0 else 0)) _
    rw [ite_self]
    exact ih

private theorem waitAnd_thieving (pids : List Pid) (andPid : Option Pid) :
    (Service.computed thieving.answer).Returns (fun last _ => last = 0)
      (waitAnd pids andPid) shell := by
  refine ⟨trivial, fun status begun served => ?_⟩
  obtain ⟨rfl, rfl⟩ := Prod.mk.inj (Option.some.inj served)
  exact waitLoop_thieving andPid pids

private theorem execute_numbered {listed : List Pid} (arglist : Nat) (argv : List Text)
    (fdIn fdOut : Option Fd) (numbered : Numbered listed shell) :
    (Service.computed thieving.answer).Returns
      (fun pid after => Numbered (listed ++ pid.toList) after) (execute arglist argv fdIn fdOut)
      shell := by
  have idle : ∀ listed, KeptIdle (Service.computed thieving.answer) (Numbered listed) := by
    intro listed state asked reply after other numbered served
    obtain ⟨sameForks, sameWaits⟩ :=
      serve_processes (thieving.permits _ _ _ _ served) other.1 other.2
    exact ⟨by simpa [Shell.forkedPids, sameForks] using numbered.forked,
      by simpa [Shell.waitedPids, sameWaits, sameForks] using numbered.waited,
      by simpa [sameForks] using numbered.listed⟩
  have forking : Forking (Service.computed thieving.answer) arglist argv (Numbered listed)
      fun pid state => Numbered (listed ++ [pid]) state := by
    intro state reply after numbered served
    obtain ⟨rfl, rfl⟩ := Prod.mk.inj (Option.some.inj served)
    have grown := state.forks_note_forked
      (state.child (thieving.name (forks state.log).length) arglist argv)
    constructor
    · intro pid member
      rw [Shell.forkedPids, grown, List.map_append] at member
      rw [grown, List.length_append]
      rcases List.mem_append.mp member with old | new
      · exact Nat.le_succ_of_le (numbered.forked pid old)
      · exact Nat.le_of_eq (List.mem_singleton.mp new)
    · intro pid member
      rw [Shell.waitedPids, Shell.waits_note_forked] at member
      rw [grown, List.length_append]
      exact Nat.le_succ_of_le (numbered.waited pid member)
    · intro pid member
      rw [grown, List.length_append]
      rcases List.mem_append.mp member with old | new
      · exact Nat.le_succ_of_le (numbered.listed pid old)
      · exact Nat.le_of_eq (List.mem_singleton.mp new)
  apply (execute_forks (idle listed) (fun pid => idle (listed ++ [pid])) forking fdIn fdOut
    numbered).returns
  intro pid after started
  cases pid with
  | none =>
    rw [Option.toList_none, List.append_nil]
    exact started
  | some pid => exact started

private theorem execute_thieving {listed : List Pid} {arglist : Nat} {argv : List Text}
    (nonempty : argv ≠ []) (external : isBuiltin argv = false)
    (carries : Carries base carried shell.table) (numbered : Numbered listed shell) :
    (Service.computed thieving.answer).Returns
      (fun pid after => ∃ child, Forked shell base carried arglist argv child ∧
        pid = some child.pid ∧ child.pid ∉ shell.waitedPids ∧
        forks after.log = forks shell.log ++ [child] ∧ after.waitedPids = shell.waitedPids ∧
        after.pipes = shell.pipes ∧ after.line = shell.line ∧
        Numbered (listed ++ [child.pid]) after)
      (execute arglist argv carried.fds.fdIn carried.fds.fdOut) shell := by
  obtain ⟨cmd, args, rfl⟩ := List.exists_cons_of_ne_nil nonempty
  have level : (kernel true).Returns
      (fun _ after => after.pipes = shell.pipes ∧ after.line = shell.line)
      (execute arglist (cmd :: args) carried.fds.fdIn carried.fds.fdOut) shell :=
    returns_level (within_execute fun _ _ => trivial)
  apply (((execute_granted external carries).and (level.permitted thieving.permits)).and
    (execute_numbered arglist (cmd :: args) _ _ numbered)).returns
  rintro pid after ⟨⟨⟨child, forked, named, rfl, log⟩, pipes, line⟩, numbered'⟩
  refine ⟨child, forked, rfl, ?_, by simp [log, forks], ?_, pipes, line, numbered'⟩
  · intro waited
    have before := numbered.waited _ waited
    rw [named] at before
    exact Nat.not_succ_le_self _ before
  · simp [Shell.waitedPids, log, waits]

private theorem Numbered.congr (numbered : Numbered pids shell) (same : after.log = shell.log) :
    Numbered pids after := by
  constructor
  · simpa [Shell.forkedPids, same] using numbered.forked
  · simpa [Shell.waitedPids, same] using numbered.waited
  · simpa [same] using numbered.listed

private theorem Reading.exposed {child : Fork} (reading : Reading slot shell)
    (line : child.line = shell.line) (arglist : child.arglist = slot)
    (grown : forks after.log = forks shell.log ++ [child])
    (waited : after.waitedPids = shell.waitedPids) (pipes : shell.pipes <+: after.pipes) :
    Exposed after := by
  obtain ⟨pipe, record, left, made, here, right, member, unwaited, holds, apart⟩ := reading
  obtain ⟨others, same⟩ := pipes
  have still : after.pipes[pipe]? = some record := by
    rw [← same, List.getElem?_append_left (List.getElem?_eq_some_iff.mp made).1]
    exact made
  refine ⟨pipe, record, left, still, ?_, ?_, ?_, holds, ?_⟩
  · exact ⟨child, by simp [grown], line.trans here.symm, arglist.trans right.symm⟩
  · simp [grown, member]
  · rw [waited]
    exact unwaited
  · intro reads
    exact apart (reads.2.trans right)

private abbrev Safe {α : Type} (program : Prog α) (shell : Shell) : Prop :=
  (Service.computed thieving.answer).Ensures (fun _ state => ¬ Exposed state)
    (fun _ state => ¬ Exposed state) program shell

private theorem runEnding_pipe {stage : Stage} {next : Fds → List Pid → Prog Unit}
    (ending : stage.ending = .pipe) (nonempty : stage.argv ≠ [])
    (external : isBuiltin stage.argv = false) (carries : Carries base carried shell.table)
    (numbered : Numbered pids shell) (safe : Safe (runEnding next stage carried.fds pids) shell) :
    ∃ (behind : Carried) (child : Fork) (after : Shell), child.line = shell.line ∧
      child.arglist = stage.start ∧ child.pid ∉ shell.waitedPids ∧
      child.table.Holds (.pipeRead shell.pipes.length) ∧
      forks after.log = forks shell.log ++ [child] ∧ after.waitedPids = shell.waitedPids ∧
      after.pipes = shell.pipes ++ [⟨shell.line, stage.start, stage.stop + 1⟩] ∧
      after.line = shell.line ∧ Numbered (pids ++ [child.pid]) after ∧
      behind.output = none ∧ behind.input.isSome = true ∧ Carries base behind after.table ∧
      Safe (next behind.fds (pids ++ [child.pid])) after := by
  unfold runEnding at safe
  simp only [ending] at safe
  obtain ⟨reply, piped, ⟨⟨granted, log, -, line, made⟩, held⟩, safe⟩ :=
    safe.proceed ((openPipe_granted (thieving_granting _ _) _).and
      ((openPipe_carries _ _ carries).permitted thieving.permits))
      (openPipe_faultless _ _ _) thieving.total
  rcases held with ⟨rfl, -⟩ | ⟨readEnd, writeEnd, rfl, unused, both⟩
  · exact (granted rfl).elim
  have apart := carries.apart_of_unused unused
  obtain ⟨pid, after, ⟨⟨child, forked, rfl, unwaited, grown, waited, pipes, sameLine, numbered⟩, left⟩,
      safe⟩ :=
    safe.proceed ((execute_thieving nonempty external both (numbered.congr log)).and
      ((execute_left_leaves unused apart both).permitted thieving.permits))
      (execute_faultless _ _ _ _) thieving.total
  obtain ⟨wider, -, same, read⟩ := left
  obtain rfl := same nonempty
  have here : piped.table.file readEnd = some (.pipeRead shell.pipes.length) := by
    rw [both.file_of_base] <;> simp
  have holds : child.table.Holds (.pipeRead shell.pipes.length) :=
    ⟨readEnd, by rw [forked.rest readEnd apart.1 apart.2 (by simp [here]), here]⟩
  have sameWaits : piped.waitedPids = shell.waitedPids := by simp [Shell.waitedPids, log]
  refine ⟨⟨some (readEnd, .pipeRead shell.pipes.length), none⟩, child, after,
    forked.line.trans line, forked.arglist, ?_, holds, ?_, ?_, ?_, ?_, numbered, rfl, rfl, read, safe⟩
  · rw [← sameWaits]
    exact unwaited
  · rw [grown, log]
  · exact waited.trans sameWaits
  · exact pipes.trans made
  · exact sameLine.trans line

private theorem runEnding_and {stage : Stage} {next : Fds → List Pid → Prog Unit}
    (ending : stage.ending = .and) (carries : Carries base carried shell.table)
    (numbered : Numbered pids shell) (safe : Safe (runEnding next stage carried.fds pids) shell) :
    ∃ (wider : Fd → Option File) (after : Shell), Carries wider .none after.table ∧
      Numbered [] after ∧ Safe (next .none []) after := by
  unfold runEnding at safe
  simp only [ending] at safe
  obtain ⟨andPid, executed, ⟨⟨wider, -, -, cleared⟩, listed⟩, safe⟩ :=
    safe.proceed (((execute_leaves carries).permitted thieving.permits).and
      (execute_numbered _ _ _ _ numbered)) (execute_faultless _ _ _ _) thieving.total
  obtain ⟨last, after, ⟨⟨rfl, ran⟩, table⟩, safe⟩ :=
    safe.proceed (((waitAnd_thieving _ _).and ((waitAnd_ran _ _).permitted thieving.permits)).and
      ((waitAnd_table _ _).permitted thieving.permits)) (waitAnd_faultless _ _) thieving.total
  rw [if_neg (by simp [andFailed_zero])] at safe
  refine ⟨wider, after, cleared.congr (by rw [table]), ?_, safe⟩
  have sameForks : after.forkedPids = executed.forkedPids := by simpa using ran.forked
  have sameLength : (forks after.log).length = (forks executed.log).length := by
    simpa [Shell.forkedPids] using congrArg List.length sameForks
  constructor
  · rw [sameForks, sameLength]
    exact listed.forked
  · rw [ran.waited, sameLength]
    intro pid member
    rcases List.mem_append.mp member with before | now
    · exact listed.waited pid before
    · exact listed.listed pid now
  · exact fun _ member => absurd member List.not_mem_nil

private theorem Reading.not_safe {arglist : Nat} {argv : List Text} (reading : Reading arglist shell)
    (nonempty : argv ≠ []) (external : isBuiltin argv = false)
    (carries : Carries base carried shell.table) (numbered : Numbered pids shell)
    {rest : Option Pid → Prog Unit} : ¬ Safe (do
      let pid ← execute arglist argv carried.fds.fdIn carried.fds.fdOut
      rest pid) shell := by
  intro safe
  obtain ⟨pid, after, ⟨child, forked, -, -, grown, waited, pipes, -⟩, safe⟩ :=
    safe.proceed (execute_thieving nonempty external carries numbered)
      (execute_faultless _ _ _ _) thieving.total
  exact ensures_now safe (reading.exposed forked.line forked.arglist grown waited (by rw [pipes]))

/-- If nobody on the left of a pipe is ever exposed, no right side of a pipe is started. -/
theorem startsRight_of_safe {stages : List Stage} (carries : Carries base carried shell.table)
    (vacant : carried.output = none) (numbered : Numbered pids shell) (placed : Placed slot stages)
    (reading : carried.input.isSome = true → Reading slot shell)
    (safe : Safe (runStages stages carried.fds pids) shell) :
    startsRight carried.input.isSome stages = false := by
  induction stages generalizing base carried shell pids slot with
  | nil => rfl
  | cons stage rest ih =>
    obtain ⟨rfl, behind, others⟩ := placed
    have faultless := openAll_faultless stage.redirections carried.fds
    have inert : (kernel true).Returns (fun _ after => Ran shell after [] [])
        (openAll stage.redirections carried.fds) shell := by
      refine returns_idle (Program.uses_mono (openAll_uses _ _) fun asked opens => ?_)
      cases asked <;> first | exact opens.elim | exact ⟨id, id⟩
    have level : (kernel true).Returns
        (fun _ after => after.pipes = shell.pipes ∧ after.line = shell.line)
        (openAll stage.redirections carried.fds) shell := by
      have inside : (openAll stage.redirections carried.fds).uses (within stage.start True) :=
        within_openAll _ _
      exact returns_level inside
    obtain ⟨⟨opened, fds⟩, middle, ⟨⟨⟨⟨final, same, held, redirected⟩, ran⟩, pipes, line⟩, done,
        log, -⟩, next⟩ :=
      safe.proceed (((((openAll_carries carries).and inert).and level).permitted
        thieving.permits).and (openAll_granted thieving_granting _ _)) faultless thieving.total
    subst same done
    have sameForks : forks middle.log = forks shell.log := by simp [log, forks]
    have sameWaits : middle.waitedPids = shell.waitedPids := by simpa using ran.waited
    have numbered : Numbered pids middle := by
      refine ⟨?_, ?_, ?_⟩
      · simpa [Shell.forkedPids, sameForks] using numbered.forked
      · simpa [sameWaits, sameForks] using numbered.waited
      · simpa [sameForks] using numbered.listed
    have reading : carried.input.isSome = true → Reading stage.start middle := by
      intro front
      obtain ⟨pipe, record, left, made, here, right, member, unwaited, holds, apart⟩ := reading front
      exact ⟨pipe, record, left, by rw [pipes]; exact made, by rw [line]; exact here, right,
        by rw [sameForks]; exact member, by rw [sameWaits]; exact unwaited, holds, apart⟩
    simp only [if_true] at next
    have stops : stage.forksOne = true → carried.input.isSome = true → False := by
      intro forksOne front
      have nonempty : stage.argv ≠ [] := by
        rintro empty
        simp [Stage.forksOne, empty] at forksOne
      have external : isBuiltin stage.argv = false := by
        simp only [Stage.forksOne, Bool.and_eq_true, Bool.not_eq_true'] at forksOne
        exact forksOne.1.2
      by_cases ending : stage.ending = .pipe
      · obtain ⟨_, child, after, line, arglist, -, -, grown, waited, pipes, -, -, -, -, -, safe⟩ :=
          runEnding_pipe ending nonempty external held numbered next
        exact ensures_now safe ((reading front).exposed line arglist grown waited
          (by rw [pipes]; exact List.prefix_append _ _))
      · unfold runEnding at next
        cases ends : stage.ending with
        | none | and | background =>
          simp only [ends] at next
          exact (reading front).not_safe nonempty external held numbered next
        | pipe => exact ending ends
        | missing | blank => simp [Stage.forksOne, ends] at forksOne
    have goes : stage.passes = true → startsRight (stage.ending = .pipe) rest = false := by
      intro passes
      cases ending : stage.ending with
      | pipe =>
        have goesOn : stage.argv ≠ [] ∧ isBuiltin stage.argv = false := by
          simpa [Stage.passes, ending] using passes
        obtain ⟨behindIt, child, after, line', arglist, unwaited, holds, grown, waited, made, sameLine,
            numbered, none, some, carries, safe⟩ :=
          runEnding_pipe ending goesOn.1 goesOn.2 held numbered next
        have reading : Reading (stage.stop + 1) after := by
          refine ⟨middle.pipes.length, ⟨middle.line, stage.start, stage.stop + 1⟩, child,
            by simp [made], sameLine.symm, rfl, by simp [grown], ?_, holds, ?_⟩
          · rw [waited]
            exact unwaited
          · omega
        have onward := ih carries none numbered others (fun _ => reading) safe
        rw [some] at onward
        exact onward
      | and =>
        obtain ⟨wider, after, carries, numbered, safe⟩ := runEnding_and ending held numbered next
        exact ih carries rfl numbered others (fun piped => by cases piped) safe
      | none | background | missing | blank => simp [Stage.passes, ending] at passes
    simp only [startsRight, Bool.or_eq_false_iff, Bool.and_eq_false_iff]
    constructor
    · by_cases front : carried.input.isSome = true
      · exact .inr (Bool.eq_false_iff.mpr fun forks => stops forks front)
      · exact .inl (Bool.eq_false_iff.mpr front)
    · by_cases passes : stage.passes = true
      · exact .inr (goes passes)
      · exact .inl (Bool.eq_false_iff.mpr passes)

theorem Called.opening {entry : Shell} (called : Called entry) : Opening entry := by
  obtain ⟨lines, reach⟩ := called
  have runs : (kernel true).Returns (fun _ after => Opening after)
      (do session lines; Sys.fgets) Shell.initial := by
    apply ((session_wires lines initial_ready initial_known).returns fun _ _ held => held).bind
    rintro _ after ⟨known, -⟩
    refine ⟨trivial, fun _ read served => ?_⟩
    obtain rfl : read = { after with line := after.line + 1 } := served
    exact known.opening
  exact runs.reach (kernel_quiet true) reach

/-- The world after the first line has been read. -/
private def firstLine : World := World.initial.advance { Shell.initial with line := 1 }

private theorem firstLine_entered : Entered firstLine := by
  have served : (system everything).serve World.initial .fgets () firstLine := ⟨rfl, _, rfl, rfl⟩
  exact ⟨[], .reply served (.refl _)⟩

private theorem firstLine_tracked : Tracked firstLine where
  calm := rfl
  orderly := ⟨.nil, nofun, nofun⟩
  named := nofun
  present := nofun

/-- The read ends of a line stay with the readers, in every run, exactly if the loop starts
no command on the right of a pipe. -/
theorem readEndsSealed_iff (tokens : List Text) :
    ReadEndsSealed tokens ↔ startsRight false (stages tokens) = false := by
  constructor
  · intro sealed'
    have safe : Safe (isExecutable tokens) firstLine.shell := by
      have unexposed : ∀ {program : Prog Unit} {after : Shell},
          (Service.computed thieving.answer).Reach (isExecutable tokens, firstLine.shell)
            (program, after) → ¬ Exposed after := by
        intro program after reach exposed
        obtain ⟨world, rfl, tracked, reach⟩ := firstLine_tracked.reach reach
        obtain ⟨pipe, record, made, reader, child, member, holds, other⟩ := tracked.exposed exposed
        obtain ⟨-, others⟩ :=
          sealed' firstLine program world firstLine_entered reach pipe record (Nat.zero_le _) made reader
        exact other (others child member holds)
      have quiet : (Service.computed thieving.answer).Quiet := fun _ _ => id
      apply (Service.ensures_iff_reach quiet).mpr
      constructor
      · exact fun _ _ _ reach => unexposed reach
      · exact fun _ _ reach => unexposed reach
    rw [isExecutable_eq] at safe
    have carries : Carries firstLine.shell.table.file .none firstLine.shell.table :=
      carries_none (by decide) (by decide)
    have numbered : Numbered [] firstLine.shell := by
      constructor <;> simp [firstLine, World.advance, Shell.forkedPids, Shell.waitedPids,
        Shell.initial, forks, waits]
    exact startsRight_of_safe carries rfl numbered (placed_stages tokens)
      (fun piped => by cases piped) safe
  · intro never entry program world entered reach pipe record later made read
    obtain ⟨lines, entering⟩ := entered
    have called : Called entry.shell := ⟨lines, reach_shell entering⟩
    have wires : (kernel true).Ensures (Wires False) (fun _ after => Known after)
        (isExecutable tokens) entry.shell :=
      isExecutable_wires called.ready called.opening fun starts => by simp [never] at starts
    have unread : Unread entry.shell.pipes.length world.shell := by
      apply wires.invariant (kernel_quiet true)
        (fun _ _ _ _ wires held served => serve_unread wires held served) (reach_shell reach)
      intro pipe record later made
      rw [List.getElem?_eq_none later] at made
      cases made
    obtain ⟨reader, member, right⟩ := read
    exact (unread pipe record later made reader member right).elim

/-- In `a | b` the process of `a` has the read end of its own pipe. -/
theorem not_readEndsSealed_pipeline :
    ¬ ReadEndsSealed ["a".toList, "|".toList, "b".toList] := by
  intro sealed'
  have permits : (system everything).settled.Permits (World.answer thieving (.exited 0)) :=
    answer_permits (.inl rfl)
  let program := isExecutable ["a".toList, "|".toList, "b".toList]
  have visited : ((program.trail (World.answer thieving (.exited 0)) firstLine).any fun (_, world) =>
      world.shell.pipes[0]? = some ⟨1, 0, 2⟩ ∧
        (forks world.shell.log).any (fun reader => reader.line = 1 ∧ reader.arglist = 2) ∧
        world.children.any fun child =>
          child.table.file 3 = some (.pipeRead 0) ∧ child.fork.arglist = 0) = true := by decide +kernel
  obtain ⟨⟨asked, world⟩, visited, exposed⟩ := List.any_eq_true.mp visited
  simp only [List.any_eq_true, decide_eq_true_eq] at exposed
  obtain ⟨made, ⟨reader, member, right⟩, child, running, held, left⟩ := exposed
  obtain ⟨next, reach⟩ := Service.reach_of_mem_trail permits visited
  obtain ⟨-, others⟩ := sealed' firstLine _ world firstLine_entered (.of_settled reach) 0 _
    (Nat.zero_le _) made ⟨reader, member, right⟩
  have reads := (others child running ⟨3, held⟩).2
  rw [left] at reads
  cases reads

end Lsnp.Lab
