import Lsnp.Lab2.Started

namespace Lsnp.Lab2

open Lsnp.Interaction Lsnp.Unix

abbrev Member : Type := Process Call Call.Reply (List Text) Local Unit

abbrev World : Type := Crowd Call Call.Reply (List Text) Local Made Unit

/-- The shell in front of `is_executable`. Its process comes first; those of earlier lines run
no code of the shell any more. -/
structure Start where
  own : Local
  made : Made
  pid : Pid
  parent : Nat
  others : List Member
  standardIn : own.table.file 0 ≠ none
  standardOut : own.table.file 1 ≠ none
  settled : ∀ process ∈ others, process.isSettled = true

/-- The shell calls `is_executable` on the array of these tokens. -/
def Start.world (start : Start) (tokens : List Text) : World :=
  ⟨start.made, ⟨start.own, start.pid, start.parent, .running (isExecutable (argsOf tokens)), false⟩ ::
    start.others⟩

/-- In some run on a line, with every call succeeding, the system gets to this state. -/
def Start.Reaches (start : Start) (line : Common) (world : World) : Prop :=
  (succeeding.crowd (· = start.world line.tokens)).Reachable world

/-- `is_executable` has returned in the shell. -/
def Returned (world : World) : Prop :=
  ∃ shell, world.processes[0]? = some shell ∧ shell.doing = .running (.done ())

def started (processes : List Member) : Multiset Command :=
  (processes.map Process.launched).sum.map commandOf

/-- The right-most command of the line has been started and has ended. -/
def LastEnded (start : Start) (line : Common) (world : World) : Prop :=
  ∃ index > start.others.length, ∃ process image, world.processes[index]? = some process ∧
    process.doing = .ended (some image) ∧
    IsLast line (start.own.table.file 0) (start.own.table.file 1) image process.own

/-- What `is_executable` does behind its `fork`. -/
def behindFork (line : Common) : ForkReply → Prog Unit
  | .failed => do
    request (.perror "fork".toList)
    exit 255
  | .child => runChild (childArgs line)
  | .parent pid => if !line.background then (do let _ ← waitpid pid) else pure ()

theorem isExecutable_common (line : Common) :
    isExecutable (argsOf line.tokens) = .ask Ask.fork (behindFork line) := by
  rw [isExecutable, isBackground_common]
  refine congrArg (Program.ask Ask.fork) (funext fun reply => ?_)
  cases reply <;> rfl

variable {start : Start} {line : Common} {world : World}

theorem behindFork_background (background : line.background = true) (pid : Pid) :
    behindFork line (.parent pid) = .done () := by
  simp only [behindFork, background, Bool.not_true, Bool.false_eq_true, if_false]
  rfl

theorem behindFork_foreground (foreground : line.background = false) (pid : Pid) :
    behindFork line (.parent pid) = .ask (.wait pid) fun _ => .done () := by
  simp only [behindFork, foreground, Bool.not_false, if_true]
  rfl

theorem launch_child (start : Start) (line : Common) :
    succeeding.Launch (runChild (childArgs line) : Prog Unit) start.own
      (Fits line (start.own.table.file 0) (start.own.table.file 1)) := by
  obtain ⟨code, runs, same⟩ := runChild_runs line
  rw [same]
  rintro _ _ after _ ⟨-, rfl⟩
  let own : Local := ⟨start.own.table, sigaction start.own.dispositions SIGINT .default⟩
  have launch : succeeding.Launch code own _ := runs.launch start.standardIn start.standardOut
  exact launch

theorem becomes_child (start : Start) (line : Common) :
    succeeding.Becomes (IsLast line (start.own.table.file 0) (start.own.table.file 1))
      (runChild (childArgs line) : Prog Unit) start.own := by
  obtain ⟨code, runs, same⟩ := runChild_runs line
  rw [same]
  rintro _ _ after _ ⟨-, rfl⟩
  let own : Local := ⟨start.own.table, sigaction start.own.dispositions SIGINT .default⟩
  have becomes : succeeding.Becomes _ code own := runs.becomes start.standardIn start.standardOut
  exact becomes

/-- Once no process runs code of the shell any more, the commands of the line have been
started and no others. -/
theorem started_common (reaches : start.Reaches line world)
    (settled : ∀ process ∈ world.processes, process.isSettled = true) :
    ∃ files pipes, started world.processes = started start.others +
      line.commands (start.own.table.file 0) (start.own.table.file 1) files pipes := by
  let stdin := start.own.table.file 0
  let stdout := start.own.table.file 1
  let post : Launches (List Text) Local → Prop := fun launches => ∃ files pipes,
    launches.map commandOf = started start.others + line.commands stdin stdout files pipes
  have initially : Kept succeeding (start.world line.tokens).processes post := by
    refine ⟨Fits line stdin stdout, ?_, (Kept.of_settled start.settled).mono ?_⟩
    · rw [Process.Keeps]
      simp only [isExecutable_common]
      refine ⟨⟨_, launch_child start line, fun pid => ?_⟩, False.elim⟩
      have nothing : rest (Fits line stdin stdout) (Fits line stdin stdout) 0 := fun one fits => by
        simpa using fits
      simp only [behindFork]
      split
      · exact fun _ => nothing
      · exact nothing
    · rintro _ rfl one ⟨files, pipes, fits⟩
      exact ⟨files, pipes, by rw [Multiset.map_add, fits, add_comm]; rfl⟩
  have kept : Kept succeeding world.processes post := by
    refine reaches.invariant (fun world => Kept succeeding world.processes post) ?_ ?_
    · rintro _ rfl
      exact initially
    · exact fun kept step => step.kept kept
  exact kept.settled settled

def Start.shell (start : Start) (line : Common) : Member :=
  ⟨start.own, start.pid, start.parent, .running (isExecutable (argsOf line.tokens)), false⟩

/-- The right-most command of the line, as the child that the shell forks becomes it. -/
abbrev Start.aim (start : Start) (line : Common) : List Text → Local → Prop :=
  IsLast line (start.own.table.file 0) (start.own.table.file 1)

/-- How far the shell and its child have got on a line that is waited for. -/
inductive Waits (start : Start) (line : Common) (world : World) : Prop where
  | before (others : List Member) (here : world.processes = start.shell line :: others)
      (length : others.length = start.others.length)
      (settled : ∀ process ∈ others, process.isSettled = true)
  | forked (shell child : Member) (pid : Pid) (first : world.processes[0]? = some shell)
      (waiting : shell.doing = .running (behindFork line (.parent pid)))
      (second : world.processes[start.others.length + 1]? = some child)
      (fated : child.Child succeeding (start.aim line) 0 pid)
  | returned (shell child : Member) (pid : Pid) (first : world.processes[0]? = some shell)
      (done : shell.doing = .running (.done ()))
      (second : world.processes[start.others.length + 1]? = some child)
      (fated : child.Child succeeding (start.aim line) 0 pid)
      (ended : child.doing.isEnded = true)

variable {after : World}

private theorem waits_before {others : List Member}
    (here : world.processes = start.shell line :: others)
    (length : others.length = start.others.length)
    (settled : ∀ process ∈ others, process.isSettled = true)
    (step : Crowd.Step succeeding world after) : Waits start line after := by
  cases step with
  | @of front back new process changed shared there step =>
    rw [here] at there
    cases front with
    | nil =>
      obtain ⟨rfl, rfl⟩ := List.cons.inj there
      have asks : (start.shell line).doing = .running (.ask Ask.fork (behindFork line)) := by
        rw [Start.shell, isExecutable_common]
      cases step with
      | fork pid doing fresh =>
        rw [asks] at doing
        obtain ⟨-, same⟩ := Program.ask.inj (Doing.running.inj doing)
        obtain rfl := eq_of_heq same
        refine .forked _ _ pid rfl rfl (by simp [length]; rfl) ⟨rfl, rfl, ?_, ?_⟩
        · exact becomes_child start line
        · rintro ⟨⟩
      | forkFails _ fails => exact fails.elim
      | own doing | exec doing | execFails doing | wait _ doing | exit doing | finish doing =>
        rw [asks] at doing
        cases doing
      | reap ended =>
        rw [asks] at ended
        cases ended
    | cons first front =>
      obtain ⟨rfl, rfl⟩ := List.cons.inj there
      have member := settled process (by simp)
      obtain ⟨still, rfl⟩ := step.settled member
      refine .before (front ++ changed :: back) (by simp) (by simpa using length) ?_
      intro other among
      rcases List.mem_append.mp among with before | behind
      · exact settled other (by simp [before])
      · rcases List.mem_cons.mp behind with rfl | later
        · exact still
        · exact settled other (by simp [later])

private theorem waits_forked {shell child : Member} {pid : Pid} (foreground : line.background = false)
    (first : world.processes[0]? = some shell)
    (waiting : shell.doing = .running (behindFork line (.parent pid)))
    (second : world.processes[start.others.length + 1]? = some child)
    (fated : child.Child succeeding (start.aim line) 0 pid)
    (step : Crowd.Step succeeding world after) : Waits start line after := by
  obtain ⟨later, found, still, ended⟩ := step.child second fated
  rcases step.place first with same | ⟨changed, new, own, there⟩
  · exact .forked shell later pid same waiting found still
  · have changedFirst : after.processes[0]? = some changed := by
      have within := (List.getElem?_eq_some_iff.mp first).1
      rw [there, List.getElem?_append_left (by simpa using within)]
      simp [within]
    rw [behindFork_foreground foreground] at waiting
    generalize after.shared = shared at own
    cases own with
    | wait reply doing gone =>
      rw [waiting] at doing
      obtain ⟨pid', same⟩ := Program.ask.inj (Doing.running.inj doing)
      obtain rfl := Ask.wait.inj pid'
      obtain rfl := eq_of_heq same
      refine .returned _ later pid changedFirst rfl found still (ended ?_)
      by_cases reaped : child.reaped = true
      · exact fated.reaped reaped
      · exact gone child (List.mem_of_getElem? second) fated.parent fated.pid (by simpa using reaped)
    | own doing | fork _ doing | forkFails doing | exec doing | execFails doing | exit doing
    | finish doing =>
      rw [waiting] at doing
      cases doing
    | reap has =>
      rw [waiting] at has
      cases has

private theorem waits_returned {shell child : Member} {pid : Pid}
    (first : world.processes[0]? = some shell) (done : shell.doing = .running (.done ()))
    (second : world.processes[start.others.length + 1]? = some child)
    (fated : child.Child succeeding (start.aim line) 0 pid) (ended : child.doing.isEnded = true)
    (step : Crowd.Step succeeding world after) : Waits start line after := by
  obtain ⟨later, found, still, stays⟩ := step.child second fated
  rcases step.place first with same | ⟨changed, new, own, -⟩
  · exact .returned shell later pid same done found still (stays ended)
  · generalize after.shared = shared at own
    cases own with
    | own doing | fork _ doing | forkFails doing | exec doing | execFails doing | wait _ doing
    | exit doing | finish doing =>
      rw [done] at doing
      cases doing
    | reap has =>
      rw [done] at has
      cases has

theorem Waits.step (foreground : line.background = false) (waits : Waits start line world)
    (step : Crowd.Step succeeding world after) : Waits start line after := by
  cases waits with
  | before others here length settled => exact waits_before here length settled step
  | forked shell child pid first waiting second fated =>
    exact waits_forked foreground first waiting second fated step
  | returned shell child pid first done second fated ended =>
    exact waits_returned first done second fated ended step

theorem waits (foreground : line.background = false) (reaches : start.Reaches line world) :
    Waits start line world := by
  refine reaches.invariant (Waits start line) ?_ (fun waits step => waits.step foreground step)
  rintro _ rfl
  exact .before start.others rfl rfl start.settled

/-- On a line without a final `&` the shell returns after the end of the right-most command. -/
theorem returns_late (foreground : line.background = false) (reaches : start.Reaches line world)
    (returned : Returned world) : LastEnded start line world := by
  obtain ⟨shell, first, done⟩ := returned
  cases waits foreground reaches with
  | before others here length settled =>
    rw [here] at first
    obtain rfl := Option.some.inj first
    rw [Start.shell, isExecutable_common] at done
    cases done
  | forked shell' child pid first' waiting second fated =>
    obtain rfl := Option.some.inj (first.symm.trans first')
    rw [waiting, behindFork_foreground foreground] at done
    cases done
  | returned shell' child pid first' done' second fated ended =>
    obtain ⟨image, doing, aimed⟩ := fated.image ended
    exact ⟨_, Nat.lt_succ_self _, child, image, second, doing, aimed⟩

/-- The shell behind its `fork`, and the processes of earlier lines. -/
def Start.behind (start : Start) (line : Common) (pid : Pid) : List Member :=
  { start.shell line with doing := .running (behindFork line (.parent pid)) } :: start.others

def Start.child (start : Start) (line : Common) (pid : Pid) : Member :=
  ⟨start.own, pid, 0, .running (runChild (childArgs line)), false⟩

def Start.forked (start : Start) (line : Common) (pid : Pid) : World :=
  ⟨start.made, start.behind line pid ++ [start.child line pid]⟩

theorem Start.reaches_forked (start : Start) (line : Common) : ∃ pid,
    (∀ other ∈ (start.world line.tokens).processes, other.reaped = false → other.pid ≠ pid) ∧
      start.Reaches line (start.forked line pid) := by
  obtain ⟨pid, fresh⟩ := (start.world line.tokens).exists_fresh
  have asks : (start.shell line).doing = .running (.ask Ask.fork (behindFork line)) := by
    rw [Start.shell, isExecutable_common]
  have step : Crowd.Step succeeding (start.world line.tokens) (start.forked line pid) :=
    .of (List.nil_append _).symm (.fork pid asks fresh)
  exact ⟨pid, fresh, (Machine.Reachable.start rfl).next step⟩

theorem returns_early (start : Start) (background : line.background = true) :
    ∃ world, start.Reaches line world ∧ Returned world ∧ ¬LastEnded start line world := by
  obtain ⟨pid, -, reaches⟩ := start.reaches_forked line
  have done := congrArg Doing.running (behindFork_background background pid)
  refine ⟨_, reaches, ⟨_, rfl, done⟩, ?_⟩
  rintro ⟨index, behind, process, image, found, ended, -⟩
  have last : index = start.others.length + 1 := by
    have within := (List.getElem?_eq_some_iff.mp found).1
    simp [Start.forked, Start.behind] at within
    omega
  subst last
  simp [Start.forked, Start.behind] at found
  subst found
  cases ended

theorem Start.child_fated (start : Start) (line : Common) (pid : Pid) :
    (start.child line pid).Child succeeding (start.aim line) 0 pid :=
  ⟨rfl, rfl, becomes_child start line, nofun⟩

theorem Start.reaches_ended (start : Start) (line : Common) (pid : Pid) : ∃ shared child new,
    (succeeding.crowd (· = start.forked line pid)).Reachable
        ⟨shared, start.behind line pid ++ child :: new⟩ ∧
      child.doing.isEnded = true ∧ child.isSettled = true ∧
      ∀ other ∈ new, other.isSettled = true ∧ 0 < other.parent := by
  let place := (start.behind line pid).length
  have initially : (succeeding.crowd (· = start.forked line pid)).Reachable
    (start.forked line pid) := .start rfl
  obtain ⟨⟨shared, processes⟩, child, new, reached, there, settled, -, later⟩ :=
    (straight_child line).settles initially rfl rfl
  obtain rfl : processes = start.behind line pid ++ child :: new := by simpa using there
  have elders : ∀ other ∈ new, other.isSettled = true ∧ 0 < other.parent := by
    intro other member
    obtain ⟨otherSettled, after⟩ := later other member
    exact ⟨otherSettled, Nat.lt_of_lt_of_le (Nat.succ_pos _) after⟩
  have fated : ∃ one, (start.behind line pid ++ child :: new)[place]? = some one ∧
      one.Child succeeding (start.aim line) 0 pid := by
    refine reached.invariant (fun world => ∃ one, world.processes[place]? = some one ∧
      one.Child succeeding (start.aim line) 0 pid) ?_ ?_
    · rintro _ rfl
      exact ⟨_, by simp [Start.forked, place], start.child_fated line pid⟩
    · rintro before after ⟨one, found, fated⟩ step
      obtain ⟨later, still, same, -⟩ := step.child found fated
      exact ⟨later, still, same⟩
  obtain ⟨one, found, -, -, becomes, -⟩ := fated
  obtain rfl : child = one := by simpa [place] using found
  obtain ⟨own, number, parent, doing, reaped⟩ := child
  cases doing with
  | running code =>
    cases code with
    | done value => exact becomes.elim
    | ask asked next => cases settled
  | turned image =>
    have ended := reached.next (.of rfl (.finish rfl))
    rw [List.append_nil] at ended
    exact ⟨shared, _, new, ended, rfl, rfl, elders⟩
  | ended image => exact ⟨shared, _, new, reached, rfl, settled, elders⟩

theorem Start.reaches_of_forked {pid : Pid}
    (first : start.Reaches line (start.forked line pid))
    (rest : (succeeding.crowd (· = start.forked line pid)).Reachable world) :
    start.Reaches line world := by
  obtain ⟨_, rfl, run⟩ := rest
  obtain ⟨initial, same, before⟩ := first
  exact ⟨initial, same, before.trans run⟩

/-- Some run gets to the end: the shell has returned, and nobody runs code of it any more. -/
theorem runs_out (start : Start) (line : Common) : ∃ world, start.Reaches line world ∧
    Returned world ∧ ∀ process ∈ world.processes, process.isSettled = true := by
  obtain ⟨pid, fresh, forked⟩ := start.reaches_forked line
  obtain ⟨shared, child, new, run, ended, settled, elders⟩ := start.reaches_ended line pid
  have reached := start.reaches_of_forked forked run
  have others : ∀ process ∈ start.others ++ child :: new, process.isSettled = true := by
    intro process member
    rcases List.mem_append.mp member with before | behind
    · exact start.settled process before
    · rcases List.mem_cons.mp behind with rfl | later
      · exact settled
      · exact (elders process later).1
  cases background : line.background with
  | true =>
    have done := behindFork_background background pid
    refine ⟨_, reached, ⟨_, rfl, congrArg Doing.running done⟩, ?_⟩
    simpa [Start.behind, Process.isSettled, done] using others
  | false =>
    have waits := behindFork_foreground background pid
    -- of all children of the shell only this one has the pid
    have gone : ∀ other ∈ start.behind line pid ++ child :: new, other.parent = 0 →
        other.pid = pid → other.reaped = false → other.doing.isEnded = true := by
      intro other member parent same unreaped
      rcases List.mem_append.mp member with before | behind
      · rcases List.mem_cons.mp before with rfl | earlier
        · exact (fresh (start.shell line) (List.mem_cons_self ..) unreaped same).elim
        · exact (fresh other (List.mem_cons_of_mem _ earlier) unreaped same).elim
      · rcases List.mem_cons.mp behind with rfl | later
        · exact ended
        · exact absurd parent (elders other later).2.ne'
    have returned := reached.next (.of (List.nil_append _).symm
      (.wait true (congrArg Doing.running waits) gone))
    rw [List.append_nil] at returned
    refine ⟨_, returned, ⟨_, rfl, rfl⟩, ?_⟩
    simpa [Process.isSettled] using others

end Lsnp.Lab2
