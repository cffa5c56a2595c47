import Lsnp.Lab2.Session

namespace Lsnp.Lab2

open Lsnp.Interaction Lsnp.Unix

/-- The shell has nobody to wait for, or it has forked the child with this pid; others are
forked. -/
inductive Duty where
  | clear
  | owing (pid : Pid)
  | other

/-- Behind a `fork` the shell waits at once. -/
def duties : Roles Call Call.Reply (List Text) Local Made Duty where
  asks
    | .owing pid, asked, _ => asked = .wait pid
    | _, _, _ => True
  after
    | .clear, _, .fork, .parent pid => .owing pid
    | .owing _, _, .wait _, _ => .clear
    | duty, _, _, _ => duty
  forked _ := .other

/-- Each line that `fgets` reads is to be run in the foreground. -/
def Foreground (stdin : List Char) : Prop :=
  ∀ line ∈ Libc.pieces MAXLINE stdin, (Lab.commandParse line).getLast? ≠ some "&".toList

/-- Unless it is waiting, the shell runs alone: the processes that it has forked have ended. -/
def Alone (world : World) : Prop :=
  ∀ (shell : Member) code, world.processes[0]? = some shell → shell.doing = .running code →
    (∀ pid, ¬ shell.Asks (.wait pid)) → ∀ (index : Nat) (child : Member), 0 < index →
      world.processes[index]? = some child → child.parent = 0 → child.doing.isEnded = true

variable {own : Local} {table : FdTable File} {world later : World} {stdin : List Char}

private theorem other_plays {code : Prog α} {results : Duty → α → Local → Prop}
    (departs : Departs (fun _ => True) code) :
    (platform True).Plays duties results code .other own :=
  Platform.plays_of_uses (fun _ => True) (fun _ => False) departs.1 departs.2 (fun _ _ _ _ => rfl)
    (fun _ => rfl) (fun _ _ _ _ => trivial) (fun _ _ never => never.elim)
    (fun _ _ _ _ _ _ _ _ _ => trivial) trivial

private theorem clear_admits : Admits duties .clear table := by
  refine ⟨fun _ _ _ => trivial, fun made asked answer used forks => ?_⟩
  cases asked with
  | fork => exact (forks rfl).elim
  | _ => rfl

private theorem executes_foreground {tokens : List Text} (filled : tokens ≠ [])
    (foreground : tokens.getLast? ≠ some "&".toList) :
    Executes duties .clear table (argsOf tokens) := by
  intro own looping
  rw [isExecutable, isBackground_plain filled foreground]
  have child : Departs (fun _ => True) (runChild (argsOf tokens) : Prog Unit) :=
    .ask trivial fun _ => (operate_departs _).mono fun _ _ => trivial
  refine ⟨trivial, other_plays child, fun _ pid => ?_, fun _ _ => ?_⟩
  · exact ⟨rfl, fun _ _ => ⟨rfl, looping⟩⟩
  · exact loop_plays clear_admits (departs_perror (fun _ => trivial) trivial _).1 looping
      fun _ own looping => ⟨rfl, looping⟩

/-- What the duty of the shell says about one of its children. -/
def Duty.attends (child : Member) : Duty → Prop
  | .clear => child.doing.isEnded = true
  | .owing pid => child.doing.isEnded = true ∨ child.pid = pid
  | .other => False

/-- The shell has waited for each of its children but perhaps the last one. -/
structure Attended (world : World) (cast : Nat → Duty) : Prop where
  filled : 0 < world.processes.length
  shell : cast 0 ≠ .other
  reaped : ∀ process ∈ world.processes, process.reaped = true → process.doing.isEnded = true
  others : ∀ place, 0 < place → cast place = .other
  children : ∀ (place : Nat) (child : Member), 0 < place → world.processes[place]? = some child →
    child.parent = 0 → (cast 0).attends child

theorem Duty.attends.ended {child : Member} {duty : Duty} (ended : child.doing.isEnded = true)
    (shell : duty ≠ .other) : duty.attends child := by
  cases duty with
  | clear => exact ended
  | owing pid => exact .inl ended
  | other => exact (shell rfl).elim

/-- What the duty of the shell says is still so behind a step of the shell, which waits for the
child that it has forked and forks none before. -/
private theorem shell_turns {process changed : Member} {shared : Made} {new : List Member}
    {before duty : Duty} (some : before ≠ .other)
    (demand : ∀ {asked}, process.Asks asked → duties.asks before asked process.own)
    (reaped : ∀ process ∈ world.processes, process.reaped = true → process.doing.isEnded = true)
    (turns : duties.Recast (platform True) world 0 process changed shared new before duty) :
    duty ≠ .other ∧ (∀ child ∈ world.processes, child.parent = 0 → before.attends child →
      duty.attends child) ∧ ∀ one ∈ new, duty.attends one := by
  rcases turns with ⟨rfl, -, rfl⟩ | ⟨asked, answer, asks, answered, rfl⟩
  · exact ⟨some, fun _ _ _ attends => attends, by simp⟩
  cases before with
  | other => exact (some rfl).elim
  | clear =>
    cases asked with
    | fork =>
      cases answer with
      | failed =>
        obtain ⟨-, rfl⟩ := answered
        exact ⟨Duty.noConfusion, fun _ _ _ attends => attends, by simp⟩
      | child => exact answered.elim
      | parent pid =>
        obtain ⟨-, code, rfl⟩ := answered
        refine ⟨Duty.noConfusion, fun _ _ _ ended => .inl ended, fun one member => ?_⟩
        obtain rfl := List.mem_singleton.mp member
        exact .inr rfl
    | own asked =>
      obtain ⟨-, rfl⟩ := answered
      exact ⟨Duty.noConfusion, fun _ _ _ attends => attends, by simp⟩
    | exec image =>
      obtain ⟨-, rfl⟩ := answered
      exact ⟨Duty.noConfusion, fun _ _ _ attends => attends, by simp⟩
    | wait pid =>
      obtain ⟨-, rfl, -⟩ := answered
      exact ⟨Duty.noConfusion, fun _ _ _ attends => attends, by simp⟩
    | exit code => exact answer.elim
  | owing pid =>
    obtain rfl : asked = .wait pid := demand asks
    obtain ⟨-, rfl, gone⟩ := answered
    refine ⟨Duty.noConfusion, fun child member parent attends => ?_, by simp⟩
    rcases attends with ended | same
    · exact ended
    · by_cases left : child.reaped = true
      · exact reaped child member left
      · exact gone child member parent same (by simpa using left)

theorem Attended.step {results : Duty → Unit → Local → Prop} {cast : Nat → Duty}
    (attended : Attended world cast)
    (plays : world.Cast (platform True) duties results cast)
    (step : world.Step (platform True) later) :
    ∃ next, later.Cast (platform True) duties results next ∧ Attended later next := by
  have reaped := Crowd.Step.reaped step attended.reaped
  obtain ⟨index, process, changed, new, duty, found, step, grown, places, turns, next⟩ :=
    Crowd.Step.cast step plays
  have inside := attended.filled
  have demand : ∀ {asked}, process.Asks asked → duties.asks (cast index) asked process.own :=
    (plays index process found).asks
  have others : ∀ place, 0 < place → recast cast index duty world.processes.length
      (new.head?.map fun _ => duties.forked (cast index)) place = .other := by
    intro place behind
    rw [recast]
    split
    · rename_i own
      have same : cast index = .other := attended.others index (own ▸ behind)
      rcases turns with ⟨turned, -⟩ | ⟨asked, answer, -, -, turned⟩ <;> rw [turned, same]
      rfl
    · split
      · rw [attended.others place behind]
        cases new <;> rfl
      · exact attended.others place behind
  rcases Nat.eq_zero_or_pos index with rfl | behind
  · obtain ⟨some, old, forked⟩ := shell_turns attended.shell demand attended.reaped turns
    refine ⟨_, next, by omega, some, reaped, others, fun place child behind member parent => ?_⟩
    change duty.attends child
    rcases places place child member with ⟨rfl, -⟩ | ⟨-, before⟩ | ⟨-, rfl⟩
    · exact (Nat.lt_irrefl _ behind).elim
    · exact old child (List.mem_of_getElem? before) parent
        (attended.children place child behind before parent)
    · exact forked child (by simp)
  · have shell : recast cast index duty world.processes.length
        (new.head?.map fun _ => duties.forked (cast index)) 0 = cast 0 := by
      rw [recast, if_neg (Nat.ne_of_lt behind), if_neg (Nat.ne_of_lt inside)]
    refine ⟨_, next, by omega, by rw [shell]; exact attended.shell, reaped, others, ?_⟩
    intro place child later member parent
    rw [shell]
    rcases places place child member with ⟨rfl, rfl⟩ | ⟨-, before⟩ | ⟨-, rfl⟩
    · have attends := attended.children place process later found (step.parent ▸ parent)
      cases duty : cast 0 <;> rw [duty] at attends
      · exact step.ended attends
      · exact attends.imp step.ended fun same => step.pid.trans same
      · exact attends.elim
    · exact attended.children place child later before parent
    · have same := step.new_parent child (by simp)
      omega

theorem session_attended (session : Session stdin own world) (foreground : Foreground stdin) :
    ∃ cast, Attended world cast ∧ world.Cast (platform True) duties
      (fun duty _ after => duty = .clear ∧ after.table = own.table) cast := by
  refine Machine.Reachable.invariant (fun world => ∃ cast, Attended world cast ∧
    world.Cast (platform True) duties
      (fun duty _ after => duty = .clear ∧ after.table = own.table) cast) ?_ ?_ session
  · rintro start ⟨pid, parent, only⟩
    have zero : ∀ {index : Nat} {process : Member}, start.processes[index]? = some process →
        index = 0 := by
      intro index process found
      rw [only] at found
      simpa using (List.getElem?_eq_some_iff.mp found).1
    refine ⟨leading .clear .other, ⟨by simp [only], Duty.noConfusion, by simp [only],
      fun place behind => if_neg (Nat.ne_of_gt behind), ?_⟩, ?_⟩
    · intro place child behind found
      exact (Nat.ne_of_gt behind (zero found)).elim
    · intro index process found
      obtain rfl := zero found
      rw [only] at found
      obtain rfl : _ = process := by simpa using found
      refine main_plays stdin clear_admits fun line member args parsed => ?_
      unfold commandParse at parsed
      split at parsed
      · cases parsed
      · rename_i filled
        obtain rfl := Option.some.inj parsed
        exact executes_foreground filled (foreground line member)
  · rintro world later ⟨cast, attended, plays⟩ step
    obtain ⟨next, plays, attended⟩ := attended.step plays step
    exact ⟨next, attended, plays⟩

/-- In a session without an `&` no child of the shell is running when it prompts, reads, changes
its directory or exits. -/
theorem session_alone (session : Session stdin own world) (foreground : Foreground stdin) :
    Alone world := by
  obtain ⟨cast, attended, plays⟩ := session_attended session foreground
  intro shell code first doing waiting index child behind found parent
  have attends := attended.children index child behind found parent
  have own := plays 0 shell first
  rw [Process.Plays, doing] at own
  cases duty : cast 0 with
  | clear =>
    rw [duty] at attends
    exact attends
  | owing pid =>
    rw [duty] at own
    cases code with
    | done value => cases own.1
    | ask asked next =>
      have asks : shell.Asks asked := ⟨next, doing⟩
      have demand := (plays 0 shell first).asks asks
      rw [duty] at demand
      obtain rfl : asked = .wait pid := demand
      exact (waiting pid asks).elim
  | other =>
    rw [duty] at attends
    exact attends.elim

theorem session_alone_ls : Foreground "ls\n".toList ∧
    ∃ world, Session "ls\n".toList ⟨⟨[]⟩, fun _ => .default⟩ world ∧
      (∃ process ∈ world.processes, process.doing = .turned ["ls".toList]) ∧ Alone world := by
  have foreground : Foreground "ls\n".toList := by
    have read : Libc.fgets MAXLINE "ls\n".toList = some ("ls\n".toList, []) := rfl
    rw [Foreground, Libc.pieces_eq_cons read, Libc.pieces_eq_nil rfl]
    decide
  obtain ⟨world, session, turned⟩ := session_ls ⟨⟨[]⟩, fun _ => .default⟩
  exact ⟨foreground, world, session, turned, session_alone session foreground⟩

end Lsnp.Lab2
