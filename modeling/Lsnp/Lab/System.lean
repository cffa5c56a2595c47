import Lsnp.Lab.IsExecutable
import Lsnp.Unix.Effects

/-! The shell among the processes it has forked, the signal `SIGCHLD`, and the loop of
`child_handler` (`child_handler.c`). -/

namespace Lsnp.Lab

open Lsnp.Interaction Lsnp.Unix

/-- What `waitpid(-1, NULL, WNOHANG)` can return: the pid of a child it has reaped, 0,
-1 with `ECHILD`, or -1 with another error. -/
inductive Collected where
  | child (pid : Pid)
  | running
  | childless
  | failed
  deriving DecidableEq, Repr

/-- Where `child_handler` is: not called, in front of the `waitpid` of its loop, behind
the loop, or in `abort`. -/
inductive Handler where
  | idle
  | looping
  | returning
  | aborted
  deriving DecidableEq, Repr

def deadText (pid : Pid) : Text :=
  "PID of the dead child = ".toList ++ Nat.toDigits 10 pid ++ ['\n']

/-- One iteration of the loop of `child_handler`: where it goes, and what it prints. -/
def childHandler : Collected → Handler × Text
  | .child pid => (.looping, deadText pid)
  | .running => (.returning, [])
  | .childless => (.returning, [])
  | .failed => (.aborted, "waitpid".toList)

/-- A process the shell has forked and nobody has reaped: its number in the order of the
forks, its descriptor table now, and how it ended if it is a zombie. -/
structure Process where
  serial : Nat
  fork : Fork
  table : FdTable File
  ended : Option Termination
  deriving DecidableEq, Repr

/-- Who calls the `waitpid` that reaps a process. -/
inductive Reaper where
  | shell
  | handler
  deriving DecidableEq, Repr

/-- The whole system. `reported` is what the handler has printed, kept apart from what
the shell itself has; `died` and `reaped` are the processes that have ended and those
that were reaped, by their serial numbers and in order. -/
structure World where
  shell : Shell
  children : List Process
  pending : Bool
  handler : Handler
  reported : Text
  died : List (Nat × Termination)
  reaped : List (Nat × Reaper)
  deriving DecidableEq, Repr

namespace World

def initial : World := ⟨.initial, [], false, .idle, [], [], []⟩

def zombies (world : World) : List Process :=
  world.children.filter (·.ended.isSome)

def advance (world : World) (shell : Shell) : World := { world with shell := shell }

/-- A fork adds a running child with the descriptors of the shell. -/
def spawn (world : World) (pid : Pid) (arglist : Nat) (argv : List Text) : World :=
  let child := world.shell.child pid arglist argv
  { world with
    shell := world.shell.note (.forked child)
    children := world.children ++ [⟨(forks world.shell.log).length, child, child.table, none⟩] }

/-- A call of `waitpid` takes a zombie out of the children. -/
def reap (world : World) (rest : List Process) (child : Process) (reaper : Reaper) : World :=
  { world with children := rest, reaped := world.reaped ++ [(child.serial, reaper)] }

/-- The handler goes on with what its `waitpid` returned. -/
def handle (world : World) (collected : Collected) : World :=
  { world with
    handler := (childHandler collected).1
    reported := world.reported ++ (childHandler collected).2 }

end World

/-- The pipe ends of one table are among those of another. -/
def Narrower (table wider : FdTable File) : Prop :=
  ∀ pipe, (table.Holds (.pipeRead pipe) → wider.Holds (.pipeRead pipe)) ∧
    (table.Holds (.pipeWrite pipe) → wider.Holds (.pipeWrite pipe))

/-- What happens beside the shell. A running child may do what it likes to its table, but
cannot get at a pipe end it does not have; when it ends it closes everything and makes
`SIGCHLD` pending. The handler starts when the signal is delivered; nothing interrupts it
or goes on beside it in the shell. It reaps any zombie that `mayReap` allows. -/
inductive Moves (mayReap : World → Process → Prop) (world : World) : World → Prop where
  | rearrange {front back : List Process} {child : Process} {table : FdTable File}
      (here : world.children = front ++ child :: back) (running : child.ended = none)
      (narrower : Narrower table child.table) :
      Moves mayReap world { world with children := front ++ { child with table := table } :: back }
  | die {front back : List Process} {child : Process} (termination : Termination)
      (here : world.children = front ++ child :: back) (running : child.ended = none) :
      Moves mayReap world { world with
        children := front ++ { child with table := ⟨[]⟩, ended := some termination } :: back
        pending := true
        died := world.died ++ [(child.serial, termination)] }
  | deliver (pending : world.pending = true) (idle : world.handler = .idle) :
      Moves mayReap world { world with pending := false, handler := .looping }
  | collect {front back : List Process} {child : Process} (looping : world.handler = .looping)
      (here : world.children = front ++ child :: back) (zombie : child.ended ≠ none)
      (allowed : mayReap world child) :
      Moves mayReap world
        ((world.reap (front ++ back) child .handler).handle (.child child.fork.pid))
  | running (looping : world.handler = .looping) (some : world.children ≠ [])
      (none : world.zombies = []) : Moves mayReap world (world.handle .running)
  | childless (looping : world.handler = .looping) (none : world.children = []) :
      Moves mayReap world (world.handle .childless)
  | resume (returning : world.handler = .returning) :
      Moves mayReap world { world with handler := .idle }

/-- What a call of the shell gets. A `fork` returns a pid that no child has; a `waitpid`
the status of the child with that pid once it has ended, and fails if there is none. -/
def World.serve (world : World) : (asked : Call) → asked.Reply → World → Prop
  | .fork arglist argv, reply, after => reply = none ∧ after = world ∨
      ∃ pid, (∀ child ∈ world.children, child.fork.pid ≠ pid) ∧ reply = some pid ∧
        after = world.spawn pid arglist argv
  | .waitpid pid, reply, after =>
      (∀ child ∈ world.children, child.fork.pid ≠ pid) ∧ reply = none ∧
        after = world.advance (world.shell.note (.waited pid none)) ∨
      ∃ front back child termination, world.children = front ++ child :: back ∧
        child.fork.pid = pid ∧ child.ended = some termination ∧
        reply = some termination.encode ∧
        after = (world.reap (front ++ back) child .shell).advance
          (world.shell.note (.waited pid (some termination.encode)))
  | asked, reply, after => ∃ shell, Unix.serve true world.shell asked reply shell ∧
      after = world.advance shell

/-- The system, with the handler reaping what it is allowed to. -/
def system (mayReap : World → Process → Prop) : Service Call Call.Reply World :=
  ⟨fun world asked reply after => world.handler = .idle ∧ world.serve asked reply after,
    Moves mayReap⟩

/-- The system as it is: `child_handler` reaps whatever it finds. -/
def everything : World → Process → Prop := fun _ _ => True

variable {mayReap : World → Process → Prop} {world after : World}

theorem moves_shell (moved : Moves mayReap world after) : after.shell = world.shell := by
  cases moved <;> rfl

/-- A move alters a running child, which keeps its number and can end, takes a zombie
away, or leaves the children alone. -/
theorem moves_cases (moved : Moves mayReap world after) :
    (∃ front back child altered, world.children = front ++ child :: back ∧
      after.children = front ++ altered :: back ∧ altered.serial = child.serial ∧
      altered.fork = child.fork ∧ Narrower altered.table child.table ∧
      ∀ termination, altered.ended = some termination →
        (child.serial, termination) ∈ after.died) ∨
    (∃ front back child, world.children = front ++ child :: back ∧
      after.children = front ++ back ∧ mayReap world child) ∨
    after.children = world.children := by
  cases moved with
  | rearrange here running narrower =>
    exact .inl ⟨_, _, _, _, here, rfl, rfl, rfl, narrower, by simp [running]⟩
  | die termination here running =>
    refine .inl ⟨_, _, _, _, here, rfl, rfl, rfl, ?_, ?_⟩
    · rintro pipe
      constructor <;> rintro ⟨fd, found⟩ <;> simp [FdTable.file] at found
    · rintro other ended
      obtain rfl := Option.some.inj ended
      simp
  | collect looping here zombie allowed => exact .inr (.inl ⟨_, _, _, here, rfl, allowed⟩)
  | deliver | running | childless | resume => exact .inr (.inr rfl)

theorem moves_died (moved : Moves mayReap world after) : world.died ⊆ after.died := by
  cases moved with
  | die => exact List.subset_append_left _ _
  | _ => exact List.Subset.refl _

theorem serve_died {asked : Call} {reply : asked.Reply} (served : world.serve asked reply after) :
    after.died = world.died := by
  cases asked
  case fork => rcases served with ⟨-, rfl⟩ | ⟨_, -, -, rfl⟩ <;> rfl
  case waitpid => rcases served with ⟨-, -, rfl⟩ | ⟨_, _, _, _, -, -, -, -, rfl⟩ <;> rfl
  all_goals
    obtain ⟨shell, -, rfl⟩ := served
    rfl

/-- What the system replies, the shell on its own may be replied as well. -/
theorem serve_shell {asked : Call} {reply : asked.Reply} (served : world.serve asked reply after) :
    (kernel true).serve world.shell asked reply after.shell := by
  cases asked
  case fork arglist argv =>
    rcases served with ⟨rfl, rfl⟩ | ⟨pid, -, rfl, rfl⟩
    · exact .inl ⟨rfl, rfl⟩
    · exact .inr ⟨pid, rfl, rfl⟩
  case waitpid pid =>
    rcases served with ⟨-, rfl, rfl⟩ | ⟨_, _, _, termination, -, -, -, rfl, rfl⟩
    · exact ⟨rfl, .inl ⟨rfl, rfl⟩⟩
    · exact ⟨rfl, .inr ⟨termination, rfl⟩⟩
  all_goals
    obtain ⟨shell, served, rfl⟩ := served
    exact served

theorem serve_idle {asked : Call} {reply : asked.Reply} (served : world.serve asked reply after)
    (idle : ¬ asked.isFork ∧ ¬ asked.isWaitpid) :
    ∃ shell, forks shell.log = forks world.shell.log ∧ after = world.advance shell := by
  have same := (serve_processes (serve_shell served) idle.1 idle.2).1
  refine ⟨after.shell, same, ?_⟩
  cases asked <;> first
    | exact (idle.1 trivial).elim
    | exact (idle.2 trivial).elim
    | (obtain ⟨shell, -, rfl⟩ := served; rfl)

/-- A call adds a child, takes a zombie away, or leaves all processes alone. -/
theorem serve_cases {asked : Call} {reply : asked.Reply} (served : world.serve asked reply after) :
    (∃ pid arglist argv, (∀ child ∈ world.children, child.fork.pid ≠ pid) ∧
      after = world.spawn pid arglist argv) ∨
    (∃ front back child shell, world.children = front ++ child :: back ∧ child.ended ≠ none ∧
      forks shell.log = forks world.shell.log ∧
      after = (world.reap (front ++ back) child .shell).advance shell) ∨
    ∃ shell, forks shell.log = forks world.shell.log ∧ after = world.advance shell := by
  cases asked
  case fork arglist argv =>
    rcases served with ⟨-, rfl⟩ | ⟨pid, fresh, -, rfl⟩
    · exact .inr (.inr ⟨_, rfl, rfl⟩)
    · exact .inl ⟨pid, _, _, fresh, rfl⟩
  case waitpid pid =>
    rcases served with ⟨-, -, rfl⟩ | ⟨front, back, child, termination, here, -, ended, -, rfl⟩
    · exact .inr (.inr ⟨_, by simp, rfl⟩)
    · exact .inr (.inl ⟨front, back, child, _, here, by simp [ended], by simp, rfl⟩)
  all_goals exact .inr (.inr (serve_idle served ⟨id, id⟩))

variable {α : Type} {start final : Prog α × World}

theorem system_invariant (property : World → Prop)
    (calls : ∀ {world after : World} {asked : Call} {reply : asked.Reply}, property world →
      world.serve asked reply after → property after)
    (others : ∀ {world after : World}, property world → Moves mayReap world after → property after)
    (reach : (system mayReap).Reach start final) (initially : property start.2) :
    property final.2 :=
  reach.invariant property (fun _ _ _ _ held served => calls held (And.right served))
    (fun _ _ => others) initially

theorem reach_shell (reach : (system mayReap).Reach start final) :
    (kernel true).Reach (start.1, start.2.shell) (final.1, final.2.shell) :=
  reach.project World.shell (fun _ _ _ _ served => serve_shell (And.right served))
    fun _ _ => moves_shell

end Lsnp.Lab
