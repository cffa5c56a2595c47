import Lsnp.Lab.Granted
import Lsnp.Lab.Statuses
import Lsnp.Unix.Replay
import Mathlib.Data.Fintype.EquivFin

namespace Lsnp.Lab

open Lsnp.Interaction Lsnp.Unix

def willingSystem : Service Call Call.Reply World :=
  ⟨fun world asked reply after => (system everything).serve world asked reply after ∧
    asked.Obliged world.shell reply, Moves everything⟩

variable {α : Type} {world after : World} {start final : Prog α × World}

theorem reach_system (reach : willingSystem.Reach start final) :
    (system everything).Reach start final := by
  refine Relation.ReflTransGen.mono ?_ _ _ reach
  rintro _ _ (served | moved)
  · exact .reply served.1
  · exact .move moved

theorem reach_willing (reach : willingSystem.Reach start final) :
    willing.Reach (start.1, start.2.shell) (final.1, final.2.shell) := by
  have replies : ∀ world asked reply after, willingSystem.serve world asked reply after →
      willing.serve world.shell asked reply after.shell :=
    fun _ _ _ _ served => ⟨serve_shell served.1.2, served.2⟩
  exact reach.project World.shell replies fun _ _ => moves_shell

theorem obliging_obliged {shell changed : Shell} {asked : Call} {reply : asked.Reply}
    (answered : obliging.answer shell asked = some (reply, changed)) : asked.Obliged shell reply := by
  cases asked <;> simp only [Policy.answer] at answered <;> simp only [Call.Obliged]
  case dup fd | dup2 fd standard =>
    intro failed
    split at answered
    · assumption
    · cases answered
      cases failed
  case pipe | openFile | fork | uname | chdir | getcwd =>
    cases answered
    simp

/-- Some reply is possible, perhaps after the end of the child that is waited for. -/
theorem exists_reply {asked : Call} (possible : asked ≠ .fault) (idle : world.handler = .idle) :
    ∃ between reply after, Relation.ReflTransGen (Moves everything) world between ∧
      willingSystem.serve between asked reply after ∧ after.handler = .idle ∧
      ∃ waited, waits after.shell.log = waits world.shell.log ++ waited ∧
        (waited = [] → after.died = world.died) := by
  have unwaited : ∀ {shell : Shell}, waits shell.log = waits world.shell.log →
      ∃ waited, waits shell.log = waits world.shell.log ++ waited ∧
        (waited = [] → world.died = world.died) :=
    fun same => ⟨[], same.trans (List.append_nil _).symm, fun _ => rfl⟩
  cases asked
  case fork arglist argv =>
    obtain ⟨pid, fresh⟩ :=
      Infinite.exists_notMem_finset (world.children.map (·.fork.pid)).toFinset
    have other : ∀ child ∈ world.children, child.fork.pid ≠ pid := fun child member same =>
      fresh (by simpa using ⟨child, member, same⟩)
    exact ⟨world, some pid, world.spawn pid arglist argv, .refl,
      ⟨⟨idle, .inr ⟨pid, other, rfl, rfl⟩⟩, Option.some_ne_none pid⟩, idle, unwaited (by simp [World.spawn])⟩
  case waitpid pid =>
    have waited : ∀ (status : Option Nat) {shell : Shell} {died : List (Nat × Termination)},
        waits shell.log = waits world.shell.log ++ [(pid, status)] →
        ∃ waited, waits shell.log = waits world.shell.log ++ waited ∧
          (waited = [] → died = world.died) :=
      fun _ _ _ same => ⟨_, same, fun none => by cases none⟩
    by_cases missing : ∀ child ∈ world.children, child.fork.pid ≠ pid
    · exact ⟨world, none, _, .refl, ⟨⟨idle, .inl ⟨missing, rfl, rfl⟩⟩, trivial⟩, idle,
        waited none (by simp [World.advance])⟩
    · simp only [not_forall, not_not] at missing
      obtain ⟨child, member, rfl⟩ := missing
      obtain ⟨front, back, here⟩ := List.append_of_mem member
      cases ended : child.ended with
      | none =>
        refine ⟨_, some (Termination.exited 0).encode, _, .single (.die (.exited 0) here ended),
          ⟨⟨idle, .inr ⟨front, back, _, .exited 0, rfl, rfl, rfl, rfl, rfl⟩⟩, trivial⟩, idle, ?_⟩
        exact waited (some (Termination.exited 0).encode) (by simp [World.advance, World.reap])
      | some termination =>
        refine ⟨world, some termination.encode, _, .refl,
          ⟨⟨idle, .inr ⟨front, back, child, termination, here, rfl, ended, rfl, rfl⟩⟩, trivial⟩,
          idle, ?_⟩
        exact waited (some termination.encode) (by simp [World.advance])
  case fault => exact (possible rfl).elim
  all_goals
    obtain ⟨reply, shell, answered⟩ := obliging.total world.shell _ possible
    have served := obliging.permits _ _ _ _ answered
    exact ⟨world, reply, world.advance shell, .refl,
      ⟨⟨idle, shell, served, rfl⟩, obliging_obliged answered⟩, idle,
      unwaited (serve_processes served id id).2⟩

/-- A program that reads nothing out of bounds has a run to its end, and if nobody is waited for
in it one in which nobody dies. -/
theorem exists_run {program : Prog α} (uses : program.uses (· ≠ .fault))
    (idle : world.handler = .idle) :
    ∃ value after, willingSystem.Reach (program, world) (.done value, after) ∧
      ∃ waited, waits after.shell.log = waits world.shell.log ++ waited ∧
        (waited = [] → after.died = world.died) := by
  induction program generalizing world with
  | done value => exact ⟨value, world, .refl _, [], (List.append_nil _).symm, fun _ => rfl⟩
  | ask asked next ih =>
    obtain ⟨between, reply, replied, moved, served, still, front, first, quiet⟩ :=
      exists_reply uses.1 idle
    obtain ⟨value, after, run, back, later, quiet'⟩ := ih reply (uses.2 reply) still
    refine ⟨value, after, .trans (Service.Reach.moves moved) (.reply served run), front ++ back,
      by rw [later, first, List.append_assoc], fun nobody => ?_⟩
    obtain ⟨noFront, noBack⟩ := List.append_eq_nil_iff.mp nobody
    rw [quiet' noBack, quiet noFront]

theorem execute_recorded {argv : List Text} (external : isBuiltin argv = false) (arglist : Nat)
    (fdIn fdOut : Option Fd) : (execute arglist argv fdIn fdOut).uses Call.isRecorded := by
  cases argv with
  | nil => trivial
  | cons cmd args =>
    refine execute_uses_of ?_ fdIn fdOut trivial (fun _ => trivial) (fun _ => trivial)
      (fun _ _ => trivial) (fun _ _ => trivial) fun _ => trivial
    simp only [start, checkBuiltin_external external, pure_bind, Bool.false_eq_true, if_false]
    refine ⟨trivial, fun pid => ?_⟩
    cases pid with
    | none => exact ⟨trivial, fun _ => trivial⟩
    | some pid => trivial

/-- Without builtins and `&&` the shell makes only calls that the log tells. -/
theorem runStages_recorded {stages : List Stage}
    (external : ∀ stage ∈ stages, isBuiltin stage.argv = false)
    (endings : ∀ stage ∈ stages, stage.ending ≠ .and ∧ stage.ending ≠ .blank)
    (fds : Fds) (pids : List Pid) : (runStages stages fds pids).uses Call.isRecorded := by
  have exiting : ∀ background pids fds, (errorExit background pids fds).uses Call.isRecorded :=
    fun _ _ _ => errorExit_uses _ _ _ (fun _ => trivial) fun _ => trivial
  induction stages generalizing fds pids with
  | nil => exact exiting _ _ _
  | cons stage rest ih =>
    have next := ih (fun other member => external other (by simp [member]))
      fun other member => endings other (by simp [member])
    have executing := execute_recorded (external stage (by simp))
    refine Program.uses_bind ?_ fun ⟨opened, fds⟩ => ?_
    · refine Program.uses_mono (openAll_uses _ _) fun asked opens => ?_
      cases asked <;> first | exact opens.elim | trivial
    cases opened with
    | false => exact exiting _ _ _
    | true =>
      simp only [if_true, runEnding]
      cases ending : stage.ending with
      | none => exact Program.uses_bind (executing _ _ _) fun _ => exiting _ _ _
      | pipe =>
        refine Program.uses_bind (openPipe_uses _ _ _ trivial (fun _ => trivial) fun _ => trivial)
          fun ends => ?_
        cases ends with
        | none => exact exiting _ _ _
        | some ends =>
          refine Program.uses_bind (executing _ _ _) fun pid => ?_
          cases pid with
          | none => exact ⟨trivial, fun _ => exiting _ _ _⟩
          | some pid => exact next _ _
      | and => exact ((endings stage (by simp)).1 ending).elim
      | background =>
        refine Program.uses_bind (executing _ _ _) fun bgPid => ?_
        refine Program.uses_bind ?_ fun _ => exiting _ _ _
        cases bgPid with
        | none => trivial
        | some pid => exact ⟨trivial, fun _ => trivial⟩
      | missing direction => exact ⟨trivial, fun _ => exiting _ _ _⟩
      | blank => exact ((endings stage (by simp)).2 ending).elim

/-- Since so many events, who has been waited for behind its fork has died. -/
def Buried (since : Nat) (world : World) : Prop :=
  ∀ front child back, world.shell.log = front ++ .forked child :: back → since ≤ front.length →
    child.pid ∈ (waits back).map Prod.fst →
      ∃ termination, ((forks front).length, termination) ∈ world.died

private theorem serve_events {asked : Call} {reply : asked.Reply}
    (served : world.serve asked reply after) :
    ∃ events, after.shell.log = world.shell.log ++ events ∧
      ((∃ child, events = [.forked child]) ∨
        (∃ pid status, asked = .waitpid pid ∧ events = [.waited pid status]) ∨
        forks events = [] ∧ waits events = []) := by
  have shell := serve_shell served
  cases asked
  case fork arglist argv =>
    rcases served with ⟨-, rfl⟩ | ⟨pid, -, -, rfl⟩
    · exact ⟨[], (List.append_nil _).symm, .inr (.inr ⟨rfl, rfl⟩)⟩
    · exact ⟨_, rfl, .inl ⟨_, rfl⟩⟩
  case waitpid pid =>
    obtain ⟨same, -⟩ := shell
    exact ⟨_, congrArg Shell.log same, .inr (.inl ⟨pid, reply, rfl, rfl⟩)⟩
  all_goals
    obtain ⟨events, grown⟩ := serve_extends shell
    obtain ⟨forked, waited⟩ := serve_processes shell id id
    rw [grown, forks_append, waits_append] at *
    exact ⟨events, rfl, .inr (.inr ⟨by simpa using forked, by simpa using waited⟩)⟩

private theorem serve_waitpid {number : Nat} {child : Fork} {reply : (Call.waitpid child.pid).Reply}
    (orderly : Orderly world) (reckoned : Reckoned world)
    (forked : (forks world.shell.log)[number]? = some child)
    (served : world.serve (.waitpid child.pid) reply after) :
    ∃ termination, (number, termination) ∈ world.died := by
  have listed : number ∈ world.children.map Process.serial ++ world.reaped.map Prod.fst :=
    reckoned.forked.symm.subset (List.mem_range.mpr (List.getElem?_eq_some_iff.mp forked).1)
  rcases List.mem_append.mp listed with present | gone
  · obtain ⟨process, member, rfl⟩ := List.mem_map.mp present
    have same : process.fork = child := Option.some.inj ((orderly.numbered process member).symm.trans forked)
    rcases served with ⟨missing, -⟩ | ⟨front, back, other, termination, here, pid, ended, -⟩
    · exact (missing process member (by rw [same])).elim
    · have among : other ∈ world.children := by simp [here]
      obtain rfl : process = other :=
        List.inj_on_of_nodup_map orderly.distinct member among (by rw [same, pid])
      exact ⟨termination, orderly.recorded process member termination ended⟩
  · have dead := reckoned.dead.symm.subset (List.mem_append_right _ gone)
    obtain ⟨⟨_, termination⟩, entry, rfl⟩ := List.mem_map.mp dead
    exact ⟨termination, entry⟩

theorem serve_buried {since : Nat} {asked : Call} {reply : asked.Reply} (orderly : Orderly world)
    (reckoned : Reckoned world) (buried : Buried since world)
    (served : world.serve asked reply after) : Buried since after := by
  intro front child back log later waited
  obtain ⟨events, grown, news⟩ := serve_events served
  rw [serve_died served]
  -- the fork is among the new events, or it stands in front of them
  have place : (∃ before, events = before ++ .forked child :: back) ∨
      ∃ between, world.shell.log = front ++ .forked child :: between ∧ back = between ++ events := by
    rw [grown] at log
    rcases List.append_eq_append_iff.mp log with ⟨before, -, same⟩ | ⟨between, same, rest⟩
    · exact .inl ⟨before, same⟩
    · cases between with
      | nil => exact .inl ⟨[], by simpa using rest.symm⟩
      | cons event between =>
        obtain ⟨rfl, rfl⟩ := List.cons.inj rest
        exact .inr ⟨between, same, rfl⟩
  rcases place with ⟨before, rfl⟩ | ⟨between, same, rfl⟩
  · rcases news with ⟨other, only⟩ | ⟨pid, status, -, only⟩ | ⟨none, -⟩
    · obtain ⟨-, rfl⟩ : before = [] ∧ back = [] := by
        cases before <;> simp_all
      cases waited
    · cases before <;> simp_all
    · simp [forks] at none
  · rw [waits_append, List.map_append, List.mem_append] at waited
    rcases waited with before | now
    · exact buried front child between same later before
    · rcases news with ⟨other, rfl⟩ | ⟨pid, status, rfl, rfl⟩ | ⟨-, none⟩
      · cases now
      · obtain rfl : child.pid = pid := by simpa [waits] using now
        have forked : (forks world.shell.log)[(forks front).length]? = some child := by
          simp [same, forks]
        exact serve_waitpid orderly reckoned forked served
      · simp [none] at now

theorem died_of_waited (reach : (system everything).Reach start final) (orderly : Orderly start.2)
    (reckoned : Reckoned start.2) : Buried start.2.shell.log.length final.2 := by
  let property : World → Prop := fun world =>
    Orderly world ∧ Reckoned world ∧ Buried start.2.shell.log.length world
  have initially : property start.2 := by
    refine ⟨orderly, reckoned, fun front child back log later => ?_⟩
    rw [log, List.length_append, List.length_cons] at later
    omega
  refine (system_invariant property ?_ ?_ reach initially).2.2
  · rintro before after asked reply ⟨orderly, reckoned, buried⟩ served
    exact ⟨serve_orderly orderly served, serve_reckoned reckoned served,
      serve_buried orderly reckoned buried served⟩
  · rintro before after ⟨orderly, reckoned, buried⟩ moved
    refine ⟨moves_orderly orderly moved, moves_reckoned reckoned moved, ?_⟩
    intro front child back log later waited
    rw [moves_shell moved] at log
    obtain ⟨termination, died⟩ := buried front child back log later waited
    exact ⟨termination, moves_died moved died⟩

theorem Reckoned.forked_of_died (reckoned : Reckoned world) {number : Nat}
    {termination : Termination} (died : (number, termination) ∈ world.died) :
    number < (forks world.shell.log).length := by
  have listed := reckoned.dead.subset (List.mem_map_of_mem (f := Prod.fst) died)
  have among : number ∈ world.children.map Process.serial ++ world.reaped.map Prod.fst := by
    rcases List.mem_append.mp listed with zombie | reaped
    · obtain ⟨child, member, same⟩ := List.mem_map.mp zombie
      exact List.mem_append_left _ (List.mem_map.mpr ⟨child, List.mem_of_mem_filter member, same⟩)
    · exact List.mem_append_right _ reaped
  exact List.mem_range.mp (reckoned.forked.subset among)

end Lsnp.Lab
