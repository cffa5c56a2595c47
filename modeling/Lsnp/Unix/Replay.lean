import Lsnp.Unix.Effects
import Lsnp.Unix.Obliging
import Mathlib.Logic.Function.Basic

namespace Lsnp.Unix

open Lsnp.Interaction

/-- The call succeeds if it can: a `dup` or `dup2` fails only if its descriptor is not open. -/
def Call.Obliged (shell : Shell) : (asked : Call) → asked.Reply → Prop
  | .dup fd, reply => reply = none → shell.table.file fd = none
  | .dup2 fd _, reply => reply = false → shell.table.file fd = none
  | .pipe _ _, reply => reply ≠ none
  | .openFile _ _, reply => reply ≠ none
  | .fork _ _, reply => reply ≠ none
  | .uname, reply => reply ≠ none
  | .chdir _, reply => reply = true
  | .getcwd, reply => reply.1 = true
  | _, _ => True

/-- The shell's process on its own where every call succeeds that can; a process that is
waited for may already be reaped. -/
def willing : Service Call Call.Reply Shell :=
  ⟨fun shell asked reply after => serve true shell asked reply after ∧ asked.Obliged shell reply,
    fun _ _ => False⟩

theorem willing_quiet : willing.Quiet := fun _ _ moved => moved

/-- The calls of which the log tells the reply, or that have only one. -/
def Call.isRecorded : Call → Prop
  | .uname | .getenv | .chdir _ | .getcwd | .indeterminate => False
  | _ => True

noncomputable def Policy.replay (log : List Event) : Policy where
  name count := ((forks log)[count]?.map Fork.pid).getD 0
  ended shell _ :=
    match log[shell.log.length]? with
    | some (.waited _ status) => status.bind (Function.partialInv Termination.encode)
    | _ => none
  refuses _ _ := false

variable {shell after : Shell} {log : List Event} {asked : Call} {reply : asked.Reply}

theorem decode_encode (termination : Termination) :
    Function.partialInv Termination.encode termination.encode = some termination :=
  Function.partialInv_left Termination.encode_injective termination

theorem answer_replay (served : willing.serve shell asked reply after)
    (recorded : asked.isRecorded) (longer : ∃ events, log = after.log ++ events) :
    (Policy.replay log).answer shell asked = some (reply, after) := by
  obtain ⟨served, obliged⟩ := served
  cases asked <;> simp only [serve] at served <;> simp only [Policy.answer]
  case dup fd =>
    rcases served with ⟨rfl, rfl⟩ | ⟨file, found, rfl, rfl⟩
    · rw [obliged rfl]
    · rw [found]
  case dup2 fd standard =>
    rcases served with ⟨rfl, rfl⟩ | ⟨file, found, rfl, rfl⟩
    · rw [obliged rfl]
    · rw [found]
  case restore saved standard =>
    rcases served with ⟨missing, rfl⟩ | ⟨file, found, rfl⟩
    · rw [missing]
    · rw [found]
  case pipe left right =>
    obtain ⟨rfl, rfl⟩ := served.resolve_left fun failed => obliged failed.1
    rfl
  case openFile direction path =>
    obtain ⟨rfl, rfl⟩ := served.resolve_left fun failed => obliged failed.1
    rfl
  case fork arglist argv =>
    obtain ⟨pid, rfl, rfl⟩ := served.resolve_left fun failed => obliged failed.1
    obtain ⟨events, rfl⟩ := longer
    have named : (Policy.replay ((shell.note (.forked (shell.child pid arglist argv))).log ++
        events)).name (forks shell.log).length = pid := by
      simp [Policy.replay, Shell.child]
    rw [named]
  case waitpid pid =>
    obtain ⟨rfl, ends⟩ := served
    obtain ⟨events, rfl⟩ := longer
    have status : ((Policy.replay ((shell.note (.waited pid reply)).log ++ events)).ended
        shell pid).map Termination.encode = reply := by
      rcases ends with ⟨-, rfl⟩ | ⟨termination, rfl⟩
      · simp [Policy.replay, Shell.note]
      · simp [Policy.replay, Shell.note, decode_encode]
    rw [status]
  case uname | getenv | chdir | getcwd | indeterminate => exact recorded.elim
  case fault => exact reply.elim
  all_goals rw [served]

/-- A run in which calls fail only where they have to is computed by the policy that replays
its log. -/
theorem reach_replay {α : Type} {program : Prog α} {value : α}
    (uses : program.uses Call.isRecorded)
    (reach : willing.Reach (program, shell) (.done value, after)) :
    (Service.computed (Policy.replay after.log).answer).Reach (program, shell)
        (.done value, after) ∧
      ∃ events, after.log = shell.log ++ events := by
  induction program generalizing shell with
  | done result =>
    obtain ⟨same, rfl⟩ := Prod.mk.inj (reach.of_done_quiet willing_quiet)
    rw [same]
    exact ⟨.refl _, [], (List.append_nil _).symm⟩
  | ask asked next ih =>
    obtain ⟨reply, between, served, rest⟩ := reach.of_ask_quiet willing_quiet
    obtain ⟨run, events, later⟩ := ih reply (uses.2 reply) rest
    have accepted : (kernel true).serve shell asked reply between := served.1
    obtain ⟨others, first⟩ := serve_extends accepted
    refine ⟨.reply (answer_replay served uses.1 ⟨events, later⟩) run, others ++ events, ?_⟩
    rw [later, first, List.append_assoc]

end Lsnp.Unix
