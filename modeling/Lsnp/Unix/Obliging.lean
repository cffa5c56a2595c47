import Lsnp.Unix.Kernel

namespace Lsnp.Unix

open Lsnp.Interaction

/-- How an obliging kernel decides what is left open: the pid of the `n`-th process,
how a process ended by the time it is waited for, and which calls it refuses. -/
structure Policy where
  name : Nat → Pid
  ended : Shell → Pid → Option Termination
  refuses : Shell → Call → Bool

def Policy.answer (policy : Policy) (shell : Shell) :
    (asked : Call) → Option (asked.Reply × Shell)
  | .fgets => some ((), { shell with line := shell.line + 1 })
  | .fflush => some ((), shell.flush)
  | .printf text => some ((), shell.print text)
  | .fprintf text => some ((), shell.note (.complained text))
  | .perror label => some ((), shell.note (.complained label))
  | .dup fd =>
    match shell.table.file fd with
    | none => some (none, shell)
    | some file => some (some shell.table.lowest, shell.install shell.table.lowest file)
  | .dup2 fd standard =>
    match shell.table.file fd with
    | none => some (false, shell)
    | some file => some (true, shell.install standard file)
  | .restore saved standard =>
    match shell.table.file saved with
    | none => some ((), shell)
    | some file => some ((), shell.install standard file)
  | .close fd => some ((), shell.drop fd)
  | .pipe left right =>
    if policy.refuses shell (.pipe left right) then some (none, shell)
    else some (some shell.pipeEnds, shell.addPipe left right)
  | .openFile direction path =>
    if policy.refuses shell (.openFile direction path) then some (none, shell)
    else some (some shell.table.lowest, shell.addFile direction path)
  | .fork arglist argv =>
    let pid := policy.name (forks shell.log).length
    some (some pid, shell.note (.forked (shell.child pid arglist argv)))
  | .waitpid pid =>
    let status := (policy.ended shell pid).map Termination.encode
    some (status, shell.note (.waited pid status))
  | .uname => some (some [], shell.note (.acted true))
  | .getenv => some (none, shell)
  | .chdir _ => some (true, shell.note (.acted true))
  | .getcwd => some ((true, []), shell.note (.acted true))
  | .indeterminate => some (0, shell)
  | .fault => none

theorem Policy.total (policy : Policy) (shell : Shell) (asked : Call) (possible : asked ≠ .fault) :
    ∃ reply after, policy.answer shell asked = some (reply, after) := by
  cases asked <;> simp only [Policy.answer]
  case dup | dup2 | restore => split <;> exact ⟨_, _, rfl⟩
  case pipe | openFile => split <;> exact ⟨_, _, rfl⟩
  case fault => exact (possible rfl).elim
  all_goals exact ⟨_, _, rfl⟩

theorem Policy.permits_of {theft : Bool} (policy : Policy)
    (ends : theft = true ∨ ∀ shell pid, policy.ended shell pid ≠ none) :
    (kernel theft).Permits policy.answer := by
  intro shell asked reply after replied
  cases asked <;> simp only [Policy.answer, kernel, serve] at replied ⊢
  case dup fd =>
    split at replied <;> simp_all
  case dup2 fd standard =>
    split at replied <;> simp_all
  case restore saved standard =>
    split at replied <;> simp_all
  case pipe left right =>
    split at replied <;> simp_all
  case openFile direction path =>
    split at replied <;> simp_all
  case fork arglist argv =>
    obtain ⟨rfl, rfl⟩ := Prod.mk.inj (Option.some.inj replied)
    exact .inr ⟨_, rfl, rfl⟩
  case waitpid pid =>
    obtain ⟨rfl, rfl⟩ := Prod.mk.inj (Option.some.inj replied)
    refine ⟨rfl, ?_⟩
    cases ended : policy.ended shell pid with
    | none => exact .inl ⟨ends.resolve_right fun always => always shell pid ended, rfl⟩
    | some termination => exact .inr ⟨termination, rfl⟩
  case uname =>
    obtain ⟨rfl, rfl⟩ := Prod.mk.inj (Option.some.inj replied)
    rfl
  case getcwd =>
    obtain ⟨rfl, rfl⟩ := Prod.mk.inj (Option.some.inj replied)
    rfl
  all_goals simp_all

theorem Policy.permits (policy : Policy) : (kernel true).Permits policy.answer :=
  policy.permits_of (.inl rfl)

def obliging : Policy := ⟨fun count => count + 1, fun _ _ => some (.exited 0), fun _ _ => false⟩

end Lsnp.Unix
