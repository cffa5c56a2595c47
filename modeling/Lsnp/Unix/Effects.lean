import Lsnp.Unix.Kernel

namespace Lsnp.Unix

open Lsnp.Interaction

namespace Call

def touchesTable : Call → Prop
  | .dup _ | .dup2 _ _ | .restore _ _ | .close _ | .pipe _ _ | .openFile _ _ => True
  | _ => False

def logs : Call → Prop
  | .dup _ | .dup2 _ _ | .restore _ _ | .close _ | .pipe _ _ | .printf _ | .fgets | .getenv
  | .indeterminate => False
  | _ => True

def isFork : Call → Prop
  | .fork _ _ => True
  | _ => False

def isWaitpid : Call → Prop
  | .waitpid _ => True
  | _ => False

end Call

@[simp] theorem forks_append (log events : List Event) :
    forks (log ++ events) = forks log ++ forks events := by simp [forks]

def actions (log : List Event) : List Bool :=
  log.filterMap fun | .acted succeeded => some succeeded | _ => none

@[simp] theorem waits_append (log events : List Event) :
    waits (log ++ events) = waits log ++ waits events := by simp [waits]

namespace Shell

variable (shell : Shell)

@[simp] theorem forks_note_forked (child : Fork) :
    forks (shell.note (.forked child)).log = forks shell.log ++ [child] := by
  simp [note, forks]

@[simp] theorem waits_note_forked (child : Fork) :
    waits (shell.note (.forked child)).log = waits shell.log := by
  simp [note, waits]

@[simp] theorem forks_note_waited (pid : Pid) (status : Option Nat) :
    forks (shell.note (.waited pid status)).log = forks shell.log := by
  simp [note, forks]

@[simp] theorem waits_note_waited (pid : Pid) (status : Option Nat) :
    waits (shell.note (.waited pid status)).log = waits shell.log ++ [(pid, status)] := by
  simp [note, waits]

/-- The pids that `fork` returned, in order. -/
def forkedPids : List Pid := (forks shell.log).map Fork.pid

/-- The pids passed to `waitpid`, in order. -/
def waitedPids : List Pid := (waits shell.log).map Prod.fst

end Shell

variable {theft : Bool} {shell after : Shell} {asked : Call} {reply : asked.Reply}

/-- Calls other than `fork` and `waitpid` leave the processes of the shell alone. -/
theorem serve_processes (served : (kernel theft).serve shell asked reply after)
    (fork : ¬ asked.isFork) (waitpid : ¬ asked.isWaitpid) :
    forks after.log = forks shell.log ∧ waits after.log = waits shell.log := by
  cases asked <;> simp only [kernel, serve] at served
  case fork => exact (fork trivial).elim
  case waitpid => exact (waitpid trivial).elim
  case fault => exact reply.elim
  case dup | dup2 | restore | pipe | openFile =>
    rcases served with ⟨-, rfl⟩ | ⟨_, _, _, rfl⟩ <;>
      simp [Shell.install, Shell.addPipe, Shell.addFile, forks, waits]
  all_goals
    subst served
    simp [Shell.note, Shell.flush, Shell.print, Shell.drop, forks, waits]

theorem serve_table (served : (kernel theft).serve shell asked reply after)
    (untouched : ¬ asked.touchesTable) : after.table = shell.table := by
  cases asked <;> simp [Call.touchesTable] at untouched <;>
    simp only [kernel, serve] at served
  case fork => rcases served with ⟨-, rfl⟩ | ⟨_, -, rfl⟩ <;> rfl
  case waitpid => rcases served with ⟨rfl, -⟩; rfl
  case fault => exact reply.elim
  all_goals subst served; rfl

/-- Between two states these processes were forked and these waited for, in order. -/
structure Ran (before after : Shell) (forked waited : List Pid) : Prop where
  forked : after.forkedPids = before.forkedPids ++ forked
  waited : after.waitedPids = before.waitedPids ++ waited

theorem Ran.refl (shell : Shell) : Ran shell shell [] [] := ⟨by simp, by simp⟩

theorem Ran.trans {first second third : Shell} {forked forked' waited waited' : List Pid}
    (front : Ran first second forked waited) (back : Ran second third forked' waited') :
    Ran first third (forked ++ forked') (waited ++ waited') :=
  ⟨by rw [back.forked, front.forked, List.append_assoc],
    by rw [back.waited, front.waited, List.append_assoc]⟩

/-- The processes forked from one state to a later one, in order. -/
def forkedSince (entry now : Shell) : List Pid := now.forkedPids.drop entry.forkedPids.length

/-- The processes waited for from one state to a later one, in order. -/
def waitedSince (entry now : Shell) : List Pid := now.waitedPids.drop entry.waitedPids.length

theorem Ran.since {entry now : Shell} {forked waited : List Pid}
    (ran : Ran entry now forked waited) :
    forkedSince entry now = forked ∧ waitedSince entry now = waited := by
  simp [forkedSince, waitedSince, ran.forked, ran.waited]

theorem returns_idle {program : Prog α}
    (uses : program.uses fun asked => ¬ asked.isFork ∧ ¬ asked.isWaitpid) :
    (kernel theft).Returns (fun _ after => Ran shell after [] []) program shell := by
  have kept : ∀ state asked (reply : asked.Reply) after,
      (¬ asked.isFork ∧ ¬ asked.isWaitpid) → Ran shell state [] [] →
        (kernel theft).serve state asked reply after → Ran shell after [] [] := by
    intro state asked reply after other same served
    obtain ⟨sameForks, sameWaits⟩ := serve_processes served other.1 other.2
    exact same.trans ⟨by simp [Shell.forkedPids, sameForks],
      by simp [Shell.waitedPids, sameWaits]⟩
  exact (Service.ensures_of_uses uses kept (Ran.refl shell)).returns fun _ _ same => same

theorem waitpid_ran (pid : Pid) :
    (kernel theft).Returns (fun _ after => Ran shell after [] [pid]) (Sys.waitpid pid) shell := by
  refine ⟨trivial, fun reply after served => ?_⟩
  obtain ⟨rfl, -⟩ := served
  exact ⟨by simp [Shell.forkedPids], by simp [Shell.waitedPids]⟩

theorem fork_ran (arglist : Nat) (argv : List Text) :
    (kernel theft).Returns (fun pid after => Ran shell after pid.toList [])
      (Sys.fork arglist argv) shell := by
  refine ⟨trivial, fun reply after served => ?_⟩
  rcases served with ⟨rfl, rfl⟩ | ⟨pid, rfl, rfl⟩
  · exact Ran.refl _
  · exact ⟨by simp [Shell.forkedPids, Shell.child], by simp [Shell.waitedPids]⟩

theorem serve_extends (served : (kernel theft).serve shell asked reply after) :
    ∃ events, after.log = shell.log ++ events := by
  cases asked <;> simp only [kernel, serve] at served
  case fault => exact reply.elim
  case waitpid => rcases served with ⟨rfl, -⟩; exact ⟨_, rfl⟩
  case dup | dup2 | restore | pipe | openFile | fork =>
    rcases served with ⟨-, rfl⟩ | ⟨_, _, _, rfl⟩ <;>
      first | exact ⟨_, rfl⟩ | exact ⟨[], by simp [Shell.install, Shell.addPipe]⟩
  all_goals
    subst served
    first | exact ⟨_, rfl⟩ | exact ⟨[], by simp [Shell.print, Shell.drop]⟩

theorem returns_extends (program : Prog α) :
    (kernel theft).Returns (fun _ after => ∃ events, after.log = shell.log ++ events)
      program shell := by
  induction program generalizing shell with
  | done value => exact ⟨[], by simp⟩
  | ask asked next ih =>
    refine ⟨trivial, fun reply between served => (ih reply).returns fun _ after later => ?_⟩
    obtain ⟨events, first⟩ := serve_extends served
    obtain ⟨others, second⟩ := later
    exact ⟨events ++ others, by rw [second, first, List.append_assoc]⟩

theorem serve_pipes (served : (kernel theft).serve shell asked reply after) :
    ∃ made, after.pipes = shell.pipes ++ made := by
  cases asked <;> simp only [kernel, serve] at served
  case fault => exact reply.elim
  case waitpid => rcases served with ⟨rfl, -⟩; exact ⟨[], by simp [Shell.note]⟩
  case dup | dup2 | restore | pipe | openFile | fork =>
    rcases served with ⟨-, rfl⟩ | ⟨_, _, _, rfl⟩ <;>
      first | exact ⟨_, rfl⟩ | exact ⟨[], by simp [Shell.install, Shell.addFile, Shell.note]⟩
  all_goals
    subst served
    exact ⟨[], by simp [Shell.note, Shell.flush, Shell.print, Shell.drop]⟩

theorem returns_pipes (program : Prog α) :
    (kernel theft).Returns (fun _ after => ∃ made, after.pipes = shell.pipes ++ made)
      program shell := by
  induction program generalizing shell with
  | done value => exact ⟨[], by simp⟩
  | ask asked next ih =>
    refine ⟨trivial, fun reply between served => (ih reply).returns fun _ after later => ?_⟩
    obtain ⟨made, first⟩ := serve_pipes served
    obtain ⟨others, second⟩ := later
    exact ⟨made ++ others, by rw [second, first, List.append_assoc]⟩

theorem serve_made (served : (kernel theft).serve shell asked reply after) :
    (after.files = shell.files ∨ ∃ direction path, asked = .openFile direction path) ∧
      (after.pipes = shell.pipes ∨ ∃ left right, asked = .pipe left right) := by
  cases asked <;> simp only [kernel, serve] at served
  case fault => exact reply.elim
  case waitpid => rcases served with ⟨rfl, -⟩; exact ⟨.inl rfl, .inl rfl⟩
  case pipe | openFile =>
    rcases served with ⟨-, rfl⟩ | ⟨-, rfl⟩ <;>
      first | exact ⟨.inl rfl, .inr ⟨_, _, rfl⟩⟩ | exact ⟨.inr ⟨_, _, rfl⟩, .inl rfl⟩
  case dup | dup2 | restore | fork =>
    rcases served with ⟨-, rfl⟩ | ⟨_, _, _, rfl⟩ <;> exact ⟨.inl rfl, .inl rfl⟩
  all_goals
    subst served
    exact ⟨.inl rfl, .inl rfl⟩

theorem returns_files {program : Prog α}
    (uses : program.uses fun asked => ∀ direction path, asked ≠ .openFile direction path) :
    (kernel theft).Returns (fun _ after => after.files = shell.files) program shell := by
  have kept : ∀ state asked (reply : asked.Reply) after, (∀ direction path, asked ≠ .openFile direction path) →
      state.files = shell.files → (kernel theft).serve state asked reply after →
        after.files = shell.files := by
    intro state asked reply after other same served
    have made := (serve_made served).1.resolve_right fun ⟨_, _, here⟩ => other _ _ here
    exact made.trans same
  exact (Service.ensures_of_uses uses kept rfl).returns fun _ _ same => same

theorem returns_pipes_kept {program : Prog α}
    (uses : program.uses fun asked => ∀ left right, asked ≠ .pipe left right) :
    (kernel theft).Returns (fun _ after => after.pipes = shell.pipes) program shell := by
  have kept : ∀ state asked (reply : asked.Reply) after, (∀ left right, asked ≠ .pipe left right) →
      state.pipes = shell.pipes → (kernel theft).serve state asked reply after →
        after.pipes = shell.pipes := by
    intro state asked reply after other same served
    have made := (serve_made served).2.resolve_right fun ⟨_, _, here⟩ => other _ _ here
    exact made.trans same
  exact (Service.ensures_of_uses uses kept rfl).returns fun _ _ same => same

theorem serve_log (served : (kernel theft).serve shell asked reply after) (silent : ¬ asked.logs) :
    after.log = shell.log := by
  cases asked <;> simp [Call.logs] at silent <;> simp only [kernel, serve] at served
  case dup | dup2 | restore | pipe =>
    rcases served with ⟨-, rfl⟩ | ⟨_, _, _, rfl⟩ <;> rfl
  all_goals subst served; rfl

theorem returns_log {program : Prog α} (uses : program.uses fun asked => ¬ asked.logs) :
    (kernel theft).Returns (fun _ after => after.log = shell.log) program shell :=
  (Service.ensures_of_uses uses
    (fun _ _ _ _ silent same served => (serve_log served silent).trans same) rfl).returns fun _ _ same => same

theorem returns_table {program : Prog α} (uses : program.uses fun asked => ¬ asked.touchesTable) :
    (kernel theft).Returns (fun _ after => after.table = shell.table) program shell :=
  (Service.ensures_of_uses uses
    (fun _ _ _ _ untouched same served => (serve_table served untouched).trans same) rfl).returns
    fun _ _ same => same

end Lsnp.Unix
