import Lsnp.Lab.Conservation

namespace Lsnp.Lab

open Lsnp.Interaction Lsnp.Unix

/-- None of these files is an end of a pipe from number `first` on. -/
def NoPipe (first : Nat) (files : Fd → Option File) : Prop :=
  ∀ fd pipe, first ≤ pipe → files fd ≠ some (.pipeRead pipe) ∧ files fd ≠ some (.pipeWrite pipe)

/-- Every pipe end that the shell has open belongs to a pipe it has made. -/
def Sound (shell : Shell) : Prop := NoPipe shell.pipes.length shell.table.file

/-- What holds whenever the shell starts on a line. -/
structure Ready (shell : Shell) : Prop where
  standardIn : shell.table.file 0 ≠ none
  standardOut : shell.table.file 1 ≠ none
  sound : Sound shell

def Called (entry : Shell) : Prop :=
  ∃ lines, (kernel true).Reach (do session lines; Sys.fgets, Shell.initial) (.done (), entry)

variable {theft : Bool} {shell after : Shell}

theorem NoPipe.update {first : Nat} {files : Fd → Option File} (free : NoPipe first files) (fd : Fd)
    {file : Option File} (plain : ∀ pipe, first ≤ pipe → file ≠ some (.pipeRead pipe) ∧
      file ≠ some (.pipeWrite pipe)) : NoPipe first (Function.update files fd file) := by
  intro other pipe later
  rw [Function.update_apply]
  split
  · exact plain pipe later
  · exact free other pipe later

theorem NoPipe.later {first second : Nat} {files : Fd → Option File} (free : NoPipe first files)
    (later : first ≤ second) : NoPipe second files :=
  fun fd pipe beyond => free fd pipe (Nat.le_trans later beyond)

theorem serve_sound {asked : Call} {reply : asked.Reply} (sound : Sound shell)
    (served : (kernel theft).serve shell asked reply after) : Sound after := by
  have copied : ∀ {fd standard : Fd} {file : File}, shell.table.file fd = some file →
      Sound (shell.install standard file) := by
    intro fd standard file found
    unfold Sound Shell.install
    rw [FdTable.file_set]
    exact sound.update _ fun pipe later => found ▸ sound fd pipe later
  cases asked <;> simp only [kernel, serve] at served
  case dup | dup2 =>
    rcases served with ⟨-, rfl⟩ | ⟨file, found, -, rfl⟩
    · exact sound
    · exact copied found
  case restore =>
    rcases served with ⟨-, rfl⟩ | ⟨file, found, rfl⟩
    · exact sound
    · exact copied found
  case close =>
    subst served
    unfold Sound Shell.drop
    rw [FdTable.file_close]
    exact sound.update _ fun _ _ => ⟨by simp, by simp⟩
  case pipe left right =>
    rcases served with ⟨-, rfl⟩ | ⟨-, rfl⟩
    · exact sound
    · unfold Sound Shell.addPipe
      simp only [FdTable.file_set, List.length_append, List.length_singleton]
      refine ((sound.later (Nat.le_succ _)).update _ fun pipe later => ?_).update _
        fun pipe later => ?_ <;> simp <;> omega
  case openFile =>
    rcases served with ⟨-, rfl⟩ | ⟨-, rfl⟩
    · exact sound
    · unfold Sound Shell.addFile
      rw [FdTable.file_set]
      exact sound.update _ fun _ _ => ⟨by simp, by simp⟩
  case fork =>
    rcases served with ⟨-, rfl⟩ | ⟨_, -, rfl⟩ <;> exact sound
  case waitpid =>
    rcases served with ⟨rfl, -⟩
    exact sound
  case fault => exact reply.elim
  all_goals subst served; exact sound

theorem returns_sound {α : Type} (program : Prog α) (sound : Sound shell) :
    (kernel theft).Returns (fun _ after => Sound after) program shell := by
  induction program generalizing shell with
  | done value => exact sound
  | ask asked next ih =>
    exact ⟨trivial, fun reply changed served => ih reply (serve_sound sound served)⟩

theorem returns_ready {α : Type} {program : Prog α} (ready : Ready shell)
    (uses : program.uses fun asked => ¬ asked.touchesTable) :
    (kernel theft).Returns (fun _ after => Ready after) program shell :=
  ((returns_table uses).and (returns_sound program ready.sound)).returns
    fun _ _ ⟨same, sound⟩ =>
      ⟨by rw [same]; exact ready.standardIn, by rw [same]; exact ready.standardOut, sound⟩

theorem isExecutable_ready (tokens : List Text) (ready : Ready shell) :
    (kernel theft).Returns (fun _ after => Ready after) (isExecutable tokens) shell := by
  have carries := carries_none ready.standardIn ready.standardOut
  rw [isExecutable_eq]
  refine ((runStages_leaves carries rfl).and (returns_sound _ ready.sound)).returns
    fun _ after ⟨⟨wider, _, _, held⟩, sound⟩ => ⟨?_, ?_, sound⟩
  · rw [held.files]
    exact held.standardIn
  · rw [held.files]
    exact held.standardOut

theorem dispatch_ready (tokens : List Text) (ready : Ready shell) :
    (kernel theft).Returns (fun _ after => Ready after) (dispatch tokens) shell := by
  cases tokens with
  | nil => exact ready
  | cons cmd args =>
    have checking : (checkBuiltin (cmd :: args)).uses fun asked => ¬ asked.touchesTable := by
      refine Program.uses_mono (checkBuiltin_uses cmd args) fun asked builtin touched => ?_
      cases asked <;> first | exact touched | exact builtin
    refine (returns_ready ready checking).bind fun found checked ready => ?_
    cases found with
    | true => exact ready
    | false => exact isExecutable_ready _ ready

theorem session_ready (lines : List (List Text)) (ready : Ready shell) :
    (kernel theft).Returns (fun _ after => Ready after) (session lines) shell := by
  induction lines generalizing shell with
  | nil => exact ready
  | cons tokens lines ih =>
    have line : (kernel theft).Returns (fun _ after => Ready after) (runLine tokens) shell := by
      refine (returns_ready ready (Program.uses_request.mpr id)).bind fun _ read ready => ?_
      refine (dispatch_ready tokens ready).bind fun _ done ready => ?_
      exact returns_ready ready (Program.uses_request.mpr id)
    exact line.bind fun _ _ ready => ih ready

theorem initial_ready : Ready .initial :=
  ⟨by decide, by decide, fun fd pipe _ => by
    match fd with
    | 0 | 1 | 2 => exact ⟨nofun, nofun⟩
    | fd + 3 => exact ⟨nofun, nofun⟩⟩

theorem Called.ready {entry : Shell} (called : Called entry) : Ready entry := by
  obtain ⟨lines, reach⟩ := called
  have runs : (kernel true).Returns (fun _ after => Ready after)
      (do session lines; Sys.fgets) Shell.initial :=
    (session_ready lines initial_ready).bind fun _ _ ready =>
      returns_ready ready (Program.uses_request.mpr id)
  exact runs.reach (kernel_quiet true) reach

end Lsnp.Lab
