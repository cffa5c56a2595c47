import Lsnp.Lab.Course
import Lsnp.Unix.Effects

namespace Lsnp.Lab

open Lsnp.Interaction Lsnp.Unix

def ofBuiltin : Call → Prop
  | .printf _ | .perror _ | .uname | .getenv | .chdir _ | .getcwd => True
  | _ => False

/-- The calls of the part of `execute` that runs a command. -/
def ofStart (arglist : Nat) (argv : List Text) : Call → Prop
  | .fork slot words => slot = arglist ∧ words = argv
  | .fflush => True
  | asked => ofBuiltin asked

/-- The calls between the two `dup` of `execute` and its label `exit_execute`. -/
def ofRedirected (arglist : Nat) (argv : List Text) : Call → Prop
  | .dup2 _ standard => standard = 0 ∨ standard = 1
  | asked => ofStart arglist argv asked

/-- The calls of `execute`. -/
def ofExecute (arglist : Nat) (argv : List Text) : Call → Prop
  | .dup _ | .dup2 _ _ | .restore _ _ | .close _ => True
  | asked => ofStart arglist argv asked

def ofOpenAll : Call → Prop
  | .close _ | .openFile _ _ | .perror _ => True
  | _ => False

theorem BtFunc.run_uses (btFunc : BtFunc) (argv : List Text) :
    (btFunc.run argv).uses ofBuiltin := by
  cases btFunc with
  | hostname =>
    simp only [BtFunc.run, hostnameFunc, Program.uses_request_bind]
    refine ⟨trivial, fun nodename => ?_⟩
    cases nodename <;> simp [ofBuiltin]
  | cd =>
    simp only [BtFunc.run, cdFunc]
    split
    · simp [ofBuiltin]
    · simp only [Program.uses_request_bind]
      refine ⟨trivial, fun entered => ?_⟩
      cases entered <;> simp [ofBuiltin]
  | pwd => simp [BtFunc.run, pwdFunc, ofBuiltin]

theorem checkBuiltin_uses (cmd : Text) (args : List Text) :
    (checkBuiltin (cmd :: args)).uses ofBuiltin := by
  rw [checkBuiltin]
  split
  · exact Program.uses_bind (BtFunc.run_uses _ _) fun _ => Program.uses_pure _ _
  · exact Program.uses_pure _ _

theorem start_uses (arglist : Nat) (cmd : Text) (args : List Text) :
    (start arglist (cmd :: args)).uses (ofStart arglist (cmd :: args)) := by
  refine Program.uses_bind
    (Program.uses_mono (checkBuiltin_uses cmd args) fun asked builtin => ?_) fun found => ?_
  · cases asked <;> first | exact builtin | exact builtin.elim
  · cases found with
    | true => simp [ofStart]
    | false =>
      simp only [Bool.false_eq_true, if_false, Program.uses_request_bind]
      refine ⟨⟨rfl, rfl⟩, fun pid => ?_⟩
      cases pid <;> simp [ofStart, ofBuiltin]

theorem startSaved_uses (savedIn savedOut : Option Fd) (arglist : Nat) (cmd : Text)
    (args : List Text) (fdIn fdOut : Option Fd) :
    (startSaved savedIn savedOut arglist (cmd :: args) fdIn fdOut).uses
      (ofRedirected arglist (cmd :: args)) := by
  have redirect_uses : ∀ fd standard, standard = 0 ∨ standard = 1 →
      (redirect fd standard).uses (ofRedirected arglist (cmd :: args)) := by
    intro fd standard either
    cases fd <;> simp [redirect, ofRedirected, either]
  unfold startSaved
  split
  · refine Program.uses_bind (redirect_uses fdIn 0 (.inl rfl)) fun first => ?_
    cases first with
    | false => simp [ofRedirected, ofStart, ofBuiltin]
    | true =>
      refine Program.uses_bind (redirect_uses fdOut 1 (.inr rfl)) fun second => ?_
      cases second with
      | false => simp [ofRedirected, ofStart, ofBuiltin]
      | true =>
        refine Program.uses_mono (start_uses arglist cmd args) fun asked started => ?_
        cases asked <;> first | exact started | exact started.elim
  · simp [ofRedirected, ofStart, ofBuiltin]

theorem exitExecute_uses {allowed : Call → Prop} (savedIn savedOut fdIn fdOut : Option Fd)
    (restore : ∀ saved standard, allowed (.restore saved standard))
    (close : ∀ fd, allowed (.close fd)) :
    (exitExecute savedIn savedOut fdIn fdOut).uses allowed := by
  cases savedIn <;> cases savedOut <;> cases fdIn <;> cases fdOut <;>
    simp [exitExecute, putBack, closeIfOpen, restore, close]

/-- Besides those of the command `execute` makes only calls about descriptors. -/
theorem execute_uses_of {allowed : Call → Prop} {arglist : Nat} {cmd : Text} {args : List Text}
    (started : (start arglist (cmd :: args)).uses allowed) (fdIn fdOut : Option Fd)
    (fflush : allowed .fflush) (perror : ∀ label, allowed (.perror label))
    (dup : ∀ fd, allowed (.dup fd)) (dup2 : ∀ fd standard, allowed (.dup2 fd standard))
    (restore : ∀ saved standard, allowed (.restore saved standard))
    (close : ∀ fd, allowed (.close fd)) :
    (execute arglist (cmd :: args) fdIn fdOut).uses allowed := by
  have redirect_uses : ∀ fd standard, (redirect fd standard).uses allowed := by
    intro fd standard
    cases fd <;> simp [redirect, dup2]
  have complaint : ∀ label, (do Sys.perror label; pure none : Prog (Option Pid)).uses allowed :=
    fun label => ⟨perror label, fun _ => trivial⟩
  simp only [execute, Program.uses_request_bind]
  refine ⟨fflush, fun _ => ⟨dup 0, fun savedIn => ⟨dup 1, fun savedOut => ?_⟩⟩⟩
  apply Program.uses_bind
  · unfold startSaved
    split
    · refine Program.uses_bind (redirect_uses fdIn 0) fun first => ?_
      cases first with
      | false => exact complaint _
      | true =>
        refine Program.uses_bind (redirect_uses fdOut 1) fun second => ?_
        cases second with
        | false => exact complaint _
        | true => exact started
    · exact complaint _
  · intro pid
    exact Program.uses_bind (exitExecute_uses _ _ _ _ restore close) fun _ => trivial

theorem execute_uses (arglist : Nat) (argv : List Text) (fdIn fdOut : Option Fd) :
    (execute arglist argv fdIn fdOut).uses (ofExecute arglist argv) := by
  cases argv with
  | nil => exact Program.uses_pure _ _
  | cons cmd args =>
    apply execute_uses_of (Program.uses_mono (start_uses arglist cmd args) fun asked started => ?_)
      fdIn fdOut trivial (fun _ => trivial) (fun _ => trivial) (fun _ _ => trivial)
      (fun _ _ => trivial) fun _ => trivial
    cases asked <;> first | exact started | trivial

theorem execute_forks_external (arglist : Nat) (argv : List Text) (fdIn fdOut : Option Fd) :
    (execute arglist argv fdIn fdOut).uses fun asked => ofExecute arglist argv asked ∧
      (asked.isFork → argv ≠ [] ∧ isBuiltin argv = false) := by
  cases argv with
  | nil => exact Program.uses_pure _ _
  | cons cmd args =>
    refine execute_uses_of ?_ fdIn fdOut ⟨trivial, False.elim⟩ (fun _ => ⟨trivial, False.elim⟩)
      (fun _ => ⟨trivial, False.elim⟩) (fun _ _ => ⟨trivial, False.elim⟩)
      (fun _ _ => ⟨trivial, False.elim⟩) fun _ => ⟨trivial, False.elim⟩
    cases builtin : isBuiltin (cmd :: args) with
    | false =>
      refine Program.uses_mono (start_uses arglist cmd args) fun asked started => ?_
      cases asked <;> first | exact started.elim | exact ⟨started, fun _ => ⟨List.cons_ne_nil _ _, rfl⟩⟩
    | true =>
      obtain ⟨btFunc, found⟩ := Option.isSome_iff_exists.mp builtin
      simp only [start, checkBuiltin, found, bind_assoc, pure_bind, if_true]
      apply Program.uses_bind (Program.uses_mono (BtFunc.run_uses _ _) fun asked calls => ?_)
      · intro _
        exact ⟨⟨trivial, False.elim⟩, fun _ => trivial⟩
      · cases asked <;> first | exact calls.elim | exact ⟨calls, False.elim⟩

theorem openAll_uses (redirections : List (Direction × Text)) (fds : Fds) :
    (openAll redirections fds).uses ofOpenAll := by
  induction redirections generalizing fds with
  | nil => exact Program.uses_pure _ _
  | cons redirection rest ih =>
    obtain ⟨direction, target⟩ := redirection
    refine Program.uses_bind ?_ fun _ => ?_
    · cases fds.get direction <;> simp [closeIfOpen, ofOpenAll]
    · simp only [Program.uses_request_bind]
      refine ⟨trivial, fun fd => ?_⟩
      cases fd with
      | none => simp [ofOpenAll]
      | some fd => exact ih _

theorem waitEach_uses (pids : List Pid) : (waitEach pids).uses Call.isWaitpid := by
  induction pids with
  | nil => exact Program.uses_pure _ _
  | cons pid pids ih => exact ⟨trivial, fun _ => ih⟩

theorem waitForeground_uses (background : Bool) (pids : List Pid) :
    (waitForeground background pids).uses Call.isWaitpid := by
  cases background with
  | true => exact Program.uses_pure _ _
  | false => exact waitEach_uses pids

theorem waitLoop_uses (andPid : Option Pid) (pids : List Pid) (status lastStatus : Nat) :
    (waitLoop andPid pids status lastStatus).uses Call.isWaitpid := by
  induction pids generalizing status lastStatus with
  | nil => exact Program.uses_pure _ _
  | cons pid pids ih => exact ⟨trivial, fun _ => ih _ _⟩

theorem openPipe_uses {allowed : Call → Prop} (left right : Nat) (fdOut : Option Fd)
    (pipe : allowed (.pipe left right)) (close : ∀ fd, allowed (.close fd))
    (perror : ∀ label, allowed (.perror label)) : (openPipe left right fdOut).uses allowed := by
  refine ⟨pipe, fun ends => ?_⟩
  cases ends with
  | none => exact ⟨perror _, fun _ => trivial⟩
  | some ends =>
    cases fdOut with
    | none => trivial
    | some fd => exact ⟨close _, fun _ => trivial⟩

theorem errorExit_uses {allowed : Call → Prop} (background : Bool) (pids : List Pid) (fds : Fds)
    (close : ∀ fd, allowed (.close fd)) (waitpid : ∀ pid, allowed (.waitpid pid)) :
    (errorExit background pids fds).uses allowed := by
  have closing : ∀ fd, (closeIfOpen fd).uses allowed := by
    intro fd
    cases fd with
    | none => trivial
    | some fd => exact ⟨close fd, fun _ => trivial⟩
  refine Program.uses_bind (Program.uses_mono (waitForeground_uses background pids) ?_)
    fun _ => Program.uses_bind (closing _) fun _ => closing _
  intro asked waits
  cases asked <;> first | exact waits.elim | exact waitpid _

theorem openAll_faultless (redirections : List (Direction × Text)) (fds : Fds) :
    (openAll redirections fds).uses (· ≠ .fault) := by
  refine Program.uses_mono (openAll_uses redirections fds) fun asked opens => ?_
  rintro rfl
  exact opens

theorem openPipe_faultless (left right : Nat) (fdOut : Option Fd) :
    (openPipe left right fdOut).uses (· ≠ .fault) :=
  openPipe_uses left right fdOut nofun nofun nofun

theorem execute_faultless (arglist : Nat) (argv : List Text) (fdIn fdOut : Option Fd) :
    (execute arglist argv fdIn fdOut).uses (· ≠ .fault) := by
  refine Program.uses_mono (execute_uses arglist argv fdIn fdOut) fun asked executes => ?_
  rintro rfl
  exact executes

theorem waitAnd_faultless (pids : List Pid) (andPid : Option Pid) :
    (waitAnd pids andPid).uses (· ≠ .fault) := by
  refine ⟨nofun, fun status => ?_⟩
  refine Program.uses_mono (waitLoop_uses andPid pids status 0) fun asked waits => ?_
  rintro rfl
  exact waits

theorem errorExit_faultless (background : Bool) (pids : List Pid) (fds : Fds) :
    (errorExit background pids fds).uses (· ≠ .fault) :=
  errorExit_uses background pids fds nofun nofun

theorem runStages_uses {stages : List Stage} (full : ∀ stage ∈ stages, stage.ending ≠ .blank)
    (fds : Fds) (pids : List Pid) : (runStages stages fds pids).uses (· ≠ .fault) := by
  induction stages generalizing fds pids with
  | nil => exact errorExit_faultless _ _ _
  | cons stage rest ih =>
    have next := ih fun other member => full other (by simp [member])
    refine Program.uses_bind (openAll_faultless stage.redirections fds) fun result => ?_
    obtain ⟨opened, fds⟩ := result
    cases opened with
    | false => exact errorExit_faultless _ _ _
    | true =>
      simp only [if_true, runEnding]
      cases ending : stage.ending with
      | none =>
        exact Program.uses_bind (execute_faultless _ _ _ _) fun _ => errorExit_faultless _ _ _
      | pipe =>
        refine Program.uses_bind (openPipe_faultless _ _ _) fun ends => ?_
        cases ends with
        | none => exact errorExit_faultless _ _ _
        | some ends =>
          refine Program.uses_bind (execute_faultless _ _ _ _) fun pid => ?_
          cases pid with
          | none => exact ⟨Call.noConfusion, fun _ => errorExit_faultless _ _ _⟩
          | some pid => exact next _ _
      | and =>
        refine Program.uses_bind (execute_faultless _ _ _ _) fun andPid => ?_
        refine Program.uses_bind (waitAnd_faultless _ _) fun lastStatus => ?_
        split
        · exact errorExit_faultless _ _ _
        · exact next _ _
      | background =>
        refine Program.uses_bind (execute_faultless _ _ _ _) fun bgPid => ?_
        refine Program.uses_bind ?_ fun _ => errorExit_faultless _ _ _
        cases bgPid with
        | none => trivial
        | some pid => exact ⟨Call.noConfusion, fun _ => trivial⟩
      | missing direction => exact ⟨Call.noConfusion, fun _ => errorExit_faultless _ _ _⟩
      | blank => exact (full stage (by simp) ending).elim

theorem isExecutable_faultless {tokens : List Text} (full : ∀ token ∈ tokens, token ≠ []) :
    (isExecutable tokens).uses (· ≠ .fault) := by
  rw [isExecutable_eq]
  exact runStages_uses (stages_full full) _ _

theorem dispatch_faultless {tokens : List Text} (full : ∀ token ∈ tokens, token ≠ []) :
    (dispatch tokens).uses (· ≠ .fault) := by
  unfold dispatch
  split
  · trivial
  · rename_i some
    obtain ⟨cmd, args, rfl⟩ := List.exists_cons_of_ne_nil (by simpa using some : tokens ≠ [])
    apply Program.uses_bind (Program.uses_mono (checkBuiltin_uses cmd args) ?_)
    · rintro (_ | _)
      · exact isExecutable_faultless full
      · trivial
    · rintro asked builtin rfl
      exact builtin

theorem runLine_faultless {tokens : List Text} (full : ∀ token ∈ tokens, token ≠ []) :
    (runLine tokens).uses (· ≠ .fault) := by
  refine ⟨nofun, fun _ => ?_⟩
  apply Program.uses_bind (dispatch_faultless full)
  exact fun _ => Program.uses_request.mpr nofun

section

variable {State : Type} {service : Service Call Call.Reply State} {state : State}

/-- A property that all calls keep which are about no process. -/
def KeptIdle (service : Service Call Call.Reply State) (property : State → Prop) : Prop :=
  ∀ state asked (reply : asked.Reply) after, ¬ asked.isFork ∧ ¬ asked.isWaitpid →
    property state → service.serve state asked reply after → property after

theorem KeptIdle.returns {α : Type} {property : State → Prop} {program : Prog α}
    (kept : KeptIdle service property)
    (uses : program.uses fun asked => ¬ asked.isFork ∧ ¬ asked.isWaitpid)
    (initially : property state) : service.Returns (fun _ after => property after) program state :=
  (Service.ensures_of_uses uses kept initially).returns fun _ _ held => held

theorem KeptIdle.request {property : State → Prop} {asked : Call}
    (kept : KeptIdle service property) (other : ¬ asked.isFork ∧ ¬ asked.isWaitpid)
    (initially : property state) :
    service.Returns (fun _ after => property after) (Program.request asked : Prog asked.Reply) state :=
  kept.returns (Program.uses_request.mpr other) initially

variable {before : State → Prop} {forked : Pid → State → Prop}

/-- What holds after `execute`: `before` unless it returns a pid, and then `forked`. -/
def Started (before : State → Prop) (forked : Pid → State → Prop) (pid : Option Pid)
    (after : State) : Prop :=
  pid.elim (before after) (forked · after)

/-- `fork` in a state with `before` fails or leads to `forked`. -/
def Forking (service : Service Call Call.Reply State) (arglist : Nat) (argv : List Text)
    (before : State → Prop) (forked : Pid → State → Prop) : Prop :=
  ∀ state reply after, before state → service.serve state (.fork arglist argv) reply after →
    Started before forked reply after

private theorem complain (kept : KeptIdle service before) (label : Text) (initially : before state) :
    service.Returns (Started before forked) (do Sys.perror label; pure none) state :=
  (kept.request ⟨id, id⟩ initially).bind fun _ _ held => held

private theorem start_forks {arglist : Nat} {cmd : Text} {args : List Text}
    (kept : KeptIdle service before) (forking : Forking service arglist (cmd :: args) before forked)
    (initially : before state) :
    service.Returns (Started before forked) (start arglist (cmd :: args)) state := by
  refine (kept.returns (Program.uses_mono (checkBuiltin_uses cmd args) fun asked builtin => ?_)
    initially).bind fun found checked held => ?_
  · cases asked <;> first | exact builtin.elim | exact ⟨id, id⟩
  · cases found with
    | true => exact (kept.request ⟨id, id⟩ held).bind fun _ _ flushed => flushed
    | false =>
      refine ⟨trivial, fun pid after served => ?_⟩
      have started := forking _ _ _ held served
      cases pid with
      | none => exact complain kept _ started
      | some pid => exact started

private theorem startSaved_forks {arglist : Nat} {cmd : Text} {args : List Text}
    (kept : KeptIdle service before) (forking : Forking service arglist (cmd :: args) before forked)
    (savedIn savedOut fdIn fdOut : Option Fd) (initially : before state) :
    service.Returns (Started before forked)
      (startSaved savedIn savedOut arglist (cmd :: args) fdIn fdOut) state := by
  have redirected : ∀ {state : State} fd standard, before state →
      service.Returns (fun _ after => before after) (redirect fd standard) state := by
    intro state fd standard held
    cases fd with
    | none => exact held
    | some fd => exact kept.request ⟨id, id⟩ held
  unfold startSaved
  split
  · refine (redirected fdIn 0 initially).bind fun inDone first held => ?_
    split
    · refine (redirected fdOut 1 held).bind fun outDone second held => ?_
      split
      · exact start_forks kept forking held
      · exact complain kept _ held
    · exact complain kept _ held
  · exact complain kept _ initially

/-- `execute` forks at most one process, and returns its pid if it does. -/
theorem execute_forks {arglist : Nat} {argv : List Text} (keptBefore : KeptIdle service before)
    (keptForked : ∀ pid, KeptIdle service (forked pid))
    (forking : Forking service arglist argv before forked) (fdIn fdOut : Option Fd)
    (initially : before state) :
    service.Returns (Started before forked) (execute arglist argv fdIn fdOut) state := by
  cases argv with
  | nil => exact initially
  | cons cmd args =>
    refine (keptBefore.request ⟨id, id⟩ initially).bind fun _ first held => ?_
    refine (keptBefore.request ⟨id, id⟩ held).bind fun savedIn second held => ?_
    refine (keptBefore.request ⟨id, id⟩ held).bind fun savedOut third held => ?_
    refine (startSaved_forks keptBefore forking savedIn savedOut fdIn fdOut held).bind
      fun pid fourth started => ?_
    have exiting : (exitExecute savedIn savedOut fdIn fdOut).uses
        fun asked => ¬ asked.isFork ∧ ¬ asked.isWaitpid := by
      cases savedIn <;> cases savedOut <;> cases fdIn <;> cases fdOut <;>
        simp [exitExecute, putBack, closeIfOpen, Call.isFork, Call.isWaitpid]
    cases pid with
    | none => exact (keptBefore.returns exiting started).bind fun _ _ held => held
    | some pid => exact ((keptForked pid).returns exiting started).bind fun _ _ held => held

end

end Lsnp.Lab
