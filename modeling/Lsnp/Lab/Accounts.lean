import Lsnp.Lab.Course
import Lsnp.Lab.Session
import Lsnp.Lab.Waiting

namespace Lsnp.Lab

open Lsnp.Interaction Lsnp.Unix

/-- A property of the shell and the pids that it has still to wait for, which `fork` and `waitpid`
keep up and the calls that are about no process leave alone. -/
structure Account (theft : Bool) (account : List Pid → Shell → Prop) : Prop where
  idle : ∀ pids, KeptIdle (kernel theft) (account pids)
  fork : ∀ {pids shell} child, account pids shell →
    account (pids ++ [child.pid]) (shell.note (.forked child))
  waitpid : ∀ {pid pids shell} status, account (pid :: pids) shell →
    account pids (shell.note (.waited pid status))

/-- The pids may be forgotten where these stages forget them. -/
def Drops (account : List Pid → Shell → Prop) (stages : List Stage) : Prop :=
  (∀ stage ∈ stages, stage.ending ≠ .background) ∨ ∀ pids shell, account pids shell → account [] shell

variable {theft : Bool} {shell : Shell} {pids : List Pid} {account : List Pid → Shell → Prop}

theorem serve_unnoticed {asked : Call} {reply : asked.Reply} {after : Shell}
    (served : (kernel theft).serve shell asked reply after)
    (other : ¬ asked.isFork ∧ ¬ asked.isWaitpid) :
    ∃ events, after.log = shell.log ++ events ∧ forks events = [] ∧ waits events = [] := by
  obtain ⟨events, grown⟩ := serve_extends served
  obtain ⟨sameForks, sameWaits⟩ := serve_processes served other.1 other.2
  rw [grown, forks_append] at sameForks
  rw [grown, waits_append] at sameWaits
  exact ⟨events, grown, List.append_right_eq_self.mp sameForks, List.append_right_eq_self.mp sameWaits⟩

theorem waited_notMem {events : List Event} {pid : Pid} {status : Option Nat} (none : waits events = []) :
    .waited pid status ∉ events := by
  intro member
  have listed : (pid, status) ∈ waits events := List.mem_filterMap.mpr ⟨_, member, rfl⟩
  rw [none] at listed
  exact List.not_mem_nil listed

namespace Account

theorem execute (kept : Account theft account) (arglist : Nat) (argv : List Text)
    (fdIn fdOut : Option Fd) (held : account pids shell) :
    (kernel theft).Returns (fun pid after => account (pids ++ pid.toList) after)
      (Lab.execute arglist argv fdIn fdOut) shell := by
  have forking : Forking (kernel theft) arglist argv (account pids)
      fun pid => account (pids ++ [pid]) := by
    intro state reply after held served
    rcases served with ⟨rfl, rfl⟩ | ⟨pid, rfl, rfl⟩
    · exact held
    · exact kept.fork (state.child pid arglist argv) held
  refine (execute_forks (kept.idle pids) (fun _ => kept.idle _) forking fdIn fdOut held).returns
    fun pid after started => ?_
  cases pid with
  | none => exact (List.append_nil pids).symm ▸ started
  | some pid => exact started

theorem waitEach (kept : Account theft account) (held : account pids shell) :
    (kernel theft).Returns (fun _ after => account [] after) (Lab.waitEach pids) shell := by
  induction pids generalizing shell with
  | nil => exact held
  | cons pid pids ih =>
    refine ⟨trivial, fun reply after served => ?_⟩
    obtain ⟨rfl, -⟩ := served
    exact ih (kept.waitpid reply held)

theorem waitLoop (kept : Account theft account) (andPid : Option Pid) (status lastStatus : Nat)
    (held : account pids shell) :
    (kernel theft).Returns (fun _ after => account [] after)
      (Lab.waitLoop andPid pids status lastStatus) shell := by
  induction pids generalizing shell status lastStatus with
  | nil => exact held
  | cons pid pids ih =>
    refine ⟨trivial, fun reply after served => ?_⟩
    obtain ⟨rfl, -⟩ := served
    exact ih _ _ (kept.waitpid reply held)

theorem closeIfOpen (kept : Account theft account) (fd : Option Fd) (held : account pids shell) :
    (kernel theft).Returns (fun _ after => account pids after) (Lab.closeIfOpen fd) shell := by
  cases fd with
  | none => exact held
  | some fd => exact (kept.idle pids).request ⟨id, id⟩ held

theorem errorExit (kept : Account theft account) (fds : Fds) (held : account pids shell) :
    (kernel theft).Returns (fun _ after => account [] after) (Lab.errorExit false pids fds) shell :=
  (kept.waitEach held).bind fun _ _ held =>
    (kept.closeIfOpen fds.fdIn held).bind fun _ _ held => kept.closeIfOpen fds.fdOut held

theorem openAll (kept : Account theft account) (redirections : List (Direction × Text)) (fds : Fds)
    (held : account pids shell) :
    (kernel theft).Returns (fun _ after => account pids after) (Lab.openAll redirections fds) shell := by
  refine (kept.idle pids).returns
    (Program.uses_mono (openAll_uses redirections fds) fun asked opens => ?_) held
  cases asked <;> first | exact opens.elim | exact ⟨id, id⟩

theorem openPipe (kept : Account theft account) (left right : Nat) (fdOut : Option Fd)
    (held : account pids shell) :
    (kernel theft).Returns (fun _ after => account pids after) (Lab.openPipe left right fdOut) shell :=
  (kept.idle pids).returns (openPipe_uses _ _ _ ⟨id, id⟩ (fun _ => ⟨id, id⟩) fun _ => ⟨id, id⟩) held

/-- What is waited for goes off the account, and a background operator drops what is on it. -/
theorem runStages (kept : Account theft account) {stages : List Stage} (drops : Drops account stages)
    (fds : Fds) (held : account pids shell) :
    (kernel theft).Returns (fun _ after => account [] after) (Lab.runStages stages fds pids) shell := by
  induction stages generalizing shell fds pids with
  | nil => exact kept.errorExit fds held
  | cons stage rest ih =>
    have next : ∀ {shell : Shell} {pids : List Pid} fds, account pids shell →
        (kernel theft).Returns (fun _ after => account [] after) (Lab.runStages rest fds pids) shell :=
      fun fds => ih (drops.imp_left fun fore other member =>
        fore other (List.mem_cons_of_mem _ member)) fds
    refine (kept.openAll stage.redirections fds held).bind fun result opened held => ?_
    obtain ⟨succeeded, fds⟩ := result
    cases succeeded with
    | false => exact kept.errorExit fds held
    | true =>
      simp only [if_true, runEnding]
      cases ending : stage.ending with
      | none => exact (kept.execute _ _ _ _ held).bind fun _ _ held => kept.errorExit _ held
      | pipe =>
        refine (kept.openPipe _ _ _ held).bind fun ends piped held => ?_
        cases ends with
        | none => exact kept.errorExit fds held
        | some ends =>
          refine (kept.execute _ _ _ _ held).bind fun pid started held => ?_
          cases pid with
          | none =>
            rw [Option.toList_none, List.append_nil] at held
            exact ((kept.idle pids).request ⟨id, id⟩ held).bind fun _ _ held => kept.errorExit _ held
          | some pid => exact next _ held
      | and =>
        refine (kept.execute _ _ _ _ held).bind fun andPid started held => ?_
        refine ((kept.idle _).request ⟨id, id⟩ held).bind fun status read held => ?_
        refine (kept.waitLoop andPid status 0 held).bind fun lastStatus waited held => ?_
        split
        · exact kept.errorExit _ held
        · exact next _ held
      | background =>
        have drop := drops.resolve_left fun fore => fore stage (List.mem_cons_self ..) ending
        refine (kept.execute _ _ _ _ held).bind fun bgPid started held => ?_
        have announced : (announce bgPid).uses fun asked => ¬ asked.isFork ∧ ¬ asked.isWaitpid := by
          cases bgPid with
          | none => trivial
          | some pid => exact Program.uses_request.mpr ⟨id, id⟩
        refine ((kept.idle _).returns announced held).bind fun _ told held => ?_
        have forgotten := drop _ _ held
        exact (kept.closeIfOpen none forgotten).bind fun _ _ held => kept.closeIfOpen none held
      | missing direction =>
        exact ((kept.idle pids).request ⟨id, id⟩ held).bind fun _ _ held => kept.errorExit fds held
      | blank => exact ⟨trivial, fun reply => reply.elim⟩

theorem runLine (kept : Account theft account) {tokens : List Text}
    (drops : Drops account (stages tokens)) (held : account [] shell) :
    (kernel theft).Returns (fun _ after => account [] after) (Lab.runLine tokens) shell := by
  refine ((kept.idle []).request ⟨id, id⟩ held).bind fun _ read held => ?_
  have dispatched : (kernel theft).Returns (fun _ after => account [] after) (dispatch tokens) read := by
    cases tokens with
    | nil => exact held
    | cons cmd args =>
      have checking : (checkBuiltin (cmd :: args)).uses fun asked => ¬ asked.isFork ∧ ¬ asked.isWaitpid := by
        refine Program.uses_mono (checkBuiltin_uses cmd args) fun asked builtin => ?_
        cases asked <;> first | exact builtin.elim | exact ⟨id, id⟩
      refine ((kept.idle []).returns checking held).bind fun found checked held => ?_
      cases found with
      | true => exact held
      | false =>
        change (kernel theft).Returns _ (isExecutable (cmd :: args)) checked
        rw [isExecutable_eq]
        exact kept.runStages drops _ held
  exact dispatched.bind fun _ done held => (kept.idle []).request ⟨id, id⟩ held

theorem session (kept : Account theft account) {lines : List (List Text)}
    (drops : ∀ tokens ∈ lines, Drops account (stages tokens)) (held : account [] shell) :
    (kernel theft).Returns (fun _ after => account [] after) (Lab.session lines) shell := by
  induction lines generalizing shell with
  | nil => exact held
  | cons tokens lines ih =>
    exact (kept.runLine (drops tokens (List.mem_cons_self ..)) held).bind fun _ after held =>
      ih (fun other member => drops other (List.mem_cons_of_mem _ member)) held

end Account

end Lsnp.Lab
