import Lsnp.Lab.Conservation

namespace Lsnp.Lab

open Lsnp.Interaction Lsnp.Unix

def complains : Call → Prop
  | .perror _ | .fprintf _ => True
  | _ => False

/-- The event is no error message and no call that has failed. A failing `pipe`, `open`,
`dup`, `dup2` or `fork` leaves no event of its own: an error message follows it. -/
def Succeeded : Event → Prop
  | .complained _ => False
  | .acted succeeded => succeeded = true
  | .waited _ status => status ≠ none
  | _ => True

/-- The event is not the end of a process that has failed. -/
def Harmless : Event → Prop
  | .waited _ (some status) => andFailed status = false
  | _ => True

def misses : List Stage → Bool
  | [] => false
  | stage :: rest =>
    match stage.ending with
    | .missing _ => true
    | _ => stage.passes && misses rest

/-- In every run in which the calls are granted no error is printed. -/
def Smooth {α : Type} (policy : Policy) (after : α → Shell → Prop) (program : Prog α)
    (shell : Shell) : Prop :=
  (Service.computed policy.answer).Ensures (fun asked _ => ¬ complains asked) after program shell

variable {policy : Policy} {shell : Shell} {base : Fd → Option File} {carried : Carried}

private theorem smooth_request {asked : Call} (silent : ¬ complains asked) :
    Smooth policy (fun _ _ => True) (.request asked) shell :=
  ⟨silent, fun _ _ _ => trivial⟩

theorem BtFunc.run_smooth (btFunc : BtFunc) (argv : List Text) :
    Smooth policy (fun _ _ => True) (btFunc.run argv) shell := by
  cases btFunc with
  | hostname =>
    refine ⟨id, fun nodename acted served => ?_⟩
    obtain ⟨rfl, rfl⟩ := Prod.mk.inj (Option.some.inj served)
    exact smooth_request id
  | cd =>
    simp only [BtFunc.run, cdFunc]
    split
    · exact ⟨id, fun _ _ _ => ⟨id, fun _ _ _ => trivial⟩⟩
    · refine ⟨id, fun entered acted served => ?_⟩
      obtain ⟨rfl, rfl⟩ := Prod.mk.inj (Option.some.inj served)
      exact smooth_request id
  | pwd => exact ⟨id, fun _ _ _ => smooth_request id⟩

theorem start_smooth (arglist : Nat) (cmd : Text) (args : List Text) :
    Smooth policy (fun _ _ => True) (start arglist (cmd :: args)) shell := by
  cases found : findBuiltin cmd with
  | some btFunc =>
    simp only [start, checkBuiltin, found, bind_assoc, pure_bind, if_true]
    refine (BtFunc.run_smooth btFunc _).bind fun _ _ _ => ?_
    exact ⟨id, fun _ _ _ => trivial⟩
  | none =>
    simp only [start, checkBuiltin, found, pure_bind, Bool.false_eq_true, if_false]
    refine ⟨id, fun pid forked served => ?_⟩
    obtain ⟨rfl, rfl⟩ := Prod.mk.inj (Option.some.inj served)
    trivial

private theorem redirect_smooth {held : Option (Fd × File)} (standard : Fd)
    (found : ∀ fd file, held = some (fd, file) → shell.table.file fd = some file) :
    Smooth policy (fun redirected after => redirected = true ∧
        after = (held.map Prod.snd).elim shell (shell.install standard))
      (redirect (held.map Prod.fst) standard) shell := by
  apply (redirect_granted standard found).using
  cases held with
  | none => trivial
  | some held => exact ⟨id, fun _ => trivial⟩

private theorem dup_smooth {standard : Fd} {file : File}
    (found : shell.table.file standard = some file) :
    Smooth policy (fun saved after => saved = some shell.table.lowest ∧
        after = shell.install shell.table.lowest file) (Sys.dup standard) shell :=
  (dup_granted found).using ⟨id, fun _ => trivial⟩

private theorem redirectAndStart_smooth (arglist : Nat) (cmd : Text) (args : List Text)
    (found : ∀ direction held, carried.get direction = some held →
      held.1 ≠ 0 ∧ shell.table.file held.1 = some held.2) :
    Smooth policy (fun _ _ => True)
      (redirectAndStart arglist (cmd :: args) carried.fds.fdIn carried.fds.fdOut) shell := by
  have inFound : ∀ fd file, carried.input = some (fd, file) → shell.table.file fd = some file :=
    fun fd file held => (found .input (fd, file) held).2
  refine (redirect_smooth 0 inFound).bind fun _ first ⟨inRedirected, inPlace⟩ => ?_
  subst inRedirected
  refine (redirect_smooth 1 (found_redirected found inPlace)).bind
    fun _ second ⟨outRedirected, _⟩ => ?_
  subst outRedirected
  exact start_smooth arglist cmd args

private theorem execute_unerring (arglist : Nat) (argv : List Text)
    (carries : Carries base carried shell.table) :
    Smooth policy (fun _ _ => True)
      (execute arglist argv carried.fds.fdIn carried.fds.fdOut) shell := by
  cases argv with
  | nil => trivial
  | cons cmd args =>
    obtain ⟨input, inFound⟩ := Option.ne_none_iff_exists'.mp carries.standardIn
    obtain ⟨output, outFound⟩ := Option.ne_none_iff_exists'.mp carries.standardOut
    have inHere : shell.flush.table.file 0 = some input :=
      (carries.file_of_base carries.standardIn).trans inFound
    have outHere : shell.table.file 1 = some output :=
      (carries.file_of_base carries.standardOut).trans outFound
    have flushed : Smooth policy (fun _ after => after = shell.flush) Sys.fflush shell :=
      fflush_granted.using ⟨id, fun _ => trivial⟩
    simp only [execute]
    refine flushed.bind fun _ _ same => ?_
    subst same
    refine (dup_smooth inHere).bind fun savedIn first known => ?_
    obtain ⟨inSaved, inDup⟩ := known
    obtain ⟨outThere, -⟩ := kept_saved outHere inDup rfl
    refine (dup_smooth outThere).bind fun savedOut second known => ?_
    obtain ⟨outSaved, outDup⟩ := known
    subst inSaved outSaved
    obtain ⟨-, kept⟩ := kept_saved outHere inDup outDup
    simp only [startSaved, Option.isSome_some, Bool.and_self, if_true]
    refine (redirectAndStart_smooth arglist cmd args (carries.found kept)).bind
      fun pid third _ => ?_
    have closed : Smooth policy (fun _ _ => True)
        (exitExecute (some shell.flush.table.lowest) (some first.table.lowest)
          carried.fds.fdIn carried.fds.fdOut) third :=
      (Service.returns_true _ _).using (exitExecute_uses _ _ _ _ (fun _ _ => id) fun _ => id)
    exact closed.bind fun _ _ _ => trivial

theorem execute_smooth {arglist : Nat} {argv : List Text} {after : Option Pid → Shell → Prop}
    (carries : Carries base carried shell.table)
    (returns : (kernel true).Returns after
      (execute arglist argv carried.fds.fdIn carried.fds.fdOut) shell) :
    Smooth policy after (execute arglist argv carried.fds.fdIn carried.fds.fdOut) shell :=
  (Service.Ensures.also (execute_unerring arglist argv carries)
    (returns.permitted policy.permits)).mono (fun _ _ silent => silent) fun _ _ held => held.2

private theorem openAll_smooth (granting : Granting policy) {redirections : List (Direction × Text)}
    (carries : Carries base carried shell.table) :
    Smooth policy
      (fun result after => result.1 = true ∧ ∃ final : Carried, result.2 = final.fds ∧
        Carries base final after.table)
      (openAll redirections carried.fds) shell := by
  have silent : Smooth policy (fun _ _ => True) (openAll redirections carried.fds) shell := by
    generalize carried.fds = fds
    clear carries
    induction redirections generalizing fds shell with
    | nil => trivial
    | cons redirection rest ih =>
      obtain ⟨direction, target⟩ := redirection
      have closed : Smooth policy (fun _ _ => True) (closeIfOpen (fds.get direction)) shell := by
        cases fds.get direction with
        | none => trivial
        | some fd => exact smooth_request id
      refine closed.bind fun _ between _ => ⟨id, fun reply opened served => ?_⟩
      simp only [Service.computed, Policy.answer, granting between (.openFile direction target),
        Bool.false_eq_true, if_false] at served
      obtain ⟨rfl, rfl⟩ := Prod.mk.inj (Option.some.inj served)
      exact ih _
  have held := ((openAll_granted granting redirections carried.fds).and
    ((openAll_carries carries).permitted policy.permits))
  refine (silent.also held).mono (fun _ _ silent => silent) ?_
  rintro result after ⟨-, ⟨opened, -⟩, final, same, carries, -⟩
  exact ⟨opened, final, same, carries⟩

private theorem errorExit_smooth (background : Bool) (pids : List Pid) (fds : Fds) :
    Smooth policy (fun _ _ => True) (errorExit background pids fds) shell := by
  refine (Service.returns_true _ _).using (errorExit_uses background pids fds ?_ ?_)
  · exact fun _ => id
  · exact fun _ => id

/-- No error is printed on a line that lacks no target, whatever the commands do. -/
theorem runStages_smooth (granting : Granting policy) {stages : List Stage} {pids : List Pid}
    (targeted : misses stages = false) (full : ∀ stage ∈ stages, stage.ending ≠ .blank)
    (carries : Carries base carried shell.table) :
    Smooth policy (fun _ _ => True) (runStages stages carried.fds pids) shell := by
  induction stages generalizing base carried shell pids with
  | nil => exact errorExit_smooth _ _ _
  | cons stage rest ih =>
    refine (openAll_smooth granting carries).bind fun result middle known => ?_
    obtain ⟨opened, fds⟩ := result
    obtain ⟨done, final, same, held⟩ := known
    subst done same
    have full' : ∀ other ∈ rest, other.ending ≠ .blank := fun other member =>
      full other (by simp [member])
    simp only [if_true, runEnding]
    cases ending : stage.ending with
    | none => exact (execute_unerring _ _ held).bind fun _ _ _ => errorExit_smooth _ _ _
    | background =>
      refine (execute_unerring _ _ held).bind fun bgPid ran _ => ?_
      have told : Smooth policy (fun _ _ => True) (announce bgPid) ran := by
        cases bgPid with
        | none => trivial
        | some pid => exact smooth_request id
      exact told.bind fun _ _ _ => errorExit_smooth _ _ _
    | missing direction => simp [misses, ending] at targeted
    | blank => exact (full stage (by simp) ending).elim
    | and =>
      refine (execute_smooth held (execute_leaves held)).bind
        fun andPid ran known => ?_
      obtain ⟨wider, _, _, cleared⟩ := known
      have waits : Smooth policy (fun _ after => after.table = ran.table)
          (waitAnd (pids ++ andPid.toList) andPid) ran := by
        refine ((waitAnd_table _ _).permitted policy.permits).using ⟨id, fun status => ?_⟩
        refine Program.uses_mono (waitLoop_uses _ _ status 0) fun asked waits => ?_
        cases asked <;> first | exact waits.elim | exact id
      refine waits.bind fun lastStatus waited unchanged => ?_
      split
      · exact errorExit_smooth _ _ _
      · have passes : misses rest = false := by
          simpa [misses, ending, Stage.passes] using targeted
        exact ih passes full' (cleared.congr (congrArg FdTable.file unchanged))
    | pipe =>
      have refuses := granting middle (.pipe stage.start (stage.stop + 1))
      have made := ((openPipe_granted refuses final.fds.fdOut).and
        ((openPipe_carries stage.start (stage.stop + 1) held).permitted policy.permits))
      have silent : Smooth policy (fun _ _ => True)
          (openPipe stage.start (stage.stop + 1) final.fds.fdOut) middle := by
        refine ⟨id, fun reply opened served => ?_⟩
        simp only [Service.computed, Policy.answer, refuses, Bool.false_eq_true, if_false] at served
        obtain ⟨rfl, rfl⟩ := Prod.mk.inj (Option.some.inj served)
        cases final.fds.fdOut with
        | none => trivial
        | some fd => exact ⟨id, fun _ _ _ => trivial⟩
      refine (Service.Ensures.also silent made).bind
        fun ends piped known => ?_
      obtain ⟨_, ⟨granted, _⟩, made⟩ := known
      rcases made with ⟨rfl, -⟩ | ⟨readEnd, writeEnd, rfl, unused, both⟩
      · exact (granted rfl).elim
      · have apart := held.apart_of_unused unused
        refine (execute_smooth both ((execute_left_leaves unused apart both).and
          (execute_external _ _ _ _))).bind fun pid ran known => ?_
        obtain ⟨⟨wider, _, _, read⟩, external⟩ := known
        cases pid with
        | none => exact ⟨id, fun _ _ _ => errorExit_smooth _ _ _⟩
        | some pid =>
          obtain ⟨nonempty, external⟩ := external (Option.some_ne_none pid)
          have passes : misses rest = false := by
            simpa [misses, ending, Stage.passes, nonempty, external] using targeted
          exact ih passes full' read

/-- The log has grown by events that all have this property. -/
def Since (shell : Shell) (property : Event → Prop) (after : Shell) : Prop :=
  ∃ events, after.log = shell.log ++ events ∧ ∀ event ∈ events, property event

private theorem Since.note {property : Event → Prop} {middle after : Shell}
    (since : Since shell property middle) {events : List Event}
    (log : after.log = middle.log ++ events) (held : ∀ event ∈ events, property event) :
    Since shell property after := by
  obtain ⟨before, same, others⟩ := since
  refine ⟨before ++ events, by rw [log, same, List.append_assoc], ?_⟩
  intro event member
  rcases List.mem_append.mp member with earlier | later
  · exact others event earlier
  · exact held event later

private theorem obliging_answer {asked : Call} {reply : asked.Reply} {middle after : Shell}
    (silent : ¬ complains asked)
    (since : Since shell (fun event => Succeeded event ∧ Harmless event) middle)
    (served : obliging.answer middle asked = some (reply, after)) :
    Since shell (fun event => Succeeded event ∧ Harmless event) after := by
  have noted : ∀ event : Event, Succeeded event ∧ Harmless event →
      Since shell (fun event => Succeeded event ∧ Harmless event) (middle.note event) :=
    fun event good => since.note rfl (by simpa using good)
  have silently : ∀ {after : Shell}, after.log = middle.log →
      Since shell (fun event => Succeeded event ∧ Harmless event) after :=
    fun same => since.note (same.trans (List.append_nil _).symm) (by simp)
  cases asked with
  | perror | fprintf => exact (silent trivial).elim
  | fault => cases served
  | fflush =>
    cases served
    exact since.note rfl (by simp [Succeeded, Harmless])
  | openFile direction path =>
    cases served
    exact since.note rfl (by simp [Succeeded, Harmless])
  | fork arglist argv =>
    cases served
    exact noted _ ⟨trivial, trivial⟩
  | waitpid pid =>
    cases served
    exact noted _ ⟨by simp [Succeeded, obliging], by simp [Harmless, obliging]⟩
  | uname | chdir | getcwd =>
    cases served
    exact noted (.acted true) ⟨rfl, trivial⟩
  | dup fd | dup2 fd standard | restore fd standard =>
    simp only [Policy.answer] at served
    split at served <;> cases served <;> exact silently rfl
  | fgets | printf | close | getenv | indeterminate | pipe =>
    cases served
    exact silently rfl

theorem exists_smooth {tokens : List Text} (full : ∀ token ∈ tokens, token ≠ [])
    (targeted : misses (stages tokens) = false) (standardIn : shell.table.file 0 ≠ none)
    (standardOut : shell.table.file 1 ≠ none) :
    ∃ after, (kernel true).Reach (isExecutable tokens, shell) (.done (), after) ∧
      Since shell (fun event => Succeeded event ∧ Harmless event) after := by
  have granting : Granting obliging := fun _ _ => rfl
  have filled := stages_full full
  have smooth : Smooth obliging (fun _ _ => True) (runStages (stages tokens) .none []) shell :=
    runStages_smooth granting targeted filled (carries_none standardIn standardOut)
  obtain ⟨_, after, run, -⟩ := Service.exists_eval smooth (runStages_uses filled _ _) obliging.total
  refine ⟨after, ?_, ?_⟩
  · rw [isExecutable_eq]
    exact Service.reach_of_eval obliging.permits run
  · have computed : (Service.computed obliging.answer).Permits obliging.answer :=
      fun _ _ _ _ replied => replied
    refine Service.Ensures.invariant (fun _ _ moved => moved) smooth ?_
      (Service.reach_of_eval computed run) ⟨[], by simp, nofun⟩
    exact fun middle asked reply after silent since served => obliging_answer silent since served

end Lsnp.Lab
