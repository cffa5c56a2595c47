import Lsnp.Lab.Ownership
import Lsnp.Unix.Obliging

namespace Lsnp.Lab

open Lsnp.Interaction Lsnp.Unix

def Granting (policy : Policy) : Prop := ∀ shell asked, policy.refuses shell asked = false

/-- The file a command gets as its standard input or output. -/
def Carried.standard (carried : Carried) (base : Fd → Option File) : Direction → Option File
  | .input => (carried.input.map Prod.snd).or (base 0)
  | .output => (carried.output.map Prod.snd).or (base 1)

variable {policy : Policy} {shell : Shell} {base : Fd → Option File} {carried : Carried}

theorem fflush_granted :
    (Service.computed policy.answer).Returns (fun _ after => after = shell.flush)
      Sys.fflush shell := by
  refine ⟨trivial, fun _ after served => ?_⟩
  simp only [Service.computed, Policy.answer] at served
  exact (Prod.mk.inj (Option.some.inj served)).2.symm

theorem dup_granted {standard : Fd} {file : File} (found : shell.table.file standard = some file) :
    (Service.computed policy.answer).Returns
      (fun saved after => saved = some shell.table.lowest ∧
        after = shell.install shell.table.lowest file) (Sys.dup standard) shell := by
  refine ⟨trivial, fun saved after served => ?_⟩
  simp only [Service.computed, Policy.answer, found] at served
  obtain ⟨rfl, rfl⟩ := Prod.mk.inj (Option.some.inj served)
  exact ⟨rfl, rfl⟩

theorem redirect_granted {held : Option (Fd × File)} (standard : Fd)
    (found : ∀ fd file, held = some (fd, file) → shell.table.file fd = some file) :
    (Service.computed policy.answer).Returns
      (fun redirected after => redirected = true ∧
        after = (held.map Prod.snd).elim shell (shell.install standard))
      (redirect (held.map Prod.fst) standard) shell := by
  rcases held with - | ⟨fd, file⟩
  · exact ⟨rfl, rfl⟩
  · refine ⟨trivial, fun redirected after served => ?_⟩
    simp only [Service.computed, Policy.answer, found fd file rfl] at served
    obtain ⟨rfl, rfl⟩ := Prod.mk.inj (Option.some.inj served)
    exact ⟨rfl, rfl⟩

theorem checkBuiltin_external {cmd : Text} {args : List Text}
    (external : isBuiltin (cmd :: args) = false) : checkBuiltin (cmd :: args) = pure false := by
  have missing : findBuiltin cmd = none := by simpa [isBuiltin] using external
  simp only [checkBuiltin, missing]

theorem start_granted {arglist : Nat} {cmd : Text} {args : List Text}
    (external : isBuiltin (cmd :: args) = false) :
    (Service.computed policy.answer).Returns
      (fun pid after => pid = some (policy.name (forks shell.log).length) ∧
        after = shell.note (.forked
          (shell.child (policy.name (forks shell.log).length) arglist (cmd :: args))))
      (start arglist (cmd :: args)) shell := by
  simp only [start, checkBuiltin_external external, pure_bind, Bool.false_eq_true, if_false]
  refine ⟨trivial, fun pid after served => ?_⟩
  simp only [Service.computed, Policy.answer] at served
  obtain ⟨rfl, rfl⟩ := Prod.mk.inj (Option.some.inj served)
  exact ⟨rfl, rfl⟩

/-- A child forked by `execute` with its redirections in place. -/
structure Forked (shell : Shell) (base : Fd → Option File) (carried : Carried) (arglist : Nat)
    (argv : List Text) (child : Fork) : Prop where
  line : child.line = shell.line
  arglist : child.arglist = arglist
  argv : child.argv = argv
  input : child.table.file 0 = carried.standard base .input
  output : child.table.file 1 = carried.standard base .output
  rest : ∀ fd, fd ≠ 0 → fd ≠ 1 → shell.table.file fd ≠ none →
    child.table.file fd = shell.table.file fd

theorem exitExecute_log {theft : Bool} (savedIn savedOut fdIn fdOut : Option Fd) :
    (kernel theft).Returns (fun _ after => after.log = shell.log)
      (exitExecute savedIn savedOut fdIn fdOut) shell := by
  refine returns_log ?_
  cases savedIn <;> cases savedOut <;> cases fdIn <;> cases fdOut <;>
    simp [exitExecute, putBack, closeIfOpen, Call.logs]

/-- The shell while a command runs with its redirections. -/
def Carried.apply (carried : Carried) (shell : Shell) : Shell :=
  let first := (carried.input.map Prod.snd).elim shell (shell.install 0)
  (carried.output.map Prod.snd).elim first (first.install 1)

theorem Carried.apply_same (carried : Carried) (shell : Shell) :
    (carried.apply shell).log = shell.log ∧ (carried.apply shell).line = shell.line := by
  obtain ⟨- | input, - | output⟩ := carried <;> exact ⟨rfl, rfl⟩

theorem Carried.apply_file (carried : Carried) (shell : Shell) :
    (carried.apply shell).table.file 0 =
        (carried.input.map Prod.snd).or (shell.table.file 0) ∧
      (carried.apply shell).table.file 1 =
        (carried.output.map Prod.snd).or (shell.table.file 1) ∧
      ∀ fd, fd ≠ 0 → fd ≠ 1 → (carried.apply shell).table.file fd = shell.table.file fd := by
  obtain ⟨- | input, - | output⟩ := carried <;>
    simp +contextual [Carried.apply, Shell.install]

theorem found_redirected {first : Shell}
    (found : ∀ direction held, carried.get direction = some held →
      held.1 ≠ 0 ∧ shell.table.file held.1 = some held.2)
    (inPlace : first = (carried.input.map Prod.snd).elim shell (shell.install 0)) :
    ∀ fd file, carried.output = some (fd, file) → first.table.file fd = some file := by
  intro fd file held
  obtain ⟨apart, here⟩ := found .output (fd, file) held
  subst inPlace
  rcases carried with ⟨- | held, output⟩
  · exact here
  · simpa [Carried.get, Shell.install, Function.update_of_ne (show fd ≠ 0 from apart)] using here

theorem redirectAndStart_granted {arglist : Nat} {cmd : Text} {args : List Text}
    (external : isBuiltin (cmd :: args) = false)
    (found : ∀ direction held, carried.get direction = some held →
      held.1 ≠ 0 ∧ shell.table.file held.1 = some held.2) :
    (Service.computed policy.answer).Returns
      (fun pid after => pid = some (policy.name (forks shell.log).length) ∧
        after = (carried.apply shell).note (.forked ((carried.apply shell).child
          (policy.name (forks shell.log).length) arglist (cmd :: args))))
      (redirectAndStart arglist (cmd :: args) carried.fds.fdIn carried.fds.fdOut) shell := by
  refine (redirect_granted 0 fun fd file held => (found .input (fd, file) held).2).bind
    fun _ first ⟨inRedirected, inPlace⟩ => ?_
  subst inRedirected
  have outFound := found_redirected found inPlace
  refine (redirect_granted 1 outFound).bind fun _ second ⟨outRedirected, outPlace⟩ => ?_
  subst outRedirected
  refine (start_granted external).returns fun pid after ⟨named, same⟩ => ?_
  have applied : second = carried.apply shell := by rw [outPlace, inPlace]; rfl
  rw [applied, (carried.apply_same shell).1] at named same
  exact ⟨named, same⟩

theorem kept_saved {input output : File} {first second : Shell}
    (outHere : shell.table.file 1 = some output)
    (inDup : first = shell.flush.install shell.flush.table.lowest input)
    (outDup : second = first.install first.table.lowest output) :
    first.table.file 1 = some output ∧
      ∀ fd, shell.table.file fd ≠ none → second.table.file fd = shell.table.file fd := by
  have inKept : ∀ {fd held}, shell.table.file fd = some held →
      first.table.file fd = some held := by
    intro fd held here
    rw [inDup]
    exact FdTable.file_set_lowest input here
  have outKept : ∀ {fd held}, first.table.file fd = some held →
      second.table.file fd = some held := by
    intro fd held here
    rw [outDup]
    exact FdTable.file_set_lowest output here
  refine ⟨inKept outHere, fun fd used => ?_⟩
  obtain ⟨held, here⟩ := Option.ne_none_iff_exists'.mp used
  rw [here]
  exact outKept (inKept here)

theorem Carries.found (carries : Carries base carried shell.table) {second : Shell}
    (kept : ∀ fd, shell.table.file fd ≠ none → second.table.file fd = shell.table.file fd) :
    ∀ direction held, carried.get direction = some held →
      held.1 ≠ 0 ∧ second.table.file held.1 = some held.2 := by
  intro direction held given
  have here := carries.file_of_get given
  refine ⟨?_, by rw [kept _ (by simp [here]), here]⟩
  intro zero
  exact carries.standardIn (zero ▸ carries.free direction held given)

/-- An external command is forked with its redirections in place, after a flush. -/
theorem execute_granted {arglist : Nat} {cmd : Text} {args : List Text}
    (external : isBuiltin (cmd :: args) = false) (carries : Carries base carried shell.table) :
    (Service.computed policy.answer).Returns
      (fun pid after => ∃ child, Forked shell base carried arglist (cmd :: args) child ∧
        child.pid = policy.name (forks shell.log).length ∧ pid = some child.pid ∧
        after.log = shell.log ++ [.wrote (shell.table.file 1) shell.buffer, .forked child])
      (execute arglist (cmd :: args) carried.fds.fdIn carried.fds.fdOut) shell := by
  obtain ⟨input, inFound⟩ := Option.ne_none_iff_exists'.mp carries.standardIn
  obtain ⟨output, outFound⟩ := Option.ne_none_iff_exists'.mp carries.standardOut
  have inHere : shell.table.file 0 = some input :=
    (carries.file_of_base carries.standardIn).trans inFound
  have outHere : shell.table.file 1 = some output :=
    (carries.file_of_base carries.standardOut).trans outFound
  simp only [execute]
  refine fflush_granted.bind fun _ flushed same => ?_
  subst same
  refine (dup_granted (show shell.flush.table.file 0 = _ from inHere)).bind
    fun savedIn first known => ?_
  obtain ⟨inSaved, inDup⟩ := known
  obtain ⟨outThere, -⟩ := kept_saved outHere inDup rfl
  refine (dup_granted outThere).bind fun savedOut second known => ?_
  obtain ⟨outSaved, outDup⟩ := known
  subst inSaved outSaved
  obtain ⟨-, kept⟩ := kept_saved outHere inDup outDup
  have found := carries.found kept
  have sameLog : second.log = shell.log ++ [.wrote (shell.table.file 1) shell.buffer] := by
    rw [outDup, inDup]
    rfl
  have sameLine : second.line = shell.line := by
    rw [outDup, inDup]
    rfl
  simp only [startSaved, Option.isSome_some, Bool.and_self, if_true]
  refine (redirectAndStart_granted external found).bind fun pid third known => ?_
  obtain ⟨named, started⟩ := known
  refine ((exitExecute_log _ _ _ _).permitted policy.permits).bind fun _ after last => ?_
  simp only [Service.ensures_pure]
  have sameForks : forks second.log = forks shell.log := by simp [sameLog, forks]
  refine ⟨(carried.apply second).child (policy.name (forks shell.log).length) arglist (cmd :: args),
    ?_, rfl, by rw [named, sameForks]; rfl, ?_⟩
  · obtain ⟨inFile, outFile, others⟩ := carried.apply_file second
    obtain ⟨-, line⟩ := carried.apply_same second
    refine ⟨line.trans sameLine, rfl, rfl, inFile.trans ?_, outFile.trans ?_, ?_⟩
    · rw [kept 0 (by simp [inHere]), inHere, ← inFound]
      rfl
    · rw [kept 1 (by simp [outHere]), outHere, ← outFound]
      rfl
    · intro fd notIn notOut used
      exact (others fd notIn notOut).trans (kept fd used)
  · rw [last, started, sameForks]
    simp [Shell.note, (carried.apply_same second).1, sameLog]

theorem openAll_granted (granting : Granting policy) (redirections : List (Direction × Text))
    (fds : Fds) :
    (Service.computed policy.answer).Returns
      (fun result after => result.1 = true ∧
        after.log = shell.log ++ (openedFiles shell.files redirections).map .opened ∧
        after.files = shell.files + redirections.length)
      (openAll redirections fds) shell := by
  induction redirections generalizing fds shell with
  | nil => exact ⟨rfl, by simp [openedFiles], rfl⟩
  | cons redirection rest ih =>
    obtain ⟨direction, target⟩ := redirection
    refine ((closeIfOpen_drop _).permitted policy.permits).bind fun _ closed same =>
      ⟨trivial, fun reply opened served => ?_⟩
    have sameLog : closed.log = shell.log := by
      rw [same]
      cases fds.get direction <;> rfl
    have sameFiles : closed.files = shell.files := by
      rw [same]
      cases fds.get direction <;> rfl
    simp only [Service.computed, Policy.answer, granting closed (.openFile direction target),
      Bool.false_eq_true, if_false] at served
    obtain ⟨rfl, rfl⟩ := Prod.mk.inj (Option.some.inj served)
    refine (ih (fds.set direction (some closed.table.lowest))).returns
      fun result after known => ?_
    obtain ⟨done, log, files⟩ := known
    refine ⟨done, ?_, ?_⟩
    · simp [log, Shell.addFile, openedFiles, sameLog, sameFiles]
    · simp only [files, Shell.addFile, sameFiles, List.length_cons]
      omega

theorem openPipe_granted {left right : Nat}
    (granted : policy.refuses shell (.pipe left right) = false) (fdOut : Option Fd) :
    (Service.computed policy.answer).Returns
      (fun reply after => reply ≠ none ∧ after.log = shell.log ∧ after.files = shell.files ∧
        after.line = shell.line ∧
        after.pipes = shell.pipes ++ [⟨shell.line, left, right⟩])
      (openPipe left right fdOut) shell := by
  refine ⟨trivial, fun reply opened served => ?_⟩
  simp only [Service.computed, Policy.answer, granted,
    Bool.false_eq_true, if_false] at served
  obtain ⟨rfl, rfl⟩ := Prod.mk.inj (Option.some.inj served)
  cases fdOut with
  | none => exact ⟨Option.some_ne_none _, rfl, rfl, rfl, rfl⟩
  | some fd =>
    refine ⟨trivial, fun _ after closed => ?_⟩
    simp only [Service.computed, Policy.answer] at closed
    obtain ⟨-, rfl⟩ := Prod.mk.inj (Option.some.inj closed)
    exact ⟨Option.some_ne_none _, rfl, rfl, rfl, rfl⟩

/-- Every process exits, with the code that `code` gives, and the shell's own `waitpid` gets the
status of each one that it waits for: `child_handler` reaps none of them before it. -/
def Exiting (policy : Policy) (code : Pid → Fin 256) : Prop :=
  ∀ shell pid, policy.ended shell pid = some (.exited (code pid))

def exitStatus (code : Pid → Fin 256) (pid : Pid) : Nat := (Termination.exited (code pid)).encode

theorem waitpid_granted {code : Pid → Fin 256} (exiting : Exiting policy code) (pid : Pid) :
    (Service.computed policy.answer).Returns
      (fun reply after => reply = some (exitStatus code pid) ∧
        after = shell.note (.waited pid (some (exitStatus code pid))))
      (Sys.waitpid pid) shell := by
  refine ⟨trivial, fun reply after served => ?_⟩
  simp only [Service.computed, Policy.answer, exiting shell pid, Option.map_some] at served
  obtain ⟨rfl, rfl⟩ := Prod.mk.inj (Option.some.inj served)
  exact ⟨rfl, rfl⟩

def waitEvents (code : Pid → Fin 256) (pids : List Pid) : List Event :=
  pids.map fun pid => .waited pid (some (exitStatus code pid))

theorem waitLoop_granted {code : Pid → Fin 256} (exiting : Exiting policy code)
    (andPid : Option Pid) (pids : List Pid) (status lastStatus : Nat) :
    (Service.computed policy.answer).Returns
      (fun last after => after = { shell with log := shell.log ++ waitEvents code pids } ∧
        last = if ∃ pid ∈ pids, some pid = andPid then (andPid.map (exitStatus code)).getD 0
          else lastStatus)
      (waitLoop andPid pids status lastStatus) shell := by
  induction pids generalizing shell status lastStatus with
  | nil => exact ⟨by simp [waitEvents], by simp⟩
  | cons pid pids ih =>
    refine (waitpid_granted exiting pid).bind fun reply waited ⟨replied, same⟩ => ?_
    subst replied same
    refine (ih _ _).returns fun last after ⟨same, found⟩ => ⟨?_, ?_⟩
    · simp [same, Shell.note, waitEvents]
    · by_cases here : some pid = andPid
      · subst here
        simp [found]
      · simp [found, here]

theorem waitAnd_granted {code : Pid → Fin 256} (exiting : Exiting policy code)
    (pids : List Pid) (andPid : Option Pid) :
    (Service.computed policy.answer).Returns
      (fun last after =>
        after = { shell with log := shell.log ++ waitEvents code (pids ++ andPid.toList) } ∧
          last = (andPid.map (exitStatus code)).getD 0)
      (waitAnd (pids ++ andPid.toList) andPid) shell := by
  refine ⟨trivial, fun status begun served => ?_⟩
  simp only [Service.computed, Policy.answer] at served
  obtain ⟨-, rfl⟩ := Prod.mk.inj (Option.some.inj served)
  refine (waitLoop_granted exiting andPid _ status 0).returns fun last after known => ?_
  obtain ⟨same, found⟩ := known
  refine ⟨same, found.trans ?_⟩
  cases andPid <;> simp

end Lsnp.Lab
