import Lsnp.Lab.Calls

namespace Lsnp.Lab

open Lsnp.Interaction Lsnp.Unix

/-- The table with one descriptor closed, if one is given. -/
def release (fd : Option Fd) (files : Fd → Option File) : Fd → Option File :=
  match fd with
  | none => files
  | some fd => Function.update files fd none

/-- What `putBack` makes of a table. -/
def restored (saved : Option Fd) (standard : Fd) (files : Fd → Option File) : Fd → Option File :=
  match saved with
  | none => files
  | some fd =>
    match files fd with
    | none => Function.update files fd none
    | some file => Function.update (Function.update files standard (some file)) fd none

/-- What a `dup` of `standard` that returned `saved` made of a table. -/
def Saved (files : Fd → Option File) (saved : Option Fd) (standard : Fd)
    (after : Fd → Option File) : Prop :=
  saved = none ∧ after = files ∨ ∃ fd, saved = some fd ∧ files fd = none ∧
    files standard ≠ none ∧ after = Function.update files fd (files standard)

/-- Restoring both standard descriptors undoes what happened to them in between. If 0 is open,
1 must be as well, or the copy of 0 is put there. -/
private theorem restored_saved {files first second between : Fd → Option File}
    {savedIn savedOut : Option Fd} (standard : files 0 ≠ none → files 1 ≠ none)
    (inSaved : Saved files savedIn 0 first) (outSaved : Saved first savedOut 1 second)
    (redirected : savedIn.isSome && savedOut.isSome → ∀ fd, fd ≠ 0 → fd ≠ 1 → between fd = second fd)
    (unchanged : (savedIn.isSome && savedOut.isSome) = false → between = second) :
    restored savedOut 1 (restored savedIn 0 between) = files := by
  rcases inSaved with ⟨rfl, rfl⟩ | ⟨input, rfl, inputFree, standardIn, rfl⟩
  · obtain rfl : between = second := unchanged rfl
    rcases outSaved with ⟨rfl, rfl⟩ | ⟨output, rfl, outputFree, standardOut, rfl⟩
    · rfl
    · obtain ⟨file, found⟩ := Option.ne_none_iff_exists'.mp standardOut
      funext fd
      simp only [restored, Function.update_self, found, Function.update_apply]
      grind
  · have standardOut := standard standardIn
    obtain ⟨file, found⟩ := Option.ne_none_iff_exists'.mp standardIn
    have inputApart : input ≠ 0 ∧ input ≠ 1 := by grind
    rcases outSaved with ⟨rfl, rfl⟩ | ⟨output, rfl, outputFree, outputKept, rfl⟩
    · obtain rfl : between = _ := unchanged rfl
      funext fd
      simp only [restored, Function.update_self, found, Function.update_apply]
      grind
    · have outputApart : output ≠ 0 ∧ output ≠ 1 ∧ output ≠ input := by
        simp only [Function.update_apply] at outputFree
        grind
      obtain ⟨other, foundOut⟩ := Option.ne_none_iff_exists'.mp standardOut
      have elsewhere := redirected rfl
      have atInput : between input = some file := by
        rw [elsewhere input inputApart.1 inputApart.2, Function.update_of_ne outputApart.2.2.symm,
          Function.update_self, found]
      have atOutput : between output = some other := by
        rw [elsewhere output outputApart.1 outputApart.2.1, Function.update_self,
          Function.update_of_ne inputApart.2.symm, foundOut]
      funext fd
      have here := elsewhere fd
      simp only [restored, atInput, atOutput, Function.update_apply, outputApart] at here ⊢
      grind

section

variable {theft : Bool} {shell : Shell}

theorem dup_saved (standard : Fd) :
    (kernel theft).Returns
      (fun saved after => Saved shell.table.file saved standard after.table.file)
      (Sys.dup standard) shell := by
  refine ⟨trivial, fun saved after served => ?_⟩
  rcases served with ⟨rfl, rfl⟩ | ⟨file, found, rfl, rfl⟩
  · exact .inl ⟨rfl, rfl⟩
  · exact .inr ⟨_, rfl, by simp, by simp [found], by simp [Shell.install, found]⟩

theorem closeIfOpen_drop (fd : Option Fd) :
    (kernel theft).Returns (fun _ after => after = fd.elim shell shell.drop)
      (closeIfOpen fd) shell := by
  cases fd with
  | none => rfl
  | some fd => exact ⟨trivial, fun _ after served => served⟩

theorem closeIfOpen_release (fd : Option Fd) :
    (kernel theft).Returns (fun _ after => after.table.file = release fd shell.table.file)
      (closeIfOpen fd) shell := by
  refine (closeIfOpen_drop fd).returns fun _ after same => ?_
  subst same
  cases fd <;> simp [Shell.drop, release]

theorem putBack_restored (saved : Option Fd) (standard : Fd) :
    (kernel theft).Returns
      (fun _ after => after.table.file = restored saved standard shell.table.file)
      (putBack saved standard) shell := by
  cases saved with
  | none => rfl
  | some fd =>
    refine ⟨trivial, fun _ between served => ⟨trivial, fun _ after closed => ?_⟩⟩
    obtain rfl : after = between.drop fd := closed
    rcases served with ⟨closed, rfl⟩ | ⟨file, found, rfl⟩
    · simp [Shell.drop, restored, closed]
    · simp [Shell.drop, Shell.install, restored, found]

theorem exitExecute_table (savedIn savedOut fdIn fdOut : Option Fd) :
    (kernel theft).Returns
      (fun _ after => after.table.file = release fdOut (release fdIn
        (restored savedOut 1 (restored savedIn 0 shell.table.file))))
      (exitExecute savedIn savedOut fdIn fdOut) shell := by
  refine (putBack_restored savedIn 0).bind fun _ first inBack => ?_
  refine (putBack_restored savedOut 1).bind fun _ second outBack => ?_
  refine (closeIfOpen_release fdIn).bind fun _ third inClosed => ?_
  refine (closeIfOpen_release fdOut).returns fun _ last outClosed => ?_
  rw [outClosed, inClosed, outBack, inBack]

/-- Between the two `dup` and `exit_execute` only 0 and 1 change, and not even they
if a `dup` failed. -/
theorem startSaved_table (savedIn savedOut : Option Fd) (arglist : Nat) (cmd : Text)
    (args : List Text) (fdIn fdOut : Option Fd) :
    (kernel theft).Returns
      (fun _ after =>
        (∀ fd, fd ≠ 0 → fd ≠ 1 → after.table.file fd = shell.table.file fd) ∧
          ((savedIn.isSome && savedOut.isSome) = false → after.table = shell.table))
      (startSaved savedIn savedOut arglist (cmd :: args) fdIn fdOut) shell := by
  cases saved : savedIn.isSome && savedOut.isSome with
  | false =>
    simp only [startSaved, saved, Bool.false_eq_true, if_false]
    refine ⟨trivial, fun _ after served => ?_⟩
    obtain rfl : after = shell.note (.complained "dup".toList) := served
    exact ⟨fun _ _ _ => rfl, fun _ => rfl⟩
  | true =>
    have kept : ∀ state asked (reply : asked.Reply) after, ofRedirected arglist (cmd :: args) asked →
        (∀ fd, fd ≠ 0 → fd ≠ 1 → state.table.file fd = shell.table.file fd) →
        (kernel theft).serve state asked reply after →
        ∀ fd, fd ≠ 0 → fd ≠ 1 → after.table.file fd = shell.table.file fd := by
      intro state asked reply after redirected elsewhere served fd notIn notOut
      cases asked with
      | dup2 source standard =>
        rcases served with ⟨-, rfl⟩ | ⟨file, -, -, rfl⟩
        · exact elsewhere fd notIn notOut
        · have other : fd ≠ standard := by
            rcases redirected with rfl | rfl
            · exact notIn
            · exact notOut
          simp [Shell.install, Function.update_of_ne other, elsewhere fd notIn notOut]
      | dup | restore | close | pipe | openFile => exact redirected.elim
      | _ => rw [serve_table served (fun touched => touched), elsewhere fd notIn notOut]
    refine (Service.ensures_of_uses (startSaved_uses savedIn savedOut arglist cmd args fdIn fdOut)
      kept fun _ _ _ => rfl).returns fun _ after elsewhere => ?_
    exact ⟨elsewhere, fun failed => by cases failed⟩

/-- In the shell `execute` of a command closes `fd_in` and `fd_out` and leaves every
other descriptor as it was, whichever of its calls fail. -/
theorem execute_table {arglist : Nat} {cmd : Text} {args : List Text} {fdIn fdOut : Option Fd}
    (standard : shell.table.file 0 ≠ none → shell.table.file 1 ≠ none) :
    (kernel theft).Returns
      (fun _ after => after.table.file = release fdOut (release fdIn shell.table.file))
      (execute arglist (cmd :: args) fdIn fdOut) shell := by
  refine ⟨trivial, fun _ flushed served => ?_⟩
  obtain rfl : flushed = shell.flush := served
  refine (dup_saved 0).bind fun savedIn first inSaved => ?_
  refine (dup_saved 1).bind fun savedOut second outSaved => ?_
  refine (startSaved_table savedIn savedOut arglist cmd args fdIn fdOut).bind
    fun pid between redirected => ?_
  refine (exitExecute_table savedIn savedOut fdIn fdOut).bind fun _ last closed => ?_
  simp only [Service.ensures_pure, closed]
  congr 2
  exact restored_saved standard inSaved outSaved (fun _ => redirected.1)
    fun failed => congrArg _ (redirected.2 failed)

theorem execute_external (arglist : Nat) (argv : List Text) (fdIn fdOut : Option Fd) :
    (kernel theft).Returns (fun pid _ => pid ≠ none → argv ≠ [] ∧ isBuiltin argv = false)
      (execute arglist argv fdIn fdOut) shell := by
  cases argv with
  | nil => exact fun forked => (forked rfl).elim
  | cons cmd args =>
    cases builtin : isBuiltin (cmd :: args) with
    | false => exact (Service.returns_true _ _).returns fun _ _ _ _ => ⟨nofun, rfl⟩
    | true =>
      obtain ⟨btFunc, found⟩ : ∃ btFunc, findBuiltin cmd = some btFunc :=
        Option.isSome_iff_exists.mp builtin
      have started : ∀ shell, (kernel theft).Returns (fun pid _ => pid = none)
          (start arglist (cmd :: args)) shell := by
        intro shell
        simp only [start, checkBuiltin, found, bind_assoc, pure_bind, if_true]
        exact (Service.returns_true _ _).bind fun _ _ _ =>
          (Service.returns_true _ _).bind fun _ _ _ => rfl
      have redirected : ∀ savedIn savedOut shell, (kernel theft).Returns (fun pid _ => pid = none)
          (startSaved savedIn savedOut arglist (cmd :: args) fdIn fdOut) shell := by
        intro savedIn savedOut shell
        unfold startSaved
        split
        · refine (Service.returns_true _ _).bind fun inDone first _ => ?_
          split
          · refine (Service.returns_true _ _).bind fun outDone second _ => ?_
            split
            · exact started second
            · exact (Service.returns_true _ _).bind fun _ _ _ => rfl
          · exact (Service.returns_true _ _).bind fun _ _ _ => rfl
        · exact (Service.returns_true _ _).bind fun _ _ _ => rfl
      refine (Service.returns_true _ _).bind fun _ _ _ => ?_
      refine (Service.returns_true _ _).bind fun savedIn _ _ => ?_
      refine (Service.returns_true _ _).bind fun savedOut _ _ => ?_
      refine (redirected _ _ _).bind fun pid _ same => ?_
      refine (Service.returns_true _ _).bind fun _ _ _ => ?_
      exact fun forked => (forked same).elim

end

/-- What `fd_in` and `fd_out` refer to. -/
structure Carried where
  input : Option (Fd × File)
  output : Option (Fd × File)

namespace Carried

def none : Carried := ⟨.none, .none⟩

def get (carried : Carried) : Direction → Option (Fd × File)
  | .input => carried.input
  | .output => carried.output

def set (carried : Carried) (direction : Direction) (held : Option (Fd × File)) : Carried :=
  match direction with
  | .input => { carried with input := held }
  | .output => { carried with output := held }

def fds (carried : Carried) : Fds := ⟨carried.input.map Prod.fst, carried.output.map Prod.fst⟩

@[simp] theorem fds_set (carried : Carried) (direction : Direction) (held : Option (Fd × File)) :
    (carried.set direction held).fds = carried.fds.set direction (held.map Prod.fst) := by
  cases direction <;> rfl

theorem get_set (carried : Carried) (direction other : Direction) (held : Option (Fd × File)) :
    (carried.set direction held).get other = if other = direction then held else carried.get other := by
  cases direction <;> cases other <;> rfl

theorem set_set (carried : Carried) (direction : Direction) (held other : Option (Fd × File)) :
    (carried.set direction held).set direction other = carried.set direction other := by
  cases direction <;> rfl

end Carried

def place (held : Option (Fd × File)) (files : Fd → Option File) : Fd → Option File :=
  match held with
  | none => files
  | some (fd, file) => Function.update files fd (some file)

/-- The table is `base` with the carried descriptors added. -/
structure Carries (base : Fd → Option File) (carried : Carried) (table : FdTable File) : Prop where
  standardIn : base 0 ≠ none
  standardOut : base 1 ≠ none
  files : table.file = place carried.input (place carried.output base)
  free : ∀ direction held, carried.get direction = some held → base held.1 = none
  apart : ∀ input output, carried.input = some input → carried.output = some output →
    input.1 ≠ output.1

def openedFiles : Nat → List (Direction × Text) → List File
  | _, [] => []
  | serial, (direction, target) :: rest =>
    .regular serial target direction :: openedFiles (serial + 1) rest

def opensFor (direction : Direction) : File → Bool
  | .regular _ _ other => other == direction
  | _ => false

def lastFile (direction : Direction) (files : List File) : Option File :=
  (files.filter (opensFor direction)).getLast?

/-- What opening redirections can do to the carried descriptors, from the next serial
number of a file on. -/
inductive Redirected : Nat → List (Direction × Text) → Carried → Bool → Carried → Prop where
  | nil {serial : Nat} {carried : Carried} : Redirected serial [] carried true carried
  | refused {serial : Nat} {direction : Direction} {target : Text}
      {rest : List (Direction × Text)} {carried : Carried} :
      Redirected serial ((direction, target) :: rest) carried false (carried.set direction none)
  | cons {serial : Nat} {direction : Direction} {target : Text}
      {rest : List (Direction × Text)} {carried final : Carried} {opened : Bool} {fd : Fd}
      (others : Redirected (serial + 1) rest
        (carried.set direction (some (fd, .regular serial target direction))) opened final) :
      Redirected serial ((direction, target) :: rest) carried opened final

theorem lastFile_cons (direction : Direction) (file : File) (files : List File) :
    lastFile direction (file :: files) =
      (lastFile direction files).or (if opensFor direction file then some file else none) := by
  unfold lastFile
  rw [List.filter_cons]
  split
  · rw [List.getLast?_cons]
    cases (files.filter (opensFor direction)).getLast? <;> rfl
  · simp

theorem Redirected.file {serial : Nat} {redirections : List (Direction × Text)}
    {carried final : Carried} (redirected : Redirected serial redirections carried true final)
    (direction : Direction) :
    (final.get direction).map Prod.snd =
      (lastFile direction (openedFiles serial redirections)).or
        ((carried.get direction).map Prod.snd) := by
  generalize opened : true = outcome at redirected
  induction redirected with
  | nil => rfl
  | refused => cases opened
  | @cons serial other target rest carried final outcome fd others ih =>
    rw [ih opened, openedFiles, lastFile_cons, Option.or_assoc, Carried.get_set]
    congr 1
    cases direction <;> cases other <;> rfl

theorem Redirected.kept {serial : Nat} {redirections : List (Direction × Text)}
    {carried final : Carried} (redirected : Redirected serial redirections carried true final)
    {direction : Direction} (none : ∀ target, (direction, target) ∉ redirections) :
    final.get direction = carried.get direction := by
  generalize opened : true = outcome at redirected
  induction redirected with
  | nil => rfl
  | refused => cases opened
  | @cons serial other target rest carried final outcome fd others ih =>
    have apart : direction ≠ other := by
      rintro rfl
      exact none target (by simp)
    rw [ih (fun target member => none target (by simp [member])) opened, Carried.get_set,
      if_neg apart]

theorem Redirected.held {serial : Nat} {redirections : List (Direction × Text)}
    {carried final : Carried} (redirected : Redirected serial redirections carried true final)
    {direction : Direction}
    (given : carried.get direction ≠ none ∨ ∃ target, (direction, target) ∈ redirections) :
    final.get direction ≠ none := by
  generalize opened : true = outcome at redirected
  induction redirected with
  | nil => simpa using given
  | refused => cases opened
  | @cons serial other target rest carried final outcome fd others ih =>
    refine ih ?_ opened
    rw [Carried.get_set]
    by_cases here : direction = other
    · left
      simp [here]
    · simpa [here] using given

namespace Carries

variable {base : Fd → Option File} {carried : Carried} {table : FdTable File}

theorem file_of_base (carries : Carries base carried table) {fd : Fd} (used : base fd ≠ none) :
    table.file fd = base fd := by
  obtain ⟨-, -, files, free, -⟩ := carries
  have input := free .input
  have output := free .output
  rw [files]
  cases carried with
  | mk held other => cases held <;> cases other <;> simp only [place, Carried.get] at * <;> grind

theorem congr (carries : Carries base carried table) {after : FdTable File}
    (same : after.file = table.file) : Carries base carried after :=
  { carries with files := same.trans carries.files }

theorem unused_of_free (carries : Carries base carried table) {fd : Fd}
    (free : table.file fd = none) : base fd = none := by
  by_contra used
  exact used (by rw [← carries.file_of_base used, free])

theorem file_of_get (carries : Carries base carried table) {direction : Direction}
    {held : Fd × File} (found : carried.get direction = some held) :
    table.file held.1 = some held.2 := by
  obtain ⟨-, -, files, -, apart⟩ := carries
  rw [files]
  obtain ⟨input, output⟩ := carried
  cases direction <;> cases input <;> cases output <;>
    simp only [place, Carried.get, Function.update_apply] at * <;> grind

theorem closed (carries : Carries base carried table) (direction : Direction)
    {after : FdTable File}
    (same : after.file = release (carried.fds.get direction) table.file) :
    Carries base (carried.set direction none) after := by
  obtain ⟨standardIn, standardOut, files, free, apart⟩ := carries
  have input := free .input
  have output := free .output
  refine ⟨standardIn, standardOut, ?_, ?_, ?_⟩
  · funext fd
    rw [same, files]
    cases direction <;> cases carried with
    | mk held other =>
      cases held <;> cases other <;>
        simp only [place, release, Carried.get, Carried.set, Carried.fds, Fds.get, Option.map,
          Function.update_apply] at * <;> grind
  · intro other held found
    rw [Carried.get_set] at found
    split at found
    · cases found
    · exact free other held found
  · cases direction <;> simp_all [Carried.set]

theorem opened (carries : Carries base carried table) (direction : Direction)
    (vacant : carried.get direction = none) {fd : Fd} {file : File} {after : FdTable File}
    (unused : table.file fd = none) (same : after.file = Function.update table.file fd (some file)) :
    Carries base (carried.set direction (some (fd, file))) after := by
  have fresh := carries.unused_of_free unused
  obtain ⟨standardIn, standardOut, files, free, apart⟩ := carries
  rw [files] at unused same
  refine ⟨standardIn, standardOut, ?_, ?_, ?_⟩
  · funext other
    rw [same]
    cases direction <;> cases carried with
    | mk held held' =>
      cases held <;> cases held' <;>
        simp only [place, Carried.get, Carried.set, Function.update_apply] at * <;> grind
  · intro other held found
    rw [Carried.get_set] at found
    split at found
    · obtain rfl := Option.some.inj found
      exact fresh
    · exact free other held found
  · cases direction <;> cases carried with
    | mk held held' =>
      cases held <;> cases held' <;>
        simp only [place, Carried.get, Carried.set, Function.update_apply] at * <;> grind

theorem release_fds (carries : Carries base carried table) :
    release carried.fds.fdOut (release carried.fds.fdIn table.file) = base := by
  obtain ⟨-, -, files, free, -⟩ := carries
  have input := free .input
  have output := free .output
  funext fd
  rw [files]
  cases carried with
  | mk held other =>
    cases held <;> cases other <;>
      simp only [place, release, Carried.get, Carried.fds, Option.map, Function.update_apply] at * <;>
        grind

theorem apart_of_unused (carries : Carries base carried table) {fd : Fd} (unused : base fd = none) :
    fd ≠ 0 ∧ fd ≠ 1 :=
  ⟨fun zero => carries.standardIn (zero ▸ unused), fun one => carries.standardOut (one ▸ unused)⟩

theorem of_eq (carries : Carries base carried table) {after : FdTable File}
    (same : after.file = base) : Carries base .none after where
  standardIn := carries.standardIn
  standardOut := carries.standardOut
  files := same
  free := by intro direction held found; cases direction <;> cases found
  apart := nofun

end Carries

section

variable {theft : Bool} {shell : Shell} {base : Fd → Option File} {carried : Carried}

theorem execute_carries {arglist : Nat} {cmd : Text} {args : List Text}
    (carries : Carries base carried shell.table) :
    (kernel theft).Returns (fun _ after => Carries base .none after.table)
      (execute arglist (cmd :: args) carried.fds.fdIn carried.fds.fdOut) shell := by
  have standardOut : shell.table.file 1 ≠ none := by
    rw [carries.file_of_base carries.standardOut]
    exact carries.standardOut
  refine (execute_table fun _ => standardOut).returns fun _ after same => ?_
  exact carries.of_eq (same.trans carries.release_fds)

theorem openAll_carries {redirections : List (Direction × Text)}
    (carries : Carries base carried shell.table) :
    (kernel theft).Returns
      (fun result after => ∃ final : Carried, result.2 = final.fds ∧
        Carries base final after.table ∧
          Redirected shell.files redirections carried result.1 final)
      (openAll redirections carried.fds) shell := by
  induction redirections generalizing carried shell with
  | nil => exact ⟨carried, rfl, carries, .nil⟩
  | cons redirection rest ih =>
    obtain ⟨direction, target⟩ := redirection
    refine ((closeIfOpen_release _).and (closeIfOpen_drop _)).bind fun _ closed ⟨same, exactly⟩ =>
      ⟨trivial, fun reply opened served => ?_⟩
    have vacant := carries.closed direction same
    have serial : closed.files = shell.files := by
      rw [exactly]
      cases carried.fds.get direction <;> rfl
    rcases served with ⟨rfl, rfl⟩ | ⟨rfl, rfl⟩
    · refine ⟨trivial, fun _ after served => ?_⟩
      obtain rfl : after = opened.note (.complained target) := served
      exact ⟨carried.set direction none, by simp, vacant, .refused⟩
    · have held : Carries base _ (closed.addFile direction target).table :=
        vacant.opened direction (by simp [Carried.get_set]) closed.table.file_lowest
          (closed.table.file_set _ (.regular closed.files target direction))
      rw [Carried.set_set] at held
      have run := ih held
      rw [Carried.fds_set] at run
      refine run.returns fun result after ⟨final, fds, carries, others⟩ => ?_
      change Redirected (closed.files + 1) rest (carried.set direction
        (some (_, .regular closed.files target direction))) _ _ at others
      rw [serial] at others
      exact ⟨final, fds, carries, .cons others⟩

theorem waitForeground_table (background : Bool) (pids : List Pid) :
    (kernel theft).Returns (fun _ after => after.table = shell.table)
      (waitForeground background pids) shell := by
  refine returns_table (Program.uses_mono (waitForeground_uses background pids) fun asked waits => ?_)
  cases asked <;> first | exact waits.elim | exact fun touched => touched

theorem waitAnd_table (pids : List Pid) (andPid : Option Pid) :
    (kernel theft).Returns (fun _ after => after.table = shell.table)
      (waitAnd pids andPid) shell := by
  refine returns_table ⟨fun touched => touched, fun status => ?_⟩
  refine Program.uses_mono (waitLoop_uses andPid pids status 0) fun asked waits => ?_
  cases asked <;> first | exact waits.elim | exact fun touched => touched

theorem errorExit_carries {background : Bool} {pids : List Pid}
    (carries : Carries base carried shell.table) :
    (kernel theft).Returns (fun _ after => Carries base .none after.table)
      (errorExit background pids carried.fds) shell := by
  refine (waitForeground_table background pids).bind fun _ waited same => ?_
  refine (closeIfOpen_release _).bind fun _ first inClosed => ?_
  refine (closeIfOpen_release _).returns fun _ after outClosed => ?_
  refine carries.of_eq ?_
  rw [outClosed, inClosed, same, carries.release_fds]

end

namespace Carries

variable {base : Fd → Option File} {carried : Carried} {table : FdTable File}

theorem widen (carries : Carries base carried table) {fd : Fd} {file : File} {after : FdTable File}
    (unused : table.file fd = none) (same : after.file = Function.update table.file fd (some file)) :
    Carries (Function.update base fd (some file)) carried after := by
  obtain ⟨standardIn, standardOut, files, free, apart⟩ := carries
  have input := free .input
  have output := free .output
  rw [files] at unused same
  refine ⟨?_, ?_, ?_, ?_, apart⟩
  · simp only [Function.update_apply]
    split <;> simp_all
  · simp only [Function.update_apply]
    split <;> simp_all
  · funext other
    rw [same]
    cases carried with
    | mk held held' =>
      cases held <;> cases held' <;>
        simp only [place, Carried.get, Function.update_apply] at * <;> grind
  · intro direction held found
    have unheld := free direction held found
    have other : held.1 ≠ fd := by
      rintro rfl
      cases direction <;> cases carried with
      | mk held held' =>
        cases held <;> cases held' <;>
          simp only [place, Carried.get, Function.update_apply] at * <;> grind
    rw [Function.update_of_ne other, unheld]

theorem carry (carries : Carries base .none table) {fd : Fd} {file : File}
    (found : base fd = some file) (apart : fd ≠ 0 ∧ fd ≠ 1) :
    Carries (Function.update base fd none) ⟨some (fd, file), none⟩ table where
  standardIn := by
    rw [Function.update_of_ne apart.1.symm]
    exact carries.standardIn
  standardOut := by
    rw [Function.update_of_ne apart.2.symm]
    exact carries.standardOut
  files := by
    rw [carries.files]
    simp [place, Carried.none, ← found]
  free := by
    intro direction held given
    cases direction <;> cases given
    exact Function.update_self ..
  apart := nofun

end Carries

/-- What the command on the left of the pipe number `pipe` gets as its output. -/
def Carried.left (carried : Carried) (pipe : Nat) (writeEnd : Fd) : Fd × File :=
  carried.output.getD (writeEnd, .pipeWrite pipe)

theorem takeWriteEnd_carries {theft : Bool} {shell : Shell} {base : Fd → Option File}
    {carried : Carried} {table : FdTable File} {writeEnd : Fd} {pipe : Nat}
    (carries : Carries base carried table) (unused : table.file writeEnd = none)
    (added : shell.table.file = Function.update table.file writeEnd (some (.pipeWrite pipe))) :
    (kernel theft).Returns
      (fun fdOut after => fdOut = (carried.left pipe writeEnd).1 ∧
        Carries base (carried.set .output (some (carried.left pipe writeEnd))) after.table)
      (takeWriteEnd carried.fds.fdOut writeEnd) shell := by
  obtain ⟨input, output⟩ := carried
  cases output with
  | none => exact ⟨rfl, carries.opened .output rfl unused added⟩
  | some held =>
    refine ⟨trivial, fun _ after served => ⟨rfl, carries.congr ?_⟩⟩
    obtain rfl : after = shell.drop writeEnd := served
    simp [Shell.drop, added, ← unused]

/-- A pipe adds its read end to the base and its write end to the carried descriptors,
unless these have an output already. -/
theorem openPipe_carries {theft : Bool} {shell : Shell} {base : Fd → Option File}
    {carried : Carried} (left right : Nat) (carries : Carries base carried shell.table) :
    (kernel theft).Returns
      (fun reply after =>
        reply = none ∧ Carries base carried after.table ∨
        ∃ readEnd writeEnd, reply = some (readEnd, (carried.left shell.pipes.length writeEnd).1) ∧
          base readEnd = none ∧
          Carries (Function.update base readEnd (some (.pipeRead shell.pipes.length)))
            (carried.set .output (some (carried.left shell.pipes.length writeEnd))) after.table)
      (openPipe left right carried.fds.fdOut) shell := by
  refine ⟨trivial, fun reply opened served => ?_⟩
  rcases served with ⟨rfl, rfl⟩ | ⟨rfl, rfl⟩
  · refine ⟨trivial, fun _ after served => ?_⟩
    obtain rfl : after = opened.note (.complained "pipe".toList) := served
    exact .inl ⟨rfl, carries⟩
  · have readFree : shell.table.file shell.table.lowest = none := shell.table.file_lowest
    have widened := carries.widen readFree
      (shell.table.file_set _ (.pipeRead shell.pipes.length))
    refine (takeWriteEnd_carries widened
      (FdTable.file_lowest _) (FdTable.file_set _ _ _)).bind fun fdOut after ⟨same, held⟩ => ?_
    exact .inr ⟨_, _, by rw [same], carries.unused_of_free readFree, held⟩

end Lsnp.Lab
