import Lsnp.Lab2.Common
import Lsnp.Lab2.IsExecutable
import Lsnp.Interaction.Finishing

namespace Lsnp.Lab2

open Lsnp.Interaction Lsnp.Unix

theorem strings_words (words : List Text) (tail : List (Option Text)) :
    strings (words.map some ++ none :: tail) = some words := by
  induction words with
  | nil => rfl
  | cons word words ih =>
    rw [List.map_cons, List.cons_append, strings, ih]
    rfl

theorem strings_front (words : List Text) (tail : List (Option Text)) :
    strings ((words.map some ++ none :: tail).drop 0) = some words := strings_words words tail

theorem strings_behind (words others : List Text) (tail : List (Option Text)) :
    strings ((words.map some ++ none :: (others.map some ++ none :: tail)).drop
      (words.length + 1)) = some others := by
  have behind : (words.map some ++ none :: (others.map some ++ none :: tail)).drop
      (words.length + 1) = others.map some ++ none :: tail := by
    simp [List.drop_append]
  rw [behind, strings_words]

theorem scan_plain {words : List Text}
    (plain : ∀ word ∈ words, word ≠ "|".toList ∧ word ≠ ">".toList) (tail : List (Option Text))
    (slot : Nat) : scan (words.map some ++ tail) slot = scan tail (slot + words.length) := by
  induction words generalizing slot with
  | nil => rfl
  | cons word words ih =>
    have first := plain word (by simp)
    rw [List.map_cons, List.cons_append, scan, if_neg first.1, if_neg first.2,
      ih (fun other member => plain other (by simp [member])), List.length_cons]
    congr 1
    omega

theorem scan_words {words : List Text} (plain : ∀ word ∈ words, Lab.operator word = .none)
    (tail : List (Option Text)) (slot : Nat) :
    scan (words.map some ++ tail) slot = scan tail (slot + words.length) := by
  refine scan_plain (fun word member => ⟨?_, ?_⟩) tail slot
  all_goals
    rintro rfl
    cases plain _ member

theorem isBackground_ampersand (words : List Text) :
    isBackground (argsOf (words ++ ["&".toList])) = some (words.map some ++ [none, none], false) := by
  have found : strings (argsOf (words ++ ["&".toList])) = some (words ++ ["&".toList]) :=
    strings_words _ _
  rw [isBackground, found]
  simp [argsOf, List.set_append]

theorem isBackground_plain {tokens : List Text} (filled : tokens ≠ [])
    (last : tokens.getLast? ≠ some "&".toList) :
    isBackground (argsOf tokens) = some (argsOf tokens, true) := by
  have found : strings (argsOf tokens) = some tokens := strings_words _ _
  have length := List.length_pos_of_ne_nil filled
  have other : (argsOf tokens)[tokens.length - 1]? ≠ some (some "&".toList) := by
    rw [argsOf, List.getElem?_append_left (by simp; omega), List.getElem?_map]
    rw [List.getLast?_eq_getElem?] at last
    intro here
    obtain ⟨word, there, same⟩ := Option.map_eq_some_iff.mp here
    exact last (by rw [there, Option.some.inj same])
  rw [isBackground, found]
  simp only [Option.bind_eq_bind, Option.bind_some, List.length_eq_zero_iff, filled, if_false,
    if_neg other]
  rfl

theorem ampersand_notMem (line : Common) : "&".toList ∉ line.words := by
  have apart : ∀ name args, "&".toList ∉ texts name args := by
    intro name args member
    have plain := (plain_texts name args _ member).1
    cases plain
  intro member
  rcases List.mem_append.mp member with here | later
  · exact apart _ _ here
  · unfold Rest.tokens at later
    split at later
    · cases later
    all_goals
      rcases List.mem_cons.mp later with same | deeper
      · exact absurd same (by decide)
      · exact apart _ _ deeper

/-- The array of the child: a final `&` has become a second `NULL`. -/
def childArgs (line : Common) : List (Option Text) :=
  line.words.map some ++ none :: if line.background then [none] else []

theorem isBackground_common (line : Common) :
    isBackground (argsOf line.tokens) = some (childArgs line, !line.background) := by
  cases background : line.background with
  | false =>
    have same : line.tokens = line.words := by simp [Common.tokens, background]
    have filled : line.words ≠ [] := by simp [Common.words, Common.argv, texts]
    rw [same, isBackground_plain filled fun last => ampersand_notMem line (List.mem_of_getLast? last)]
    simp [childArgs, background, argsOf]
  | true =>
    have same : line.tokens = line.words ++ ["&".toList] := by simp [Common.tokens, background]
    rw [same, isBackground_ampersand]
    simp [childArgs, background]

def commandOf (launch : List Text × Local) : Command :=
  ⟨launch.1, launch.2.table.file 0, launch.2.table.file 1⟩

abbrev succeeding : Platform Call Call.Reply Local Made := platform False

variable {own after : Local} {made changed : Made} {post : Launches (List Text) Local → Prop}
  {aim : List Text → Local → Prop} {α β : Type}

theorem serve_dup2 {fd standard : Fd} {file : File} {reply : Bool}
    (found : own.table.file fd = some file)
    (served : serve False own made (.dup2 (some fd) standard) reply after changed) :
    after = own.set standard file := by
  obtain ⟨-, ⟨never | missing, -⟩ | ⟨other, here, -, rfl⟩⟩ := served
  · exact never.elim
  · rw [Option.bind_some, found] at missing
    cases missing
  · rw [Option.bind_some, found] at here
    rw [Option.some.inj here]

theorem serve_pipe {reply : Option (Fd × Fd)}
    (served : serve False own made .pipe reply after changed) :
    reply = some (own.pipeEnds made.pipes) ∧ after = own.addPipe made.pipes := by
  rcases served with ⟨never, -⟩ | ⟨rfl, rfl, -⟩
  · exact never.elim
  · exact ⟨rfl, rfl⟩

theorem serve_openFile {path : Text} {reply : Option Fd}
    (served : serve False own made (.openFile (some path)) reply after changed) :
    reply = some own.table.lowest ∧
      after = own.set own.table.lowest (.regular made.files path .output) := by
  rcases served with ⟨never, -⟩ | ⟨rfl, rfl, -⟩
  · exact never.elim
  · exact ⟨rfl, rfl⟩

theorem launch_execvp {args : List (Option Text)} {slot : Nat} {argv : List Text}
    (here : strings (args.drop slot) = some argv) (behind : Unit → Prog β)
    (launched : post {(argv, own)}) :
    succeeding.Launch (execvp args slot >>= behind) own post := by
  rw [execvp, here]
  exact ⟨launched, False.elim⟩

theorem becomes_execvp {args : List (Option Text)} {slot : Nat} {argv : List Text}
    (here : strings (args.drop slot) = some argv) (behind : Unit → Prog β) (aimed : aim argv own) :
    succeeding.Becomes aim (execvp args slot >>= behind) own := by
  rw [execvp, here]
  exact ⟨aimed, False.elim⟩

theorem apart_of_free {files : Fd → Option File} (standardIn : files 0 ≠ none)
    (standardOut : files 1 ≠ none) {fd : Fd} (free : files fd = none) : fd ≠ 0 ∧ fd ≠ 1 :=
  ⟨fun zero => standardIn (zero ▸ free), fun one => standardOut (one ▸ free)⟩

theorem addPipe_file (standardIn : own.table.file 0 ≠ none) (standardOut : own.table.file 1 ≠ none)
    (pipe : Nat) : ∃ readEnd writeEnd, own.pipeEnds pipe = (readEnd, writeEnd) ∧
      (readEnd ≠ 0 ∧ readEnd ≠ 1) ∧ (writeEnd ≠ 0 ∧ writeEnd ≠ 1) ∧ readEnd ≠ writeEnd ∧
      (own.addPipe pipe).table.file = Function.update (Function.update own.table.file readEnd
        (some (.pipeRead pipe))) writeEnd (some (.pipeWrite pipe)) := by
  have first := own.table.file_lowest
  have second := (own.table.set own.table.lowest (.pipeRead pipe)).file_lowest
  refine ⟨_, _, rfl, apart_of_free standardIn standardOut first, ?_, ?_, ?_⟩
  · rw [FdTable.file_set] at second
    refine apart_of_free standardIn standardOut ?_
    rw [Function.update_apply] at second
    split at second
    · cases second
    · exact second
  · intro same
    rw [← same] at second
    simp at second
  · simp [Local.addPipe, Local.set, Local.pipeEnds]

variable {args : List (Option Text)} {readEnd writeEnd : Fd} {pipe : Nat} {files : Fd → Option File}

private theorem left_own (argv : List Text) (inApart : readEnd ≠ 0 ∧ readEnd ≠ 1)
    (outApart : writeEnd ≠ 0 ∧ writeEnd ≠ 1) (ends : readEnd ≠ writeEnd)
    (table : own.table.file = Function.update (Function.update files readEnd
      (some (.pipeRead pipe))) writeEnd (some (.pipeWrite pipe))) :
    (own.drop readEnd).table.file writeEnd = some (.pipeWrite pipe) ∧
      commandOf (argv, (own.drop readEnd).set 1 (.pipeWrite pipe)) =
        ⟨argv, files 0, some (.pipeWrite pipe)⟩ := by
  simp [commandOf, Local.set, Local.drop, table, Function.update_of_ne ends.symm,
    Function.update_of_ne inApart.1.symm, Function.update_of_ne outApart.1.symm]

private theorem right_own (argv : List Text) (inApart : readEnd ≠ 0 ∧ readEnd ≠ 1)
    (outApart : writeEnd ≠ 0 ∧ writeEnd ≠ 1) (ends : readEnd ≠ writeEnd)
    (table : own.table.file = Function.update (Function.update files readEnd
      (some (.pipeRead pipe))) writeEnd (some (.pipeWrite pipe))) :
    (own.drop writeEnd).table.file readEnd = some (.pipeRead pipe) ∧
      commandOf (argv, (own.drop writeEnd).set 0 (.pipeRead pipe)) =
        ⟨argv, some (.pipeRead pipe), files 1⟩ := by
  simp [commandOf, Local.set, Local.drop, table, Function.update_of_ne ends,
    Function.update_of_ne inApart.2.symm, Function.update_of_ne outApart.2.symm]

private theorem redirected_own (argv : List Text) (standardIn : own.table.file 0 ≠ none)
    (standardOut : own.table.file 1 ≠ none) (file : File) :
    (own.set own.table.lowest file).table.file own.table.lowest = some file ∧
      commandOf (argv, ((own.set own.table.lowest file).set 1 file).drop own.table.lowest) =
        ⟨argv, own.table.file 0, some file⟩ := by
  have apart := apart_of_free standardIn standardOut own.table.file_lowest
  simp [commandOf, Local.set, Local.drop, Function.update_of_ne apart.1.symm,
    Function.update_of_ne apart.2.symm]

/-- The array of the child of a pipe: two commands and some `NULL` behind them. -/
private theorem launch_runPipe {left right : List Text} {tail : List (Option Text)}
    (standardIn : own.table.file 0 ≠ none) (standardOut : own.table.file 1 ≠ none)
    (launched : ∀ pipe, ∀ one two : Local,
      commandOf (left, one) = ⟨left, own.table.file 0, some (.pipeWrite pipe)⟩ →
      commandOf (right, two) = ⟨right, some (.pipeRead pipe), own.table.file 1⟩ →
      post ({(left, one)} + {(right, two)})) :
    succeeding.Launch (runPipe (left.map some ++ none :: (right.map some ++ none :: tail))
      (left.length + 1) : Prog α) own post := by
  rintro shared reply after changed served
  obtain ⟨rfl, rfl⟩ := serve_pipe served
  obtain ⟨readEnd, writeEnd, same, inApart, outApart, ends, table⟩ :=
    addPipe_file standardIn standardOut shared.pipes
  rw [same]
  obtain ⟨leftFound, leftGiven⟩ := left_own left inApart outApart ends table
  obtain ⟨rightFound, rightGiven⟩ := right_own right inApart outApart ends table
  let first := ((own.addPipe shared.pipes).drop readEnd).set 1 (.pipeWrite shared.pipes)
  refine ⟨⟨fun launches => launches = {(left, first)}, ?_, ?_⟩, False.elim⟩
  · rintro _ _ _ _ ⟨-, rfl⟩ _ _ _ _ served
    obtain rfl := serve_dup2 leftFound served
    exact launch_execvp (strings_front left _) _ rfl
  · rintro pid _ _ _ _ ⟨-, rfl⟩ _ _ _ _ served
    obtain rfl := serve_dup2 rightFound served
    refine launch_execvp (strings_behind left right tail) _ ?_
    rintro _ rfl
    exact launched _ _ _ leftGiven rightGiven

private theorem becomes_runPipe {left right : List Text} {tail : List (Option Text)}
    (standardIn : own.table.file 0 ≠ none) (standardOut : own.table.file 1 ≠ none)
    (aimed : ∀ pipe, ∀ two : Local,
      commandOf (right, two) = ⟨right, some (.pipeRead pipe), own.table.file 1⟩ → aim right two) :
    succeeding.Becomes aim (runPipe (left.map some ++ none :: (right.map some ++ none :: tail))
      (left.length + 1) : Prog α) own := by
  rintro shared reply after changed served
  obtain ⟨rfl, rfl⟩ := serve_pipe served
  obtain ⟨readEnd, writeEnd, same, inApart, outApart, ends, table⟩ :=
    addPipe_file standardIn standardOut shared.pipes
  rw [same]
  obtain ⟨rightFound, rightGiven⟩ := right_own right inApart outApart ends table
  refine ⟨?_, False.elim⟩
  rintro pid _ _ _ _ ⟨-, rfl⟩ _ _ _ _ served
  obtain rfl := serve_dup2 rightFound served
  exact becomes_execvp (strings_behind left right tail) _ (aimed _ _ rightGiven)

private theorem target_slot (words : List Text) (target : Text) (tail : List (Option Text)) :
    (words.map some ++ none :: (some target :: tail))[words.length + 1]? = some (some target) := by
  simp

private theorem launch_runRedirection {words : List Text} {target : Text}
    {tail : List (Option Text)} (standardIn : own.table.file 0 ≠ none)
    (standardOut : own.table.file 1 ≠ none)
    (launched : ∀ files, ∀ one : Local,
      commandOf (words, one) = ⟨words, own.table.file 0, some (.regular files target .output)⟩ →
      post {(words, one)}) :
    succeeding.Launch (runRedirection (words.map some ++ none :: (some target :: tail))
      (words.length + 1) : Prog α) own post := by
  simp only [runRedirection, target_slot]
  rintro shared reply after changed served
  obtain ⟨rfl, rfl⟩ := serve_openFile served
  obtain ⟨found, given⟩ := redirected_own words standardIn standardOut
    (.regular shared.files target .output)
  rintro _ _ _ _ served
  obtain rfl := serve_dup2 found served
  rintro _ _ _ _ ⟨-, rfl⟩
  exact launch_execvp (strings_front words _) _ (launched _ _ given)

private theorem becomes_runRedirection {words : List Text} {target : Text}
    {tail : List (Option Text)} (standardIn : own.table.file 0 ≠ none)
    (standardOut : own.table.file 1 ≠ none)
    (aimed : ∀ files, ∀ one : Local,
      commandOf (words, one) = ⟨words, own.table.file 0, some (.regular files target .output)⟩ →
      aim words one) :
    succeeding.Becomes aim (runRedirection (words.map some ++ none :: (some target :: tail))
      (words.length + 1) : Prog α) own := by
  simp only [runRedirection, target_slot]
  rintro shared reply after changed served
  obtain ⟨rfl, rfl⟩ := serve_openFile served
  obtain ⟨found, given⟩ := redirected_own words standardIn standardOut
    (.regular shared.files target .output)
  rintro _ _ _ _ served
  obtain rfl := serve_dup2 found served
  rintro _ _ _ _ ⟨-, rfl⟩
  exact becomes_execvp (strings_front words _) _ (aimed _ _ given)

/-- What the child does on a line; `tail` is what a final `&` leaves behind its `NULL`. -/
inductive ChildRuns (line : Common) : Prog Unit → Prop where
  | command (nothing : line.rest = .nothing) (tail : List (Option Text)) :
      ChildRuns line (runCommand (line.argv.map some ++ none :: tail))
  | pipe {name : Lab.Word} {args : List Lab.Word} {external : Lab.isBuiltin [name.text] = false}
      (rest : line.rest = .pipe name args external) (tail : List (Option Text)) :
      ChildRuns line (runPipe (line.argv.map some ++ none :: ((texts name args).map some ++ none :: tail))
        (line.argv.length + 1))
  | redirection {target : Lab.Word} {further : List Lab.Word}
      (rest : line.rest = .redirection target further) (tail : List (Option Text)) :
      ChildRuns line (runRedirection (line.argv.map some ++ none :: (some target.text :: tail))
        (line.argv.length + 1))

theorem runChild_runs (line : Common) : ∃ code, ChildRuns line code ∧
    runChild (childArgs line) = (do request (.signal SIGINT .default); code) := by
  have plain : ∀ word ∈ line.argv, Lab.operator word = .none := fun word member =>
    (plain_texts _ _ word member).1
  generalize extra : (if line.background then [none] else [] : List (Option Text)) = tail
  cases rest : line.rest with
  | nothing =>
    refine ⟨_, .command rest tail, ?_⟩
    have array : childArgs line = line.argv.map some ++ none :: tail := by
      simp [childArgs, Common.words, rest, Rest.tokens, extra]
    rw [runChild, array, scan_words plain]
    rfl
  | pipe name args external =>
    refine ⟨_, .pipe rest tail, ?_⟩
    have array : childArgs line = line.argv.map some ++ some "|".toList ::
        ((texts name args).map some ++ none :: tail) := by
      simp [childArgs, Common.words, rest, Rest.tokens, extra]
    rw [runChild, array, scan_words plain]
    simp [scan]
  | redirection target further =>
    refine ⟨_, .redirection rest (further.map (some ·.text) ++ none :: tail), ?_⟩
    have array : childArgs line = line.argv.map some ++ some ">".toList ::
        (some target.text :: (further.map (some ·.text) ++ none :: tail)) := by
      simp [childArgs, Common.words, rest, Rest.tokens, extra, texts]
    rw [runChild, array, scan_words plain]
    simp [scan]

/-- The commands of the line, on some file and some pipe. -/
def Fits (line : Common) (stdin stdout : Option File) (launches : Launches (List Text) Local) : Prop :=
  ∃ files pipes, launches.map commandOf = line.commands stdin stdout files pipes

def IsLast (line : Common) (stdin stdout : Option File) (argv : List Text) (own : Local) : Prop :=
  ∃ files pipes, commandOf (argv, own) = line.last stdin stdout files pipes

theorem ChildRuns.launch {line : Common} {code : Prog Unit} (runs : ChildRuns line code)
    (standardIn : own.table.file 0 ≠ none) (standardOut : own.table.file 1 ≠ none) :
    succeeding.Launch code own (Fits line (own.table.file 0) (own.table.file 1)) := by
  cases runs with
  | command nothing tail =>
    refine launch_execvp (strings_front line.argv tail) _ ⟨0, 0, ?_⟩
    simp [Common.commands, nothing, commandOf]
  | pipe rest tail =>
    refine launch_runPipe standardIn standardOut fun pipe one two left right => ⟨0, pipe, ?_⟩
    rw [Multiset.map_add, Multiset.map_singleton, Multiset.map_singleton, left, right]
    simp only [Common.commands, rest]
    rfl
  | redirection rest tail =>
    refine launch_runRedirection standardIn standardOut fun files one given => ⟨files, 0, ?_⟩
    rw [Multiset.map_singleton, given]
    simp [Common.commands, rest]

theorem ChildRuns.becomes {line : Common} {code : Prog Unit} (runs : ChildRuns line code)
    (standardIn : own.table.file 0 ≠ none) (standardOut : own.table.file 1 ≠ none) :
    succeeding.Becomes (IsLast line (own.table.file 0) (own.table.file 1)) code own := by
  cases runs with
  | command nothing tail =>
    refine becomes_execvp (strings_front line.argv tail) _ ⟨0, 0, ?_⟩
    simp [Common.last, nothing, commandOf]
  | pipe rest tail =>
    refine becomes_runPipe standardIn standardOut fun pipe two right => ⟨0, pipe, ?_⟩
    simp [Common.last, rest, right]
  | redirection rest tail =>
    refine becomes_runRedirection standardIn standardOut fun files one given => ⟨files, 0, ?_⟩
    simp [Common.last, rest, given]

theorem serve_total {asked : Call} (possible : asked ≠ .fault) (own : Local) (made : Made) :
    ∃ reply after changed, serve False own made asked reply after changed := by
  cases asked with
  | signal signo disposition => exact ⟨(), _, made, rfl, rfl⟩
  | pipe => exact ⟨_, _, _, .inr ⟨rfl, rfl, rfl⟩⟩
  | openFile path =>
    cases path with
    | none => exact ⟨none, own, made, rfl, rfl, rfl⟩
    | some path => exact ⟨_, _, _, .inr ⟨rfl, rfl, rfl⟩⟩
  | dup2 fd standard =>
    cases found : fd.bind own.table.file with
    | none => exact ⟨false, own, made, rfl, .inl ⟨.inr found, rfl, rfl⟩⟩
    | some file => exact ⟨true, _, made, rfl, .inr ⟨file, found, rfl, rfl⟩⟩
  | close fd => exact ⟨(), _, made, rfl, rfl⟩
  | perror | printf | fprintf => exact ⟨(), own, made, rfl, rfl⟩
  | uname | getenv | getcwd => exact ⟨none, own, made, rfl, rfl⟩
  | chdir directory => exact ⟨true, own, made, rfl, rfl⟩
  | fault => exact (possible rfl).elim

theorem straight_request {asked : Call} (possible : asked ≠ .fault)
    {behind : asked.Reply → Prog β} (straight : ∀ reply, succeeding.Straight (behind reply)) :
    succeeding.Straight (request asked >>= behind) :=
  ⟨serve_total possible, straight⟩

theorem straight_execvp {args : List (Option Text)} {slot : Nat} {argv : List Text}
    (here : strings (args.drop slot) = some argv) (behind : Unit → Prog β) :
    succeeding.Straight (execvp args slot >>= behind) := by
  rw [execvp, here]
  trivial

theorem ChildRuns.straight {line : Common} {code : Prog Unit} (runs : ChildRuns line code) :
    succeeding.Straight code := by
  cases runs with
  | command nothing tail => exact straight_execvp (strings_front line.argv tail) _
  | @pipe name args external rest tail =>
    refine straight_request (by nofun) fun ends => ?_
    rcases ends with - | ⟨readEnd, writeEnd⟩
    · exact straight_request (by nofun) fun _ => trivial
    · refine ⟨?_, fun pid => ?_⟩
      · refine straight_request (by nofun) fun _ => straight_request (by nofun) fun _ => ?_
        exact straight_execvp (strings_front line.argv _) _
      · refine straight_request (by nofun) fun _ => straight_request (by nofun) fun _ => ?_
        exact straight_execvp (strings_behind line.argv (texts name args) tail) _
  | redirection rest tail =>
    simp only [runRedirection, target_slot]
    refine straight_request (by nofun) fun fd => straight_request (by nofun) fun _ => ?_
    exact straight_request (by nofun) fun _ => straight_execvp (strings_front line.argv _) _

theorem straight_child (line : Common) :
    succeeding.Straight (runChild (childArgs line) : Prog Unit) := by
  obtain ⟨code, runs, same⟩ := runChild_runs line
  rw [same]
  exact straight_request (by nofun) fun _ => runs.straight

end Lsnp.Lab2
