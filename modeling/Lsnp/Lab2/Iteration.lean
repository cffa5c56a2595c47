import Lsnp.Interaction.Asking
import Lsnp.Lab.Reading
import Lsnp.Lab2.Runs

/-! One iteration of the loop of `main` of the second mini-shell: `command_parse`, the builtins
(`minishell.c`), `is_executable` and `command_freelist`, in the shell and in its children. -/

namespace Lsnp.Lab2

open Lsnp.Interaction Lsnp.Unix

/-- `func_hostname` -/
def funcHostname (_args : List (Option Text)) : Prog Unit := do
  match ← request .uname with
  | none => request (.perror "uname".toList)
  | some nodename => request (.printf ("hostname: ".toList ++ nodename ++ ['\n']))

/-- `func_cd` -/
def funcCd (args : List (Option Text)) : Prog Unit :=
  match args[2]?, args[1]? with
  | none, _ => fault
  | some (some _), _ => request (.fprintf "cd: too many arguments\n".toList)
  | some none, none => fault
  | some none, some none => do
    let home ← request .getenv
    let _ ← request (.chdir home)
  | some none, some (some directory) => do
    if ← request (.chdir (some directory)) then pure ()
    else request (.perror "chdir".toList)

/-- `func_pwd` -/
def funcPwd (_args : List (Option Text)) : Prog Unit := do
  match ← request .getcwd with
  | none => request (.perror "getcwd".toList)
  | some cwd => request (.printf cwd)

/-- `print_cwd` -/
def printCwd : Prog Unit := do
  match ← request .getcwd with
  | none => request (.perror "getcwd".toList)
  | some cwd => request (.printf (cwd ++ "> ".toList))

def builtinList : List (Text × (List (Option Text) → Prog Unit)) :=
  [("hostname".toList, funcHostname), ("cd".toList, funcCd), ("pwd".toList, funcPwd)]

/-- `__has_builtin__` -/
def hasBuiltin (args : List (Option Text)) : Prog Bool :=
  match args[0]? with
  | some (some cmd) =>
    match builtinList.find? fun entry => entry.1 == cmd with
    | some entry => do
      entry.2 args
      pure true
    | none => pure false
  -- `strcmp` on what is no string
  | _ => fault

/-- `command_freelist`: it reads the array up to its `NULL`. -/
def commandFreelist (args : Option (List (Option Text))) : Prog Unit :=
  match args.bind strings with
  | none => fault
  | some _ => pure ()

/-- `command_parse` -/
def commandParse (line : List Char) : Option (List (Option Text)) :=
  match Lab.commandParse line with
  | [] => none
  | tokens => some (argsOf tokens)

/-- The array as `is_executable` leaves it, with the slot that `is_background` has cut. -/
def afterwards (args : List (Option Text)) : List (Option Text) :=
  ((isBackground args).map Prod.fst).getD args

/-- The iteration of the loop of `main` on a line that `fgets` has read. -/
def iteration (line : List Char) : Prog Unit :=
  if Lab.exits line then exit 0
  else
    match commandParse line with
    | none => do
      commandFreelist none
      printCwd
    | some args => do
      if ← hasBuiltin args then
        commandFreelist (some args)
      else do
        isExecutable args
        commandFreelist (some (afterwards args))
      printCwd

/-- No access out of bounds or through a null pointer, and no null pointer for a program or a
file. -/
def isSafe : Ask Call (List Text) → Prop
  | .exec argv => argv ≠ []
  | .own (.openFile path) => path ≠ none
  | .own .fault => False
  | _ => True

/-- The shell in front of the iteration on this line. Other processes run no code of it. -/
def Begins (line : List Char) (world : World) : Prop :=
  ∃ shell others, world.processes = shell :: others ∧ shell.doing = .running (iteration line) ∧
    ∀ other ∈ others, other.isSettled = true

/-- Whatever the calls reply and in whatever order the processes take their steps, all that the
shell and its children ask is safe. -/
def SafeOn (line : List Char) : Prop :=
  ∀ world, ((platform True).crowd (Begins line)).Reachable world →
    ∀ process ∈ world.processes, ∀ asked, process.Asks asked → isSafe asked

/-- The tokens without a final `&`. -/
def foreground (tokens : List Text) : List Text :=
  if tokens.getLast? = some "&".toList then tokens.dropLast else tokens

def isOperator (token : Text) : Bool := token = "|".toList || token = ">".toList

/-- There is a command in front of the first operator, and something behind it. -/
def Complete (words : List Text) : Prop :=
  words.takeWhile (!isOperator ·) ≠ [] ∧ (words.dropWhile (!isOperator ·)).length ≠ 1

def isBuiltin (tokens : List Text) : Bool :=
  tokens.head?.any fun cmd => builtinList.any fun entry => entry.1 == cmd

/-- The line is not blank and no `cd` alone; if it is not for a builtin, it is complete. -/
def Suited (tokens : List Text) : Prop :=
  tokens ≠ [] ∧ tokens ≠ ["cd".toList] ∧
    (isBuiltin tokens = false → Complete (foreground tokens))

instance (words : List Text) : Decidable (Complete words) :=
  inferInstanceAs (Decidable (_ ∧ _))

instance (tokens : List Text) : Decidable (Suited tokens) :=
  inferInstanceAs (Decidable (_ ∧ _ ∧ (_ → _)))

theorem isBackground_argsOf {tokens : List Text} (filled : tokens ≠ []) : ∃ tail flag,
    isBackground (argsOf tokens) = some ((foreground tokens).map some ++ none :: tail, flag) := by
  unfold foreground
  split
  · rename_i last
    obtain ⟨words, rfl⟩ := List.getLast?_eq_some_iff.mp last
    rw [isBackground_ampersand, List.dropLast_concat]
    exact ⟨[none], false, rfl⟩
  · rename_i last
    rw [isBackground_plain filled last]
    exact ⟨[], true, rfl⟩

/-- What the child does about the words in front of the first operator and the rest. -/
def childOn (front rest : List Text) (tail : List (Option Text)) : Prog Unit :=
  match rest with
  | [] => runCommand (front.map some ++ none :: tail)
  | operator :: behind =>
    let args := front.map some ++ none :: (behind.map some ++ none :: tail)
    if operator = "|".toList then runPipe args (front.length + 1)
    else runRedirection args (front.length + 1)

theorem runChild_eq (words : List Text) (tail : List (Option Text)) :
    runChild (words.map some ++ none :: tail) = (do
      request (.signal SIGINT .default)
      childOn (words.takeWhile (!isOperator ·)) (words.dropWhile (!isOperator ·)) tail) := by
  have whole : words.takeWhile (!isOperator ·) ++ words.dropWhile (!isOperator ·) = words :=
    List.takeWhile_append_dropWhile
  have plain : ∀ word ∈ words.takeWhile (!isOperator ·),
      word ≠ "|".toList ∧ word ≠ ">".toList := fun word member => by
    simpa [isOperator] using List.mem_takeWhile_imp member
  have starts := List.head?_dropWhile_not (!isOperator ·) words
  generalize words.takeWhile (!isOperator ·) = front at whole plain
  generalize words.dropWhile (!isOperator ·) = rest at whole starts
  subst whole
  refine bind_congr fun _ => ?_
  rw [List.map_append, List.append_assoc, scan_plain plain]
  cases rest with
  | nil => simp [scan, childOn]
  | cons operator behind =>
    have either : operator = "|".toList ∨ operator = ">".toList :=
      or_iff_not_imp_left.mpr (by simpa [isOperator] using starts)
    rcases either with rfl | rfl
    · simp [scan, childOn]
    · simp [scan, childOn]

private theorem uses_exit (code : Nat) : (exit code : Prog α).uses isSafe := ⟨trivial, nofun⟩

private theorem uses_execvp {args : List (Option Text)} {slot : Nat} {argv : List Text}
    (found : strings (args.drop slot) = some argv) (some : argv ≠ []) {rest : Unit → Prog α}
    (failed : (rest ()).uses isSafe) : (execvp args slot >>= rest).uses isSafe := by
  rw [execvp, found]
  exact ⟨some, fun _ => failed⟩

private theorem uses_complaint (label : Text) (code : Nat) :
    (do request (.perror label); exit code : Prog α).uses isSafe :=
  ⟨trivial, fun _ => uses_exit code⟩

private theorem uses_runPipe {front behind : List Text} (before : front ≠ []) (after : behind ≠ [])
    (tail : List (Option Text)) :
    (runPipe (front.map some ++ none :: (behind.map some ++ none :: tail)) (front.length + 1) :
      Prog Unit).uses isSafe := by
  refine ⟨trivial, fun ends => ?_⟩
  cases ends with
  | none => exact uses_complaint _ _
  | some ends =>
    refine ⟨trivial, fun reply => ?_⟩
    cases reply with
    | failed => exact uses_complaint _ _
    | child =>
      refine ⟨trivial, fun _ => ⟨trivial, fun _ => ?_⟩⟩
      exact uses_execvp (strings_front front _) before (uses_complaint _ _)
    | parent pid =>
      refine ⟨trivial, fun _ => ⟨trivial, fun _ => ?_⟩⟩
      refine uses_execvp (strings_behind front behind tail) after ?_
      refine ⟨trivial, fun _ => ⟨trivial, fun _ => ⟨trivial, fun waited => ?_⟩⟩⟩
      cases waited with
      | true => exact uses_exit _
      | false => exact uses_complaint _ _

private theorem uses_runRedirection {front behind : List Text} (before : front ≠ [])
    (after : behind ≠ []) (tail : List (Option Text)) :
    (runRedirection (front.map some ++ none :: (behind.map some ++ none :: tail))
      (front.length + 1) : Prog Unit).uses isSafe := by
  obtain ⟨target, further, rfl⟩ := List.exists_cons_of_ne_nil after
  have slot : (front.map some ++ none :: ((target :: further).map some ++ none :: tail))[
      front.length + 1]? = some (some target) := by
    rw [List.getElem?_append_right (by simp)]
    simp
  rw [runRedirection, slot]
  refine ⟨Option.some_ne_none target, fun fd => ⟨trivial, fun _ => ⟨trivial, fun _ => ?_⟩⟩⟩
  exact uses_execvp (strings_front front _) before (uses_exit _)

theorem childOn_uses {front rest : List Text} (before : front ≠ []) (after : rest.length ≠ 1)
    (tail : List (Option Text)) : (childOn front rest tail).uses isSafe := by
  cases rest with
  | nil => exact uses_execvp (strings_front front tail) before (uses_complaint _ _)
  | cons operator behind =>
    have filled : behind ≠ [] := by
      rintro rfl
      exact after rfl
    simp only [childOn]
    split
    · exact uses_runPipe before filled tail
    · exact uses_runRedirection before filled tail

/-- The code, or a process that it forks, may come to a call that is not safe. -/
def Misuses (code : Prog α) (own : Local) (made : Made) : Prop :=
  ∃ asked, ¬ isSafe asked ∧ (platform True).MayAsk asked code own made

section

variable {asked : Ask Call (List Text)} {own : Local} {made : Made}

private theorem mayAsk_execvp {args : List (Option Text)} {slot : Nat}
    (found : strings (args.drop slot) = some []) (rest : Unit → Prog α) :
    (platform True).MayAsk (.exec []) (execvp args slot >>= rest) own made := by
  rw [execvp, found]
  exact .here

private theorem mayAsk_signal {signo : Signo} {disposition : Disposition} {rest : Unit → Prog α}
    (next : (platform True).MayAsk asked (rest ())
      ⟨own.table, sigaction own.dispositions signo disposition⟩ made) :
    (platform True).MayAsk asked (request (.signal signo disposition) >>= rest) own made :=
  .own ⟨rfl, rfl⟩ next

private theorem mayAsk_close (fd : Option Fd) {rest : Unit → Prog α}
    (next : (platform True).MayAsk asked (rest ()) (fd.elim own own.drop) made) :
    (platform True).MayAsk asked (request (.close fd) >>= rest) own made :=
  .own ⟨rfl, rfl⟩ next

private theorem mayAsk_dup2 (fd : Option Fd) (standard : Fd) {rest : Bool → Prog α}
    (next : (platform True).MayAsk asked (rest false) own made) :
    (platform True).MayAsk asked (request (.dup2 fd standard) >>= rest) own made :=
  .own ⟨rfl, .inl ⟨.inl trivial, rfl, rfl⟩⟩ next

private theorem mayAsk_runPipe {front behind : List Text} (missing : front = [] ∨ behind = [])
    (tail : List (Option Text)) :
    (platform True).MayAsk (.exec []) (runPipe (front.map some ++ none :: (behind.map some ++
      none :: tail)) (front.length + 1) : Prog Unit) own made := by
  have piped : serve True own made .pipe (some (own.pipeEnds made.pipes)) (own.addPipe made.pipes)
      { made with pipes := made.pipes + 1 } := .inr ⟨rfl, rfl, rfl⟩
  refine .own piped ?_
  rcases missing with rfl | rfl
  · exact .child (mayAsk_close _ (mayAsk_dup2 _ _ (mayAsk_execvp (strings_front [] _) _)))
  · refine .parent fun pid => mayAsk_close _ (mayAsk_dup2 _ _ ?_)
    exact mayAsk_execvp (strings_behind front [] tail) _

private theorem mayAsk_runRedirection {target : Text} (further : List Text)
    (tail : List (Option Text)) :
    (platform True).MayAsk (.exec []) (runRedirection (none :: (some target :: further.map some ++
      none :: tail)) 1 : Prog Unit) own made := by
  refine .own (.inl ⟨trivial, rfl, rfl, rfl⟩) (mayAsk_dup2 _ _ (mayAsk_close _ ?_))
  exact mayAsk_execvp rfl _

theorem childOn_misuses {front rest : List Text} (missing : front = [] ∨ rest.length = 1)
    (tail : List (Option Text)) : Misuses (childOn front rest tail) own made := by
  have unnamed : ¬ isSafe (.exec []) := fun safe => safe rfl
  cases rest with
  | nil =>
    obtain rfl : front = [] := missing.resolve_right (by simp)
    exact ⟨.exec [], unnamed, mayAsk_execvp (strings_front [] tail) _⟩
  | cons operator behind =>
    have either : front = [] ∨ behind = [] := missing.imp_right (by simp)
    simp only [childOn]
    split
    · exact ⟨.exec [], unnamed, mayAsk_runPipe either tail⟩
    · cases behind with
      | nil =>
        have slot : (front.map some ++ none :: (([] : List Text).map some ++ none :: tail))[
            front.length + 1]? = some none := by simp
        rw [runRedirection, slot]
        exact ⟨.own (.openFile none), fun safe => safe rfl, .here⟩
      | cons target further =>
        obtain rfl : front = [] := either.resolve_right (List.cons_ne_nil _ _)
        exact ⟨.exec [], unnamed, mayAsk_runRedirection further tail⟩

end

private theorem find_builtin (cmd : Text) (rest : List Text) :
    (builtinList.find? fun entry => entry.1 == cmd).isSome = isBuiltin (cmd :: rest) :=
  List.isSome_find? ..

private theorem hasBuiltin_external {tokens : List Text} (filled : tokens ≠ [])
    (external : isBuiltin tokens = false) : hasBuiltin (argsOf tokens) = pure false := by
  obtain ⟨cmd, rest, rfl⟩ := List.exists_cons_of_ne_nil filled
  rw [← find_builtin, Option.isSome_eq_false_iff, Option.isNone_iff_eq_none] at external
  simp [hasBuiltin, argsOf, external]

private theorem funcCd_uses {args : List (Option Text)} (room : 2 < args.length) :
    (funcCd args).uses isSafe := by
  unfold funcCd
  split
  · rename_i beyond
    exact absurd room (Nat.not_lt.mpr (List.getElem?_eq_none_iff.mp beyond))
  · exact ⟨trivial, fun _ => trivial⟩
  · rename_i beyond
    have within := List.getElem?_eq_none_iff.mp beyond
    omega
  · exact ⟨trivial, fun _ => ⟨trivial, fun _ => trivial⟩⟩
  · refine ⟨trivial, fun entered => ?_⟩
    cases entered with
    | true => trivial
    | false => exact ⟨trivial, fun _ => trivial⟩

private theorem funcHostname_uses (args : List (Option Text)) : (funcHostname args).uses isSafe := by
  refine ⟨trivial, fun nodename => ?_⟩
  cases nodename <;> exact ⟨trivial, fun _ => trivial⟩

private theorem funcPwd_uses (args : List (Option Text)) : (funcPwd args).uses isSafe := by
  refine ⟨trivial, fun cwd => ?_⟩
  cases cwd <;> exact ⟨trivial, fun _ => trivial⟩

private theorem printCwd_uses : printCwd.uses isSafe := by
  refine ⟨trivial, fun cwd => ?_⟩
  cases cwd <;> exact ⟨trivial, fun _ => trivial⟩

private theorem hasBuiltin_uses {tokens : List Text} (filled : tokens ≠ [])
    (other : tokens ≠ ["cd".toList]) : (hasBuiltin (argsOf tokens)).uses isSafe := by
  obtain ⟨cmd, rest, rfl⟩ := List.exists_cons_of_ne_nil filled
  have first : (argsOf (cmd :: rest))[0]? = some (some cmd) := rfl
  rw [hasBuiltin, first]
  simp only
  split
  · rename_i entry found
    have named := List.find?_some found
    refine Program.uses_bind ?_ fun _ => trivial
    have among := List.mem_of_find?_eq_some found
    simp only [builtinList, List.mem_cons, List.not_mem_nil, or_false] at among
    rcases among with rfl | rfl | rfl
    · exact funcHostname_uses (argsOf (cmd :: rest))
    · obtain rfl : "cd".toList = cmd := by simpa using named
      refine funcCd_uses ?_
      cases rest with
      | nil => exact (other rfl).elim
      | cons directory rest => simp [argsOf]
    · exact funcPwd_uses (argsOf (cmd :: rest))
  · trivial

private theorem hasBuiltin_gives {tokens : List Text} (filled : tokens ≠ []) :
    (hasBuiltin (argsOf tokens)).gives fun found => found = false → isBuiltin tokens = false := by
  obtain ⟨cmd, rest, rfl⟩ := List.exists_cons_of_ne_nil filled
  have first : (argsOf (cmd :: rest))[0]? = some (some cmd) := rfl
  rw [hasBuiltin, first, ← find_builtin]
  simp only
  split
  · exact (Program.gives_bind _ _).mpr (Program.gives_of_forall _ fun _ => nofun)
  · rename_i none
    exact fun _ => by rw [none]; rfl

private theorem isExecutable_uses {tokens : List Text} (filled : tokens ≠ [])
    (complete : Complete (foreground tokens)) : (isExecutable (argsOf tokens)).uses isSafe := by
  obtain ⟨tail, flag, cut⟩ := isBackground_argsOf filled
  rw [isExecutable, cut]
  refine ⟨trivial, fun reply => ?_⟩
  cases reply with
  | failed => exact uses_complaint _ _
  | child =>
    simp only [runChild_eq]
    exact ⟨trivial, fun _ => childOn_uses complete.1 complete.2 tail⟩
  | parent pid =>
    cases flag with
    | true => exact ⟨trivial, fun _ => trivial⟩
    | false => trivial

private theorem iteration_filled {line : List Char} (other : Lab.exits line = false)
    (filled : Lab.commandParse line ≠ []) :
    iteration line = (do
      if ← hasBuiltin (argsOf (Lab.commandParse line)) then
        commandFreelist (some (argsOf (Lab.commandParse line)))
      else do
        isExecutable (argsOf (Lab.commandParse line))
        commandFreelist (some (afterwards (argsOf (Lab.commandParse line))))
      printCwd) := by
  have parsed : commandParse line = some (argsOf (Lab.commandParse line)) := by
    unfold commandParse
    split
    · rename_i blank
      exact (filled blank).elim
    · rfl
  rw [iteration, other, parsed]
  rfl

private theorem freed {tokens : List Text} (tail : List (Option Text)) :
    commandFreelist (some (tokens.map some ++ none :: tail)) = pure () := by
  rw [commandFreelist, Option.bind_some, strings_words]

theorem iteration_uses {line : List Char} (other : Lab.exits line = false)
    (suited : Suited (Lab.commandParse line)) : (iteration line).uses isSafe := by
  obtain ⟨filled, directory, complete⟩ := suited
  rw [iteration_filled other filled]
  refine Program.uses_bind_of_gives (hasBuiltin_uses filled directory) (hasBuiltin_gives filled) ?_
  intro found external
  cases found with
  | true =>
    simp only [if_true]
    rw [argsOf, freed, pure_bind]
    exact printCwd_uses
  | false =>
    simp only [Bool.false_eq_true, if_false]
    refine Program.uses_bind (isExecutable_uses filled (complete (external rfl))) fun _ => ?_
    obtain ⟨tail, flag, cut⟩ := isBackground_argsOf filled
    rw [afterwards, cut, Option.map_some, Option.getD_some, freed, pure_bind]
    exact printCwd_uses

/-- On any other line a null pointer or a slot beyond the array may be used. -/
theorem iteration_misuses {line : List Char} (other : Lab.exits line = false)
    (unsuited : ¬ Suited (Lab.commandParse line)) (own : Local) (made : Made) :
    Misuses (iteration line) own made := by
  have faults : ¬ isSafe (.own .fault) := id
  by_cases filled : Lab.commandParse line = []
  · refine ⟨.own .fault, faults, ?_⟩
    have parsed : commandParse line = none := by simp [commandParse, filled]
    rw [iteration, other, parsed]
    exact .here
  rw [iteration_filled other filled]
  by_cases directory : Lab.commandParse line = ["cd".toList]
  · refine ⟨.own .fault, faults, ?_⟩
    rw [directory]
    have runs : hasBuiltin (argsOf ["cd".toList]) = (do
        funcCd (argsOf ["cd".toList])
        pure true) := by simp [hasBuiltin, argsOf, builtinList]
    rw [runs]
    exact .bind (.bind .here _) _
  by_cases external : isBuiltin (Lab.commandParse line) = false
  · have incomplete : ¬ Complete (foreground (Lab.commandParse line)) := fun complete =>
      unsuited ⟨filled, directory, fun _ => complete⟩
    obtain ⟨tail, flag, cut⟩ := isBackground_argsOf filled
    have missing : (foreground (Lab.commandParse line)).takeWhile (!isOperator ·) = [] ∨
        ((foreground (Lab.commandParse line)).dropWhile (!isOperator ·)).length = 1 := by
      rw [Complete, not_and_or, not_not, not_not] at incomplete
      exact incomplete
    let child : Local := ⟨own.table, sigaction own.dispositions SIGINT .default⟩
    have misuses : Misuses _ child made := childOn_misuses missing tail
    obtain ⟨asked, bad, may⟩ := misuses
    refine ⟨asked, bad, ?_⟩
    rw [hasBuiltin_external filled external, pure_bind]
    simp only [Bool.false_eq_true, if_false]
    refine Platform.MayAsk.bind ?_ _
    rw [isExecutable, cut]
    refine .child ?_
    simp only [runChild_eq]
    exact mayAsk_signal may
  · exact (unsuited ⟨filled, directory, fun none => absurd none external⟩).elim

private theorem not_safeOn_of_unsuited {line : List Char} (other : Lab.exits line = false)
    (unsuited : ¬ Suited (Lab.commandParse line)) : ¬ SafeOn line := by
  intro safe
  let own : Local := ⟨⟨[]⟩, fun _ => .default⟩
  let world : World := ⟨⟨0, 0⟩, [⟨own, 0, 0, .running (iteration line), false⟩]⟩
  have begins : ((platform True).crowd (Begins line)).Reachable world :=
    .start ⟨_, [], rfl, rfl, nofun⟩
  obtain ⟨asked, bad, may⟩ := iteration_misuses other unsuited own ⟨0, 0⟩
  obtain ⟨later, reachable, process, member, asks⟩ :=
    may.reachable begins (List.nil_append _).symm rfl rfl rfl
  exact bad (safe later reachable process member asked asks)

/-- The iteration is safe exactly on the lines that it is suited for. -/
theorem safeOn_iff (line : List Char) (other : Lab.exits line = false) :
    SafeOn line ↔ Suited (Lab.commandParse line) := by
  refine ⟨fun safe => by_contra fun unsuited => not_safeOn_of_unsuited other unsuited safe, ?_⟩
  intro suited world reachable process member asked asks
  have uses : world.Uses isSafe := by
    refine Platform.uses_of_reachable ?_ reachable
    rintro crowd ⟨shell, others, same, runs, settled⟩ one among code doing
    rw [same] at among
    rcases List.mem_cons.mp among with rfl | beside
    · rw [runs] at doing
      cases doing
      exact iteration_uses other suited
    · have ended := settled one beside
      rw [Process.isSettled, doing] at ended
      cases code with
      | done value => trivial
      | ask made next => cases ended
  obtain ⟨next, doing⟩ := asks
  exact (uses process member _ doing).1

/-- A pipe between two commands. -/
theorem safeOn_iff_pipe : SafeOn "ls | wc &\n".toList :=
  (safeOn_iff "ls | wc &\n".toList (by decide)).mpr (by decide)

/-- An empty line is no array, for `cd` alone it is too short, and there is no command in front
of a `|` and no file behind a `>`. -/
theorem not_safeOn : ¬ SafeOn "\n".toList ∧ ¬ SafeOn "cd\n".toList ∧ ¬ SafeOn "| wc\n".toList ∧
    ¬ SafeOn "ls >\n".toList :=
  ⟨not_safeOn_of_unsuited (by decide) (by decide), not_safeOn_of_unsuited (by decide) (by decide),
    not_safeOn_of_unsuited (by decide) (by decide), not_safeOn_of_unsuited (by decide) (by decide)⟩

end Lsnp.Lab2
