import Lsnp.Lab.IsExecutable
import Lsnp.Libc.Stdio
import Lsnp.Libc.Strtok

/-! The lines that are typed: the loop of `main` (`main.c`) on the text of `stdin`, and
`command_parse` (`parsing.c`). -/

namespace Lsnp.Lab

open Lsnp.Interaction Lsnp.Unix Lsnp.Libc

def MAXLINE : Nat := 255

/-- `" \t\n"` -/
def delim : List Char := [' ', '\t', '\n']

/-- The calls of `strtok`, at most so many, with the copies that are made of the tokens. -/
def copyTokens : Nat → List Char → Nat → List Text
  | 0, _, _ => []
  | calls + 1, memory, offset =>
    let found := strtok delim memory offset
    match found.token with
    | none => []
    | some start => cString (found.memory.drop start) :: copyTokens calls found.memory found.cursor

/-- `command_parse(line)`; a blank line, for which it returns `NULL`, has no tokens. -/
def commandParse (line : List Char) : List Text :=
  copyTokens (line.length + 1) line 0

/-- `!strncmp(line, "exit", 4)` -/
def exits (line : List Char) : Bool :=
  "exit".toList.isPrefixOf line

/-- The loop of `main`, whose calls of `fgets` read these lines. -/
def mainLoop : List (List Char) → Prog Unit
  | [] => Sys.fgets
  | line :: rest => do
    Sys.fgets
    if exits line then pure ()
    else do
      dispatch (commandParse line)
      Sys.printf prompt
      mainLoop rest

/-- What a reader of lines does about one. -/
inductive Action where
  | run (tokens : List Text)
  | exit
  deriving DecidableEq, Repr

/-- Nothing is done behind `exit`. -/
def untilExit : List Action → List Action
  | [] => []
  | .exit :: _ => [.exit]
  | .run tokens :: rest => .run tokens :: untilExit rest

/-- The body of the loop of `main`. -/
def act (line : List Char) : Option Action :=
  if exits line then some .exit
  else
    match commandParse line with
    | [] => none
    | tokens => some (.run tokens)

/-- The actions of the loop of `main` on this text, which is what its own reads get. Nothing else moves
the offset of `stdin`: where it can be sought, a child that fails in `execvp` moves it back when it
calls `exit`. -/
def mainActions (stdin : List Char) : List Action :=
  untilExit ((pieces MAXLINE stdin).filterMap act)

def interpret (line : List Char) : Option Action :=
  match tokens delim line with
  | [] => none
  | cmd :: args => if cmd = "exit".toList then some .exit else some (.run (cmd :: args))

def reference (stdin : List Char) : List Action :=
  untilExit ((lines stdin).filterMap interpret)

/-- The lines up to the first one whose first token is `exit`. -/
def reached : List (List Char) → List (List Char)
  | [] => []
  | line :: rest => line :: if interpret line = some .exit then [] else reached rest

def filled (line : List Char) : List (List Char) :=
  (pieces MAXLINE line).filter fun piece => !piece.all (· ∈ delim)

/-- All that is no blank in a line is in one piece, which does not start with `exit`; if the
first token of the line is `exit`, the first piece with a token starts with it. -/
def Faithful (line : List Char) : Prop :=
  if interpret line = some .exit then (filled line).head?.any exits = true
  else (filled line).length ≤ 1 ∧ ∀ piece ∈ filled line, exits piece = false

instance (line : List Char) : Decidable (Faithful line) :=
  inferInstanceAs (Decidable (if interpret line = some .exit then
    (filled line).head?.any exits = true
    else (filled line).length ≤ 1 ∧ ∀ piece ∈ filled line, exits piece = false))

private theorem copyTokens_eq {calls : Nat} {memory : List Char} {offset : Nat}
    (enough : (tokens delim (cString (memory.drop offset))).length < calls) :
    copyTokens calls memory offset = tokens delim (cString (memory.drop offset)) := by
  induction calls generalizing memory offset with
  | zero => exact (Nat.not_lt_zero _ enough).elim
  | succ calls ih =>
    rw [copyTokens]
    cases found : tokens delim (cString (memory.drop offset)) with
    | nil => simp only [strtok_none found]
    | cons word more =>
      obtain ⟨start, token, string, behind⟩ := strtok_some found
      simp only [token, string]
      rw [ih, behind]
      rw [behind]
      rw [found, List.length_cons] at enough
      exact Nat.lt_of_succ_lt_succ enough

theorem commandParse_eq (line : List Char) : commandParse line = tokens delim (cString line) := by
  apply copyTokens_eq
  rw [List.drop_zero]
  have short := length_tokens_le delim (cString line)
  have string := length_cString_le line
  omega

theorem full_commandParse (line : List Char) : ∀ token ∈ commandParse line, token ≠ [] := by
  rw [commandParse_eq]
  exact fun _ => ne_nil_of_mem_tokens

/-- The loop runs the lines in front of the first one that starts with `exit`. -/
theorem mainLoop_eq (lines : List (List Char)) :
    mainLoop lines =
      session ((lines.takeWhile fun line => !exits line).map commandParse) >>= fun _ =>
        Sys.fgets := by
  induction lines with
  | nil => rfl
  | cons line rest ih =>
    rw [mainLoop, List.takeWhile_cons]
    cases exits line with
    | true => rfl
    | false =>
      simp only [Bool.not_false, if_true, Bool.false_eq_true, if_false, List.map_cons, session,
        runLine, bind_assoc, ih]

def Action.tokens? : Action → Option (List Text)
  | .run tokens => some tokens
  | .exit => none

theorem tokens?_actions (stdin : List Char) :
    (mainActions stdin).filterMap Action.tokens? =
      (((pieces MAXLINE stdin).takeWhile fun line => !exits line).map commandParse).filter
        (· ≠ []) := by
  rw [mainActions]
  induction pieces MAXLINE stdin with
  | nil => rfl
  | cons piece more ih =>
    rw [List.filterMap_cons, List.takeWhile_cons, act]
    cases exits piece with
    | true => rfl
    | false =>
      cases parsed : commandParse piece with
      | nil => simpa [parsed] using ih
      | cons cmd args => simpa [parsed, untilExit, Action.tokens?] using ih

variable {line piece : List Char} {more : List (List Char)}

private theorem maxline_roomy : 1 < MAXLINE := by
  decide

private theorem blank_iff (piece : List Char) :
    piece.all (· ∈ delim) = true ↔ tokens delim piece = [] := by
  rw [tokens_eq_nil]
  simp

private theorem exits_of_blank (blank : piece.all (· ∈ delim) = true) : exits piece = false := by
  cases piece with
  | nil => rfl
  | cons char piece =>
    have other : char ≠ 'e' := by
      rintro rfl
      simp [delim] at blank
    simp [exits, List.isPrefixOf, other.symm]

private theorem act_eq (free : nul ∉ piece) :
    act piece = if exits piece then some .exit
      else if tokens delim piece = [] then none else some (.run (tokens delim piece)) := by
  rw [act, commandParse_eq, cString_of_notMem free]
  cases exits piece with
  | true => rfl
  | false =>
    cases tokens delim piece with
    | nil => rfl
    | cons cmd args => rfl

private theorem act_blank (free : nul ∉ piece) (blank : piece.all (· ∈ delim) = true) :
    act piece = none := by
  rw [act_eq free, exits_of_blank blank, (blank_iff piece).mp blank]
  rfl

private theorem nul_notMem_pieces (free : nul ∉ line) (member : piece ∈ pieces MAXLINE line) :
    nul ∉ piece := by
  intro inside
  apply free
  rw [← flatten_pieces maxline_roomy line]
  exact List.mem_flatten.mpr ⟨piece, member, inside⟩

private theorem filled_eq_cons (some : filled line = piece :: more) :
    ∃ behind, tokens delim line = tokens delim (piece ++ behind) ∧
      tokens delim piece ≠ [] ∧ (more = [] ↔ ∀ char ∈ behind, char ∈ delim) := by
  obtain ⟨before, after, split, blank, visible, rest⟩ := List.filter_eq_cons_iff.mp some
  have front : ∀ char ∈ before.flatten, char ∈ delim := by
    intro char member
    obtain ⟨other, inside, here⟩ := List.mem_flatten.mp member
    have all := blank other inside
    simp only [Bool.not_eq_true', Bool.not_eq_false, List.all_eq_true, decide_eq_true_eq] at all
    exact all char here
  refine ⟨after.flatten, ?_, ?_, ?_⟩
  · rw [← flatten_pieces maxline_roomy line, split, List.flatten_append, List.flatten_cons,
      tokens_blank_append front]
  · rw [Ne, ← blank_iff]
    simpa using visible
  · rw [← rest, List.filter_eq_nil_iff]
    simp only [Bool.not_eq_true', Bool.not_eq_false, List.all_eq_true, decide_eq_true_eq,
      List.mem_flatten]
    constructor
    · rintro all char ⟨other, inside, here⟩
      exact all other inside char here
    · intro all other inside char here
      exact all char ⟨other, inside, here⟩

private theorem filled_eq_nil (none : filled line = []) : tokens delim line = [] := by
  apply tokens_eq_nil.mpr
  intro char member
  rw [← flatten_pieces maxline_roomy line] at member
  obtain ⟨piece, inside, here⟩ := List.mem_flatten.mp member
  have blank := List.filter_eq_nil_iff.mp none piece inside
  simp only [Bool.not_eq_true', Bool.not_eq_false, List.all_eq_true, decide_eq_true_eq] at blank
  exact blank char here

private theorem tokens_append_ne (piece : List Char) {behind : List Char}
    (visible : ¬ ∀ char ∈ behind, char ∈ delim) :
    tokens delim (piece ++ behind) ≠ tokens delim piece := by
  intro same
  have flat := congrArg List.flatten same
  rw [flatten_tokens, flatten_tokens, List.filter_append] at flat
  have nothing := List.append_right_eq_self.mp flat
  apply visible
  intro char member
  simpa using List.filter_eq_nil_iff.mp nothing char member

private theorem filterMap_act (free : nul ∉ line) :
    (pieces MAXLINE line).filterMap act = (filled line).filterMap act := by
  have blank : ∀ piece ∈ pieces MAXLINE line, piece.all (· ∈ delim) = true → act piece = none :=
    fun piece member => act_blank (nul_notMem_pieces free member)
  rw [filled]
  generalize pieces MAXLINE line = all at blank
  induction all with
  | nil => rfl
  | cons piece more ih =>
    have rest := ih fun other member => blank other (List.mem_cons_of_mem _ member)
    cases all : piece.all (· ∈ delim) with
    | true =>
      rw [List.filterMap_cons, blank piece (List.mem_cons_self ..) all,
        List.filter_cons_of_neg (by simp [all])]
      exact rest
    | false =>
      rw [List.filterMap_cons, List.filter_cons_of_pos (by simp [all]), List.filterMap_cons, rest]

/-- The loop does about the pieces of a line what the reader does about the line. -/
private def SameActions (line : List Char) : Prop :=
  ∀ rest, untilExit ((pieces MAXLINE line).filterMap act ++ rest) =
    untilExit ((interpret line).toList ++ rest)

/-- It does something else, whatever comes behind the line. -/
private def OtherActions (line : List Char) : Prop :=
  ∀ rest rest', untilExit ((pieces MAXLINE line).filterMap act ++ rest) ≠
    untilExit ((interpret line).toList ++ rest')

private theorem interpret_eq_none : interpret line = none ↔ tokens delim line = [] := by
  rw [interpret]
  split
  · rename_i none
    simp [none]
  · rename_i some
    rw [some]
    split
    · simp
    · simp

private theorem interpret_eq_run {words : List Text} (run : interpret line = some (.run words)) :
    tokens delim line = words := by
  rw [interpret] at run
  split at run
  · cases run
  · rename_i some
    split at run
    · cases run
    · cases run
      exact some

private theorem faithful_cases (free : nul ∉ line) :
    (Faithful line ∧ SameActions line) ∨ (¬ Faithful line ∧ OtherActions line) := by
  rw [SameActions, OtherActions, filterMap_act free]
  cases shown : filled line with
  | nil =>
    have none := interpret_eq_none.mpr (filled_eq_nil shown)
    left
    simp [Faithful, none, shown]
  | cons piece more =>
    have member : piece ∈ pieces MAXLINE line :=
      List.mem_of_mem_filter (shown ▸ List.mem_cons_self .. : piece ∈ filled line)
    have first := act_eq (nul_notMem_pieces free member)
    obtain ⟨behind, whole, visible, alone⟩ := filled_eq_cons shown
    rw [if_neg visible] at first
    cases does : interpret line with
    | none =>
      have nothing := interpret_eq_none.mp does
      rw [whole, tokens_eq_nil] at nothing
      rw [Ne, tokens_eq_nil] at visible
      exact (visible fun char member => nothing char (List.mem_append_left _ member)).elim
    | some action =>
      cases action with
      | exit =>
        cases exit : exits piece with
        | true =>
          rw [if_pos exit] at first
          left
          exact ⟨by simp [Faithful, does, shown, exit], fun rest => by simp [first, untilExit]⟩
        | false =>
          rw [if_neg (by simp [exit])] at first
          right
          exact ⟨by simp [Faithful, does, shown, exit], fun rest rest' => by simp [first, untilExit]⟩
      | run words =>
        have same := interpret_eq_run does
        rw [whole] at same
        cases exit : exits piece with
        | true =>
          rw [if_pos exit] at first
          right
          exact ⟨by simp [Faithful, does, shown, exit], fun rest rest' => by simp [first, untilExit]⟩
        | false =>
          rw [if_neg (by simp [exit])] at first
          by_cases last : more = []
          · left
            rw [tokens_append_blank (alone.mp last)] at same
            refine ⟨?_, fun rest => ?_⟩
            · simp [Faithful, does, shown, exit, last]
            · simp [first, last, same]
          · right
            refine ⟨?_, fun rest rest' => ?_⟩
            · simp [Faithful, does, shown, last]
            · have other := tokens_append_ne piece fun blank => last (alone.mpr blank)
              rw [same] at other
              simp [first, untilExit, other.symm]

private theorem untilExit_cons (action : Action) (rest : List Action) :
    untilExit (action :: rest) = action :: if action = .exit then [] else untilExit rest := by
  cases action with
  | exit => rfl
  | run tokens => rfl

private theorem lines_faithful {all : List (List Char)} (free : ∀ line ∈ all, nul ∉ line) :
    untilExit ((all.flatMap (pieces MAXLINE)).filterMap act) = untilExit (all.filterMap interpret) ↔
      ∀ line ∈ reached all, Faithful line := by
  induction all with
  | nil => simp [reached]
  | cons line all ih =>
    have ih := ih fun other member => free other (List.mem_cons_of_mem _ member)
    have split : (line :: all).filterMap interpret =
        (interpret line).toList ++ all.filterMap interpret := by
      cases does : interpret line with
      | none => simp [does]
      | some action => simp [does]
    rw [List.flatMap_cons, List.filterMap_append, split, reached]
    rcases faithful_cases (free line (List.mem_cons_self ..)) with ⟨faithful, same⟩ | ⟨not, other⟩
    · rw [same, List.forall_mem_cons]
      cases does : interpret line with
      | none => simpa [faithful] using ih
      | some action =>
        cases action with
        | exit => simp [faithful, untilExit]
        | run tokens => simpa [faithful, untilExit] using ih
    · apply iff_of_false (other _ _)
      exact fun all => not (all line (List.mem_cons_self ..))

/-- The loop of `main` does what the reference reader does exactly if the lines up to the first
one with `exit` are read faithfully. -/
theorem mainActions_eq_iff (stdin : CString) :
    mainActions stdin.chars = reference stdin.chars ↔
      ∀ line ∈ reached (lines stdin.chars), Faithful line := by
  rw [mainActions, reference, pieces_eq_lines maxline_roomy]
  exact lines_faithful (nul_notMem_lines stdin)

/-- What is done about a line that fits in the array: it ends the shell where it starts with
`exit`. -/
def interpretStart (line : List Char) : Option Action :=
  if exits line then some .exit
  else
    match tokens delim line with
    | [] => none
    | words => some (.run words)

def readLines (stdin : List Char) : List Action :=
  untilExit ((lines stdin).filterMap interpretStart)

private theorem act_of_exits (whole : Libc.line line = line) (exit : exits line = true) :
    ∃ more, (pieces MAXLINE line).filterMap act = .exit :: more := by
  rcases pieces_cases maxline_roomy line with ⟨rfl, -⟩ | ⟨read, rest, found, -, -, -, cut⟩
  · cases exit
  · have starts : exits read = true := by
      rw [(fgets_eq_some found).1, piece_eq_take, whole, ← exit]
      exact isPrefixOf_take (by decide : "exit".toList.length ≤ MAXLINE - 1) line
    exact ⟨(pieces MAXLINE rest).filterMap act, by simp [cut, act, starts]⟩

private theorem act_of_fits (free : nul ∉ line) (whole : Libc.line line = line) (filled : line ≠ [])
    (fits : line.length < MAXLINE) :
    (pieces MAXLINE line).filterMap act = (interpretStart line).toList := by
  rw [pieces_of_line whole filled fits]
  have same : act line = interpretStart line := by
    rw [act, interpretStart, commandParse_eq, cString_of_notMem free]
    rfl
  rw [List.filterMap_cons, same]
  cases interpretStart line with
  | none => rfl
  | some action => rfl

private theorem lines_fit {all : List (List Char)} (free : ∀ line ∈ all, nul ∉ line)
    (shape : ∀ line ∈ all, Libc.line line = line ∧ line ≠ [])
    (fit : ∀ line ∈ all.takeWhile fun line => !exits line, line.length < MAXLINE) :
    untilExit ((all.flatMap (pieces MAXLINE)).filterMap act) =
      untilExit (all.filterMap interpretStart) := by
  induction all with
  | nil => rfl
  | cons line all ih =>
    obtain ⟨whole, filled⟩ := shape line (List.mem_cons_self ..)
    rw [List.flatMap_cons, List.filterMap_append, List.filterMap_cons]
    cases exit : exits line with
    | true =>
      obtain ⟨more, first⟩ := act_of_exits whole exit
      simp [first, interpretStart, exit, untilExit]
    | false =>
      rw [List.takeWhile_cons_of_pos (by simp [exit]), List.forall_mem_cons] at fit
      have rest := ih (fun other member => free other (List.mem_cons_of_mem _ member))
        (fun other member => shape other (List.mem_cons_of_mem _ member)) fit.2
      rw [act_of_fits (free line (List.mem_cons_self ..)) whole filled fit.1]
      cases does : interpretStart line with
      | none => simpa using rest
      | some action =>
        simp only [Option.toList_some, List.cons_append, List.nil_append, untilExit_cons, rest]

/-- The loop of `main` does what a reader of whole lines does that stops at the first line
that starts with `exit`, if the lines in front of it fit in the array. -/
theorem mainActions_eq_readLines (stdin : CString)
    (fit : ∀ line ∈ (lines stdin.chars).takeWhile fun line => !exits line, line.length < MAXLINE) :
    mainActions stdin.chars = readLines stdin.chars := by
  rw [mainActions, readLines, pieces_eq_lines maxline_roomy]
  exact lines_fit (nul_notMem_lines stdin) (fun _ => line_of_mem_lines) fit

/-- `ls -l` and the end of the input. -/
theorem mainActions_eq_readLines_ls : mainActions ['l', 's', ' ', '-', 'l', '\n'] =
    readLines ['l', 's', ' ', '-', 'l', '\n'] := by
  apply mainActions_eq_readLines ⟨['l', 's', ' ', '-', 'l', '\n'], by decide⟩
  have only : lines ['l', 's', ' ', '-', 'l', '\n'] = [['l', 's', ' ', '-', 'l', '\n']] := by
    simp [lines, Libc.line]
  rw [only]
  decide

/-- A blank in front of `exit`. -/
theorem mainActions_ne_reference : ¬ ∀ stdin : CString, mainActions stdin.chars = reference stdin.chars := by
  intro claimed
  have same := claimed ⟨[' ', 'e', 'x', 'i', 't'], by decide⟩
  have only : lines [' ', 'e', 'x', 'i', 't'] = [[' ', 'e', 'x', 'i', 't']] := by
    simp [lines, Libc.line]
  have piece : pieces MAXLINE [' ', 'e', 'x', 'i', 't'] = [[' ', 'e', 'x', 'i', 't']] :=
    pieces_of_line (by decide) (by decide) (by decide)
  rw [mainActions, reference, only, piece] at same
  revert same
  decide

end Lsnp.Lab
