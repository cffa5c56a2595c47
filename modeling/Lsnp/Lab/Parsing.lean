import Lsnp.Lab.Reading

/-! `command_parse` (`parsing.c`) with the array that it fills: one slot is asked for at the
start, and one more behind each token that has been stored. -/

namespace Lsnp.Lab

open Lsnp.Unix Lsnp.Libc

/-- A slot of `arglist`; what `malloc` and `realloc` give is `garbage`. -/
inductive Slot where
  | garbage
  | null
  | token (text : Text)
  deriving DecidableEq, Repr

/-- What has come of a call, after some rounds of its loop. -/
inductive Parsed where
  | null
  | array (arglist : List Slot)
  | outOfBounds
  | unfinished
  deriving DecidableEq, Repr

/-- `malloc(sizeof(char *))` -/
def malloc1 : List Slot := [.garbage]

/-- `arglist[index] = slot`, if there is such a slot. -/
def store (arglist : List Slot) (index : Nat) (slot : Slot) : Option (List Slot) :=
  if index < arglist.length then some (arglist.set index slot) else none

/-- `realloc(arglist, count * sizeof(char *))` -/
def realloc (arglist : List Slot) (count : Nat) : List Slot :=
  arglist.take count ++ List.replicate (count - arglist.length) .garbage

/-- The loop of `command_parse` and what is behind it; `found` is the last call of `strtok`. -/
def fillArray : Nat → Strtok → Nat → List Slot → Parsed
  | 0, _, _, _ => .unfinished
  | rounds + 1, found, argcount, arglist =>
    match found.token with
    | none =>
      match store arglist argcount .null with
      | none => .outOfBounds
      | some arglist => .array arglist
    | some start =>
      match store arglist argcount (.token (cString (found.memory.drop start))) with
      | none => .outOfBounds
      | some arglist =>
        fillArray rounds (strtok delim found.memory found.cursor) (argcount + 1)
          (realloc arglist (argcount + 2))

/-- `command_parse(line)`, with at most so many rounds of its loop. -/
def parseArray (rounds : Nat) : Option (List Char) → Parsed
  | none => .null
  | some line =>
    let found := strtok delim line 0
    if found.token = none then .null else fillArray rounds found 0 malloc1

def nullTerminated (words : List Text) : List Slot := words.map .token ++ [.null]

private theorem store_last (front : List Slot) (last slot : Slot) :
    store (front ++ [last]) front.length slot = some (front ++ [slot]) := by
  simp [store]

private theorem realloc_one (arglist : List Slot) :
    realloc arglist (arglist.length + 1) = arglist ++ [.garbage] := by
  simp [realloc]

private theorem fillArray_eq (rounds : Nat) (memory : List Char) (offset : Nat) (front : List Slot)
    (last : Slot) :
    fillArray rounds (strtok delim memory offset) front.length (front ++ [last]) =
      if (tokens delim (cString (memory.drop offset))).length < rounds then
        .array (front ++ nullTerminated (tokens delim (cString (memory.drop offset))))
      else .unfinished := by
  induction rounds generalizing memory offset front last with
  | zero => rfl
  | succ rounds ih =>
    rw [fillArray]
    cases found : tokens delim (cString (memory.drop offset)) with
    | nil => simp [strtok_none found, store_last, nullTerminated]
    | cons word more =>
      obtain ⟨start, token, string, behind⟩ := strtok_some found
      have grown : realloc (front ++ [.token word]) (front.length + 2) =
          (front ++ [.token word]) ++ [.garbage] := by
        rw [← realloc_one, List.length_append, List.length_singleton]
      have next := ih (strtok delim memory offset).memory (strtok delim memory offset).cursor
        (front ++ [.token word]) .garbage
      rw [List.length_append, List.length_singleton, behind] at next
      simp only [token, string, store_last, grown, next, List.length_cons,
        Nat.add_lt_add_iff_right]
      simp [nullTerminated]

theorem parseArray_eq (rounds : Nat) (line : List Char) :
    parseArray rounds (some line) =
      if commandParse line = [] then .null
      else if (commandParse line).length < rounds then .array (nullTerminated (commandParse line))
      else .unfinished := by
  have filled := fillArray_eq rounds line 0 [] .garbage
  rw [List.drop_zero] at filled
  simp only [parseArray, commandParse_eq]
  by_cases blank : tokens delim (cString line) = []
  · rw [if_pos blank, if_pos (strtok_none blank)]
  · obtain ⟨word, more, found⟩ := List.exists_cons_of_ne_nil blank
    obtain ⟨start, token, -⟩ := strtok_some (show tokens delim (cString (line.drop 0)) = _ from found)
    rw [if_neg blank, token, if_neg nofun]
    exact filled

/-- The tokens joined with blanks are the tokens of the text that comes of it. -/
theorem commandParse_joined {line text : List Char}
    (joined : Joined [' ', '\t'] (commandParse line) text) :
    commandParse text = commandParse line := by
  rw [commandParse_eq line] at joined ⊢
  have free : nul ∉ text := by
    intro member
    rcases mem_joined joined member with between | ⟨word, among, inside⟩
    · exact absurd between (by decide)
    · exact nul_notMem_cString line (mem_of_mem_tokens among nul inside)
  rw [commandParse_eq, cString_of_notMem free]
  exact tokens_joined (by simp [delim]) joined (fun _ => ne_nil_of_mem_tokens) fun _ => free_of_mem_tokens

/-- The array of a line holds the maximal runs of what is no blank, and a `NULL`; it is filled in
one round for each token, within its bounds, and is the same for the tokens joined with blanks. -/
theorem parses_runs (line : List Char) :
    (commandParse line = [] ↔ ∀ char ∈ cString line, char ∈ delim) ∧
      (∀ words, Runs delim (cString line) words ↔ words = commandParse line) ∧
      (∀ token ∈ commandParse line, token ≠ []) ∧
      (∀ rounds, parseArray rounds (some line) =
        if commandParse line = [] then .null
        else if (commandParse line).length < rounds then .array (nullTerminated (commandParse line))
        else .unfinished) ∧
      ∀ text, Joined [' ', '\t'] (commandParse line) text →
        ∀ rounds, parseArray rounds (some text) = parseArray rounds (some line) := by
  refine ⟨?_, fun words => ?_, full_commandParse line, fun rounds => parseArray_eq rounds line, ?_⟩
  · rw [commandParse_eq, tokens_eq_nil]
  · rw [commandParse_eq, runs_iff]
  · intro text joined rounds
    rw [parseArray_eq, parseArray_eq, commandParse_joined joined]

example : parseArray 3 (some "ls\t -l\n".toList) =
    .array [.token "ls".toList, .token "-l".toList, .null] := by decide

end Lsnp.Lab
