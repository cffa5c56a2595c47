import Mathlib.Data.List.TakeWhile

namespace Lsnp.Http

/-- The first line of a text and what is behind its CRLF. -/
def splitLine : List Char → Option (List Char × List Char)
  | '\r' :: '\n' :: rest => some ([], rest)
  | char :: rest => (splitLine rest).map fun split => (char :: split.1, split.2)
  | [] => none

theorem splitLine_eq_some {text line rest : List Char} (split : splitLine text = some (line, rest)) :
    text = line ++ '\r' :: '\n' :: rest := by
  induction text using splitLine.induct generalizing line with
  | case1 behind =>
    cases split
    rfl
  | case2 char behind apart ih =>
    rw [splitLine] at split
    · obtain ⟨⟨first, last⟩, found, same⟩ := Option.map_eq_some_iff.mp split
      cases same
      rw [ih found]
      rfl
    · exact apart
  | case3 => cases split

theorem splitLine_append {line : List Char} (plain : '\r' ∉ line) (rest : List Char) :
    splitLine (line ++ '\r' :: '\n' :: rest) = some (line, rest) := by
  induction line with
  | nil => rfl
  | cons char line ih =>
    rw [List.mem_cons, not_or] at plain
    rw [List.cons_append, splitLine, ih plain.2]
    · rfl
    · intro behind same
      exact (plain.1 same.symm).elim

theorem splitLine_more {text line rest : List Char} (split : splitLine text = some (line, rest))
    (more : List Char) : splitLine (text ++ more) = some (line, rest ++ more) := by
  induction text using splitLine.induct generalizing line with
  | case1 behind =>
    cases split
    rfl
  | case2 char behind apart ih =>
    rw [splitLine] at split
    · obtain ⟨⟨first, last⟩, found, same⟩ := Option.map_eq_some_iff.mp split
      cases same
      rw [List.cons_append, splitLine, ih found]
      · rfl
      · intro after same whole
        cases behind with
        | nil => cases found
        | cons next behind =>
          rw [List.cons_append] at whole
          obtain ⟨rfl, -⟩ := List.cons.inj whole
          exact apart behind same rfl
    · exact apart
  | case3 => cases split

/-- The lines up to the first empty one, and what is behind it. -/
def header (text : List Char) : Option (List (List Char) × List Char) :=
  match _split : splitLine text with
  | none => none
  | some ([], rest) => some ([], rest)
  | some (line, rest) => (header rest).map fun split => (line :: split.1, split.2)
termination_by text.length
decreasing_by
  have lengths := congrArg List.length (splitLine_eq_some _split)
  simp only [List.length_append, List.length_cons] at lengths
  omega

theorem header_eq_none {text : List Char} (split : splitLine text = none) : header text = none := by
  rw [header]
  split
  · rfl
  · rename_i found
    rw [split] at found
    cases found
  · rename_i found
    rw [split] at found
    cases found

theorem header_eq {text line rest : List Char} (split : splitLine text = some (line, rest)) :
    header text =
      if line = [] then some ([], rest)
      else (header rest).map fun split => (line :: split.1, split.2) := by
  rw [header]
  split
  · rename_i found
    rw [split] at found
    cases found
  · rename_i found
    rw [split] at found
    cases found
    rfl
  · rename_i filled found
    rw [split] at found
    cases found
    rw [if_neg fun empty => filled empty]

theorem header_more {text rest : List Char} {lines : List (List Char)}
    (found : header text = some (lines, rest)) (more : List Char) :
    header (text ++ more) = some (lines, rest ++ more) := by
  induction length : text.length using Nat.strong_induction_on generalizing text lines with
  | _ bound ih =>
    cases split : splitLine text with
    | none =>
      rw [header_eq_none split] at found
      cases found
    | some pair =>
      obtain ⟨line, behind⟩ := pair
      have lengths := congrArg List.length (splitLine_eq_some split)
      simp only [List.length_append, List.length_cons] at lengths
      rw [header_eq split] at found
      rw [header_eq (splitLine_more split more)]
      split at found
      · rename_i empty
        cases found
        rw [if_pos empty]
      · rename_i filled
        obtain ⟨⟨others, last⟩, inner, same⟩ := Option.map_eq_some_iff.mp found
        cases same
        rw [if_neg filled, ih behind.length (by omega) inner rfl]
        rfl

/-- Lines that are not empty and have no CR, as they are written one below the other. -/
def block (lines : List (List Char)) : List Char := lines.flatMap fun line => line ++ ['\r', '\n']

theorem header_block {lines : List (List Char)} (plain : ∀ line ∈ lines, '\r' ∉ line ∧ line ≠ [])
    (rest : List Char) : header (block lines ++ '\r' :: '\n' :: rest) = some (lines, rest) := by
  induction lines with
  | nil =>
    change header ([] ++ '\r' :: '\n' :: rest) = some ([], rest)
    rw [header_eq (splitLine_append List.not_mem_nil rest), if_pos rfl]
  | cons line lines ih =>
    obtain ⟨free, filled⟩ := plain line (List.mem_cons_self ..)
    have whole : block (line :: lines) ++ '\r' :: '\n' :: rest =
        line ++ '\r' :: '\n' :: (block lines ++ '\r' :: '\n' :: rest) := by
      simp [block]
    rw [whole, header_eq (splitLine_append free _), if_neg filled,
      ih fun other member => plain other (List.mem_cons_of_mem _ member)]
    rfl

/-- A field of a header. -/
structure Field where
  name : List Char
  value : List Char
  plainName : ':' ∉ name ∧ '\r' ∉ name
  plainValue : '\r' ∉ value ∧ value.head? ≠ some ' '

def Field.line (field : Field) : List Char := field.name ++ ':' :: ' ' :: field.value

def Field.pair (field : Field) : List Char × List Char := (field.name, field.value)

/-- The name in a line, and the value without the blanks in front of it. -/
def splitField (line : List Char) : List Char × List Char :=
  (line.takeWhile (· != ':'), ((line.dropWhile (· != ':')).drop 1).dropWhile (· == ' '))

theorem splitField_line (field : Field) : splitField field.line = field.pair := by
  have name : ∀ char ∈ field.name, (char != ':') = true := fun char member => by
    refine bne_iff_ne.mpr ?_
    rintro rfl
    exact field.plainName.1 member
  have value : field.value.dropWhile (· == ' ') = field.value := by
    cases same : field.value with
    | nil => rfl
    | cons char rest =>
      refine List.dropWhile_cons_of_neg fun blank => field.plainValue.2 ?_
      rw [same, List.head?_cons, eq_of_beq blank]
  have front : field.line.takeWhile (· != ':') = field.name := by
    rw [Field.line, List.takeWhile_append_of_pos name]
    simp
  have behind : field.line.dropWhile (· != ':') = ':' :: ' ' :: field.value := by
    rw [Field.line, List.dropWhile_append_of_pos name]
    simp
  rw [splitField, front, behind, List.drop_one, List.tail_cons,
    List.dropWhile_cons_of_pos (by decide), value]
  rfl

theorem Field.line_plain (field : Field) : '\r' ∉ field.line ∧ field.line ≠ [] := by
  refine ⟨?_, by simp [Field.line]⟩
  have name := field.plainName.2
  have value := field.plainValue.1
  simp [Field.line, name, value]

def contentLength : List Char := "Content-Length".toList

/-- What is read of a message: the line of its status, its fields, its body, and what comes behind
it on the connection. -/
structure Received where
  status : List Char
  fields : List (List Char × List Char)
  body : List Char
  more : List Char
  deriving DecidableEq, Repr

/-- `none` as long as the message is not complete. -/
def receive (text : List Char) : Option Received :=
  match header text with
  | some (status :: lines, rest) =>
    let fields := lines.map splitField
    match fields.lookup contentLength with
    | none => some ⟨status, fields, rest, []⟩
    | some digits =>
      let length := Nat.ofDigitChars 10 digits 0
      if rest.length < length then none
      else some ⟨status, fields, rest.take length, rest.drop length⟩
  | _ => none

/-- A message whose length, where it is given, is that of its body. -/
structure Message where
  status : List Char
  fields : List Field
  body : List Char
  plain : '\r' ∉ status ∧ status ≠ []
  framed : ∀ digits, (fields.map Field.pair).lookup contentLength = some digits →
    Nat.ofDigitChars 10 digits 0 = body.length

namespace Message

variable (message : Message)

def lines : List (List Char) := message.status :: message.fields.map Field.line

def text : List Char := block message.lines ++ '\r' :: '\n' :: message.body

def Sized : Prop := ((message.fields.map Field.pair).lookup contentLength).isSome = true

variable {message}

theorem header_text : header message.text = some (message.lines, message.body) := by
  refine header_block (fun line member => ?_) message.body
  rcases List.mem_cons.mp member with rfl | other
  · exact message.plain
  · obtain ⟨field, -, rfl⟩ := List.mem_map.mp other
    exact field.line_plain

theorem fields_split : (message.fields.map Field.line).map splitField = message.fields.map Field.pair := by
  rw [List.map_map]
  exact List.map_congr_left fun field _ => splitField_line field

theorem receive_text :
    receive message.text = some ⟨message.status, message.fields.map Field.pair, message.body, []⟩ := by
  rw [receive, header_text, lines]
  simp only [fields_split]
  cases given : (message.fields.map Field.pair).lookup contentLength with
  | none => rfl
  | some digits =>
    simp only [message.framed digits given, Nat.lt_irrefl, if_false, List.take_length,
      List.drop_length]

/-- Where the length is given, no part of the message is taken for the whole. -/
theorem receive_part (sized : message.Sized) {part left : List Char} (split : message.text = part ++ left)
    (missing : left ≠ []) : receive part = none := by
  obtain ⟨digits, given⟩ := Option.isSome_iff_exists.mp sized
  rw [receive]
  cases found : header part with
  | none => rfl
  | some pair =>
    obtain ⟨lines, rest⟩ := pair
    have whole := header_more found left
    rw [← split, header_text] at whole
    obtain ⟨rfl, body⟩ := Prod.mk.inj (Option.some.inj whole)
    simp only [lines, fields_split, given, message.framed digits given]
    rw [if_pos]
    rw [body, List.length_append]
    have some := List.length_pos_iff.mpr missing
    omega

end Message

end Lsnp.Http
