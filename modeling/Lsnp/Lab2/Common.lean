import Lsnp.Lab.Grammar

namespace Lsnp.Lab2

open Lsnp.Unix

/-- What may follow the first command: nothing, a pipe to another command, or a redirection
to a file, where further words have no meaning. -/
inductive Rest where
  | nothing
  | pipe (name : Lab.Word) (args : List Lab.Word) (external : Lab.isBuiltin [name.text] = false)
  | redirection (target : Lab.Word) (further : List Lab.Word)

structure Common where
  name : Lab.Word
  args : List Lab.Word
  rest : Rest
  background : Bool
  external : Lab.isBuiltin [name.text] = false

/-- A command as it is started. -/
structure Command where
  argv : List Text
  stdin : Option File
  stdout : Option File
  deriving DecidableEq, Repr

def texts (name : Lab.Word) (args : List Lab.Word) : List Text := name.text :: args.map Lab.Word.text

def Rest.tokens : Rest → List Text
  | .nothing => []
  | .pipe name args _ => "|".toList :: texts name args
  | .redirection target further => ">".toList :: texts target further

namespace Common

variable (line : Common)

def argv : List Text := texts line.name line.args

/-- The tokens in front of a final `&`. -/
def words : List Text := line.argv ++ line.rest.tokens

def tokens : List Text := line.words ++ if line.background then ["&".toList] else []

/-- The first command, and a second one on the right of a pipe; `files` and `pipes` number
the file and the pipe. -/
def commands (stdin stdout : Option File) (files pipes : Nat) : List Command :=
  match line.rest with
  | .nothing => [⟨line.argv, stdin, stdout⟩]
  | .pipe name args _ => [⟨line.argv, stdin, some (.pipeWrite pipes)⟩,
      ⟨texts name args, some (.pipeRead pipes), stdout⟩]
  | .redirection target _ => [⟨line.argv, stdin, some (.regular files target.text .output)⟩]

def last (stdin stdout : Option File) (files pipes : Nat) : Command :=
  match line.rest with
  | .nothing => ⟨line.argv, stdin, stdout⟩
  | .pipe name args _ => ⟨texts name args, some (.pipeRead pipes), stdout⟩
  | .redirection target _ => ⟨line.argv, stdin, some (.regular files target.text .output)⟩

end Common

def Plain (words : List Text) : Prop :=
  ∀ word ∈ words, Lab.operator word = .none ∧ word ≠ [] ∧ word.getLast? ≠ some '&'

theorem plain_texts (name : Lab.Word) (args : List Lab.Word) : Plain (texts name args) := by
  intro text member
  rcases List.mem_cons.mp member with rfl | later
  · exact ⟨name.plain, name.full, name.ends⟩
  · obtain ⟨word, -, rfl⟩ := List.mem_map.mp later
    exact ⟨word.plain, word.full, word.ends⟩

end Lsnp.Lab2
