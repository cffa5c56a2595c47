import Lsnp.Libc.Stdio
import Lsnp.WebServer.Query

/-! The handler of `rpi6.c` as a function of the bytes of its client and of what is in its
local arrays when it starts. -/

namespace Lsnp.WebServer

open Lsnp.Libc

/-- `sscanf` with `%15s %s`: as many of the two words as are found. -/
def scanRequest (line : List Char) : Option (List Char) × Option (List Char) :=
  let front := line.dropWhile isSpace
  let method := (front.takeWhile (! isSpace ·)).take 15
  let path := ((front.drop method.length).dropWhile isSpace).takeWhile (! isSpace ·)
  if method = [] then (none, none)
  else if path = [] then (some method, none)
  else (some method, some path)

namespace Rpi

/-- The strings in the local arrays. -/
structure Locals where
  reqLine : CString
  method : CString
  path : CString

/-- `405 Method Not Allowed`, or the page `index.html` and what is written to the LED. -/
inductive Outcome where
  | notAllowed
  | index (writes : List Level)
  deriving DecidableEq

/-- The handler; the lines behind the first one are only skipped. -/
def clntConnection (stream : List Char) (locals : Locals) : Outcome :=
  let reqLine := match fgets BUFSIZ stream with
    | none => locals.reqLine.chars
    | some (read, _) => cString read
  let scanned := scanRequest reqLine
  let method := scanned.1.getD locals.method.chars
  let path := scanned.2.getD locals.path.chars
  if method ≠ "GET".toList then .notAllowed
  else .index (ledWrites (query (.of path)))

/-- The request line has two words, or one that is not `GET`. -/
def Complete (stream : List Char) : Prop :=
  ∃ read rest, fgets BUFSIZ stream = some (read, rest) ∧
    ((∃ method path, scanRequest (cString read) = (some method, some path)) ∨
      ∃ method, scanRequest (cString read) = (some method, none) ∧ method ≠ "GET".toList)

private theorem scanRequest_cases (line : List Char) :
    (∃ method path, scanRequest line = (some method, some path)) ∨
      (∃ method, scanRequest line = (some method, none)) ∨ scanRequest line = (none, none) := by
  unfold scanRequest
  dsimp only
  split
  · exact .inr (.inr rfl)
  · split
    · exact .inr (.inl ⟨_, rfl⟩)
    · exact .inl ⟨_, _, rfl⟩

/-- Locals that an earlier request has left: its method and its path. -/
private def left (method path : List Char) : Locals := ⟨.of [], .of method, .of path⟩

private theorem not_alone_path {stream read rest : List Char}
    (got : fgets BUFSIZ stream = some (read, rest))
    (only : scanRequest (cString read) = (some "GET".toList, none)) :
    clntConnection stream (left [] "/?led=On".toList) ≠ clntConnection stream (left [] []) := by
  have on : clntConnection stream (left [] "/?led=On".toList) = .index [.high] := by
    simp only [clntConnection, got, only, Option.getD_some, Option.getD_none, ne_eq,
      not_true_eq_false, if_false]
    decide
  have none : clntConnection stream (left [] []) = .index [] := by
    simp only [clntConnection, got, only, Option.getD_some, Option.getD_none, ne_eq,
      not_true_eq_false, if_false]
    decide
  rw [on, none]
  simp

private theorem not_alone_method {stream read rest : List Char}
    (got : fgets BUFSIZ stream = some (read, rest))
    (neither : scanRequest (cString read) = (none, none)) :
    clntConnection stream (left "GET".toList []) ≠ clntConnection stream (left [] []) := by
  have page : clntConnection stream (left "GET".toList []) = .index [] := by
    simp only [clntConnection, got, neither, Option.getD_none]
    decide
  have refused : clntConnection stream (left [] []) = .notAllowed := by
    simp only [clntConnection, got, neither, Option.getD_none]
    decide
  rw [page, refused]
  simp

private theorem not_alone_empty {stream : List Char} (empty : fgets BUFSIZ stream = none) :
    clntConnection stream (left "GET".toList []) ≠ clntConnection stream (left [] []) := by
  have page : clntConnection stream (left "GET".toList []) = .index [] := by
    simp only [clntConnection, empty]
    decide
  have refused : clntConnection stream (left [] []) = .notAllowed := by
    simp only [clntConnection, empty]
    decide
  rw [page, refused]
  simp

theorem outcome_alone_iff (stream : List Char) :
    (∀ one two, clntConnection stream one = clntConnection stream two) ↔ Complete stream := by
  constructor
  · intro alone
    cases got : fgets BUFSIZ stream with
    | none => exact (not_alone_empty got (alone _ _)).elim
    | some pair =>
      obtain ⟨read, rest⟩ := pair
      refine ⟨read, rest, got, ?_⟩
      rcases scanRequest_cases (cString read) with both | ⟨method, only⟩ | neither
      · exact .inl both
      · right
        refine ⟨method, only, ?_⟩
        rintro rfl
        exact not_alone_path got only (alone _ _)
      · exact (not_alone_method got neither (alone _ _)).elim
  · rintro ⟨read, rest, got, ⟨method, path, both⟩ | ⟨method, only, other⟩⟩ one two
    · simp only [clntConnection, got, both, Option.getD_some]
    · simp only [clntConnection, got, only, Option.getD_some, ne_eq, other, not_false_eq_true,
        if_true]

end Rpi

end Lsnp.WebServer
