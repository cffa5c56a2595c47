import Lsnp.Interaction.Machine
import Lsnp.Libc.Stdio
import Lsnp.Libc.Strings

/-! The function `chatting` of the four chat programs: it sends the lines that are typed and
prints what comes from the peer, through one buffer. A step is one round of the loop. -/

namespace Lsnp.Chatting

open Lsnp.Interaction Lsnp.Libc

def BUFF_SIZE : Nat := 1024

/-- How the loop waits for its two inputs. -/
inductive Wait where
  | select
  | poll
  deriving DecidableEq

structure Program where
  wait : Wait
  bye : List Char
  label : List Char
  closing : List Char

inductive Source where
  | tcpChattingServer
  | tcpChattingClient
  | ex03
  | ex04
  deriving DecidableEq

def Source.program : Source → Program
  | .tcpChattingServer =>
    ⟨.select, "BYE!\n".toList, "[어 나야] < ".toList, "연결 종료!\n".toList⟩
  | .tcpChattingClient => ⟨.select, "BYE\n".toList, "[나야] < ".toList, []⟩
  | .ex03 => ⟨.poll, "BYE\n".toList, "[rpi] < ".toList, []⟩
  | .ex04 => ⟨.poll, "BYE!\n".toList, "[usr] < ".toList, "연결 종료!\n".toList⟩

/-- Why the loop was left. -/
inductive Ending where
  | bye
  | sendFailed
  | recvFailed
  | cut
  | neither
  deriving DecidableEq

/-- What `stdin` has not given yet, the string in the buffer, the bytes that were passed to
`send`, what was printed, and how the loop was left. -/
structure State where
  rest : List Char
  buffer : List Char
  sent : List Char
  screen : List Char
  ended : Option Ending

/-- `strncmp(buffer, "exit", 4) == 0`. -/
def exits (buffer : List Char) : Bool := ['e', 'x', 'i', 't'].isPrefixOf buffer

namespace State

/-- `goto EXIT`, behind a last text. -/
def leave (state : State) (program : Program) (ending : Ending) (text : List Char) : State :=
  { state with
    screen := state.screen ++ text ++ program.closing
    ended := some ending }

/-- `fgets` and `send`. -/
def relay (state : State) : State :=
  match fgets BUFF_SIZE state.rest with
  | none => { state with sent := state.sent ++ state.buffer }
  | some (read, rest) =>
    { state with
      rest := rest
      buffer := cString read
      sent := state.sent ++ cString read }

/-- The test behind `send`. -/
def test (state : State) (program : Program) : State :=
  if exits state.buffer then state.leave program .bye program.bye else state

/-- `recv` has given bytes. -/
def print (state : State) (program : Program) (bytes : List Char) : State :=
  { state with
    buffer := cString bytes
    screen := state.screen ++ program.label ++ cString bytes }

end State

/-- The rounds of the loop. -/
inductive Round (program : Program) (state : State) : State → Prop where
  | typed : Round program state (state.relay.test program)
  | sendFails : Round program state (state.relay.leave program .sendFailed [])
  | received (bytes : List Char) (some : bytes ≠ []) (short : bytes.length ≤ BUFF_SIZE - 1) :
      Round program state (state.print program bytes)
  | recvFails : Round program state (state.leave program .recvFailed [])
  | cut : Round program state (state.leave program .cut "CUT.\n".toList)
  | neither (polls : program.wait = .poll) :
      Round program state (state.leave program .neither "오류발생.\n".toList)

/-- The function, with this text on `stdin`, and any string in the buffer. -/
def chatting (source : Source) (stdin : CString) : Machine State where
  initial state := state.rest = stdin.chars ∧ nul ∉ state.buffer ∧ state.sent = [] ∧
    state.screen = [] ∧ state.ended = none
  step state after := state.ended = none ∧ Round source.program state after

/-- The text up to and including the first line that starts with `exit`; all of it, if there
is none. -/
def upToExit (text : List Char) : List Char :=
  match text with
  | [] => []
  | char :: more =>
    if exits (line (char :: more)) then line (char :: more)
    else line (char :: more) ++ upToExit ((char :: more).drop (line (char :: more)).length)
termination_by text.length
decreasing_by
  rw [line]
  split
  · simp
  · simp only [List.length_cons, List.length_drop]
    omega

/-- Nothing but the text up to `exit` has been sent, and all of it when the loop is left with
`exit` or goes on with nothing left to read. -/
structure Lawful (stdin : CString) (state : State) : Prop where
  only : state.sent <+: upToExit stdin.chars
  whole : state.ended = some .bye ∨ (state.ended = none ∧ state.rest = []) →
    state.sent = upToExit stdin.chars

/-- There is a piece of the text that starts with `exit`, and the first one ends the text, or
it is a whole line. -/
def Closed (text : List Char) : Prop :=
  ∃ before last after, pieces BUFF_SIZE text = before ++ last :: after ∧
    (∀ piece ∈ before, exits piece = false) ∧ exits last = true ∧
    (after = [] ∨ (last.getLast? = some '\n' ∧
      ∀ piece, before.getLast? = some piece → piece.getLast? = some '\n'))

end Lsnp.Chatting
