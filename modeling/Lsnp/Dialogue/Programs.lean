import Lsnp.Interaction.Machine
import Lsnp.Libc.Stdio
import Lsnp.SysV.Objects

/-! Two programs that talk to each other through two message queues, one line each in
turn, until one of them says `end`. A step is one library call of either program, or one
of its tests. -/

namespace Lsnp.Dialogue

open Lsnp.Interaction Lsnp.Libc Lsnp.SysV

inductive Program where
  | first
  | second
  deriving DecidableEq

namespace Program

def other : Program → Program
  | .first => .second
  | .second => .first

/-- The type of the messages that it sends, into the queue of its own. -/
def type : Program → Nat
  | .first => 1
  | .second => 2

end Program

/-- A string in an array of 1024 characters. -/
structure Text extends CString where
  fits : chars.length ≤ 1023

/-- What `fgets` leaves in an array of 1024 characters. -/
def Text.of (read : List Char) (fits : read.length ≤ 1023) : Text :=
  ⟨.of read, Nat.le_trans (length_cString_le read) fits⟩

/-- `fgets` into the array, which keeps its string at the end of the stream. -/
def Text.fgets (old : Text) (stream : List Char) : Text × List Char :=
  match found : Libc.fgets 1023 stream with
  | none => (old, stream)
  | some (read, rest) =>
    (.of read (by
      rw [(fgets_eq_some found).1]
      exact Nat.le_trans (length_piece_le _ _) (by decide)), rest)

/-- The text starts with `end`. -/
def Text.ends (text : Text) : Bool := text.starts "end".toList

structure Message where
  type : Nat
  text : Text

/-- Where a program is. It reads and sends a line, and then receives one. -/
inductive Place where
  | opening (queue : Program)
  | reading
  | sending
  | testingSent
  | receiving
  | terminating (n : Int)
  | printing
  | testingReceived
  | removing (queue : Program)
  | returned

def Program.begins : Program → Place
  | .first => .reading
  | .second => .receiving

def Program.goesOn (program : Program) : Program → Place
  | .first => .opening .second
  | .second => program.begins

def Program.leaves : Program → Place
  | .first => .returned
  | .second => .removing .first

def Program.ends : Program → Place
  | .first => .removing .second
  | .second => .returned

/-- The variables of a program, and the message on which it left its loop: whose it was,
and how many that program had sent before. -/
structure Peer where
  place : Place
  msgid : Program → Getting
  stdin : List Char
  buf : Text
  received : List Char
  leftOn : Option (Program × Nat)

/-- The queues, the programs, and what each has sent and the other has taken. -/
structure State where
  queues : Program → Objects (List Message)
  peers : Program → Peer
  sent : Program → List Text
  taken : Program → List Text

/-- Nothing has been made; the arrays of the programs hold anything. -/
def State.start (stdin : Program → List Char) (buf : Program → Text)
    (received : Program → List Char) : State where
  queues _ := .empty []
  peers program := ⟨.opening .first, fun _ => .making, stdin program, buf program,
    received program, none⟩
  sent _ := []
  taken _ := []

/-- The first message of this type, and the queue without it. -/
def takeFirst (type : Nat) : List Message → Option (Message × List Message)
  | [] => none
  | message :: rest =>
    if message.type = type then some (message, rest)
    else (takeFirst type rest).map fun (found, others) => (found, message :: others)

def State.put (state : State) (program : Program) (peer : Peer) : State :=
  { state with peers := Function.update state.peers program peer }

/-- The program gets to another place, and nothing else changes. -/
def State.go (state : State) (program : Program) (place : Place) : State :=
  state.put program { state.peers program with place := place }

/-- The program leaves its loop on the last message that `sender` sent. -/
def State.leave (state : State) (program sender : Program) (number : Nat) : State :=
  state.put program { state.peers program with
    place := program.leaves
    leftOn := some (sender, number) }

inductive Step (program : Program) (state : State) : State → Prop where
  | msgget {queue : Program} (at' : (state.peers program).place = .opening queue) :
      Step program state (State.put
        { state with
          queues := Function.update state.queues queue ((state.queues queue).obtain []).1 }
        program { state.peers program with
          msgid := Function.update (state.peers program).msgid queue
            (.got ((state.queues queue).obtain []).2)
          place := program.goesOn queue })
  | read (at' : (state.peers program).place = .reading) :
      Step program state (state.put program { state.peers program with
        buf := ((state.peers program).buf.fgets (state.peers program).stdin).1
        stdin := ((state.peers program).buf.fgets (state.peers program).stdin).2
        place := .sending })
  | msgsnd {msgid : Nat} (at' : (state.peers program).place = .sending)
      (queue : (state.peers program).msgid program = .got msgid)
      (here : (state.queues program).has msgid) :
      Step program state (State.go
        { state with
          queues := Function.update state.queues program ((state.queues program).modify msgid
            (· ++ [⟨program.type, (state.peers program).buf⟩]))
          sent := Function.update state.sent program
            (state.sent program ++ [(state.peers program).buf]) }
        program .testingSent)
  | msgsndFails {msgid : Nat} (at' : (state.peers program).place = .sending)
      (queue : (state.peers program).msgid program = .got msgid)
      (gone : ¬ (state.queues program).has msgid) :
      Step program state (state.go program .testingSent)
  | testSent (at' : (state.peers program).place = .testingSent) :
      Step program state (if (state.peers program).buf.ends
        then state.leave program program ((state.sent program).length - 1)
        else state.go program .receiving)
  | msgrcv {msgid : Nat} {message : Message} {rest : List Message}
      (at' : (state.peers program).place = .receiving)
      (queue : (state.peers program).msgid program.other = .got msgid)
      (here : (state.queues program.other).has msgid)
      (found : takeFirst program.other.type ((state.queues program.other).objects msgid) =
        some (message, rest)) :
      Step program state (State.put
        { state with
          queues := Function.update state.queues program.other
            ((state.queues program.other).modify msgid fun _ => rest)
          taken := Function.update state.taken program.other
            (state.taken program.other ++ [message.text]) }
        program { state.peers program with
          received := message.text.chars ++
            (state.peers program).received.drop message.text.chars.length
          place := .terminating message.text.chars.length })
  | msgrcvFails {msgid : Nat} (at' : (state.peers program).place = .receiving)
      (queue : (state.peers program).msgid program.other = .got msgid)
      (gone : ¬ (state.queues program.other).has msgid) :
      Step program state (state.go program (.terminating (-1)))
  | terminate {n : Int} (at' : (state.peers program).place = .terminating n) :
      -- an index below 0 is not in the array
      Step program state (state.put program { state.peers program with
        received := if n < 0 then (state.peers program).received
          else poke n.toNat nul (state.peers program).received
        place := .printing })
  | print (at' : (state.peers program).place = .printing) :
      Step program state (state.go program .testingReceived)
  | testReceived (at' : (state.peers program).place = .testingReceived) :
      Step program state (if (CString.of (state.peers program).received).starts "end".toList
        then state.leave program program.other ((state.taken program.other).length - 1)
        else state.go program .reading)
  | remove {queue : Program} {msgid : Nat} (at' : (state.peers program).place = .removing queue)
      (found : (state.peers program).msgid queue = .got msgid) :
      Step program state (State.go
        { state with
          queues := Function.update state.queues queue ((state.queues queue).remove msgid) }
        program queue.ends)

/-- The two programs with these lines to read, in any order of their steps. -/
def dialogue (stdin : Program → List Char) : Machine State where
  initial state := ∃ buf received, state = .start stdin buf received
  step state after := ∃ program, Step program state after

/-- The second queue is not removed while there is a message in it. -/
def TakenBeforeRemoval (state after : State) : Prop :=
  (state.peers .second).place = .removing .second → (after.peers .second).place = .returned →
    ∀ msgid, (state.peers .second).msgid .second = .got msgid →
      (state.queues .second).objects msgid = []

end Lsnp.Dialogue
