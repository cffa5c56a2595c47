import Lsnp.Interaction.Machine
import Lsnp.Libc.Strings
import Lsnp.SysV.Semaphores

/-! Two programs that hand messages over in a shared segment, with two semaphores: the
first lets the sender write, the second lets the receiver read. A step is one library call
of either program, or the writing of one character. -/

namespace Lsnp.Handover

open Lsnp.Interaction Lsnp.Libc Lsnp.SysV

inductive Program where
  | sender
  | receiver
  deriving DecidableEq

def heading : List Char := "shared memory test ".toList

/-- What the sender's format makes of `index + 1`. -/
def message (index : Nat) : List Char := heading ++ Nat.toDigits 10 (index + 1)

def ending : List Char := "end".toList

/-- Where the sender is. In the loop and behind it, `sent` messages have been sent;
`written` characters of the next string are in the segment. -/
inductive Sender where
  | starting
  | settingSecond
  | attaching
  | taking (sent : Nat)
  | writing (sent written : Nat)
  | printing (sent : Nat)
  | giving (sent : Nat)
  | detaching
  | removing
  | removingAgain
  | returning
  | exited
  deriving DecidableEq

/-- Where the receiver is. -/
inductive Receiver where
  | starting
  | taking
  | comparingEnd
  | comparingEmpty
  | printing
  | giving
  | delaying
  | detaching
  | removingSegment
  | failed
  | removingSet
  | returning
  | exited
  deriving DecidableEq

/-- The objects of the kernel, how far the programs have got, and what was printed. A
program that has failed to get an object has exited. -/
structure State where
  segments : Objects (List Char)
  sets : Objects (Semaphores Program)
  senderSegment : Getting
  senderSet : Getting
  sender : Sender
  receiverSegment : Getting
  receiverSet : Getting
  receiver : Receiver
  printed : List (List Char)

def State.initial : State where
  segments := .empty []
  sets := .empty .fresh
  senderSegment := .making
  senderSet := .making
  sender := .starting
  receiverSegment := .making
  receiverSet := .making
  receiver := .starting
  printed := []

def blank : List Char := List.replicate 30 nul

/-- The string that the sender writes when it has sent so many of `count` messages. -/
def text (count sent : Nat) : List Char := if sent < count then message sent else ending

/-- One step of the sender, with `count` messages to send. Neither program looks at what `semop`
returns. -/
inductive SenderStep (count : Nat) (state : State) : State → Prop where
  | getSegment {segments : Objects (List Char)} {segment : Getting} (at' : state.sender = .starting)
      (get : Get blank state.segments state.senderSegment segments segment) :
      SenderStep count state { state with segments := segments, senderSegment := segment }
  | getSet {shmid : Nat} {sets : Objects (Semaphores Program)} {set : Getting}
      (at' : state.sender = .starting) (segment : state.senderSegment = .got shmid)
      (get : Get .fresh state.sets state.senderSet sets set) :
      SenderStep count state { state with sets := sets, senderSet := set }
  | setFirst {semid : Nat} (at' : state.sender = .starting) (set : state.senderSet = .got semid) :
      SenderStep count state { state with
        sets := state.sets.operate semid (·.setval 0 1)
        sender := .settingSecond }
  | setSecond {semid : Nat} (at' : state.sender = .settingSecond)
      (set : state.senderSet = .got semid) :
      SenderStep count state { state with
        sets := state.sets.operate semid (·.setval 1 0)
        sender := .attaching }
  | attach (at' : state.sender = .attaching) :
      SenderStep count state { state with sender := .taking 0 }
  | take {sent semid : Nat} (at' : state.sender = .taking sent)
      (set : state.senderSet = .got semid)
      (open' : state.sets.has semid → 0 < (state.sets.objects semid).values 0) :
      SenderStep count state { state with
        sets := state.sets.operate semid (·.semop .sender 0 (-1))
        sender := .writing sent 0 }
  | write {sent written shmid : Nat} {char : Char} (at' : state.sender = .writing sent written)
      (segment : state.senderSegment = .got shmid)
      (next : (text count sent ++ [nul])[written]? = some char) :
      SenderStep count state { state with
        segments := state.segments.modify shmid (poke written char)
        sender := if written < (text count sent).length then .writing sent (written + 1)
          else if sent < count then .printing sent
          else .detaching }
  | print {sent : Nat} (at' : state.sender = .printing sent) :
      SenderStep count state { state with sender := .giving sent }
  | give {sent semid : Nat} (at' : state.sender = .giving sent)
      (set : state.senderSet = .got semid) :
      SenderStep count state { state with
        sets := state.sets.operate semid (·.semop .sender 1 1)
        sender := .taking (sent + 1) }
  | detach (at' : state.sender = .detaching) :
      SenderStep count state { state with sender := .removing }
  | remove {semid : Nat} (at' : state.sender = .removing) (set : state.senderSet = .got semid) :
      SenderStep count state { state with
        sets := state.sets.remove semid
        sender := .removingAgain }
  | removeAgain {semid : Nat} (at' : state.sender = .removingAgain)
      (set : state.senderSet = .got semid) :
      SenderStep count state { state with
        sets := state.sets.remove semid
        sender := .returning }
  | return' {semid : Nat} (at' : state.sender = .returning) (set : state.senderSet = .got semid) :
      SenderStep count state { state with
        sets := state.sets.operate semid (·.leave .sender)
        sender := .exited }

def State.string (state : State) (shmid : Nat) : List Char := cString (state.segments.objects shmid)

/-- One step of the receiver. -/
inductive ReceiverStep (state : State) : State → Prop where
  | getSegment {segments : Objects (List Char)} {segment : Getting}
      (at' : state.receiver = .starting)
      (get : Get blank state.segments state.receiverSegment segments segment) :
      ReceiverStep state { state with segments := segments, receiverSegment := segment }
  | getSet {shmid : Nat} {sets : Objects (Semaphores Program)} {set : Getting}
      (at' : state.receiver = .starting) (segment : state.receiverSegment = .got shmid)
      (get : Get .fresh state.sets state.receiverSet sets set) :
      ReceiverStep state { state with sets := sets, receiverSet := set }
  | attach {semid : Nat} (at' : state.receiver = .starting) (set : state.receiverSet = .got semid) :
      ReceiverStep state { state with receiver := .taking }
  | take {semid : Nat} (at' : state.receiver = .taking) (set : state.receiverSet = .got semid)
      (open' : state.sets.has semid → 0 < (state.sets.objects semid).values 1) :
      ReceiverStep state { state with
        sets := state.sets.operate semid (·.semop .receiver 1 (-1))
        receiver := .comparingEnd }
  | compareEnd {shmid : Nat} (at' : state.receiver = .comparingEnd)
      (segment : state.receiverSegment = .got shmid) :
      ReceiverStep state { state with
        receiver := if state.string shmid = ending then .detaching else .comparingEmpty }
  | compareEmpty {shmid : Nat} (at' : state.receiver = .comparingEmpty)
      (segment : state.receiverSegment = .got shmid) :
      ReceiverStep state { state with
        receiver := if state.string shmid = [] then .taking else .printing }
  | print {shmid : Nat} (at' : state.receiver = .printing)
      (segment : state.receiverSegment = .got shmid) :
      ReceiverStep state { state with
        printed := state.printed ++ [state.string shmid]
        receiver := .giving }
  | give {semid : Nat} (at' : state.receiver = .giving) (set : state.receiverSet = .got semid) :
      ReceiverStep state { state with
        sets := state.sets.operate semid (·.semop .receiver 0 1)
        receiver := .delaying }
  | delay (at' : state.receiver = .delaying) :
      ReceiverStep state { state with receiver := .taking }
  | detach (at' : state.receiver = .detaching) :
      ReceiverStep state { state with receiver := .removingSegment }
  | removeSegment {shmid : Nat} (at' : state.receiver = .removingSegment)
      (segment : state.receiverSegment = .got shmid) :
      ReceiverStep state { state with
        segments := state.segments.remove shmid
        receiver := if state.segments.has shmid then .removingSet else .failed }
  | removeSet {semid : Nat} (at' : state.receiver = .removingSet)
      (set : state.receiverSet = .got semid) :
      ReceiverStep state { state with
        sets := state.sets.remove semid
        receiver := .returning }
  | return' {semid : Nat} (at' : state.receiver = .returning)
      (set : state.receiverSet = .got semid) :
      ReceiverStep state { state with
        sets := state.sets.operate semid (·.leave .receiver)
        receiver := .exited }

def programs (count : Nat) : Machine State where
  initial := (· = .initial)
  step state after := SenderStep count state after ∨ ReceiverStep state after

end Lsnp.Handover
