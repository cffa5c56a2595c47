import Lsnp.Interaction.Machine
import Lsnp.Libc.Strings
import Lsnp.Structures.Window

/-! The message server: one thread receives datagrams and puts them into a queue, the
other takes them out and logs them. A step is one statement of either thread. -/

namespace Lsnp.MsgServer

open Lsnp.Interaction Lsnp.Libc Lsnp.Structures

def QUEUE_SIZE : Nat := 100
def INET_ADDRSTRLEN : Nat := 16
def MAXDATASIZE : Nat := 1024

structure LogEntry where
  clientIp : Buffer (INET_ADDRSTRLEN - 1)
  message : Buffer (MAXDATASIZE - 1)

/-- The arguments of a call of `enqueue`. -/
structure Enqueue where
  ip : CString
  msg : CString
  deriving DecidableEq

def LogEntry.strings (entry : LogEntry) : List Char × List Char :=
  (entry.clientIp.string, entry.message.string)

def Enqueue.strings (call : Enqueue) : List Char × List Char :=
  (call.ip.chars.take (INET_ADDRSTRLEN - 1), call.msg.chars.take (MAXDATASIZE - 1))

/-- `inet_ntoa`: four numbers with dots between them. -/
def inetNtoa (address : Fin 256 × Fin 256 × Fin 256 × Fin 256) : List Char :=
  let (first, second, third, fourth) := address
  Nat.toDigits 10 first ++ '.' :: Nat.toDigits 10 second ++ '.' :: Nat.toDigits 10 third ++
    '.' :: Nat.toDigits 10 fourth

/-- What `receive_from` hands to `enqueue`; `none` for a failed `recvfrom`. -/
def receiveFrom (address : Fin 256 × Fin 256 × Fin 256 × Fin 256) (datagram : Option (List Char)) :
    Option Enqueue :=
  match datagram with
  | none => none
  | some payload =>
    let buf := payload.take (MAXDATASIZE - 1)
    if buf.length = 0 then none
    else
      let buf := if buf.getLast? = some '\n' then buf.dropLast else buf
      some ⟨.of (inetNtoa address), .of buf⟩

inductive Thread where
  | receiving
  | collecting
  deriving DecidableEq

/-- Where the receiving thread is: between two calls of `enqueue`, or in front of one of
its statements. -/
inductive Receiver where
  | polling
  | locking (call : Enqueue)
  | testing (call : Enqueue)
  | storingIp (call : Enqueue)
  | storingMessage (call : Enqueue)
  | advancing (call : Enqueue)
  | counting (call : Enqueue)
  | signalling
  | unlocking

/-- Where `msg_collect` is; `waiting` is asleep in `pthread_cond_wait`, `woken` is still
in it and has to lock the mutex again. -/
inductive Collector where
  | opening
  | returned
  | locking
  | testing
  | waiting
  | woken
  | copying
  | advancing (entry : LogEntry)
  | counting (entry : LogEntry)
  | unlocking (entry : LogEntry)
  | logging (entry : LogEntry)

/-- The variables of the program, where its threads are, and what they have done. -/
structure State where
  queue : Nat → LogEntry
  qHead : Nat
  qTail : Nat
  qCount : Nat
  qMutex : Option Thread
  receiver : Receiver
  collector : Collector
  accepted : List Enqueue
  dropped : List (Enqueue × Nat)
  taken : List LogEntry

namespace State

def initial : State where
  queue _ := ⟨.zero _, .zero _⟩
  qHead := 0
  qTail := 0
  qCount := 0
  qMutex := none
  receiver := .polling
  collector := .opening
  accepted := []
  dropped := []
  taken := []

def waitingEntries (state : State) : List LogEntry :=
  window QUEUE_SIZE state.queue state.qHead state.qCount

end State

/-- One statement of either thread. `arrives` says which calls of `enqueue` the datagrams
that are received may lead to. -/
inductive Step (arrives : Enqueue → Prop) (state : State) : State → Prop where
  | receive {call : Enqueue} (at' : state.receiver = .polling) (arrived : arrives call) :
      Step arrives state { state with receiver := .locking call }
  | lock {call : Enqueue} (at' : state.receiver = .locking call) (free : state.qMutex = none) :
      Step arrives state { state with qMutex := some .receiving, receiver := .testing call }
  | accept {call : Enqueue} (at' : state.receiver = .testing call)
      (room : state.qCount < QUEUE_SIZE) :
      Step arrives state { state with receiver := .storingIp call }
  | drop {call : Enqueue} (at' : state.receiver = .testing call)
      (full : ¬ state.qCount < QUEUE_SIZE) :
      Step arrives state { state with
        receiver := .unlocking
        dropped := state.dropped ++ [(call, state.waitingEntries.length)] }
  | storeIp {call : Enqueue} (at' : state.receiver = .storingIp call) :
      Step arrives state { state with
        queue := Function.update state.queue state.qTail { state.queue state.qTail with
          clientIp := (state.queue state.qTail).clientIp.strncpy call.ip }
        receiver := .storingMessage call }
  | storeMessage {call : Enqueue} (at' : state.receiver = .storingMessage call) :
      Step arrives state { state with
        queue := Function.update state.queue state.qTail { state.queue state.qTail with
          message := (state.queue state.qTail).message.strncpy call.msg }
        receiver := .advancing call }
  | advanceTail {call : Enqueue} (at' : state.receiver = .advancing call) :
      Step arrives state { state with
        qTail := (state.qTail + 1) % QUEUE_SIZE
        receiver := .counting call }
  | countUp {call : Enqueue} (at' : state.receiver = .counting call) :
      Step arrives state { state with
        qCount := state.qCount + 1
        receiver := .signalling
        accepted := state.accepted ++ [call] }
  | signal (at' : state.receiver = .signalling) :
      Step arrives state { state with
        receiver := .unlocking
        collector := match state.collector with
          | .waiting => .woken
          | other => other }
  | unlock (at' : state.receiver = .unlocking) :
      Step arrives state { state with qMutex := none, receiver := .polling }
  | openLog (at' : state.collector = .opening) :
      Step arrives state { state with collector := .locking }
  | giveUp (at' : state.collector = .opening) :
      Step arrives state { state with collector := .returned }
  | lockQueue (at' : state.collector = .locking) (free : state.qMutex = none) :
      Step arrives state { state with qMutex := some .collecting, collector := .testing }
  | sleep (at' : state.collector = .testing) (empty : state.qCount = 0) :
      Step arrives state { state with qMutex := none, collector := .waiting }
  | wake (at' : state.collector = .waiting) :
      Step arrives state { state with collector := .woken }
  | relock (at' : state.collector = .woken) (free : state.qMutex = none) :
      Step arrives state { state with qMutex := some .collecting, collector := .testing }
  | goOn (at' : state.collector = .testing) (some : ¬ state.qCount = 0) :
      Step arrives state { state with collector := .copying }
  | copy (at' : state.collector = .copying) :
      Step arrives state { state with collector := .advancing (state.queue state.qHead) }
  | advanceHead {entry : LogEntry} (at' : state.collector = .advancing entry) :
      Step arrives state { state with
        qHead := (state.qHead + 1) % QUEUE_SIZE
        collector := .counting entry }
  | countDown {entry : LogEntry} (at' : state.collector = .counting entry) :
      Step arrives state { state with
        qCount := state.qCount - 1
        collector := .unlocking entry
        taken := state.taken ++ [entry] }
  | unlockQueue {entry : LogEntry} (at' : state.collector = .unlocking entry) :
      Step arrives state { state with qMutex := none, collector := .logging entry }
  | log {entry : LogEntry} (at' : state.collector = .logging entry) :
      Step arrives state { state with collector := .locking }

/-- The server, with any datagrams that lead to calls that `arrives` allows. -/
def server (arrives : Enqueue → Prop) : Machine State := ⟨(· = .initial), Step arrives⟩

def received (call : Enqueue) : Prop := ∃ address datagram, receiveFrom address datagram = some call

private theorem toDigits_byte : ∀ byte : Fin 256,
    (Nat.toDigits 10 byte).length ≤ 3 := by decide +kernel

theorem length_inetNtoa (address : Fin 256 × Fin 256 × Fin 256 × Fin 256) :
    (inetNtoa address).length ≤ INET_ADDRSTRLEN - 1 := by
  obtain ⟨first, second, third, fourth⟩ := address
  have one := toDigits_byte first
  have two := toDigits_byte second
  have three := toDigits_byte third
  have four := toDigits_byte fourth
  simp only [inetNtoa, List.length_append, List.length_cons, INET_ADDRSTRLEN]
  omega

theorem received_fits {call : Enqueue} (came : received call) :
    call.ip.chars.length ≤ INET_ADDRSTRLEN - 1 ∧ call.msg.chars.length ≤ MAXDATASIZE - 1 := by
  obtain ⟨address, datagram, found⟩ := came
  cases datagram with
  | none => cases found
  | some payload =>
    simp only [receiveFrom] at found
    split at found
    · cases found
    · obtain rfl := Option.some.inj found
      constructor
      · exact Nat.le_trans (length_cString_le _) (length_inetNtoa address)
      · apply Nat.le_trans (length_cString_le _)
        split
        · rw [List.length_dropLast]
          exact Nat.le_trans (Nat.sub_le _ _) (List.length_take_le _ _)
        · exact List.length_take_le _ _

end Lsnp.MsgServer
