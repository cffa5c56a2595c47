import Lsnp.Interaction.Machine
import Lsnp.Unix.Descriptors

/-! The echo server on edge-triggered `epoll`: it reads from a client until there is
nothing left and writes everything back, through one buffer. A step is one library call of
the server, or something that happens at a client. -/

namespace Lsnp.EpollEcho

open Lsnp.Interaction Lsnp.Unix

def MAX_LINE : Nat := 10

/-- `"..."`, which ends a connection. -/
def dots : List UInt8 := [46, 46, 46]

/-- What a descriptor of the server is open for; the clients are numbered as they are
accepted. -/
inductive Socket where
  | other
  | listening
  | client (id : Nat)
  deriving DecidableEq

/-- What `read` gives: bytes, nothing yet (`EAGAIN`), the end of the stream, or an error. -/
inductive Read where
  | data (bytes : List UInt8)
  | again
  | eof
  | error
  deriving DecidableEq

/-- What the server does to the client behind a `read`. -/
inductive Response where
  | echoed (bytes : List UInt8)
  | left
  | disconnected
  deriving DecidableEq

/-- The received bytes of a client that have not been read, whether it has closed its side,
whether `epoll` watches it and has it marked ready, and the server's calls for it. -/
structure Client where
  queue : List UInt8
  hungUp : Bool
  watched : Bool
  ready : Bool
  reads : List Read
  responses : List Response

/-- Where the server is: in front of `epoll_wait`, of the next event, or of a call for the
descriptor of the current one. -/
inductive Phase where
  | waiting
  | handling (rest : List Fd)
  | accepted (clientsd : Fd) (rest : List Fd)
  | adding (clientsd : Fd) (rest : List Fd)
  | reading (fd : Fd) (rest : List Fd)
  | got (fd : Fd) (readn : Nat) (rest : List Fd)
  | finishing (fd : Fd) (rest : List Fd)
  | exited
  deriving DecidableEq

structure State where
  table : FdTable Socket
  clients : Nat → Client
  accepted : Nat
  buffer : List UInt8
  phase : Phase

namespace State

def change (state : State) (id : Nat) (client : Client) : State :=
  { state with clients := Function.update state.clients id client }

/-- A call of `read` for the client, with what it gives. -/
def noteRead (state : State) (id : Nat) (read : Read) : State :=
  state.change id { state.clients id with reads := (state.clients id).reads ++ [read] }

def noteResponse (state : State) (id : Nat) (response : Response) : State :=
  state.change id { state.clients id with
    responses := (state.clients id).responses ++ [response] }

/-- The mark of the descriptor is cleared, if it is that of a client. -/
def unmark (state : State) (events : List Fd) : Nat → Client := fun id =>
  if ∃ fd ∈ events, state.table.file fd = some (.client id)
  then { state.clients id with ready := false }
  else state.clients id

def fill (state : State) (bytes : List UInt8) : List UInt8 :=
  bytes ++ state.buffer.drop bytes.length

end State

/-- A step of the server with all calls doing what they are asked to (`true`), or with one
that fails or does only a part of it (`false`). -/
inductive Step (listensd : Fd) (state : State) : Bool → State → Prop where
  | wait (events : List Fd) (at' : state.phase = .waiting) (few : events.length ≤ 50)
      (once : events.Nodup) (ready : ∀ fd ∈ events, fd = listensd ∨
        ∃ id, state.table.file fd = some (.client id) ∧ (state.clients id).ready = true) :
      Step listensd state true { state with
        clients := state.unmark events
        phase := .handling events }
  | again (at' : state.phase = .handling []) :
      Step listensd state true { state with phase := .waiting }
  | accept {rest : List Fd} (queue : List UInt8) (hungUp : Bool)
      (at' : state.phase = .handling (listensd :: rest)) :
      Step listensd state true { state with
        table := state.table.set state.table.lowest (.client state.accepted)
        clients := Function.update state.clients state.accepted
          ⟨queue, hungUp, false, false, [], []⟩
        accepted := state.accepted + 1
        phase := if 0 < state.table.lowest then .accepted state.table.lowest rest
          else .handling rest }
  | acceptFails {rest : List Fd} (at' : state.phase = .handling (listensd :: rest)) :
      Step listensd state true { state with phase := .handling rest }
  | nonblock {clientsd : Fd} {rest : List Fd} (at' : state.phase = .accepted clientsd rest) :
      Step listensd state true { state with phase := .adding clientsd rest }
  | nonblockFails {clientsd : Fd} {rest : List Fd} (at' : state.phase = .accepted clientsd rest) :
      Step listensd state false { state with phase := .exited }
  | add {clientsd : Fd} {rest : List Fd} {id : Nat} (at' : state.phase = .adding clientsd rest)
      (file : state.table.file clientsd = some (.client id)) :
      Step listensd state true (State.change { state with phase := .handling rest } id
        { state.clients id with
          watched := true
          ready := decide ((state.clients id).queue ≠ []) || (state.clients id).hungUp })
  | addFails {clientsd : Fd} {rest : List Fd} (at' : state.phase = .adding clientsd rest) :
      Step listensd state false { state with phase := .exited }
  | start {fd : Fd} {rest : List Fd} (at' : state.phase = .handling (fd :: rest))
      (other : fd ≠ listensd) :
      Step listensd state true { state with phase := .reading fd rest }
  | read {fd : Fd} {rest : List Fd} {id : Nat} (readn : Nat) (at' : state.phase = .reading fd rest)
      (file : state.table.file fd = some (.client id)) (some : 0 < readn) (most : readn ≤ MAX_LINE)
      (there : readn ≤ (state.clients id).queue.length) :
      Step listensd state true (State.noteRead
        { state with
          clients := Function.update state.clients id { state.clients id with
            queue := (state.clients id).queue.drop readn }
          buffer := state.fill ((state.clients id).queue.take readn)
          phase := .got fd readn rest }
        id (.data ((state.clients id).queue.take readn)))
  | readAgain {fd : Fd} {rest : List Fd} {id : Nat} (at' : state.phase = .reading fd rest)
      (file : state.table.file fd = some (.client id)) (empty : (state.clients id).queue = [])
      (connected : (state.clients id).hungUp = false) :
      Step listensd state true (State.noteResponse
        (State.noteRead { state with phase := .handling rest } id .again) id .left)
  | readEof {fd : Fd} {rest : List Fd} {id : Nat} (at' : state.phase = .reading fd rest)
      (file : state.table.file fd = some (.client id)) (empty : (state.clients id).queue = [])
      (hungUp : (state.clients id).hungUp = true) :
      Step listensd state true (State.noteRead { state with phase := .finishing fd rest } id .eof)
  | readFails {fd : Fd} {rest : List Fd} {id : Nat} (at' : state.phase = .reading fd rest)
      (file : state.table.file fd = some (.client id)) :
      Step listensd state true (State.noteRead { state with phase := .finishing fd rest } id .error)
  | readNothing {fd : Fd} {rest : List Fd} (at' : state.phase = .reading fd rest)
      (file : ∀ id, state.table.file fd ≠ some (.client id)) :
      Step listensd state true { state with phase := .finishing fd rest }
  | stop {fd : Fd} {readn : Nat} {rest : List Fd} (at' : state.phase = .got fd readn rest)
      (stops : dots.isPrefixOf state.buffer) :
      Step listensd state true { state with phase := .finishing fd rest }
  | write {fd : Fd} {readn : Nat} {rest : List Fd} {id : Nat} (written : Nat)
      (at' : state.phase = .got fd readn rest) (goesOn : ¬ dots.isPrefixOf state.buffer)
      (file : state.table.file fd = some (.client id)) (most : written ≤ readn) :
      Step listensd state (decide (written = readn)) (State.noteResponse
        { state with phase := .reading fd rest } id (.echoed (state.buffer.take written)))
  | writeFails {fd : Fd} {readn : Nat} {rest : List Fd} (at' : state.phase = .got fd readn rest)
      (goesOn : ¬ dots.isPrefixOf state.buffer) :
      Step listensd state false { state with phase := .exited }
  | close {fd : Fd} {rest : List Fd} (at' : state.phase = .finishing fd rest) :
      Step listensd state true { state with
        table := state.table.close fd
        clients := fun id => if state.table.file fd = some (.client id)
          then { state.clients id with
            responses := (state.clients id).responses ++ [.disconnected] }
          else state.clients id
        phase := .handling rest }
  | arrive (id : Nat) (bytes : List UInt8) :
      Step listensd state true (state.change id { state.clients id with
        queue := (state.clients id).queue ++ bytes
        ready := (state.clients id).ready || (state.clients id).watched })
  | hangUp (id : Nat) :
      Step listensd state true (state.change id { state.clients id with
        hungUp := true
        ready := (state.clients id).ready || (state.clients id).watched })

/-- The server in front of its loop: the descriptors below that of the listening socket are
open, and there are no clients; the buffer holds anything. -/
structure Starts (listensd : Fd) (state : State) : Prop where
  opened : ∀ fd, fd < listensd → state.table.file fd = some .other
  listening : state.table.file listensd = some .listening
  none : ∀ fd id, state.table.file fd ≠ some (.client id)
  accepted : state.accepted = 0
  silent : ∀ id, (state.clients id).reads = [] ∧ (state.clients id).responses = []
  buffer : state.buffer.length = MAX_LINE
  phase : state.phase = .waiting

def server (listensd : Fd) : Machine State where
  initial := Starts listensd
  step state after := ∃ smooth, Step listensd state smooth after

/-- The server behind `epoll_create`, started from a shell. -/
def beginning (buffer : List UInt8) : State where
  table := ⟨[some .other, some .other, some .other, some .listening, some .other]⟩
  clients _ := ⟨[], false, false, false, [], []⟩
  accepted := 0
  buffer := buffer
  phase := .waiting

theorem beginning_starts (buffer : List UInt8) (length : buffer.length = MAX_LINE) :
    (server 3).initial (beginning buffer) where
  opened fd below := by
    match fd, below with
    | 0, _ | 1, _ | 2, _ => rfl
  listening := rfl
  none fd id file := by
    have some : (beginning buffer).table.anyFile (· == .client id) = true :=
      FdTable.anyFile_eq_true.mpr ⟨fd, _, file, by simp⟩
    cases some
  accepted := rfl
  silent _ := ⟨rfl, rfl⟩
  buffer := length
  phase := rfl

end Lsnp.EpollEcho
