import Lsnp.MsgServer.Queue
import Lsnp.Structures.Deadlines

/-! The loop of `main` in the message server: it polls the sockets of two ports and receives from
each that has something, one datagram a round. -/

namespace Lsnp.MsgServer

open Lsnp.Interaction Lsnp.Libc Lsnp.Structures

def PORT1 : Nat := 60000
def PORT2 : Nat := 60001

/-- The sockets, by their places in `fds`. -/
inductive Port where
  | port1
  | port2
  deriving DecidableEq

def Port.number : Port → Nat
  | .port1 => PORT1
  | .port2 => PORT2

structure Datagram where
  address : Fin 256 × Fin 256 × Fin 256 × Fin 256
  payload : List Char
  deriving DecidableEq

/-- What `receive_from` calls `enqueue` with. -/
def Datagram.call (datagram : Datagram) : Option Enqueue :=
  receiveFrom datagram.address (some datagram.payload)

/-- The line that `receive_from` prints. -/
def lineOf (port : Port) (call : Enqueue) : List Char :=
  "[port ".toList ++ Nat.toDigits 10 port.number ++ "] ".toList ++ call.ip.chars ++ " : ".toList ++
    call.msg.chars ++ ['\n']

/-- A datagram in a socket. Its deadline is the poll behind which it is received at the latest: from
its arrival on there is one for each datagram in front of it and one for itself, and one more for each
`recvfrom` that fails. -/
structure Arrival where
  datagram : Datagram
  deadline : Nat

/-- A datagram that was received, behind which poll. -/
structure Receipt where
  port : Port
  datagram : Datagram
  poll : Nat
  deadline : Nat

/-- Where `main` is in its loop: in `poll`, or with one of the sockets in front of the `if`, in
`recvfrom`, in front of the `printf` or in `enqueue`. -/
inductive Main where
  | polling
  | testing (port : Port)
  | receiving (port : Port)
  | printing (port : Port) (call : Enqueue)
  | enqueuing (port : Port)
  | returned
  deriving DecidableEq

/-- Behind the `if` of a socket. -/
def Main.next : Port → Main
  | .port1 => .testing .port2
  | .port2 => .polling

/-- The sockets whose `if` has not been left yet in this round. -/
def Main.ahead : Main → List Port
  | .testing .port1 | .receiving .port1 => [.port1, .port2]
  | .printing .port1 _ | .enqueuing .port1 => [.port2]
  | .testing .port2 | .receiving .port2 => [.port2]
  | _ => []

/-- The queue and the places of the threads in it, `main` in its loop, what is in the sockets and in
`fds`, and what has arrived, been received and been printed in how many rounds. -/
structure Listening where
  server : State
  main : Main
  revents : Port → Bool
  sockets : Port → List Arrival
  arrived : Port → List Datagram
  received : List Receipt
  printed : List (List Char)
  polls : Nat

/-- A statement of `main`, or of the `enqueue` that it has called. -/
inductive MainStep (state : Listening) : Listening → Prop where
  | poll (at' : state.main = .polling) (ready : ∃ port, state.sockets port ≠ []) :
      MainStep state { state with
        main := .testing .port1
        revents := fun port => !(state.sockets port).isEmpty
        polls := state.polls + 1 }
  | skip {port : Port} (at' : state.main = .testing port) (nothing : state.revents port = false) :
      MainStep state { state with main := .next port }
  | enter {port : Port} (at' : state.main = .testing port) (something : state.revents port = true) :
      MainStep state { state with main := .receiving port }
  | recvfrom {port : Port} {arrival : Arrival} {rest : List Arrival} (at' : state.main = .receiving port)
      (first : state.sockets port = arrival :: rest) :
      MainStep state { state with
        main := match arrival.datagram.call with
          | none => .next port
          | some call => .printing port call
        sockets := Function.update state.sockets port rest
        received := state.received ++ [⟨port, arrival.datagram, state.polls, arrival.deadline⟩] }
  | print {port : Port} {call : Enqueue} (at' : state.main = .printing port call) :
      MainStep state { state with
        main := .enqueuing port
        server := { state.server with receiver := .locking call }
        printed := state.printed ++ [lineOf port call] }
  | enqueue {port : Port} {after : State} (at' : state.main = .enqueuing port)
      (step : Step (fun _ => False) state.server after)
      (own : after.receiver ≠ state.server.receiver) :
      MainStep state { state with server := after }
  | return' {port : Port} (at' : state.main = .enqueuing port)
      (done : state.server.receiver = .polling) :
      MainStep state { state with main := .next port }

/-- A call of `main` that fails. A `recvfrom` that does so puts all that is in the socket off by one
round. -/
inductive FailStep (state : Listening) : Listening → Prop where
  | poll (at' : state.main = .polling) : FailStep state { state with main := .returned }
  | recvfrom {port : Port} (at' : state.main = .receiving port) :
      FailStep state { state with
        main := .next port
        sockets := Function.update state.sockets port
          ((state.sockets port).map fun arrival => { arrival with deadline := arrival.deadline + 1 }) }

/-- A statement of `msg_collect`. -/
inductive CollectStep (state : Listening) : Listening → Prop where
  | collect {after : State} (running : state.main ≠ .returned)
      (step : Step (fun _ => False) state.server after)
      (own : after.receiver = state.server.receiver) :
      CollectStep state { state with server := after }

/-- A datagram comes to a port. -/
inductive ArriveStep (state : Listening) : Listening → Prop where
  | arrive (port : Port) (datagram : Datagram) (running : state.main ≠ .returned) :
      ArriveStep state { state with
        sockets := Function.update state.sockets port
          (state.sockets port ++ [⟨datagram, state.polls + (state.sockets port).length + 1⟩])
        arrived := Function.update state.arrived port (state.arrived port ++ [datagram]) }

inductive ListenStep (state after : Listening) : Prop where
  | main (step : MainStep state after)
  | fail (step : FailStep state after)
  | collect (step : CollectStep state after)
  | arrive (step : ArriveStep state after)

def Listening.initial : Listening where
  server := .initial
  main := .polling
  revents _ := false
  sockets _ := []
  arrived _ := []
  received := []
  printed := []
  polls := 0

def listener : Machine Listening := ⟨(· = .initial), ListenStep⟩

/-- The call that the receiving thread is still in and that has been neither accepted nor dropped. -/
def Receiver.pending : Receiver → List Enqueue
  | .locking call | .testing call | .storingIp call | .storingMessage call | .advancing call
  | .counting call => [call]
  | _ => []

/-- The line that is still to be printed, with what it is about. -/
def Main.pending : Main → List (Port × Enqueue)
  | .printing port call => [(port, call)]
  | _ => []

@[simp] theorem pending_next (port : Port) : (Main.next port).pending = [] := by
  cases port <;> rfl

namespace Listening

/-- What there was to be put into the queue, in the order of the receipts. -/
def calls (state : Listening) : List (Port × Enqueue) :=
  state.received.filterMap fun receipt => receipt.datagram.call.map (receipt.port, ·)

def pending (state : Listening) : List Enqueue :=
  state.server.receiver.pending ++ state.main.pending.map Prod.snd

end Listening

/-- Each port's datagrams are received once and in their order, every datagram in time; each that is
not empty is printed, and accepted or dropped; and `main` waits for nothing but datagrams, when there
are none, and for `msg_collect`, when that can go on. -/
structure Serves (state : Listening) : Prop where
  once : ∀ port, state.arrived port =
    (state.received.filter (·.port = port)).map Receipt.datagram ++
      (state.sockets port).map Arrival.datagram
  inTime : ∀ receipt ∈ state.received, receipt.poll ≤ receipt.deadline
  soon : ∀ port, ∀ arrival ∈ state.sockets port, state.polls ≤ arrival.deadline
  printed : state.printed ++ state.main.pending.map (fun pending => lineOf pending.1 pending.2) =
    state.calls.map fun call => lineOf call.1 call.2
  handled : (state.server.accepted ++ state.server.dropped.map Prod.fst ++ state.pending).Perm
    (state.calls.map Prod.snd)
  order : (state.server.accepted ++ state.pending).Sublist (state.calls.map Prod.snd)
  logged : state.server.taken.map LogEntry.strings <+:
    state.server.accepted.map fun call => (call.ip.chars, call.msg.chars)
  ready : ∀ port, state.main = .receiving port → state.sockets port ≠ []
  goesOn : state.main = .returned ∨ (state.main = .polling ∧ ∀ port, state.sockets port = []) ∨
    (∃ after, MainStep state after) ∨
      state.server.qMutex = some .collecting ∧ ∃ after, CollectStep state after

variable {state after : Listening} {queue next : State} {port : Port}

theorem Step.mono {arrives wider : Enqueue → Prop} (allowed : ∀ {call}, arrives call → wider call)
    (step : Step arrives queue next) : Step wider queue next := by
  cases step with
  | receive at' arrived => exact .receive at' (allowed arrived)
  | lock at' free => exact .lock at' free
  | accept at' room => exact .accept at' room
  | drop at' full => exact .drop at' full
  | storeIp at' => exact .storeIp at'
  | storeMessage at' => exact .storeMessage at'
  | advanceTail at' => exact .advanceTail at'
  | countUp at' => exact .countUp at'
  | signal at' => exact .signal at'
  | unlock at' => exact .unlock at'
  | openLog at' => exact .openLog at'
  | giveUp at' => exact .giveUp at'
  | lockQueue at' free => exact .lockQueue at' free
  | sleep at' empty => exact .sleep at' empty
  | wake at' => exact .wake at'
  | relock at' free => exact .relock at' free
  | goOn at' some => exact .goOn at' some
  | copy at' => exact .copy at'
  | advanceHead at' => exact .advanceHead at'
  | countDown at' => exact .countDown at'
  | unlockQueue at' => exact .unlockQueue at'
  | log at' => exact .log at'

/-- What becomes of a call in one step: it stays where it is, or it is accepted or dropped. -/
inductive Handles (queue next : State) : Prop where
  | same (accepted : next.accepted = queue.accepted) (dropped : next.dropped = queue.dropped)
      (pending : next.receiver.pending = queue.receiver.pending)
  | accept {call : Enqueue} (pending : queue.receiver.pending = [call])
      (none : next.receiver.pending = []) (accepted : next.accepted = queue.accepted ++ [call])
      (dropped : next.dropped = queue.dropped)
  | drop {call : Enqueue} {waiting : Nat} (pending : queue.receiver.pending = [call])
      (none : next.receiver.pending = []) (accepted : next.accepted = queue.accepted)
      (dropped : next.dropped = queue.dropped ++ [(call, waiting)])

theorem step_handles (step : Step (fun _ => False) queue next) : Handles queue next := by
  cases step with
  | receive at' arrived => exact arrived.elim
  | countUp at' => exact .accept (by rw [at']; rfl) rfl rfl rfl
  | drop at' full => exact .drop (by rw [at']; rfl) rfl rfl rfl
  | lock at' free | accept at' room | storeIp at' | storeMessage at' | advanceTail at' | signal at'
  | unlock at' => exact .same rfl rfl (by rw [at']; rfl)
  | openLog | giveUp | lockQueue | sleep | wake | relock | goOn | copy | advanceHead | countDown
  | unlockQueue | log => exact .same rfl rfl rfl

theorem Handles.perm (handles : Handles queue next) (rest : List Enqueue) :
    (next.accepted ++ next.dropped.map Prod.fst ++ (next.receiver.pending ++ rest)).Perm
      (queue.accepted ++ queue.dropped.map Prod.fst ++ (queue.receiver.pending ++ rest)) := by
  cases handles with
  | same accepted dropped pending => rw [accepted, dropped, pending]
  | @accept call pending none accepted dropped =>
    rw [accepted, dropped, pending, none, List.append_assoc, List.append_assoc, List.append_assoc]
    refine List.Perm.append_left _ ?_
    have moved : (queue.dropped.map Prod.fst ++ call :: rest).Perm
        (call :: (queue.dropped.map Prod.fst ++ rest)) := List.perm_middle
    simpa using moved.symm
  | drop pending none accepted dropped =>
    rw [accepted, dropped, pending, none, List.map_append]
    simp

theorem Handles.sublist (handles : Handles queue next) (rest : List Enqueue) :
    (next.accepted ++ (next.receiver.pending ++ rest)).Sublist
      (queue.accepted ++ (queue.receiver.pending ++ rest)) := by
  cases handles with
  | same accepted dropped pending => rw [accepted, pending]
  | accept pending none accepted dropped =>
    rw [accepted, pending, none]
    simp
  | drop pending none accepted dropped =>
    rw [accepted, pending, none]
    exact List.Sublist.append_left (List.sublist_append_right _ _) _

/-- In `enqueue` the receiving thread can go on, unless the other one has the mutex. -/
theorem enqueue_goesOn (invariant : Invariant queue) (busy : queue.receiver ≠ .polling) :
    (∃ next, Step (fun _ => False) queue next ∧ next.receiver ≠ queue.receiver) ∨
      queue.qMutex = some .collecting := by
  cases at' : queue.receiver with
  | polling => exact (busy at').elim
  | locking call =>
    cases owner : queue.qMutex with
    | none => exact .inl ⟨_, .lock at' owner, Receiver.noConfusion⟩
    | some thread =>
      cases thread with
      | collecting => exact .inr rfl
      | receiving =>
        have inside := invariant.receiving.mp owner
        rw [at'] at inside
        cases inside
  | testing call =>
    by_cases room : queue.qCount < QUEUE_SIZE
    · exact .inl ⟨_, .accept at' room, Receiver.noConfusion⟩
    · exact .inl ⟨_, .drop at' room, Receiver.noConfusion⟩
  | storingIp call => exact .inl ⟨_, .storeIp at', Receiver.noConfusion⟩
  | storingMessage call => exact .inl ⟨_, .storeMessage at', Receiver.noConfusion⟩
  | advancing call => exact .inl ⟨_, .advanceTail at', Receiver.noConfusion⟩
  | counting call => exact .inl ⟨_, .countUp at', Receiver.noConfusion⟩
  | signalling => exact .inl ⟨_, .signal at', Receiver.noConfusion⟩
  | unlocking => exact .inl ⟨_, .unlock at', Receiver.noConfusion⟩

theorem collect_goesOn (invariant : Invariant queue) (owner : queue.qMutex = some .collecting) :
    ∃ next, Step (fun _ => False) queue next ∧ next.receiver = queue.receiver := by
  have inside := invariant.collecting.mp owner
  cases at' : queue.collector with
  | testing =>
    by_cases empty : queue.qCount = 0
    · exact ⟨_, .sleep at' empty, rfl⟩
    · exact ⟨_, .goOn at' empty, rfl⟩
  | copying => exact ⟨_, .copy at', rfl⟩
  | advancing entry => exact ⟨_, .advanceHead at', rfl⟩
  | counting entry => exact ⟨_, .countDown at', rfl⟩
  | unlocking entry => exact ⟨_, .unlockQueue at', rfl⟩
  | opening | returned | locking | waiting | woken | logging =>
    rw [at'] at inside
    cases inside

theorem Consistent.taken {slots : Nat → LogEntry} {qHead qTail qCount : Nat} {taken : List LogEntry}
    {accepted : List Enqueue} (consistent : Consistent slots qHead qTail qCount taken accepted) :
    taken.map LogEntry.strings <+: accepted.map Enqueue.strings := by
  rw [← consistent.order, List.map_append]
  exact List.prefix_append _ _

/-- What was taken out of the queue is, in order, what was accepted first. -/
theorem taken_accepted (invariant : Invariant queue) :
    queue.taken.map LogEntry.strings <+: queue.accepted.map Enqueue.strings := by
  have sound := invariant.sound
  unfold State.sound at sound
  cases owner : queue.qMutex with
  | none =>
    rw [owner] at sound
    exact Consistent.taken sound
  | some thread =>
    rw [owner] at sound
    cases thread with
    | receiving =>
      change queue.storing at sound
      unfold State.storing at sound
      cases at' : queue.receiver with
      | counting call =>
        rw [at'] at sound
        -- the entry that is stored but not counted is behind those that are
        have order := sound.order
        simp only [window_succ, ← List.append_assoc, List.map_append] at order
        obtain ⟨same, -⟩ := List.append_inj' order rfl
        rw [← same]
        exact List.prefix_append _ _
      | storingIp | storingMessage | advancing =>
        rw [at'] at sound
        exact sound.1.taken
      | polling | locking | testing | signalling | unlocking =>
        rw [at'] at sound
        exact Consistent.taken sound
    | collecting =>
      change queue.taking at sound
      unfold State.taking at sound
      cases at' : queue.collector with
      | counting entry =>
        rw [at'] at sound
        refine List.IsPrefix.trans ?_ (Consistent.taken sound)
        rw [List.map_append]
        exact List.prefix_append _ _
      | copying | advancing =>
        rw [at'] at sound
        exact sound.1.taken
      | opening | returned | locking | testing | waiting | woken | unlocking | logging =>
        rw [at'] at sound
        exact Consistent.taken sound

namespace Listening

/-- The poll has found something in the socket, and its turn is still to come. -/
def due (state : Listening) (port : Port) : Bool :=
  decide (port ∈ state.main.ahead) && state.revents port

/-- The number of the poll behind which the first datagram of the socket comes. -/
def clock (state : Listening) (port : Port) : Nat :=
  state.polls + if state.due port then 0 else 1

end Listening

/-- What holds of the sockets, whatever becomes of the queue. -/
structure Timely (state : Listening) : Prop where
  entered : ∀ port, state.main = .receiving port → state.revents port = true
  due : ∀ port, state.due port = true → state.sockets port ≠ []
  onTime : ∀ port, OnTime (state.clock port) ((state.sockets port).map Arrival.deadline)
  once : ∀ port, state.arrived port =
    (state.received.filter (·.port = port)).map Receipt.datagram ++
      (state.sockets port).map Arrival.datagram
  inTime : ∀ receipt ∈ state.received, receipt.poll ≤ receipt.deadline

theorem Timely.ready (timely : Timely state) (at' : state.main = .receiving port) :
    state.sockets port ≠ [] := by
  refine timely.due port ?_
  rw [Listening.due, timely.entered port at', at']
  cases port <;> rfl

theorem Timely.move {main : Main} {server : State} {printed : List (List Char)} (timely : Timely state)
    (entered : ∀ port, main = .receiving port → state.revents port = true)
    (due : ∀ port, Listening.due { state with main := main } port = state.due port) :
    Timely { state with main := main, server := server, printed := printed } where
  entered := entered
  due port ready := timely.due port ((due port).symm.trans ready)
  onTime port := by
    have same : Listening.clock { state with main := main, server := server, printed := printed } port =
        state.clock port := congrArg (state.polls + if · = true then 0 else 1) (due port)
    rw [same]
    exact timely.onTime port
  once := timely.once
  inTime := timely.inTime

theorem Timely.recvfrom {arrival : Arrival} {rest : List Arrival} {main : Main} (timely : Timely state)
    (at' : state.main = .receiving port) (first : state.sockets port = arrival :: rest)
    (entered : ∀ port, main ≠ .receiving port) (ahead : main.ahead = (Main.next port).ahead) :
    Timely { state with
      main := main
      sockets := Function.update state.sockets port rest
      received := state.received ++ [⟨port, arrival.datagram, state.polls, arrival.deadline⟩] } := by
  have turn : state.due port = true := by
    rw [Listening.due, timely.entered port at', at']
    cases port <;> rfl
  have behind : port ∉ main.ahead := by
    rw [ahead]
    cases port <;> decide
  have others : ∀ other ≠ port, (other ∈ main.ahead ↔ other ∈ state.main.ahead) := by
    intro other apart
    rw [ahead, at']
    cases port <;> cases other <;> first | exact (apart rfl).elim | decide
  have onTime := timely.onTime port
  rw [Listening.clock, turn, first] at onTime
  obtain ⟨inTime, later⟩ := onTime
  constructor
  · exact fun other at' => (entered other at').elim
  · intro other due
    by_cases same : other = port
    · subst same
      simp [Listening.due, behind] at due
    · simp only [Listening.due, others other same] at due
      simpa [Function.update_of_ne same] using timely.due other due
  · intro other
    by_cases same : other = port
    · subst same
      simpa [Listening.clock, Listening.due, behind] using later
    · have kept := timely.onTime other
      simpa [Listening.clock, Listening.due, others other same, Function.update_of_ne same] using kept
  · intro other
    have once := timely.once other
    by_cases same : other = port
    · subst same
      rw [first] at once
      simpa [List.filter_append] using once
    · simpa [List.filter_append, Function.update_of_ne same, Ne.symm same] using once
  · intro receipt member
    rcases List.mem_append.mp member with old | new
    · exact timely.inTime receipt old
    · obtain rfl := List.mem_singleton.mp new
      exact inTime

theorem main_timely (timely : Timely state) (step : MainStep state after) : Timely after := by
  cases step with
  | poll at' ready =>
    refine ⟨fun _ same => Main.noConfusion same, fun port due => ?_, fun port => ?_, timely.once,
      timely.inTime⟩
    · have some : ¬ state.sockets port = [] := by
        simp only [Listening.due] at due
        simpa using (Bool.and_eq_true_iff.mp due).2
      exact some
    · cases found : state.sockets port with
      | nil => simp
      | cons arrival rest =>
        have onTime := timely.onTime port
        have idle : state.due port = false := by rw [Listening.due, at']; rfl
        have turn : Listening.due { state with
            main := .testing .port1, revents := fun port => !(state.sockets port).isEmpty,
            polls := state.polls + 1 } port = true := by
          simp only [Listening.due, found]
          cases port <;> rfl
        rw [Listening.clock, idle, found] at onTime
        rw [Listening.clock, turn]
        exact onTime
  | @skip port at' nothing =>
    refine timely.move (fun other same => ?_) fun other => ?_
    · cases port <;> cases same
    · simp only [Listening.due, at']
      cases port <;> cases other <;> simp [Main.next, Main.ahead, nothing]
  | @enter port at' something =>
    refine timely.move (fun other same => ?_) fun other => ?_
    · cases same
      exact something
    · simp only [Listening.due, at']
      cases port <;> rfl
  | @recvfrom port arrival rest at' first =>
    cases found : arrival.datagram.call with
    | none => exact timely.recvfrom at' first (by cases port <;> exact fun _ => Main.noConfusion) rfl
    | some call => exact timely.recvfrom at' first (fun _ => Main.noConfusion) (by cases port <;> rfl)
  | @print port call at' =>
    refine timely.move (fun other same => ?_) fun other => ?_
    · cases same
    · simp only [Listening.due, at']
      cases port <;> rfl
  | enqueue at' step own => exact timely.move timely.entered fun _ => rfl
  | @return' port at' done =>
    refine timely.move (fun other same => ?_) fun other => ?_
    · cases port <;> cases same
    · simp only [Listening.due, at']
      cases port <;> rfl

private theorem deadlines_putOff (arrivals : List Arrival) :
    (arrivals.map fun arrival => { arrival with deadline := arrival.deadline + 1 }).map Arrival.deadline =
      (arrivals.map Arrival.deadline).map (· + 1) := by
  simp

theorem fail_timely (timely : Timely state) (step : FailStep state after) : Timely after := by
  cases step with
  | poll at' =>
    refine timely.move (fun _ same => Main.noConfusion same) fun other => ?_
    simp only [Listening.due, at']
    rfl
  | @recvfrom port at' =>
    have turn : state.due port = true := by
      rw [Listening.due, timely.entered port at', at']
      cases port <;> rfl
    have behind : port ∉ (Main.next port).ahead := by cases port <;> decide
    have others : ∀ other ≠ port, (other ∈ (Main.next port).ahead ↔ other ∈ state.main.ahead) := by
      intro other apart
      rw [at']
      cases port <;> cases other <;> first | exact (apart rfl).elim | decide
    constructor
    · intro other same
      cases port <;> cases same
    · intro other due
      by_cases same : other = port
      · subst same
        simp [Listening.due, behind] at due
      · simp only [Listening.due, others other same] at due
        simpa [Function.update_of_ne same] using timely.due other due
    · intro other
      by_cases same : other = port
      · subst same
        have onTime := timely.onTime other
        rw [Listening.clock, turn] at onTime
        have later := onTime.putOff
        rw [← deadlines_putOff] at later
        simpa [Listening.clock, Listening.due, behind] using later
      · have kept := timely.onTime other
        simpa [Listening.clock, Listening.due, others other same, Function.update_of_ne same] using kept
    · intro other
      have once := timely.once other
      by_cases same : other = port
      · subst same
        simpa [Function.comp_def] using once
      · simpa [Function.update_of_ne same] using once
    · exact timely.inTime

theorem arrive_timely (timely : Timely state) (step : ArriveStep state after) : Timely after := by
  cases step with
  | arrive port datagram running =>
    refine ⟨timely.entered, fun other due => ?_, fun other => ?_, fun other => ?_, timely.inTime⟩
    · by_cases same : other = port
      · subst same
        simp
      · simpa [Function.update_of_ne same] using timely.due other due
    · by_cases same : other = port
      · subst same
        have clock : state.clock other ≤ state.polls + 1 := by
          unfold Listening.clock
          split <;> omega
        have late : state.clock other + ((state.sockets other).map Arrival.deadline).length ≤
            state.polls + (state.sockets other).length + 1 := by
          rw [List.length_map]
          omega
        have pushed := (timely.onTime other).push late
        change OnTime (state.clock other) _
        simpa using pushed
      · have kept := timely.onTime other
        change OnTime (state.clock other) _
        simpa [Function.update_of_ne same] using kept
    · by_cases same : other = port
      · subst same
        have once := timely.once other
        simp [once]
      · simpa [Function.update_of_ne same] using timely.once other

/-- What holds of the queue, the calls that led to it and what is printed. -/
structure Accounted (state : Listening) : Prop where
  server : (Lsnp.MsgServer.server received).Reachable state.server
  idle : (∀ port, state.main ≠ .enqueuing port) → state.server.receiver = .polling
  printed : state.printed ++ state.main.pending.map (fun pending => lineOf pending.1 pending.2) =
    state.calls.map fun call => lineOf call.1 call.2
  handled : (state.server.accepted ++ state.server.dropped.map Prod.fst ++ state.pending).Perm
    (state.calls.map Prod.snd)
  order : (state.server.accepted ++ state.pending).Sublist (state.calls.map Prod.snd)

/-- `main` goes on outside of `enqueue`, with nothing to print before or afterwards. -/
theorem Accounted.move {main : Main} {revents : Port → Bool} {sockets : Port → List Arrival} {polls : Nat}
    {arrived : Port → List Datagram} (accounted : Accounted state)
    (idle : state.server.receiver = .polling) (none : state.main.pending = []) (still : main.pending = []) :
    Accounted { state with main, revents, sockets, arrived, polls } where
  server := accounted.server
  idle _ := idle
  printed := by
    have printed := accounted.printed
    rw [none] at printed
    rw [still]
    exact printed
  handled := by
    have handled := accounted.handled
    rw [Listening.pending, none] at handled
    rw [Listening.pending, still]
    exact handled
  order := by
    have order := accounted.order
    rw [Listening.pending, none] at order
    rw [Listening.pending, still]
    exact order

/-- The thread that has called `enqueue` goes on in it, or the other one goes on. -/
theorem Accounted.step (accounted : Accounted state) (step : Step (fun _ => False) state.server next)
    (idle : (∀ port, state.main ≠ .enqueuing port) → next.receiver = .polling) :
    Accounted { state with server := next } := by
  have handles := step_handles step
  exact {
    server := accounted.server.next (step.mono False.elim)
    idle
    printed := accounted.printed
    handled := (handles.perm _).trans accounted.handled
    order := (handles.sublist _).trans accounted.order }

/-- One more datagram is received, to be printed next if there is something in it. -/
theorem Accounted.recvfrom {arrival : Arrival} {rest : List Arrival} (accounted : Accounted state)
    (at' : state.main = .receiving port) :
    Accounted { state with
      main := match arrival.datagram.call with
        | none => .next port
        | some call => .printing port call
      sockets := Function.update state.sockets port rest
      received := state.received ++ [⟨port, arrival.datagram, state.polls, arrival.deadline⟩] } := by
  have idle : state.server.receiver = .polling := accounted.idle fun other same => by
    rw [at'] at same
    cases same
  have none : state.main.pending = [] := by rw [at']; rfl
  obtain ⟨server, -, printed, handled, order⟩ := accounted
  rw [none] at printed
  rw [Listening.pending, none] at handled order
  cases found : arrival.datagram.call with
  | none =>
    refine ⟨server, fun _ => idle, ?_, ?_, ?_⟩
    · simpa [Listening.calls, found] using printed
    · simpa [Listening.pending, Listening.calls, found] using handled
    · simpa [Listening.pending, Listening.calls, found] using order
  | some call =>
    refine ⟨server, fun _ => idle, ?_, ?_, ?_⟩
    · simpa [Main.pending, Listening.calls, found] using printed
    · have more := handled.append_right [call]
      simpa [Main.pending, Listening.pending, Listening.calls, found] using more
    · have more := order.append_right [call]
      simpa [Main.pending, Listening.pending, Listening.calls, found] using more

theorem Listening.received_of_mem (state : Listening) {call : Enqueue}
    (member : call ∈ state.calls.map Prod.snd) : MsgServer.received call := by
  obtain ⟨⟨port, other⟩, among, rfl⟩ := List.mem_map.mp member
  obtain ⟨receipt, -, listed⟩ := List.mem_filterMap.mp among
  obtain ⟨call, found, same⟩ := Option.map_eq_some_iff.mp listed
  obtain ⟨rfl, rfl⟩ := Prod.mk.inj same
  exact ⟨receipt.datagram.address, some receipt.datagram.payload, found⟩

theorem Accounted.print {call : Enqueue} (accounted : Accounted state)
    (at' : state.main = .printing port call) :
    Accounted { state with
      main := .enqueuing port
      server := { state.server with receiver := .locking call }
      printed := state.printed ++ [lineOf port call] } := by
  have idle : state.server.receiver = .polling := accounted.idle fun other same => by
    rw [at'] at same
    cases same
  have member : call ∈ state.calls.map Prod.snd := by
    refine accounted.handled.subset ?_
    simp [Listening.pending, at', Main.pending]
  obtain ⟨server, -, printed, handled, order⟩ := accounted
  rw [at'] at printed
  rw [Listening.pending, idle, at'] at handled order
  refine ⟨?_, fun outside => (outside port rfl).elim, ?_, handled, order⟩
  · exact server.next (Step.receive idle (state.received_of_mem member))
  · change _ = state.calls.map _
    simpa [Main.pending] using printed

theorem main_accounted (accounted : Accounted state) (step : MainStep state after) : Accounted after := by
  have idle : ∀ {main : Main}, state.main = main → (∀ port, main ≠ .enqueuing port) →
      state.server.receiver = .polling := by
    rintro main rfl outside
    exact accounted.idle outside
  cases step with
  | poll at' ready =>
    exact accounted.move (idle at' fun _ => Main.noConfusion) (by rw [at']; rfl) rfl
  | skip at' nothing =>
    exact accounted.move (idle at' fun _ => Main.noConfusion) (by rw [at']; rfl) (pending_next _)
  | enter at' something =>
    exact accounted.move (idle at' fun _ => Main.noConfusion) (by rw [at']; rfl) rfl
  | recvfrom at' first => exact accounted.recvfrom at'
  | print at' => exact accounted.print at'
  | enqueue at' step own => exact accounted.step step fun outside => (outside _ at').elim
  | return' at' done => exact accounted.move done (by rw [at']; rfl) (pending_next _)

theorem fail_accounted (accounted : Accounted state) (step : FailStep state after) : Accounted after := by
  have idle : ∀ {main : Main}, state.main = main → (∀ port, main ≠ .enqueuing port) →
      state.server.receiver = .polling := by
    rintro main rfl outside
    exact accounted.idle outside
  cases step with
  | poll at' => exact accounted.move (idle at' fun _ => Main.noConfusion) (by rw [at']; rfl) rfl
  | recvfrom at' =>
    exact accounted.move (idle at' fun _ => Main.noConfusion) (by rw [at']; rfl) (pending_next _)

private theorem timely_accounted (reachable : listener.Reachable state) :
    Timely state ∧ Accounted state := by
  refine reachable.invariant (fun state => Timely state ∧ Accounted state) ?_ ?_
  · rintro state rfl
    constructor
    · exact ⟨fun _ same => Main.noConfusion same, fun _ due => Bool.noConfusion due, fun _ => trivial,
        fun _ => rfl, fun _ member => nomatch member⟩
    · exact ⟨.start rfl, fun _ => rfl, rfl, .refl _, .refl _⟩
  · intro state after held step
    obtain ⟨timely, accounted⟩ := held
    rcases step with step | step | step | step
    · exact ⟨main_timely timely step, main_accounted accounted step⟩
    · exact ⟨fail_timely timely step, fail_accounted accounted step⟩
    · obtain ⟨running, step, own⟩ := step
      exact ⟨timely.move timely.entered fun _ => rfl,
        accounted.step step fun outside => own.trans (accounted.idle outside)⟩
    · refine ⟨arrive_timely timely step, ?_⟩
      obtain ⟨port, datagram, running⟩ := step
      exact { accounted with }

private theorem goesOn (timely : Timely state) (accounted : Accounted state) :
    state.main = .returned ∨ (state.main = .polling ∧ ∀ port, state.sockets port = []) ∨
      (∃ after, MainStep state after) ∨
        state.server.qMutex = some .collecting ∧ ∃ after, CollectStep state after := by
  cases at' : state.main with
  | returned => exact .inl rfl
  | polling =>
    by_cases ready : ∃ port, state.sockets port ≠ []
    · exact .inr (.inr (.inl ⟨_, .poll at' ready⟩))
    · exact .inr (.inl ⟨rfl, fun port => by_contra fun some => ready ⟨port, some⟩⟩)
  | testing port =>
    cases found : state.revents port with
    | false => exact .inr (.inr (.inl ⟨_, .skip at' found⟩))
    | true => exact .inr (.inr (.inl ⟨_, .enter at' found⟩))
  | receiving port =>
    obtain ⟨arrival, rest, first⟩ := List.exists_cons_of_ne_nil (timely.ready at')
    exact .inr (.inr (.inl ⟨_, .recvfrom at' first⟩))
  | printing port call => exact .inr (.inr (.inl ⟨_, .print at'⟩))
  | enqueuing port =>
    have invariant := invariant_of_reachable accounted.server
    by_cases done : state.server.receiver = .polling
    · exact .inr (.inr (.inl ⟨_, .return' at' done⟩))
    · rcases enqueue_goesOn invariant done with ⟨next, step, own⟩ | owner
      · exact .inr (.inr (.inl ⟨_, .enqueue at' step own⟩))
      · obtain ⟨next, step, own⟩ := collect_goesOn invariant owner
        have running : state.main ≠ .returned := at'.trans_ne Main.noConfusion
        exact .inr (.inr (.inr ⟨owner, _, .collect running step own⟩))

/-- Whenever the datagrams come and the threads get their turns, the server serves both ports. -/
theorem serves_ports (reachable : listener.Reachable state) : Serves state := by
  obtain ⟨timely, accounted⟩ := timely_accounted reachable
  have invariant := invariant_of_reachable accounted.server
  refine {
    once := timely.once
    inTime := timely.inTime
    soon := fun port arrival member => ?_
    printed := accounted.printed
    handled := accounted.handled
    order := accounted.order
    logged := ?_
    ready := fun port at' => timely.ready at'
    goesOn := goesOn timely accounted }
  · have due := (timely.onTime port).le_of_mem (List.mem_map_of_mem member)
    exact Nat.le_trans (Nat.le_add_right _ _) due
  · have whole : state.server.accepted.map Enqueue.strings =
        state.server.accepted.map fun call => (call.ip.chars, call.msg.chars) := by
      refine List.map_congr_left fun call member => ?_
      have among : call ∈ state.calls.map Prod.snd :=
        accounted.order.subset (List.mem_append_left _ member)
      obtain ⟨shortIp, shortMsg⟩ := received_fits (state.received_of_mem among)
      rw [Enqueue.strings, List.take_of_length_le shortIp, List.take_of_length_le shortMsg]
    rw [← whole]
    exact taken_accepted invariant

/-- Two datagrams come to the first port and one to the second one: in the first round one of each is
received. -/
theorem serves_ports_both : ∃ state, state.received.map Receipt.port = [.port1, .port2] ∧
    (state.sockets .port1).length = 1 ∧ state.polls = 1 ∧ Serves state := by
  let datagram (text : String) : Datagram := ⟨(127, 0, 0, 1), text.toList⟩
  have start : listener.Reachable .initial := .start rfl
  have first := start.next (.arrive (.arrive .port1 (datagram "a") Main.noConfusion))
  have second := first.next (.arrive (.arrive .port1 (datagram "b") Main.noConfusion))
  have third := second.next (.arrive (.arrive .port2 (datagram "c") Main.noConfusion))
  have polled := third.next (.main (.poll rfl ⟨.port2, List.cons_ne_nil _ _⟩))
  have entered := polled.next (.main (.enter rfl rfl))
  have received := entered.next (.main (.recvfrom rfl rfl))
  have printed := received.next (.main (.print rfl))
  have locked := printed.next (.main (.enqueue rfl (.lock rfl rfl) Receiver.noConfusion))
  have accepting := locked.next (.main (.enqueue rfl (.accept rfl (by decide)) Receiver.noConfusion))
  have storedIp := accepting.next (.main (.enqueue rfl (.storeIp rfl) Receiver.noConfusion))
  have storedMessage := storedIp.next (.main (.enqueue rfl (.storeMessage rfl) Receiver.noConfusion))
  have advanced := storedMessage.next (.main (.enqueue rfl (.advanceTail rfl) Receiver.noConfusion))
  have counted := advanced.next (.main (.enqueue rfl (.countUp rfl) Receiver.noConfusion))
  have signalled := counted.next (.main (.enqueue rfl (.signal rfl) Receiver.noConfusion))
  have unlocked := signalled.next (.main (.enqueue rfl (.unlock rfl) Receiver.noConfusion))
  have returned := unlocked.next (.main (.return' rfl rfl))
  have other := returned.next (.main (.enter rfl rfl))
  have both := other.next (.main (.recvfrom rfl rfl))
  exact ⟨_, rfl, rfl, rfl, serves_ports both⟩

end Lsnp.MsgServer
