import Lsnp.Interaction.Machine
import Lsnp.Unix.Descriptors
import Mathlib.Data.List.Nodup

/-! The chat server on `epoll`, which hands what it reads from one client to the other
clients of the same batch of events. A step is one `epoll_wait`, or one event. -/

namespace Lsnp.EpollChat

open Lsnp.Interaction Lsnp.Unix

/-- What a descriptor of the server is open for. -/
inductive Socket where
  | other
  | listening
  | client
  deriving DecidableEq

/-- What was there when the server read some bytes, and the `write` calls it made then. -/
structure Reading where
  table : FdTable Socket
  clientList : List Fd
  closed : List Fd
  fd : Fd
  bytes : List UInt8
  writes : List (Fd × List UInt8)

/-- The descriptors of the server, those that are watched, the events of the last
`epoll_wait` and how many of them have been handled, the descriptors closed since then,
and everything that has been read. -/
structure State where
  table : FdTable Socket
  watched : List Fd
  clientList : List Fd
  next : Nat
  closed : List Fd
  readings : List Reading

def broadcast (sockfd fd : Fd) (clientList : List Fd) (bytes : List UInt8) :
    List (Fd × List UInt8) :=
  (clientList.filter fun other => other ≠ sockfd ∧ other ≠ fd).map (·, bytes)

/-- One `epoll_wait`, which may fail and then gives no events, or one event. -/
inductive Step (sockfd : Fd) (state : State) : State → Prop where
  | wait (events : List Fd) (handled : state.next = state.clientList.length)
      (few : events.length ≤ 20) (once : events.Nodup) (ready : ∀ fd ∈ events, fd ∈ state.watched) :
      Step sockfd state { state with clientList := events, next := 0, closed := [] }
  | accept (added : Bool) (event : state.clientList[state.next]? = some sockfd) :
      Step sockfd state { state with
        table := state.table.set state.table.lowest .client
        watched := if added then state.table.lowest :: state.watched else state.watched
        next := state.next + 1 }
  | acceptFails (event : state.clientList[state.next]? = some sockfd) :
      Step sockfd state { state with next := state.next + 1 }
  | close {fd : Fd} (event : state.clientList[state.next]? = some fd) (other : fd ≠ sockfd) :
      -- the end of the stream, or an error
      Step sockfd state { state with
        table := state.table.close fd
        watched := state.watched.filter (· ≠ fd)
        next := state.next + 1
        closed := fd :: state.closed }
  | read {fd : Fd} (bytes : List UInt8) (event : state.clientList[state.next]? = some fd)
      (other : fd ≠ sockfd) (connected : state.table.file fd = some .client) (some : bytes ≠ [])
      (most : bytes.length ≤ 255) :
      Step sockfd state { state with
        next := state.next + 1
        readings := ⟨state.table, state.clientList, state.closed, fd, bytes,
          broadcast sockfd fd state.clientList bytes⟩ :: state.readings }

def server (sockfd : Fd) : Machine State where
  initial state := ∃ table : FdTable Socket, table.file sockfd = some .listening ∧
    (∀ fd, table.file fd ≠ some .client) ∧ state = ⟨table, [sockfd], [], 0, [], []⟩
  step := Step sockfd

/-- What was read was written to each of the other clients once and to nothing else. -/
def Reading.lawful (sockfd : Fd) (reading : Reading) : Prop :=
  (∀ other, other ≠ reading.fd → reading.table.file other = some .client →
    reading.writes.count (other, reading.bytes) = 1) ∧
  ∀ write ∈ reading.writes, write.2 = reading.bytes ∧
    reading.table.file write.1 = some .client ∧ write.1 ≠ reading.fd ∧ write.1 ≠ sockfd ∧
    write.1 ∉ reading.closed

/-- Every client has an event in the batch, and none was closed earlier in it. -/
def Reading.complete (reading : Reading) : Prop :=
  reading.closed = [] ∧
    ∀ other, reading.table.file other = some .client → other ∈ reading.clientList

/-- The events that have not been handled are of open descriptors, the others of open ones
or of closed ones. -/
structure Invariant (sockfd : Fd) (state : State) : Prop where
  listening : state.table.file sockfd = some .listening
  watched : ∀ fd ∈ state.watched, fd = sockfd ∨ state.table.file fd = some .client
  once : state.clientList.Nodup
  closed : ∀ fd ∈ state.closed, fd ∈ state.clientList.take state.next ∧ fd ≠ sockfd
  seen : ∀ fd ∈ state.clientList, fd = sockfd ∨ state.table.file fd = some .client ∨
    fd ∈ state.closed
  readings : ∀ reading ∈ state.readings, reading.lawful sockfd ↔ reading.complete

variable {sockfd : Fd} {state after : State}

theorem mem_broadcast {fd other : Fd} {clientList : List Fd} {bytes sent : List UInt8} :
    (other, sent) ∈ broadcast sockfd fd clientList bytes ↔
      sent = bytes ∧ other ∈ clientList ∧ other ≠ sockfd ∧ other ≠ fd := by
  simp only [broadcast, List.mem_map, List.mem_filter, decide_eq_true_eq, Prod.mk.injEq]
  constructor
  · rintro ⟨_, held, rfl, rfl⟩
    exact ⟨rfl, held⟩
  · rintro ⟨rfl, held⟩
    exact ⟨other, held, rfl, rfl⟩

theorem nodup_broadcast {fd : Fd} {clientList : List Fd} {bytes : List UInt8}
    (once : clientList.Nodup) : (broadcast sockfd fd clientList bytes).Nodup := by
  apply List.Nodup.map _ (once.filter _)
  intro first second same
  exact (Prod.mk.inj same).1

private theorem notMem_take {fd : Fd} (once : state.clientList.Nodup)
    (event : state.clientList[state.next]? = some fd) : fd ∉ state.clientList.take state.next := by
  intro earlier
  obtain ⟨index, before, at'⟩ := List.mem_take_iff_getElem.mp earlier
  have bound : index < state.clientList.length := by omega
  obtain ⟨inside, there⟩ := List.getElem?_eq_some_iff.mp event
  have same : index = state.next := once.getElem_inj_iff.mp (at'.trans there.symm)
  omega

theorem reading_lawful_iff (invariant : Invariant sockfd state) {fd : Fd} {bytes : List UInt8}
    (event : state.clientList[state.next]? = some fd) (other : fd ≠ sockfd)
    (connected : state.table.file fd = some .client) :
    Reading.lawful sockfd ⟨state.table, state.clientList, state.closed, fd, bytes,
      broadcast sockfd fd state.clientList bytes⟩ ↔
    Reading.complete ⟨state.table, state.clientList, state.closed, fd, bytes,
      broadcast sockfd fd state.clientList bytes⟩ := by
  have member := List.mem_of_getElem? event
  constructor
  · rintro ⟨reached, only⟩
    constructor
    · apply List.eq_nil_iff_forall_not_mem.mpr
      intro gone closed
      obtain ⟨earlier, apart⟩ := invariant.closed gone closed
      have other : gone ≠ fd := by
        rintro rfl
        exact notMem_take invariant.once event earlier
      exact (only (gone, bytes) (mem_broadcast.mpr
        ⟨rfl, List.mem_of_mem_take earlier, apart, other⟩)).2.2.2.2 closed
    · intro client open'
      by_cases own : client = fd
      · rw [own]
        exact member
      · have once := reached client own open'
        exact (mem_broadcast.mp (List.count_pos_iff.mp (once ▸ Nat.one_pos))).2.1
  · rintro ⟨closed, all⟩
    constructor
    · intro client own open'
      apply List.count_eq_one_of_mem (nodup_broadcast invariant.once)
      apply mem_broadcast.mpr
      refine ⟨rfl, all client open', ?_, own⟩
      rintro rfl
      rw [invariant.listening] at open'
      cases open'
    · rintro ⟨target, sent⟩ write
      obtain ⟨same, listed, apart, own⟩ := mem_broadcast.mp write
      have none : state.closed = [] := closed
      refine ⟨same, ?_, own, apart, by simp [none]⟩
      rcases invariant.seen target listed with it | open' | gone
      · exact (apart it).elim
      · exact open'
      · simp [none] at gone

private theorem take_next {fd : Fd} (event : state.clientList[state.next]? = some fd) :
    state.clientList.take (state.next + 1) = state.clientList.take state.next ++ [fd] := by
  rw [List.take_add_one, event, Option.toList_some]

theorem step_invariant (invariant : Invariant sockfd state) (step : Step sockfd state after) :
    Invariant sockfd after := by
  obtain ⟨listening, watched, once, closed, seen, readings⟩ := invariant
  -- what has been handled stays handled
  have kept : ∀ fd ∈ state.closed, fd ∈ state.clientList.take (state.next + 1) ∧ fd ≠ sockfd := by
    intro fd gone
    obtain ⟨earlier, apart⟩ := closed fd gone
    refine ⟨?_, apart⟩
    rw [List.take_add_one]
    exact List.mem_append_left _ earlier
  cases step with
  | wait events handled few once' ready =>
    exact ⟨listening, watched, once', nofun,
      fun fd member => (watched fd (ready fd member)).imp_right .inl, readings⟩
  | accept added event =>
    have stays : ∀ fd, state.table.file fd = some .client →
        (state.table.set state.table.lowest .client).file fd = some .client :=
      fun fd open' => FdTable.file_set_lowest _ open'
    refine ⟨FdTable.file_set_lowest _ listening, ?_, once, kept, fun fd member => ?_, readings⟩
    · intro fd member
      have old : fd ∈ state.watched → fd = sockfd ∨
          (state.table.set state.table.lowest .client).file fd = some .client :=
        fun member => (watched fd member).imp_right (stays fd)
      cases added with
      | false => exact old member
      | true =>
        rcases List.mem_cons.mp member with rfl | member
        · exact .inr (by rw [FdTable.file_set, Function.update_self])
        · exact old member
    · exact (seen fd member).imp_right (Or.imp_left (stays fd))
  | acceptFails event => exact ⟨listening, watched, once, kept, seen, readings⟩
  | @close fd event other =>
    have stays : ∀ client, client ≠ fd → (state.table.close fd).file client =
        state.table.file client := by
      intro client apart
      rw [FdTable.file_close, Function.update_of_ne apart]
    refine ⟨?_, ?_, once, ?_, ?_, readings⟩
    · rw [stays _ other.symm]
      exact listening
    · intro client member
      obtain ⟨held, apart⟩ := List.mem_filter.mp member
      rw [stays client (by simpa using apart)]
      exact watched client held
    · intro gone member
      rcases List.mem_cons.mp member with rfl | member
      · rw [take_next event]
        exact ⟨by simp, other⟩
      · exact kept gone member
    · intro client member
      by_cases own : client = fd
      · exact .inr (.inr (by simp [own]))
      · rw [stays client own]
        exact (seen client member).imp_right (Or.imp_right (List.mem_cons_of_mem _))
  | read bytes event other connected some most =>
    refine ⟨listening, watched, once, kept, seen, ?_⟩
    intro reading member
    rcases List.mem_cons.mp member with rfl | member
    · exact reading_lawful_iff ⟨listening, watched, once, closed, seen, readings⟩ event other connected
    · exact readings reading member

theorem invariant_of_reachable (reachable : (server sockfd).Reachable state) :
    Invariant sockfd state := by
  apply reachable.invariant (Invariant sockfd)
  · rintro _ ⟨table, listening, _, rfl⟩
    exact ⟨listening, by simp, List.nodup_nil, nofun, nofun, nofun⟩
  · exact step_invariant

/-- Descriptors 0 to 2, the `epoll` instance and the listening socket. -/
def opened : FdTable Socket :=
  ⟨[some .other, some .other, some .other, some .other, some .listening]⟩

private theorem reachable_reading (events : List Fd) (once : events.Nodup) (few : events.length ≤ 20)
    (ready : ∀ fd ∈ events, fd ∈ [6, 5, 4]) (first : events[0]? = some 5) :
    ∃ state, (server 4).Reachable state ∧ ∃ rest, state.readings =
      ⟨⟨opened.slots ++ [some .client, some .client]⟩, events, [], 5, [104, 105],
        broadcast 4 5 events [104, 105]⟩ :: rest := by
  have start : (server 4).Reachable ⟨opened, [4], [], 0, [], []⟩ := by
    refine .start ⟨opened, rfl, ?_, rfl⟩
    intro fd client
    have some : opened.anyFile (· == .client) = true :=
      FdTable.anyFile_eq_true.mpr ⟨fd, _, client, rfl⟩
    cases some
  have one : ([4] : List Fd).Nodup := by decide
  have event := start.next (Step.wait [4] rfl (by decide) one (by simp))
  have accepted := event.next (Step.accept true rfl)
  have event := accepted.next (Step.wait [4] rfl (by decide) one (by decide))
  have accepted := event.next (Step.accept true rfl)
  have event := accepted.next (Step.wait events rfl few once ready)
  have read := event.next (Step.read [104, 105] first (by decide) rfl (by decide) (by decide))
  exact ⟨_, read, _, rfl⟩

end Lsnp.EpollChat
