import Lsnp.MsgServer.Server

namespace Lsnp.MsgServer

open Lsnp.Interaction Lsnp.Libc Lsnp.Structures

namespace Receiver

def inside : Receiver → Bool
  | .polling | .locking _ => false
  | _ => true

end Receiver

namespace Collector

def inside : Collector → Bool
  | .testing | .copying | .advancing _ | .counting _ | .unlocking _ => true
  | _ => false

end Collector

/-- The indices of the queue describe the messages in it; these, behind the ones that
were taken, are the ones that were accepted. -/
structure Consistent (queue : Nat → LogEntry) (qHead qTail qCount : Nat) (taken : List LogEntry)
    (accepted : List Enqueue) : Prop where
  head_lt : qHead < QUEUE_SIZE
  count_le : qCount ≤ QUEUE_SIZE
  tail_eq : qTail = (qHead + qCount) % QUEUE_SIZE
  order : (taken ++ window QUEUE_SIZE queue qHead qCount).map LogEntry.strings =
    accepted.map Enqueue.strings

variable {queue : Nat → LogEntry} {qHead qTail qCount : Nat} {taken : List LogEntry}
  {accepted : List Enqueue} {call : Enqueue} {entry : LogEntry}

theorem initial_consistent : Consistent (State.initial).queue 0 0 0 [] [] :=
  ⟨by decide, by decide, rfl, rfl⟩

theorem Consistent.store (consistent : Consistent queue qHead qTail qCount taken accepted)
    (room : qCount < QUEUE_SIZE) (entry : LogEntry) :
    Consistent (Function.update queue qTail entry) qHead qTail qCount taken accepted where
  head_lt := consistent.head_lt
  count_le := consistent.count_le
  tail_eq := consistent.tail_eq
  order := by
    rw [consistent.tail_eq, window_update room]
    exact consistent.order

theorem Consistent.push (consistent : Consistent queue qHead qTail qCount taken accepted)
    (room : qCount < QUEUE_SIZE) (stored : (queue qTail).strings = call.strings) :
    Consistent queue qHead ((qTail + 1) % QUEUE_SIZE) (qCount + 1) taken (accepted ++ [call]) where
  head_lt := consistent.head_lt
  count_le := room
  tail_eq := by rw [consistent.tail_eq, Nat.mod_add_mod, Nat.add_assoc]
  order := by
    have slot := consistent.tail_eq
    rw [window_succ, ← slot, ← List.append_assoc, List.map_append, consistent.order,
      List.map_append, List.map_singleton, List.map_singleton, stored]

theorem Consistent.pop (consistent : Consistent queue qHead qTail qCount taken accepted)
    (some : 0 < qCount) :
    Consistent queue ((qHead + 1) % QUEUE_SIZE) qTail (qCount - 1) (taken ++ [queue qHead])
      accepted := by
  obtain ⟨count, rfl⟩ := Nat.exists_eq_add_one.mpr some
  constructor
  · exact Nat.mod_lt _ (by decide)
  · exact Nat.le_of_succ_le consistent.count_le
  · rw [consistent.tail_eq, Nat.mod_add_mod, Nat.add_sub_cancel]
    congr 1
    omega
  · rw [Nat.add_sub_cancel, List.append_assoc, List.singleton_append,
      ← window_cons consistent.head_lt]
    exact consistent.order

namespace State

/-- The queue is as it should be between two operations. -/
def consistent (state : State) : Prop :=
  Consistent state.queue state.qHead state.qTail state.qCount state.taken state.accepted

/-- How far `enqueue` has got with the queue. -/
def storing (state : State) : Prop :=
  match state.receiver with
  | .storingIp _ => state.consistent ∧ state.qCount < QUEUE_SIZE
  | .storingMessage call => state.consistent ∧ state.qCount < QUEUE_SIZE ∧
      (state.queue state.qTail).clientIp.string = call.strings.1
  | .advancing call => state.consistent ∧ state.qCount < QUEUE_SIZE ∧
      (state.queue state.qTail).strings = call.strings
  | .counting call => Consistent state.queue state.qHead state.qTail (state.qCount + 1)
      state.taken (state.accepted ++ [call])
  | _ => state.consistent

/-- How far `msg_collect` has got with the queue. -/
def taking (state : State) : Prop :=
  match state.collector with
  | .copying => state.consistent ∧ 0 < state.qCount
  | .advancing entry => state.consistent ∧ 0 < state.qCount ∧ entry = state.queue state.qHead
  | .counting entry => Consistent state.queue state.qHead state.qTail (state.qCount - 1)
      (state.taken ++ [entry]) state.accepted
  | _ => state.consistent

/-- The queue, as the thread that has the mutex is about to leave it. -/
def sound (state : State) : Prop :=
  match state.qMutex with
  | none => state.consistent
  | some .receiving => state.storing
  | some .collecting => state.taking

end State

/-- The mutex is with the thread that is inside, and the queue is sound; a message was
dropped only when the queue was full. -/
structure Invariant (state : State) : Prop where
  receiving : state.qMutex = some .receiving ↔ state.receiver.inside = true
  collecting : state.qMutex = some .collecting ↔ state.collector.inside = true
  sound : state.sound
  dropped : ∀ call waiting, (call, waiting) ∈ state.dropped → waiting = QUEUE_SIZE

variable {arrives : Enqueue → Prop} {state after : State}

theorem initial_invariant : Invariant .initial := by
  constructor
  · simp [State.initial, Receiver.inside]
  · simp [State.initial, Collector.inside]
  · exact initial_consistent
  · nofun

/-- The receiving thread, where it is inside, has the mutex, and the other one is outside. -/
theorem Invariant.storing (invariant : Invariant state) (inside : state.receiver.inside = true) :
    state.qMutex = some .receiving ∧ state.collector.inside = false ∧ state.storing := by
  have owner := invariant.receiving.mpr inside
  refine ⟨owner, ?_, ?_⟩
  · by_contra other
    have second := invariant.collecting.mpr (Bool.not_eq_false _ ▸ other)
    rw [owner] at second
    cases second
  · have sound := invariant.sound
    rw [State.sound, owner] at sound
    exact sound

theorem Invariant.taking (invariant : Invariant state) (inside : state.collector.inside = true) :
    state.qMutex = some .collecting ∧ state.receiver.inside = false ∧ state.taking := by
  have owner := invariant.collecting.mpr inside
  refine ⟨owner, ?_, ?_⟩
  · by_contra other
    have second := invariant.receiving.mpr (Bool.not_eq_false _ ▸ other)
    rw [owner] at second
    cases second
  · have sound := invariant.sound
    rw [State.sound, owner] at sound
    exact sound

theorem Invariant.free (invariant : Invariant state) (free : state.qMutex = none) :
    state.receiver.inside = false ∧ state.collector.inside = false ∧ state.consistent := by
  obtain ⟨receiving, collecting, sound, -⟩ := invariant
  rw [State.sound, free] at sound
  rw [free] at receiving collecting
  exact ⟨by simpa using receiving, by simpa using collecting, sound⟩

private theorem of_storing (owner : after.qMutex = some .receiving)
    (inside : after.receiver.inside = true) (outside : after.collector.inside = false)
    (storing : after.storing)
    (dropped : ∀ call waiting, (call, waiting) ∈ after.dropped → waiting = QUEUE_SIZE) :
    Invariant after := by
  refine ⟨by simp [owner, inside], by simp [owner, outside], ?_, dropped⟩
  rw [State.sound, owner]
  exact storing

private theorem of_taking (owner : after.qMutex = some .collecting)
    (inside : after.collector.inside = true) (outside : after.receiver.inside = false)
    (taking : after.taking)
    (dropped : ∀ call waiting, (call, waiting) ∈ after.dropped → waiting = QUEUE_SIZE) :
    Invariant after := by
  refine ⟨by simp [owner, outside], by simp [owner, inside], ?_, dropped⟩
  rw [State.sound, owner]
  exact taking

private theorem of_free (free : after.qMutex = none) (receiver : after.receiver.inside = false)
    (collector : after.collector.inside = false) (consistent : after.consistent)
    (dropped : ∀ call waiting, (call, waiting) ∈ after.dropped → waiting = QUEUE_SIZE) :
    Invariant after := by
  refine ⟨by simp [free, receiver], by simp [free, collector], ?_, dropped⟩
  rw [State.sound, free]
  exact consistent

private theorem move_receiver (invariant : Invariant state) {receiver : Receiver}
    (was : state.receiver.inside = false) (outside : receiver.inside = false) :
    Invariant { state with receiver := receiver } := by
  obtain ⟨receiving, collecting, sound, dropped⟩ := invariant
  rw [was] at receiving
  refine ⟨by simpa [outside] using receiving, collecting, ?_, dropped⟩
  unfold State.sound at sound ⊢
  cases owner : state.qMutex with
  | none =>
    rw [owner] at sound
    exact sound
  | some thread =>
    cases thread with
    | receiving => simp [owner] at receiving
    | collecting =>
      rw [owner] at sound
      exact sound

private theorem move_collector (invariant : Invariant state) {collector : Collector}
    (was : state.collector.inside = false) (outside : collector.inside = false) :
    Invariant { state with collector := collector } := by
  obtain ⟨receiving, collecting, sound, dropped⟩ := invariant
  rw [was] at collecting
  refine ⟨receiving, by simpa [outside] using collecting, ?_, dropped⟩
  unfold State.sound at sound ⊢
  cases owner : state.qMutex with
  | none =>
    rw [owner] at sound
    exact sound
  | some thread =>
    cases thread with
    | receiving =>
      rw [owner] at sound
      exact sound
    | collecting => simp [owner] at collecting

theorem step_invariant (invariant : Invariant state) (step : Step arrives state after) :
    Invariant after := by
  have dropped := invariant.dropped
  cases step with
  | receive at' arrived =>
    exact move_receiver invariant (by rw [at']; rfl) rfl
  | openLog at' | giveUp at' | wake at' | log at' =>
    exact move_collector invariant (by rw [at']; rfl) rfl
  | lock at' free =>
    obtain ⟨-, outside, consistent⟩ := invariant.free free
    exact of_storing rfl rfl outside consistent dropped
  | accept at' room =>
    obtain ⟨owner, outside, storing⟩ := invariant.storing (by rw [at']; rfl)
    rw [State.storing, at'] at storing
    exact of_storing owner rfl outside ⟨storing, room⟩ dropped
  | drop at' full =>
    obtain ⟨owner, outside, storing⟩ := invariant.storing (by rw [at']; rfl)
    rw [State.storing, at'] at storing
    have consistent : state.consistent := storing
    refine of_storing owner rfl outside consistent fun call waiting member => ?_
    rcases List.mem_append.mp member with old | new
    · exact dropped call waiting old
    · obtain ⟨-, rfl⟩ := Prod.mk.inj (List.mem_singleton.mp new)
      rw [State.waitingEntries, length_window]
      exact Nat.le_antisymm consistent.count_le (Nat.not_lt.mp full)
  | storeIp at' =>
    obtain ⟨owner, outside, storing⟩ := invariant.storing (by rw [at']; rfl)
    rw [State.storing, at'] at storing
    obtain ⟨consistent, room⟩ := storing
    refine of_storing owner rfl outside ⟨consistent.store room _, room, ?_⟩ dropped
    change (Function.update state.queue state.qTail _ state.qTail).clientIp.string = _
    rw [Function.update_self]
    exact Buffer.string_strncpy _ _
  | storeMessage at' =>
    obtain ⟨owner, outside, storing⟩ := invariant.storing (by rw [at']; rfl)
    rw [State.storing, at'] at storing
    obtain ⟨consistent, room, stored⟩ := storing
    refine of_storing owner rfl outside ⟨consistent.store room _, room, ?_⟩ dropped
    change (Function.update state.queue state.qTail _ state.qTail).strings = _
    rw [Function.update_self]
    exact Prod.ext stored (Buffer.string_strncpy _ _)
  | advanceTail at' =>
    obtain ⟨owner, outside, storing⟩ := invariant.storing (by rw [at']; rfl)
    rw [State.storing, at'] at storing
    obtain ⟨consistent, room, stored⟩ := storing
    exact of_storing owner rfl outside (consistent.push room stored) dropped
  | countUp at' =>
    obtain ⟨owner, outside, storing⟩ := invariant.storing (by rw [at']; rfl)
    rw [State.storing, at'] at storing
    exact of_storing owner rfl outside storing dropped
  | signal at' =>
    obtain ⟨owner, outside, storing⟩ := invariant.storing (by rw [at']; rfl)
    rw [State.storing, at'] at storing
    have consistent : state.consistent := storing
    refine of_storing owner rfl ?_ consistent dropped
    cases place : state.collector <;> simp_all [Collector.inside]
  | unlock at' =>
    obtain ⟨owner, outside, storing⟩ := invariant.storing (by rw [at']; rfl)
    rw [State.storing, at'] at storing
    exact of_free rfl rfl outside storing dropped
  | lockQueue at' free | relock at' free =>
    obtain ⟨outside, -, consistent⟩ := invariant.free free
    exact of_taking rfl rfl outside consistent dropped
  | sleep at' empty =>
    obtain ⟨owner, outside, taking⟩ := invariant.taking (by rw [at']; rfl)
    rw [State.taking, at'] at taking
    exact of_free rfl outside rfl taking dropped
  | goOn at' some =>
    obtain ⟨owner, outside, taking⟩ := invariant.taking (by rw [at']; rfl)
    rw [State.taking, at'] at taking
    exact of_taking owner rfl outside ⟨taking, Nat.pos_of_ne_zero some⟩ dropped
  | copy at' =>
    obtain ⟨owner, outside, taking⟩ := invariant.taking (by rw [at']; rfl)
    rw [State.taking, at'] at taking
    obtain ⟨consistent, some⟩ := taking
    exact of_taking owner rfl outside ⟨consistent, some, rfl⟩ dropped
  | advanceHead at' =>
    obtain ⟨owner, outside, taking⟩ := invariant.taking (by rw [at']; rfl)
    rw [State.taking, at'] at taking
    obtain ⟨consistent, some, rfl⟩ := taking
    exact of_taking owner rfl outside (consistent.pop some) dropped
  | countDown at' =>
    obtain ⟨owner, outside, taking⟩ := invariant.taking (by rw [at']; rfl)
    rw [State.taking, at'] at taking
    exact of_taking owner rfl outside taking dropped
  | unlockQueue at' =>
    obtain ⟨owner, outside, taking⟩ := invariant.taking (by rw [at']; rfl)
    rw [State.taking, at'] at taking
    exact of_free rfl outside rfl taking dropped

theorem invariant_of_reachable (reachable : (server arrives).Reachable state) : Invariant state := by
  apply reachable.invariant Invariant
  · rintro _ rfl
    exact initial_invariant
  · exact step_invariant

/-- A call of `enqueue` that finds the mutex free and room in the queue can store its
message undisturbed, up to the signal. -/
theorem enqueue_runs (reachable : (server arrives).Reachable state)
    (polling : state.receiver = .polling) (free : state.qMutex = none)
    (room : state.qCount < QUEUE_SIZE) (arrived : arrives call) :
    ∃ stored, (server arrives).Reachable stored ∧ stored.receiver = .signalling ∧
      stored.collector = state.collector ∧ stored.qCount = state.qCount + 1 ∧
      stored.accepted = state.accepted ++ [call] := by
  have called := reachable.next (Step.receive polling arrived)
  have locked := called.next (Step.lock rfl free)
  have accepting := locked.next (Step.accept rfl room)
  have storedIp := accepting.next (Step.storeIp rfl)
  have storedMessage := storedIp.next (Step.storeMessage rfl)
  have advanced := storedMessage.next (Step.advanceTail rfl)
  exact ⟨_, advanced.next (Step.countUp rfl), rfl, rfl, rfl, rfl⟩

/-- The queue in the state is the abstract one: the entries that were taken and those that
are waiting are what was accepted, in order. -/
theorem queue_refines (reachable : (server arrives).Reachable state) :
    (state.qMutex = none →
      state.qCount ≤ QUEUE_SIZE ∧ state.qTail = (state.qHead + state.qCount) % QUEUE_SIZE ∧
      (state.taken ++ state.waitingEntries).length = state.accepted.length ∧
      ∀ (index : Nat) (call : Enqueue) (entry : LogEntry), state.accepted[index]? = some call →
        (state.taken ++ state.waitingEntries)[index]? = some entry →
          call.ip.chars.length ≤ 15 → call.msg.chars.length ≤ 1023 →
            entry.clientIp.string = call.ip.chars ∧ entry.message.string = call.msg.chars) ∧
      ∀ call waiting, (call, waiting) ∈ state.dropped → waiting = QUEUE_SIZE := by
  have invariant := invariant_of_reachable reachable
  refine ⟨fun free => ?_, invariant.dropped⟩
  obtain ⟨-, -, consistent⟩ := invariant.free free
  refine ⟨consistent.count_le, consistent.tail_eq, ?_, ?_⟩
  · simpa [State.waitingEntries] using congrArg List.length consistent.order
  · intro index call entry accepted found shortIp shortMsg
    have same := congrArg (·[index]?) consistent.order
    simp only [List.getElem?_map, accepted, Option.map_some] at same
    have found' : (state.taken ++ window QUEUE_SIZE state.queue state.qHead state.qCount)[index]? =
        some entry := found
    rw [found'] at same
    obtain ⟨ip, msg⟩ := Prod.mk.inj (Option.some.inj same)
    exact ⟨ip.trans (List.take_of_length_le shortIp), msg.trans (List.take_of_length_le shortMsg)⟩

/-- Two messages, with the first one taken in between. -/
theorem queue_refines_message : ∃ state : State,
    state.accepted = [⟨.of "127.0.0.1".toList, .of "hello".toList⟩, ⟨.of "10.0.0.1".toList, .of "bye".toList⟩] ∧
      state.taken.length = 1 ∧ state.waitingEntries.length = 1 ∧
      state.qTail = (state.qHead + state.qCount) % QUEUE_SIZE ∧
      ∀ (index : Nat) (call : Enqueue) (entry : LogEntry), state.accepted[index]? = some call →
        (state.taken ++ state.waitingEntries)[index]? = some entry →
          call.ip.chars.length ≤ 15 → call.msg.chars.length ≤ 1023 →
            entry.clientIp.string = call.ip.chars ∧ entry.message.string = call.msg.chars := by
  let hello : Enqueue := ⟨.of "127.0.0.1".toList, .of "hello".toList⟩
  let bye : Enqueue := ⟨.of "10.0.0.1".toList, .of "bye".toList⟩
  have start : (server fun _ => True).Reachable .initial := .start rfl
  have first := start
    |>.next (@Step.receive _ _ hello rfl trivial)
    |>.next (.lock rfl rfl)
    |>.next (.accept rfl (by decide))
    |>.next (.storeIp rfl)
    |>.next (.storeMessage rfl)
    |>.next (.advanceTail rfl)
    |>.next (.countUp rfl)
    |>.next (.signal rfl)
    |>.next (.unlock rfl)
  have taken := first
    |>.next (.openLog rfl)
    |>.next (.lockQueue rfl rfl)
    |>.next (.goOn rfl Nat.one_ne_zero)
    |>.next (.copy rfl)
    |>.next (.advanceHead rfl)
    |>.next (.countDown rfl)
    |>.next (.unlockQueue rfl)
  have second := taken
    |>.next (@Step.receive _ _ bye rfl trivial)
    |>.next (.lock rfl rfl)
    |>.next (.accept rfl (by decide))
    |>.next (.storeIp rfl)
    |>.next (.storeMessage rfl)
    |>.next (.advanceTail rfl)
    |>.next (.countUp rfl)
    |>.next (.signal rfl)
    |>.next (.unlock rfl)
  obtain ⟨-, tail, -, same⟩ := (queue_refines second).1 rfl
  exact ⟨_, rfl, rfl, rfl, tail, same⟩

end Lsnp.MsgServer
