import Lsnp.EpollEcho.Readiness

namespace Lsnp.EpollEcho

open Lsnp.Interaction Lsnp.Unix

/-- The client that has been read from and not been answered. -/
def Phase.asks : Phase → Option Fd
  | .got fd _ _ | .finishing fd _ => some fd
  | _ => none

/-- The server goes on, and the client has a descriptor of it. -/
def State.served (state : State) (id : Nat) : Prop :=
  state.phase ≠ .exited ∧ ∃ fd, state.table.file fd = some (.client id)

/-- Any two clients of any two runs that give the same reads are treated in the same way. -/
def Isolated (machine : Machine State) : Prop :=
  ∀ first second, machine.Reachable first → machine.Reachable second →
    first.phase.asks = none → second.phase.asks = none →
    ∀ one two, one < first.accepted → two < second.accepted →
      (first.clients one).reads = (second.clients two).reads →
        (first.clients one).responses = (second.clients two).responses ∧
          (first.served one ↔ second.served two)

/-- Every call does all that it is asked to, and one or two bytes are not completed to the
dots by what was in the buffer. -/
def Undisturbed (listensd : Fd) (state after : State) : Prop :=
  Step listensd state true after ∧ ∀ fd readn rest, state.phase = .got fd readn rest →
    readn < dots.length → ¬ dots.isPrefixOf state.buffer

/-- What the server does behind a `read` that decides it. -/
def respond : Read → Response
  | .data bytes => if dots.isPrefixOf bytes then .disconnected else .echoed bytes
  | .again => .left
  | .eof | .error => .disconnected

/-- All but the last read have been answered, and the last one is this. -/
def Client.owes (client : Client) (last : Read) : Prop :=
  ∃ earlier, client.reads = earlier ++ [last] ∧ client.responses = earlier.map respond

/-- The reads have been answered, but for that of the client which is dealt with. -/
structure Answers (state : State) : Prop where
  buffer : state.buffer.length = MAX_LINE
  settled : ∀ id, (∀ fd, state.phase.asks = some fd → state.table.file fd ≠ some (.client id)) →
    (state.clients id).responses = (state.clients id).reads.map respond
  got : ∀ fd readn rest, state.phase = .got fd readn rest →
    ∀ id, state.table.file fd = some (.client id) →
      (state.clients id).owes (.data (state.buffer.take readn))
  finishing : ∀ fd rest, state.phase = .finishing fd rest →
    ∀ id, state.table.file fd = some (.client id) →
      ∃ last, respond last = .disconnected ∧ (state.clients id).owes last
  gone : ∀ id, id < state.accepted → (∀ fd, state.table.file fd ≠ some (.client id)) →
    .disconnected ∈ (state.clients id).responses
  connected : ∀ fd id, state.table.file fd = some (.client id) →
    .disconnected ∉ (state.clients id).responses
  running : state.phase ≠ .exited

variable {listensd : Fd} {state after : State}

private theorem answers_of_same (answers : Answers state) (clients : Nat → Client)
    (same : ∀ id, (clients id).reads = (state.clients id).reads ∧
      (clients id).responses = (state.clients id).responses) {phase : Phase}
    (before : state.phase.asks = none) (behind : phase.asks = none) (running : phase ≠ .exited) :
    Answers ⟨state.table, clients, state.accepted, state.buffer, phase⟩ := by
  constructor
  · exact answers.buffer
  · intro id _
    rw [(same id).1, (same id).2]
    apply answers.settled
    rw [before]
    nofun
  · rintro fd readn rest rfl
    cases behind
  · rintro fd rest rfl
    cases behind
  · intro id known closed
    rw [(same id).2]
    exact answers.gone id known closed
  · intro fd id file
    rw [(same id).2]
    exact answers.connected fd id file
  · exact running

private theorem answers_of_arrival (answers : Answers state) (id : Nat) {client : Client}
    (reads : client.reads = (state.clients id).reads)
    (responses : client.responses = (state.clients id).responses) :
    Answers (state.change id client) := by
  have same : ∀ other, ((state.change id client).clients other).reads =
      (state.clients other).reads ∧ ((state.change id client).clients other).responses =
        (state.clients other).responses := by
    intro other
    by_cases own : other = id
    · subst own
      simp [State.change, reads, responses]
    · simp [State.change, own]
  have owes : ∀ other last, (state.clients other).owes last →
      ((state.change id client).clients other).owes last := by
    rintro other last ⟨earlier, held⟩
    refine ⟨earlier, ?_⟩
    rw [(same other).1, (same other).2]
    exact held
  constructor
  · exact answers.buffer
  · intro other apart
    rw [(same other).1, (same other).2]
    exact answers.settled other apart
  · exact fun fd readn rest at' other file => owes other _ (answers.got fd readn rest at' other file)
  · intro fd rest at' other file
    obtain ⟨last, ends, held⟩ := answers.finishing fd rest at' other file
    exact ⟨last, ends, owes other last held⟩
  · intro other known closed
    rw [(same other).2]
    exact answers.gone other known closed
  · intro fd other file
    rw [(same other).2]
    exact answers.connected fd other file
  · exact answers.running

private theorem other_client {fd : Fd} {id other : Nat}
    (file : state.table.file fd = some (.client id)) (apart : other ≠ id) :
    state.table.file fd ≠ some (.client other) := by
  rw [file]
  intro same
  exact apart (Socket.client.inj (Option.some.inj same)).symm

private theorem answers_of_call (answers : Answers state) {fd : Fd} {id : Nat}
    (file : state.table.file fd = some (.client id))
    (before : state.phase.asks = none ∨ state.phase.asks = some fd)
    (table : after.table = state.table) (accepted : after.accepted = state.accepted)
    (buffer : after.buffer.length = MAX_LINE)
    (others : ∀ other, other ≠ id → after.clients other = state.clients other)
    (behind : after.phase.asks = none ∨ after.phase.asks = some fd)
    (settled : after.phase.asks = none →
      (after.clients id).responses = (after.clients id).reads.map respond)
    (got : ∀ readn rest, after.phase = .got fd readn rest →
      (after.clients id).owes (.data (after.buffer.take readn)))
    (finishing : ∀ rest, after.phase = .finishing fd rest →
      ∃ last, respond last = .disconnected ∧ (after.clients id).owes last)
    (connected : .disconnected ∉ (after.clients id).responses) (running : after.phase ≠ .exited) :
    Answers after := by
  have own : ∀ {at' other}, after.phase.asks = some at' →
      after.table.file at' = some (.client other) → at' = fd ∧ other = id := by
    intro at' other asks there
    obtain rfl : at' = fd := by
      rcases behind with none | some
      · rw [none] at asks
        cases asks
      · exact Option.some.inj (asks.symm.trans some)
    rw [table] at there
    exact ⟨rfl, Socket.client.inj (Option.some.inj (there.symm.trans file))⟩
  constructor
  · exact buffer
  · intro other apart
    by_cases it : other = id
    · subst it
      apply settled
      rcases behind with none | some
      · exact none
      · exact (apart fd some (table ▸ file)).elim
    · rw [others other it]
      apply answers.settled
      intro at' asks
      rcases before with none | some
      · rw [none] at asks
        cases asks
      · obtain rfl := Option.some.inj (asks.symm.trans some)
        exact other_client file it
  · intro at' readn rest phase other there
    obtain ⟨rfl, rfl⟩ := own (by rw [phase]; rfl) there
    exact got readn rest phase
  · intro at' rest phase other there
    obtain ⟨rfl, rfl⟩ := own (by rw [phase]; rfl) there
    exact finishing rest phase
  · intro other known closed
    rw [accepted] at known
    rw [table] at closed
    rw [others other (by rintro rfl; exact closed fd file)]
    exact answers.gone other known closed
  · intro at' other there
    by_cases it : other = id
    · subst it
      exact connected
    · rw [others other it]
      exact answers.connected at' other (table ▸ there)
  · exact running

@[simp] theorem reads_noteRead (id : Nat) (read : Read) :
    ((state.noteRead id read).clients id).reads = (state.clients id).reads ++ [read] := by
  simp [State.noteRead, State.change]

@[simp] theorem responses_noteRead (id : Nat) (read : Read) :
    ((state.noteRead id read).clients id).responses = (state.clients id).responses := by
  simp [State.noteRead, State.change]

@[simp] theorem reads_noteResponse (id : Nat) (response : Response) :
    ((state.noteResponse id response).clients id).reads = (state.clients id).reads := by
  simp [State.noteResponse, State.change]

@[simp] theorem responses_noteResponse (id : Nat) (response : Response) :
    ((state.noteResponse id response).clients id).responses =
      (state.clients id).responses ++ [response] := by
  simp [State.noteResponse, State.change]

private theorem noteRead_other {id other : Nat} (apart : other ≠ id) (read : Read) :
    (state.noteRead id read).clients other = state.clients other := by
  simp [State.noteRead, State.change, apart]

private theorem noteResponse_other {id other : Nat} (apart : other ≠ id) (response : Response) :
    (state.noteResponse id response).clients other = state.clients other := by
  simp [State.noteResponse, State.change, apart]

private theorem owes_of_settled (answers : Answers state) (id : Nat) (read : Read)
    (none : state.phase.asks = none) {client : Client}
    (reads : client.reads = (state.clients id).reads ++ [read])
    (responses : client.responses = (state.clients id).responses) : client.owes read := by
  refine ⟨_, reads, responses.trans (answers.settled id ?_)⟩
  rw [none]
  nofun

private theorem dots_take {buffer : List UInt8} {readn : Nat}
    (uncompleted : readn < dots.length → ¬ dots.isPrefixOf buffer) :
    dots.isPrefixOf (buffer.take readn) = dots.isPrefixOf buffer := by
  rw [Bool.eq_iff_iff, List.isPrefixOf_iff_prefix, List.isPrefixOf_iff_prefix,
    List.prefix_take_iff]
  constructor
  · exact And.left
  · intro there
    refine ⟨there, ?_⟩
    by_contra short
    exact uncompleted (Nat.lt_of_not_le short) (List.isPrefixOf_iff_prefix.mpr there)

private theorem accept_answers (answers : Answers state) {rest : List Fd} (queue : List UInt8)
    (hungUp : Bool) (at' : state.phase = .handling (listensd :: rest)) {phase : Phase}
    (none : phase.asks = none) (running : phase ≠ .exited) : Answers { state with
      table := state.table.set state.table.lowest (.client state.accepted)
      clients := Function.update state.clients state.accepted ⟨queue, hungUp, false, false, [], []⟩
      accepted := state.accepted + 1
      phase := phase } := by
  have old : ∀ id, id ≠ state.accepted → Function.update state.clients state.accepted
      ⟨queue, hungUp, false, false, [], []⟩ id = state.clients id :=
    fun id apart => Function.update_of_ne apart _ _
  constructor
  · exact answers.buffer
  · intro id _
    by_cases fresh : id = state.accepted
    · subst fresh
      simp
    · simp only [old id fresh]
      apply answers.settled
      rw [at']
      rintro _ ⟨⟩
  · rintro fd readn rest rfl
    cases none
  · rintro fd rest rfl
    cases none
  · intro id known closed
    by_cases fresh : id = state.accepted
    · subst fresh
      exact (closed state.table.lowest (by rw [FdTable.file_set, Function.update_self])).elim
    · simp only [old id fresh]
      apply answers.gone id (by change id < state.accepted + 1 at known; omega)
      intro fd file
      exact closed fd (FdTable.file_set_lowest _ file)
  · intro fd id file
    rw [FdTable.file_set, Function.update_apply] at file
    by_cases fresh : id = state.accepted
    · subst fresh
      simp
    · simp only [old id fresh]
      split at file
      · exact (fresh (by simpa using file.symm)).elim
      · exact answers.connected fd id file
  · exact running

private theorem read_answers (answers : Answers state) {fd : Fd} {rest : List Fd} {id readn : Nat}
    (at' : state.phase = .reading fd rest) (file : state.table.file fd = some (.client id))
    (most : readn ≤ MAX_LINE) (there : readn ≤ (state.clients id).queue.length) :
    Answers (State.noteRead
      { state with
        clients := Function.update state.clients id { state.clients id with
          queue := (state.clients id).queue.drop readn }
        buffer := state.fill ((state.clients id).queue.take readn)
        phase := .got fd readn rest }
      id (.data ((state.clients id).queue.take readn))) := by
  have length := answers.buffer
  have taken : ((state.clients id).queue.take readn).length = readn :=
    List.length_take_of_le there
  have none : state.phase.asks = none := by
    rw [at']
    rfl
  apply answers_of_call answers file (.inl none)
  · rfl
  · rfl
  · simp only [State.noteRead, State.change, State.fill, List.length_append, List.length_drop,
      taken, length]
    omega
  · intro other apart
    rw [noteRead_other apart]
    simp [apart]
  · exact .inr rfl
  · rintro ⟨⟩
  · rintro _ _ ⟨⟩
    have filled : (state.fill ((state.clients id).queue.take readn)).take readn =
        (state.clients id).queue.take readn := List.take_left' taken
    change Client.owes _ (.data ((state.fill _).take readn))
    rw [filled]
    apply owes_of_settled answers id _ none <;> simp
  · rintro _ ⟨⟩
  · simpa using answers.connected fd id file
  · rintro ⟨⟩

private theorem readAgain_answers (answers : Answers state) {fd : Fd} {rest : List Fd} {id : Nat}
    (at' : state.phase = .reading fd rest) (file : state.table.file fd = some (.client id)) :
    Answers (State.noteResponse
      (State.noteRead { state with phase := .handling rest } id .again) id .left) := by
  have none : state.phase.asks = none := by
    rw [at']
    rfl
  apply answers_of_call answers file (.inl none)
  · rfl
  · rfl
  · exact answers.buffer
  · intro other apart
    rw [noteResponse_other apart, noteRead_other apart]
  · exact .inl rfl
  · intro _
    have settled := answers.settled id (by rw [none]; rintro _ ⟨⟩)
    simp [settled, respond]
  · rintro _ _ ⟨⟩
  · rintro _ ⟨⟩
  · simpa using answers.connected fd id file
  · rintro ⟨⟩

private theorem readLast_answers (answers : Answers state) {fd : Fd} {rest : List Fd} {id : Nat}
    (at' : state.phase = .reading fd rest) (file : state.table.file fd = some (.client id))
    {read : Read} (last : respond read = .disconnected) :
    Answers (State.noteRead { state with phase := .finishing fd rest } id read) := by
  have none : state.phase.asks = none := by
    rw [at']
    rfl
  apply answers_of_call answers file (.inl none)
  · rfl
  · rfl
  · exact answers.buffer
  · exact fun other apart => noteRead_other apart _
  · exact .inr rfl
  · rintro ⟨⟩
  · rintro _ _ ⟨⟩
  · intro _ _
    exact ⟨read, last,
      owes_of_settled answers id _ none (reads_noteRead _ _) (responses_noteRead _ _)⟩
  · simpa using answers.connected fd id file
  · rintro ⟨⟩

private theorem stop_answers (answers : Answers state) {fd : Fd} {readn : Nat} {rest : List Fd}
    {id : Nat} (at' : state.phase = .got fd readn rest)
    (file : state.table.file fd = some (.client id)) (stops : dots.isPrefixOf state.buffer)
    (uncompleted : readn < dots.length → ¬ dots.isPrefixOf state.buffer) :
    Answers { state with phase := .finishing fd rest } := by
  apply answers_of_call answers file (.inr (by rw [at']; rfl))
  · rfl
  · rfl
  · exact answers.buffer
  · exact fun _ _ => rfl
  · exact .inr rfl
  · rintro ⟨⟩
  · rintro _ _ ⟨⟩
  · intro _ _
    refine ⟨_, ?_, answers.got fd readn rest at' id file⟩
    rw [respond, dots_take uncompleted, if_pos stops]
  · exact answers.connected fd id file
  · rintro ⟨⟩

private theorem write_answers (answers : Answers state) {fd : Fd} {readn : Nat} {rest : List Fd}
    {id : Nat} (at' : state.phase = .got fd readn rest) (goesOn : ¬ dots.isPrefixOf state.buffer)
    (file : state.table.file fd = some (.client id))
    (uncompleted : readn < dots.length → ¬ dots.isPrefixOf state.buffer) :
    Answers (State.noteResponse { state with phase := .reading fd rest } id
      (.echoed (state.buffer.take readn))) := by
  obtain ⟨earlier, reads, responses⟩ := answers.got fd readn rest at' id file
  apply answers_of_call answers file (.inr (by rw [at']; rfl))
  · rfl
  · rfl
  · exact answers.buffer
  · exact fun other apart => noteResponse_other apart _
  · exact .inl rfl
  · intro _
    have echo : respond (.data (state.buffer.take readn)) =
        .echoed (state.buffer.take readn) := by
      rw [respond, dots_take uncompleted, if_neg goesOn]
    simp [reads, responses, echo]
  · rintro _ _ ⟨⟩
  · rintro _ ⟨⟩
  · simpa using answers.connected fd id file
  · rintro ⟨⟩

private theorem close_answers (sound : Sound listensd state) (answers : Answers state) {fd : Fd}
    {rest : List Fd} {id : Nat} (at' : state.phase = .finishing fd rest)
    (own : state.table.file fd = some (.client id)) : Answers { state with
      table := state.table.close fd
      clients := fun id => if state.table.file fd = some (.client id)
        then { state.clients id with
          responses := (state.clients id).responses ++ [.disconnected] }
        else state.clients id
      phase := .handling rest } := by
  obtain ⟨last, ends, earlier, reads, responses⟩ := answers.finishing fd rest at' id own
  have others : ∀ other, other ≠ id → (if state.table.file fd = some (.client other)
      then { state.clients other with
        responses := (state.clients other).responses ++ [.disconnected] }
      else state.clients other) = state.clients other :=
    fun other apart => if_neg (other_client own apart)
  have closed : ∀ {other more}, (state.table.close fd).file other = some (.client more) →
      more ≠ id ∧ state.table.file other = some (.client more) := by
    intro other more file
    rw [FdTable.file_close, Function.update_apply] at file
    split at file
    · cases file
    · rename_i apart
      refine ⟨?_, file⟩
      rintro rfl
      exact apart (sound.once _ _ _ file own)
  constructor
  · exact answers.buffer
  · intro other _
    by_cases it : other = id
    · subst it
      simp [own, reads, responses, ends]
    · simp only [others other it]
      apply answers.settled
      rw [at']
      rintro _ ⟨⟩
      exact other_client own it
  · rintro _ _ _ ⟨⟩
  · rintro _ _ ⟨⟩
  · intro other known gone
    by_cases it : other = id
    · subst it
      simp [own]
    · simp only [others other it]
      apply answers.gone other known
      intro at' file
      apply gone at'
      rw [FdTable.file_close, Function.update_of_ne, file]
      rintro rfl
      exact other_client own it file
  · intro at' other file
    obtain ⟨apart, file⟩ := closed file
    simp only [others other apart]
    exact answers.connected at' other file
  · rintro ⟨⟩

theorem step_answers (sound : Sound listensd state) (answers : Answers state)
    (undisturbed : Undisturbed listensd state after) : Answers after := by
  obtain ⟨step, uncompleted⟩ := undisturbed
  generalize smooth : true = full at step
  cases step with
  | wait events at' =>
    apply answers_of_same answers
    · intro id
      unfold State.unmark
      split <;> exact ⟨rfl, rfl⟩
    · rw [at']
      rfl
    · rfl
    · rintro ⟨⟩
  | again at' | acceptFails at' | nonblock at' | start at' =>
    exact answers_of_same answers _ (fun _ => ⟨rfl, rfl⟩) (by rw [at']; rfl) rfl (by rintro ⟨⟩)
  | accept queue hungUp at' =>
    split
    · exact accept_answers answers queue hungUp at' rfl (by rintro ⟨⟩)
    · exact accept_answers answers queue hungUp at' rfl (by rintro ⟨⟩)
  | nonblockFails | addFails | writeFails => cases smooth
  | @add clientsd rest id at' file =>
    apply answers_of_same answers
    · intro other
      by_cases it : other = id
      · subst it
        simp
      · simp [it]
    · rw [at']
      rfl
    · rfl
    · rintro ⟨⟩
  | read readn at' file some most there => exact read_answers answers at' file most there
  | readAgain at' file => exact readAgain_answers answers at' file
  | readEof at' file | readFails at' file => exact readLast_answers answers at' file rfl
  | @readNothing fd rest at' none =>
    obtain ⟨id, file⟩ := sound.current fd (by rw [at']; rfl)
    exact (none id file).elim
  | @stop fd readn rest at' stops =>
    obtain ⟨id, file⟩ := sound.current fd (by rw [at']; rfl)
    exact stop_answers answers at' file stops (uncompleted fd readn rest at')
  | @write fd readn rest id written at' goesOn file most =>
    obtain rfl : written = readn := of_decide_eq_true smooth.symm
    exact write_answers answers at' goesOn file (uncompleted fd written rest at')
  | @close fd rest at' =>
    obtain ⟨id, file⟩ := sound.current fd (by rw [at']; rfl)
    exact close_answers sound answers at' file
  | arrive id bytes | hangUp id => exact answers_of_arrival answers id rfl rfl

theorem answers_of_reachable
    (reachable : ((server listensd).restrict (Undisturbed listensd)).Reachable state) :
    Answers state := by
  have both : Sound listensd state ∧ Answers state := by
    apply reachable.invariant fun state => Sound listensd state ∧ Answers state
    · intro state starts
      refine ⟨starts.sound, starts.buffer, ?_, ?_, ?_, ?_, ?_, ?_⟩
      · intro id _
        rw [(starts.silent id).1, (starts.silent id).2, List.map_nil]
      · exact fun fd readn rest at' id file => (starts.none fd id file).elim
      · exact fun fd rest at' id file => (starts.none fd id file).elim
      · intro id known
        rw [starts.accepted] at known
        cases known
      · exact fun fd id file => (starts.none fd id file).elim
      · rw [starts.phase]
        nofun
    · rintro state after ⟨sound, answers⟩ ⟨-, undisturbed⟩
      exact ⟨step_sound sound undisturbed.1, step_answers sound answers undisturbed⟩
  exact both.2

/-- As long as no call fails or does only a part, and no read of one or two bytes finds the
dots in the buffer, all clients are treated by their reads alone. -/
theorem isolated_of_undisturbed (listensd : Fd) :
    Isolated ((server listensd).restrict (Undisturbed listensd)) := by
  intro first second firstRun secondRun firstDone secondDone one two oneKnown twoKnown reads
  have firstAnswers := answers_of_reachable firstRun
  have secondAnswers := answers_of_reachable secondRun
  have responses : (first.clients one).responses = (second.clients two).responses := by
    rw [firstAnswers.settled one (by rw [firstDone]; nofun),
      secondAnswers.settled two (by rw [secondDone]; nofun), reads]
  have served : ∀ {state : State} {id : Nat}, Answers state → id < state.accepted →
      (state.served id ↔ .disconnected ∉ (state.clients id).responses) := by
    intro state id answers known
    constructor
    · rintro ⟨-, fd, file⟩
      exact answers.connected fd id file
    · intro open'
      refine ⟨answers.running, ?_⟩
      by_contra closed
      exact open' (answers.gone id known (not_exists.mp closed))
  refine ⟨responses, ?_⟩
  rw [served firstAnswers oneKnown, served secondAnswers twoKnown, responses]

/-- The state behind the acceptance of a client that has sent these bytes. -/
def State.withClient (state : State) (queue : List UInt8) : State where
  table := state.table.set state.table.lowest (.client state.accepted)
  clients := Function.update state.clients state.accepted
    ⟨queue, false, true, decide (queue ≠ []) || false, [], []⟩
  accepted := state.accepted + 1
  buffer := state.buffer
  phase := .waiting

private theorem accepts (reachable : (server listensd).Reachable state) (queue : List UInt8)
    (waiting : state.phase = .waiting) (listening : state.table.file listensd = some .listening)
    (positive : 0 < state.table.lowest) :
    (server listensd).Reachable (state.withClient queue) := by
  have unmarked : state.unmark [listensd] = state.clients := by
    funext id
    rw [State.unmark, if_neg]
    rintro ⟨fd, member, file⟩
    obtain rfl := List.mem_singleton.mp member
    rw [listening] at file
    cases file
  have event := reachable.next ⟨_, .wait [listensd] waiting (by simp) (by simp) (by simp)⟩
  rw [unmarked] at event
  have accepted := event.next ⟨_, .accept queue false rfl⟩
  simp only [if_pos positive] at accepted
  have watched := (accepted.next ⟨_, .nonblock rfl⟩).next
    ⟨_, .add rfl (by rw [FdTable.file_set, Function.update_self])⟩
  have waits := watched.next ⟨_, .again rfl⟩
  simpa [State.change, State.withClient] using waits

/-- The state behind the first `read` from a client. -/
def State.withRead (state : State) (fd id : Nat) (bytes : List UInt8) (rest : List Fd) : State :=
  State.noteRead
    { state with
      clients := Function.update state.clients id { state.clients id with queue := [] }
      buffer := state.fill bytes
      phase := .got fd bytes.length rest }
    id (.data bytes)

private theorem reads (reachable : (server listensd).Reachable state) {fd id : Nat} {rest : List Fd}
    (bytes : List UInt8) (event : state.phase = .handling (fd :: rest)) (other : fd ≠ listensd)
    (file : state.table.file fd = some (.client id)) (queue : (state.clients id).queue = bytes)
    (some : bytes ≠ []) (most : bytes.length ≤ MAX_LINE) :
    (server listensd).Reachable (state.withRead fd id bytes rest) := by
  have start := reachable.next ⟨_, .start event other⟩
  have read := start.next ⟨_, .read bytes.length rfl file (List.length_pos_iff.mpr some) most
    (Nat.le_of_eq (by rw [queue]))⟩
  simpa [State.withRead, State.fill, queue] using read

/-- One dot is written back to the client that sent it, but after another client has sent
`a..` it ends the connection. -/
theorem not_isolated_dot : ¬ Isolated (server 3) := by
  intro isolated
  have start := Machine.Reachable.start (beginning_starts (List.replicate 10 0) rfl)
  -- the client alone
  have watched := accepts start [46] rfl rfl (by decide)
  have event := watched.next ⟨_, .wait [5] rfl (by decide) (by decide) (by
    rw [List.forall_mem_singleton]
    exact .inr ⟨0, rfl, rfl⟩)⟩
  have read := reads event [46] rfl (by decide) rfl rfl (by decide) (by decide)
  have alone := read.next ⟨_, .write 1 rfl (by decide) rfl (by decide)⟩
  -- the other one before it
  have watched := accepts (accepts start [97, 46, 46] rfl rfl (by decide)) [46] rfl rfl (by decide)
  have event := watched.next ⟨_, .wait [5, 6] rfl (by decide) (by decide) (by
    rw [List.forall_mem_cons, List.forall_mem_singleton]
    exact ⟨.inr ⟨0, rfl, rfl⟩, .inr ⟨1, rfl, rfl⟩⟩)⟩
  have read := reads event [97, 46, 46] rfl (by decide) rfl rfl (by decide) (by decide)
  have written := read.next ⟨_, .write 3 rfl (by decide) rfl (by decide)⟩
  have drained := written.next ⟨_, .readAgain rfl rfl rfl rfl⟩
  have read := reads drained [46] rfl (by decide) rfl rfl (by decide) (by decide)
  have closed := (read.next ⟨_, .stop rfl (by decide)⟩).next ⟨_, .close rfl⟩
  have same := (isolated _ _ alone closed rfl rfl 0 1 (by decide) (by decide) rfl).1
  cases same

end Lsnp.EpollEcho
