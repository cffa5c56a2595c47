import Lsnp.EpollEcho.Server

namespace Lsnp.EpollEcho

open Lsnp.Interaction Lsnp.Unix

namespace Phase

/-- The events that have not been handled, that of the current descriptor first. -/
def events : Phase → List Fd
  | .handling rest | .accepted _ rest | .adding _ rest => rest
  | .reading fd rest | .got fd _ rest | .finishing fd rest => fd :: rest
  | .waiting | .exited => []

def current : Phase → Option Fd
  | .reading fd _ | .got fd _ _ | .finishing fd _ => some fd
  | _ => none

/-- The client that has been accepted and is not watched. -/
def fresh : Phase → Option Fd
  | .accepted clientsd _ | .adding clientsd _ => some clientsd
  | _ => none

end Phase

/-- The descriptors are those of the listening socket and of different clients. -/
structure Sound (listensd : Fd) (state : State) : Prop where
  zero : state.table.file 0 = some .other ∨ state.table.file 0 = some .listening
  listening : state.table.file listensd = some .listening
  known : ∀ fd id, state.table.file fd = some (.client id) → id < state.accepted
  once : ∀ fd other id, state.table.file fd = some (.client id) →
    state.table.file other = some (.client id) → fd = other
  distinct : state.phase.events.Nodup
  events : ∀ fd ∈ state.phase.events, fd = listensd ∨ ∃ id, state.table.file fd = some (.client id)
  current : ∀ fd, state.phase.current = some fd → ∃ id, state.table.file fd = some (.client id)

variable {listensd : Fd} {state after : State}

theorem Starts.sound (starts : Starts listensd state) : Sound listensd state where
  zero := by
    by_cases first : listensd = 0
    · subst first
      exact .inr starts.listening
    · exact .inl (starts.opened 0 (Nat.pos_of_ne_zero first))
  listening := starts.listening
  known fd id file := (starts.none fd id file).elim
  once fd _ id file := (starts.none fd id file).elim
  distinct := by
    rw [starts.phase]
    exact List.nodup_nil
  events := by
    rw [starts.phase]
    nofun
  current := by
    rw [starts.phase]
    nofun

namespace Sound

/-- A step that leaves the descriptors as they are, and gives up events or takes new ones. -/
theorem moves (sound : Sound listensd state) (clients : Nat → Client) (buffer : List UInt8)
    {phase : Phase} (distinct : phase.events.Nodup)
    (events : ∀ fd ∈ phase.events, fd = listensd ∨ ∃ id, state.table.file fd = some (.client id))
    (current : ∀ fd, phase.current = some fd → ∃ id, state.table.file fd = some (.client id)) :
    Sound listensd ⟨state.table, clients, state.accepted, buffer, phase⟩ :=
  ⟨sound.zero, sound.listening, sound.known, sound.once, distinct, events, current⟩

theorem goes (sound : Sound listensd state) (clients : Nat → Client) (buffer : List UInt8)
    {phase : Phase} (same : phase.events.Sublist state.phase.events)
    (current : ∀ fd, phase.current = some fd → ∃ id, state.table.file fd = some (.client id)) :
    Sound listensd ⟨state.table, clients, state.accepted, buffer, phase⟩ :=
  sound.moves clients buffer (sound.distinct.sublist same)
    (fun fd member => sound.events fd (same.subset member)) current

end Sound

private theorem accept_sound (sound : Sound listensd state) {rest : List Fd}
    (at' : state.phase = .handling (listensd :: rest)) (clients : Nat → Client) {phase : Phase}
    (same : phase.events = rest) (none : phase.current = none) :
    Sound listensd { state with
      table := state.table.set state.table.lowest (.client state.accepted)
      clients := clients
      accepted := state.accepted + 1
      phase := phase } := by
  have keep : ∀ {fd socket}, state.table.file fd = some socket →
      (state.table.set state.table.lowest (.client state.accepted)).file fd = some socket :=
    FdTable.file_set_lowest _
  have old : ∀ {fd id}, (state.table.set state.table.lowest (.client state.accepted)).file fd =
      some (.client id) → fd = state.table.lowest ∧ id = state.accepted ∨
        state.table.file fd = some (.client id) := by
    intro fd id file
    rw [FdTable.file_set, Function.update_apply] at file
    split at file
    · exact .inl ⟨‹_›, by simpa using file.symm⟩
    · exact .inr file
  have distinct := sound.distinct
  rw [at', Phase.events] at distinct
  constructor
  · exact sound.zero.imp keep keep
  · exact keep sound.listening
  · intro fd id file
    rcases old file with ⟨-, rfl⟩ | file
    · exact Nat.lt_succ_self _
    · exact Nat.lt_succ_of_lt (sound.known fd id file)
  · intro fd other id first second
    rcases old first with ⟨rfl, rfl⟩ | first <;> rcases old second with ⟨rfl, same⟩ | second
    · rfl
    · exact (Nat.lt_irrefl _ (sound.known _ _ second)).elim
    · exact (Nat.lt_irrefl _ (same ▸ sound.known _ _ first)).elim
    · exact sound.once fd other id first second
  · rw [same]
    exact distinct.of_cons
  · intro fd member
    rw [same] at member
    apply (sound.events fd (by simp [at', Phase.events, member])).imp_right
    rintro ⟨id, file⟩
    exact ⟨id, keep file⟩
  · intro fd current
    rw [none] at current
    cases current

private theorem close_sound (sound : Sound listensd state) {fd : Fd} {rest : List Fd}
    (at' : state.phase = .finishing fd rest) (clients : Nat → Client) :
    Sound listensd { state with
      table := state.table.close fd
      clients := clients
      phase := .handling rest } := by
  obtain ⟨id, own⟩ := sound.current fd (by rw [at']; rfl)
  have keep : ∀ {other socket}, state.table.file other = some socket → other ≠ fd →
      (state.table.close fd).file other = some socket := by
    intro other socket file apart
    rw [FdTable.file_close, Function.update_of_ne apart, file]
  have old : ∀ {other id}, (state.table.close fd).file other = some (.client id) →
      state.table.file other = some (.client id) := by
    intro other id file
    rw [FdTable.file_close, Function.update_apply] at file
    split at file
    · cases file
    · exact file
  have distinct := sound.distinct
  rw [at', Phase.events] at distinct
  have apart : ∀ {other socket}, state.table.file other = some socket →
      (∀ id, socket ≠ .client id) → other ≠ fd := by
    rintro _ socket file none rfl
    rw [own] at file
    exact none id (Option.some.inj file).symm
  constructor
  · apply sound.zero.imp <;> exact fun file => keep file (apart file nofun)
  · exact keep sound.listening (apart sound.listening nofun)
  · exact fun other id file => sound.known other id (old file)
  · exact fun other more id first second => sound.once other more id (old first) (old second)
  · exact distinct.of_cons
  · intro other member
    apply (sound.events other (by simp [at', Phase.events, show other ∈ rest from member])).imp_right
    rintro ⟨id, file⟩
    refine ⟨id, keep file ?_⟩
    rintro rfl
    exact (List.nodup_cons.mp distinct).1 member
  · nofun

theorem step_sound {smooth : Bool} (sound : Sound listensd state)
    (step : Step listensd state smooth after) : Sound listensd after := by
  cases step with
  | wait events at' few once ready =>
    apply sound.moves
    · exact once
    · exact fun fd member => (ready fd member).imp_right fun ⟨id, file, _⟩ => ⟨id, file⟩
    · nofun
  | again at' | addFails at' | nonblockFails at' | writeFails at' =>
    apply sound.goes
    · exact List.nil_sublist _
    · nofun
  | acceptFails at' | nonblock at' | add at' =>
    apply sound.goes
    · rw [at']
      simp [Phase.events]
    · nofun
  | @start fd rest at' other =>
    have member : fd ∈ state.phase.events := by simp [at', Phase.events]
    apply sound.goes
    · rw [at']
      exact List.Sublist.refl _
    · rintro _ ⟨⟩
      exact (sound.events fd member).resolve_left other
  | read _ at' | readEof at' | readFails at' | readNothing at' | stop at' | write _ at' =>
    apply sound.goes
    · rw [at']
      exact List.Sublist.refl _
    · have current := sound.current
      rw [at'] at current
      exact current
  | readAgain at' =>
    apply sound.goes
    · rw [at']
      exact List.sublist_cons_self _ _
    · nofun
  | arrive id bytes | hangUp id => exact ⟨sound.zero, sound.listening, sound.known, sound.once,
      sound.distinct, sound.events, sound.current⟩
  | @accept rest queue hungUp at' =>
    split
    · exact accept_sound sound at' _ rfl rfl
    · exact accept_sound sound at' _ rfl rfl
  | close at' => exact close_sound sound at' _

/-- A client has nothing to read, or is marked, or has an event that will be handled. -/
structure Waking (state : State) : Prop where
  watched : ∀ fd id, state.table.file fd = some (.client id) →
    (state.clients id).watched = true ∨ state.phase.fresh = some fd
  ready : ∀ fd id, state.table.file fd = some (.client id) → (state.clients id).queue = [] ∨
    (state.clients id).ready = true ∨ fd ∈ state.phase.events ∨ state.phase.fresh = some fd

/-- As long as no call has failed at which the server gives up. -/
def Wakes (state : State) : Prop := state.phase ≠ .exited → Waking state

private theorem unmark_of_notMem {events : List Fd} {fd : Fd} {id : Nat}
    (sound : Sound listensd state) (file : state.table.file fd = some (.client id))
    (other : fd ∉ events) : state.unmark events id = state.clients id := by
  unfold State.unmark
  rw [if_neg]
  rintro ⟨event, member, same⟩
  exact other (sound.once fd event id file same ▸ member)

private theorem unmark_fields (events : List Fd) (id : Nat) :
    (state.unmark events id).watched = (state.clients id).watched ∧
      (state.unmark events id).queue = (state.clients id).queue := by
  unfold State.unmark
  split <;> exact ⟨rfl, rfl⟩

/-- What the invariant says of a client is as it was. -/
structure Stays (state after : State) (fd : Fd) (id : Nat) : Prop where
  file : state.table.file fd = some (.client id)
  watched : (after.clients id).watched = (state.clients id).watched
  ready : (after.clients id).ready = (state.clients id).ready
  queue : (after.clients id).queue = (state.clients id).queue
  fresh : state.phase.fresh = some fd → after.phase.fresh = some fd
  events : fd ∈ state.phase.events → fd ∈ after.phase.events

private theorem waking_of (waking : Waking state)
    (each : ∀ fd id, after.table.file fd = some (.client id) → Stays state after fd id ∨
      ((after.clients id).watched = true ∨ after.phase.fresh = some fd) ∧
        ((after.clients id).queue = [] ∨ (after.clients id).ready = true ∨
          fd ∈ after.phase.events ∨ after.phase.fresh = some fd)) : Waking after := by
  constructor
  · intro fd id file
    rcases each fd id file with stays | ⟨watched, -⟩
    · rw [stays.watched]
      exact (waking.watched fd id stays.file).imp_right stays.fresh
    · exact watched
  · intro fd id file
    rcases each fd id file with stays | ⟨-, ready⟩
    · rw [stays.ready, stays.queue]
      exact (waking.ready fd id stays.file).imp_right
        (Or.imp_right (Or.imp stays.events stays.fresh))
    · exact ready

@[simp] theorem noteRead_fields (id other : Nat) (read : Read) :
    ((state.noteRead id read).clients other).watched = (state.clients other).watched ∧
      ((state.noteRead id read).clients other).ready = (state.clients other).ready ∧
      ((state.noteRead id read).clients other).queue = (state.clients other).queue := by
  by_cases own : other = id
  · subst own
    simp [State.noteRead, State.change]
  · simp [State.noteRead, State.change, own]

@[simp] theorem noteResponse_fields (id other : Nat) (response : Response) :
    ((state.noteResponse id response).clients other).watched = (state.clients other).watched ∧
      ((state.noteResponse id response).clients other).ready = (state.clients other).ready ∧
      ((state.noteResponse id response).clients other).queue = (state.clients other).queue := by
  by_cases own : other = id
  · subst own
    simp [State.noteResponse, State.change]
  · simp [State.noteResponse, State.change, own]

private theorem waking_of_same (waking : Waking state) (table : after.table = state.table)
    (clients : ∀ id, (after.clients id).watched = (state.clients id).watched ∧
      (after.clients id).ready = (state.clients id).ready ∧
      (after.clients id).queue = (state.clients id).queue)
    (fresh : after.phase.fresh = state.phase.fresh)
    (events : after.phase.events = state.phase.events) : Waking after := by
  apply waking_of waking
  intro fd id file
  obtain ⟨watched, ready, queue⟩ := clients id
  exact .inl ⟨table ▸ file, watched, ready, queue, fun it => fresh.trans it, fun it => events ▸ it⟩

private theorem waking_of_arrival (waking : Waking state) (id : Nat) {client : Client}
    (watched : client.watched = (state.clients id).watched)
    (ready : client.ready = ((state.clients id).ready || (state.clients id).watched)) :
    Waking (state.change id client) := by
  apply waking_of waking
  intro fd other file
  by_cases own : other = id
  · subst own
    right
    have marked := waking.watched fd other file
    simp only [State.change, Function.update_self, watched, ready]
    refine ⟨marked, ?_⟩
    rcases marked with marked | fresh
    · exact .inr (.inl (by simp [marked]))
    · exact .inr (.inr (.inr fresh))
  · left
    have same : (state.change id client).clients other = state.clients other := by
      simp [State.change, own]
    exact ⟨file, by rw [same], by rw [same], by rw [same], fun it => it, fun it => it⟩

private theorem waking_of_one (waking : Waking state) (sound : Sound listensd state) {fd : Fd}
    {id : Nat} (own : state.table.file fd = some (.client id)) (table : after.table = state.table)
    (others : ∀ other, other ≠ id → after.clients other = state.clients other)
    (fresh : ∀ other, other ≠ fd → state.phase.fresh = some other → after.phase.fresh = some other)
    (events : ∀ other, other ≠ fd → other ∈ state.phase.events → other ∈ after.phase.events)
    (watched : (after.clients id).watched = true)
    (seen : (after.clients id).queue = [] ∨ (after.clients id).ready = true ∨
      fd ∈ after.phase.events) : Waking after := by
  apply waking_of waking
  intro other number file
  rw [table] at file
  by_cases it : number = id
  · subst it
    obtain rfl := sound.once _ _ _ file own
    exact .inr ⟨.inl watched, seen.imp_right (Or.imp_right .inl)⟩
  · have apart : other ≠ fd := by
      rintro rfl
      exact it (Socket.client.inj (Option.some.inj (file.symm.trans own)))
    have same := others number it
    exact .inl ⟨file, by rw [same], by rw [same], by rw [same], fresh other apart, events other apart⟩

private theorem wait_wakes (waking : Waking state) (sound : Sound listensd state) (events : List Fd)
    (at' : state.phase = .waiting) :
    Waking { state with clients := state.unmark events, phase := .handling events } := by
  apply waking_of waking
  intro fd id file
  obtain ⟨watched, queue⟩ := @unmark_fields state events id
  by_cases member : fd ∈ events
  · right
    refine ⟨?_, .inr (.inr (.inl member))⟩
    simpa [watched, at', Phase.fresh] using waking.watched fd id file
  · left
    have same := unmark_of_notMem sound file member
    refine ⟨file, watched, congrArg _ same, queue, ?_, ?_⟩
    · simp [at', Phase.fresh]
    · simp [at', Phase.events]

private theorem ne_listening (sound : Sound listensd state) {fd : Fd} {id : Nat}
    (file : state.table.file fd = some (.client id)) : fd ≠ listensd := by
  rintro rfl
  rw [sound.listening] at file
  cases file

private theorem lowest_pos (sound : Sound listensd state) : 0 < state.table.lowest := by
  apply Nat.pos_of_ne_zero
  intro zero
  have free := state.table.file_lowest
  rw [zero] at free
  rcases sound.zero with file | file <;> simp [file] at free

private theorem accept_wakes (waking : Waking state) (sound : Sound listensd state)
    {rest : List Fd} (queue : List UInt8) (hungUp : Bool)
    (at' : state.phase = .handling (listensd :: rest)) :
    Waking { state with
      table := state.table.set state.table.lowest (.client state.accepted)
      clients := Function.update state.clients state.accepted ⟨queue, hungUp, false, false, [], []⟩
      accepted := state.accepted + 1
      phase := .accepted state.table.lowest rest } := by
  apply waking_of waking
  intro fd id file
  rw [FdTable.file_set, Function.update_apply] at file
  split at file
  · rename_i lowest
    subst lowest
    exact .inr ⟨.inr rfl, .inr (.inr (.inr rfl))⟩
  · left
    have old : id ≠ state.accepted := Nat.ne_of_lt (sound.known fd id file)
    refine ⟨file, ?_, ?_, ?_, ?_, ?_⟩
    · simp [old]
    · simp [old]
    · simp [old]
    · simp [at', Phase.fresh]
    · simp [at', Phase.events, ne_listening sound file]

private theorem acceptFails_wakes (waking : Waking state) (sound : Sound listensd state)
    {rest : List Fd} (at' : state.phase = .handling (listensd :: rest)) :
    Waking { state with phase := .handling rest } := by
  apply waking_of waking
  intro fd id file
  left
  refine ⟨file, rfl, rfl, rfl, ?_, ?_⟩
  · simp [at', Phase.fresh]
  · simp [at', Phase.events, ne_listening sound file]

private theorem close_wakes (waking : Waking state) {fd : Fd} {rest : List Fd}
    (at' : state.phase = .finishing fd rest) :
    Waking { state with
      table := state.table.close fd
      clients := fun id => if state.table.file fd = some (.client id)
        then { state.clients id with
          responses := (state.clients id).responses ++ [.disconnected] }
        else state.clients id
      phase := .handling rest } := by
  apply waking_of waking
  intro other id file
  rw [FdTable.file_close, Function.update_apply] at file
  split at file
  · cases file
  · rename_i apart
    left
    refine ⟨file, ?_, ?_, ?_, ?_, ?_⟩
    · dsimp only
      split <;> rfl
    · dsimp only
      split <;> rfl
    · dsimp only
      split <;> rfl
    · simp [at', Phase.fresh]
    · simp [at', Phase.events, apart]

theorem step_wakes {smooth : Bool} (sound : Sound listensd state) (wakes : Wakes state)
    (step : Step listensd state smooth after) : Wakes after := by
  intro running
  have waking : Waking state := by
    apply wakes
    intro ended
    cases step with
    | arrive | hangUp => exact running ended
    | _ => simp_all
  cases step with
  | wait events at' => exact wait_wakes waking sound events at'
  | again at' | nonblock at' | start at' other | readNothing at' | stop at' =>
    exact waking_of_same waking rfl (fun _ => ⟨rfl, rfl, rfl⟩) (by rw [at']; rfl) (by rw [at']; rfl)
  | accept queue hungUp at' =>
    rw [if_pos (lowest_pos sound)]
    exact accept_wakes waking sound queue hungUp at'
  | acceptFails at' => exact acceptFails_wakes waking sound at'
  | nonblockFails at' | addFails at' | writeFails at' => exact (running rfl).elim
  | @add clientsd rest id at' own =>
    refine waking_of_one waking sound own rfl ?_ ?_ ?_ ?_ ?_
    · exact fun other apart => Function.update_of_ne apart _ _
    · intro other apart fresh
      rw [at'] at fresh
      exact (apart (Option.some.inj fresh).symm).elim
    · simp [at', Phase.events, State.change]
    · simp [State.change]
    · by_cases empty : (state.clients id).queue = []
      · simp [State.change, empty]
      · simp [State.change, empty]
  | @read fd rest id readn at' own =>
    have watched := waking.watched fd id own
    simp only [at', Phase.fresh, reduceCtorEq, or_false] at watched
    refine waking_of_one waking sound own rfl ?_ ?_ ?_ ?_ ?_
    · intro other apart
      simp [State.noteRead, State.change, apart]
    · simp [at', Phase.fresh]
    · simp [at', Phase.events, State.noteRead, State.change]
    · simp [State.noteRead, State.change, watched]
    · exact .inr (.inr List.mem_cons_self)
  | @readAgain fd rest id at' own empty =>
    have watched := waking.watched fd id own
    simp only [at', Phase.fresh, reduceCtorEq, or_false] at watched
    refine waking_of_one waking sound own rfl ?_ ?_ ?_ ?_ ?_
    · intro other apart
      simp [State.noteResponse, State.noteRead, State.change, apart]
    · simp [at', Phase.fresh]
    · intro other apart
      simp [at', Phase.events, State.noteRead, State.noteResponse, State.change, apart]
    · simp [watched]
    · simp [empty]
  | readEof at' file | readFails at' file =>
    exact waking_of_same waking rfl (fun _ => noteRead_fields _ _ _) (by rw [at']; rfl) (by rw [at']; rfl)
  | write written at' =>
    exact waking_of_same waking rfl (fun _ => noteResponse_fields _ _ _) (by rw [at']; rfl) (by rw [at']; rfl)
  | close at' => exact close_wakes waking at'
  | arrive id bytes => exact waking_of_arrival waking id rfl rfl
  | hangUp id => exact waking_of_arrival waking id rfl rfl

theorem wakes_of_reachable (reachable : (server listensd).Reachable state) : Wakes state := by
  have both : Sound listensd state ∧ Wakes state := by
    apply reachable.invariant fun state => Sound listensd state ∧ Wakes state
    · intro state starts
      refine ⟨starts.sound, fun _ => ⟨?_, ?_⟩⟩
      · exact fun fd id file => (starts.none fd id file).elim
      · exact fun fd id file => (starts.none fd id file).elim
    · rintro state after ⟨sound, wakes⟩ ⟨smooth, step⟩
      exact ⟨step_sound sound step, step_wakes sound wakes step⟩
  exact both.2

/-- Whenever the server calls `epoll_wait`, every client that is connected has nothing to
read or is marked ready. -/
theorem nothing_stranded (reachable : (server listensd).Reachable state)
    (waiting : state.phase = .waiting) (fd id : Nat)
    (connected : state.table.file fd = some (.client id)) :
    (state.clients id).queue = [] ∨ (state.clients id).ready = true := by
  have waking := wakes_of_reachable reachable (by rw [waiting]; nofun)
  simpa [waiting, Phase.events, Phase.fresh] using waking.ready fd id connected

theorem nothing_stranded_early : ∃ state : State, state.table.file 5 = some (.client 0) ∧
    (state.clients 0).queue = [104] ∧
    ((state.clients 0).queue = [] ∨ (state.clients 0).ready = true) := by
  have start := Machine.Reachable.start (beginning_starts (List.replicate 10 0) rfl)
  have event := start.next ⟨_, .wait [3] rfl (by decide) (by decide) (by simp)⟩
  have accepted := event.next ⟨_, .accept [104] false rfl⟩
  have watched := (accepted.next ⟨_, .nonblock rfl⟩).next ⟨_, .add rfl rfl⟩
  have waits := watched.next ⟨_, .again rfl⟩
  exact ⟨_, rfl, rfl, nothing_stranded waits rfl 5 0 rfl⟩

end Lsnp.EpollEcho
