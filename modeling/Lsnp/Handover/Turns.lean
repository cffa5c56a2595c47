import Lsnp.Handover.Programs

namespace Lsnp.Handover

open Lsnp.Interaction Lsnp.Libc Lsnp.SysV

def Sender.removedSet : Sender → Bool
  | .removingAgain | .returning | .exited => true
  | _ => false

namespace Receiver

def removedSegment : Receiver → Bool
  | .removingSet | .returning | .exited => true
  | _ => false

def reads : Receiver → Bool
  | .comparingEnd | .comparingEmpty | .printing => true
  | _ => false

def left : Receiver → Bool
  | .detaching | .removingSegment | .removingSet | .returning | .exited => true
  | _ => false

/-- The receiver has no right to use the segment, and has not left its loop. -/
def waits : Receiver → Bool
  | .starting | .taking | .delaying => true
  | _ => false

end Receiver

/-- Both programs use the same segment and the same set, and have got them in order. -/
structure Founded (state : State) : Prop where
  segment : Shared state.segments state.senderSegment state.receiverSegment
    state.receiver.removedSegment
  set : Shared state.sets state.senderSet state.receiverSet state.sender.removedSet
  senderSegment : state.senderSet ≠ .making → ∃ shmid, state.senderSegment = .got shmid
  senderSet : state.sender ≠ .starting → ∃ semid, state.senderSet = .got semid
  receiverSegment : state.receiverSet ≠ .making → ∃ shmid, state.receiverSegment = .got shmid
  receiverSet : state.receiver ≠ .starting → ∃ semid, state.receiverSet = .got semid

def Sender.takes (count : Nat) : Sender → Nat
  | .starting | .settingSecond | .attaching => 0
  | .taking sent => sent
  | .writing sent _ | .printing sent | .giving sent => sent + 1
  | .detaching | .removing | .removingAgain | .returning | .exited => count + 1

/-- How often the sender has given the receiver its turn. -/
def Sender.gives (count : Nat) : Sender → Nat
  | .starting | .settingSecond | .attaching => 0
  | .taking sent | .writing sent _ | .printing sent | .giving sent => sent
  | .detaching | .removing | .removingAgain | .returning | .exited => count

/-- How often the receiver has taken a turn, at most, with so many messages printed. -/
def Receiver.takes (printed : Nat) : Receiver → Nat
  | .starting | .taking | .delaying | .giving => printed
  | _ => printed + 1

/-- How often the receiver has given the sender its turn. -/
def Receiver.gives (printed : Nat) : Receiver → Nat
  | .giving => printed - 1
  | _ => printed

def tally (first second : Nat) : Nat → Nat := fun index => if index = 0 then first else second

/-- The adjustments of the set are no more than the turns that either program has had. -/
structure Adjusted (count : Nat) (state : State) : Prop where
  sender : (state.sets.objects 0).Used .sender
    (tally (state.sender.takes count) (state.sender.gives count))
  receiver : (state.sets.objects 0).Used .receiver
    (tally (state.receiver.gives state.printed.length) (state.receiver.takes state.printed.length))

namespace State

def valued (state : State) (write read : Nat) : Prop :=
  (state.sets.objects 0).values 0 = write ∧ (state.sets.objects 0).values 1 = read

/-- The sender is writing. The last `semop` of the sender, for the string behind the messages, may
have failed and left the first semaphore as it was. -/
def closed (state : State) (message : Prop) : Prop :=
  (message → (state.sets.objects 0).values 0 = 0) ∧ (state.sets.objects 0).values 1 = 0

/-- The sender waits, with so many messages sent; the right to use the segment is with the
receiver or on its way there or back. -/
def handed (state : State) (sent : Nat) : Prop :=
  match state.receiver with
  | .comparingEnd | .comparingEmpty | .printing => state.valued 0 0 ∧
      state.printed.length + 1 = sent ∧ state.string 0 = message state.printed.length
  | .giving => state.valued 0 0 ∧ state.printed.length = sent ∧ 0 < sent
  | .starting | .taking | .delaying => state.valued 1 0 ∧ state.printed.length = sent ∨
      state.valued 0 1 ∧ state.printed.length + 1 = sent ∧
        state.string 0 = message state.printed.length
  | _ => False

/-- What either program has done when the sender is where it is. -/
def turn (count : Nat) (state : State) : Prop :=
  match state.sender with
  | .starting => state.valued 0 0 ∧ state.printed = [] ∧
      (state.receiver = .starting ∨ state.receiver = .taking)
  | .settingSecond | .attaching => state.valued 1 0 ∧ state.printed = [] ∧
      (state.receiver = .starting ∨ state.receiver = .taking)
  | .taking sent => sent ≤ count ∧ state.handed sent
  | .writing sent written => sent ≤ count ∧ state.closed (sent < count) ∧
      state.receiver.waits = true ∧ state.printed.length = sent ∧ written ≤ (text count sent).length ∧
      written ≤ (state.segments.objects 0).length ∧
      (state.segments.objects 0).take written = (text count sent).take written
  | .printing sent | .giving sent => sent < count ∧ state.valued 0 0 ∧
      state.receiver.waits = true ∧ state.printed.length = sent ∧ state.string 0 = message sent
  | .detaching | .removing => state.closed False ∧ state.receiver.waits = true ∧
      state.printed.length = count ∧ state.string 0 = ending
  | .removingAgain | .returning | .exited => state.printed.length = count ∧
      state.string 0 = ending ∧
      (state.receiver.waits = true ∨ state.receiver = .comparingEnd ∨ state.receiver.left = true)

end State

structure Invariant (count : Nat) (state : State) : Prop where
  founded : Founded state
  adjusted : Adjusted count state
  turn : state.turn count
  printed : state.printed = (List.range state.printed.length).map message
  early : state.receiver = .starting → state.printed = []

variable {count : Nat} {state after : State}

theorem initial_invariant : Invariant count .initial where
  founded := ⟨.absent rfl rfl, .absent rfl rfl, by simp [State.initial], by simp [State.initial],
    by simp [State.initial], by simp [State.initial]⟩
  adjusted := ⟨Semaphores.used_fresh, Semaphores.used_fresh⟩
  turn := ⟨⟨rfl, rfl⟩, rfl, .inl rfl⟩
  printed := rfl
  early _ := rfl

private theorem nul_notMem_heading : nul ∉ heading := by
  unfold heading
  simp [nul]

private theorem head_heading : heading.head? = some 's' := by
  unfold heading
  simp

theorem nul_notMem_message (index : Nat) : nul ∉ message index := by
  simp only [message, List.mem_append]
  rintro (front | digit)
  · exact nul_notMem_heading front
  · have digit := Nat.isDigit_of_mem_toDigits (by decide) (by decide) digit
    cases digit

theorem nul_notMem_ending : nul ∉ ending := by simp [nul, ending]

theorem nul_notMem_text (count sent : Nat) : nul ∉ text count sent := by
  by_cases more : sent < count
  · rw [text, if_pos more]
    exact nul_notMem_message sent
  · rw [text, if_neg more]
    exact nul_notMem_ending

private theorem head_message (index : Nat) : (message index).head? = some 's' := by
  simp [message, List.head?_append, head_heading]

theorem message_ne_ending (index : Nat) : message index ≠ ending := by
  intro same
  have first := head_message index
  rw [same] at first
  simp [ending] at first

theorem message_ne_nil (index : Nat) : message index ≠ [] := by
  intro same
  have first := head_message index
  rw [same] at first
  cases first

namespace Founded

theorem sender_moves (founded : Founded state) {place : Sender}
    (same : place.removedSet = state.sender.removedSet) (begun : state.sender ≠ .starting) :
    Founded { state with sender := place } :=
  { founded with
    set := same ▸ founded.set
    senderSet := fun _ => founded.senderSet begun }

theorem receiver_moves (founded : Founded state) {place : Receiver}
    (same : place.removedSegment = state.receiver.removedSegment)
    (begun : ∃ semid, state.receiverSet = .got semid) :
    Founded { state with receiver := place } :=
  { founded with
    segment := same ▸ founded.segment
    receiverSet := fun _ => begun }

theorem operate (founded : Founded state) (number : Nat)
    (change : Semaphores Program → Semaphores Program) :
    Founded { state with sets := state.sets.operate number change } :=
  { founded with set := founded.set.operate change }

theorem modify (founded : Founded state) (number : Nat) (change : List Char → List Char) :
    Founded { state with segments := state.segments.modify number change } :=
  { founded with segment := founded.segment.modify change }

theorem has_set (founded : Founded state) {semid : Nat} (set : state.senderSet = .got semid)
    (kept : state.sender.removedSet = false) : semid = 0 ∧ state.sets.has 0 := by
  have shared := founded.set
  rw [set, kept] at shared
  obtain rfl := shared.number_eq
  exact ⟨rfl, shared.has⟩

end Founded

theorem sender_founded (founded : Founded state) (step : SenderStep count state after)
    (ready : state.sender = .removing → ∃ semid, state.receiverSet = .got semid) :
    Founded after := by
  cases step with
  | getSegment at' get =>
    refine { founded with segment := founded.segment.get get, senderSegment := ?_ }
    intro begun
    obtain ⟨shmid, got⟩ := founded.senderSegment begun
    rw [got] at get
    cases get
  | getSet at' segment get =>
    exact { founded with
      set := founded.set.get get
      senderSegment := fun _ => ⟨_, segment⟩
      senderSet := fun begun => (begun at').elim }
  | @setFirst semid at' set =>
    have moved := founded.operate semid (·.setval 0 1)
    have shared := moved.set
    rw [at'] at shared
    exact { moved with
      set := shared
      senderSet := fun _ => ⟨_, set⟩ }
  | setSecond at' set | take at' set | give at' set | return' at' set =>
    exact (founded.operate _ _).sender_moves (by rw [at']; rfl) (by rw [at']; nofun)
  | write at' segment next =>
    refine (founded.modify _ _).sender_moves ?_ (by rw [at']; nofun)
    rw [at']
    split
    · rfl
    · split <;> rfl
  | attach at' | print at' | detach at' =>
    exact founded.sender_moves (by rw [at']; rfl) (by rw [at']; nofun)
  | remove at' set =>
    obtain ⟨other, got⟩ := ready at'
    have shared := founded.set
    rw [set, got] at shared
    exact { founded with
      set := by rw [set, got]; exact shared.remove
      senderSet := fun _ => ⟨_, set⟩ }
  | removeAgain at' set =>
    have shared := founded.set
    rw [at'] at shared
    have got := shared.both.2
    rw [set, got] at shared
    exact { founded with
      set := by rw [set, got]; exact shared.remove
      senderSet := fun _ => ⟨_, set⟩ }

theorem receiver_founded (founded : Founded state) (step : ReceiverStep state after)
    (last : state.receiver.left = true → state.sender.removedSet = true) : Founded after := by
  have begun : state.receiver ≠ .starting → ∃ semid, state.receiverSet = .got semid :=
    founded.receiverSet
  cases step with
  | getSegment at' get =>
    refine { founded with segment := (founded.segment.symm.get get).symm, receiverSegment := ?_ }
    intro begun
    obtain ⟨shmid, got⟩ := founded.receiverSegment begun
    rw [got] at get
    cases get
  | getSet at' segment get =>
    exact { founded with
      set := (founded.set.symm.get get).symm
      receiverSegment := fun _ => ⟨_, segment⟩
      receiverSet := fun begun => (begun at').elim }
  | attach at' set => exact founded.receiver_moves (by rw [at']; rfl) ⟨_, set⟩
  | take at' set | give at' set | return' at' set =>
    exact (founded.operate _ _).receiver_moves (by rw [at']; rfl) ⟨_, set⟩
  | compareEnd at' segment | compareEmpty at' segment =>
    apply founded.receiver_moves _ (begun (by rw [at']; nofun))
    rw [at']
    split <;> rfl
  | print at' segment =>
    exact { founded.receiver_moves (by rw [at']; rfl) (begun (by rw [at']; nofun)) with }
  | delay at' | detach at' =>
    exact founded.receiver_moves (by rw [at']; rfl) (begun (by rw [at']; nofun))
  | removeSegment at' segment =>
    have removed := last (by rw [at']; rfl)
    obtain ⟨semid, set⟩ := founded.senderSet (by rintro early; simp [early, Sender.removedSet] at removed)
    obtain ⟨other, got⟩ := founded.senderSegment (by rw [set]; nofun)
    have shared := founded.segment
    rw [segment, got, at'] at shared
    have here := shared.symm.has
    exact { founded with
      segment := by rw [if_pos here, segment, got]; exact shared.symm.remove.symm
      receiverSet := fun _ => begun (by rw [at']; nofun) }
  | removeSet at' set =>
    have removed := last (by rw [at']; rfl)
    have shared := founded.set
    rw [removed] at shared
    rw [Objects.remove, if_neg shared.not_has]
    exact founded.receiver_moves (by rw [at']; rfl) ⟨_, set⟩

section

variable {process : Program} {set : Semaphores Program} {table : Objects (Semaphores Program)}
  {times : Nat → Nat} {first second number : Nat} {change : Int}

theorem tally_le {more least : Nat} (one : first ≤ more) (other : second ≤ least) (index : Nat) :
    tally first second index ≤ tally more least index := by
  unfold tally
  split
  · exact one
  · exact other

theorem used_first (used : set.Used process (tally first second)) (one : change.natAbs = 1) :
    (set.semop process 0 change).Used process (tally (first + 1) second) := by
  refine (used.semop one).mono fun index => ?_
  rw [Function.update_apply]
  unfold tally
  split <;> simp_all

theorem used_second (used : set.Used process (tally first second)) (one : change.natAbs = 1) :
    (set.semop process 1 change).Used process (tally first (second + 1)) := by
  refine (used.semop one).mono fun index => ?_
  rw [Function.update_apply]
  unfold tally
  split_ifs <;> simp_all

theorem fits_first (used : set.Used process (tally first second)) (one : change.natAbs = 1)
    (value : (set.values 0 + change).toNat ≤ Semaphores.SEMVMX) (fewer : first < Semaphores.SEMVMX) :
    set.inRange process 0 change := by
  refine used.inRange one value ?_
  rwa [tally, if_pos rfl]

theorem fits_second (used : set.Used process (tally first second)) (one : change.natAbs = 1)
    (value : (set.values 1 + change).toNat ≤ Semaphores.SEMVMX) (fewer : second < Semaphores.SEMVMX) :
    set.inRange process 1 change := by
  refine used.inRange one value ?_
  rwa [tally, if_neg (by decide)]

theorem used_operate {act : Semaphores Program → Semaphores Program} {more : Nat → Nat}
    (used : (table.objects number).Used process times) (fewer : ∀ index, times index ≤ more index)
    (acted : (act (table.objects number)).Used process more) :
    ((table.operate number act).objects number).Used process more := by
  unfold Objects.operate
  split
  · rwa [Objects.objects_modify]
  · exact used.mono fewer

theorem used_get {after : Objects (Semaphores Program)} {getting other : Getting}
    (get : Get .fresh table getting after other) (used : (table.objects number).Used process times) :
    (after.objects number).Used process times := by
  cases get with
  | make free =>
    simp only [Objects.create, Function.update_apply]
    split
    · exact Semaphores.used_fresh
    · exact used
  | there | find | miss => exact used

end

namespace Adjusted

theorem sender_operates (adjusted : Adjusted count state) {place : Sender}
    {act : Semaphores Program → Semaphores Program}
    (takes : state.sender.takes count ≤ place.takes count) (gives : state.sender.gives count ≤ place.gives count)
    (sender : (act (state.sets.objects 0)).Used .sender (tally (place.takes count) (place.gives count)))
    (receiver : (act (state.sets.objects 0)).Used .receiver
      (tally (state.receiver.gives state.printed.length) (state.receiver.takes state.printed.length))) :
    Adjusted count { state with sets := state.sets.operate 0 act, sender := place } :=
  ⟨used_operate adjusted.sender (tally_le takes gives) sender,
    used_operate adjusted.receiver (fun _ => Nat.le_refl _) receiver⟩

theorem receiver_operates (adjusted : Adjusted count state) {place : Receiver}
    {act : Semaphores Program → Semaphores Program}
    (gives : state.receiver.gives state.printed.length ≤ place.gives state.printed.length)
    (takes : state.receiver.takes state.printed.length ≤ place.takes state.printed.length)
    (receiver : (act (state.sets.objects 0)).Used .receiver
      (tally (place.gives state.printed.length) (place.takes state.printed.length)))
    (sender : (act (state.sets.objects 0)).Used .sender
      (tally (state.sender.takes count) (state.sender.gives count))) :
    Adjusted count { state with sets := state.sets.operate 0 act, receiver := place } :=
  ⟨used_operate adjusted.sender (fun _ => Nat.le_refl _) sender,
    used_operate adjusted.receiver (tally_le gives takes) receiver⟩

theorem sender_moves (adjusted : Adjusted count state) {place : Sender}
    (takes : state.sender.takes count ≤ place.takes count)
    (gives : state.sender.gives count ≤ place.gives count) :
    Adjusted count { state with sender := place } :=
  ⟨adjusted.sender.mono (tally_le takes gives), adjusted.receiver⟩

theorem receiver_moves (adjusted : Adjusted count state) {place : Receiver}
    (gives : state.receiver.gives state.printed.length ≤ place.gives state.printed.length)
    (takes : state.receiver.takes state.printed.length ≤ place.takes state.printed.length) :
    Adjusted count { state with receiver := place } :=
  ⟨adjusted.sender, adjusted.receiver.mono (tally_le gives takes)⟩

end Adjusted

private theorem valued_operate {later : State} {write read : Nat} (here : state.sets.has 0)
    (change : Semaphores Program → Semaphores Program) (sets : later.sets = state.sets.operate 0 change)
    (changed : (change (state.sets.objects 0)).values 0 = write ∧
      (change (state.sets.objects 0)).values 1 = read) : later.valued write read := by
  simpa [State.valued, sets, Objects.operate_of_has here] using changed

private theorem valued_get {table after : Objects (Semaphores Program)} {first other : Getting}
    (get : Get .fresh table first after other) (zero : (table.objects 0).values 0 = 0 ∧
      (table.objects 0).values 1 = 0) :
    (after.objects 0).values 0 = 0 ∧ (after.objects 0).values 1 = 0 := by
  cases get with
  | make free =>
    simp only [Objects.create, Function.update_apply]
    split
    · exact ⟨rfl, rfl⟩
    · exact zero
  | there | find | miss => exact zero

private theorem handed_write {sent : Nat} (handed : state.handed sent)
    (free : 0 < (state.sets.objects 0).values 0) :
    state.valued 1 0 ∧ state.receiver.waits = true ∧ state.printed.length = sent := by
  unfold State.handed State.valued at handed
  cases place : state.receiver with
  | starting | taking | delaying =>
    simp only [place] at handed
    rcases handed with ⟨values, sent⟩ | ⟨values, -⟩
    · exact ⟨values, rfl, sent⟩
    · omega
  | comparingEnd | comparingEmpty | printing | giving =>
    simp only [place] at handed
    omega
  | _ =>
    simp only [place] at handed

private theorem handed_read {sent : Nat} (handed : state.handed sent)
    (waits : state.receiver.waits = true) (free : 0 < (state.sets.objects 0).values 1) :
    state.valued 0 1 ∧ state.printed.length + 1 = sent ∧
      state.string 0 = message state.printed.length := by
  unfold State.handed State.valued at handed
  cases place : state.receiver with
  | starting | taking | delaying =>
    simp only [place] at handed
    rcases handed with ⟨values, -⟩ | held
    · omega
    · exact held
  | _ => simp [place, Receiver.waits] at waits

private theorem handed_waits {sent : Nat} (waits : state.receiver.waits = true)
    (values : state.valued 0 1) (length : state.printed.length + 1 = sent)
    (string : state.string 0 = message state.printed.length) : state.handed sent := by
  unfold State.handed
  cases place : state.receiver with
  | starting | taking | delaying => exact .inr ⟨values, length, string⟩
  | _ => simp [place, Receiver.waits] at waits

private theorem write_turn {sent written shmid : Nat} {char : Char} (founded : Founded state)
    (segment : state.senderSegment = .got shmid) (turn : state.turn count)
    (at' : state.sender = .writing sent written)
    (next : (text count sent ++ [nul])[written]? = some char) :
    State.turn count { state with
      segments := state.segments.modify shmid (poke written char)
      sender := if written < (text count sent).length then .writing sent (written + 1)
        else if sent < count then .printing sent
        else .detaching } := by
  have shared := founded.segment
  rw [segment] at shared
  obtain rfl := shared.number_eq
  simp only [State.turn, at'] at turn
  obtain ⟨bound, values, waits, length, ending, inside, so⟩ := turn
  by_cases more : written < (text count sent).length
  · rw [List.getElem?_append_left more] at next
    obtain ⟨longer, grown⟩ := take_poke inside so next
    simp only [State.turn, if_pos more, Objects.objects_modify]
    exact ⟨bound, values, waits, length, more, longer, grown⟩
  · obtain rfl : written = (text count sent).length :=
      Nat.le_antisymm ending (Nat.not_lt.mp more)
    obtain rfl : nul = char := by simpa using next
    rw [List.take_length] at so
    have string := cString_poke so (nul_notMem_text count sent)
    simp only [if_neg more]
    by_cases last : sent < count
    · rw [text, if_pos last] at string
      simp only [State.turn, if_pos last, State.string, Objects.objects_modify, text]
      exact ⟨last, ⟨values.1 last, values.2⟩, waits, length, string⟩
    · rw [text, if_neg last] at string
      simp only [State.turn, if_neg last, State.string, Objects.objects_modify, text]
      exact ⟨⟨nofun, values.2⟩, waits, length.trans (Nat.le_antisymm bound (Nat.not_lt.mp last)), string⟩

private theorem take_closed (few : count ≤ Semaphores.SEMVMX) (adjusted : Adjusted count state)
    (here : state.sets.has 0) {sent : Nat} (at' : state.sender = .taking sent) (values : state.valued 1 0) :
    State.closed { state with sets := state.sets.operate 0 (·.semop .sender 0 (-1)) } (sent < count) := by
  have used : (state.sets.objects 0).Used .sender (tally sent sent) := by
    simpa only [at', Sender.takes, Sender.gives] using adjusted.sender
  simp only [State.closed, Objects.operate_of_has here, Objects.objects_modify]
  refine ⟨fun message => ?_, ?_⟩
  · have fits : (state.sets.objects 0).inRange .sender 0 (-1) :=
      fits_first used rfl (by rw [values.1]; omega) (by omega)
    simp [Semaphores.values_semop fits, values.1]
  · rw [Semaphores.values_semop_of_ne _ _ (by decide), values.2]

theorem sender_turn (few : count ≤ Semaphores.SEMVMX) (invariant : Invariant count state)
    (step : SenderStep count state after) : after.turn count := by
  obtain ⟨founded, adjusted, turn, printed, early⟩ := invariant
  cases step with
  | getSegment at' get =>
    simp only [State.turn, at'] at turn ⊢
    exact turn
  | getSet at' segment get =>
    simp only [State.turn, at'] at turn ⊢
    exact ⟨valued_get get turn.1, turn.2⟩
  | setFirst at' set =>
    obtain ⟨rfl, here⟩ := founded.has_set set (by rw [at']; rfl)
    simp only [State.turn, at'] at turn
    obtain ⟨⟨write, read⟩, turn⟩ := turn
    exact ⟨valued_operate here (·.setval 0 1) rfl (by simp [read]), turn⟩
  | setSecond at' set =>
    obtain ⟨rfl, here⟩ := founded.has_set set (by rw [at']; rfl)
    simp only [State.turn, at'] at turn
    obtain ⟨⟨write, read⟩, turn⟩ := turn
    exact ⟨valued_operate here (·.setval 1 0) rfl (by simp [write]), turn⟩
  | attach at' =>
    simp only [State.turn, at'] at turn
    obtain ⟨values, none, place⟩ := turn
    refine ⟨Nat.zero_le _, ?_⟩
    rcases place with place | place <;> simp only [State.handed, place] <;>
      exact .inl ⟨values, by rw [none]; rfl⟩
  | take at' set open' =>
    obtain ⟨rfl, here⟩ := founded.has_set set (by rw [at']; rfl)
    simp only [State.turn, at'] at turn
    obtain ⟨bound, handed⟩ := turn
    obtain ⟨⟨write, read⟩, waits, length⟩ := handed_write handed (open' here)
    exact ⟨bound, take_closed few adjusted here at' ⟨write, read⟩, waits, length, Nat.zero_le _,
      Nat.zero_le _, rfl⟩
  | write at' segment next => exact write_turn founded segment turn at' next
  | print at' =>
    simp only [State.turn, at'] at turn ⊢
    exact turn
  | give at' set =>
    obtain ⟨rfl, here⟩ := founded.has_set set (by rw [at']; rfl)
    simp only [State.turn, at'] at turn
    obtain ⟨more, ⟨write, read⟩, waits, rfl, string⟩ := turn
    have used := adjusted.sender
    simp only [at', Sender.takes, Sender.gives] at used
    have fits : (state.sets.objects 0).inRange .sender 1 1 :=
      fits_second used rfl (by rw [read]; omega) (by omega)
    refine ⟨more, handed_waits waits (valued_operate here (·.semop .sender 1 1) rfl ?_) rfl string⟩
    simp [Semaphores.values_semop fits, write, read]
  | detach at' =>
    simp only [State.turn, at'] at turn ⊢
    exact turn
  | remove at' set =>
    simp only [State.turn, at'] at turn
    obtain ⟨-, waits, all, string⟩ := turn
    exact ⟨all, string, .inl waits⟩
  | removeAgain at' set | return' at' set =>
    simp only [State.turn, at'] at turn ⊢
    exact turn

private theorem turn_taking (turn : state.turn count) (waits : state.receiver.waits = true) :
    State.turn count { state with receiver := .taking } := by
  unfold State.turn at turn ⊢
  cases place : state.sender with
  | starting | settingSecond | attaching =>
    simp only [place] at turn
    exact ⟨turn.1, turn.2.1, .inr rfl⟩
  | taking sent =>
    simp only [place] at turn
    refine ⟨turn.1, ?_⟩
    have handed := turn.2
    unfold State.handed at handed
    cases there : state.receiver with
    | starting | taking | delaying =>
      rw [there] at handed
      exact handed
    | _ => simp [there, Receiver.waits] at waits
  | writing | printing | giving | detaching | removing =>
    simp only [place] at turn ⊢
    rw [waits] at turn
    exact turn
  | removingAgain | returning | exited =>
    simp only [place] at turn
    exact ⟨turn.1, turn.2.1, .inl rfl⟩

/-- A receiver that has the right to use the segment, or has left its loop, leaves the
sender waiting or at its end. -/
theorem sender_place (turn : state.turn count) (goes : state.receiver.waits = false) :
    (∃ sent, state.sender = .taking sent ∧ sent ≤ count ∧ state.handed sent) ∨
      state.sender.removedSet = true ∧ state.printed.length = count ∧ state.string 0 = ending ∧
        (state.receiver = .comparingEnd ∨ state.receiver.left = true) := by
  unfold State.turn at turn
  cases place : state.sender with
  | starting | settingSecond | attaching =>
    simp only [place] at turn
    rcases turn.2.2 with there | there <;> simp [there, Receiver.waits] at goes
  | taking sent =>
    simp only [place] at turn
    exact .inl ⟨sent, rfl, turn⟩
  | writing | printing | giving | detaching | removing => simp [place, goes] at turn
  | removingAgain | returning | exited =>
    simp only [place, goes, Bool.false_eq_true, false_or] at turn
    exact .inr ⟨rfl, turn⟩

private theorem turn_of_removed {later : State} (removed : state.sender.removedSet = true)
    (all : state.printed.length = count) (string : state.string 0 = ending)
    (sender : later.sender = state.sender) (printed : later.printed = state.printed)
    (segments : later.segments.objects = state.segments.objects)
    (place : later.receiver = .comparingEnd ∨ later.receiver.left = true) : later.turn count := by
  unfold State.turn
  rw [sender, printed]
  have same : later.string 0 = ending := by rw [State.string, segments]; exact string
  cases there : state.sender with
  | removingAgain | returning | exited => exact ⟨all, same, .inr place⟩
  | _ => simp [there, Sender.removedSet] at removed

private theorem segment_turn (founded : Founded state) (turn : state.turn count)
    {segments : Objects (List Char)} {segment : Getting}
    (get : Get blank state.segments state.receiverSegment segments segment) :
    State.turn count { state with segments := segments, receiverSegment := segment } := by
  unfold State.turn at turn ⊢
  cases place : state.sender with
  | starting | settingSecond | attaching =>
    simp only [place] at turn ⊢
    exact turn
  | _ =>
    -- the sender has the segment
    obtain ⟨semid, set⟩ := founded.senderSet (by rw [place]; nofun)
    obtain ⟨shmid, segment⟩ := founded.senderSegment (by rw [set]; nofun)
    have shared := founded.segment.symm
    rw [segment] at shared
    obtain rfl := shared.get_same get
    simp only [place] at turn ⊢
    exact turn

private theorem set_turn (founded : Founded state) (turn : state.turn count)
    {sets : Objects (Semaphores Program)} {set : Getting}
    (get : Get .fresh state.sets state.receiverSet sets set) :
    State.turn count { state with sets := sets, receiverSet := set } := by
  unfold State.turn at turn ⊢
  cases place : state.sender with
  | starting =>
    simp only [place] at turn ⊢
    exact ⟨valued_get get turn.1, turn.2⟩
  | _ =>
    obtain ⟨semid, set⟩ := founded.senderSet (by rw [place]; nofun)
    have shared := founded.set.symm
    rw [set] at shared
    obtain rfl := shared.get_same get
    simp only [place] at turn ⊢
    exact turn

private theorem taken_turn (few : count ≤ Semaphores.SEMVMX) (founded : Founded state)
    (adjusted : Adjusted count state) (turn : state.turn count) {semid : Nat}
    (at' : state.receiver = .taking) (set : state.receiverSet = .got semid)
    (open' : state.sets.has semid → 0 < (state.sets.objects semid).values 1) :
    State.turn count { state with
      sets := state.sets.operate semid (·.semop .receiver 1 (-1))
      receiver := .comparingEnd } := by
  have shared := founded.set.symm
  rw [set] at shared
  obtain rfl := shared.number_eq
  have waits : state.receiver.waits = true := by rw [at']; rfl
  unfold State.turn at turn
  cases place : state.sender with
  | starting | settingSecond | attaching | writing | printing | giving | detaching | removing =>
    -- the semaphore is there, and it is 0
    rw [place] at shared
    have free := open' shared.has
    simp only [place, State.valued, State.closed] at turn
    omega
  | taking sent =>
    rw [place] at shared
    have here := shared.has
    simp only [place] at turn
    obtain ⟨⟨write, read⟩, length, string⟩ := handed_read turn.2 waits (open' here)
    have used := adjusted.receiver
    simp only [at', Receiver.takes, Receiver.gives] at used
    have bound := turn.1
    have fits : (state.sets.objects 0).inRange .receiver 1 (-1) :=
      fits_second used rfl (by rw [read]; omega) (by omega)
    simp only [State.turn, State.handed]
    refine ⟨bound, valued_operate here (·.semop .receiver 1 (-1)) rfl ?_, length, string⟩
    simp [Semaphores.values_semop fits, write, read]
  | removingAgain | returning | exited =>
    simp only [place] at turn
    exact turn_of_removed (by rw [place]; rfl) turn.1 turn.2.1 place.symm rfl rfl (.inl rfl)

private theorem given_turn (few : count ≤ Semaphores.SEMVMX) (founded : Founded state)
    (adjusted : Adjusted count state) (turn : state.turn count) {semid : Nat}
    (at' : state.receiver = .giving) (set : state.receiverSet = .got semid) :
    State.turn count { state with
      sets := state.sets.operate semid (·.semop .receiver 0 1)
      receiver := .delaying } := by
  rcases sender_place turn (by rw [at']; rfl) with
    ⟨sent, place, bound, handed⟩ | ⟨-, -, -, other⟩
  · simp only [State.handed, at'] at handed
    obtain ⟨⟨write, read⟩, length, some⟩ := handed
    have shared := founded.set.symm
    rw [set, place] at shared
    obtain rfl := shared.number_eq
    have used := adjusted.receiver
    simp only [at', Receiver.takes, Receiver.gives] at used
    have fits : (state.sets.objects 0).inRange .receiver 0 1 :=
      fits_first used rfl (by rw [write]; omega) (by omega)
    simp only [State.turn, place]
    refine ⟨bound, .inl ⟨valued_operate shared.has (·.semop .receiver 0 1) rfl ?_, length⟩⟩
    simp [Semaphores.values_semop fits, write, read]
  · simp [at', Receiver.left] at other

theorem receiver_turn (few : count ≤ Semaphores.SEMVMX) (invariant : Invariant count state)
    (step : ReceiverStep state after) : after.turn count := by
  obtain ⟨founded, adjusted, turn, printed, early⟩ := invariant
  cases step with
  | getSegment at' get => exact segment_turn founded turn get
  | getSet at' segment get => exact set_turn founded turn get
  | attach at' set => exact turn_taking turn (by rw [at']; rfl)
  | delay at' => exact turn_taking turn (by rw [at']; rfl)
  | take at' set open' => exact taken_turn few founded adjusted turn at' set open'
  | compareEnd at' segment =>
    have shared := founded.segment.symm
    rw [segment] at shared
    obtain rfl := shared.number_eq
    rcases sender_place turn (by rw [at']; rfl) with
      ⟨sent, place, bound, handed⟩ | ⟨removed, all, string, -⟩
    · simp only [State.handed, at'] at handed
      obtain ⟨values, length, string⟩ := handed
      rw [if_neg (by rw [string]; exact message_ne_ending _)]
      simp only [State.turn, place]
      exact ⟨bound, values, length, string⟩
    · rw [if_pos string]
      exact turn_of_removed removed all string rfl rfl rfl (.inr rfl)
  | compareEmpty at' segment =>
    have shared := founded.segment.symm
    rw [segment] at shared
    obtain rfl := shared.number_eq
    rcases sender_place turn (by rw [at']; rfl) with
      ⟨sent, place, bound, handed⟩ | ⟨-, -, -, other⟩
    · simp only [State.handed, at'] at handed
      obtain ⟨values, length, string⟩ := handed
      rw [if_neg (by rw [string]; exact message_ne_nil _)]
      simp only [State.turn, place]
      exact ⟨bound, values, length, string⟩
    · simp [at', Receiver.left] at other
  | print at' segment =>
    rcases sender_place turn (by rw [at']; rfl) with
      ⟨sent, place, bound, handed⟩ | ⟨-, -, -, other⟩
    · simp only [State.handed, at'] at handed
      obtain ⟨values, length, string⟩ := handed
      simp only [State.turn, place]
      exact ⟨bound, values, by simpa using length, by omega⟩
    · simp [at', Receiver.left] at other
  | give at' set => exact given_turn few founded adjusted turn at' set
  | detach at' =>
    rcases sender_place turn (by rw [at']; rfl) with
      ⟨sent, place, bound, handed⟩ | ⟨removed, all, string, -⟩
    · simp [State.handed, at'] at handed
    · exact turn_of_removed removed all string rfl rfl rfl (.inr rfl)
  | removeSegment at' segment =>
    rcases sender_place turn (by rw [at']; rfl) with
      ⟨sent, place, bound, handed⟩ | ⟨removed, all, string, -⟩
    · simp [State.handed, at'] at handed
    · have shared := founded.segment.symm
      rw [segment, at'] at shared
      rw [if_pos shared.has]
      exact turn_of_removed removed all string rfl rfl Objects.objects_remove (.inr rfl)
  | removeSet at' set | return' at' set =>
    rcases sender_place turn (by rw [at']; rfl) with
      ⟨sent, place, bound, handed⟩ | ⟨removed, all, string, -⟩
    · simp [State.handed, at'] at handed
    · exact turn_of_removed removed all string rfl rfl rfl (.inr rfl)

theorem printed_le (turn : state.turn count) : state.printed.length ≤ count := by
  unfold State.turn at turn
  cases place : state.sender with
  | starting | settingSecond | attaching =>
    simp only [place] at turn
    simp [turn.2.1]
  | taking sent =>
    simp only [place] at turn
    obtain ⟨bound, handed⟩ := turn
    unfold State.handed at handed
    cases there : state.receiver <;> simp only [there] at handed <;> omega
  | writing | printing | giving | detaching | removing | removingAgain | returning | exited =>
    simp only [place] at turn
    omega

theorem removed_of_left (turn : state.turn count) (left : state.receiver.left = true) :
    state.sender.removedSet = true ∧ state.printed.length = count := by
  have goes : state.receiver.waits = false := by
    cases place : state.receiver <;> simp [place, Receiver.left, Receiver.waits] at left ⊢
  rcases sender_place turn goes with ⟨sent, -, -, handed⟩ | ⟨removed, all, -⟩
  · unfold State.handed at handed
    cases place : state.receiver <;> simp [place, Receiver.left] at left handed
  · exact ⟨removed, all⟩

theorem sender_adjusted (invariant : Invariant count state) (step : SenderStep count state after) :
    Adjusted count after := by
  obtain ⟨founded, adjusted, turn, -, -⟩ := invariant
  have other : Program.receiver ≠ .sender := by decide
  have first : ∀ {semid}, state.senderSet = .got semid → semid = 0 := by
    intro semid set
    have shared := founded.set
    rw [set] at shared
    exact shared.number_eq
  cases step with
  | getSegment at' get => exact ⟨adjusted.sender, adjusted.receiver⟩
  | getSet at' segment get => exact ⟨used_get get adjusted.sender, used_get get adjusted.receiver⟩
  | setFirst at' set | setSecond at' set =>
    obtain rfl := first set
    have used := adjusted.sender
    rw [at'] at used
    exact adjusted.sender_operates (by rw [at']; exact Nat.le_refl _) (by rw [at']; exact Nat.le_refl _)
      (used.setval _ _) (adjusted.receiver.setval _ _)
  | take at' set =>
    obtain rfl := first set
    have used := adjusted.sender
    rw [at'] at used
    exact adjusted.sender_operates (by rw [at']; exact Nat.le_succ _) (by rw [at']; exact Nat.le_refl _)
      (used_first used rfl) (adjusted.receiver.semop_of_ne other _ _)
  | give at' set =>
    obtain rfl := first set
    have used := adjusted.sender
    rw [at'] at used
    exact adjusted.sender_operates (by rw [at']; exact Nat.le_refl _) (by rw [at']; exact Nat.le_succ _)
      (used_second used rfl) (adjusted.receiver.semop_of_ne other _ _)
  | return' at' set =>
    obtain rfl := first set
    have used := adjusted.sender
    rw [at'] at used
    exact adjusted.sender_operates (by rw [at']; exact Nat.le_refl _) (by rw [at']; exact Nat.le_refl _)
      (used.leave _) (adjusted.receiver.leave _)
  | write at' segment next =>
    simp only [State.turn, at'] at turn
    have used := adjusted.sender
    rw [at'] at used
    refine ⟨used.mono (tally_le ?_ ?_), adjusted.receiver⟩ <;>
      split_ifs <;> simp only [Sender.takes, Sender.gives] <;> omega
  | attach at' | print at' | detach at' =>
    exact adjusted.sender_moves (by rw [at']; exact Nat.le_refl _) (by rw [at']; exact Nat.le_refl _)
  | remove at' set | removeAgain at' set =>
    have used := adjusted.sender
    have others := adjusted.receiver
    rw [at'] at used
    exact ⟨by rwa [Objects.objects_remove], by rwa [Objects.objects_remove]⟩

theorem receiver_adjusted (invariant : Invariant count state) (step : ReceiverStep state after) :
    Adjusted count after := by
  obtain ⟨founded, adjusted, turn, -, -⟩ := invariant
  have other : Program.sender ≠ .receiver := by decide
  have first : ∀ {semid}, state.receiverSet = .got semid → semid = 0 := by
    intro semid set
    have shared := founded.set.symm
    rw [set] at shared
    exact shared.number_eq
  have used := adjusted.receiver
  cases step with
  | getSegment at' get => exact ⟨adjusted.sender, adjusted.receiver⟩
  | getSet at' segment get => exact ⟨used_get get adjusted.sender, used_get get adjusted.receiver⟩
  | take at' set =>
    obtain rfl := first set
    rw [at'] at used
    exact adjusted.receiver_operates (by rw [at']; exact Nat.le_refl _) (by rw [at']; exact Nat.le_succ _)
      (used_second used rfl) (adjusted.sender.semop_of_ne other _ _)
  | give at' set =>
    obtain rfl := first set
    rw [at'] at used
    have some : 0 < state.printed.length := by
      rcases sender_place turn (by rw [at']; rfl) with ⟨sent, -, -, handed⟩ | ⟨-, -, -, left⟩
      · simp only [State.handed, at'] at handed
        omega
      · simp [at', Receiver.left] at left
    have given : ((state.sets.objects 0).semop .receiver 0 1).Used .receiver
        (tally (state.printed.length - 1 + 1) state.printed.length) := used_first used rfl
    rw [Nat.sub_add_cancel some] at given
    exact adjusted.receiver_operates (by rw [at']; exact Nat.sub_le _ _) (by rw [at']; exact Nat.le_refl _)
      given (adjusted.sender.semop_of_ne other _ _)
  | return' at' set =>
    obtain rfl := first set
    rw [at'] at used
    exact adjusted.receiver_operates (by rw [at']; exact Nat.le_refl _) (by rw [at']; exact Nat.le_refl _)
      (used.leave _) (adjusted.sender.leave _)
  | compareEnd at' segment | removeSegment at' segment =>
    rw [at'] at used
    exact ⟨adjusted.sender, used.mono (tally_le (by split <;> exact Nat.le_refl _)
      (by split <;> exact Nat.le_refl _))⟩
  | compareEmpty at' segment =>
    rw [at'] at used
    have shared := founded.segment.symm
    rw [segment] at shared
    obtain rfl := shared.number_eq
    rcases sender_place turn (by rw [at']; rfl) with ⟨sent, -, -, handed⟩ | ⟨-, -, -, left⟩
    · simp only [State.handed, at'] at handed
      rw [if_neg (by rw [handed.2.2]; exact message_ne_nil _)]
      exact ⟨adjusted.sender, used⟩
    · simp [at', Receiver.left] at left
  | print at' segment =>
    rw [at'] at used
    refine ⟨adjusted.sender, used.mono (tally_le ?_ ?_)⟩ <;>
      simp [Receiver.gives, Receiver.takes]
  | attach at' | delay at' | detach at' =>
    exact adjusted.receiver_moves (by rw [at']; exact Nat.le_refl _) (by rw [at']; exact Nat.le_refl _)
  | removeSet at' set =>
    have others := adjusted.sender
    rw [at'] at used
    exact ⟨by rwa [Objects.objects_remove], by rwa [Objects.objects_remove]⟩

theorem step_invariant (some : 1 ≤ count) (few : count ≤ Semaphores.SEMVMX) (invariant : Invariant count state)
    (step : (programs count).step state after) : Invariant count after := by
  rcases step with step | step
  · have same : after.printed = state.printed ∧ after.receiver = state.receiver := by
      cases step <;> exact ⟨rfl, rfl⟩
    refine ⟨sender_founded invariant.founded step fun at' => ?_, sender_adjusted invariant step,
      sender_turn few invariant step, ?_, ?_⟩
    · have turn := invariant.turn
      simp only [State.turn, at'] at turn
      apply invariant.founded.receiverSet
      intro early
      simp only [invariant.early early, List.length_nil] at turn
      omega
    · rw [same.1]
      exact invariant.printed
    · rw [same.1, same.2]
      exact invariant.early
  · refine ⟨receiver_founded invariant.founded step fun left => (removed_of_left invariant.turn left).1,
      receiver_adjusted invariant step, receiver_turn few invariant step, ?_, ?_⟩
    · cases step with
      | print at' segment =>
        have shared := invariant.founded.segment.symm
        rw [segment] at shared
        obtain rfl := shared.number_eq
        rcases sender_place invariant.turn (by rw [at']; rfl) with
          ⟨sent, -, -, handed⟩ | ⟨-, -, -, other⟩
        · simp only [State.handed, at'] at handed
          simp only [List.length_append, List.length_singleton, List.range_succ, List.map_append,
            List.map_singleton, ← invariant.printed, handed.2.2]
        · simp [at', Receiver.left] at other
      | _ => exact invariant.printed
    · cases step with
      | getSegment at' | getSet at' => exact fun _ => invariant.early at'
      | compareEnd | compareEmpty | removeSegment =>
        intro early
        dsimp only at early
        split at early <;> cases early
      | _ => nofun

theorem invariant_of_reachable (some : 1 ≤ count) (few : count ≤ Semaphores.SEMVMX)
    (reachable : (programs count).Reachable state) : Invariant count state := by
  apply reachable.invariant (Invariant count)
  · rintro _ rfl
    exact initial_invariant
  · exact step_invariant some few

end Lsnp.Handover
