import Lsnp.Handover.Turns

namespace Lsnp.Handover

open Lsnp.Interaction Lsnp.Libc Lsnp.SysV

variable {count : Nat} {state after : State}

private theorem get_goes {Object : Type} {table : Objects Object} {first second : Getting}
    {gone : Bool} (blank : Object) (shared : Shared table first second gone) :
    (∃ number, first = .got number) ∨ ∃ next other, Get blank table first next other := by
  cases shared with
  | absent free none => exact .inr ⟨_, _, .make free⟩
  | present here one firstWay secondWay =>
    rcases firstWay with rfl | rfl | rfl
    · exact .inr ⟨_, _, .there here⟩
    · exact .inr ⟨_, _, .find here⟩
    · exact .inl ⟨0, rfl⟩
  | removed gone one => exact .inl ⟨0, rfl⟩

private theorem receiver_goes (invariant : Invariant count state)
    (free : state.receiver = .taking → state.sets.has 0 → 0 < (state.sets.objects 0).values 1)
    (running : state.receiver ≠ .exited) (whole : state.receiver ≠ .failed) :
    ∃ after, ReceiverStep state after := by
  have founded := invariant.founded
  by_cases early : state.receiver = .starting
  · rcases get_goes blank founded.segment.symm with ⟨shmid, segment⟩ | ⟨_, _, get⟩
    · rcases get_goes .fresh founded.set.symm with ⟨semid, set⟩ | ⟨_, _, get⟩
      · exact ⟨_, .attach early set⟩
      · exact ⟨_, .getSet early segment get⟩
    · exact ⟨_, .getSegment early get⟩
  obtain ⟨semid, set⟩ := founded.receiverSet early
  obtain ⟨shmid, segment⟩ := founded.receiverSegment (by rw [set]; nofun)
  cases place : state.receiver with
  | starting => exact (early place).elim
  | failed => exact (whole place).elim
  | exited => exact (running place).elim
  | taking =>
    have shared := founded.set.symm
    rw [set] at shared
    obtain rfl := shared.number_eq
    exact ⟨_, .take place set (free place)⟩
  | comparingEnd => exact ⟨_, .compareEnd place segment⟩
  | comparingEmpty => exact ⟨_, .compareEmpty place segment⟩
  | printing => exact ⟨_, .print place segment⟩
  | giving => exact ⟨_, .give place set⟩
  | delaying => exact ⟨_, .delay place⟩
  | detaching => exact ⟨_, .detach place⟩
  | removingSegment => exact ⟨_, .removeSegment place segment⟩
  | removingSet => exact ⟨_, .removeSet place set⟩
  | returning => exact ⟨_, .return' place set⟩

private theorem taking_goes (invariant : Invariant count state) {sent : Nat}
    (place : state.sender = .taking sent) : ∃ after, (programs count).step state after := by
  have founded := invariant.founded
  have turn := invariant.turn
  simp only [State.turn, place] at turn
  obtain ⟨semid, set⟩ := founded.senderSet (by simp [place])
  obtain ⟨rfl, here⟩ := founded.has_set set (by rw [place]; rfl)
  by_cases free : 0 < (state.sets.objects 0).values 0
  · exact ⟨_, .inl (.take place set fun _ => free)⟩
  · have handed := turn.2
    have goes : ∃ after, ReceiverStep state after := by
      apply receiver_goes invariant
      · intro waits _
        simp only [State.handed, waits, State.valued] at handed
        omega
      · intro ended
        simp only [State.handed, ended] at handed
      · intro ended
        simp only [State.handed, ended] at handed
    obtain ⟨after, step⟩ := goes
    exact ⟨after, .inr step⟩

/-- As long as one of the programs has not exited, one of them can take a step. -/
theorem goes_on (invariant : Invariant count state)
    (running : ¬ (state.sender = .exited ∧ state.receiver = .exited)) :
    ∃ after, (programs count).step state after := by
  have founded := invariant.founded
  have turn := invariant.turn
  by_cases early : state.sender = .starting
  · rcases get_goes blank founded.segment with ⟨shmid, segment⟩ | ⟨_, _, get⟩
    · rcases get_goes .fresh founded.set with ⟨semid, set⟩ | ⟨_, _, get⟩
      · exact ⟨_, .inl (.setFirst early set)⟩
      · exact ⟨_, .inl (.getSet early segment get)⟩
    · exact ⟨_, .inl (.getSegment early get)⟩
  obtain ⟨semid, set⟩ := founded.senderSet early
  obtain ⟨shmid, segment⟩ := founded.senderSegment (by rw [set]; nofun)
  cases place : state.sender with
  | starting => exact (early place).elim
  | settingSecond => exact ⟨_, .inl (.setSecond place set)⟩
  | attaching => exact ⟨_, .inl (.attach place)⟩
  | taking sent => exact taking_goes invariant place
  | writing sent written =>
    simp only [State.turn, place] at turn
    have inside : written < (text count sent ++ [nul]).length := by
      rw [List.length_append, List.length_singleton]
      omega
    exact ⟨_, .inl (.write place segment (List.getElem?_eq_getElem inside))⟩
  | printing sent => exact ⟨_, .inl (.print place)⟩
  | giving sent => exact ⟨_, .inl (.give place set)⟩
  | detaching => exact ⟨_, .inl (.detach place)⟩
  | removing => exact ⟨_, .inl (.remove place set)⟩
  | removingAgain => exact ⟨_, .inl (.removeAgain place set)⟩
  | returning => exact ⟨_, .inl (.return' place set)⟩
  | exited =>
    simp only [State.turn, place] at turn
    have goes : ∃ after, ReceiverStep state after := by
      apply receiver_goes invariant
      · intro waits here
        have shared := founded.set
        rw [place] at shared
        exact (shared.not_has here).elim
      · exact fun ended => running ⟨place, ended⟩
      · intro ended
        simp [ended, Receiver.waits, Receiver.left] at turn
    obtain ⟨after, step⟩ := goes
    exact ⟨after, .inr step⟩

def work : Getting → Nat
  | .making => 2
  | .finding => 1
  | .got _ | .failed => 0

/-- The steps that the sender's loop takes for so many messages behind the first `sent`. -/
def ahead : Nat → Nat → Nat
  | 0, _ => 0
  | more + 1, sent => (message sent).length + 4 + ahead more (sent + 1)

def State.senderWork (count : Nat) (state : State) : Nat :=
  match state.sender with
  | .starting => ahead count 0 + 16 + work state.senderSegment + work state.senderSet
  | .settingSecond => ahead count 0 + 15
  | .attaching => ahead count 0 + 14
  | .taking sent => ahead (count - sent) sent + 13
  | .writing sent written => if sent < count
      then ahead (count - (sent + 1)) (sent + 1) + 16 + ((text count sent).length - written)
      else 9 + ((text count sent).length - written)
  | .printing sent => ahead (count - (sent + 1)) (sent + 1) + 15
  | .giving sent => ahead (count - (sent + 1)) (sent + 1) + 14
  | .detaching => 4
  | .removing => 3
  | .removingAgain => 2
  | .returning => 1
  | .exited => 0

def State.receiverWork (count : Nat) (state : State) : Nat :=
  match state.receiver with
  | .starting => 10 * (count - state.printed.length) + 10 + work state.receiverSegment +
      work state.receiverSet
  | .taking => 10 * (count - state.printed.length) + 9
  | .comparingEnd => 10 * (count - state.printed.length) + 8
  | .comparingEmpty => 10 * (count - state.printed.length) + 7
  | .printing => 10 * (count - state.printed.length) + 6
  | .giving => 10 * (count - state.printed.length) + 11
  | .delaying => 10 * (count - state.printed.length) + 10
  | .detaching => 4
  | .removingSegment => 3
  | .removingSet => 2
  | .returning => 1
  | .exited | .failed => 0

private theorem work_lt {Object : Type} {blank : Object} {table later : Objects Object}
    {first other : Getting} (get : Get blank table first later other) : work other < work first := by
  cases get <;> simp [work]

private theorem ahead_of_lt {sent : Nat} (more : sent < count) :
    ahead (count - sent) sent =
      (message sent).length + 4 + ahead (count - (sent + 1)) (sent + 1) := by
  obtain ⟨rest, rfl⟩ := Nat.exists_eq_add_of_lt more
  have first : sent + rest + 1 - sent = rest + 1 := by omega
  have second : sent + rest + 1 - (sent + 1) = rest := by omega
  rw [first, second, ahead]

private theorem senderWork_lt (count : Nat) (step : SenderStep count state after) :
    after.senderWork count < state.senderWork count ∧
      after.receiverWork count = state.receiverWork count := by
  refine ⟨?_, by cases step <;> rfl⟩
  cases step with
  | getSegment at' get =>
    have fewer := work_lt get
    simp only [State.senderWork, at']
    omega
  | getSet at' segment get =>
    have fewer := work_lt get
    simp only [State.senderWork, at']
    omega
  | setFirst at' | setSecond at' | attach at' | print at' | detach at'
  | remove at' | removeAgain at' | return' at' =>
    simp only [State.senderWork, at', Nat.sub_zero]
    omega
  | give at' =>
    simp only [State.senderWork, at']
    omega
  | @take sent _ at' =>
    simp only [State.senderWork, at', Nat.sub_zero]
    by_cases more : sent < count
    · rw [ahead_of_lt more, if_pos more, text, if_pos more]
      omega
    · have short : ending.length = 3 := by decide
      rw [if_neg more, text, if_neg more, short]
      omega
  | @write sent written _ _ at' segment next =>
    simp only [State.senderWork, at']
    by_cases more : sent < count <;> by_cases inside : written < (text count sent).length <;>
      simp only [more, inside, if_true, if_false] <;> omega

private theorem receiverWork_lt (invariant : Invariant count state) (step : ReceiverStep state after)
    (later : Invariant count after) :
    after.receiverWork count < state.receiverWork count ∧
      after.senderWork count = state.senderWork count := by
  refine ⟨?_, by cases step <;> rfl⟩
  have bound := printed_le later.turn
  cases step with
  | getSegment at' get =>
    have fewer := work_lt get
    simp only [State.receiverWork, at']
    omega
  | getSet at' segment get =>
    have fewer := work_lt get
    simp only [State.receiverWork, at']
    omega
  | attach at' | take at' | give at' | delay at' | detach at' | removeSet at' | return' at' =>
    simp only [State.receiverWork, at']
    omega
  | print at' =>
    simp only [List.length_append, List.length_singleton] at bound
    simp only [State.receiverWork, at', List.length_append, List.length_singleton]
    omega
  | @compareEnd shmid at' =>
    by_cases last : state.string shmid = ending <;>
      simp only [State.receiverWork, at', last, if_true, if_false] <;> omega
  | @removeSegment shmid at' =>
    by_cases here : state.segments.has shmid <;>
      simp only [State.receiverWork, at', here, if_true, if_false] <;> omega
  | compareEmpty at' segment =>
    have shared := invariant.founded.segment.symm
    rw [segment] at shared
    obtain rfl := shared.number_eq
    rcases sender_place invariant.turn (by rw [at']; rfl) with ⟨_, -, -, handed⟩ | ⟨-, -, -, other⟩
    · simp only [State.handed, at'] at handed
      rw [if_neg (by rw [handed.2.2]; exact message_ne_nil _)]
      simp only [State.receiverWork, at']
      omega
    · simp [at', Receiver.left] at other

theorem comes_to_end (some : 1 ≤ count) (few : count ≤ Semaphores.SEMVMX) : WellFounded fun after state =>
    (programs count).Reachable state ∧ (programs count).step state after := by
  apply Subrelation.wf (r := InvImage (· < ·) fun state =>
    State.senderWork count state + State.receiverWork count state)
  · rintro after state ⟨reachable, step⟩
    have invariant := invariant_of_reachable some few reachable
    change State.senderWork count after + _ < State.senderWork count state + _
    rcases step with step | step
    · have fewer := senderWork_lt count step
      omega
    · have fewer := receiverWork_lt invariant step (step_invariant some few invariant (.inr step))
      omega
  · exact InvImage.wf _ Nat.lt_wfRel.wf

/-- What holds at any time of two programs that hand over `count` messages. -/
structure HandsOver (count : Nat) (state : State) : Prop where
  inOrder : state.printed <+: (List.range count).map message
  exclusive : ∀ sent written, state.sender = .writing sent written → state.receiver.reads = false
  endsLast : ∀ semid shmid, state.receiverSet = .got semid → ¬ state.sets.has semid →
    state.receiverSegment = .got shmid → state.receiver.reads = true →
      state.receiver = .comparingEnd ∧ state.string shmid = ending ∧
        ∀ after, ReceiverStep state after → after.receiver = .detaching
  all : state.receiver.left = true → state.printed = (List.range count).map message
  goesOn : (∀ after, ¬ (programs count).step state after) →
    state.sender = .exited ∧ state.receiver = .exited

private theorem printed_of_length (invariant : Invariant count state)
    (all : state.printed.length = count) : state.printed = (List.range count).map message := by
  rw [← all]
  exact invariant.printed

private theorem ends_last (invariant : Invariant count state) {semid shmid : Nat}
    (set : state.receiverSet = .got semid) (gone : ¬ state.sets.has semid)
    (segment : state.receiverSegment = .got shmid) (reads : state.receiver.reads = true) :
    state.receiver = .comparingEnd ∧ state.string shmid = ending := by
  have goes : state.receiver.waits = false := by
    cases place : state.receiver <;> simp [place, Receiver.reads, Receiver.waits] at reads ⊢
  have shared := invariant.founded.segment.symm
  rw [segment] at shared
  obtain rfl := shared.number_eq
  rcases sender_place invariant.turn goes with ⟨sent, place, -, -⟩ | ⟨-, -, string, comparing | left⟩
  · have shared := invariant.founded.set.symm
    rw [set, place] at shared
    exact (gone shared.has).elim
  · exact ⟨comparing, string⟩
  · cases place : state.receiver <;> simp [place, Receiver.reads, Receiver.left] at reads left

/-- In every order of their steps the two programs hand over as many messages as an adjustment can
count, each once and in order, never use the segment at the same time, and come to their ends. -/
theorem hands_over (some : 1 ≤ count) (few : count ≤ Semaphores.SEMVMX) :
    (∀ state, (programs count).Reachable state → HandsOver count state) ∧
      WellFounded fun after state =>
        (programs count).Reachable state ∧ (programs count).step state after := by
  refine ⟨?_, comes_to_end some few⟩
  intro state reachable
  have invariant := invariant_of_reachable some few reachable
  constructor
  · rw [invariant.printed]
    apply List.IsPrefix.map
    exact List.prefix_iff_eq_take.mpr (by
      rw [List.take_range, List.length_range, Nat.min_eq_left (printed_le invariant.turn)])
  · intro sent written place
    have turn := invariant.turn
    simp only [State.turn, place] at turn
    cases there : state.receiver <;> simp [there, Receiver.waits, Receiver.reads] at turn ⊢
  · intro semid shmid set gone segment reads
    obtain ⟨comparing, string⟩ := ends_last invariant set gone segment reads
    refine ⟨comparing, string, ?_⟩
    intro after step
    cases step with
    | compareEnd at' got =>
      rw [segment] at got
      obtain rfl := Getting.got.inj got
      exact if_pos string
    | _ at' => simp [comparing] at at'
  · intro left
    exact printed_of_length invariant (removed_of_left invariant.turn left).2
  · intro stuck
    by_contra running
    obtain ⟨after, step⟩ := goes_on invariant running
    exact stuck after step

/-- As many messages as the programs hand over. -/
theorem hands_over_twenty :
    (∀ state, (programs 20).Reachable state → HandsOver 20 state) ∧
      WellFounded fun after state =>
        (programs 20).Reachable state ∧ (programs 20).step state after :=
  hands_over (by decide) (by decide)

end Lsnp.Handover
