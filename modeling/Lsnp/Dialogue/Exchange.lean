import Lsnp.Dialogue.Programs

namespace Lsnp.Dialogue

open Lsnp.Interaction Lsnp.Libc Lsnp.SysV

def Place.removed (queue : Program) : Place → Bool
  | .removing .second => queue = .first
  | .returned => true
  | _ => false

def Place.left (program : Program) : Place → Prop
  | .removing _ => program = .second
  | .returned => True
  | _ => False

def Place.thinks (program : Program) : Place → Prop
  | .opening _ => program = .first
  | .reading | .sending => True
  | _ => False

namespace Peer

def waits (peer : Peer) (program : Program) : Prop :=
  match peer.place with
  | .opening _ => program = .second
  | .receiving => True
  | .testingSent => peer.buf.ends = false
  | _ => False

def passedOn (peer : Peer) (program : Program) (text : Text) (count : Nat) : Prop :=
  match peer.place with
  | .testingSent => peer.buf = text
  | .receiving => text.ends = false
  | place => place.left program ∧ text.ends = true ∧ peer.leftOn = some (program, count - 1)

def took (peer : Peer) (text : Text) : Prop :=
  match peer.place with
  | .terminating n => n = text.chars.length ∧
      peer.received.take text.chars.length = text.chars
  | .printing | .testingReceived => cString peer.received = text.chars
  | _ => False

end Peer

/-- Whose turn it is: a program thinks, its message is on its way, the other program has
taken it, or the other program has left its loop on it. -/
inductive Turn where
  | thinking (program : Program)
  | travelling (program : Program) (text : Text)
  | taken (program : Program) (text : Text)
  | left (program : Program) (text : Text)

namespace State

def queued (state : State) (program : Program) : List Message := (state.queues program).objects 0

def settled (state : State) : Prop :=
  ∀ program, state.queued program = [] ∧ state.taken program = state.sent program

def takes (state : State) : Turn → Prop
  | .thinking program => (state.peers program).place.thinks program ∧
      (state.peers program.other).waits program.other ∧ state.settled
  | .travelling program text =>
      (state.peers program).passedOn program text (state.sent program).length ∧
      (state.peers program.other).waits program.other ∧
      state.queued program = [⟨program.type, text⟩] ∧ state.queued program.other = [] ∧
      state.sent program = state.taken program ++ [text] ∧
      state.taken program.other = state.sent program.other ∧
      (state.peers .second).place.removed .second = false
  | .taken program text =>
      (state.peers program).passedOn program text (state.sent program).length ∧
      (state.peers program.other).took text ∧ state.settled ∧
      (state.sent program).getLast? = some text
  | .left program text =>
      (state.peers program).passedOn program text (state.sent program).length ∧
      (state.peers program.other).place.left program.other ∧
      (state.peers program.other).leftOn = some (program, (state.sent program).length - 1) ∧
      text.ends = true ∧ state.settled ∧ (state.sent program).getLast? = some text

end State

/-- The programs use the same queues, and have both of them when they begin. -/
structure Founded (state : State) : Prop where
  shared : ∀ queue, Shared (state.queues queue) ((state.peers .first).msgid queue)
    ((state.peers .second).msgid queue) ((state.peers .second).place.removed queue)
  opening : ∀ program, (state.peers program).place = .opening .first →
    ∀ queue, (state.peers program).msgid queue = .making
  openingSecond : ∀ program, (state.peers program).place = .opening .second →
    (state.peers program).msgid .first = .got 0 ∧ (state.peers program).msgid .second = .making
  opened : ∀ program, (∀ queue, (state.peers program).place ≠ .opening queue) →
    ∀ queue, (state.peers program).msgid queue = .got 0
  fresh : ∀ queue, (state.queues queue).made = 0 → state.queued queue = []

structure Invariant (state : State) : Prop where
  founded : Founded state
  turn : ∃ turn, state.takes turn
  inside : ∀ program, ¬ (state.peers program).place.left program →
    (state.peers program).leftOn = none

variable {program : Program} {state after : State}

@[simp] theorem Program.other_other (program : Program) : program.other.other = program := by
  cases program <;> rfl

theorem Program.other_ne (program : Program) : program.other ≠ program := by
  cases program <;> nofun

theorem Program.eq_or_other (program holder : Program) : holder = program ∨ holder = program.other := by
  cases program <;> cases holder <;> simp [Program.other]

@[simp] theorem peers_put (peer : Peer) : (state.put program peer).peers program = peer := by
  simp [State.put]

theorem peers_put_of_ne {holder : Program} (apart : holder ≠ program) (peer : Peer) :
    (state.put program peer).peers holder = state.peers holder := by
  simp [State.put, Function.update_of_ne apart]

/-- A step of the program that leaves the turn where it is. -/
structure Continues (program : Program) (state after : State) : Prop where
  others : ∀ holder, holder ≠ program → after.peers holder = state.peers holder
  sent : after.sent = state.sent
  taken : after.taken = state.taken
  queued : ∀ queue, after.queued queue = state.queued queue
  thinks : (state.peers program).place.thinks program → (after.peers program).place.thinks program
  waits : (state.peers program).waits program → (after.peers program).waits program
  passedOn : ∀ text, (state.peers program).passedOn program text (state.sent program).length →
    (after.peers program).passedOn program text (state.sent program).length
  took : ∀ text, (state.peers program).took text → (after.peers program).took text
  left : (state.peers program).place.left program → (after.peers program).place.left program ∧
    (after.peers program).leftOn = (state.peers program).leftOn

theorem takes_of_continues (same : Continues program state after) {turn : Turn}
    (takes : state.takes turn)
    (kept : ∀ sender text, turn = .travelling sender text →
      (state.peers .second).place.removed .second = false →
        (after.peers .second).place.removed .second = false) : after.takes turn := by
  have all : ∀ property : Program → Peer → Prop,
      (property program (state.peers program) → property program (after.peers program)) →
        ∀ holder, property holder (state.peers holder) → property holder (after.peers holder) := by
    intro property own holder held
    by_cases mine : holder = program
    · subst mine
      exact own held
    · rw [same.others holder mine]
      exact held
  have thinks := all (fun holder peer => peer.place.thinks holder) same.thinks
  have waits := all (fun holder peer => peer.waits holder) same.waits
  have passedOn := fun text => all
    (fun holder peer => peer.passedOn holder text (state.sent holder).length) (same.passedOn text)
  have took := fun text => all (fun _ peer => peer.took text) (same.took text)
  have settled : state.settled → after.settled := by
    intro settled queue
    rw [same.queued, same.taken, same.sent]
    exact settled queue
  cases turn with
  | thinking holder =>
    obtain ⟨own, other, all⟩ := takes
    exact ⟨thinks _ own, waits _ other, settled all⟩
  | travelling holder text =>
    obtain ⟨own, other, way, back, sent, taken, open'⟩ := takes
    simp only [State.takes, same.sent, same.taken, same.queued]
    exact ⟨passedOn text _ own, waits _ other, way, back, sent, taken, kept _ _ rfl open'⟩
  | taken holder text =>
    obtain ⟨own, other, all, last⟩ := takes
    simp only [State.takes, same.sent]
    exact ⟨passedOn text _ own, took text _ other, settled all, last⟩
  | left holder text =>
    obtain ⟨own, left, on, ends, everything, last⟩ := takes
    have leaving := all (fun other peer => peer.place.left other ∧
        peer.leftOn = some (holder, (state.sent holder).length - 1))
      (fun held => ⟨(same.left held.1).1, (same.left held.1).2.trans held.2⟩) _ ⟨left, on⟩
    simp only [State.takes, same.sent]
    exact ⟨passedOn text _ own, leaving.1, leaving.2, ends, settled everything, last⟩

theorem thinking_of_sends {turn : Turn} (takes : state.takes turn)
    (at' : (state.peers program).place = .sending) : turn = .thinking program := by
  cases turn with
  | thinking holder =>
    rcases Program.eq_or_other program holder with rfl | rfl
    · rfl
    · simp [State.takes, Peer.waits, at'] at takes
  | travelling holder text =>
    rcases Program.eq_or_other program holder with rfl | rfl <;>
      simp [State.takes, Peer.waits, Peer.passedOn, Place.left, at'] at takes
  | taken holder text =>
    rcases Program.eq_or_other program holder with rfl | rfl <;>
      simp [State.takes, Peer.took, Peer.passedOn, Place.left, at'] at takes
  | left holder text =>
    rcases Program.eq_or_other program holder with rfl | rfl <;>
      simp [State.takes, Peer.passedOn, Place.left, at'] at takes

/-- A program that tests what it has received has taken it from the other one. -/
theorem taken_of_tests {turn : Turn} (takes : state.takes turn)
    (at' : (state.peers program).place = .testingReceived) :
    ∃ text, turn = .taken program.other text := by
  cases turn with
  | thinking holder =>
    rcases Program.eq_or_other program holder with rfl | rfl <;>
      simp [State.takes, Peer.waits, Place.thinks, at'] at takes
  | travelling holder text =>
    rcases Program.eq_or_other program holder with rfl | rfl <;>
      simp [State.takes, Peer.waits, Peer.passedOn, Place.left, at'] at takes
  | taken holder text =>
    rcases Program.eq_or_other program holder with rfl | rfl
    · simp [State.takes, Peer.passedOn, Place.left, at'] at takes
    · exact ⟨text, rfl⟩
  | left holder text =>
    rcases Program.eq_or_other program holder with rfl | rfl <;>
      simp [State.takes, Peer.passedOn, Place.left, at'] at takes

theorem travelling_of_queued {turn : Turn} (takes : state.takes turn)
    (at' : (state.peers program).place = .receiving)
    (some : state.queued program.other ≠ []) : ∃ text, turn = .travelling program.other text := by
  cases turn with
  | thinking holder => exact (some (takes.2.2 _).1).elim
  | travelling holder text =>
    rcases Program.eq_or_other program holder with rfl | rfl
    · exact (some takes.2.2.2.1).elim
    · exact ⟨text, rfl⟩
  | taken holder text => exact (some (takes.2.2.1 _).1).elim
  | left holder text => exact (some (takes.2.2.2.2.1 _).1).elim

private theorem removed_of_thinks {place : Place} (thinks : place.thinks program) (queue : Program) :
    place.removed queue = false := by
  cases place <;> simp [Place.thinks, Place.removed] at thinks ⊢

theorem removed_of_waits {peer : Peer} (waits : peer.waits program) (queue : Program) :
    peer.place.removed queue = false := by
  cases place : peer.place <;> simp [Peer.waits, Place.removed, place] at waits ⊢

private theorem removed_of_took {peer : Peer} {text : Text} (took : peer.took text)
    (queue : Program) : peer.place.removed queue = false := by
  cases place : peer.place <;> simp [Peer.took, Place.removed, place] at took ⊢

theorem open_of_thinks (takes : state.takes (.thinking program)) (queue : Program) :
    (state.peers .second).place.removed queue = false := by
  obtain ⟨thinks, waits, -⟩ := takes
  cases program with
  | first => exact removed_of_waits waits queue
  | second => exact removed_of_thinks thinks queue

theorem open_of_receives {turn : Turn} (takes : state.takes turn)
    (at' : (state.peers program).place = .receiving) :
    (state.peers .second).place.removed program.other = false := by
  cases program with
  | second => simp [at', Place.removed]
  | first =>
    cases turn with
    | thinking holder => exact open_of_thinks takes _
    | travelling holder text => exact takes.2.2.2.2.2.2
    | taken holder text =>
      cases holder with
      | first => exact removed_of_took takes.2.1 _
      | second => simp [State.takes, Program.other, Peer.took, at'] at takes
    | left holder text =>
      obtain ⟨own, left, -, ends, -⟩ := takes
      cases holder with
      | first => simp [Peer.passedOn, at', ends] at own
      | second => simp [Place.left, Program.other, at'] at left

def Place.opened (place : Place) : Prop := ∀ queue, place ≠ .opening queue

theorem shared_iff (program : Program) (way : Program → Getting)
    {table : Objects (List Message)} {gone : Bool} : Shared table (way .first) (way .second) gone ↔
      Shared table (way program) (way program.other) gone := by
  cases program with
  | first => exact Iff.rfl
  | second => exact ⟨Shared.symm, Shared.symm⟩

namespace Founded

theorem put (founded : Founded state) {peer : Peer} (before : (state.peers program).place.opened)
    (behind : peer.place.opened) (msgid : peer.msgid = (state.peers program).msgid)
    (removed : ∀ queue, program = .second →
      peer.place.removed queue = (state.peers program).place.removed queue) :
    Founded (state.put program peer) := by
  have place : ∀ holder, ((state.put program peer).peers holder).msgid =
      (state.peers holder).msgid := by
    intro holder
    by_cases mine : holder = program
    · subst mine
      rw [peers_put, msgid]
    · rw [peers_put_of_ne mine]
  have early : ∀ holder queue, ((state.put program peer).peers holder).place = .opening queue →
      (state.peers holder).place = .opening queue := by
    intro holder queue at'
    by_cases mine : holder = program
    · subst mine
      rw [peers_put] at at'
      exact (behind queue at').elim
    · rwa [peers_put_of_ne mine] at at'
  constructor
  · intro queue
    rw [place, place]
    have same : ((state.put program peer).peers .second).place.removed queue =
        (state.peers .second).place.removed queue := by
      cases program with
      | first => rw [peers_put_of_ne (by decide)]
      | second =>
        rw [peers_put]
        exact removed queue rfl
    rw [same]
    exact founded.shared queue
  · intro holder at' queue
    rw [place]
    exact founded.opening holder (early holder _ at') queue
  · intro holder at'
    rw [place]
    exact founded.openingSecond holder (early holder _ at')
  · intro holder behind queue
    rw [place]
    by_cases mine : holder = program
    · subst mine
      exact founded.opened holder before queue
    · rw [peers_put_of_ne mine] at behind
      exact founded.opened holder behind queue
  · exact founded.fresh

theorem mine (founded : Founded state) (program queue : Program) :
    Shared (state.queues queue) ((state.peers program).msgid queue)
      ((state.peers program.other).msgid queue) ((state.peers .second).place.removed queue) :=
  (shared_iff program fun holder => (state.peers holder).msgid queue).mp
    (founded.shared queue)

/-- The queue is there as long as the second program has not removed it. -/
theorem has (founded : Founded state) (opened : (state.peers program).place.opened)
    {queue : Program} {msgid : Nat} (got : (state.peers program).msgid queue = .got msgid)
    (kept : (state.peers .second).place.removed queue = false) :
    msgid = 0 ∧ (state.queues queue).has 0 := by
  have zero := founded.opened program opened queue
  obtain rfl := Getting.got.inj (got.symm.trans zero)
  have shared := founded.mine program queue
  rw [kept, zero] at shared
  exact ⟨rfl, shared.has⟩

theorem modify (founded : Founded state) {queue : Program} (here : (state.queues queue).has 0)
    (change : List Message → List Message) (sent taken : Program → List Text) :
    Founded ⟨Function.update state.queues queue ((state.queues queue).modify 0 change),
      state.peers, sent, taken⟩ := by
  have same : ∀ other, ((Function.update state.queues queue
      ((state.queues queue).modify 0 change)) other).made = (state.queues other).made := by
    intro other
    by_cases it : other = queue
    · subst it
      simp [Objects.modify]
    · rw [Function.update_of_ne it]
  constructor
  · intro other
    by_cases it : other = queue
    · subst it
      simp only [Function.update_self]
      exact (founded.shared other).modify change
    · simp only [Function.update_of_ne it]
      exact founded.shared other
  · exact founded.opening
  · exact founded.openingSecond
  · exact founded.opened
  · intro other none
    rw [same] at none
    by_cases it : other = queue
    · subst it
      rw [(founded.shared other).made_of_has here] at none
      cases none
    · simp only [State.queued, Function.update_of_ne it]
      exact founded.fresh other none

theorem making (founded : Founded state) {queue : Program}
    (at' : (state.peers program).place = .opening queue) :
    (state.peers program).msgid queue = .making := by
  cases queue with
  | first => exact founded.opening program at' .first
  | second => exact (founded.openingSecond program at').2

theorem queued_obtain (founded : Founded state) {queue : Program}
    (at' : (state.peers program).place = .opening queue) :
    ((state.queues queue).obtain []).1.objects 0 = state.queued queue := by
  by_cases none : (state.queues queue).made = 0
  · rw [founded.fresh queue none]
    have empty := founded.fresh queue none
    simp only [State.queued] at empty
    unfold Objects.obtain
    split
    · exact empty
    · simp [Objects.create, none]
  · have shared := founded.mine program queue
    rw [founded.making at'] at shared
    rw [shared.obtain_same _ none]
    rfl

theorem msgget (founded : Founded state) {queue : Program}
    (at' : (state.peers program).place = .opening queue) {peer : Peer}
    (msgid : peer.msgid = Function.update (state.peers program).msgid queue
      (.got ((state.queues queue).obtain []).2))
    (place : peer.place = program.goesOn queue) :
    Founded (State.put
      { state with
        queues := Function.update state.queues queue ((state.queues queue).obtain []).1 }
      program peer) := by
  have shared := founded.mine program queue
  rw [founded.making at'] at shared
  have got := shared.obtain []
  have zero : ((state.queues queue).obtain []).2 = 0 := got.number_eq
  have begun : peer.place ≠ .opening .first ∧ ∀ other, peer.place.removed other = false := by
    rw [place]
    cases queue <;> cases program <;> simp [Program.goesOn, Program.begins, Place.removed]
  have kept : ∀ other, ((Function.update state.peers program peer) .second).place.removed other =
      (state.peers .second).place.removed other := by
    intro other
    by_cases it : Program.second = program
    · subst it
      rw [Function.update_self, begun.2, at', Place.removed]
      · nofun
      · nofun
    · rw [Function.update_of_ne it]
  constructor
  · intro other
    apply (shared_iff program fun holder =>
      ((Function.update state.peers program peer) holder).msgid other).mpr
    rw [Function.update_self, Function.update_of_ne (Program.other_ne program), msgid]
    simp only [State.put, kept]
    by_cases it : other = queue
    · subst it
      rw [Function.update_self, Function.update_self]
      exact got
    · rw [Function.update_of_ne it, Function.update_of_ne it]
      exact founded.mine program other
  · intro holder early other
    by_cases it : holder = program
    · subst it
      rw [peers_put] at early
      exact (begun.1 early).elim
    · rw [peers_put_of_ne it] at early ⊢
      exact founded.opening holder early other
  · intro holder early
    by_cases it : holder = program
    · subst it
      rw [peers_put, place] at early
      cases queue with
      | first =>
        rw [peers_put, msgid, Function.update_self, Function.update_of_ne (by decide), zero]
        exact ⟨rfl, founded.opening holder at' .second⟩
      | second => cases holder <;> cases early
    · rw [peers_put_of_ne it] at early ⊢
      exact founded.openingSecond holder early
  · intro holder late other
    by_cases it : holder = program
    · subst it
      rw [peers_put, place] at late
      rw [peers_put, msgid]
      cases queue with
      | first => exact (late .second rfl).elim
      | second =>
        cases other with
        | first =>
          rw [Function.update_of_ne (by decide)]
          exact (founded.openingSecond holder at').1
        | second => rw [Function.update_self, zero]
    · rw [peers_put_of_ne it] at late ⊢
      exact founded.opened holder late other
  · intro other none
    by_cases it : other = queue
    · subst it
      simp only [State.put, Function.update_self, got.made_of_got] at none
      cases none
    · simp only [State.put, State.queued, Function.update_of_ne it] at none ⊢
      exact founded.fresh other none

theorem remove (founded : Founded state) {queue : Program}
    (at' : (state.peers .second).place = .removing queue)
    (other : (state.peers .first).place.opened) :
    Founded (State.go
      { state with
        queues := Function.update state.queues queue ((state.queues queue).remove 0) }
      .second queue.ends) := by
  have opened : (state.peers .second).place.opened := by rw [at']; nofun
  have first_ne : Program.first ≠ .second := by decide
  have queued : ∀ table : Program, (Function.update state.queues queue
      ((state.queues queue).remove 0) table).made = (state.queues table).made ∧
      (Function.update state.queues queue ((state.queues queue).remove 0) table).objects =
        (state.queues table).objects := by
    intro table
    by_cases it : table = queue
    · subst it
      rw [Function.update_self, Objects.objects_remove, Objects.remove]
      split <;> exact ⟨rfl, rfl⟩
    · rw [Function.update_of_ne it]
      exact ⟨rfl, rfl⟩
  have early : ∀ holder table, ((State.go state .second queue.ends).peers holder).place = .opening table →
      (state.peers holder).place = .opening table := by
    intro holder table early
    cases holder with
    | first => exact early
    | second => cases queue <;> cases early
  constructor
  · intro table
    have shared := founded.shared table
    rw [founded.opened _ other, founded.opened _ opened, at'] at shared
    simp only [State.go, State.put, Function.update_self, Function.update_of_ne first_ne,
      founded.opened _ other, founded.opened _ opened]
    by_cases it : table = queue
    · subst it
      have removed := shared.remove
      have both : table.ends.removed table = true := by cases table <;> rfl
      rw [Function.update_self, both]
      exact removed
    · have same : queue.ends.removed table = (Place.removing queue).removed table := by
        cases queue <;> cases table <;> first
          | exact (it rfl).elim
          | rfl
      rw [Function.update_of_ne it, same]
      exact shared
  · intro holder before table
    have msgid := founded.opening holder (early holder _ before) table
    cases holder <;> exact msgid
  · intro holder before
    have msgid := founded.openingSecond holder (early holder _ before)
    cases holder <;> exact msgid
  · intro holder behind table
    cases holder with
    | first => exact founded.opened _ other table
    | second => exact founded.opened _ opened table
  · intro table none
    have empty := founded.fresh table ((queued table).1.symm.trans none)
    exact (congrFun (queued table).2 0).trans empty

end Founded

private theorem inside_of_others (invariant : Invariant state)
    (others : ∀ holder, holder ≠ program → after.peers holder = state.peers holder)
    (own : ¬ (after.peers program).place.left program → (after.peers program).leftOn = none)
    (holder : Program) (within : ¬ (after.peers holder).place.left holder) :
    (after.peers holder).leftOn = none := by
  by_cases it : holder = program
  · subst it
    exact own within
  · rw [others holder it] at within ⊢
    exact invariant.inside holder within

private theorem invariant_of_continues (program : Program) (invariant : Invariant state) (founded : Founded after)
    (same : Continues program state after)
    (inside : ¬ (after.peers program).place.left program → (after.peers program).leftOn = none)
    (kept : ∀ sender text, state.takes (.travelling sender text) →
      (after.peers .second).place.removed .second = false) : Invariant after := by
  obtain ⟨turn, takes⟩ := invariant.turn
  refine ⟨founded, ⟨turn, takes_of_continues same takes ?_⟩,
    inside_of_others invariant same.others inside⟩
  rintro sender text rfl -
  exact kept sender text takes

private theorem put_invariant (invariant : Invariant state) {peer : Peer}
    (opened : (state.peers program).place.opened ∧ peer.place.opened)
    (msgid : peer.msgid = (state.peers program).msgid)
    (removed : ∀ queue, (state.peers program).place.removed queue = false ∧
      (program = .second → peer.place.removed queue = false))
    (loop : ¬ (state.peers program).place.left program)
    (thinks : (state.peers program).place.thinks program → peer.place.thinks program)
    (waits : (state.peers program).waits program → peer.waits program)
    (passedOn : ∀ text, (state.peers program).passedOn program text (state.sent program).length →
      peer.passedOn program text (state.sent program).length)
    (took : ∀ text, (state.peers program).took text → peer.took text)
    (inside : ¬ peer.place.left program → peer.leftOn = none) :
    Invariant (state.put program peer) := by
  have same : Continues program state (state.put program peer) := by
    constructor
    · exact fun holder apart => peers_put_of_ne apart _
    · rfl
    · rfl
    · exact fun _ => rfl
    · rwa [peers_put]
    · rwa [peers_put]
    · rwa [peers_put]
    · rwa [peers_put]
    · exact fun left => (loop left).elim
  apply invariant_of_continues program invariant _ same
  · rw [peers_put]
    exact inside
  · intro sender text takes
    by_cases it : Program.second = program
    · subst it
      rw [peers_put]
      exact (removed .second).2 rfl
    · rw [peers_put_of_ne it]
      exact takes.2.2.2.2.2.2
  · apply invariant.founded.put opened.1 opened.2 msgid
    intro queue second
    rw [(removed queue).1, (removed queue).2 second]

private theorem read_invariant (invariant : Invariant state)
    (at' : (state.peers program).place = .reading) (buf : Text) (stdin : List Char) :
    Invariant (state.put program { state.peers program with
      buf := buf
      stdin := stdin
      place := .sending }) := by
  have within : (state.peers program).leftOn = none := by
    apply invariant.inside
    simp [at', Place.left]
  apply put_invariant invariant <;>
    simp [at', within, Place.opened, Place.removed, Place.thinks, Peer.waits, Peer.passedOn, Peer.took,
      Place.left]

private theorem testSent_invariant (invariant : Invariant state)
    (at' : (state.peers program).place = .testingSent) :
    Invariant (if (state.peers program).buf.ends
      then state.leave program program ((state.sent program).length - 1)
      else state.go program .receiving) := by
  have within : (state.peers program).leftOn = none := by
    apply invariant.inside
    simp [at', Place.left]
  by_cases ends : (state.peers program).buf.ends
  · rw [if_pos ends]
    cases program <;> apply put_invariant invariant <;>
      simp [at', ends, Program.leaves, Place.opened, Place.removed, Place.thinks, Peer.waits,
        Peer.passedOn, Peer.took, Place.left]
  · rw [if_neg ends]
    apply put_invariant invariant <;>
      simp [at', within, ends, Place.opened, Place.removed, Place.thinks, Peer.waits,
        Peer.passedOn, Peer.took, Place.left]

private theorem terminate_invariant (invariant : Invariant state) {n : Int}
    (at' : (state.peers program).place = .terminating n) :
    Invariant (state.put program { state.peers program with
      received := if n < 0 then (state.peers program).received
        else poke n.toNat nul (state.peers program).received
      place := .printing }) := by
  have within : (state.peers program).leftOn = none := by
    apply invariant.inside
    simp [at', Place.left]
  apply put_invariant invariant <;>
    simp [at', within, Place.opened, Place.removed, Place.thinks, Peer.waits, Peer.passedOn, Peer.took,
      Place.left]
  rintro text rfl begins
  rw [if_neg (by omega), Int.toNat_natCast]
  exact cString_poke begins text.nulFree

private theorem print_invariant (invariant : Invariant state)
    (at' : (state.peers program).place = .printing) :
    Invariant (state.go program .testingReceived) := by
  have within : (state.peers program).leftOn = none := by
    apply invariant.inside
    simp [at', Place.left]
  apply put_invariant invariant <;>
    simp [at', within, Place.opened, Place.removed, Place.thinks, Peer.waits, Peer.passedOn, Peer.took,
      Place.left]

private theorem msgget_invariant (invariant : Invariant state) {queue : Program}
    (at' : (state.peers program).place = .opening queue) {peer : Peer}
    (msgid : peer.msgid = Function.update (state.peers program).msgid queue
      (.got ((state.queues queue).obtain []).2))
    (place : peer.place = program.goesOn queue)
    (leftOn : peer.leftOn = (state.peers program).leftOn) :
    Invariant (State.put
      { state with
        queues := Function.update state.queues queue ((state.queues queue).obtain []).1 }
      program peer) := by
  have within : (state.peers program).leftOn = none := by
    apply invariant.inside
    simp [at', Place.left]
  have open' : ∀ other, peer.place.removed other = false := by
    rw [place]
    cases queue <;> cases program <;> simp [Program.goesOn, Program.begins, Place.removed]
  apply invariant_of_continues program invariant (invariant.founded.msgget at' msgid place)
  · constructor
    · exact fun holder apart => peers_put_of_ne apart _
    · rfl
    · rfl
    · intro other
      by_cases it : other = queue
      · subst it
        simp only [State.put, State.queued, Function.update_self]
        exact invariant.founded.queued_obtain at'
      · simp only [State.put, State.queued, Function.update_of_ne it]
    all_goals
      rw [peers_put]
      cases queue <;> cases program <;>
        simp [at', place, Program.goesOn, Program.begins, Place.thinks, Peer.waits, Peer.passedOn,
          Peer.took, Place.left]
  · rw [peers_put]
    exact fun _ => leftOn.trans within
  · intro sender text takes
    by_cases it : Program.second = program
    · subst it
      rw [peers_put]
      exact open' .second
    · rw [peers_put_of_ne it]
      exact takes.2.2.2.2.2.2

private theorem msgsnd_invariant (invariant : Invariant state)
    (at' : (state.peers program).place = .sending) (here : (state.queues program).has 0) :
    Invariant (State.go
      { state with
        queues := Function.update state.queues program ((state.queues program).modify 0
          (· ++ [⟨program.type, (state.peers program).buf⟩]))
        sent := Function.update state.sent program
          (state.sent program ++ [(state.peers program).buf]) }
      program .testingSent) := by
  obtain ⟨turn, takes⟩ := invariant.turn
  obtain rfl := thinking_of_sends takes at'
  have kept := open_of_thinks takes .second
  obtain ⟨-, waits, settled⟩ := takes
  have apart := Program.other_ne program
  have within : (state.peers program).leftOn = none := by
    apply invariant.inside
    simp [at', Place.left]
  refine ⟨?_, ⟨.travelling program (state.peers program).buf, ?_⟩, ?_⟩
  · apply (invariant.founded.modify here _ _ state.taken).put
    · rw [at']
      nofun
    · nofun
    · rfl
    · intro queue second
      subst second
      simp [at', Place.removed]
  · have empty := (settled program).1
    simp only [State.queued] at empty
    simp only [State.takes, State.go, State.put, State.queued, Function.update_self,
      Function.update_of_ne apart, Objects.objects_modify, empty, List.nil_append]
    refine ⟨by simp [Peer.passedOn], waits, by simp, (settled _).1, ?_, (settled _).2, ?_⟩
    · rw [(settled program).2]
    · by_cases it : Program.second = program
      · subst it
        rfl
      · rw [Function.update_of_ne it]
        exact kept
  · apply inside_of_others invariant fun holder apart => peers_put_of_ne apart _
    simp only [peers_put]
    exact fun _ => within

private theorem msgrcv_invariant (invariant : Invariant state) {message : Message}
    {rest : List Message} (at' : (state.peers program).place = .receiving)
    (here : (state.queues program.other).has 0)
    (found : takeFirst program.other.type (state.queued program.other) = some (message, rest)) :
    Invariant (State.put
      { state with
        queues := Function.update state.queues program.other
          ((state.queues program.other).modify 0 fun _ => rest)
        taken := Function.update state.taken program.other
          (state.taken program.other ++ [message.text]) }
      program { state.peers program with
        received := message.text.chars ++
          (state.peers program).received.drop message.text.chars.length
        place := .terminating message.text.chars.length }) := by
  obtain ⟨turn, takes⟩ := invariant.turn
  have some : state.queued program.other ≠ [] := by
    intro empty
    rw [empty] at found
    cases found
  obtain ⟨text, rfl⟩ := travelling_of_queued takes at' some
  obtain ⟨passedOn, waits, way, back, sent, taken, kept⟩ := takes
  rw [way, takeFirst, if_pos rfl] at found
  obtain ⟨rfl, rfl⟩ := Prod.mk.inj (Option.some.inj found)
  have apart := Program.other_ne program
  have within : (state.peers program).leftOn = none := by
    apply invariant.inside
    simp [at', Place.left]
  refine ⟨?_, ⟨.taken program.other text, ?_⟩, ?_⟩
  · apply (invariant.founded.modify here _ state.sent _).put
    · rw [at']
      nofun
    · nofun
    · rfl
    · intro queue second
      subst second
      simp [at', Place.removed]
  · rw [Program.other_other] at back taken waits
    simp only [State.takes, Program.other_other, State.put, Function.update_self,
      Function.update_of_ne apart]
    refine ⟨passedOn, ⟨rfl, by simp⟩, ?_, by simp [sent]⟩
    intro queue
    rcases Program.eq_or_other program queue with rfl | rfl
    · simp only [State.queued, Function.update_of_ne apart.symm]
      exact ⟨back, taken⟩
    · simp [State.queued, sent]
  · apply inside_of_others invariant fun holder apart => peers_put_of_ne apart _
    rw [peers_put]
    exact fun _ => within

theorem starts_of_took {peer : Peer} {text : Text} (took : peer.took text)
    (at' : peer.place = .testingReceived) :
    (CString.of peer.received).starts "end".toList = text.ends := by
  simp only [Peer.took, at'] at took
  simp only [Text.ends, CString.starts, CString.of, took]

private theorem testReceived_invariant (invariant : Invariant state)
    (at' : (state.peers program).place = .testingReceived) :
    Invariant (if (CString.of (state.peers program).received).starts "end".toList
      then state.leave program program.other ((state.taken program.other).length - 1)
      else state.go program .reading) := by
  obtain ⟨turn, takes⟩ := invariant.turn
  obtain ⟨text, rfl⟩ := taken_of_tests takes at'
  have apart := Program.other_ne program
  have within : (state.peers program).leftOn = none := by
    apply invariant.inside
    simp [at', Place.left]
  obtain ⟨passedOn, took, settled, last⟩ := takes
  rw [Program.other_other] at took
  have opened : (state.peers program).place.opened := by
    rw [at']
    nofun
  rw [starts_of_took took at']
  by_cases ends : text.ends = true
  · rw [if_pos ends]
    refine ⟨?_, ⟨.left program.other text, ?_⟩, ?_⟩
    · apply invariant.founded.put opened
      · cases program <;> nofun
      · rfl
      · rintro queue rfl
        simp [at', Place.removed, Program.leaves]
    · simp only [State.takes, Program.other_other, State.leave, State.put, Function.update_self,
        Function.update_of_ne apart, (settled program.other).2]
      refine ⟨passedOn, ?_, trivial, ends, settled, last⟩
      cases program <;> simp [Program.leaves, Place.left]
    · apply inside_of_others invariant fun holder apart => peers_put_of_ne apart _
      simp only [peers_put]
      cases program <;> simp [Program.leaves, Place.left]
  · rw [if_neg ends]
    refine ⟨?_, ⟨.thinking program, ?_⟩, ?_⟩
    · apply invariant.founded.put opened
      · nofun
      · rfl
      · rintro queue rfl
        simp [at', Place.removed]
    · simp only [State.takes, State.go, State.put, Function.update_self,
        Function.update_of_ne apart]
      refine ⟨trivial, ?_, settled⟩
      unfold Peer.passedOn at passedOn
      cases place : (state.peers program.other).place <;> simp [place, ends] at passedOn <;>
        simp [Peer.waits, place, passedOn, ends]
    · apply inside_of_others invariant fun holder apart => peers_put_of_ne apart _
      simp only [peers_put]
      exact fun _ => within

private theorem opened_of_waits {peer : Peer} (waits : peer.waits .first) : peer.place.opened := by
  rintro queue at'
  simp [Peer.waits, at'] at waits

private theorem opened_of_passedOn {peer : Peer} {text : Text} {count : Nat}
    (passedOn : peer.passedOn program text count) : peer.place.opened := by
  rintro queue at'
  simp [Peer.passedOn, at', Place.left] at passedOn

private theorem opened_of_took {peer : Peer} {text : Text} (took : peer.took text) :
    peer.place.opened := by
  rintro queue at'
  simp [Peer.took, at'] at took

private theorem opened_of_left {place : Place} (left : place.left program) : place.opened := by
  rintro queue rfl
  cases left

private theorem second_of_removing {turn : Turn} (takes : state.takes turn) {queue : Program}
    (at' : (state.peers program).place = .removing queue) :
    program = .second ∧ (state.peers .first).place.opened := by
  cases turn with
  | thinking holder =>
    rcases Program.eq_or_other program holder with rfl | rfl <;>
      simp [State.takes, Place.thinks, Peer.waits, at'] at takes
  | travelling holder text =>
    rcases Program.eq_or_other program holder with rfl | rfl
    · obtain ⟨own, other, -⟩ := takes
      simp only [Peer.passedOn, at', Place.left] at own
      obtain ⟨rfl, -⟩ := own
      exact ⟨rfl, opened_of_waits other⟩
    · simp [State.takes, Peer.waits, at'] at takes
  | taken holder text =>
    rcases Program.eq_or_other program holder with rfl | rfl
    · obtain ⟨own, other, -⟩ := takes
      simp only [Peer.passedOn, at', Place.left] at own
      obtain ⟨rfl, -⟩ := own
      exact ⟨rfl, opened_of_took other⟩
    · simp [State.takes, Peer.took, at'] at takes
  | left holder text =>
    rcases Program.eq_or_other program holder with rfl | rfl
    · obtain ⟨own, other, -⟩ := takes
      simp only [Peer.passedOn, at', Place.left] at own
      obtain ⟨rfl, -⟩ := own
      exact ⟨rfl, opened_of_left other⟩
    · obtain ⟨other, own, -⟩ := takes
      rw [Program.other_other, at'] at own
      obtain rfl : program = .second := own
      exact ⟨rfl, opened_of_passedOn other⟩

private theorem remove_invariant (invariant : Invariant state) {queue : Program} {msgid : Nat}
    (at' : (state.peers program).place = .removing queue)
    (found : (state.peers program).msgid queue = .got msgid)
    (condition : program = .second → queue = .second → state.queued .second = []) :
    Invariant (State.go
      { state with
        queues := Function.update state.queues queue ((state.queues queue).remove msgid) }
      program queue.ends) := by
  obtain ⟨turn, takes⟩ := invariant.turn
  have opened : (state.peers program).place.opened := by
    rw [at']
    nofun
  obtain rfl := Getting.got.inj (found.symm.trans (invariant.founded.opened program opened queue))
  obtain ⟨rfl, other⟩ := second_of_removing takes at'
  apply invariant_of_continues .second invariant (invariant.founded.remove at' other)
  · constructor
    · exact fun holder apart => peers_put_of_ne apart _
    · rfl
    · rfl
    · intro table
      by_cases it : table = queue
      · subst it
        simp only [State.go, State.put, State.queued, Function.update_self, Objects.objects_remove]
      · simp only [State.go, State.put, State.queued, Function.update_of_ne it]
    all_goals
      rw [State.go, peers_put]
      cases queue <;>
        simp [at', Program.ends, Place.thinks, Peer.waits, Peer.passedOn, Peer.took, Place.left]
  · rw [State.go, peers_put]
    intro inside
    cases queue <;> exact (inside (by simp [Program.ends, Place.left])).elim
  · intro sender text travels
    rw [State.go, peers_put]
    cases queue with
    | first => rfl
    | second =>
      -- a message of the second program would still be queued
      obtain ⟨-, waits, way, -⟩ := travels
      cases sender with
      | first => simp [Program.other, Peer.waits, at'] at waits
      | second =>
        rw [condition rfl rfl] at way
        cases way

theorem start_invariant (stdin : Program → List Char) (buf : Program → Text)
    (received : Program → List Char) : Invariant (.start stdin buf received) where
  founded := {
    shared := fun _ => .absent rfl rfl
    opening := fun _ _ _ => rfl
    openingSecond := nofun
    opened := fun _ opened => (opened .first rfl).elim
    fresh := fun _ _ => rfl }
  turn := ⟨.thinking .first, rfl, rfl, fun _ => ⟨rfl, rfl⟩⟩
  inside _ _ := rfl

theorem step_invariant (invariant : Invariant state) (step : Step program state after)
    (condition : TakenBeforeRemoval state after) : Invariant after := by
  obtain ⟨turn, takes⟩ := invariant.turn
  cases step with
  | msgget at' => exact msgget_invariant invariant at' rfl rfl rfl
  | read at' => exact read_invariant invariant at' _ _
  | msgsnd at' queue here =>
    obtain rfl := thinking_of_sends takes at'
    obtain ⟨rfl, -⟩ := invariant.founded.has (by rw [at']; nofun) queue (open_of_thinks takes _)
    exact msgsnd_invariant invariant at' here
  | msgsndFails at' queue gone =>
    obtain rfl := thinking_of_sends takes at'
    obtain ⟨rfl, here⟩ := invariant.founded.has (by rw [at']; nofun) queue (open_of_thinks takes _)
    exact (gone here).elim
  | testSent at' => exact testSent_invariant invariant at'
  | msgrcv at' queue here found =>
    obtain ⟨rfl, -⟩ := invariant.founded.has (by rw [at']; nofun) queue (open_of_receives takes at')
    exact msgrcv_invariant invariant at' here found
  | msgrcvFails at' queue gone =>
    obtain ⟨rfl, here⟩ := invariant.founded.has (by rw [at']; nofun) queue
      (open_of_receives takes at')
    exact (gone here).elim
  | terminate at' => exact terminate_invariant invariant at'
  | print at' => exact print_invariant invariant at'
  | testReceived at' => exact testReceived_invariant invariant at'
  | remove at' found =>
    apply remove_invariant invariant at' found
    rintro rfl rfl
    have msgid := invariant.founded.opened .second (by rw [at']; nofun) .second
    exact condition at' (by simp [State.go, State.put, Program.ends]) 0 msgid

theorem invariant_of_reachable {stdin : Program → List Char}
    (reachable : ((dialogue stdin).restrict TakenBeforeRemoval).Reachable state) :
    Invariant state := by
  apply reachable.invariant Invariant
  · rintro _ ⟨buf, received, rfl⟩
    exact start_invariant stdin buf received
  · rintro state after invariant ⟨⟨program, step⟩, condition⟩
    exact step_invariant invariant step condition

end Lsnp.Dialogue
