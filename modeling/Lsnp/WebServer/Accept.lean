import Lsnp.Interaction.Machine
import Lsnp.Unix.Descriptors

/-! The accept loop of `rpi6.c` with its handlers. Each connection is handed over in a block of the
heap of its own, which the handler frees, and has two streams, each with a descriptor of its own.
A step is one call of `webserverFunction` or of a handler. -/

namespace Lsnp.WebServer.Rpi

open Lsnp.Interaction Lsnp.Unix

/-- What a descriptor refers to: the listening socket, the socket of a connection, or
`index.html` as the handler of a connection has opened it. -/
inductive Opened where
  | listening
  | connection (number : Nat)
  | page (number : Nat)
  deriving DecidableEq

/-- Where a connection is. In `webserverFunction` it is in front of `malloc`, of the store or of
`pthread_create`, which may fail and lose it. In its handler it is in front of the load, of
`free`, of `dup`, then the request is read, the page is sent, and the two streams are flushed and
closed. The stream `clnt_write` is `none` if there was no descriptor for it. -/
inductive Place where
  | absent
  | allocating (csock : Fd)
  | storing (csock : Fd) (pcsock : Nat)
  | creating (pcsock : Nat)
  | lost (pcsock : Nat)
  | starting (arg : Nat)
  | freeing (arg : Nat) (csock : Fd)
  | duplicating (csock : Fd)
  | reading (csock : Fd) (copy : Option Fd)
  | sending (csock : Fd) (copy : Option Fd) (page : Fd)
  | flushing (csock : Fd) (copy : Option Fd)
  | closingRead (csock : Fd) (copy : Option Fd)
  | closingWrite (copy : Option Fd)
  | done
  deriving DecidableEq

/-- Where `webserverFunction` is: in front of `accept`, busy with the connection that it has
accepted last, in front of `pthread_detach` or of the last `close`, or behind it. -/
inductive Loop where
  | accepting
  | handing
  | detaching
  | closing
  | returned
  deriving DecidableEq

/-- The descriptors; the blocks of the heap with what is stored in them; and for each connection,
by number, where it is and what its handler has read, written and closed. -/
structure State where
  table : FdTable Opened
  heap : Nat → Option (Option Fd)
  ssock : Fd
  loop : Loop
  created : Nat
  places : Nat → Place
  uses : Nat → List (Option Opened)
  alive : Bool

namespace State

def go (state : State) (number : Nat) (place : Place) : State :=
  { state with places := Function.update state.places number place }

/-- The handler reads, writes or closes this descriptor. -/
def use (state : State) (number : Nat) (fd : Fd) : State :=
  { state with uses :=
    Function.update state.uses number (state.uses number ++ [state.table.file fd]) }

def opens (state : State) (fd : Fd) (opened : Opened) : State :=
  { state with table := state.table.set fd opened }

def shut (state : State) (fd : Fd) : State := { state with table := state.table.close fd }

def keep (state : State) (block : Nat) (content : Option (Option Fd)) : State :=
  { state with heap := Function.update state.heap block content }

end State

/-- `webserverFunction` -/
inductive LoopStep (state : State) : State → Prop where
  | accept (at' : state.loop = .accepting) :
      LoopStep state { (state.opens state.table.lowest (.connection state.created)).go state.created
        (.allocating state.table.lowest) with loop := .handing }
  -- `is_run` is 0, or `accept` has failed.
  | leave (at' : state.loop = .accepting) : LoopStep state { state with loop := .closing }
  | malloc {csock : Fd} (pcsock : Nat) (at' : state.loop = .handing)
      (place : state.places state.created = .allocating csock) (free : state.heap pcsock = none) :
      LoopStep state ((state.keep pcsock (some none)).go state.created (.storing csock pcsock))
  | store {csock : Fd} {pcsock : Nat} (at' : state.loop = .handing)
      (place : state.places state.created = .storing csock pcsock) :
      LoopStep state ((state.keep pcsock (some (some csock))).go state.created (.creating pcsock))
  | create {pcsock : Nat} (at' : state.loop = .handing)
      (place : state.places state.created = .creating pcsock) :
      LoopStep state { state.go state.created (.starting pcsock) with
        loop := .detaching, created := state.created + 1 }
  | createFails {pcsock : Nat} (at' : state.loop = .handing)
      (place : state.places state.created = .creating pcsock) :
      LoopStep state { state.go state.created (.lost pcsock) with
        loop := .detaching, created := state.created + 1 }
  | detach (at' : state.loop = .detaching) : LoopStep state { state with loop := .accepting }
  | close (at' : state.loop = .closing) :
      LoopStep state { state.shut state.ssock with loop := .returned }

/-- `clnt_connection`; what is read and written is in `clntConnection`. -/
inductive HandlerStep (number : Nat) (state : State) : State → Prop where
  | load {arg : Nat} {csock : Fd} (at' : state.places number = .starting arg)
      (stored : state.heap arg = some (some csock)) :
      HandlerStep number state (state.go number (.freeing arg csock))
  | free {arg : Nat} {csock : Fd} (at' : state.places number = .freeing arg csock) :
      HandlerStep number state ((state.keep arg none).go number (.duplicating csock))
  | dup {csock : Fd} {opened : Opened} (at' : state.places number = .duplicating csock)
      (found : state.table.file csock = some opened) :
      HandlerStep number state ((state.opens state.table.lowest opened).go number
        (.reading csock (some state.table.lowest)))
  | dupFails {csock : Fd} (at' : state.places number = .duplicating csock) :
      HandlerStep number state (state.go number (.reading csock none))
  | read {csock : Fd} {copy : Option Fd} (at' : state.places number = .reading csock copy) :
      HandlerStep number state (state.use number csock)
  -- The method is not `GET`, or there is no page.
  | refuse {csock copy : Fd} (at' : state.places number = .reading csock (some copy)) :
      HandlerStep number state (state.go number (.flushing csock (some copy)))
  | fopen {csock : Fd} {copy : Option Fd} (at' : state.places number = .reading csock copy) :
      HandlerStep number state ((state.opens state.table.lowest (.page number)).go number
        (.sending csock copy state.table.lowest))
  | fread {csock : Fd} {copy : Option Fd} {page : Fd}
      (at' : state.places number = .sending csock copy page) :
      HandlerStep number state (state.use number page)
  | write {csock copy page : Fd} (at' : state.places number = .sending csock (some copy) page) :
      HandlerStep number state (state.use number copy)
  | fclosePage {csock : Fd} {copy : Option Fd} {page : Fd}
      (at' : state.places number = .sending csock copy page) :
      HandlerStep number state (((state.use number page).shut page).go number
        (.flushing csock copy))
  | flush {csock copy : Fd} (at' : state.places number = .flushing csock (some copy)) :
      HandlerStep number state ((state.use number copy).go number (.closingRead csock (some copy)))
  | fcloseRead {csock : Fd} {copy : Option Fd}
      (at' : state.places number = .closingRead csock copy) :
      HandlerStep number state (((state.use number csock).shut csock).go number
        (.closingWrite copy))
  | fcloseWrite {copy : Fd} (at' : state.places number = .closingWrite (some copy)) :
      HandlerStep number state (((state.use number copy).shut copy).go number .done)

/-- The threads take their steps in any order, and the process may end at any time: `main` has
read a `q`, a client has gone, or a stream is a null pointer. -/
inductive Step (state : State) : State → Prop where
  | loop {after : State} (alive : state.alive = true) (step : LoopStep state after) :
      Step state after
  | handler {after : State} (number : Nat) (alive : state.alive = true)
      (step : HandlerStep number state after) : Step state after
  | exit : Step state { state with alive := false }

def server : Machine State where
  initial state := state.loop = .accepting ∧ state.created = 0 ∧
    (∀ number, state.places number = .absent ∧ state.uses number = []) ∧
    (∀ block, state.heap block = none) ∧ state.table.file state.ssock = some .listening ∧
    ∀ fd number, state.table.file fd ≠ some (.connection number) ∧
      state.table.file fd ≠ some (.page number)
  step := Step

/-- Each handler acts on its own connection and page alone, with memory that is allocated; who has
got to its end has nothing open; and while `accept` waits with all handlers at their ends, nothing
is open or allocated but what the server started with. -/
structure Sound (state : State) : Prop where
  own : ∀ number, ∀ used ∈ state.uses number,
    used = some (.connection number) ∨ used = some (.page number)
  loads : ∀ number arg, state.places number = .starting arg →
    ∃ csock, state.heap arg = some (some csock)
  frees : ∀ number arg csock, state.places number = .freeing arg csock → state.heap arg ≠ none
  closed : ∀ number, state.places number = .done → ∀ fd,
    state.table.file fd ≠ some (.connection number) ∧ state.table.file fd ≠ some (.page number)
  clean : state.loop = .accepting → (∀ number < state.created, state.places number = .done) →
    (∀ fd number, state.table.file fd ≠ some (.connection number) ∧
      state.table.file fd ≠ some (.page number)) ∧ ∀ block, state.heap block = none

namespace Place

def block : Place → Option Nat
  | .storing _ block | .creating block | .lost block | .starting block | .freeing block _ => some block
  | _ => none

def filled : Place → Bool
  | .creating _ | .lost _ | .starting _ => true
  | _ => false

def sockets (heap : Nat → Option (Option Fd)) : Place → List Fd
  | .creating block | .lost block | .starting block => (heap block).join.toList
  | .allocating csock | .storing csock _ | .freeing _ csock | .duplicating csock => [csock]
  | .reading csock copy | .sending csock copy _ | .flushing csock copy | .closingRead csock copy =>
      csock :: copy.toList
  | .closingWrite copy => copy.toList
  | .absent | .done => []

def page : Place → Option Fd
  | .sending _ _ page => some page
  | _ => none

theorem sockets_congr {heap other : Nat → Option (Option Fd)} {place : Place}
    (same : ∀ block, place.block = some block → other block = heap block) :
    place.sockets other = place.sockets heap := by
  cases place with
  | creating block | lost block | starting block => simp only [sockets, same block rfl]
  | _ => rfl

end Place

/-- Each connection has exactly the descriptors and the block that its place says. -/
structure Kept (state : State) : Prop where
  sockets : ∀ number fd, state.table.file fd = some (.connection number) ↔
    fd ∈ (state.places number).sockets state.heap
  apart : ∀ number, ((state.places number).sockets state.heap).Nodup
  pages : ∀ number fd, state.table.file fd = some (.page number) ↔
    (state.places number).page = some fd
  blocks : ∀ block, state.heap block ≠ none ↔ ∃ number, (state.places number).block = some block
  distinct : ∀ one two block, (state.places one).block = some block →
    (state.places two).block = some block → one = two
  filled : ∀ number block, (state.places number).block = some block →
    (state.places number).filled = true → ∃ csock, state.heap block = some (some csock)
  absent : ∀ number, state.created < number ∨ number = state.created ∧ state.loop ≠ .handing →
    state.places number = .absent
  listening : state.loop ≠ .returned → state.table.file state.ssock = some .listening
  own : ∀ number, ∀ used ∈ state.uses number,
    used = some (.connection number) ∨ used = some (.page number)

variable {state after : State} {number : Nat} {place : Place}

/-- A block of another connection is neither the old one nor the new one of this connection. -/
private theorem Kept.foreign (kept : Kept state)
    (fresh : ∀ block, place.block = some block → (state.places number).block = some block ∨
      state.heap block = none) {other block : Nat} (apart : other ≠ number)
    (has : (state.places other).block = some block) :
    (state.places number).block ≠ some block ∧ place.block ≠ some block := by
  have mine : (state.places number).block ≠ some block := fun mine =>
    apart (kept.distinct other number block has mine)
  refine ⟨mine, fun next => ?_⟩
  rcases fresh block next with before | free
  · exact mine before
  · exact (kept.blocks block).mpr ⟨other, has⟩ free

private theorem Kept.distinct_of_move (kept : Kept state)
    (places : after.places = Function.update state.places number place)
    (fresh : ∀ block, place.block = some block → (state.places number).block = some block ∨
      state.heap block = none) (one two block : Nat)
    (first : (after.places one).block = some block) (second : (after.places two).block = some block) :
    one = two := by
  have self : after.places number = place := by rw [places, Function.update_self]
  have same : ∀ other, other ≠ number → after.places other = state.places other := fun other apart => by
    rw [places, Function.update_of_ne apart]
  by_cases mine : one = number
  · subst mine
    by_cases yours : two = one
    · exact yours.symm
    · rw [self] at first
      rw [same two yours] at second
      exact ((kept.foreign fresh yours second).2 first).elim
  · rw [same one mine] at first
    by_cases yours : two = number
    · subst yours
      rw [self] at second
      exact ((kept.foreign fresh mine first).2 second).elim
    · rw [same two yours] at second
      exact kept.distinct one two block first second

private theorem Kept.blocks_of_move (kept : Kept state)
    (places : after.places = Function.update state.places number place)
    (fresh : ∀ block, place.block = some block → (state.places number).block = some block ∨
      state.heap block = none)
    (heap : ∀ block, (state.places number).block ≠ some block → place.block ≠ some block →
      after.heap block = state.heap block)
    (allocated : ∀ block, place.block = some block → after.heap block ≠ none)
    (freed : ∀ block, (state.places number).block = some block → place.block ≠ some block →
      after.heap block = none) (block : Nat) :
    after.heap block ≠ none ↔ ∃ number, (after.places number).block = some block := by
  have self : after.places number = place := by rw [places, Function.update_self]
  have same : ∀ other, other ≠ number → after.places other = state.places other := fun other apart => by
    rw [places, Function.update_of_ne apart]
  constructor
  · intro some
    by_cases next : place.block = .some block
    · exact ⟨number, by rw [self, next]⟩
    · have before : (state.places number).block ≠ .some block := fun before =>
        some (freed block before next)
      rw [heap block before next] at some
      obtain ⟨other, has⟩ := (kept.blocks block).mp some
      have apart : other ≠ number := by
        rintro rfl
        exact before has
      exact ⟨other, by rw [same other apart, has]⟩
  · rintro ⟨other, has⟩
    by_cases mine : other = number
    · subst mine
      rw [self] at has
      exact allocated block has
    · rw [same other mine] at has
      have foreign := kept.foreign fresh mine has
      rw [heap block foreign.1 foreign.2]
      exact (kept.blocks block).mpr ⟨other, has⟩

/-- One connection gets to another place, where it has what the place says, and the others keep
what they have. -/
theorem Kept.move (kept : Kept state)
    (places : after.places = Function.update state.places number place)
    (others : ∀ other fd, other ≠ number →
      (after.table.file fd = some (.connection other) ↔
        state.table.file fd = some (.connection other)) ∧
      (after.table.file fd = some (.page other) ↔ state.table.file fd = some (.page other)))
    (heap : ∀ block, (state.places number).block ≠ some block → place.block ≠ some block →
      after.heap block = state.heap block)
    (fresh : ∀ block, place.block = some block → (state.places number).block = some block ∨
      state.heap block = none)
    (sockets : ∀ fd, after.table.file fd = some (.connection number) ↔ fd ∈ place.sockets after.heap)
    (apart : (place.sockets after.heap).Nodup)
    (pages : ∀ fd, after.table.file fd = some (.page number) ↔ place.page = some fd)
    (allocated : ∀ block, place.block = some block → after.heap block ≠ none)
    (freed : ∀ block, (state.places number).block = some block → place.block ≠ some block →
      after.heap block = none)
    (filled : ∀ block, place.block = some block → place.filled = true →
      ∃ csock, after.heap block = some (some csock))
    (absent : ∀ other, after.created < other ∨ other = after.created ∧ after.loop ≠ .handing →
      other ≠ number ∧ state.places other = .absent)
    (listening : after.loop ≠ .returned → after.table.file after.ssock = some .listening)
    (own : ∀ other, ∀ used ∈ after.uses other,
      used = some (.connection other) ∨ used = some (.page other)) : Kept after := by
  have self : after.places number = place := by rw [places, Function.update_self]
  have same : ∀ other, other ≠ number → after.places other = state.places other := fun other apart => by
    rw [places, Function.update_of_ne apart]
  have unchanged : ∀ other block, other ≠ number → (state.places other).block = some block →
      after.heap block = state.heap block := by
    intro other block different has
    have foreign := kept.foreign fresh different has
    exact heap block foreign.1 foreign.2
  have alike : ∀ other, other ≠ number →
      (after.places other).sockets after.heap = (state.places other).sockets state.heap := by
    intro other different
    rw [same other different]
    exact Place.sockets_congr fun block has => unchanged other block different has
  refine ⟨fun other fd => ?_, fun other => ?_, fun other fd => ?_,
    kept.blocks_of_move places fresh heap allocated freed, kept.distinct_of_move places fresh, ?_, ?_,
    listening, own⟩
  · by_cases different : other = number
    · subst different
      rw [self]
      exact sockets fd
    · rw [alike other different, (others other fd different).1]
      exact kept.sockets other fd
  · by_cases different : other = number
    · subst different
      rw [self]
      exact apart
    · rw [alike other different]
      exact kept.apart other
  · by_cases different : other = number
    · subst different
      rw [self]
      exact pages fd
    · rw [same other different, (others other fd different).2]
      exact kept.pages other fd
  · intro other block has full
    by_cases different : other = number
    · subst different
      rw [self] at has full
      exact filled block has full
    · rw [same other different] at has full
      rw [unchanged other block different has]
      exact kept.filled other block has full
  · intro other beyond
    obtain ⟨different, absent⟩ := absent other beyond
    rw [same other different, absent]

def Opened.isFor (number : Nat) : Opened → Prop
  | .connection other | .page other => other = number
  | .listening => False

private theorem others_kept {table changed : FdTable Opened} {fd : Fd} {opened : Option Opened}
    (update : changed.file = Function.update table.file fd opened)
    (before : ∀ one, table.file fd = some one → one.isFor number)
    (now : ∀ one, opened = some one → one.isFor number) (other : Nat) (at' : Fd)
    (different : other ≠ number) :
    (changed.file at' = some (.connection other) ↔ table.file at' = some (.connection other)) ∧
      (changed.file at' = some (.page other) ↔ table.file at' = some (.page other)) := by
  rw [update, Function.update_apply]
  split
  · rename_i same
    subst same
    exact ⟨⟨fun is => (different (now _ is)).elim, fun was => (different (before _ was)).elim⟩,
      ⟨fun is => (different (now _ is)).elim, fun was => (different (before _ was)).elim⟩⟩
  · exact ⟨Iff.rfl, Iff.rfl⟩

private theorem listening_kept {table changed : FdTable Opened} {fd ssock : Fd}
    {opened : Option Opened} (update : changed.file = Function.update table.file fd opened)
    (before : table.file fd ≠ some .listening) (listening : table.file ssock = some .listening) :
    changed.file ssock = some .listening := by
  have different : ssock ≠ fd := by
    rintro rfl
    exact before listening
  rw [update, Function.update_of_ne different, listening]

theorem Kept.pass (kept : Kept state) (busy : state.places number ≠ .absent)
    (sockets : place.sockets state.heap = (state.places number).sockets state.heap)
    (page : place.page = (state.places number).page)
    (block : place.block = (state.places number).block)
    (filled : place.filled = true → (state.places number).filled = true) :
    Kept (state.go number place) := by
  refine kept.move rfl (fun _ _ _ => ⟨Iff.rfl, Iff.rfl⟩) (fun _ _ _ => rfl)
    (fun some has => .inl (block ▸ has)) ?_ ?_ ?_ ?_ ?_ ?_ ?_ kept.listening kept.own
  · intro fd
    change _ ↔ fd ∈ place.sockets state.heap
    rw [sockets]
    exact kept.sockets number fd
  · change (place.sockets state.heap).Nodup
    rw [sockets]
    exact kept.apart number
  · intro fd
    rw [page]
    exact kept.pages number fd
  · intro some has
    rw [block] at has
    exact (kept.blocks some).mpr ⟨number, has⟩
  · intro some was next
    rw [block] at next
    exact (next was).elim
  · intro some has full
    rw [block] at has
    exact kept.filled number some has (filled full)
  · intro other beyond
    have absent := kept.absent other beyond
    refine ⟨?_, absent⟩
    rintro rfl
    exact busy absent

/-- The connection opens a descriptor at the lowest number, or closes one. -/
theorem Kept.reopen (kept : Kept state) (busy : state.places number ≠ .absent) {changed : FdTable Opened}
    {fd : Fd} {opened : Option Opened}
    (update : changed.file = Function.update state.table.file fd opened)
    (before : ∀ one, state.table.file fd = some one → one.isFor number)
    (now : ∀ one, opened = some one → one.isFor number)
    (sockets : ∀ at', changed.file at' = some (.connection number) ↔ at' ∈ place.sockets state.heap)
    (apart : (place.sockets state.heap).Nodup)
    (pages : ∀ at', changed.file at' = some (.page number) ↔ place.page = some at')
    (block : place.block = (state.places number).block)
    (filled : place.filled = true → (state.places number).filled = true) :
    Kept ({ state with table := changed }.go number place) := by
  refine kept.move rfl (others_kept update before now) (fun _ _ _ => rfl)
    (fun some has => .inl (block ▸ has)) sockets apart pages ?_ ?_ ?_ ?_ ?_ kept.own
  · intro some has
    rw [block] at has
    exact (kept.blocks some).mpr ⟨number, has⟩
  · intro some was next
    rw [block] at next
    exact (next was).elim
  · intro some has full
    rw [block] at has
    exact kept.filled number some has (filled full)
  · intro other beyond
    have absent := kept.absent other beyond
    refine ⟨?_, absent⟩
    rintro rfl
    exact busy absent
  · intro running
    exact listening_kept update (fun was => before _ was) (kept.listening running)

theorem Kept.use (kept : Kept state) {fd : Fd}
    (mine : state.table.file fd = some (.connection number) ∨ state.table.file fd = some (.page number)) :
    Kept (state.use number fd) := by
  refine ⟨kept.sockets, kept.apart, kept.pages, kept.blocks, kept.distinct, kept.filled, kept.absent,
    kept.listening, fun other used member => ?_⟩
  change used ∈ Function.update state.uses number (state.uses number ++ [state.table.file fd]) other
    at member
  rw [Function.update_apply] at member
  split at member
  · rename_i same
    subst same
    rcases List.mem_append.mp member with before | now
    · exact kept.own other used before
    · obtain rfl := List.mem_singleton.mp now
      exact mine
  · exact kept.own other used member

private theorem changed_iff {table changed : FdTable Opened} {fd : Fd} {opened : Option Opened}
    (update : changed.file = Function.update table.file fd opened) (aim : Opened) (at' : Fd) :
    changed.file at' = some aim ↔
      at' = fd ∧ opened = some aim ∨ at' ≠ fd ∧ table.file at' = some aim := by
  rw [update, Function.update_apply]
  split
  · rename_i same
    simp [same]
  · rename_i different
    simp [different]

private theorem file_lowest_ne (table : FdTable Opened) (opened : Opened) :
    table.file table.lowest ≠ some opened := by
  rw [FdTable.file_lowest]
  exact Option.some_ne_none _ ∘ Eq.symm

private theorem Kept.ne_lowest (kept : Kept state) {fd : Fd}
    (member : fd ∈ (state.places number).sockets state.heap) : fd ≠ state.table.lowest := by
  rintro rfl
  exact file_lowest_ne _ _ ((kept.sockets number _).mpr member)

private theorem free_kept (kept : Kept state) {arg : Nat} {csock : Fd}
    (at' : state.places number = .freeing arg csock) :
    Kept ((state.keep arg none).go number (.duplicating csock)) := by
  have block : (state.places number).block = some arg := by rw [at']; rfl
  have unique := kept.apart number
  refine kept.move rfl (fun _ _ _ => ⟨Iff.rfl, Iff.rfl⟩) ?_ nofun ?_ ?_ ?_ nofun ?_ nofun ?_
    kept.listening kept.own
  · intro other different _
    refine Function.update_of_ne ?_ _ _
    rintro rfl
    exact different block
  · intro fd
    have same := kept.sockets number fd
    rwa [at'] at same
  · rwa [at'] at unique
  · intro fd
    have same := kept.pages number fd
    rwa [at'] at same
  · intro other has _
    obtain rfl := Option.some.inj (block.symm.trans has)
    exact Function.update_self ..
  · intro other beyond
    have absent := kept.absent other beyond
    refine ⟨?_, absent⟩
    rintro rfl
    rw [at'] at absent
    cases absent

private theorem dup_kept (kept : Kept state) {csock : Fd} {opened : Opened}
    (at' : state.places number = .duplicating csock) (found : state.table.file csock = some opened) :
    Kept ((state.opens state.table.lowest opened).go number
      (.reading csock (some state.table.lowest))) := by
  have member : csock ∈ (state.places number).sockets state.heap := by simp [at', Place.sockets]
  have different := kept.ne_lowest member
  have sockets := kept.sockets number
  have pages := kept.pages number
  rw [at'] at sockets pages
  obtain rfl := Option.some.inj (found.symm.trans ((kept.sockets number csock).mpr member))
  refine kept.reopen (at'.trans_ne Place.noConfusion) (FdTable.file_set ..)
    (fun one was => (file_lowest_ne _ one was).elim) ?_ ?_ ?_ ?_ (congrArg Place.block at').symm nofun
  · intro one same
    obtain rfl := Option.some.inj same
    rfl
  · intro fd
    rw [changed_iff (FdTable.file_set ..), sockets]
    simp only [Place.sockets, List.mem_cons, Option.toList_some, List.not_mem_nil, or_false]
    constructor
    · rintro (⟨rfl, -⟩ | ⟨-, rfl⟩)
      · exact .inr rfl
      · exact .inl rfl
    · rintro (rfl | rfl)
      · exact .inr ⟨different, rfl⟩
      · exact .inl ⟨rfl, trivial⟩
  · simpa [Place.sockets] using different
  · intro fd
    rw [changed_iff (FdTable.file_set ..), pages]
    simp [Place.page]

private theorem fopen_kept (kept : Kept state) {csock : Fd} {copy : Option Fd}
    (at' : state.places number = .reading csock copy) :
    Kept ((state.opens state.table.lowest (.page number)).go number
      (.sending csock copy state.table.lowest)) := by
  have closed : ∀ fd ∈ (state.places number).sockets state.heap, fd ≠ state.table.lowest :=
    fun fd => kept.ne_lowest
  have unique := kept.apart number
  have sockets := kept.sockets number
  have pages := kept.pages number
  rw [at'] at closed unique pages sockets
  refine kept.reopen (at'.trans_ne Place.noConfusion) (FdTable.file_set ..)
    (fun one was => (file_lowest_ne _ one was).elim) ?_ ?_ unique ?_
    (congrArg Place.block at').symm nofun
  · intro one same
    obtain rfl := Option.some.inj same
    rfl
  · intro fd
    rw [changed_iff (FdTable.file_set ..), sockets]
    constructor
    · rintro (⟨-, never⟩ | ⟨-, has⟩)
      · cases never
      · exact has
    · exact fun has => .inr ⟨closed fd has, has⟩
  · intro fd
    rw [changed_iff (FdTable.file_set ..), pages]
    simp [Place.page, eq_comm]

private theorem fclosePage_kept (kept : Kept state) {csock page : Fd} {copy : Option Fd}
    (at' : state.places number = .sending csock copy page) :
    Kept (((state.use number page).shut page).go number (.flushing csock copy)) := by
  have unique := kept.apart number
  have sockets := kept.sockets number
  have pages := kept.pages number
  rw [at'] at unique pages sockets
  have file := (pages page).mpr rfl
  refine (kept.use (.inr file)).reopen (at'.trans_ne Place.noConfusion) (FdTable.file_close ..) ?_
    nofun ?_ unique ?_ (congrArg Place.block at').symm nofun
  · intro one was
    obtain rfl := Option.some.inj (file.symm.trans was)
    rfl
  · intro fd
    rw [changed_iff (FdTable.file_close ..)]
    change _ ∨ fd ≠ page ∧ state.table.file fd = _ ↔ _
    rw [sockets]
    constructor
    · rintro (⟨-, never⟩ | ⟨-, has⟩)
      · cases never
      · exact has
    · refine fun has => .inr ⟨?_, has⟩
      rintro rfl
      cases file.symm.trans ((sockets _).mpr has)
  · intro fd
    rw [changed_iff (FdTable.file_close ..)]
    change _ ∨ fd ≠ page ∧ state.table.file fd = _ ↔ _
    rw [pages]
    simp [Place.page, eq_comm]

private theorem fclose_kept (kept : Kept state) (busy : state.places number ≠ .absent) {fd : Fd}
    (has : (state.places number).sockets state.heap = fd :: place.sockets state.heap)
    (without : (state.places number).page = none) (page : place.page = none)
    (block : place.block = (state.places number).block) (filled : place.filled = false) :
    Kept (((state.use number fd).shut fd).go number place) := by
  have unique := kept.apart number
  have sockets := kept.sockets number
  rw [has] at unique sockets
  have file := (sockets fd).mpr (List.mem_cons_self ..)
  obtain ⟨apart, unique⟩ := List.nodup_cons.mp unique
  refine (kept.use (.inl file)).reopen busy (FdTable.file_close ..) ?_ nofun ?_ unique ?_ block
    (by simp [filled])
  · intro one was
    obtain rfl := Option.some.inj (file.symm.trans was)
    rfl
  · intro other
    rw [changed_iff (FdTable.file_close ..)]
    change _ ∨ other ≠ fd ∧ state.table.file other = _ ↔ other ∈ place.sockets state.heap
    rw [sockets, List.mem_cons]
    constructor
    · rintro (⟨-, never⟩ | ⟨different, same | member⟩)
      · cases never
      · exact (different same).elim
      · exact member
    · refine fun member => .inr ⟨?_, .inr member⟩
      rintro rfl
      exact apart member
  · intro other
    rw [changed_iff (FdTable.file_close ..)]
    change _ ∨ other ≠ fd ∧ state.table.file other = _ ↔ _
    rw [kept.pages number, without, page]
    simp

private theorem handler_kept (kept : Kept state) (step : HandlerStep number state after) :
    Kept after := by
  have mine : ∀ fd ∈ (state.places number).sockets state.heap,
      state.table.file fd = some (.connection number) := fun fd => (kept.sockets number fd).mpr
  have pages := kept.pages number
  cases step with
  | @load arg csock at' stored =>
    refine kept.pass (at'.trans_ne Place.noConfusion) ?_ ?_ ?_ nofun
    · rw [at', Place.sockets, Place.sockets, stored]
      rfl
    · rw [at']
      rfl
    · rw [at']
      rfl
  | free at' => exact free_kept kept at'
  | dup at' found => exact dup_kept kept at' found
  | dupFails at' | refuse at' =>
    refine kept.pass (at'.trans_ne Place.noConfusion) ?_ ?_ ?_ nofun <;> rw [at'] <;> rfl
  | @read csock copy at' =>
    rw [at'] at mine
    exact kept.use (.inl (mine csock (by simp [Place.sockets])))
  | fopen at' => exact fopen_kept kept at'
  | @fread csock copy page at' =>
    rw [at'] at pages
    exact kept.use (.inr ((pages page).mpr rfl))
  | @write csock copy page at' =>
    rw [at'] at mine
    exact kept.use (.inl (mine copy (by simp [Place.sockets])))
  | fclosePage at' => exact fclosePage_kept kept at'
  | @flush csock copy at' =>
    rw [at'] at mine
    have used := kept.use (.inl (mine copy (by simp [Place.sockets])))
    refine used.pass (at'.trans_ne Place.noConfusion) ?_ ?_ ?_ nofun
    · exact (congrArg (Place.sockets state.heap) at').symm
    · exact (congrArg Place.page at').symm
    · exact (congrArg Place.block at').symm
  | fcloseRead at' | fcloseWrite at' =>
    refine fclose_kept kept (at'.trans_ne Place.noConfusion) ?_ ?_ rfl ?_ rfl <;> rw [at'] <;> rfl

private theorem create_kept (kept : Kept state) {pcsock : Nat} {place : Place}
    (handing : state.loop = .handing) (at' : state.places state.created = .creating pcsock)
    (next : place = .starting pcsock ∨ place = .lost pcsock) :
    Kept { state.go state.created place with loop := .detaching, created := state.created + 1 } := by
  have sockets := kept.sockets state.created
  have unique := kept.apart state.created
  have pages := kept.pages state.created
  rw [at'] at sockets unique pages
  have same : place.sockets state.heap = (Place.creating pcsock).sockets state.heap ∧
      place.page = none ∧ place.block = some pcsock := by
    rcases next with rfl | rfl <;> exact ⟨rfl, rfl, rfl⟩
  have block : (state.places state.created).block = some pcsock := by rw [at']; rfl
  refine kept.move rfl (fun _ _ _ => ⟨Iff.rfl, Iff.rfl⟩) (fun _ _ _ => rfl) ?_ ?_ ?_ ?_ ?_ ?_ ?_ ?_
    (fun _ => kept.listening (handing.trans_ne Loop.noConfusion)) kept.own
  · intro other has
    rw [same.2.2] at has
    exact .inl (block.trans has)
  · intro fd
    change _ ↔ fd ∈ place.sockets state.heap
    rw [same.1]
    exact sockets fd
  · change (place.sockets state.heap).Nodup
    rw [same.1]
    exact unique
  · intro fd
    rw [same.2.1]
    exact pages fd
  · intro other has
    rw [same.2.2] at has
    exact (kept.blocks other).mpr ⟨_, block.trans has⟩
  · intro other was is
    rw [same.2.2] at is
    exact (is (block.symm.trans was)).elim
  · intro other has _
    rw [same.2.2] at has
    exact kept.filled state.created other (block.trans has) (by rw [at']; rfl)
  · rintro other beyond
    have past : state.created < other := by
      rcases beyond with past | ⟨rfl, -⟩
      · exact Nat.lt_of_succ_lt past
      · exact Nat.lt_succ_self _
    exact ⟨Nat.ne_of_gt past, kept.absent other (.inl past)⟩

private theorem accept_kept (kept : Kept state) (at' : state.loop = .accepting) :
    Kept { (state.opens state.table.lowest (.connection state.created)).go state.created
      (.allocating state.table.lowest) with loop := .handing } := by
  have absent := kept.absent state.created (.inr ⟨rfl, at'.trans_ne Loop.noConfusion⟩)
  have sockets := kept.sockets state.created
  have pages := kept.pages state.created
  rw [absent] at sockets pages
  refine kept.move rfl (others_kept (FdTable.file_set ..)
    (fun one was => (file_lowest_ne _ one was).elim) ?_)
    (fun _ _ _ => rfl) nofun ?_ (by simp [Place.sockets]) ?_ nofun ?_ nofun ?_ ?_ kept.own
  · intro one same
    obtain rfl := Option.some.inj same
    rfl
  · intro fd
    refine (changed_iff (FdTable.file_set ..) _ _).trans ?_
    rw [sockets]
    simp [Place.sockets]
  · intro fd
    refine (changed_iff (FdTable.file_set ..) _ _).trans ?_
    rw [pages]
    simp [Place.page]
  · rw [absent]
    nofun
  · rintro other (past | ⟨-, other⟩)
    · exact ⟨Nat.ne_of_gt past, kept.absent other (.inl past)⟩
    · exact (other rfl).elim
  · intro _
    exact listening_kept (FdTable.file_set ..) (file_lowest_ne _ _)
      (kept.listening (at'.trans_ne Loop.noConfusion))

private theorem malloc_kept (kept : Kept state) {csock : Fd} {pcsock : Nat}
    (at' : state.loop = .handing) (place : state.places state.created = .allocating csock)
    (free : state.heap pcsock = none) :
    Kept ((state.keep pcsock (some none)).go state.created (.storing csock pcsock)) := by
  have sockets := kept.sockets state.created
  have unique := kept.apart state.created
  have pages := kept.pages state.created
  rw [place] at sockets unique pages
  refine kept.move rfl (fun _ _ _ => ⟨Iff.rfl, Iff.rfl⟩) ?_ ?_ sockets unique pages ?_ ?_ nofun ?_
    kept.listening kept.own
  · intro other _ different
    refine Function.update_of_ne ?_ _ _
    rintro rfl
    exact different rfl
  · intro block has
    obtain rfl := Option.some.inj has
    exact .inr free
  · intro block has
    obtain rfl := Option.some.inj has
    have stored : Function.update state.heap pcsock (some none) pcsock = some none :=
      Function.update_self ..
    exact stored.trans_ne (Option.some_ne_none _)
  · rw [place]
    nofun
  · rintro other (past | ⟨-, idle⟩)
    · exact ⟨Nat.ne_of_gt past, kept.absent other (.inl past)⟩
    · exact (idle at').elim

private theorem store_kept (kept : Kept state) {csock : Fd} {pcsock : Nat}
    (at' : state.loop = .handing) (place : state.places state.created = .storing csock pcsock) :
    Kept ((state.keep pcsock (some (some csock))).go state.created (.creating pcsock)) := by
  have sockets := kept.sockets state.created
  have unique := kept.apart state.created
  have pages := kept.pages state.created
  have block : (state.places state.created).block = some pcsock := by rw [place]; rfl
  rw [place] at sockets unique pages
  have stored : Function.update state.heap pcsock (some (some csock)) pcsock = some (some csock) :=
    Function.update_self ..
  refine kept.move rfl (fun _ _ _ => ⟨Iff.rfl, Iff.rfl⟩) ?_ ?_ ?_ ?_ pages ?_ ?_ ?_ ?_
    kept.listening kept.own
  · intro other different _
    refine Function.update_of_ne ?_ _ _
    rintro rfl
    exact different block
  · intro other has
    exact .inl (block.trans has)
  · intro fd
    change _ ↔ fd ∈ (Function.update state.heap pcsock (some (some csock)) pcsock).join.toList
    rw [stored]
    exact sockets fd
  · change (Function.update state.heap pcsock (some (some csock)) pcsock).join.toList.Nodup
    rw [stored]
    exact unique
  · intro other has
    obtain rfl := Option.some.inj has
    exact stored.trans_ne (Option.some_ne_none _)
  · intro other was is
    exact (is (block.symm.trans was)).elim
  · intro other has _
    obtain rfl := Option.some.inj has
    exact ⟨csock, stored⟩
  · rintro other (past | ⟨-, idle⟩)
    · exact ⟨Nat.ne_of_gt past, kept.absent other (.inl past)⟩
    · exact (idle at').elim

private theorem Kept.turn (kept : Kept state) (idle : state.loop ≠ .handing) {loop : Loop}
    (running : state.loop ≠ .returned) : Kept { state with loop := loop } := by
  refine ⟨kept.sockets, kept.apart, kept.pages, kept.blocks, kept.distinct, kept.filled, ?_,
    fun _ => kept.listening running, kept.own⟩
  rintro number (past | ⟨same, -⟩)
  · exact kept.absent number (.inl past)
  · exact kept.absent number (.inr ⟨same, idle⟩)

private theorem close_kept (kept : Kept state) (at' : state.loop = .closing) :
    Kept { state.shut state.ssock with loop := .returned } := by
  have listening := kept.listening (at'.trans_ne Loop.noConfusion)
  -- The listening socket is no descriptor of a connection.
  have same : ∀ aim, aim ≠ Opened.listening → ∀ fd,
      (state.table.close state.ssock).file fd = some aim ↔ state.table.file fd = some aim := by
    intro aim other fd
    rw [changed_iff (FdTable.file_close ..)]
    constructor
    · rintro (⟨-, never⟩ | ⟨-, has⟩)
      · cases never
      · exact has
    · refine fun has => .inr ⟨?_, has⟩
      rintro rfl
      exact other (Option.some.inj (has.symm.trans listening))
  refine ⟨fun number fd => (same _ Opened.noConfusion fd).trans (kept.sockets number fd),
    kept.apart, fun number fd => (same _ Opened.noConfusion fd).trans (kept.pages number fd),
    kept.blocks, kept.distinct, kept.filled, ?_, fun running => (running rfl).elim, kept.own⟩
  rintro number (past | ⟨same, -⟩)
  · exact kept.absent number (.inl past)
  · exact kept.absent number (.inr ⟨same, at'.trans_ne Loop.noConfusion⟩)

private theorem loop_kept (kept : Kept state) (step : LoopStep state after) : Kept after := by
  cases step with
  | accept at' => exact accept_kept kept at'
  | malloc pcsock at' place free => exact malloc_kept kept at' place free
  | store at' place => exact store_kept kept at' place
  | create at' place => exact create_kept kept at' place (.inl rfl)
  | createFails at' place => exact create_kept kept at' place (.inr rfl)
  | leave at' | detach at' =>
    exact kept.turn (at'.trans_ne Loop.noConfusion) (at'.trans_ne Loop.noConfusion)
  | close at' => exact close_kept kept at'

theorem kept (reachable : server.Reachable state) : Kept state := by
  refine reachable.invariant Kept ?_ ?_
  · rintro state ⟨loop, created, places, heap, listening, none⟩
    have absent : ∀ number, state.places number = .absent := fun number => (places number).1
    refine ⟨fun number fd => ?_, fun number => ?_, fun number fd => ?_, fun block => ?_, ?_, ?_,
      fun number _ => absent number, fun _ => listening, fun number used member => ?_⟩
    · rw [absent]
      exact ⟨fun has => ((none fd number).1 has).elim, nofun⟩
    · rw [absent]
      exact List.nodup_nil
    · rw [absent]
      exact ⟨fun has => ((none fd number).2 has).elim, nofun⟩
    · refine ⟨fun some => (some (heap block)).elim, ?_⟩
      rintro ⟨number, has⟩
      rw [absent] at has
      cases has
    · intro one two block has
      rw [absent] at has
      cases has
    · intro number block has
      rw [absent] at has
      cases has
    · rw [(places number).2] at member
      cases member
  · intro state after kept step
    cases step with
    | loop alive step => exact loop_kept kept step
    | handler number alive step => exact handler_kept kept step
    | exit => exact ⟨kept.sockets, kept.apart, kept.pages, kept.blocks, kept.distinct, kept.filled,
        kept.absent, kept.listening, kept.own⟩

/-- In every order of the steps of `webserverFunction` and its handlers each connection is served
by its own handler alone, which releases all that it has been given. -/
theorem served_alone (reachable : server.Reachable state) : Sound state := by
  have kept := kept reachable
  refine ⟨kept.own, fun number arg at' => ?_, fun number arg csock at' => ?_, fun number done fd => ?_,
    fun idle done => ?_⟩
  · exact kept.filled number arg (by rw [at']; rfl) (by rw [at']; rfl)
  · exact (kept.blocks arg).mpr ⟨number, by rw [at']; rfl⟩
  · have sockets := kept.sockets number fd
    have pages := kept.pages number fd
    rw [done] at sockets pages
    exact ⟨fun has => List.not_mem_nil (sockets.mp has), fun has => Option.some_ne_none _ (pages.mp has).symm⟩
  · have ended : ∀ number, state.places number = .done ∨ state.places number = .absent := by
      intro number
      rcases Nat.lt_trichotomy number state.created with inside | same | past
      · exact .inl (done number inside)
      · exact .inr (kept.absent number (.inr ⟨same, idle.trans_ne Loop.noConfusion⟩))
      · exact .inr (kept.absent number (.inl past))
    refine ⟨fun fd number => ?_, fun block => ?_⟩
    · have sockets := kept.sockets number fd
      have pages := kept.pages number fd
      rcases ended number with at' | at' <;> rw [at'] at sockets pages
      · exact ⟨fun has => List.not_mem_nil (sockets.mp has),
          fun has => Option.some_ne_none _ (pages.mp has).symm⟩
      · exact ⟨fun has => List.not_mem_nil (sockets.mp has),
          fun has => Option.some_ne_none _ (pages.mp has).symm⟩
    · refine by_contra fun some => ?_
      obtain ⟨number, has⟩ := (kept.blocks block).mp some
      rcases ended number with at' | at' <;> rw [at'] at has <;> cases has

private def idle : State where
  table := ⟨[some .listening]⟩
  heap _ := none
  ssock := 0
  loop := .accepting
  created := 0
  places _ := .absent
  uses _ := []
  alive := true

/-- Two connections at once: the first gets the page, the second is refused in between. -/
theorem served_alone_refused : ∃ state, server.Reachable state ∧ state.loop = .accepting ∧
    state.created = 2 ∧ state.places 0 = .done ∧ state.places 1 = .done ∧
      some (.page 0) ∈ state.uses 0 ∧ some (.connection 1) ∈ state.uses 1 ∧ Sound state := by
  have none : ∀ fd number, idle.table.file fd ≠ some (.connection number) ∧
      idle.table.file fd ≠ some (.page number) := by
    intro fd number
    cases fd with
    | zero => constructor <;> exact fun same => by cases same
    | succ fd => exact ⟨Option.some_ne_none _ ∘ Eq.symm, Option.some_ne_none _ ∘ Eq.symm⟩
  have start : server.Reachable idle :=
    .start ⟨rfl, rfl, fun _ => ⟨rfl, rfl⟩, fun _ => rfl, rfl, none⟩
  have first := start
    |>.next (.loop rfl (.accept rfl))
    |>.next (.loop rfl (.malloc 7 rfl rfl rfl))
    |>.next (.loop rfl (.store rfl rfl))
    |>.next (.loop rfl (.create rfl rfl))
    |>.next (.loop rfl (.detach rfl))
  have second := first
    |>.next (.loop rfl (.accept rfl))
    |>.next (.loop rfl (.malloc 8 rfl rfl rfl))
    |>.next (.loop rfl (.store rfl rfl))
    |>.next (.loop rfl (.create rfl rfl))
    |>.next (.loop rfl (.detach rfl))
  have opened := second
    |>.next (.handler 0 rfl (.load rfl rfl))
    |>.next (.handler 0 rfl (.free rfl))
    |>.next (.handler 0 rfl (.dup rfl rfl))
    |>.next (.handler 0 rfl (.read rfl))
    |>.next (.handler 0 rfl (.fopen rfl))
  have refused := opened
    |>.next (.handler 1 rfl (.load rfl rfl))
    |>.next (.handler 1 rfl (.free rfl))
    |>.next (.handler 1 rfl (.dup rfl rfl))
    |>.next (.handler 1 rfl (.read rfl))
    |>.next (.handler 1 rfl (.refuse rfl))
    |>.next (.handler 1 rfl (.flush rfl))
    |>.next (.handler 1 rfl (.fcloseRead rfl))
    |>.next (.handler 1 rfl (.fcloseWrite rfl))
  have ended := refused
    |>.next (.handler 0 rfl (.fread rfl))
    |>.next (.handler 0 rfl (.write rfl))
    |>.next (.handler 0 rfl (.fclosePage rfl))
    |>.next (.handler 0 rfl (.flush rfl))
    |>.next (.handler 0 rfl (.fcloseRead rfl))
    |>.next (.handler 0 rfl (.fcloseWrite rfl))
  exact ⟨_, ended, rfl, rfl, rfl, rfl, by decide, by decide, served_alone ended⟩

end Lsnp.WebServer.Rpi
