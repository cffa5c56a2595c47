import Lsnp.Interaction.Machine
import Lsnp.Unix.Descriptors

/-! The threaded server of `tcpProgramming/ex01.c`: each connection is greeted by a thread of
its own, which is handed the address of the one variable that holds the descriptor. A step is
one library call of `main` or of a handler, or the load of the descriptor. -/

namespace Lsnp.Greeting

open Lsnp.Interaction Lsnp.Unix

/-- What a pointer may point to: `new_fd` on the stack of `main`, or a block of the heap. -/
inductive Address where
  | newFd
  | heap (block : Nat)
  deriving DecidableEq

/-- Where a handler is: in front of the load of its descriptor, of `free`, of `send`, of
`close`, or behind it. A descriptor is `none` for -1. -/
inductive Place where
  | starting (arg : Address)
  | freeing (arg : Address) (fd : Option Fd)
  | sending (fd : Option Fd)
  | closing (fd : Option Fd)
  | done
  deriving DecidableEq

/-- The connections that a handler called `send` and `close` for; `none` where the descriptor
was not one of a connection. -/
structure Handler where
  place : Place
  sends : List (Option Nat)
  closes : List (Option Nat)
  deriving DecidableEq

/-- Where `main` is: in front of `accept`, of `pthread_create`, of `pthread_detach`, or the
process has ended. -/
inductive Main where
  | accepting
  | creating
  | detaching
  | exited
  deriving DecidableEq

/-- The descriptors that are open, those of connections with the number of the connection;
what has been allocated for handlers, which is nothing, and what they have freed. -/
structure State where
  table : FdTable (Option Nat)
  newFd : Option Fd
  allocated : List Address
  main : Main
  handlers : Nat → Handler
  created : Nat
  accepted : Nat
  frees : List Address

namespace State

def load (state : State) : Address → Option Fd
  | .newFd => state.newFd
  | .heap _ => none

def target (state : State) (fd : Option Fd) : Option Nat := (fd.bind state.table.file).join

def go (state : State) (thread : Nat) (handler : Handler) : State :=
  { state with handlers := Function.update state.handlers thread handler }

@[simp] theorem handlers_go (state : State) (thread : Nat) (handler : Handler) :
    (state.go thread handler).handlers = Function.update state.handlers thread handler := by
  rfl

/-- The handler has called `send`. -/
def greet (state : State) (thread : Nat) (fd : Option Fd) : State :=
  state.go thread { state.handlers thread with
    place := .closing fd
    sends := (state.handlers thread).sends ++ [state.target fd] }

end State

inductive MainStep (state : State) : State → Prop where
  | accept (at' : state.main = .accepting) :
      MainStep state { state with
        table := state.table.set state.table.lowest (some state.accepted)
        newFd := some state.table.lowest
        main := .creating
        accepted := state.accepted + 1 }
  | acceptFails (at' : state.main = .accepting) : MainStep state { state with newFd := none }
  | create (at' : state.main = .creating) :
      MainStep state { state with
        main := .detaching
        handlers := Function.update state.handlers state.created ⟨.starting .newFd, [], []⟩
        created := state.created + 1 }
  | createFails (at' : state.main = .creating) : MainStep state { state with main := .exited }
  | detach (at' : state.main = .detaching) : MainStep state { state with main := .accepting }

/-- A handler; `free` may notice that the pointer is not one to a block of the heap, and
`send` may end the process where the client has gone. -/
inductive HandlerStep (thread : Nat) (state : State) : State → Prop where
  | load {arg : Address} (at' : (state.handlers thread).place = .starting arg) :
      HandlerStep thread state (state.go thread { state.handlers thread with
        place := .freeing arg (state.load arg) })
  | free {arg : Address} {fd : Option Fd} (at' : (state.handlers thread).place = .freeing arg fd) :
      HandlerStep thread state { state.go thread { state.handlers thread with
          place := .sending fd } with
        frees := state.frees ++ [arg] }
  | freeAborts {arg : Address} {fd : Option Fd}
      (at' : (state.handlers thread).place = .freeing arg fd) (stray : arg ∉ state.allocated) :
      HandlerStep thread state { state with
        main := .exited
        frees := state.frees ++ [arg] }
  | send {fd : Option Fd} (at' : (state.handlers thread).place = .sending fd) :
      HandlerStep thread state (state.greet thread fd)
  | sendEnds {fd : Option Fd} (at' : (state.handlers thread).place = .sending fd) :
      HandlerStep thread state { state.greet thread fd with main := .exited }
  | close {fd : Option Fd} (at' : (state.handlers thread).place = .closing fd) :
      HandlerStep thread state { state.go thread { state.handlers thread with
          place := .done
          closes := (state.handlers thread).closes ++ [state.target fd] } with
        table := fd.elim state.table state.table.close }

inductive Step (state : State) : State → Prop where
  | main {after : State} (step : MainStep state after) : Step state after
  | handler {after : State} (thread : Nat) (running : thread < state.created)
      (alive : state.main ≠ .exited) (step : HandlerStep thread state after) : Step state after

def server : Machine State where
  initial state := state.main = .accepting ∧ state.created = 0 ∧ state.accepted = 0 ∧
    state.allocated = [] ∧ state.frees = [] ∧
    (∀ thread, state.handlers thread = ⟨.done, [], []⟩) ∧
    ∀ fd connection, state.table.file fd ≠ some (some connection)
  step := Step

/-- Each thread acts on the descriptor of the connection it was created for, and, when all
have come to their ends, has done so once. -/
structure HandedOver (state : State) : Prop where
  own : ∀ thread, (state.handlers thread).sends <+: [some thread] ∧
    (state.handlers thread).closes <+: [some thread]
  once : state.main = .accepting →
    (∀ thread < state.created, (state.handlers thread).place = .done) →
    ∀ connection < state.accepted, (state.handlers connection).sends = [some connection] ∧
      (state.handlers connection).closes = [some connection]

/-- Every accepted connection is served exactly once, and only allocated memory is freed. -/
structure Served (state : State) : Prop extends HandedOver state where
  frees : ∀ address ∈ state.frees, address ∈ state.allocated

/-- The variable is not changed as long as there is a handler that has not read it. -/
def Prompt (state after : State) : Prop :=
  after.newFd ≠ state.newFd →
    ∀ thread < state.created, ∀ arg, (state.handlers thread).place ≠ .starting arg

/-- The handler has not got behind its `free`. -/
def Handler.Waits (handler : Handler) : Prop :=
  (handler.sends = [] ∧ handler.closes = []) ∧
    ((∃ arg, handler.place = .starting arg) ∨ ∃ arg fd, handler.place = .freeing arg fd)

structure Counted (state : State) : Prop where
  counts : state.main ≠ .exited →
    state.accepted = if state.main = .creating then state.created + 1 else state.created
  none : ∀ thread, state.created ≤ thread → state.handlers thread = ⟨.done, [], []⟩
  nothing : state.allocated = []
  waits : state.frees = [] → ∀ thread < state.created, (state.handlers thread).Waits

variable {state after : State}

private theorem counted_main (counted : Counted state) (step : MainStep state after) :
    Counted after := by
  cases step with
  | accept at' =>
    refine ⟨fun _ => ?_, counted.none, counted.nothing, counted.waits⟩
    have same := counted.counts (by rw [at']; decide)
    rw [at', if_neg (by decide)] at same
    simp [same]
  | acceptFails at' => exact ⟨counted.counts, counted.none, counted.nothing, counted.waits⟩
  | create at' =>
    refine ⟨fun _ => ?_, fun thread past => ?_, counted.nothing, fun unfreed thread inside => ?_⟩
    · have same := counted.counts (by rw [at']; decide)
      rw [at', if_pos rfl] at same
      simpa using same
    · have apart : thread ≠ state.created := by
        have past : state.created + 1 ≤ thread := past
        omega
      show Function.update _ _ _ _ = _
      rw [Function.update_of_ne apart]
      exact counted.none thread (Nat.le_of_succ_le past)
    · by_cases last : thread = state.created
      · subst last
        exact ⟨⟨by simp, by simp⟩, .inl ⟨.newFd, by simp⟩⟩
      · have inside : thread < state.created + 1 := inside
        show (Function.update state.handlers _ _ thread).Waits
        rw [Function.update_of_ne last]
        exact counted.waits unfreed thread (by omega)
  | createFails at' => exact ⟨fun alive => (alive rfl).elim, counted.none, counted.nothing, counted.waits⟩
  | detach at' =>
    refine ⟨fun _ => ?_, counted.none, counted.nothing, counted.waits⟩
    have same := counted.counts (by rw [at']; decide)
    rw [at', if_neg (by decide)] at same
    simpa using same

private theorem none_go (counted : Counted state) {thread : Nat} (inside : thread < state.created)
    (handler : Handler) {other : Nat} (past : state.created ≤ other) :
    (state.go thread handler).handlers other = ⟨.done, [], []⟩ := by
  have apart : other ≠ thread := by omega
  rw [State.handlers_go, Function.update_of_ne apart]
  exact counted.none other past

private theorem waits_go (counted : Counted state) (unfreed : state.frees = []) {thread : Nat}
    {handler : Handler} (waits : handler.Waits) {other : Nat} (inside : other < state.created) :
    ((state.go thread handler).handlers other).Waits := by
  rw [State.handlers_go, Function.update_apply]
  split
  · exact waits
  · exact counted.waits unfreed other inside

private theorem counted_handler {thread : Nat} (counted : Counted state)
    (inside : thread < state.created) (step : HandlerStep thread state after) : Counted after := by
  have past {place : Place} (at' : (state.handlers thread).place = place)
      (starting : ∀ arg, place ≠ .starting arg) (freeing : ∀ arg fd, place ≠ .freeing arg fd) :
      state.frees ≠ [] := by
    intro unfreed
    rcases (counted.waits unfreed thread inside).2 with ⟨arg, same⟩ | ⟨arg, fd, same⟩
    · exact starting arg (at'.symm.trans same)
    · exact freeing arg fd (at'.symm.trans same)
  cases step with
  | load at' =>
    refine ⟨counted.counts, fun _ => none_go counted inside _, counted.nothing, ?_⟩
    intro unfreed other inside'
    obtain ⟨quiet, -⟩ := counted.waits unfreed thread inside
    apply waits_go counted unfreed _ inside'
    exact ⟨quiet, .inr ⟨_, _, rfl⟩⟩
  | free at' =>
    refine ⟨counted.counts, fun _ => none_go counted inside _, counted.nothing, ?_⟩
    exact fun unfreed => (List.append_ne_nil_of_right_ne_nil _ (by simp) unfreed).elim
  | freeAborts at' stray =>
    refine ⟨fun alive => (alive rfl).elim, counted.none, counted.nothing, ?_⟩
    exact fun unfreed => (List.append_ne_nil_of_right_ne_nil _ (by simp) unfreed).elim
  | send at' =>
    have some := past at' (by simp) (by simp)
    exact ⟨counted.counts, fun _ => none_go counted inside _, counted.nothing,
      fun unfreed => (some unfreed).elim⟩
  | sendEnds at' =>
    have some := past at' (by simp) (by simp)
    exact ⟨fun alive => (alive rfl).elim, fun _ => none_go counted inside _, counted.nothing,
      fun unfreed => (some unfreed).elim⟩
  | close at' =>
    have some := past at' (by simp) (by simp)
    exact ⟨counted.counts, fun _ => none_go counted inside _, counted.nothing,
      fun unfreed => (some unfreed).elim⟩

theorem counted (reachable : server.Reachable state) : Counted state := by
  apply reachable.invariant Counted
  · rintro state ⟨main, created, accepted, allocated, frees, handlers, -⟩
    refine ⟨fun _ => ?_, fun thread _ => handlers thread, allocated, fun _ thread inside => ?_⟩
    · rw [main, if_neg (by decide), created, accepted]
    · rw [created] at inside
      exact (Nat.not_lt_zero thread inside).elim
  · intro state after counted step
    cases step with
    | main step => exact counted_main counted step
    | handler thread running alive step => exact counted_handler counted running step

private theorem served_iff (reachable : server.Reachable state) : Served state ↔ state.frees = [] := by
  have counted := counted reachable
  constructor
  · intro served
    apply List.eq_nil_iff_forall_not_mem.mpr
    intro address freed
    have allocated := served.frees address freed
    rw [counted.nothing] at allocated
    cases allocated
  · intro unfreed
    have quiet (thread : Nat) :
        (state.handlers thread).sends = [] ∧ (state.handlers thread).closes = [] := by
      rcases Nat.lt_or_ge thread state.created with inside | past
      · exact (counted.waits unfreed thread inside).1
      · rw [counted.none thread past]
        exact ⟨rfl, rfl⟩
    refine ⟨⟨fun thread => ?_, fun main done connection accepted => ?_⟩, by simp [unfreed]⟩
    · rw [(quiet thread).1, (quiet thread).2]
      exact ⟨List.nil_prefix, List.nil_prefix⟩
    · have same := counted.counts (by rw [main]; decide)
      rw [main, if_neg (by decide)] at same
      rw [same] at accepted
      rcases (counted.waits unfreed connection accepted).2 with ⟨_, waits⟩ | ⟨_, _, waits⟩
      · rw [done connection accepted] at waits
        cases waits
      · rw [done connection accepted] at waits
        cases waits

/-- The handler has, or will load, the descriptor of the connection with its number. -/
inductive Owns (table : FdTable (Option Nat)) (newFd : Option Fd) (thread : Nat) : Handler → Prop where
  | starting {fd : Fd} (held : newFd = some fd) (own : table.file fd = some (some thread)) :
      Owns table newFd thread ⟨.starting .newFd, [], []⟩
  | freeing {arg : Address} {fd : Fd} (own : table.file fd = some (some thread)) :
      Owns table newFd thread ⟨.freeing arg (some fd), [], []⟩
  | sending {fd : Fd} (own : table.file fd = some (some thread)) :
      Owns table newFd thread ⟨.sending (some fd), [], []⟩
  | closing {fd : Fd} (own : table.file fd = some (some thread)) :
      Owns table newFd thread ⟨.closing (some fd), [some thread], []⟩
  | done : Owns table newFd thread ⟨.done, [some thread], [some thread]⟩

private theorem Owns.frame {table table' : FdTable (Option Nat)} {newFd newFd' : Option Fd}
    {thread : Nat} {handler : Handler} (owns : Owns table newFd thread handler)
    (kept : ∀ fd, table.file fd = some (some thread) → table'.file fd = some (some thread))
    (same : (∃ arg, handler.place = .starting arg) → newFd' = newFd) :
    Owns table' newFd' thread handler := by
  cases owns with
  | starting held own => exact .starting ((same ⟨_, rfl⟩).trans held) (kept _ own)
  | freeing own => exact .freeing (kept _ own)
  | sending own => exact .sending (kept _ own)
  | closing own => exact .closing (kept _ own)
  | done => exact .done

structure Owning (state : State) : Prop where
  next : state.main = .creating →
    ∃ fd, state.newFd = some fd ∧ state.table.file fd = some (some state.created)
  owns : ∀ thread < state.created, Owns state.table state.newFd thread (state.handlers thread)

private theorem owning_main (counted : Counted state) (owning : Owning state)
    (step : MainStep state after) (prompt : Prompt state after) : Owning after := by
  have read {newFd : Option Fd} (prompt : newFd ≠ state.newFd →
      ∀ thread < state.created, ∀ arg, (state.handlers thread).place ≠ .starting arg)
      {thread : Nat} (inside : thread < state.created) :
      (∃ arg, (state.handlers thread).place = .starting arg) → newFd = state.newFd := by
    rintro ⟨arg, at'⟩
    by_contra differ
    exact prompt differ thread inside arg at'
  cases step with
  | accept at' =>
    have count := counted.counts (by rw [at']; decide)
    rw [at', if_neg (by decide)] at count
    refine ⟨fun _ => ⟨state.table.lowest, rfl, by simp [count]⟩, fun thread inside => ?_⟩
    apply (owning.owns thread inside).frame _ (read prompt inside)
    intro fd own
    exact FdTable.file_set_lowest _ own
  | acceptFails at' =>
    refine ⟨fun creating => ?_, fun thread inside => ?_⟩
    · rw [show state.main = .creating from creating] at at'
      cases at'
    · exact (owning.owns thread inside).frame (fun _ own => own) (read prompt inside)
  | create at' =>
    refine ⟨fun creating => (nomatch creating), fun thread inside => ?_⟩
    show Owns _ _ _ (Function.update state.handlers _ _ thread)
    by_cases last : thread = state.created
    · subst last
      obtain ⟨fd, held, own⟩ := owning.next at'
      rw [Function.update_self]
      exact .starting held own
    · have inside : thread < state.created + 1 := inside
      rw [Function.update_of_ne last]
      exact owning.owns thread (by omega)
  | createFails at' => exact ⟨fun creating => (nomatch creating), owning.owns⟩
  | detach at' => exact ⟨fun creating => (nomatch creating), owning.owns⟩

private theorem owning_go {thread : Nat} {handler : Handler} {table : FdTable (Option Nat)}
    (owning : Owning state) (owns : Owns table state.newFd thread handler)
    (kept : ∀ other, other ≠ thread → ∀ fd, state.table.file fd = some (some other) →
      table.file fd = some (some other))
    {other : Nat} (inside : other < state.created) :
    Owns table state.newFd other (Function.update state.handlers thread handler other) := by
  by_cases same : other = thread
  · subst same
    rw [Function.update_self]
    exact owns
  · rw [Function.update_of_ne same]
    exact (owning.owns other inside).frame (kept other same) fun _ => rfl

private theorem target_eq {fd : Fd} {connection : Nat}
    (own : state.table.file fd = some (some connection)) :
    state.target (some fd) = some connection := by
  rw [State.target, Option.bind_some, own]
  rfl

private theorem Owns.at_sending {table : FdTable (Option Nat)} {newFd fd : Option Fd}
    {thread : Nat} {handler : Handler} (owns : Owns table newFd thread handler)
    (at' : handler.place = .sending fd) :
    ∃ number, fd = some number ∧ table.file number = some (some thread) ∧
      handler = ⟨.sending (some number), [], []⟩ := by
  cases owns with
  | starting | freeing | closing | done => cases at'
  | sending own =>
    cases at'
    exact ⟨_, rfl, own, rfl⟩

private theorem owning_greet {thread : Nat} {fd : Option Fd} (owning : Owning state)
    (inside : thread < state.created) (at' : (state.handlers thread).place = .sending fd) :
    Owning (state.greet thread fd) := by
  obtain ⟨number, rfl, own, same⟩ := (owning.owns thread inside).at_sending at'
  refine ⟨owning.next, fun other inside' => ?_⟩
  apply owning_go owning _ (fun _ _ _ own => own) inside'
  rw [same, target_eq own]
  exact .closing own

private theorem owning_handler {thread : Nat} (owning : Owning state)
    (inside : thread < state.created) (step : HandlerStep thread state after) : Owning after := by
  have owns := owning.owns thread inside
  cases step with
  | load at' =>
    refine ⟨owning.next, fun other inside' => ?_⟩
    apply owning_go owning _ (fun _ _ _ own => own) inside'
    cases same : state.handlers thread with
    | mk place sends closes =>
      rw [same] at owns at'
      cases at'
      cases owns with
      | starting held own =>
        rw [State.load, held]
        exact .freeing own
  | free at' =>
    refine ⟨owning.next, fun other inside' => ?_⟩
    apply owning_go owning _ (fun _ _ _ own => own) inside'
    cases same : state.handlers thread with
    | mk place sends closes =>
      rw [same] at owns at'
      cases at'
      cases owns with
      | freeing own => exact .sending own
  | freeAborts at' stray => exact ⟨fun creating => (nomatch creating), owning.owns⟩
  | send at' => exact owning_greet owning inside at'
  | sendEnds at' =>
    exact ⟨fun creating => (nomatch creating), (owning_greet owning inside at').owns⟩
  | close at' =>
    cases same : state.handlers thread with
    | mk place sends closes =>
      rw [same] at owns at'
      cases at'
      cases owns with
      | @closing fd own =>
        rw [target_eq own]
        have kept (other : Nat) (apart : other ≠ thread) (number : Fd)
            (held : state.table.file number = some (some other)) :
            (state.table.close fd).file number = some (some other) := by
          have differ : number ≠ fd := by
            rintro rfl
            rw [own] at held
            exact apart (Option.some.inj (Option.some.inj held)).symm
          rw [FdTable.file_close, Function.update_of_ne differ, held]
        refine ⟨fun creating => ?_, fun other inside' => ?_⟩
        · obtain ⟨number, newest, held⟩ := owning.next creating
          exact ⟨number, newest, kept state.created (Nat.ne_of_gt inside) number held⟩
        · exact owning_go owning .done kept inside'

theorem owning (reachable : (server.restrict Prompt).Reachable state) : Owning state := by
  have both : Counted state ∧ Owning state := by
    apply reachable.invariant fun state => Counted state ∧ Owning state
    · intro state initial
      refine ⟨counted (.start initial), fun creating => ?_, fun thread inside => ?_⟩
      · rw [initial.1] at creating
        cases creating
      · rw [initial.2.1] at inside
        exact (Nat.not_lt_zero thread inside).elim
    · rintro state after ⟨counted, owning⟩ ⟨step, prompt⟩
      cases step with
      | main step => exact ⟨counted_main counted step, owning_main counted owning step prompt⟩
      | handler thread running alive step =>
        exact ⟨counted_handler counted running step, owning_handler owning running step⟩
  exact both.2

theorem handedOver (reachable : (server.restrict Prompt).Reachable state) : HandedOver state := by
  have counted := counted reachable.of_restrict
  have owning := owning reachable
  refine ⟨fun thread => ?_, fun main done connection accepted => ?_⟩
  · rcases Nat.lt_or_ge thread state.created with inside | past
    · have owns := owning.owns thread inside
      generalize state.handlers thread = handler at owns
      cases owns <;> simp
    · rw [counted.none thread past]
      simp
  · have same := counted.counts (by rw [main]; decide)
    rw [main, if_neg (by decide)] at same
    rw [same] at accepted
    have owns := owning.owns connection accepted
    have done := done connection accepted
    generalize state.handlers connection = handler at owns done
    cases owns with
    | starting | freeing | sending | closing => cases done
    | done => exact ⟨rfl, rfl⟩

/-- The server does what it is meant to exactly as long as no handler has called `free`, and
what the handlers do on descriptors is right if each has read its own in time. -/
theorem served_iff_unfreed (reachable : server.Reachable state) :
    (Served state ↔ state.frees = []) ∧
      ((server.restrict Prompt).Reachable state → HandedOver state) :=
  ⟨served_iff reachable, handedOver⟩

private def start : State :=
  ⟨⟨[]⟩, none, [], .accepting, fun _ => ⟨.done, [], []⟩, 0, 0, []⟩

private theorem initial_start : server.initial start := by
  refine ⟨rfl, rfl, rfl, rfl, rfl, fun _ => rfl, ?_⟩
  intro fd connection held
  simp [start, FdTable.file] at held

private theorem initially (thread : Nat) (inside : thread < start.created) (arg : Address) :
    (start.handlers thread).place ≠ .starting arg :=
  (Nat.not_lt_zero thread inside).elim

/-- Alone, a handler greets its client, and frees the variable of `main`. -/
theorem served_iff_unfreed_alone :
    ∃ state, server.Reachable state ∧ (state.handlers 0).sends = [some 0] ∧
      state.frees = [.newFd] ∧ HandedOver state ∧ ¬ Served state := by
  have first : (server.restrict Prompt).Reachable start := .start initial_start
  have run := first
    |>.next ⟨.main (.accept rfl), fun _ => initially⟩
    |>.next ⟨.main (.create rfl), fun differ => (differ rfl).elim⟩
    |>.next ⟨.main (.detach rfl), fun differ => (differ rfl).elim⟩
    |>.next ⟨.handler 0 (by decide) (by decide) (.load rfl), fun differ => (differ rfl).elim⟩
    |>.next ⟨.handler 0 (by decide) (by decide) (.free rfl), fun differ => (differ rfl).elim⟩
    |>.next ⟨.handler 0 (by decide) (by decide) (.send rfl), fun differ => (differ rfl).elim⟩
  refine ⟨_, run.of_restrict, rfl, rfl, ?_, ?_⟩
  · exact (served_iff_unfreed run.of_restrict).2 run
  · intro served
    have none := (served_iff_unfreed run.of_restrict).1.mp served
    cases none

/-- A handler that starts late greets the client of the next connection. -/
theorem not_served_late :
    ∃ state, server.Reachable state ∧ (state.handlers 0).sends = [some 1] ∧ ¬ Served state := by
  have run := (Machine.Reachable.start initial_start)
    |>.next (.main (.accept rfl))
    |>.next (.main (.create rfl))
    |>.next (.main (.detach rfl))
    |>.next (.main (.accept rfl))
    |>.next (.handler 0 (by decide) (by decide) (.load rfl))
    |>.next (.handler 0 (by decide) (by decide) (.free rfl))
    |>.next (.handler 0 (by decide) (by decide) (.send rfl))
  refine ⟨_, run, rfl, ?_⟩
  intro served
  have own : [some 1] <+: [some 0] := (served.own 0).1
  simp at own

end Lsnp.Greeting
