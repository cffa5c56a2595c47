import Lsnp.Interaction.Machine
import Lsnp.Libc.Strtok

/-! The query strings of the web server: each connection has a thread that takes its query
apart with `strtok`, which keeps its place in one variable for all threads. A step is one
library call of a thread. -/

namespace Lsnp.WebServer

open Lsnp.Interaction Lsnp.Libc

inductive Level where
  | high
  | low
  deriving DecidableEq

/-- `isspace`. -/
def isSpace (char : Char) : Bool := char ∈ [' ', '\t', '\n', '\x0b', '\x0c', '\r']

/-- `sscanf` with `%63[^=]=%63s`: the two strings, if both are found. -/
def scanField (tok : List Char) : Option (List Char × List Char) :=
  let key := (tok.takeWhile (· ≠ '=')).take 63
  match tok.drop key.length with
  | '=' :: rest =>
    let val := ((rest.dropWhile isSpace).takeWhile (! isSpace ·)).take 63
    if key = [] ∨ val = [] then none else some (key, val)
  | _ => none

/-- What is written to the LED for a field of the query. -/
def led (tok : List Char) : Option Level :=
  match scanField tok with
  | none => none
  | some (key, val) =>
    if key = "led".toList then
      if val = "On".toList then some .high
      else if val = "Off".toList then some .low
      else none
    else none

def ledWrites (query : List Char) : List Level := (tokens ['&'] query).filterMap led

/-- `strchr`: where the query string starts in the path. -/
def queryAt (path : CString) : Option Nat :=
  if '?' ∈ path.chars then some (path.chars.idxOf '?' + 1) else none

def query (path : CString) : List Char :=
  match queryAt path with
  | none => []
  | some start => path.chars.drop start

/-- A place in the array `path` of one of the threads. -/
abbrev Pointer := Nat × Nat

/-- Where a handler is: in front of its first `strtok`, of `sscanf`, of `digitalWrite`, of
another `strtok`, or behind the loop. -/
inductive Place where
  | starting
  | scanning (tok : Pointer)
  | writing (level : Level)
  | advancing
  | done
  deriving DecidableEq

/-- Where the thread is, where its last `strtok` would go on, and what it has written. -/
structure Handler where
  place : Place
  last : Option Pointer
  writes : List Level

/-- The paths that were requested, the arrays that hold them, the threads, and the variable
of `strtok`. -/
structure State where
  requests : Nat → CString
  paths : Nat → List Char
  handlers : Nat → Handler
  connections : Nat
  cursor : Option Pointer

/-- What a thread does with what `strtok` gave it for this array. -/
def Place.behind (owner : Nat) (result : Strtok) : Place :=
  match result.token with
  | none => .done
  | some start => .scanning (owner, start)

/-- A call of `strtok` that goes on in the array of `owner`. -/
def State.call (state : State) (thread owner offset : Nat) : State :=
  let result := strtok ['&'] (state.paths owner) offset
  { state with
    paths := Function.update state.paths owner result.memory
    handlers := Function.update state.handlers thread { state.handlers thread with
      place := .behind owner result
      last := some (owner, result.cursor) }
    cursor := some (owner, result.cursor) }

/-- A call of a thread that does not touch what the threads share. -/
def State.go (state : State) (thread : Nat) (handler : Handler) : State :=
  { state with handlers := Function.update state.handlers thread handler }

/-- A step of one of the threads. -/
inductive HandlerStep (thread : Nat) (state : State) : State → Prop where
  | noQuery (at' : (state.handlers thread).place = .starting)
      (none : queryAt (state.requests thread) = none) :
      HandlerStep thread state (state.go thread { state.handlers thread with place := .done })
  | strtok {start : Nat} (at' : (state.handlers thread).place = .starting)
      (some : queryAt (state.requests thread) = some start) :
      HandlerStep thread state (state.call thread thread start)
  | sscanf {tok : Pointer} (at' : (state.handlers thread).place = .scanning tok) :
      HandlerStep thread state (state.go thread { state.handlers thread with
        place := match led (cString ((state.paths tok.1).drop tok.2)) with
          | none => .advancing
          | some level => .writing level })
  | digitalWrite {level : Level} (at' : (state.handlers thread).place = .writing level) :
      HandlerStep thread state (state.go thread { state.handlers thread with
        place := .advancing
        writes := (state.handlers thread).writes ++ [level] })
  | strtokNext {owner offset : Nat} (at' : (state.handlers thread).place = .advancing)
      (cursor : state.cursor = some (owner, offset)) :
      HandlerStep thread state (state.call thread owner offset)

inductive Step (state : State) : State → Prop where
  | accept (path : CString) :
      Step state { state with
        requests := Function.update state.requests state.connections path
        paths := Function.update state.paths state.connections (path.chars ++ [nul])
        handlers := Function.update state.handlers state.connections ⟨.starting, none, []⟩
        connections := state.connections + 1 }
  | handle {after : State} (thread : Nat) (running : thread < state.connections)
      (step : HandlerStep thread state after) : Step state after

def server : Machine State where
  initial state := state.connections = 0 ∧ state.cursor = none
  step := Step

/-- A `strtok` that goes on does so where the last call of the same thread has left off. -/
def OwnCursor (state after : State) : Prop :=
  ∀ thread, thread < state.connections → (state.handlers thread).place = .advancing →
    (after.handlers thread).place ≠ .advancing → state.cursor = (state.handlers thread).last

/-- What is still to be written for the fields behind the place. -/
def ahead (memory : List Char) (offset : Nat) : List Level :=
  ledWrites (cString (memory.drop offset))

/-- What a thread has written and will write is what its query gives. -/
def Handler.follows (handler : Handler) (thread : Nat) (request : CString) (memory : List Char) :
    Prop :=
  match handler.place with
  | .starting => handler.writes = [] ∧ memory = request.chars ++ [nul]
  | .scanning tok => ∃ offset, handler.last = some (thread, offset) ∧ tok.1 = thread ∧
      handler.writes ++ (led (cString (memory.drop tok.2))).toList ++ ahead memory offset =
        ledWrites (query request)
  | .writing level => ∃ offset, handler.last = some (thread, offset) ∧
      handler.writes ++ [level] ++ ahead memory offset = ledWrites (query request)
  | .advancing => ∃ offset, handler.last = some (thread, offset) ∧
      handler.writes ++ ahead memory offset = ledWrites (query request)
  | .done => handler.writes = ledWrites (query request)

def Separate (state : State) : Prop :=
  ∀ thread, thread < state.connections →
    (state.handlers thread).follows thread (state.requests thread) (state.paths thread)

variable {thread : Nat} {state after : State}

private theorem separate_of_own (separate : Separate state)
    (connections : after.connections = state.connections)
    (others : ∀ other, other ≠ thread → after.handlers other = state.handlers other ∧
      after.paths other = state.paths other)
    (requests : after.requests = state.requests)
    (own : (after.handlers thread).follows thread (state.requests thread) (after.paths thread)) :
    Separate after := by
  intro other running
  rw [connections] at running
  rw [requests]
  by_cases it : other = thread
  · subst it
    exact own
  · rw [(others other it).1, (others other it).2]
    exact separate other running

private theorem follows_call (state : State) (offset : Nat)
    (rest : (state.handlers thread).writes ++ ahead (state.paths thread) offset =
      ledWrites (query (state.requests thread))) :
    (((state.call thread thread offset).handlers thread)).follows thread (state.requests thread)
      ((state.call thread thread offset).paths thread) := by
  simp only [State.call, Function.update_self]
  cases found : tokens ['&'] (cString ((state.paths thread).drop offset)) with
  | nil =>
    rw [ahead, ledWrites, found, List.filterMap_nil, List.append_nil] at rest
    simp only [Handler.follows, Place.behind, strtok_none found]
    exact rest
  | cons word more =>
    obtain ⟨start, token, string, behind⟩ := strtok_some found
    rw [ahead, ledWrites, found] at rest
    simp only [Handler.follows, Place.behind, token]
    refine ⟨_, rfl, trivial, ?_⟩
    rw [string, ahead, ledWrites, behind, ← rest, List.append_assoc]
    cases field : led word <;> simp [field]

private theorem query_start {path : CString} {start : Nat} (some : queryAt path = some start) :
    query path = cString ((path.chars ++ [nul]).drop start) := by
  unfold queryAt at some
  split at some
  · rename_i there
    obtain rfl := Option.some.inj some
    have inside : path.chars.idxOf '?' + 1 ≤ path.chars.length :=
      List.idxOf_lt_length_iff.mpr there
    have free : nul ∉ path.chars.drop (path.chars.idxOf '?' + 1) :=
      fun member => path.nulFree (List.mem_of_mem_drop member)
    rw [List.drop_append_of_le_length inside, cString_append_nul [] free]
    simp [query, queryAt, there]
  · cases some

theorem handlerStep_separate (separate : Separate state) (running : thread < state.connections)
    (step : HandlerStep thread state after) (own : OwnCursor state after) : Separate after := by
  have follows := separate thread running
  cases step with
  | noQuery at' none =>
    apply separate_of_own separate
    · rfl
    · exact fun other apart => ⟨Function.update_of_ne apart _ _, rfl⟩
    · rfl
    · simp only [Handler.follows, at'] at follows
      simp [State.go, Handler.follows, follows.1, query, none, ledWrites]
  | @strtok start at' some =>
    apply separate_of_own separate
    · rfl
    · exact fun other apart => ⟨Function.update_of_ne apart _ _, Function.update_of_ne apart _ _⟩
    · rfl
    · apply follows_call
      simp only [Handler.follows, at'] at follows
      rw [follows.1, follows.2, List.nil_append, ahead, ← query_start some]
  | @sscanf tok at' =>
    apply separate_of_own separate
    · rfl
    · exact fun other apart => ⟨Function.update_of_ne apart _ _, rfl⟩
    · rfl
    · simp only [Handler.follows, at'] at follows
      obtain ⟨offset, last, rfl, rest⟩ := follows
      cases field : led (cString ((state.paths tok.1).drop tok.2)) with
      | none =>
        simp only [State.go, Function.update_self, Handler.follows]
        exact ⟨offset, last, by simpa [field] using rest⟩
      | some level =>
        simp only [State.go, Function.update_self, Handler.follows]
        exact ⟨offset, last, by simpa [field] using rest⟩
  | @digitalWrite level at' =>
    apply separate_of_own separate
    · rfl
    · exact fun other apart => ⟨Function.update_of_ne apart _ _, rfl⟩
    · rfl
    · simp only [Handler.follows, at'] at follows
      simpa [State.go, Handler.follows] using follows
  | @strtokNext owner offset at' cursor =>
    simp only [Handler.follows, at'] at follows
    obtain ⟨place, last, rest⟩ := follows
    have goes : ((state.call thread owner offset).handlers thread).place ≠ .advancing := by
      simp only [State.call, Function.update_self, Place.behind]
      split <;> nofun
    have mine := own thread running at' goes
    rw [cursor, last] at mine
    obtain ⟨rfl, rfl⟩ := Prod.mk.inj (Option.some.inj mine)
    apply separate_of_own separate
    · rfl
    · exact fun other apart => ⟨Function.update_of_ne apart _ _, Function.update_of_ne apart _ _⟩
    · rfl
    · exact follows_call state offset rest

theorem step_separate (separate : Separate state) (step : Step state after)
    (own : OwnCursor state after) : Separate after := by
  cases step with
  | accept path =>
    intro thread running
    by_cases fresh : thread = state.connections
    · subst fresh
      simp [Handler.follows]
    · have old : thread < state.connections := by
        change thread < state.connections + 1 at running
        omega
      simp only [Function.update_of_ne fresh]
      exact separate thread old
  | handle thread running step => exact handlerStep_separate separate running step own

theorem separate_of_reachable (reachable : (server.restrict OwnCursor).Reachable state) :
    Separate state := by
  apply reachable.invariant Separate
  · rintro state ⟨none, -⟩ thread running
    rw [none] at running
    cases running
  · rintro state after separate ⟨step, own⟩
    exact step_separate separate step own

/-- A run with one connection, for this path, ends with these writes. -/
def Alone (path : CString) (writes : List Level) : Prop :=
  ∃ state, server.Reachable state ∧ state.connections = 1 ∧ state.requests 0 = path ∧
    (state.handlers 0).place = .done ∧ (state.handlers 0).writes = writes

def Place.loops : Place → Bool
  | .scanning _ | .writing _ | .advancing => true
  | .starting | .done => false

/-- The only thread finds the variable of `strtok` as it has left it. -/
private def Undivided (state : State) : Prop :=
  state.connections = 1 → (state.handlers 0).place.loops = true →
    state.cursor = (state.handlers 0).last

private theorem handlerStep_undivided (undivided : Undivided state) (one : state.connections = 1)
    (step : HandlerStep 0 state after) : Undivided after ∧ after.connections = state.connections := by
  cases step with
  | noQuery at' none => exact ⟨fun _ loops => by simp [State.go, Place.loops] at loops, rfl⟩
  | strtok at' some | strtokNext at' cursor => exact ⟨fun _ _ => by simp [State.call], rfl⟩
  | sscanf at' | digitalWrite at' =>
    have held := undivided one (by rw [at']; rfl)
    exact ⟨fun _ _ => by simpa [State.go] using held, rfl⟩

private theorem alone_of_reachable (reachable : server.Reachable state) :
    state.connections ≤ 1 → (server.restrict OwnCursor).Reachable state ∧ Undivided state := by
  apply reachable.invariant fun state => state.connections ≤ 1 →
    (server.restrict OwnCursor).Reachable state ∧ Undivided state
  · rintro state initial -
    refine ⟨.start initial, ?_⟩
    intro one
    rw [initial.1] at one
    cases one
  · intro state after held step few
    cases step with
    | accept path =>
      have none : state.connections = 0 := by
        change state.connections + 1 ≤ 1 at few
        omega
      obtain ⟨run, -⟩ := held (by omega)
      refine ⟨run.next ⟨.accept path, ?_⟩, ?_⟩
      · intro thread running
        rw [none] at running
        cases running
      · intro _ loops
        simp [none, Place.loops] at loops
    | handle thread running step =>
      have same : after.connections = state.connections := by cases step <;> rfl
      rw [same] at few
      obtain ⟨run, undivided⟩ := held few
      obtain ⟨rfl, one⟩ : thread = 0 ∧ state.connections = 1 := by omega
      refine ⟨run.next ⟨.handle 0 running step, ?_⟩, (handlerStep_undivided undivided one step).1⟩
      intro other running at' _
      obtain rfl : other = 0 := by omega
      exact undivided one (by rw [at']; rfl)

private theorem scans (reachable : server.Reachable state) (one : state.connections = 1)
    {tok : Pointer} (at' : (state.handlers 0).place = .scanning tok) :
    ∃ after, server.Reachable after ∧ after.connections = 1 ∧ after.requests = state.requests ∧
      (after.handlers 0).place = .advancing ∧ after.cursor = state.cursor ∧
      after.paths = state.paths := by
  have scanned := reachable.next (.handle 0 (by omega) (.sscanf at'))
  cases field : led (cString ((state.paths tok.1).drop tok.2)) with
  | none => exact ⟨_, scanned, one, rfl, by simp [State.go, field], rfl, rfl⟩
  | some level =>
    have written := scanned.next (.handle 0 (show 0 < state.connections by omega)
      (@HandlerStep.digitalWrite _ _ level (by simp [State.go, field])))
    exact ⟨_, written, one, rfl, by simp [State.go], rfl, rfl⟩

private theorem finishes (fields : List (List Char)) {state : State} {offset : Nat}
    (called : server.Reachable (state.call 0 0 offset)) (one : state.connections = 1)
    (ahead : tokens ['&'] (cString ((state.paths 0).drop offset)) = fields) :
    ∃ after, server.Reachable after ∧ after.connections = 1 ∧
      after.requests = state.requests ∧ (after.handlers 0).place = .done := by
  induction fields generalizing state offset with
  | nil =>
    refine ⟨_, called, one, rfl, ?_⟩
    simp [State.call, Place.behind, strtok_none ahead]
  | cons field fields ih =>
    obtain ⟨start, token, string, behind⟩ := strtok_some ahead
    have scanning : ((state.call 0 0 offset).handlers 0).place = .scanning (0, start) := by
      simp [State.call, Place.behind, token]
    obtain ⟨looped, run, one', requests, place, cursor, paths⟩ := scans called one scanning
    have next := run.next (.handle 0 (by omega) (.strtokNext place cursor))
    obtain ⟨after, reached, still, kept, done⟩ := ih next one' (by
      rw [paths]
      simpa [State.call] using behind)
    exact ⟨after, reached, still, kept.trans requests, done⟩

theorem alone_iff (path : CString) (writes : List Level) :
    Alone path writes ↔ writes = ledWrites (query path) := by
  have only : ∀ {writes}, Alone path writes → writes = ledWrites (query path) := by
    rintro _ ⟨state, reachable, one, rfl, done, rfl⟩
    have separate := separate_of_reachable (alone_of_reachable reachable (by omega)).1
    have follows := separate 0 (by omega)
    simpa only [Handler.follows, done] using follows
  refine ⟨only, ?_⟩
  rintro rfl
  have start : server.Reachable ⟨fun _ => path, fun _ => [], fun _ => ⟨.done, none, []⟩, 0, none⟩ :=
    .start ⟨rfl, rfl⟩
  have accepted := start.next (.accept path)
  have ends : ∃ after, server.Reachable after ∧ after.connections = 1 ∧
      after.requests 0 = path ∧ (after.handlers 0).place = .done := by
    cases some : queryAt path with
    | none =>
      have ended := accepted.next (.handle 0 Nat.one_pos (.noQuery (by simp) (by simpa using some)))
      exact ⟨_, ended, rfl, by simp [State.go], by simp [State.go]⟩
    | some start =>
      have called := accepted.next (.handle 0 Nat.one_pos (.strtok (by simp) (by simpa using some)))
      obtain ⟨after, reached, one, requests, done⟩ := finishes _ called rfl rfl
      exact ⟨after, reached, one, by rw [requests]; simp, done⟩
  obtain ⟨after, reached, one, request, done⟩ := ends
  have alone : Alone path (after.handlers 0).writes := ⟨after, reached, one, request, done, rfl⟩
  rw [← only alone]
  exact alone

/-- In every run in which each thread goes on in its own query, each has written what its
query gives alone, or a part of that from the start on. -/
theorem writes_alone (reachable : (server.restrict OwnCursor).Reachable state)
    (running : thread < state.connections) :
    (∀ writes, Alone (state.requests thread) writes → (state.handlers thread).writes <+: writes) ∧
      ((state.handlers thread).place = .done →
        Alone (state.requests thread) (state.handlers thread).writes) := by
  have follows := separate_of_reachable reachable thread running
  simp only [alone_iff, forall_eq]
  unfold Handler.follows at follows
  constructor
  · cases place : (state.handlers thread).place with
    | starting =>
      simp only [place] at follows
      rw [follows.1]
      exact List.nil_prefix
    | scanning tok =>
      simp only [place] at follows
      obtain ⟨offset, -, -, rest⟩ := follows
      rw [← rest, List.append_assoc]
      exact List.prefix_append _ _
    | writing level =>
      simp only [place] at follows
      obtain ⟨offset, -, rest⟩ := follows
      rw [← rest, List.append_assoc]
      exact List.prefix_append _ _
    | advancing =>
      simp only [place] at follows
      obtain ⟨offset, -, rest⟩ := follows
      rw [← rest]
      exact List.prefix_append _ _
    | done =>
      simp only [place] at follows
      exact follows ▸ List.prefix_refl _
  · intro done
    simpa only [done] using follows

private instance : Decidable (OwnCursor state after) :=
  inferInstanceAs (Decidable (∀ thread, thread < state.connections →
    (state.handlers thread).place = .advancing →
      (after.handlers thread).place ≠ .advancing → state.cursor = (state.handlers thread).last))

/-- Two connections are there at once; the second thread starts with its query when the first
one is through. -/
theorem writes_alone_on : ∃ state : State, (state.handlers 0).writes = [.high] ∧
    (state.handlers 1).writes = [.low] ∧
      Alone (state.requests 0) (state.handlers 0).writes ∧
        Alone (state.requests 1) (state.handlers 1).writes := by
  have start : (server.restrict OwnCursor).Reachable
      ⟨fun _ => .of [], fun _ => [], fun _ => ⟨.done, none, []⟩, 0, none⟩ := .start ⟨rfl, rfl⟩
  have first := start.next ⟨.accept (.of "/?led=On".toList), by decide⟩
  have second := first.next ⟨.accept (.of "/?led=Off".toList), by decide⟩
  have begun := second.next ⟨.handle 0 (by decide) (.strtok rfl rfl), by decide⟩
  have scanned := begun.next ⟨.handle 0 (by decide) (.sscanf rfl), by decide⟩
  have on := scanned.next ⟨.handle 0 (by decide) (.digitalWrite rfl), by decide⟩
  have through := on.next ⟨.handle 0 (by decide) (.strtokNext rfl rfl), by decide⟩
  have other := through.next ⟨.handle 1 (by decide) (.strtok rfl rfl), by decide⟩
  have read := other.next ⟨.handle 1 (by decide) (.sscanf rfl), by decide⟩
  have off := read.next ⟨.handle 1 (by decide) (.digitalWrite rfl), by decide⟩
  have run := off.next ⟨.handle 1 (by decide) (.strtokNext rfl rfl), by decide⟩
  exact ⟨_, rfl, rfl, (writes_alone run (by decide)).2 rfl, (writes_alone run (by decide)).2 rfl⟩

/-- A thread is cut short by another one that starts with its query in between. -/
theorem not_alone_interrupted : ¬ ∀ state, server.Reachable state →
    ∀ thread, thread < state.connections → (state.handlers thread).place = .done →
      Alone (state.requests thread) (state.handlers thread).writes := by
  intro always
  have start : server.Reachable
      ⟨fun _ => .of [], fun _ => [], fun _ => ⟨.done, none, []⟩, 0, none⟩ := .start ⟨rfl, rfl⟩
  have first := start.next (.accept (.of ['?', 'a', '&', 'l', 'e', 'd', '=', 'O', 'n']))
  have second := first.next (.accept (.of ['?', 'b']))
  have begun := second.next (.handle 0 (by decide) (.strtok rfl rfl))
  have between := begun.next (.handle 1 (by decide) (.strtok rfl rfl))
  have scanned := between.next (.handle 0 (by decide) (.sscanf rfl))
  have cut := scanned.next (.handle 0 (by decide) (.strtokNext rfl rfl))
  have alone := (alone_iff _ _).mp (always _ cut 0 (by decide) rfl)
  cases alone

end Lsnp.WebServer
