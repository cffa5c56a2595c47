import Lsnp.Chatting.Programs

namespace Lsnp.Chatting

open Lsnp.Interaction Lsnp.Libc

/-- The chat with what is on its two descriptors; the `rest` that it holds itself is what is in
the buffer of `stdin`. `gone` tells that the peer sends no more. -/
structure Session where
  chat : State
  inFgets : Bool
  arriving : List Char
  available : List Char
  closed : Bool
  inbox : List Char
  gone : Bool

/-- The loop is in front of its `select` or `poll`. -/
structure Session.Idle (session : Session) : Prop where
  running : session.chat.ended = none
  outside : session.inFgets = false

def Session.ready (session : Session) : Prop :=
  session.available ≠ [] ∨ session.closed = true

/-- Neither descriptor can be read, and the loop sleeps. -/
structure Session.Asleep (session : Session) : Prop where
  idle : session.Idle
  nothing : session.available = [] ∧ session.closed = false
  silent : session.inbox = [] ∧ session.gone = false

/-- `fgets` returns with what is in the buffer. -/
def Session.served (session : Session) : Prop :=
  Enough BUFF_SIZE session.chat.rest ∨ session.available = [] ∧ session.closed = true

/-- What happens on a descriptor, and the steps of the loop. -/
inductive Turn (program : Program) (session : Session) : Session → Prop where
  | arrive (bytes rest : List Char) (split : session.arriving = bytes ++ rest) :
      Turn program session { session with
        arriving := rest
        available := session.available ++ bytes }
  | close (nothing : session.arriving = []) : Turn program session { session with closed := true }
  | peerSends (bytes : List Char) (more : session.gone = false) :
      Turn program session { session with inbox := session.inbox ++ bytes }
  | peerEnds : Turn program session { session with gone := true }
  | typed (idle : session.Idle) (ready : session.ready) :
      Turn program session { session with inFgets := true }
  | fill (inside : session.inFgets = true) (short : ¬ Enough BUFF_SIZE session.chat.rest)
      (some : session.available ≠ []) :
      Turn program session { session with
        chat := { session.chat with rest := session.chat.rest ++ session.available }
        available := [] }
  | relay (inside : session.inFgets = true) (served : session.served) :
      Turn program session { session with
        chat := session.chat.relay.test program
        inFgets := false }
  | sendFails (inside : session.inFgets = true) (served : session.served) :
      Turn program session { session with
        chat := session.chat.relay.leave program .sendFailed []
        inFgets := false }
  | received (idle : session.Idle) (unready : ¬ session.ready) (bytes rest : List Char)
      (split : session.inbox = bytes ++ rest) (some : bytes ≠ [])
      (short : bytes.length ≤ BUFF_SIZE - 1) :
      Turn program session { session with
        chat := session.chat.print program bytes
        inbox := rest }
  | recvFails (idle : session.Idle) (unready : ¬ session.ready) (gone : session.gone = true) :
      Turn program session { session with chat := session.chat.leave program .recvFailed [] }
  | cut (idle : session.Idle) (unready : ¬ session.ready) (empty : session.inbox = [])
      (gone : session.gone = true) :
      Turn program session { session with chat := session.chat.leave program .cut "CUT.\n".toList }
  | neither (idle : session.Idle) (polls : program.wait = .poll) :
      Turn program session { session with
        chat := session.chat.leave program .neither "오류발생.\n".toList }

/-- The function, with this text to be typed, and any string in the array. -/
def talking (source : Source) (stdin : CString) : Machine Session where
  initial session := session.chat.rest = [] ∧ nul ∉ session.chat.buffer ∧
    session.chat.sent = [] ∧ session.chat.screen = [] ∧ session.chat.ended = none ∧
    session.inFgets = false ∧ session.arriving = stdin.chars ∧ session.available = [] ∧
    session.closed = false ∧ session.inbox = [] ∧ session.gone = false
  step := Turn source.program

variable {program : Program} {session after : Session}

/-- The chat that has all the bytes before it that are still to be read. -/
def Session.whole (session : Session) : State :=
  { session.chat with rest := session.chat.rest ++ (session.available ++ session.arriving) }

private theorem relay_append {state : State} {more : List Char}
    (served : Enough BUFF_SIZE state.rest ∨ more = []) :
    { state with rest := state.rest ++ more }.relay =
      { state.relay with rest := state.relay.rest ++ more } := by
  rcases served with enough | rfl
  · obtain ⟨read, rest, here, there⟩ := fgets_append (by decide) more enough
    simp only [State.relay, here, there]
  · simp only [List.append_nil]

private theorem test_rest (state : State) (rest : List Char) :
    { state with rest := rest }.test program = { state.test program with rest := rest } := by
  unfold State.test
  split
  · rfl
  · rfl

private theorem rest_test (state : State) : (state.test program).rest = state.rest := by
  unfold State.test
  split
  · rfl
  · rfl

/-- Nothing is on the way to a descriptor that is closed, and the loop that has been left
does not read. -/
private structure Sound (session : Session) : Prop where
  shut : session.closed = true → session.arriving = []
  reads : session.inFgets = true → session.chat.ended = none

private theorem Turn.sound (sound : Sound session) (turn : Turn program session after) :
    Sound after := by
  cases turn with
  | arrive bytes rest split =>
    refine ⟨fun closed => ?_, sound.reads⟩
    rw [sound.shut closed] at split
    exact (List.append_eq_nil_iff.mp split.symm).2
  | close nothing => exact ⟨fun _ => nothing, sound.reads⟩
  | peerSends bytes more => exact ⟨sound.shut, sound.reads⟩
  | peerEnds => exact ⟨sound.shut, sound.reads⟩
  | typed idle ready => exact ⟨sound.shut, fun _ => idle.running⟩
  | fill inside short some => exact ⟨sound.shut, sound.reads⟩
  | relay inside served => exact ⟨sound.shut, fun inside => (nomatch inside)⟩
  | sendFails inside served => exact ⟨sound.shut, fun inside => (nomatch inside)⟩
  | received idle unready bytes rest split some short =>
    exact ⟨sound.shut, fun _ => idle.running⟩
  | recvFails idle | cut idle | neither idle =>
    refine ⟨sound.shut, fun inside => ?_⟩
    rw [idle.outside] at inside
    cases inside

private theorem more_of_served (sound : Sound session) (served : session.served) :
    Enough BUFF_SIZE session.chat.rest ∨ session.available ++ session.arriving = [] := by
  rcases served with enough | ⟨nothing, closed⟩
  · exact .inl enough
  · rw [nothing, sound.shut closed]
    exact .inr rfl

theorem Turn.round (sound : Sound session) (turn : Turn program session after) :
    after.whole = session.whole ∨
      session.whole.ended = none ∧ Round program session.whole after.whole := by
  cases turn with
  | arrive bytes rest split =>
    left
    simp [Session.whole, split]
  | close | peerSends | peerEnds | typed => exact .inl rfl
  | fill =>
    left
    simp [Session.whole]
  | relay inside served =>
    right
    refine ⟨sound.reads inside, ?_⟩
    have round : Round program session.whole (session.whole.relay.test program) := .typed
    rw [Session.whole, relay_append (more_of_served sound served), test_rest] at round
    rw [Session.whole, Session.whole, rest_test]
    exact round
  | sendFails inside served =>
    right
    refine ⟨sound.reads inside, ?_⟩
    have round : Round program session.whole (session.whole.relay.leave program .sendFailed []) :=
      .sendFails
    rw [Session.whole, relay_append (more_of_served sound served)] at round
    exact round
  | received idle unready bytes rest split some short =>
    exact .inr ⟨idle.running, .received bytes some short⟩
  | recvFails idle => exact .inr ⟨idle.running, .recvFails⟩
  | cut idle => exact .inr ⟨idle.running, .cut⟩
  | neither idle polls => exact .inr ⟨idle.running, .neither polls⟩

theorem whole_reachable {source : Source} {stdin : CString}
    (reachable : (talking source stdin).Reachable session) :
    (chatting source stdin).Reachable session.whole := by
  have both : Sound session ∧ (chatting source stdin).Reachable session.whole := by
    apply reachable.invariant fun session =>
      Sound session ∧ (chatting source stdin).Reachable session.whole
    · rintro session ⟨rest, buffer, sent, screen, ended, outside, arriving, available, closed, _⟩
      refine ⟨⟨by simp [closed], by simp [outside]⟩, .start ⟨?_, buffer, sent, screen, ended⟩⟩
      simp [Session.whole, rest, available, arriving]
    · rintro session after ⟨sound, reachable⟩ turn
      refine ⟨turn.sound sound, ?_⟩
      rcases turn.round sound with same | round
      · rw [same]
        exact reachable
      · exact reachable.next round
  exact both.2

/-- What `fgets` leaves in the buffer of `stdin`. -/
def State.left (state : State) : List Char :=
  state.rest.drop (piece (BUFF_SIZE - 1) state.rest).length

/-- One line at most, and its newline in what `fgets` can give. -/
def OneLineIn (text : List Char) : Prop :=
  text.count '\n' ≤ 1 ∧ '\n' ∉ text.drop (BUFF_SIZE - 1)

/-- The condition: where `fgets` reads for a loop that goes on, what is available then and what is in
the buffer are one line at most. -/
def OneLine (session after : Session) : Prop :=
  session.inFgets = true → after.Idle → OneLineIn session.chat.rest

/-- No complete line is in the buffer of `stdin` while the loop sleeps. -/
def Awake (session : Session) : Prop :=
  session.Asleep → '\n' ∉ session.chat.rest

theorem plain_left_iff (room : Nat) (text : List Char) :
    '\n' ∉ text.drop (piece room text).length ↔ text.count '\n' ≤ 1 ∧ '\n' ∉ text.drop room := by
  induction room, text using piece.induct with
  | case1 text =>
    refine ⟨fun plain => ⟨?_, plain⟩, fun one => one.2⟩
    have none : text.count '\n' = 0 := List.count_eq_zero.mpr plain
    omega
  | case2 room some => simp
  | case3 room rest =>
    simp only [piece, if_true, List.length_singleton, List.drop_succ_cons, List.drop_zero,
      List.count_cons_self]
    refine ⟨fun plain => ⟨?_, fun behind => plain (List.mem_of_mem_drop behind)⟩, fun one => ?_⟩
    · have none : rest.count '\n' = 0 := List.count_eq_zero.mpr plain
      omega
    · have none : rest.count '\n' = 0 := by omega
      exact List.count_eq_zero.mp none
  | case4 room char rest other ih =>
    rw [piece, if_neg other, List.length_cons, List.drop_succ_cons, List.drop_succ_cons,
      List.count_cons_of_ne other]
    exact ih

theorem State.plain_left {state : State} (one : OneLineIn state.rest) : '\n' ∉ state.left :=
  (plain_left_iff _ _).mpr one

private theorem rest_relay (state : State) : state.relay.rest = state.left := by
  unfold State.relay State.left fgets
  split
  · rename_i none
    split at none
    · rename_i nothing
      rw [nothing]
      rfl
    · cases none
  · rename_i read rest found
    split at found
    · cases found
    · obtain ⟨rfl, rfl⟩ := Prod.mk.inj (Option.some.inj found)
      rfl

/-- Where the loop waits, there is no line in the buffer. -/
private def Drained (session : Session) : Prop :=
  session.Idle → '\n' ∉ session.chat.rest

private theorem Turn.drained (drained : Drained session) (turn : Turn program session after)
    (oneLine : OneLine session after) : Drained after := by
  intro idle
  cases turn with
  | arrive bytes rest split => exact drained ⟨idle.running, idle.outside⟩
  | close nothing => exact drained ⟨idle.running, idle.outside⟩
  | peerSends bytes more => exact drained ⟨idle.running, idle.outside⟩
  | peerEnds => exact drained ⟨idle.running, idle.outside⟩
  | typed _ ready => cases idle.outside
  | fill inside short some =>
    have outside := idle.outside
    rw [inside] at outside
    cases outside
  | relay inside served =>
    show '\n' ∉ (session.chat.relay.test program).rest
    rw [rest_test, rest_relay]
    exact State.plain_left (oneLine inside idle)
  | sendFails inside served => cases idle.running
  | received before unready bytes rest split some short => exact drained before
  | recvFails => cases idle.running
  | cut => cases idle.running
  | neither => cases idle.running

/-- In every run in which `fgets` never has more than one line before it, the loop never sleeps on an
unsent line. -/
theorem awake {source : Source} {stdin : CString}
    (reachable : ((talking source stdin).restrict OneLine).Reachable session) :
    Awake session := by
  have drained : Drained session := by
    apply reachable.invariant Drained
    · rintro session ⟨rest, _⟩ _
      rw [rest]
      exact List.not_mem_nil
    · rintro before after drained ⟨turn, oneLine⟩
      exact turn.drained drained oneLine
  exact fun asleep => drained asleep.idle

private theorem OneLine.outside (outside : session.inFgets = false) : OneLine session after := by
  intro inside
  rw [outside] at inside
  cases inside

private theorem OneLine.inside (inside : after.inFgets = true) : OneLine session after := by
  intro _ idle
  have outside := idle.outside
  rw [inside] at outside
  cases outside

/-- One line, which is sent before the loop sleeps again. -/
theorem awake_one_line : ∃ session,
    ((talking .ex03 ⟨['a', '\n'], by decide⟩).restrict OneLine).Reachable session ∧
      session.Asleep ∧ session.chat.sent = ['a', '\n'] ∧ Awake session := by
  have start : ((talking .ex03 ⟨['a', '\n'], by decide⟩).restrict OneLine).Reachable
      ⟨⟨[], [], [], [], none⟩, false, ['a', '\n'], [], false, [], false⟩ :=
    .start ⟨rfl, List.not_mem_nil, rfl, rfl, rfl, rfl, rfl, rfl, rfl, rfl, rfl⟩
  have run := start
    |>.next ⟨.arrive ['a', '\n'] [] rfl, .outside rfl⟩
    |>.next ⟨.typed ⟨rfl, rfl⟩ (.inl (List.cons_ne_nil _ _)), .outside rfl⟩
    |>.next ⟨.fill rfl (by simp [Enough, BUFF_SIZE, piece]) (List.cons_ne_nil _ _), .inside rfl⟩
    |>.next ⟨.relay rfl (.inl (.inl (by simp [piece, BUFF_SIZE]))), fun _ _ => ⟨by decide, List.not_mem_nil⟩⟩
  exact ⟨_, run, ⟨⟨rfl, rfl⟩, ⟨rfl, rfl⟩, rfl, rfl⟩, rfl, awake run⟩

/-- Two lines that arrive together. -/
theorem not_awake : ¬ ∀ (source : Source) (stdin : CString) (session : Session),
    (talking source stdin).Reachable session → Awake session := by
  intro claimed
  have start : (talking .tcpChattingServer ⟨['a', '\n', 'b', '\n'], by decide⟩).Reachable
      ⟨⟨[], [], [], [], none⟩, false, ['a', '\n', 'b', '\n'], [], false, [], false⟩ :=
    .start ⟨rfl, List.not_mem_nil, rfl, rfl, rfl, rfl, rfl, rfl, rfl, rfl, rfl⟩
  have run := start
    |>.next (.arrive ['a', '\n', 'b', '\n'] [] rfl)
    |>.next (.typed ⟨rfl, rfl⟩ (.inl (List.cons_ne_nil _ _)))
    |>.next (.fill rfl (by simp [Enough, BUFF_SIZE, piece]) (List.cons_ne_nil _ _))
    |>.next (.relay rfl (.inl (.inl (by simp [piece, BUFF_SIZE]))))
  have drained : '\n' ∉ ['b', '\n'] :=
    claimed _ _ _ run ⟨⟨rfl, rfl⟩, ⟨rfl, rfl⟩, rfl, rfl⟩
  exact drained (List.mem_cons_of_mem _ (List.mem_singleton_self _))

end Lsnp.Chatting
