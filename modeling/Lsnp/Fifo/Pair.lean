import Lsnp.Interaction.Machine
import Lsnp.Libc.Stdio

/-! The two programs `ch07/ex04-1.c` and `ch07/ex04-2.c`: one writes what is typed into a FIFO, the
other one prints what it reads there. A step is one library call of either. -/

namespace Lsnp.Fifo

open Lsnp.Interaction Lsnp.Libc

/-- The size that `fgets` is given, and the count that `read` is. -/
def SIZE : Nat := 1023

/-- Where the sender is; it has failed as well where `SIGPIPE` has ended it. -/
inductive Sender where
  | making
  | opening
  | prompting
  | writing
  | closing
  | done
  | failed
  deriving DecidableEq

/-- Where the receiver is; it has failed where it has called `exit`. -/
inductive Receiver where
  | making
  | opening
  | reading
  | printing (rcvmsg : List Char)
  | ending
  | done
  | failed
  deriving DecidableEq

def Sender.writes : Sender → Bool
  | .prompting | .writing | .closing => true
  | _ => false

def Receiver.reads : Receiver → Bool
  | .reading | .printing _ | .ending => true
  | _ => false

/-- What is in the FIFO; where the programs are; what is left to be read and what is in `msg`; and
what was written, read and printed. -/
structure State where
  fifo : List Char
  sender : Sender
  receiver : Receiver
  stdin : List Char
  msg : CString
  sent : List CString
  chunks : List (List Char)
  printed : List Char

def isQuit (text : CString) : Bool := text.starts "quit".toList

/-- At the end of the input `msg` stays as it is. -/
def State.read (state : State) : State :=
  match fgets SIZE state.stdin with
  | none => state
  | some (read, rest) => { state with msg := .of read, stdin := rest }

/-- `ex04-1.c`. What it writes is no longer than `PIPE_BUF` and goes into the FIFO as a whole. -/
inductive SenderStep (capacity : Nat) (state : State) : State → Prop where
  | mkfifo (at' : state.sender = .making) : SenderStep capacity state { state with sender := .opening }
  | fails (at' : state.sender = .making ∨ state.sender = .opening) :
      SenderStep capacity state { state with sender := .failed }
  | fgets (at' : state.sender = .prompting) :
      SenderStep capacity state { state.read with
        sender := if isQuit state.read.msg then .closing else .writing }
  | write (at' : state.sender = .writing) (room : state.msg.chars ≠ [] →
        state.receiver.reads = true ∧ state.fifo.length + state.msg.chars.length ≤ capacity) :
      SenderStep capacity state { state with
        sender := .prompting
        fifo := state.fifo ++ state.msg.chars
        sent := state.sent ++ [state.msg] }
  | killed (at' : state.sender = .writing) (some : state.msg.chars ≠ [])
      (none : state.receiver.reads = false) : SenderStep capacity state { state with sender := .failed }
  | close (at' : state.sender = .closing) : SenderStep capacity state { state with sender := .done }

def prompt : List Char := "namedpipe2> ".toList

/-- `ex04-2.c` -/
inductive ReceiverStep (state : State) : State → Prop where
  | mkfifo (at' : state.receiver = .making) : ReceiverStep state { state with receiver := .opening }
  | fails (at' : state.receiver = .making ∨ state.receiver = .opening ∨ state.receiver = .reading) :
      ReceiverStep state { state with receiver := .failed }
  | read (at' : state.receiver = .reading) (some : state.fifo ≠ []) :
      ReceiverStep state { state with
        receiver := .printing (state.fifo.take SIZE)
        fifo := state.fifo.drop SIZE
        chunks := state.chunks ++ [state.fifo.take SIZE] }
  -- Nobody has it open for writing any more.
  | eof (at' : state.receiver = .reading) (empty : state.fifo = [])
      (closed : state.sender.writes = false) : ReceiverStep state { state with receiver := .ending }
  | print {rcvmsg : List Char} (at' : state.receiver = .printing rcvmsg) :
      ReceiverStep state { state with
        receiver := .reading
        printed := state.printed ++ prompt ++ rcvmsg }
  | finish (at' : state.receiver = .ending) :
      ReceiverStep state { state with receiver := .done, printed := state.printed ++ ['\n'] }

/-- Each `open` waits for that of the other program. -/
inductive Step (capacity : Nat) (state : State) : State → Prop where
  | sender {after : State} (step : SenderStep capacity state after) : Step capacity state after
  | receiver {after : State} (step : ReceiverStep state after) : Step capacity state after
  | opened (sender : state.sender = .opening) (receiver : state.receiver = .opening) :
      Step capacity state { state with sender := .prompting, receiver := .reading }

/-- Nothing has been done yet, and there is this text to be typed. -/
def pair (capacity : Nat) (stdin : List Char) (msg : CString) : Machine State where
  initial := (· = ⟨[], .making, .making, stdin, msg, [], [], []⟩)
  step := Step capacity

/-- The strings that come into `msg`. -/
def typed (stdin : List Char) : List CString := (pieces SIZE stdin).map .of

/-- The strings that come into `msg`, and the last one again for each `fgets` at the end. -/
def repeated (stdin : List Char) (msg : CString) (times : Nat) : List CString :=
  typed stdin ++ List.replicate times ((typed stdin).getLastD msg)

/-- The messages in front of the first one that begins with `quit`. -/
def upToQuit (messages : List CString) : List CString := messages.takeWhile fun one => !isQuit one

def bytes (messages : List CString) : List Char := messages.flatMap CString.chars

def State.left (state : State) (messages : List CString) : Nat :=
  (match state.sender with
    | .making => 2 * messages.length + 4
    | .opening => 2 * messages.length + 3
    | .prompting => 2 * (messages.length - state.sent.length) + 2
    | .writing => 2 * (messages.length - state.sent.length) + 1
    | .closing => 1
    | .done | .failed => 0) +
  match state.receiver with
    | .making => 2 * (bytes messages).length + 4
    | .opening => 2 * (bytes messages).length + 3
    | .reading => 2 * ((bytes messages).length - state.chunks.flatten.length) + 2
    | .printing _ => 2 * ((bytes messages).length - state.chunks.flatten.length) + 3
    | .ending => 1
    | .done | .failed => 0

def Receiver.pending : Receiver → List (List Char)
  | .printing rcvmsg => [rcvmsg]
  | _ => []

/-- What is typed in front of a `quit` gets through whole and in order, however it is cut; what is
printed is what was read; no program that has not failed is ended or left waiting; and with a `quit`
both come to their ends. -/
structure Passes (capacity : Nat) (stdin : List Char) (msg : CString) (state : State) : Prop where
  whole : state.chunks.flatten ++ state.fifo = bytes state.sent
  sent : ∃ times, state.sent <+: upToQuit (repeated stdin msg times)
  chunks : ∀ chunk ∈ state.chunks, chunk ≠ [] ∧ chunk.length ≤ SIZE
  printed : state.printed ++ state.receiver.pending.flatMap (prompt ++ ·) =
    state.chunks.flatMap (prompt ++ ·) ++ if state.receiver = .done then ['\n'] else []
  all : state.receiver = .done → ∃ times, (∃ one ∈ repeated stdin msg times, isQuit one = true) ∧
    state.chunks.flatten = bytes (upToQuit (repeated stdin msg times))
  alive : state.sender = .writing → state.receiver.reads = true ∨ state.receiver = .failed
  goesOn : SIZE ≤ capacity → state.sender ≠ .failed → state.receiver ≠ .failed →
    state.sender = .done ∧ state.receiver = .done ∨ ∃ after, Step capacity state after
  shorter : (∃ one ∈ typed stdin, isQuit one = true) → ∀ after, Step capacity state after →
    after.left (upToQuit (typed stdin)) < state.left (upToQuit (typed stdin))

section

variable {stdin : List Char} {msg : CString} {times : Nat} {sent rest : List CString}

theorem getLastD_repeated (stdin : List Char) (msg : CString) (times : Nat) :
    (repeated stdin msg times).getLastD msg = (typed stdin).getLastD msg := by
  cases times with
  | zero => simp [repeated]
  | succ times => rw [repeated, List.replicate_succ', ← List.append_assoc, List.getLastD_concat]

theorem repeated_succ (stdin : List Char) (msg : CString) (times : Nat) :
    repeated stdin msg (times + 1) =
      repeated stdin msg times ++ [(typed stdin).getLastD msg] := by
  rw [repeated, List.replicate_succ', ← List.append_assoc, repeated]

theorem upToQuit_append (plain : ∀ one ∈ sent, isQuit one = false) (rest : List CString) :
    upToQuit (sent ++ rest) = sent ++ upToQuit rest :=
  List.takeWhile_append_of_pos fun one member => by rw [plain one member]; rfl

theorem upToQuit_repeated (quits : ∃ one ∈ typed stdin, isQuit one = true) (msg : CString)
    (times : Nat) : upToQuit (repeated stdin msg times) = upToQuit (typed stdin) := by
  have short : ((typed stdin).takeWhile fun one => !isQuit one).length ≠ (typed stdin).length := by
    intro same
    have all := (List.takeWhile_prefix _).eq_of_length same
    obtain ⟨one, member, quit⟩ := quits
    rw [← all] at member
    have plain := List.mem_takeWhile_imp member
    rw [quit] at plain
    cases plain
  rw [upToQuit, repeated, List.takeWhile_append, if_neg short, upToQuit]

end

def State.Sends (state : State) (stdin : List Char) (msg : CString) : Prop :=
  match state.sender with
  | .making | .opening => state.sent = [] ∧ state.stdin = stdin ∧ state.msg = msg
  | .prompting => state.msg = state.sent.getLastD msg ∧
      ∃ times, repeated stdin msg times = state.sent ++ typed state.stdin
  | .writing => isQuit state.msg = false ∧
      ∃ times, repeated stdin msg times = state.sent ++ state.msg :: typed state.stdin
  | .closing | .done => isQuit state.msg = true ∧
      ∃ times rest, repeated stdin msg times = state.sent ++ state.msg :: rest
  | .failed => ∃ times rest, repeated stdin msg times = state.sent ++ rest

/-- Who has the FIFO open; the receiver has only come behind its loop with nothing left. -/
structure Joint (sender : Sender) (receiver : Receiver) (fifo : List Char) : Prop where
  reads : receiver.reads = true → sender.writes = true ∨ sender = .done
  writes : sender.writes = true ∨ sender = .done →
    receiver.reads = true ∨ receiver = .done ∨ receiver = .failed
  finished : receiver = .ending ∨ receiver = .done → sender = .done ∧ fifo = []

structure Kept (stdin : List Char) (msg : CString) (state : State) : Prop where
  whole : state.chunks.flatten ++ state.fifo = bytes state.sent
  plain : ∀ one ∈ state.sent, isQuit one = false
  sends : state.Sends stdin msg
  chunks : ∀ chunk ∈ state.chunks, chunk ≠ [] ∧ chunk.length ≤ SIZE
  printed : state.printed ++ state.receiver.pending.flatMap (prompt ++ ·) =
    state.chunks.flatMap (prompt ++ ·) ++ if state.receiver = .done then ['\n'] else []
  joint : Joint state.sender state.receiver state.fifo

section

variable {sender other : Sender} {receiver next : Receiver} {fifo rest : List Char}

theorem Joint.shut (joint : Joint sender receiver fifo)
    (closed : sender.writes = false ∨ receiver.reads = false) (undone : sender ≠ .done)
    (still : other.writes = false) (open' : other ≠ .done) : Joint other receiver rest := by
  have away : receiver.reads = false := by
    refine Bool.eq_false_iff.mpr fun reads => ?_
    rcases closed with closed | closed
    · rcases joint.reads reads with writes | done
      · exact Bool.false_ne_true (closed.symm.trans writes)
      · exact undone done
    · exact Bool.false_ne_true (closed.symm.trans reads)
  refine ⟨fun reads => ?_, fun writes => ?_, fun finished => (undone (joint.finished finished).1).elim⟩
  · exact (Bool.false_ne_true (away.symm.trans reads)).elim
  · rcases writes with writes | done
    · exact (Bool.false_ne_true (still.symm.trans writes)).elim
    · exact (open' done).elim

theorem Joint.loop (joint : Joint sender receiver fifo) (writes : sender.writes = true)
    (still : other.writes = true ∨ other = .done) : Joint other receiver rest := by
  refine ⟨fun _ => still, fun _ => joint.writes (.inl writes), fun finished => ?_⟩
  rw [(joint.finished finished).1] at writes
  cases writes

theorem Joint.turn (joint : Joint sender receiver fifo) (reads : receiver.reads = true)
    (still : next.reads = true) (inside : next ≠ .ending) : Joint sender next rest := by
  refine ⟨fun _ => joint.reads reads, fun _ => .inl still, fun finished => ?_⟩
  rcases finished with ending | done
  · exact (inside ending).elim
  · rw [done] at still
    cases still

end

variable {capacity : Nat} {stdin : List Char} {msg : CString} {state after : State}

theorem State.Sends.begins (sends : state.Sends stdin msg) :
    ∃ times rest, repeated stdin msg times = state.sent ++ rest := by
  unfold State.Sends at sends
  split at sends
  · exact ⟨0, _, by rw [sends.1]; rfl⟩
  · exact ⟨0, _, by rw [sends.1]; rfl⟩
  · obtain ⟨-, times, same⟩ := sends
    exact ⟨times, _, same⟩
  · obtain ⟨-, times, same⟩ := sends
    exact ⟨times, _, same⟩
  · obtain ⟨-, times, rest, same⟩ := sends
    exact ⟨times, _, same⟩
  · obtain ⟨-, times, rest, same⟩ := sends
    exact ⟨times, _, same⟩
  · exact sends

theorem Kept.sent (kept : Kept stdin msg state) :
    ∃ times, state.sent <+: upToQuit (repeated stdin msg times) := by
  obtain ⟨times, rest, same⟩ := kept.sends.begins
  refine ⟨times, ?_⟩
  rw [same, upToQuit_append kept.plain]
  exact List.prefix_append _ _

theorem Kept.through (kept : Kept stdin msg state) (done : state.sender = .closing ∨ state.sender = .done) :
    ∃ times, (∃ one ∈ repeated stdin msg times, isQuit one = true) ∧
      state.sent = upToQuit (repeated stdin msg times) := by
  have sends := kept.sends
  have closed : isQuit state.msg = true ∧
      ∃ times rest, repeated stdin msg times = state.sent ++ state.msg :: rest := by
    rcases done with done | done <;> rwa [State.Sends, done] at sends
  obtain ⟨quit, times, rest, same⟩ := closed
  refine ⟨times, ⟨state.msg, by simp [same], quit⟩, ?_⟩
  rw [same, upToQuit_append kept.plain, upToQuit, List.takeWhile_cons, quit]
  simp

private theorem read_next {times : Nat} (last : state.msg = state.sent.getLastD msg)
    (same : repeated stdin msg times = state.sent ++ typed state.stdin) :
    ∃ buf rest times, state.read = { state with msg := buf, stdin := rest } ∧
      repeated stdin msg times = state.sent ++ buf :: typed rest := by
  unfold State.read
  cases found : fgets SIZE state.stdin with
  | none =>
    have empty : typed state.stdin = [] := by rw [typed, pieces_eq_nil found]; rfl
    rw [empty, List.append_nil] at same
    refine ⟨state.msg, state.stdin, times + 1, rfl, ?_⟩
    rw [repeated_succ, ← getLastD_repeated stdin msg times, same, ← last, empty]
  | some pair =>
    obtain ⟨read, rest⟩ := pair
    refine ⟨.of read, rest, times, rfl, ?_⟩
    rw [same, typed, pieces_eq_cons found]
    rfl

private theorem sender_kept (kept : Kept stdin msg state) (step : SenderStep capacity state after) :
    Kept stdin msg after := by
  have begins := kept.sends.begins
  obtain ⟨whole, plain, sends, chunks, printed, joint⟩ := kept
  cases step with
  | mkfifo at' =>
    rw [State.Sends, at'] at sends
    rw [at'] at joint
    exact ⟨whole, plain, sends, chunks, printed, joint.shut (.inl rfl) nofun rfl nofun⟩
  | fails at' =>
    have early : state.sender.writes = false ∧ state.sender ≠ .done := by
      rcases at' with at' | at' <;> rw [at'] <;> exact ⟨rfl, Sender.noConfusion⟩
    exact ⟨whole, plain, begins, chunks, printed, joint.shut (.inl early.1) early.2 rfl nofun⟩
  | fgets at' =>
    rw [State.Sends, at'] at sends
    rw [at'] at joint
    obtain ⟨last, times, same⟩ := sends
    obtain ⟨buf, rest, times, read, next⟩ := read_next last same
    rw [read]
    by_cases quit : isQuit buf = true
    · simp only [quit, if_true]
      exact ⟨whole, plain, ⟨quit, times, _, next⟩, chunks, printed, joint.loop rfl (.inl rfl)⟩
    · simp only [quit, Bool.false_eq_true, if_false]
      exact ⟨whole, plain, ⟨Bool.eq_false_iff.mpr quit, times, next⟩, chunks, printed,
        joint.loop rfl (.inl rfl)⟩
  | write at' room =>
    rw [State.Sends, at'] at sends
    rw [at'] at joint
    obtain ⟨unquit, times, same⟩ := sends
    refine ⟨?_, ?_, ?_, chunks, printed, joint.loop rfl (.inl rfl)⟩
    · rw [← List.append_assoc, whole]
      simp [bytes]
    · intro one member
      rcases List.mem_append.mp member with before | now
      · exact plain one before
      · obtain rfl := List.mem_singleton.mp now
        exact unquit
    · exact ⟨List.getLastD_concat.symm, times, by rw [same, List.append_assoc]; rfl⟩
  | killed at' some none =>
    rw [at'] at joint
    exact ⟨whole, plain, begins, chunks, printed, joint.shut (.inr none) nofun rfl nofun⟩
  | close at' =>
    rw [State.Sends, at'] at sends
    rw [at'] at joint
    exact ⟨whole, plain, sends, chunks, printed, joint.loop rfl (.inr rfl)⟩

private theorem receiver_kept (kept : Kept stdin msg state) (step : ReceiverStep state after) :
    Kept stdin msg after := by
  obtain ⟨whole, plain, sends, chunks, printed, joint⟩ := kept
  cases step with
  | mkfifo at' =>
    rw [at'] at printed joint
    refine ⟨whole, plain, sends, chunks, printed, nofun, fun writes => ?_, nofun⟩
    rcases joint.writes writes with reads | done | failed
    · cases reads
    · cases done
    · cases failed
  | fails at' =>
    have quiet : state.receiver.pending = [] ∧ state.receiver ≠ .done := by
      rcases at' with at' | at' | at' <;> rw [at'] <;> exact ⟨rfl, Receiver.noConfusion⟩
    rw [quiet.1, if_neg quiet.2] at printed
    exact ⟨whole, plain, sends, chunks, printed, nofun, fun _ => .inr (.inr rfl), nofun⟩
  | read at' some =>
    rw [at'] at printed joint
    have cut : state.fifo.take SIZE ≠ [] := by
      simpa [SIZE] using some
    refine ⟨?_, plain, sends, ?_, ?_, joint.turn rfl rfl nofun⟩
    · rw [← whole, List.flatten_append, List.append_assoc]
      simp
    · intro chunk member
      rcases List.mem_append.mp member with before | now
      · exact chunks chunk before
      · obtain rfl := List.mem_singleton.mp now
        exact ⟨cut, List.length_take_le _ _⟩
    · have before : state.printed = state.chunks.flatMap (prompt ++ ·) := by
        simpa [Receiver.pending] using printed
      simp [Receiver.pending, before]
  | eof at' empty closed =>
    rw [at'] at printed joint
    have through : state.sender = .done := (joint.reads rfl).resolve_left (Bool.eq_false_iff.mp closed)
    exact ⟨whole, plain, sends, chunks, printed, fun _ => .inr through, fun _ => .inl rfl,
      fun _ => ⟨through, empty⟩⟩
  | @print rcvmsg at' =>
    rw [at'] at printed joint
    refine ⟨whole, plain, sends, chunks, ?_, joint.turn rfl rfl nofun⟩
    simpa [Receiver.pending] using printed
  | finish at' =>
    rw [at'] at printed joint
    have before : state.printed = state.chunks.flatMap (prompt ++ ·) := by simpa [Receiver.pending] using printed
    refine ⟨whole, plain, sends, chunks, ?_, nofun, fun _ => .inr (.inl rfl), fun _ => joint.finished (.inl rfl)⟩
    simp [Receiver.pending, before]

theorem kept (reachable : (pair capacity stdin msg).Reachable state) : Kept stdin msg state := by
  refine reachable.invariant (Kept stdin msg) ?_ ?_
  · rintro _ rfl
    exact ⟨rfl, nofun, ⟨rfl, rfl, rfl⟩, nofun, rfl, nofun, nofun, nofun⟩
  · intro state after kept step
    cases step with
    | sender step => exact sender_kept kept step
    | receiver step => exact receiver_kept kept step
    | opened sender receiver =>
      obtain ⟨whole, plain, sends, chunks, printed, joint⟩ := kept
      rw [State.Sends, sender] at sends
      rw [receiver] at printed
      obtain ⟨none, rfl, rfl⟩ := sends
      refine ⟨whole, plain, ⟨?_, 0, ?_⟩, chunks, printed, fun _ => .inl rfl, fun _ => .inl rfl, nofun⟩
      · change state.msg = state.sent.getLastD state.msg
        rw [none]
        rfl
      · change repeated state.stdin state.msg 0 = state.sent ++ typed state.stdin
        rw [none, repeated]
        exact List.append_nil _

private theorem short {times : Nat} {message : CString} (fits : msg.chars.length ≤ SIZE)
    (member : message ∈ repeated stdin msg times) : message.chars.length ≤ SIZE := by
  have typedShort : ∀ one ∈ typed stdin, one.chars.length ≤ SIZE := by
    intro one member
    obtain ⟨piece, among, rfl⟩ := List.mem_map.mp member
    have less := length_lt_of_mem_pieces (by decide : 1 < SIZE) stdin among
    exact Nat.le_trans (length_cString_le piece) (Nat.le_of_lt less)
  rcases List.mem_append.mp member with member | member
  · exact typedShort message member
  · obtain rfl := List.eq_of_mem_replicate member
    rcases List.eq_nil_or_concat (typed stdin) with empty | ⟨front, last, whole⟩
    · rw [empty]
      exact fits
    · rw [whole, List.concat_eq_append, List.getLastD_concat]
      exact typedShort last (by simp [whole])

private theorem goesOn (kept : Kept stdin msg state) (fits : msg.chars.length ≤ SIZE)
    (roomy : SIZE ≤ capacity) (sender : state.sender ≠ .failed) (receiver : state.receiver ≠ .failed) :
    state.sender = .done ∧ state.receiver = .done ∨ ∃ after, Step capacity state after := by
  have joint := kept.joint
  cases place : state.receiver with
  | failed => exact (receiver place).elim
  | making => exact .inr ⟨_, .receiver (.mkfifo place)⟩
  | printing rcvmsg => exact .inr ⟨_, .receiver (.print place)⟩
  | ending => exact .inr ⟨_, .receiver (.finish place)⟩
  | done => exact .inl ⟨(joint.finished (.inr place)).1, rfl⟩
  | opening =>
    rw [place] at joint
    cases at' : state.sender with
    | making => exact .inr ⟨_, .sender (.mkfifo at')⟩
    | opening => exact .inr ⟨_, .opened at' place⟩
    | failed => exact (sender at').elim
    | prompting | writing | closing | done =>
      rw [at'] at joint
      rcases joint.writes (by decide) with reads | done | failed
      · cases reads
      · cases done
      · cases failed
  | reading =>
    right
    rw [place] at joint
    by_cases empty : state.fifo = []
    · cases at' : state.sender with
      | making | opening | failed =>
        rw [at'] at joint
        rcases joint.reads rfl with writes | done
        · cases writes
        · cases done
      | done => exact ⟨_, .receiver (.eof place empty (by rw [at']; rfl))⟩
      | prompting => exact ⟨_, .sender (.fgets at')⟩
      | closing => exact ⟨_, .sender (.close at')⟩
      | writing =>
        have sends := kept.sends
        rw [State.Sends, at'] at sends
        obtain ⟨-, times, same⟩ := sends
        have enough : state.msg.chars.length ≤ SIZE := short fits (by rw [same]; simp)
        refine ⟨_, .sender (.write at' fun _ => ⟨by rw [place]; rfl, ?_⟩)⟩
        rw [empty, List.length_nil, Nat.zero_add]
        exact Nat.le_trans enough roomy
    · exact ⟨_, .receiver (.read place empty)⟩

private theorem shorter (kept : Kept stdin msg state) (quits : ∃ one ∈ typed stdin, isQuit one = true)
    (step : Step capacity state after) :
    after.left (upToQuit (typed stdin)) < state.left (upToQuit (typed stdin)) := by
  have few : state.sent <+: upToQuit (typed stdin) := by
    obtain ⟨times, sent⟩ := kept.sent
    rwa [upToQuit_repeated quits] at sent
  have fewer := few.length_le
  have less : state.chunks.flatten.length + state.fifo.length ≤ (bytes (upToQuit (typed stdin))).length := by
    obtain ⟨rest, all⟩ := few
    rw [← List.length_append, kept.whole, ← all]
    simp [bytes]
  have next : state.sender = .writing → state.sent.length < (upToQuit (typed stdin)).length := by
    intro at'
    have sends := kept.sends
    rw [State.Sends, at'] at sends
    obtain ⟨unquit, times, same⟩ := sends
    rw [← upToQuit_repeated quits msg times, same, upToQuit_append kept.plain, List.length_append, upToQuit,
      List.takeWhile_cons, unquit]
    simp
  cases step with
  | sender step =>
    cases step with
    | mkfifo at' | close at' | killed at' =>
      simp only [State.left, at']
      omega
    | fails at' =>
      rcases at' with at' | at' <;> simp only [State.left, at'] <;> omega
    | fgets at' =>
      have same : state.read.sent = state.sent ∧ state.read.receiver = state.receiver ∧
          state.read.chunks = state.chunks := by
        unfold State.read
        split <;> exact ⟨rfl, rfl, rfl⟩
      by_cases quit : isQuit state.read.msg = true <;>
        simp only [State.left, at', same, quit, if_true, Bool.false_eq_true, if_false] <;> omega
    | write at' room =>
      have more := next at'
      simp only [State.left, at', List.length_append, List.length_singleton]
      omega
  | receiver step =>
    cases step with
    | mkfifo at' | print at' | finish at' =>
      simp only [State.left, at']
      omega
    | eof at' =>
      simp only [State.left, at']
      omega
    | fails at' =>
      rcases at' with at' | at' | at' <;> simp only [State.left, at'] <;> omega
    | read at' some =>
      have cut : 0 < (state.fifo.take SIZE).length := by
        rw [List.length_take]
        have filled := List.length_pos_iff.mpr some
        exact Nat.lt_min.mpr ⟨by decide, filled⟩
      have part := List.length_take_le' SIZE state.fifo
      simp only [State.left, at', List.flatten_append, List.flatten_cons, List.flatten_nil,
        List.append_nil, List.length_append]
      omega
  | opened sender receiver =>
    simp only [State.left, sender, receiver]
    omega

/-- In every run of the two programs, started in any order. -/
theorem passes (fits : msg.chars.length ≤ SIZE) (reachable : (pair capacity stdin msg).Reachable state) :
    Passes capacity stdin msg state := by
  have kept := kept reachable
  refine {
    whole := kept.whole
    sent := kept.sent
    chunks := kept.chunks
    printed := kept.printed
    all := fun done => ?_
    alive := fun writing => ?_
    goesOn := goesOn kept fits
    shorter := fun quits after => shorter kept quits }
  · obtain ⟨through, empty⟩ := kept.joint.finished (.inr done)
    obtain ⟨times, quits, sent⟩ := kept.through (.inr through)
    refine ⟨times, quits, ?_⟩
    rw [← sent, ← kept.whole, empty, List.append_nil]
  · have joint := kept.joint
    rw [writing] at joint
    refine (joint.writes (.inl rfl)).imp_right fun finished => finished.resolve_left fun done => ?_
    exact Sender.noConfusion (joint.finished (.inr done)).1

/-- A line and a `quit`, with both programs at their ends. -/
theorem passes_quit : ∃ state, (pair SIZE "a\nquit\n".toList (.of [])).Reachable state ∧
    state.sender = .done ∧ state.receiver = .done ∧
    Passes SIZE "a\nquit\n".toList (.of []) state := by
  let rest := "quit\n".toList
  have started : (pair SIZE "a\nquit\n".toList (.of [])).Reachable
      ⟨[], .making, .making, "a\nquit\n".toList, .of [], [], [], []⟩ := .start rfl
  have made := (started.next (.sender (.mkfifo rfl))).next (.receiver (.mkfifo rfl))
  have opened := made.next (.opened rfl rfl)
  let line : State := ⟨[], .writing, .reading, rest, .of ['a', '\n'], [], [], []⟩
  have got : (pair SIZE "a\nquit\n".toList (.of [])).Reachable line := opened.next (.sender (.fgets rfl))
  have sent := got.next (.sender (.write rfl fun _ => ⟨rfl, by decide⟩))
  have cut := (sent.next (.receiver (.read rfl (by decide)))).next (.receiver (.print rfl))
  let quit : State := ⟨[], .closing, .reading, [], .of rest, [.of ['a', '\n']], [['a', '\n']],
    prompt ++ ['a', '\n']⟩
  have last : (pair SIZE "a\nquit\n".toList (.of [])).Reachable quit := cut.next (.sender (.fgets rfl))
  have closed := (last.next (.sender (.close rfl))).next (.receiver (.eof rfl rfl rfl))
  have ended := closed.next (.receiver (.finish rfl))
  exact ⟨_, ended, rfl, rfl, passes (by decide) ended⟩

end Lsnp.Fifo
