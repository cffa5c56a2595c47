import Lsnp.Interaction.Machine
import Lsnp.Libc.Stdio
import Lsnp.SysV.Objects

/-! The two programs `ch07/ex05-1.c` and `ch07/ex05-2.c`: one sends what is typed through a message
queue, the other one prints it and removes the queue. A step is one library call of either. -/

namespace Lsnp.MsgQueue

open Lsnp.Interaction Lsnp.Libc Lsnp.SysV

/-- The size that `fgets` is given. -/
def SIZE : Nat := 1023

/-- Where the sender is; it has failed if there was no queue to be had. -/
inductive Sender where
  | getting
  | reading (msgid : Nat)
  | sending (msgid : Nat)
  | sleeping
  | done
  | failed
  deriving DecidableEq

/-- Where the receiver is; it has failed as well where `msgrcv` has returned -1, which it uses
as an index. -/
inductive Receiver where
  | getting
  | receiving (msgid : Nat)
  | removing (msgid : Nat)
  | done
  | failed
  deriving DecidableEq

/-- The queue under the key with its messages, all of type 1; where the programs are; what is left
to be read and what is in `buf`; and what was sent and printed. -/
structure State where
  queues : Objects (List CString)
  sender : Sender
  receiver : Receiver
  stdin : List Char
  buf : CString
  sent : List CString
  printed : List CString

def isEnd (text : CString) : Bool := text.starts "end".toList

/-- At the end of the input `buf` stays as it is. -/
def State.read (state : State) : State :=
  match fgets SIZE state.stdin with
  | none => state
  | some (read, rest) => { state with buf := .of read, stdin := rest }

/-- The room that a queue has for another message, in bytes and in messages. -/
def Room (capacity : Nat) (messages : List CString) (message : CString) : Prop :=
  messages.length + 1 ≤ capacity ∧
    (messages.flatMap (·.chars)).length + message.chars.length ≤ capacity

/-- `ex05-1.c` -/
inductive SenderStep (capacity : Nat) (state : State) : State → Prop where
  | get (at' : state.sender = .getting) :
      SenderStep capacity state { state with
        queues := (state.queues.obtain []).1
        sender := .reading (state.queues.obtain []).2 }
  | getFails (at' : state.sender = .getting) : SenderStep capacity state { state with sender := .failed }
  | read {msgid : Nat} (at' : state.sender = .reading msgid) :
      SenderStep capacity state { state.read with sender := .sending msgid }
  | send {msgid : Nat} (at' : state.sender = .sending msgid) (there : state.queues.has msgid)
      (room : Room capacity (state.queues.objects msgid) state.buf) :
      SenderStep capacity state { state with
        queues := state.queues.modify msgid (· ++ [state.buf])
        sender := if isEnd state.buf then .sleeping else .reading msgid
        sent := state.sent ++ [state.buf] }
  -- The queue has been removed, and nobody looks at what `msgsnd` returns.
  | sendFails {msgid : Nat} (at' : state.sender = .sending msgid) (gone : ¬ state.queues.has msgid) :
      SenderStep capacity state { state with
        sender := if isEnd state.buf then .sleeping else .reading msgid }
  | sleep (at' : state.sender = .sleeping) : SenderStep capacity state { state with sender := .done }

/-- `ex05-2.c` -/
inductive ReceiverStep (state : State) : State → Prop where
  | get (at' : state.receiver = .getting) :
      ReceiverStep state { state with
        queues := (state.queues.obtain []).1
        receiver := .receiving (state.queues.obtain []).2 }
  | getFails (at' : state.receiver = .getting) : ReceiverStep state { state with receiver := .failed }
  | receive {msgid : Nat} {message : CString} {rest : List CString}
      (at' : state.receiver = .receiving msgid) (there : state.queues.has msgid)
      (first : state.queues.objects msgid = message :: rest) :
      ReceiverStep state { state with
        queues := state.queues.modify msgid fun _ => rest
        receiver := if isEnd message then .removing msgid else .receiving msgid
        printed := state.printed ++ [message] }
  | receiveFails {msgid : Nat} (at' : state.receiver = .receiving msgid)
      (gone : ¬ state.queues.has msgid) : ReceiverStep state { state with receiver := .failed }
  | remove {msgid : Nat} (at' : state.receiver = .removing msgid) :
      ReceiverStep state { state with queues := state.queues.remove msgid, receiver := .done }

inductive Step (capacity : Nat) (state : State) : State → Prop where
  | sender {after : State} (step : SenderStep capacity state after) : Step capacity state after
  | receiver {after : State} (step : ReceiverStep state after) : Step capacity state after

def pair (capacity : Nat) (stdin : List Char) : Machine State where
  initial state := ∃ buf, state = ⟨.empty [], .getting, .getting, stdin, buf, [], []⟩
  step := Step capacity

/-- The strings that come into `buf`. -/
def typed (stdin : List Char) : List CString := (pieces SIZE stdin).map .of

/-- The messages up to the first one that begins with `end`. -/
def upToEnd : List CString → List CString
  | [] => []
  | message :: rest => if isEnd message then [message] else message :: upToEnd rest

def State.left (state : State) (total : Nat) : Nat :=
  (match state.sender with
    | .getting => 2 * total + 2
    | .reading _ => 2 * (total - state.sent.length) + 1
    | .sending _ => 2 * (total - state.sent.length)
    | .sleeping => 1
    | .done | .failed => 0) +
  match state.receiver with
    | .getting => total + 2
    | .receiving _ => total - state.printed.length + 1
    | .removing _ => 1
    | .done | .failed => 0

/-- All that is typed up to an `end` is printed once and in order, and the queue removed then;
nobody uses it behind that, and both programs come to their ends unless one has got no queue. -/
structure Transfers (capacity : Nat) (stdin : List Char) (state : State) : Prop where
  order : state.printed <+: state.sent ∧ state.sent <+: upToEnd (typed stdin)
  whole : state.receiver = .done → state.printed = upToEnd (typed stdin) ∧ state.queues.current = none
  there : ∀ msgid, state.sender = .sending msgid ∨ state.receiver = .receiving msgid →
    state.queues.has msgid
  goesOn : state.sender ≠ .failed → state.receiver ≠ .failed →
    state.sender = .done ∧ state.receiver = .done ∨ ∃ after, Step capacity state after
  shorter : ∀ after, Step capacity state after →
    after.left (upToEnd (typed stdin)).length < state.left (upToEnd (typed stdin)).length

section

variable {front messages : List CString}

theorem upToEnd_append (none : ∀ one ∈ front, isEnd one = false) (messages : List CString) :
    upToEnd (front ++ messages) = front ++ upToEnd messages := by
  induction front with
  | nil => rfl
  | cons first front ih =>
    rw [List.cons_append, upToEnd, none first (List.mem_cons_self ..),
      ih fun other member => none other (List.mem_cons_of_mem _ member)]
    rfl

theorem upToEnd_cons (message : CString) (messages : List CString) :
    upToEnd (message :: messages) =
      message :: if isEnd message then [] else upToEnd messages := by
  rw [upToEnd]
  split <;> rfl

theorem eq_nil_of_end {left : List CString} (split : upToEnd messages = front ++ left)
    (ended : ∃ one ∈ front, isEnd one = true) : left = [] := by
  induction messages generalizing front with
  | nil =>
    obtain ⟨one, member, -⟩ := ended
    obtain ⟨rfl, -⟩ := List.append_eq_nil_iff.mp split.symm
    cases member
  | cons message messages ih =>
    cases front with
    | nil =>
      obtain ⟨one, member, -⟩ := ended
      cases member
    | cons first front =>
      rw [upToEnd_cons, List.cons_append] at split
      obtain ⟨rfl, rest⟩ := List.cons.inj split
      by_cases last : isEnd message = true
      · rw [if_pos last] at rest
        exact (List.append_eq_nil_iff.mp rest.symm).2
      · rw [if_neg last] at rest
        obtain ⟨one, member, is⟩ := ended
        rcases List.mem_cons.mp member with rfl | later
        · exact (last is).elim
        · exact ih rest ⟨one, later, is⟩

end

def Sender.hold : Sender → Getting
  | .getting | .failed => .making
  | .reading msgid | .sending msgid => .got msgid
  | .sleeping | .done => .got 0

def Receiver.hold : Receiver → Getting
  | .getting | .failed => .making
  | .receiving msgid | .removing msgid => .got msgid
  | .done => .got 0

def State.Sends (state : State) (stdin : List Char) : Prop :=
  match state.sender with
  | .getting | .failed => state.sent = [] ∧ typed state.stdin = typed stdin
  | .reading _ => (∀ one ∈ state.sent, isEnd one = false) ∧
      typed stdin = state.sent ++ typed state.stdin
  | .sending _ => (∀ one ∈ state.sent, isEnd one = false) ∧
      typed stdin = state.sent ++ state.buf :: typed state.stdin
  | .sleeping | .done => state.sent = upToEnd (typed stdin)

/-- The receiver is in its loop until it has printed the last message. -/
def State.Prints (state : State) : Prop :=
  match state.receiver with
  | .getting | .failed => state.printed = []
  | .receiving _ => ∀ one ∈ state.printed, isEnd one = false
  | .removing _ | .done => ∃ one ∈ state.printed, isEnd one = true

structure Kept (stdin : List Char) (state : State) : Prop where
  shared : Shared state.queues state.sender.hold state.receiver.hold
    (decide (state.receiver = .done))
  order : state.printed ++ state.queues.objects 0 = state.sent
  sends : state.Sends stdin
  prints : state.Prints

variable {capacity : Nat} {stdin : List Char} {state after : State}

theorem State.Sends.prefix (sends : state.Sends stdin) : state.sent <+: upToEnd (typed stdin) := by
  unfold State.Sends at sends
  split at sends
  · rw [sends.1]
    exact List.nil_prefix
  · rw [sends.1]
    exact List.nil_prefix
  · rw [sends.2, upToEnd_append sends.1]
    exact List.prefix_append _ _
  · rw [sends.2, upToEnd_append sends.1]
    exact List.prefix_append _ _
  · exact sends ▸ List.prefix_rfl
  · exact sends ▸ List.prefix_rfl

/-- Once the receiver has printed the last message, there is nothing left. -/
theorem Kept.whole (kept : Kept stdin state) (ended : ∃ one ∈ state.printed, isEnd one = true) :
    state.printed = upToEnd (typed stdin) ∧ state.queues.objects 0 = [] ∧
      state.sent = upToEnd (typed stdin) := by
  obtain ⟨left, whole⟩ := kept.sends.prefix
  have order := kept.order
  rw [← order, List.append_assoc] at whole
  have none := eq_nil_of_end whole.symm ended
  obtain ⟨queue, rest⟩ := List.append_eq_nil_iff.mp none
  rw [queue, rest, List.append_nil, List.append_nil] at whole
  rw [queue, List.append_nil] at order
  exact ⟨whole, queue, order.symm.trans whole⟩

theorem State.Sends.next (sends : state.Sends stdin) {msgid : Nat} (at' : state.sender = .sending msgid) :
    (∀ one ∈ state.sent, isEnd one = false) ∧
      typed stdin = state.sent ++ state.buf :: typed state.stdin ∧
      upToEnd (typed stdin) =
        state.sent ++ state.buf :: if isEnd state.buf then [] else upToEnd (typed state.stdin) := by
  rw [State.Sends, at'] at sends
  refine ⟨sends.1, sends.2, ?_⟩
  rw [sends.2, upToEnd_append sends.1, upToEnd_cons]

theorem Kept.through (kept : Kept stdin state) (ended : ∃ one ∈ state.printed, isEnd one = true) :
    state.sender = .sleeping ∨ state.sender = .done := by
  obtain ⟨same, queue, -⟩ := kept.whole ended
  have order := kept.order
  rw [queue, List.append_nil] at order
  rw [order] at ended
  obtain ⟨one, member, is⟩ := ended
  have sends := kept.sends
  unfold State.Sends at sends
  split at sends
  · rw [sends.1] at member
    cases member
  · rw [sends.1] at member
    cases member
  · exact (Bool.false_ne_true ((sends.1 one member).symm.trans is)).elim
  · exact (Bool.false_ne_true ((sends.1 one member).symm.trans is)).elim
  · rename_i at'
    exact .inl at'
  · rename_i at'
    exact .inr at'

theorem Kept.there (kept : Kept stdin state) {msgid : Nat}
    (uses : state.sender = .sending msgid ∨ state.receiver = .receiving msgid) :
    state.queues.has msgid := by
  have shared := kept.shared
  by_cases done : state.receiver = .done
  · have prints := kept.prints
    rw [State.Prints, done] at prints
    rcases uses with sending | receiving
    · rcases kept.through prints with at' | at' <;> rw [sending] at at' <;> cases at'
    · rw [receiving] at done
      cases done
  · rw [decide_eq_false done] at shared
    rcases uses with sending | receiving
    · rw [sending] at shared
      exact shared.has
    · rw [receiving] at shared
      exact shared.symm.has

private theorem objects_obtain {table : Objects (List CString)} {second : Getting} {gone : Bool}
    (shared : Shared table .making second gone) (none : second = .making → table.objects 0 = []) :
    (table.obtain []).1.objects 0 = table.objects 0 := by
  cases shared with
  | absent free made =>
    have created : table.obtain [] = (table.create [], table.made) := by
      rw [Objects.obtain, free]
    rw [created, none rfl]
    change Function.update table.objects table.made [] 0 = []
    rw [made, Function.update_self]
  | present here one firstWay secondWay =>
    rw [Objects.obtain, here]

private theorem sender_kept (kept : Kept stdin state) (ends : ∃ one ∈ typed stdin, isEnd one = true)
    (step : SenderStep capacity state after) : Kept stdin after := by
  obtain ⟨shared, order, sends, prints⟩ := kept
  cases step with
  | get at' =>
    rw [at'] at shared
    rw [State.Sends, at'] at sends
    rw [sends.1] at order
    obtain ⟨nothing, empty⟩ := List.append_eq_nil_iff.mp order
    refine ⟨shared.obtain [], ?_, ?_, prints⟩
    · change state.printed ++ (state.queues.obtain []).1.objects 0 = state.sent
      rw [objects_obtain shared fun _ => empty, empty, nothing, sends.1]
      rfl
    · change (∀ one ∈ state.sent, isEnd one = false) ∧ typed stdin = state.sent ++ typed state.stdin
      rw [sends.1, sends.2]
      exact ⟨nofun, rfl⟩
  | getFails at' =>
    rw [at'] at shared
    rw [State.Sends, at'] at sends
    exact ⟨shared, order, sends, prints⟩
  | @read msgid at' =>
    rw [at'] at shared
    rw [State.Sends, at'] at sends
    obtain ⟨none, whole⟩ := sends
    cases found : fgets SIZE state.stdin with
    | none =>
      rw [typed, typed, pieces_eq_nil found] at whole
      obtain ⟨one, member, is⟩ := ends
      rw [typed, whole, List.map_nil, List.append_nil] at member
      exact (Bool.false_ne_true ((none one member).symm.trans is)).elim
    | some pair =>
      obtain ⟨read, rest⟩ := pair
      have next : state.read = { state with buf := .of read, stdin := rest } := by
        rw [State.read, found]
      rw [next]
      refine ⟨shared, order, ⟨none, ?_⟩, prints⟩
      rw [whole, typed, pieces_eq_cons found]
      rfl
  | @send msgid at' there room =>
    obtain ⟨none, whole, next⟩ := sends.next at'
    rw [at'] at shared
    obtain rfl := shared.number_eq
    refine ⟨?_, ?_, ?_, prints⟩
    · have hold : (if isEnd state.buf then Sender.sleeping else .reading 0).hold = .got 0 := by
        split <;> rfl
      change Shared _ (if isEnd state.buf then Sender.sleeping else .reading 0).hold _ _
      rw [hold]
      exact shared.modify (· ++ [state.buf])
    · change state.printed ++ (state.queues.modify 0 (· ++ [state.buf])).objects 0 =
        state.sent ++ [state.buf]
      rw [Objects.objects_modify, ← List.append_assoc, order]
    · by_cases last : isEnd state.buf = true
      · rw [if_pos last] at next ⊢
        exact next.symm
      · rw [if_neg last]
        refine ⟨fun one member => ?_, whole.trans (List.append_cons ..)⟩
        rcases List.mem_append.mp member with before | now
        · exact none one before
        · obtain rfl := List.mem_singleton.mp now
          exact Bool.eq_false_iff.mpr last
  | @sendFails msgid at' gone =>
    exact (gone (Kept.there ⟨shared, order, sends, prints⟩ (.inl at'))).elim
  | sleep at' =>
    rw [at'] at shared
    rw [State.Sends, at'] at sends
    exact ⟨shared, order, sends, prints⟩

private theorem receiver_kept (kept : Kept stdin state) (step : ReceiverStep state after) :
    Kept stdin after := by
  have through := kept.through
  obtain ⟨shared, order, sends, prints⟩ := kept
  cases step with
  | get at' =>
    rw [at'] at shared
    rw [State.Prints, at'] at prints
    refine ⟨(shared.symm.obtain []).symm, ?_, sends, ?_⟩
    · change state.printed ++ (state.queues.obtain []).1.objects 0 = state.sent
      rw [objects_obtain shared.symm, order]
      intro making
      have none : state.sent = [] := by
        unfold State.Sends at sends
        split at sends <;> rename_i at' <;> rw [at'] at making
        · exact sends.1
        · exact sends.1
        all_goals cases making
      rw [none] at order
      exact (List.append_eq_nil_iff.mp order).2
    · change ∀ one ∈ state.printed, isEnd one = false
      rw [prints]
      nofun
  | getFails at' =>
    rw [at'] at shared
    rw [State.Prints, at'] at prints
    exact ⟨shared, order, sends, prints⟩
  | @receive msgid message rest at' there first =>
    rw [at'] at shared
    rw [State.Prints, at'] at prints
    obtain rfl := shared.symm.number_eq
    refine ⟨?_, ?_, sends, ?_⟩
    · have hold : (if isEnd message then Receiver.removing 0 else .receiving 0).hold = .got 0 ∧
          decide ((if isEnd message then Receiver.removing 0 else .receiving 0) = .done) = false := by
        split <;> exact ⟨rfl, rfl⟩
      change Shared _ _ (if isEnd message then Receiver.removing 0 else .receiving 0).hold
        (decide ((if isEnd message then Receiver.removing 0 else .receiving 0) = .done))
      rw [hold.1, hold.2]
      exact shared.modify fun _ => rest
    · change state.printed ++ [message] ++ (state.queues.modify 0 fun _ => rest).objects 0 = state.sent
      rw [Objects.objects_modify, ← order, first, List.append_assoc]
      rfl
    · by_cases last : isEnd message = true
      · rw [if_pos last]
        exact ⟨message, by simp, last⟩
      · rw [if_neg last]
        intro one member
        rcases List.mem_append.mp member with before | now
        · exact prints one before
        · obtain rfl := List.mem_singleton.mp now
          exact Bool.eq_false_iff.mpr last
  | @receiveFails msgid at' gone =>
    exact (gone (Kept.there ⟨shared, order, sends, prints⟩ (.inr at'))).elim
  | @remove msgid at' =>
    rw [at'] at shared
    rw [State.Prints, at'] at prints
    obtain rfl := shared.symm.number_eq
    have hold : state.sender.hold = .got 0 := by
      rcases through prints with at' | at' <;> rw [at'] <;> rfl
    refine ⟨?_, ?_, sends, prints⟩
    · rw [hold] at shared ⊢
      exact shared.symm.remove.symm
    · rw [Objects.objects_remove]
      exact order

theorem kept (ends : ∃ one ∈ typed stdin, isEnd one = true)
    (reachable : (pair capacity stdin).Reachable state) : Kept stdin state := by
  refine reachable.invariant (Kept stdin) ?_ ?_
  · rintro _ ⟨buf, rfl⟩
    exact ⟨.absent rfl rfl, rfl, ⟨rfl, rfl⟩, rfl⟩
  · intro state after kept step
    cases step with
    | sender step => exact sender_kept kept ends step
    | receiver step => exact receiver_kept kept step

theorem exists_end {messages : List CString} (ends : ∃ one ∈ messages, isEnd one = true) :
    ∃ one ∈ upToEnd messages, isEnd one = true := by
  induction messages with
  | nil =>
    obtain ⟨one, member, -⟩ := ends
    cases member
  | cons message messages ih =>
    by_cases last : isEnd message = true
    · exact ⟨message, by simp [upToEnd_cons], last⟩
    · obtain ⟨one, member, is⟩ := ends
      rcases List.mem_cons.mp member with rfl | later
      · exact (last is).elim
      · obtain ⟨other, among, is⟩ := ih ⟨one, later, is⟩
        rw [upToEnd_cons, if_neg last]
        exact ⟨other, List.mem_cons_of_mem _ among, is⟩

private theorem room (roomy : SIZE ≤ capacity) {message : CString} (member : message ∈ typed stdin) :
    Room capacity [] message := by
  obtain ⟨piece, among, rfl⟩ := List.mem_map.mp member
  have wide : 1 < SIZE := by decide
  have short := length_lt_of_mem_pieces wide stdin among
  have less := length_cString_le piece
  constructor
  · simpa using (Nat.le_of_lt wide).trans roomy
  · simp only [List.flatMap_nil, List.length_nil, Nat.zero_add, CString.of]
    omega

private theorem goesOn (kept : Kept stdin state) (roomy : SIZE ≤ capacity)
    (ends : ∃ one ∈ typed stdin, isEnd one = true) (sender : state.sender ≠ .failed)
    (receiver : state.receiver ≠ .failed) :
    state.sender = .done ∧ state.receiver = .done ∨ ∃ after, Step capacity state after := by
  cases at' : state.receiver with
  | getting => exact .inr ⟨_, .receiver (.get at')⟩
  | failed => exact (receiver at').elim
  | removing msgid => exact .inr ⟨_, .receiver (.remove at')⟩
  | done =>
    have prints := kept.prints
    rw [State.Prints, at'] at prints
    rcases kept.through prints with there | there
    · exact .inr ⟨_, .sender (.sleep there)⟩
    · exact .inl ⟨there, rfl⟩
  | receiving msgid =>
    right
    have has := kept.there (.inr at')
    have shared := kept.shared
    rw [at'] at shared
    obtain rfl := shared.symm.number_eq
    cases queue : state.queues.objects 0 with
    | cons message rest => exact ⟨_, .receiver (.receive at' has queue)⟩
    | nil =>
      cases place : state.sender with
      | getting => exact ⟨_, .sender (.get place)⟩
      | failed => exact (sender place).elim
      | reading msgid => exact ⟨_, .sender (.read place)⟩
      | sending msgid =>
        have has := kept.there (.inl place)
        rw [place] at shared
        obtain rfl := shared.number_eq
        obtain ⟨-, whole, -⟩ := kept.sends.next place
        have member : state.buf ∈ typed stdin := by
          rw [whole]
          simp
        exact ⟨_, .sender (.send place has (by rw [queue]; exact room roomy member))⟩
      | sleeping => exact ⟨_, .sender (.sleep place)⟩
      | done =>
        -- All was sent and printed, so the receiver is not in its loop.
        have order := kept.order
        have prints := kept.prints
        have sends := kept.sends
        rw [State.Prints, at'] at prints
        rw [State.Sends, place] at sends
        rw [queue, List.append_nil, sends] at order
        obtain ⟨one, member, is⟩ := exists_end ends
        rw [← order] at member
        exact (Bool.false_ne_true ((prints one member).symm.trans is)).elim

private theorem shorter (kept : Kept stdin state) (step : Step capacity state after) :
    after.left (upToEnd (typed stdin)).length < state.left (upToEnd (typed stdin)).length := by
  have order := congrArg List.length kept.order
  have few := kept.sends.prefix.length_le
  rw [List.length_append] at order
  cases step with
  | sender step =>
    have next : ∀ {msgid}, state.sender = .sending msgid →
        state.sent.length < (upToEnd (typed stdin)).length := by
      intro msgid at'
      rw [(kept.sends.next at').2.2, List.length_append, List.length_cons]
      omega
    cases step with
    | get at' | getFails at' | sleep at' =>
      simp only [State.left, at']
      omega
    | read at' =>
      have same : state.read.sent = state.sent ∧ state.read.receiver = state.receiver ∧
          state.read.printed = state.printed := by
        unfold State.read
        split <;> exact ⟨rfl, rfl, rfl⟩
      simp only [State.left, at', same]
      omega
    | send at' there room =>
      have less := next at'
      by_cases last : isEnd state.buf = true <;>
        simp only [State.left, at', last, if_true, Bool.false_eq_true, if_false,
          List.length_append, List.length_singleton] <;> omega
    | sendFails at' gone => exact (gone (kept.there (.inl at'))).elim
  | receiver step =>
    cases step with
    | get at' =>
      have prints := kept.prints
      rw [State.Prints, at'] at prints
      simp only [State.left, at', prints, List.length_nil]
      omega
    | getFails at' | remove at' =>
      simp only [State.left, at']
      omega
    | receive at' there first =>
      have shared := kept.shared
      rw [at'] at shared
      obtain rfl := shared.symm.number_eq
      rw [first, List.length_cons] at order
      rename_i message _
      by_cases last : isEnd message = true <;>
        simp only [State.left, at', last, if_true, Bool.false_eq_true, if_false,
          List.length_append, List.length_singleton] <;> omega
    | receiveFails at' gone => exact (gone (kept.there (.inr at'))).elim

/-- In every run of the two programs, started in any order, what is typed up to the first `end`
gets from one to the other. -/
theorem transfers (roomy : SIZE ≤ capacity) (ends : ∃ one ∈ typed stdin, isEnd one = true)
    (reachable : (pair capacity stdin).Reachable state) : Transfers capacity stdin state := by
  have kept := kept ends reachable
  refine ⟨⟨⟨_, kept.order⟩, kept.sends.prefix⟩, fun done => ?_, fun msgid => kept.there,
    goesOn kept roomy ends, fun after => shorter kept⟩
  have prints := kept.prints
  rw [State.Prints, done] at prints
  refine ⟨(kept.whole prints).1, ?_⟩
  have shared := kept.shared
  rw [done, decide_eq_true rfl] at shared
  have gone : ∀ number, ¬ state.queues.has number := fun number => shared.not_has
  exact Option.eq_none_iff_forall_ne_some.mpr gone

/-- A line and an `end`: the receiver prints the line when the sender is at the next one. -/
theorem transfers_end : ∃ state, (pair SIZE "a\nend\n".toList).Reachable state ∧
    state.sender = .done ∧ state.receiver = .done ∧
      state.printed = ["a\n", "end\n"].map (.of ·.toList) ∧
        Transfers SIZE "a\nend\n".toList state := by
  let stdin : List Char := "a\nend\n".toList
  let line : CString := .of "a\n".toList
  let last : CString := .of "end\n".toList
  have read : fgets SIZE stdin = some ("a\n".toList, "end\n".toList) := rfl
  have readLast : fgets SIZE "end\n".toList = some ("end\n".toList, []) := rfl
  have ends : ∃ one ∈ typed stdin, isEnd one = true := by
    rw [typed, pieces_eq_cons read, pieces_eq_cons readLast]
    exact ⟨last, List.mem_cons_of_mem _ (List.mem_cons_self ..), by decide⟩
  let start : State := ⟨.empty [], .getting, .getting, stdin, .of [], [], []⟩
  have started : (pair SIZE stdin).Reachable start := .start ⟨_, rfl⟩
  have got := (started.next (.sender (.get rfl))).next (.receiver (.get rfl))
  let filled : State :=
    ⟨(start.queues.obtain []).1, .sending 0, .receiving 0, "end\n".toList, line, [], []⟩
  have next : (pair SIZE stdin).Reachable filled := got.next (.sender (.read rfl))
  have sent := next.next (.sender (.send rfl rfl ⟨by decide, by decide⟩))
  let again : State := ⟨filled.queues.modify 0 (· ++ [line]), .sending 0, .receiving 0, [], last,
    [line], []⟩
  have more : (pair SIZE stdin).Reachable again := sent.next (.sender (.read rfl))
  have printed := more.next (.receiver (.receive rfl rfl rfl))
  have sentLast := printed.next (.sender (.send rfl rfl ⟨by decide, by decide⟩))
  have printedLast := sentLast.next (.receiver (.receive rfl rfl rfl))
  have ended := (printedLast.next (.receiver (.remove rfl))).next (.sender (.sleep rfl))
  exact ⟨_, ended, rfl, rfl, rfl, transfers (Nat.le_refl _) ends ended⟩

end Lsnp.MsgQueue
