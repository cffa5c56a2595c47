import Lsnp.Interaction.Machine
import Lsnp.Unix.Signals
import Mathlib.Data.List.Induction
import Mathlib.Tactic.SplitIfs

/-! `ch06-2/exercise.c`, which counts two signals and prints the counts on a third one. A step is
one statement of `main` or of a handler; signals come at any time. -/

namespace Lsnp.Signals.Counting

open Lsnp.Interaction Lsnp.Unix

/-- What is printed: `usr1 count: %d` and `usr2 count: %d`. -/
inductive Line where
  | usr1 (count : BitVec 32)
  | usr2 (count : BitVec 32)
  deriving DecidableEq, Repr

/-- The memory of the program, and what it has printed. -/
structure Memory where
  usr1Count : BitVec 32
  usr2Count : BitVec 32
  printed : List Line
  deriving DecidableEq, Repr

/-- The statements of the handlers. An increment is a load into a register and a store. -/
inductive Statement where
  | load1
  | store1
  | load2
  | store2
  | print1
  | print2
  deriving DecidableEq, Repr

/-- `usr1_handler`, `usr2_handler` and `int_handler` -/
def handlerOf (signo : Signo) : List Statement :=
  if signo = SIGUSR1 then [.load1, .store1]
  else if signo = SIGUSR2 then [.load2, .store2]
  else if signo = SIGINT then [.print1, .print2]
  else []

/-- What a statement does to the register and the memory. -/
def Statement.run (register : BitVec 32) (memory : Memory) : Statement → BitVec 32 × Memory
  | .load1 => (memory.usr1Count, memory)
  | .store1 => (register, { memory with usr1Count := register + 1 })
  | .load2 => (memory.usr2Count, memory)
  | .store2 => (register, { memory with usr2Count := register + 1 })
  | .print1 => (register, { memory with printed := memory.printed ++ [.usr1 memory.usr1Count] })
  | .print2 => (register, { memory with printed := memory.printed ++ [.usr2 memory.usr2Count] })

/-- A handler that has been interrupted or is running: the statements that it still has in front of
it, its register, and the mask to which it returns. -/
structure Frame where
  rest : List Statement
  register : BitVec 32
  saved : SignalSet

/-- Where `main` is: in front of `sigprocmask`, of one of its calls of `sigaction`, or in the loop. -/
inductive Place where
  | sigprocmask
  | sigactionInt
  | sigactionUsr1
  | sigactionUsr2
  | loop
  deriving DecidableEq, Repr

/-- The process. `frames` are the handlers it is in, the innermost first; `sent` are the signals that
have come, and `handled` those for which a handler was started, in order; `killed` is the signal that
has ended it. -/
structure State where
  place : Place
  mask : SignalSet
  dispositions : Dispositions
  pending : Signo → Bool
  frames : List Frame
  memory : Memory
  sent : List Signo
  handled : List Signo
  killed : Option Signo

/-- What `main` blocks: all but the three signals, and those that are never blocked. -/
def blocked : SignalSet :=
  sigdelset (sigdelset (sigdelset sigfillset SIGINT) SIGUSR1) SIGUSR2

/-- `act`, with a full `sa_mask`. -/
def act : Disposition := .handler sigfillset

/-- A statement of `main`. -/
inductive Main (state : State) : State → Prop where
  | sigprocmask (at' : state.place = .sigprocmask) :
      Main state { state with
        mask := sigmask .block state.mask blocked
        place := .sigactionInt }
  | sigactionInt (at' : state.place = .sigactionInt) :
      Main state { state with
        dispositions := sigaction state.dispositions SIGINT act
        place := .sigactionUsr1 }
  | sigactionUsr1 (at' : state.place = .sigactionUsr1) :
      Main state { state with
        dispositions := sigaction state.dispositions SIGUSR1 act
        place := .sigactionUsr2 }
  | sigactionUsr2 (at' : state.place = .sigactionUsr2) :
      Main state { state with
        dispositions := sigaction state.dispositions SIGUSR2 act
        place := .loop }
  | sleep (at' : state.place = .loop) : Main state state

def SIGKILL : Signo := 9
def SIGSTOP : Signo := 19

/-- What is done about a signal, other than the two that cannot be blocked. -/
inductive Kernel (state : State) : State → Prop where
  | send {signo : Signo} (known : signo ≠ SIGKILL ∧ signo ≠ SIGSTOP) :
      Kernel state { state with
        pending := Function.update state.pending signo true
        sent := state.sent ++ [signo] }
  | handle {signo : Signo} {saMask : SignalSet} (pending : state.pending signo = true)
      (unblocked : state.mask signo = false) (handler : state.dispositions signo = .handler saMask) :
      Kernel state { state with
        pending := Function.update state.pending signo false
        mask := handlerMask state.mask saMask signo
        frames := ⟨handlerOf signo, 0, state.mask⟩ :: state.frames
        handled := state.handled ++ [signo] }
  | return' {frame : Frame} {frames : List Frame} (at' : state.frames = frame :: frames)
      (done : frame.rest = []) :
      Kernel state { state with mask := frame.saved, frames := frames }
  -- Some signals are ignored by default.
  | ignore {signo : Signo} (pending : state.pending signo = true) (unblocked : state.mask signo = false)
      (unhandled : ∀ saMask, state.dispositions signo ≠ .handler saMask) :
      Kernel state { state with pending := Function.update state.pending signo false }
  | kill {signo : Signo} (pending : state.pending signo = true) (unblocked : state.mask signo = false)
      (default : state.dispositions signo = .default) :
      Kernel state { state with killed := some signo }

/-- A statement of the innermost handler. -/
inductive Handler (state : State) : State → Prop where
  | run {frame : Frame} {frames : List Frame} {statement : Statement} {rest : List Statement}
      (at' : state.frames = frame :: frames) (next : frame.rest = statement :: rest) :
      Handler state { state with
        frames := { frame with
          rest := rest
          register := (statement.run frame.register state.memory).1 } :: frames
        memory := (statement.run frame.register state.memory).2 }

inductive Step (state : State) : State → Prop where
  | main {after : State} (alive : state.killed = none) (free : state.frames = [])
      (step : Main state after) : Step state after
  | handler {after : State} (alive : state.killed = none) (step : Handler state after) : Step state after
  | kernel {after : State} (alive : state.killed = none) (step : Kernel state after) : Step state after

/-- The program as it is started: behind an `exec` there are no handlers. -/
def program : Machine State where
  initial state := state.place = .sigprocmask ∧ (∀ signo saMask, state.dispositions signo ≠ .handler saMask) ∧
    (∀ signo, state.pending signo = true → signo ∈ state.sent) ∧ state.frames = [] ∧
    state.memory = ⟨0, 0, []⟩ ∧ state.handled = [] ∧ state.killed = none
  step := Step

/-- What a handler does if nothing comes between its statements. -/
def atOnce (memory : Memory) (signo : Signo) : Memory :=
  if signo = SIGUSR1 then { memory with usr1Count := memory.usr1Count + 1 }
  else if signo = SIGUSR2 then { memory with usr2Count := memory.usr2Count + 1 }
  else if signo = SIGINT then
    { memory with printed := memory.printed ++ [.usr1 memory.usr1Count, .usr2 memory.usr2Count] }
  else memory

/-- The memory when the handlers for these signals have run, one behind the other. -/
def applied (signos : List Signo) : Memory := signos.foldl atOnce ⟨0, 0, []⟩

/-- What becomes of the memory when statements are run to the end. -/
def runAll : List Statement → BitVec 32 → Memory → Memory
  | [], _, memory => memory
  | statement :: rest, register, memory =>
    runAll rest (statement.run register memory).1 (statement.run register memory).2

/-- What becomes of the memory when the handlers are run to the end, the innermost first. -/
def finish : List Frame → Memory → Memory
  | [], memory => memory
  | frame :: frames, memory => finish frames (runAll frame.rest frame.register memory)

theorem runAll_handlerOf (signo : Signo) (register : BitVec 32) (memory : Memory) :
    runAll (handlerOf signo) register memory = atOnce memory signo := by
  unfold handlerOf atOnce
  split_ifs
  · rfl
  · rfl
  · simp [runAll, Statement.run]
  · rfl

theorem applied_append (signos : List Signo) (signo : Signo) :
    applied (signos ++ [signo]) = atOnce (applied signos) signo := by
  rw [applied, List.foldl_append]
  rfl

/-- The counters are the numbers of the signals that were handled, as far as an `int` goes. -/
theorem applied_counts (signos : List Signo) :
    (applied signos).usr1Count = .ofNat 32 (signos.count SIGUSR1) ∧
      (applied signos).usr2Count = .ofNat 32 (signos.count SIGUSR2) := by
  induction signos using List.reverseRecOn with
  | nil => exact ⟨rfl, rfl⟩
  | append_singleton signos signo ih =>
    rw [applied_append, List.count_append, List.count_append, BitVec.ofNat_add, BitVec.ofNat_add,
      ← ih.1, ← ih.2]
    unfold atOnce
    split_ifs with one two three
    · subst one
      exact ⟨rfl, (BitVec.add_zero _).symm⟩
    · subst two
      exact ⟨(BitVec.add_zero _).symm, rfl⟩
    · subst three
      exact ⟨(BitVec.add_zero _).symm, (BitVec.add_zero _).symm⟩
    · simp [one, two]

/-- The mask of `main`, to which the handlers return. -/
def State.base (state : State) : SignalSet :=
  match state.frames with
  | [] => state.mask
  | frame :: _ => frame.saved

/-- The signals that have their handler when `main` is there. -/
def Place.registered : Place → List Signo
  | .sigprocmask | .sigactionInt => []
  | .sigactionUsr1 => [SIGINT]
  | .sigactionUsr2 => [SIGINT, SIGUSR1]
  | .loop => [SIGINT, SIGUSR1, SIGUSR2]

/-- What holds in every state: there is one handler at most, and it blocks all that can be blocked. -/
structure Kept (state : State) : Prop where
  atomic : finish state.frames state.memory = applied state.handled
  single : state.frames.length ≤ 1
  full : state.frames ≠ [] → ∀ signo ∉ reserved, state.mask signo = true
  others : state.place ≠ .sigprocmask → ∀ signo, signo ∉ Place.loop.registered → signo ∉ reserved →
    state.base signo = true
  acts : ∀ signo saMask, state.dispositions signo = .handler saMask →
    saMask = sigfillset ∧ signo ∈ Place.loop.registered
  ready : ∀ signo ∈ state.place.registered, state.dispositions signo = act
  killers : state.place = .loop → ∀ signo, state.killed = some signo → signo ∈ reserved
  once : ∀ signo, state.handled.count signo + (if state.pending signo then 1 else 0) ≤
    state.sent.count signo

variable {state after : State}

theorem notMem_reserved {signo : Signo} (one : signo ∈ Place.loop.registered) : signo ∉ reserved := by
  revert signo
  decide

theorem blocked_of_notMem {signo : Signo} (other : signo ∉ Place.loop.registered)
    (usual : signo ∉ reserved) : blocked signo = true := by
  simp only [Place.registered, List.mem_cons, List.not_mem_nil, or_false, not_or] at other
  obtain ⟨notInt, notUsr1, notUsr2⟩ := other
  simp [blocked, sigdelset, Function.update_of_ne, notInt, notUsr1, notUsr2, sigfillset, usual]

theorem handlerMask_full (mask : SignalSet) (signo : Signo) {other : Signo} (usual : other ∉ reserved) :
    handlerMask mask sigfillset signo other = true := by
  have full : sigfillset other = true := decide_eq_true usual
  rw [handlerMask, sigaddset, Function.update_apply]
  split
  · rfl
  · rw [sigmask, full]
    exact Bool.or_true _

theorem Kept.free (kept : Kept state) {signo : Signo} (unblocked : state.mask signo = false)
    (usual : signo ∉ reserved) : state.frames = [] := by
  by_contra some
  rw [kept.full some signo usual] at unblocked
  cases unblocked

private theorem killers_of_alive {killed : Option Signo} (alive : killed = none) (signo : Signo)
    (dead : killed = some signo) : signo ∈ reserved := by
  rw [alive] at dead
  cases dead

private theorem Starts.kept (starts : program.initial state) : Kept state := by
  obtain ⟨place, none, pending, frames, memory, handled, killed⟩ := starts
  refine ⟨?_, ?_, ?_, ?_, ?_, ?_, fun _ => killers_of_alive killed, fun signo => ?_⟩
  · rw [frames, memory, handled]
    rfl
  · rw [frames]
    exact Nat.zero_le _
  · exact fun some => (some frames).elim
  · exact fun other => (other place).elim
  · exact fun signo saMask found => (none signo saMask found).elim
  · rw [place]
    exact fun signo member => (List.not_mem_nil member).elim
  · rw [handled, List.count_nil, Nat.zero_add]
    split
    · next coming => exact List.count_pos_iff.mpr (pending signo coming)
    · exact Nat.zero_le _

private theorem Kept.register (kept : Kept state) (alive : state.killed = none) (signo : Signo)
    {place : Place} (one : signo ∈ Place.loop.registered) (started : state.place ≠ .sigprocmask)
    (more : place.registered = state.place.registered ++ [signo]) :
    Kept { state with dispositions := sigaction state.dispositions signo act, place := place } := by
  refine ⟨kept.atomic, kept.single, kept.full, fun _ => kept.others started, ?_, ?_,
    fun _ => killers_of_alive alive, kept.once⟩
  · intro other saMask found
    change sigaction state.dispositions signo act other = _ at found
    by_cases same : other = signo
    · rw [same, sigaction_self] at found
      exact ⟨(Disposition.handler.inj found).symm, same ▸ one⟩
    · rw [sigaction_of_ne _ _ same] at found
      exact kept.acts other saMask found
  · intro other member
    change other ∈ place.registered at member
    rw [more, List.mem_append] at member
    by_cases same : other = signo
    · rw [same]
      exact sigaction_self ..
    · refine (sigaction_of_ne _ _ same).trans (kept.ready other ?_)
      exact member.resolve_right fun last => same (List.mem_singleton.mp last)

private theorem main_kept (kept : Kept state) (alive : state.killed = none) (free : state.frames = [])
    (step : Main state after) : Kept after := by
  cases step with
  | sigprocmask at' =>
    refine ⟨kept.atomic, kept.single, fun some => (some free).elim, fun _ signo other usual => ?_, kept.acts,
      fun _ member => (List.not_mem_nil member).elim, fun _ => killers_of_alive alive, kept.once⟩
    simp only [State.base, free, sigmask, blocked_of_notMem other usual, Bool.or_true]
  | sigactionInt at' =>
    exact kept.register alive SIGINT (by decide) (at'.trans_ne Place.noConfusion) (by rw [at']; rfl)
  | sigactionUsr1 at' =>
    exact kept.register alive SIGUSR1 (by decide) (at'.trans_ne Place.noConfusion) (by rw [at']; rfl)
  | sigactionUsr2 at' =>
    exact kept.register alive SIGUSR2 (by decide) (at'.trans_ne Place.noConfusion) (by rw [at']; rfl)
  | sleep => exact kept

private theorem handler_kept (kept : Kept state) (step : Handler state after) : Kept after := by
  cases step with
  | @run frame frames statement rest at' next =>
    have atomic := kept.atomic
    have single := kept.single
    have others := kept.others
    simp only [State.base, at'] at atomic single others
    refine ⟨?_, single, fun _ => kept.full (at'.trans_ne (List.cons_ne_nil _ _)), others, kept.acts,
      kept.ready, kept.killers, kept.once⟩
    rw [finish, next] at atomic
    exact atomic

private theorem count_update {signo other : Signo} {pending : Signo → Bool} {handled sent : List Signo}
    (once : handled.count other + (if pending other then 1 else 0) ≤ sent.count other) :
    handled.count other + (if Function.update pending signo false other then 1 else 0) ≤
      sent.count other := by
  by_cases same : other = signo
  · rw [same] at once ⊢
    rw [Function.update_self]
    exact Nat.le_trans (Nat.le_add_right _ _) once
  · rwa [Function.update_of_ne same]

private theorem kernel_kept (kept : Kept state) (step : Kernel state after) : Kept after := by
  cases step with
  | @send signo known =>
    refine ⟨kept.atomic, kept.single, kept.full, kept.others, kept.acts, kept.ready, kept.killers,
      fun other => ?_⟩
    have once := kept.once other
    by_cases same : other = signo
    · subst same
      simp only [Function.update_self, if_true, List.count_append, List.count_singleton_self]
      omega
    · simp only [Function.update_of_ne same, List.count_append]
      omega
  | @handle signo saMask pending unblocked handler =>
    obtain ⟨mask, one⟩ := kept.acts signo saMask handler
    have free := kept.free unblocked (notMem_reserved one)
    have atomic := kept.atomic
    rw [free, finish] at atomic
    refine ⟨?_, by rw [free]; exact Nat.le_refl _, fun _ other usual => ?_,
      fun started other outside usual => ?_,
      kept.acts, kept.ready, kept.killers, fun other => ?_⟩
    · simp only [free, finish, runAll_handlerOf, atomic, applied_append]
    · rw [mask]
      exact handlerMask_full _ _ usual
    · have base := kept.others started other outside usual
      rwa [State.base, free] at base
    · have once := kept.once other
      by_cases same : other = signo
      · subst same
        simp only [pending, if_true] at once
        simpa [List.count_append] using once
      · simpa [Function.update_of_ne same, List.count_append, List.count_singleton, Ne.symm same]
          using once
  | @return' frame frames at' done =>
    have atomic := kept.atomic
    have single := kept.single
    have others := kept.others
    simp only [State.base, at', List.length_cons] at atomic single others
    obtain rfl : frames = [] := List.eq_nil_of_length_eq_zero (by omega)
    rw [finish, done, runAll] at atomic
    exact ⟨atomic, Nat.zero_le _, fun some => (some rfl).elim, others, kept.acts, kept.ready, kept.killers,
      kept.once⟩
  | ignore pending unblocked unhandled =>
    exact ⟨kept.atomic, kept.single, kept.full, kept.others, kept.acts, kept.ready, kept.killers,
      fun other => count_update (kept.once other)⟩
  | @kill signo pending unblocked default =>
    refine ⟨kept.atomic, kept.single, kept.full, kept.others, kept.acts, kept.ready,
      fun looping other dead => ?_, kept.once⟩
    -- in the loop only the three signals can be blocked and are not, and they have their handlers
    change state.place = .loop at looping
    obtain rfl := Option.some.inj dead
    by_contra usual
    by_cases inside : signo ∈ Place.loop.registered
    · have handled := kept.ready signo (looping ▸ inside)
      rw [default] at handled
      cases handled
    · have base := kept.others (looping.trans_ne Place.noConfusion) signo inside usual
      rw [State.base, kept.free unblocked usual] at base
      exact (Bool.false_ne_true (unblocked.symm.trans base)).elim

private theorem kept (reachable : program.Reachable state) : Kept state := by
  refine reachable.invariant Kept (fun _ => Starts.kept) ?_
  intro state after kept step
  cases step with
  | main alive free step => exact main_kept kept alive free step
  | handler alive step => exact handler_kept kept step
  | kernel alive step => exact kernel_kept kept step

/-- The handlers never interrupt each other; together they do what they would do as single steps, so
that no increment is lost and what `int_handler` prints are the counts at one moment; no signal is
counted more often than it came; and once the program is in its loop only what cannot be blocked ends
it. -/
structure Counts (state : State) : Prop where
  single : state.frames.length ≤ 1
  atomic : finish state.frames state.memory = applied state.handled
  counts : state.frames = [] → state.memory.usr1Count = .ofNat 32 (state.handled.count SIGUSR1) ∧
    state.memory.usr2Count = .ofNat 32 (state.handled.count SIGUSR2)
  once : ∀ signo, state.handled.count signo ≤ state.sent.count signo
  killers : state.place = .loop → ∀ signo, state.killed = some signo → signo ∈ reserved

/-- Whenever the signals come, each is counted as if its handler ran in one step. -/
theorem counts_signals (reachable : program.Reachable state) : Counts state := by
  have kept := kept reachable
  refine ⟨kept.single, kept.atomic, fun free => ?_, fun signo => ?_, kept.killers⟩
  · have atomic := kept.atomic
    rw [free, finish] at atomic
    rw [atomic]
    exact applied_counts state.handled
  · exact Nat.le_trans (Nat.le_add_right _ _) (kept.once signo)

/-- `SIGUSR1` and `SIGINT`, with another `SIGUSR1` behind the first line that is printed. -/
theorem counts_signals_print : ∃ state, program.Reachable state ∧ state.handled = [SIGUSR1, SIGINT] ∧
    state.pending SIGUSR1 = true ∧ state.memory.printed = [.usr1 1, .usr2 0] ∧ Counts state := by
  let begun : State :=
    ⟨.sigprocmask, sigemptyset, fun _ => .default, fun _ => false, [], ⟨0, 0, []⟩, [], [], none⟩
  have start : program.Reachable begun := .start ⟨rfl, nofun, nofun, rfl, rfl, rfl, rfl⟩
  have masked := start.next (.main rfl rfl (.sigprocmask rfl))
  have first := masked.next (.main rfl rfl (.sigactionInt rfl))
  have second := first.next (.main rfl rfl (.sigactionUsr1 rfl))
  have looping := second.next (.main rfl rfl (.sigactionUsr2 rfl))
  have known : SIGUSR1 ≠ SIGKILL ∧ SIGUSR1 ≠ SIGSTOP := by decide
  have sent := looping.next (.kernel rfl (.send known))
  have handling := sent.next (.kernel rfl (@Kernel.handle _ SIGUSR1 sigfillset rfl rfl rfl))
  have loaded := handling.next (.handler rfl (.run rfl rfl))
  have stored := loaded.next (.handler rfl (.run rfl rfl))
  have returned := stored.next (.kernel rfl (.return' rfl rfl))
  have interrupt : SIGINT ≠ SIGKILL ∧ SIGINT ≠ SIGSTOP := by decide
  have again := returned.next (.kernel rfl (.send interrupt))
  have interrupted := again.next (.kernel rfl (@Kernel.handle _ SIGINT sigfillset rfl rfl rfl))
  have line := interrupted.next (.handler rfl (.run rfl rfl))
  have printed := (line.next (.kernel rfl (.send known))).next (.handler rfl (.run rfl rfl))
  exact ⟨_, printed, rfl, rfl, rfl, counts_signals printed⟩

end Lsnp.Signals.Counting
