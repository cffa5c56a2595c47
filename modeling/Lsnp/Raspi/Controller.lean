import Mathlib.Logic.Function.Basic
import Lsnp.Interaction.Machine

/-! The menu of `raspi/main.c` and the threads that it starts for the light sensor. They
read the word from the buffer into which `main` goes on to write. -/

namespace Lsnp.Raspi

open Lsnp.Interaction

/-- Where `main` is: in front of the menu, in a `scanf` for a word, in `pthread_join`, or
behind `pthread_cancel`. Nothing is known of a run that has got to `undefined`. -/
inductive Place where
  | menu
  | led
  | join
  | cds
  | cancelled
  | exited (status : Int)
  | undefined
  deriving DecidableEq

/-- Where a thread in `cds_thread` is: in front of the `strcmp` of `cds_function`, or in its
loop. -/
inductive Progress where
  | notCreated
  | starting
  | looping
  | ended
  deriving DecidableEq

structure CdsThread where
  progress : Progress
  cancelRequested : Bool
  deriving DecidableEq

/-- What `pthread_cancel` is applied to: the thread in `tid2`, if there is one, and whether
that is running. -/
structure Cancel where
  tid2 : Option Nat
  running : Bool
  deriving DecidableEq

/-- The threads have the numbers in which they are created. `off` tells that the last word
for the sensor is `OFF`. -/
structure State where
  place : Place
  buf : List Char
  tid2 : Option Nat
  created : Nat
  threads : Nat → CdsThread
  cancels : List Cancel
  off : Bool

def CdsThread.running (thread : CdsThread) : Bool :=
  match thread.progress with
  | .starting | .looping => true
  | .notCreated | .ended => false

def State.go (state : State) (number : Nat) (thread : CdsThread) : State :=
  { state with threads := Function.update state.threads number thread }

/-- What a run is given: a number for the menu, the letters of a word and its end; `main`
goes on by itself from a call. -/
inductive Input where
  | choose (menu : Int)
  | letter (c : Char)
  | enter
  | proceed

/-- `memset` and the call of `scanf` for a word. -/
def State.ask (state : State) (place : Place) : State :=
  { state with place := place, buf := [] }

def quits (word : List Char) : Bool :=
  word == ['Q'] || word == ['q']

/-- Whether `tid2` is a thread that is running. -/
def State.controls (state : State) : Bool :=
  match state.tid2 with
  | some number => (state.threads number).running
  | none => false

/-- `pthread_cancel(tid2)`. The cancellation of no thread has no meaning. -/
def State.cancel (state : State) : State :=
  let asked : State := { state with
    cancels := state.cancels ++ [⟨state.tid2, state.controls⟩]
    off := true }
  match state.tid2 with
  | some number =>
      if (state.threads number).running then
        { asked.go number { state.threads number with cancelRequested := true } with
          place := .cancelled }
      else { asked with place := .undefined }
  | none => { asked with place := .undefined }

/-- `pthread_create(&tid2, NULL, cds_thread, buf)` and `pthread_detach`. -/
def State.create (state : State) : State :=
  { state.go state.created ⟨.starting, false⟩ with
    place := .menu
    tid2 := some state.created
    created := state.created + 1
    off := false }

/-- A step of `main`. A word of more than 79 letters does not fit in `buf`. -/
inductive Main (state : State) : Input → State → Prop where
  | led (at' : state.place = .menu) : Main state (.choose 1) (state.ask .led)
  | cds (at' : state.place = .menu) : Main state (.choose 2) (state.ask .cds)
  | exit (at' : state.place = .menu) : Main state (.choose 3) { state with place := .exited 0 }
  | other {menu : Int} (at' : state.place = .menu) (unknown : menu ≠ 1 ∧ menu ≠ 2 ∧ menu ≠ 3) :
      Main state (.choose menu) state
  | letter {c : Char} (at' : state.place = .led ∨ state.place = .cds)
      (fits : state.buf.length < 79) :
      Main state (.letter c) { state with buf := state.buf ++ [c] }
  | overflow {c : Char} (at' : state.place = .led ∨ state.place = .cds)
      (full : 79 ≤ state.buf.length) :
      Main state (.letter c) { state with place := .undefined }
  | quit (at' : state.place = .led) (quits : quits state.buf = true) :
      Main state .enter { state with place := .menu }
  | ledThread (at' : state.place = .led) (goes : quits state.buf = false) :
      Main state .enter { state with place := .join }
  | ledFails (at' : state.place = .led) (goes : quits state.buf = false) :
      Main state .enter { state with place := .exited (-1) }
  | joined (at' : state.place = .join) : Main state .proceed (state.ask .led)
  | cancel (at' : state.place = .cds) (word : state.buf = ['O', 'F', 'F']) :
      Main state .enter state.cancel
  | create (at' : state.place = .cds) (word : state.buf ≠ ['O', 'F', 'F']) :
      Main state .enter state.create
  | createFails (at' : state.place = .cds) (word : state.buf ≠ ['O', 'F', 'F']) :
      Main state .enter { state with place := .exited (-1), off := false }
  | back (at' : state.place = .cancelled) : Main state .proceed { state with place := .menu }

/-- A step of `cds_thread`, which a request ends at a call of `delay` or of another function
that looks for one. -/
inductive Cds (number : Nat) (state : State) : State → Prop where
  | dlopenFails (at' : (state.threads number).progress = .starting) :
      Cds number state (state.go number { state.threads number with progress := .ended })
  | on (at' : (state.threads number).progress = .starting) (word : state.buf = ['O', 'N']) :
      Cds number state (state.go number { state.threads number with progress := .looping })
  | returns (at' : (state.threads number).progress = .starting) (word : state.buf ≠ ['O', 'N']) :
      Cds number state (state.go number { state.threads number with progress := .ended })
  | cancelled (running : (state.threads number).running = true)
      (requested : (state.threads number).cancelRequested = true) :
      Cds number state (state.go number { state.threads number with progress := .ended })

/-- The process, given what meets a condition in the state that it meets. -/
def raspiWith (condition : State → Input → Prop) : Machine State where
  initial state := state.place = .menu ∧ state.tid2 = none ∧ state.created = 0 ∧
    (∀ number, state.threads number = ⟨.notCreated, false⟩) ∧ state.cancels = [] ∧
    state.off = false
  step state after := (∃ input, condition state input ∧ Main state input after) ∨
    (∀ status, state.place ≠ .exited status) ∧ state.place ≠ .undefined ∧
      ∃ number, Cds number state after

def raspi : Machine State :=
  raspiWith fun _ _ => True

/-- There is one controller of the sensor at most, each cancellation is of one that runs, and
none runs once `main` is back from the one of the last `OFF`. -/
structure OneController (state : State) : Prop where
  alone : ∀ one two, (state.threads one).running = true → (state.threads two).running = true →
    one = two
  cancels : ∀ cancel ∈ state.cancels, cancel.tid2.isSome = true ∧ cancel.running = true
  off : state.off = true → state.place = .cancelled ∨
    ∀ number, (state.threads number).running = false
  defined : state.place ≠ .undefined

/-- The condition: a word fits, `OFF` comes where `tid2` is a thread that is running and any
other word where none is, and the thread has ended when `main` goes on behind
`pthread_cancel`. -/
def Careful (state : State) : Input → Prop
  | .choose _ => True
  | .letter _ => state.buf.length < 79
  | .enter =>
      state.place = .cds → if state.buf = ['O', 'F', 'F'] then state.controls = true
        else ∀ number, (state.threads number).running = false
  | .proceed => state.place = .cancelled → ∀ number, (state.threads number).running = false

variable {state after : State}

private theorem running_go {number other : Nat} {thread : CdsThread}
    (runs : ((state.go number thread).threads other).running = true) :
    (other = number ∧ thread.running = true) ∨
      (other ≠ number ∧ (state.threads other).running = true) := by
  change (Function.update state.threads number thread other).running = true at runs
  by_cases same : other = number
  · rw [same, Function.update_self] at runs
    exact .inl ⟨same, runs⟩
  · rw [Function.update_of_ne same] at runs
    exact .inr ⟨same, runs⟩

/-- Another thread than the ones of the state before does not come to run. -/
private def Fewer (state after : State) : Prop :=
  ∀ number, (after.threads number).running = true → (state.threads number).running = true

private theorem fewer_go {number : Nat} {thread : CdsThread}
    (before : thread.running = true → (state.threads number).running = true) :
    Fewer state (state.go number thread) := by
  intro other runs
  rcases running_go runs with ⟨same, here⟩ | ⟨_, there⟩
  · rw [same]
    exact before here
  · exact there

private theorem Fewer.none (fewer : Fewer state after)
    (stopped : ∀ number, (state.threads number).running = false) (number : Nat) :
    (after.threads number).running = false := by
  apply Bool.eq_false_iff.mpr
  intro runs
  exact Bool.eq_false_iff.mp (stopped number) (fewer number runs)

private theorem OneController.fewer (one : OneController state) (fewer : Fewer state after)
    (cancels : after.cancels = state.cancels) (off : after.off = true → state.off = true)
    (back : state.place = .cancelled → after.place = .cancelled ∨
      ∀ number, (state.threads number).running = false)
    (defined : after.place ≠ .undefined) : OneController after where
  alone first second runs runs' := one.alone first second (fewer first runs) (fewer second runs')
  cancels := by
    rw [cancels]
    exact one.cancels
  off asked := by
    rcases one.off (off asked) with at' | stopped
    · exact (back at').imp_right fewer.none
    · exact .inr (fewer.none stopped)
  defined := defined

theorem OneController.create (one : OneController state)
    (stopped : ∀ number, (state.threads number).running = false) :
    OneController state.create where
  alone first second runs runs' := by
    have created : ∀ {number}, (state.create.threads number).running = true →
        number = state.created := by
      intro number runs
      rcases running_go runs with ⟨same, _⟩ | ⟨_, before⟩
      · exact same
      · exact (Bool.eq_false_iff.mp (stopped number) before).elim
    rw [created runs, created runs']
  cancels := one.cancels
  off asked := by cases asked
  defined := by simp [State.create]

theorem OneController.cancel (one : OneController state) (controls : state.controls = true) :
    OneController state.cancel := by
  cases named : state.tid2 with
  | none => simp [State.controls, named] at controls
  | some number =>
    have running : (state.threads number).running = true := by
      simpa [State.controls, named] using controls
    have fewer : Fewer state state.cancel := by
      simp only [State.cancel, named, if_pos running]
      exact fewer_go fun _ => running
    have shape : state.cancel.cancels = state.cancels ++ [⟨state.tid2, state.controls⟩] ∧
        state.cancel.place = .cancelled := by
      simp [State.cancel, named, if_pos running, State.go]
    refine ⟨fun first second runs runs' => ?_, fun cancel member => ?_, fun _ => .inl shape.2, ?_⟩
    · exact one.alone first second (fewer first runs) (fewer second runs')
    · rw [shape.1] at member
      rcases List.mem_append.mp member with before | last
      · exact one.cancels cancel before
      · obtain rfl := List.mem_singleton.mp last
        exact ⟨by simp [named], controls⟩
    · simp [shape.2]

theorem Main.one {input : Input} (one : OneController state) (careful : Careful state input)
    (step : Main state input after) : OneController after := by
  have same : Fewer state state := fun _ => id
  cases step with
  | led at' => exact one.fewer same rfl id (by simp [at']) (by simp [State.ask])
  | cds at' => exact one.fewer same rfl id (by simp [at']) (by simp [State.ask])
  | exit at' => exact one.fewer same rfl id (by simp [at']) (by simp)
  | other at' unknown => exact one
  | letter at' fits => exact one.fewer same rfl id .inl one.defined
  | overflow at' full => exact absurd careful (Nat.not_lt.mpr full)
  | quit at' quits => exact one.fewer same rfl id (by simp [at']) (by simp)
  | ledThread at' goes => exact one.fewer same rfl id (by simp [at']) (by simp)
  | ledFails at' goes => exact one.fewer same rfl id (by simp [at']) (by simp)
  | joined at' => exact one.fewer same rfl id (by simp [at']) (by simp [State.ask])
  | cancel at' word =>
    apply one.cancel
    simpa [word] using careful at'
  | create at' word =>
    apply one.create
    simpa [word] using careful at'
  | createFails at' word => exact one.fewer same rfl (by simp) (by simp [at']) (by simp)
  | back at' => exact one.fewer same rfl id (fun _ => .inr (careful at')) (by simp)

theorem Cds.one {number : Nat} (one : OneController state) (step : Cds number state after) :
    OneController after := by
  have goes : ∀ {progress : Progress}, (state.threads number).running = true →
      OneController (state.go number { state.threads number with progress := progress }) := by
    intro progress running
    exact one.fewer (fewer_go fun _ => running) rfl id .inl one.defined
  cases step with
  | dlopenFails at' => exact goes (by simp [CdsThread.running, at'])
  | on at' _ => exact goes (by simp [CdsThread.running, at'])
  | returns at' _ => exact goes (by simp [CdsThread.running, at'])
  | cancelled running _ => exact goes running

/-- In every run whose inputs all meet the condition there is one controller at most. -/
theorem one_controller (reachable : (raspiWith Careful).Reachable state) :
    OneController state := by
  apply reachable.invariant OneController
  · rintro state ⟨place, _, _, threads, cancels, off⟩
    refine ⟨fun one _ runs => ?_, by simp [cancels], by simp [off], by simp [place]⟩
    rw [threads] at runs
    cases runs
  · rintro state after one (⟨input, careful, step⟩ | ⟨_, _, number, step⟩)
    · exact step.one one careful
    · exact step.one one

private def fresh : State :=
  ⟨.menu, [], none, 0, fun _ => ⟨.notCreated, false⟩, [], false⟩

private theorem fresh_reachable (condition : State → Input → Prop) :
    (raspiWith condition).Reachable fresh :=
  .start ⟨rfl, rfl, rfl, fun _ => rfl, rfl, rfl⟩

private theorem Careful.on {state : State} (word : state.buf ≠ ['O', 'F', 'F'])
    (stopped : ∀ number, (state.threads number).running = false) : Careful state .enter := by
  intro _
  rw [if_neg word]
  exact stopped

/-- `ON`, `OFF` when that controller runs, and `ON` again when it has ended. -/
theorem one_controller_on : ∃ state, (raspiWith Careful).Reachable state ∧
    state.cancels = [⟨some 0, true⟩] ∧ (state.threads 0).progress = .ended ∧
      (state.threads 1).running = true ∧ OneController state := by
  have on := (fresh_reachable Careful)
    |>.next (.inl ⟨.choose 2, trivial, .cds rfl⟩)
    |>.next (.inl ⟨.letter 'O', Nat.succ_pos 78, .letter (.inr rfl) (Nat.succ_pos 78)⟩)
    |>.next (.inl ⟨.letter 'N', Nat.le_add_left 2 77, .letter (.inr rfl) (Nat.le_add_left 2 77)⟩)
    |>.next (.inl ⟨.enter, .on (by simp [State.ask]) fun _ => rfl, .create rfl (by simp [State.ask])⟩)
    |>.next (.inr ⟨nofun, nofun, 0, .on rfl rfl⟩)
  have off := on
    |>.next (.inl ⟨.choose 2, trivial, .cds rfl⟩)
    |>.next (.inl ⟨.letter 'O', Nat.succ_pos 78, .letter (.inr rfl) (Nat.succ_pos 78)⟩)
    |>.next (.inl ⟨.letter 'F', Nat.le_add_left 2 77, .letter (.inr rfl) (Nat.le_add_left 2 77)⟩)
    |>.next (.inl ⟨.letter 'F', Nat.le_add_left 3 76, .letter (.inr rfl) (Nat.le_add_left 3 76)⟩)
    |>.next (.inl ⟨.enter, fun _ => rfl, .cancel rfl rfl⟩)
    |>.next (.inr ⟨nofun, nofun, 0, .cancelled rfl rfl⟩)
  have again := off
    |>.next (.inl ⟨.proceed, fun _ => by rintro (_ | _) <;> rfl, .back rfl⟩)
    |>.next (.inl ⟨.choose 2, trivial, .cds rfl⟩)
    |>.next (.inl ⟨.letter 'O', Nat.succ_pos 78, .letter (.inr rfl) (Nat.succ_pos 78)⟩)
    |>.next (.inl ⟨.letter 'N', Nat.le_add_left 2 77, .letter (.inr rfl) (Nat.le_add_left 2 77)⟩)
    |>.next (.inl ⟨.enter, .on (by simp [State.ask]) (by rintro (_ | _) <;> rfl),
      .create rfl (by simp [State.ask])⟩)
  exact ⟨_, again, rfl, rfl, rfl, one_controller again⟩

/-- `ON` once more. -/
theorem not_one_controller : ¬ ∀ state, raspi.Reachable state → OneController state := by
  intro claimed
  have run := (fresh_reachable fun _ _ => True)
    |>.next (.inl ⟨.choose 2, trivial, .cds rfl⟩)
    |>.next (.inl ⟨.letter 'O', trivial, .letter (.inr rfl) (Nat.succ_pos 78)⟩)
    |>.next (.inl ⟨.letter 'N', trivial, .letter (.inr rfl) (Nat.le_add_left 2 77)⟩)
    |>.next (.inl ⟨.enter, trivial, .create rfl (by simp [State.ask])⟩)
    |>.next (.inl ⟨.choose 2, trivial, .cds rfl⟩)
    |>.next (.inl ⟨.letter 'O', trivial, .letter (.inr rfl) (Nat.succ_pos 78)⟩)
    |>.next (.inl ⟨.letter 'N', trivial, .letter (.inr rfl) (Nat.le_add_left 2 77)⟩)
    |>.next (.inl ⟨.enter, trivial, .create rfl (by simp [State.ask])⟩)
  have same := (claimed _ run).alone 0 1 rfl rfl
  cases same

end Lsnp.Raspi
