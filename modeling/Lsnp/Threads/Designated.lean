import Lsnp.Interaction.Machine
import Lsnp.Unix.Signals

/-! The threads of `ch08/ex09.c`, of which each is there for one signal. A run begins
behind the `pthread_sigmask` of `main`, and signals come to the process at any time. -/

namespace Lsnp.Threads.Designated

open Lsnp.Interaction Lsnp.Unix

inductive Name where
  | main
  | thread1
  | thread2
  deriving DecidableEq

/-- Where a thread is: `main` in front of one of its calls, and the others in front of
`sigaction`, of `pthread_sigmask`, or in the loop. -/
inductive Place where
  | notCreated
  | create1
  | create2
  | join1
  | join2
  | sigaction
  | sigmask
  | loop (i : Nat)
  | returned
  deriving DecidableEq

/-- The handlers that a thread is in are kept with the masks to which they return. -/
structure Thread where
  place : Place
  mask : SignalSet
  handling : List (Signo × SignalSet)

inductive Ending where
  | exited (status : Nat)
  | killed (signo : Signo)
  deriving DecidableEq

/-- The process; `handled` tells which thread ran `sig_handler` for which signal. -/
structure State where
  dispositions : Dispositions
  pending : Signo → Bool
  threads : Name → Thread
  handled : List (Name × Signo)
  ending : Option Ending

def State.go (state : State) (name : Name) (thread : Thread) : State :=
  { state with threads := Function.update state.threads name thread }

def Thread.alive (thread : Thread) : Prop :=
  thread.place ≠ .notCreated ∧ thread.place ≠ .returned

/-- `act` of the two thread functions. -/
def act : Disposition :=
  .handler sigfillset

/-- A step of `thread1_function` or of `thread2_function`, which differ in the signal. -/
inductive ThreadFunction (name : Name) (signo : Signo) (state : State) : State → Prop where
  | sigaction (at' : (state.threads name).place = .sigaction) :
      ThreadFunction name signo state { state.go name { state.threads name with
          place := .sigmask } with
        dispositions := Unix.sigaction state.dispositions signo act }
  | sigmask (at' : (state.threads name).place = .sigmask) :
      ThreadFunction name signo state (state.go name { state.threads name with
        place := .loop 0
        mask := Unix.sigmask .unblock (state.threads name).mask (sigaddset sigemptyset signo) })
  | print {i : Nat} (at' : (state.threads name).place = .loop i) (more : i < 10) :
      ThreadFunction name signo state (state.go name { state.threads name with
        place := .loop (i + 1) })
  | return' {i : Nat} (at' : (state.threads name).place = .loop i) (done : 10 ≤ i) :
      ThreadFunction name signo state (state.go name { state.threads name with
        place := .returned })

def Thread1Function : State → State → Prop :=
  ThreadFunction .thread1 SIGUSR1

def Thread2Function : State → State → Prop :=
  ThreadFunction .thread2 SIGUSR2

/-- A new thread has the mask of the one that creates it. -/
def State.create (state : State) (name : Name) (next : Place) : State :=
  (state.go .main { state.threads .main with place := next }).go name
    { place := .sigaction, mask := (state.threads .main).mask, handling := [] }

/-- A step of `main`. Its return ends the process. -/
inductive Main (state : State) : State → Prop where
  | create1 (at' : (state.threads .main).place = .create1) :
      Main state (state.create .thread1 .create2)
  | create2 (at' : (state.threads .main).place = .create2) :
      Main state (state.create .thread2 .join1)
  | createFails (at' : (state.threads .main).place = .create1 ∨
        (state.threads .main).place = .create2) :
      Main state { state with ending := some (.exited 1) }
  | join1 (at' : (state.threads .main).place = .join1)
      (returned : (state.threads .thread1).place = .returned) :
      Main state (state.go .main { state.threads .main with place := .join2 })
  | join2 (at' : (state.threads .main).place = .join2)
      (returned : (state.threads .thread2).place = .returned) :
      Main state { state.go .main { state.threads .main with place := .returned } with
        ending := some (.exited 0) }

/-- What the kernel does about the signals: it gives a pending one to any thread that does
not block it. -/
inductive Kernel (state : State) : State → Prop where
  | send {signo : Signo} (known : signo ∈ [SIGINT, SIGUSR1, SIGUSR2]) :
      Kernel state { state with pending := Function.update state.pending signo true }
  | handle {name : Name} {signo : Signo} {saMask : SignalSet}
      (pending : state.pending signo = true) (alive : (state.threads name).alive)
      (unblocked : (state.threads name).mask signo = false)
      (handler : state.dispositions signo = .handler saMask) :
      Kernel state { state.go name { state.threads name with
          mask := handlerMask (state.threads name).mask saMask signo
          handling := (signo, (state.threads name).mask) :: (state.threads name).handling } with
        pending := Function.update state.pending signo false
        handled := state.handled ++ [(name, signo)] }
  | handled {name : Name} {signo : Signo} {saved : SignalSet} {rest : List (Signo × SignalSet)}
      (alive : (state.threads name).alive)
      (handling : (state.threads name).handling = (signo, saved) :: rest) :
      Kernel state (state.go name { state.threads name with mask := saved, handling := rest })
  | ignore {name : Name} {signo : Signo}
      (pending : state.pending signo = true) (alive : (state.threads name).alive)
      (unblocked : (state.threads name).mask signo = false)
      (ignored : state.dispositions signo = .ignore) :
      Kernel state { state with pending := Function.update state.pending signo false }
  | kill {name : Name} {signo : Signo}
      (pending : state.pending signo = true) (alive : (state.threads name).alive)
      (unblocked : (state.threads name).mask signo = false)
      (default : state.dispositions signo = .default) :
      Kernel state { state with ending := some (.killed signo) }

/-- A thread goes on by itself where it is in no handler. -/
inductive Step (state : State) : State → Prop where
  | main {after : State} (free : (state.threads .main).handling = []) (step : Main state after) :
      Step state after
  | thread1 {after : State} (free : (state.threads .thread1).handling = [])
      (step : Thread1Function state after) : Step state after
  | thread2 {after : State} (free : (state.threads .thread2).handling = [])
      (step : Thread2Function state after) : Step state after
  | kernel {after : State} (step : Kernel state after) : Step state after

/-- `newmask` of `main`. -/
def newmask : SignalSet :=
  sigdelset sigfillset SIGINT

/-- Any signals may be pending, and none has a handler behind `execvp`. -/
def process : Machine State where
  initial state := (∃ inherited : Dispositions, state.dispositions = inherited.exec) ∧
    (∀ signo, state.pending signo = true → signo ∈ [SIGINT, SIGUSR1, SIGUSR2]) ∧
    state.threads .main = ⟨.create1, newmask, []⟩ ∧
    (∀ name, name ≠ .main → (state.threads name).place = .notCreated) ∧
    state.handled = [] ∧ state.ending = none
  step state after := state.ending = none ∧ Step state after

/-- Each signal is for its thread, and neither kills the process. -/
structure Served (state : State) : Prop where
  usr1 : ∀ name, (name, SIGUSR1) ∈ state.handled → name = .thread1
  usr2 : ∀ name, (name, SIGUSR2) ∈ state.handled → name = .thread2
  alive : state.ending ≠ some (.killed SIGUSR1) ∧ state.ending ≠ some (.killed SIGUSR2)

variable {state after : State}

def Serves : Name → Signo → Prop
  | .main, _ => False
  | .thread1, signo => signo = SIGUSR1
  | .thread2, signo => signo = SIGUSR2

/-- The mask lets no signal through but that of the thread, once it has a handler. -/
def Guards (dispositions : Dispositions) (name : Name) (mask : SignalSet) : Prop :=
  ∀ signo, signo = SIGUSR1 ∨ signo = SIGUSR2 → mask signo = false →
    Serves name signo ∧ ∃ saMask, dispositions signo = .handler saMask

def Thread.Guarded (thread : Thread) (dispositions : Dispositions) (name : Name) : Prop :=
  thread.alive → Guards dispositions name thread.mask ∧
    (∀ entry ∈ thread.handling, Guards dispositions name entry.2)

/-- Behind its `sigaction` a thread has its handler. -/
def Thread.Installed (thread : Thread) (dispositions : Dispositions) (name : Name) : Prop :=
  thread.place = .sigmask → ∀ signo, Serves name signo →
    ∃ saMask, dispositions signo = .handler saMask

structure Invariant (state : State) : Prop where
  guarded : ∀ name, (state.threads name).Guarded state.dispositions name
  installed : ∀ name, (state.threads name).Installed state.dispositions name
  handled : ∀ entry ∈ state.handled, entry.2 = SIGUSR1 ∨ entry.2 = SIGUSR2 →
    Serves entry.1 entry.2
  ending : ∀ signo, signo = SIGUSR1 ∨ signo = SIGUSR2 → state.ending ≠ some (.killed signo)

private theorem Guards.mono {dispositions dispositions' : Dispositions} {name : Name}
    {mask mask' : SignalSet} (guards : Guards dispositions name mask)
    (unblocked : ∀ signo, mask' signo = false → mask signo = false)
    (handlers : ∀ signo, (∃ saMask, dispositions signo = .handler saMask) →
      ∃ saMask, dispositions' signo = .handler saMask) : Guards dispositions' name mask' := by
  intro signo designated open'
  obtain ⟨serves, installed⟩ := guards signo designated (unblocked signo open')
  exact ⟨serves, handlers signo installed⟩

private theorem Invariant.go {name : Name} {thread : Thread} (invariant : Invariant state)
    (guarded : thread.Guarded state.dispositions name)
    (installed : thread.Installed state.dispositions name) : Invariant (state.go name thread) where
  guarded := by
    apply (Function.forall_update_iff _ fun name thread =>
      Thread.Guarded thread state.dispositions name).mpr
    exact ⟨guarded, fun other _ => invariant.guarded other⟩
  installed := by
    apply (Function.forall_update_iff _ fun name thread =>
      Thread.Installed thread state.dispositions name).mpr
    exact ⟨installed, fun other _ => invariant.installed other⟩
  handled := invariant.handled
  ending := invariant.ending

private theorem Invariant.go_place {name : Name} {place : Place} (invariant : Invariant state)
    (alive : (state.threads name).alive) (passed : place ≠ .sigmask) :
    Invariant (state.go name { state.threads name with place := place }) :=
  invariant.go (fun _ => invariant.guarded name alive) fun here => (passed here).elim

private theorem alive_at {name : Name} {place : Place} (at' : (state.threads name).place = place)
    (created : place ≠ .notCreated) (here : place ≠ .returned) : (state.threads name).alive := by
  rw [Thread.alive, at']
  exact ⟨created, here⟩

private theorem handler_sigaction {dispositions : Dispositions} {signo other : Signo}
    (handler : ∃ saMask, dispositions other = .handler saMask) :
    ∃ saMask, sigaction dispositions signo act other = .handler saMask := by
  by_cases same : other = signo
  · rw [same, sigaction_self]
    exact ⟨_, rfl⟩
  · rw [sigaction_of_ne _ _ same]
    exact handler

private theorem Invariant.sigaction (invariant : Invariant state) (signo : Signo) :
    Invariant { state with dispositions := sigaction state.dispositions signo act } where
  guarded name alive := by
    obtain ⟨now, saved⟩ := invariant.guarded name alive
    refine ⟨now.mono (fun _ => id) fun _ => handler_sigaction, fun entry member => ?_⟩
    exact (saved entry member).mono (fun _ => id) fun _ => handler_sigaction
  installed name here other serves := handler_sigaction (invariant.installed name here other serves)
  handled := invariant.handled
  ending := invariant.ending

theorem ThreadFunction.invariant {name : Name} {signo : Signo} (invariant : Invariant state)
    (serves : ∀ other, Serves name other ↔ other = signo)
    (step : ThreadFunction name signo state after) : Invariant after := by
  cases step with
  | sigaction at' =>
    have installed := invariant.sigaction signo
    apply installed.go
    · exact fun _ => installed.guarded name (alive_at at' (by simp) (by simp))
    · intro _ other mine
      rw [(serves other).mp mine]
      exact ⟨_, sigaction_self _ _ _⟩
  | sigmask at' =>
    obtain ⟨now, saved⟩ := invariant.guarded name (alive_at at' (by simp) (by simp))
    apply invariant.go
    · intro _
      refine ⟨fun other designated unblocked => ?_, saved⟩
      rcases sigmask_unblock unblocked with before | rfl
      · exact now other designated before
      · have mine := (serves other).mpr rfl
        exact ⟨mine, invariant.installed name at' other mine⟩
    · exact fun here => (nomatch here)
  | print at' more => exact invariant.go_place (alive_at at' (by simp) (by simp)) (by simp)
  | return' at' done => exact invariant.go_place (alive_at at' (by simp) (by simp)) (by simp)

private theorem Invariant.create {name : Name} {next : Place} (invariant : Invariant state)
    (alive : (state.threads .main).alive) (passed : next ≠ .sigmask) :
    Invariant (state.create name next) := by
  obtain ⟨now, saved⟩ := invariant.guarded .main alive
  apply (invariant.go_place alive passed).go
  · intro _
    refine ⟨fun signo designated unblocked => ?_, fun entry member => (nomatch member)⟩
    exact (now signo designated unblocked).1.elim
  · exact fun here => (nomatch here)

theorem Main.invariant (invariant : Invariant state) (step : Main state after) :
    Invariant after := by
  cases step with
  | create1 at' => exact invariant.create (alive_at at' (by simp) (by simp)) (by simp)
  | create2 at' => exact invariant.create (alive_at at' (by simp) (by simp)) (by simp)
  | createFails at' => exact { invariant with ending := by simp }
  | join1 at' _ => exact invariant.go_place (alive_at at' (by simp) (by simp)) (by simp)
  | join2 at' _ =>
    have gone : Invariant (state.go .main { state.threads .main with place := .returned }) :=
      invariant.go_place (alive_at at' (by simp) (by simp)) (by simp)
    exact { gone with ending := by simp }

theorem Kernel.invariant (invariant : Invariant state) (step : Kernel state after) :
    Invariant after := by
  cases step with
  | send known => exact { invariant with }
  | @handle name signo saMask pending alive unblocked handler =>
    obtain ⟨now, saved⟩ := invariant.guarded name alive
    have gone : Invariant (state.go name { state.threads name with
        mask := handlerMask (state.threads name).mask saMask signo
        handling := (signo, (state.threads name).mask) :: (state.threads name).handling }) := by
      apply invariant.go
      · intro _
        refine ⟨now.mono (fun _ => handlerMask_unblocked) fun _ => id, fun entry member => ?_⟩
        rcases List.mem_cons.mp member with rfl | before
        · exact now
        · exact saved entry before
      · exact invariant.installed name
    refine { gone with handled := fun entry member designated => ?_ }
    rcases List.mem_append.mp member with before | last
    · exact invariant.handled entry before designated
    · obtain rfl := List.mem_singleton.mp last
      exact (now signo designated unblocked).1
  | @handled name signo saved rest alive handling =>
    obtain ⟨now, before⟩ := invariant.guarded name alive
    rw [handling] at before
    apply invariant.go
    · intro _
      refine ⟨before (signo, saved) (List.mem_cons_self ..), fun entry member => ?_⟩
      exact before entry (List.mem_cons_of_mem _ member)
    · exact invariant.installed name
  | ignore pending alive unblocked ignored => exact { invariant with }
  | @kill name signo pending alive unblocked default =>
    refine { invariant with ending := fun other designated killed => ?_ }
    obtain rfl : signo = other := by simpa using killed
    obtain ⟨_, saMask, handler⟩ := (invariant.guarded name alive).1 signo designated unblocked
    rw [default] at handler
    cases handler

theorem Step.invariant (invariant : Invariant state) (step : Step state after) :
    Invariant after := by
  cases step with
  | main free step => exact step.invariant invariant
  | thread1 free step => exact step.invariant invariant fun _ => Iff.rfl
  | thread2 free step => exact step.invariant invariant fun _ => Iff.rfl
  | kernel step => exact step.invariant invariant

private theorem newmask_blocks {signo : Signo} (designated : signo = SIGUSR1 ∨ signo = SIGUSR2) :
    newmask signo = true := by
  rcases designated with rfl | rfl
  · rfl
  · rfl

theorem invariant_of_reachable (reachable : process.Reachable state) : Invariant state := by
  apply reachable.invariant Invariant
  · rintro state ⟨_, _, main, others, handled, ending⟩
    refine ⟨fun name alive => ?_, fun name here => ?_, by simp [handled], by simp [ending]⟩
    · obtain rfl : name = .main := by
        by_contra other
        exact alive.1 (others name other)
      rw [main]
      refine ⟨fun signo designated unblocked => ?_, by simp⟩
      exact (Bool.eq_false_iff.mp unblocked (newmask_blocks designated)).elim
    · by_cases same : name = .main
      · rw [same, main] at here
        cases here
      · rw [others name same] at here
        cases here
  · exact fun invariant step => step.2.invariant invariant

private theorem usr1_ne_usr2 : SIGUSR1 ≠ SIGUSR2 := by
  decide

/-- Whatever the order of the steps of the threads and of the signals that come. -/
theorem served (reachable : process.Reachable state) : Served state := by
  have invariant := invariant_of_reachable reachable
  refine ⟨fun name member => ?_, fun name member => ?_, ?_⟩
  · have serves := invariant.handled (name, SIGUSR1) member (.inl rfl)
    cases name with
    | main => exact serves.elim
    | thread1 => rfl
    | thread2 => exact (usr1_ne_usr2 serves).elim
  · have serves := invariant.handled (name, SIGUSR2) member (.inr rfl)
    cases name with
    | main => exact serves.elim
    | thread1 => exact (usr1_ne_usr2 serves.symm).elim
    | thread2 => rfl
  · exact ⟨invariant.ending SIGUSR1 (.inl rfl), invariant.ending SIGUSR2 (.inr rfl)⟩

/-- The signal comes before the thread is there, and waits for its handler. -/
theorem served_late : ∃ state, process.Reachable state ∧
    state.handled = [(.thread1, SIGUSR1)] ∧ Served state := by
  have first : process.Reachable ⟨fun _ => .default, fun _ => false,
      fun name => if name = .main then ⟨.create1, newmask, []⟩ else ⟨.notCreated, newmask, []⟩,
      [], none⟩ := by
    refine .start ⟨⟨fun _ => .default, rfl⟩, by simp, rfl, fun name other => ?_, rfl, rfl⟩
    show (if name = .main then Thread.mk .create1 newmask [] else _).place = _
    rw [if_neg other]
  have run := first
    |>.next ⟨rfl, .kernel (.send (by simp : SIGUSR1 ∈ _))⟩
    |>.next ⟨rfl, .main rfl (.create1 rfl)⟩
    |>.next ⟨rfl, .thread1 rfl (.sigaction rfl)⟩
    |>.next ⟨rfl, .thread1 rfl (.sigmask rfl)⟩
    |>.next ⟨rfl, .kernel (@Kernel.handle _ .thread1 SIGUSR1 sigfillset rfl
        (@alive_at _ .thread1 (.loop 0) rfl (by simp) (by simp)) rfl rfl)⟩
  exact ⟨_, run, rfl, served run⟩

end Lsnp.Threads.Designated
