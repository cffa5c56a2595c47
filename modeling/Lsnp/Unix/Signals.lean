import Mathlib.Logic.Function.Basic

namespace Lsnp.Unix

abbrev Signo := Nat

def SIGINT : Signo := 2
def SIGUSR1 : Signo := 10
def SIGUSR2 : Signo := 12

abbrev SignalSet := Signo → Bool

/-- What the library keeps for itself (`SIGCANCEL` and `SIGSETXID`); these are never blocked. -/
def reserved : List Signo := [32, 33]

def sigfillset : SignalSet := fun signo => signo ∉ reserved

def sigemptyset : SignalSet := fun _ => false

def sigaddset (set : SignalSet) (signo : Signo) : SignalSet :=
  Function.update set signo true

def sigdelset (set : SignalSet) (signo : Signo) : SignalSet :=
  Function.update set signo false

/-- `SIG_DFL`, `SIG_IGN`, or a handler with the signals that are blocked while it runs. -/
inductive Disposition where
  | default
  | ignore
  | handler (mask : SignalSet)

/-- The table of a process, which `fork` copies. -/
abbrev Dispositions := Signo → Disposition

def sigaction (dispositions : Dispositions) (signo : Signo) (disposition : Disposition) :
    Dispositions :=
  Function.update dispositions signo disposition

/-- What is left of the table behind `execvp`: there is no handler any more. -/
def Dispositions.exec (dispositions : Dispositions) : Dispositions := fun signo =>
  match dispositions signo with
  | .handler _ => .default
  | other => other

/-- What `pthread_sigmask` makes of the mask of a thread. -/
inductive How where
  | block
  | unblock
  | setmask

def sigmask (how : How) (mask set : SignalSet) : SignalSet := fun signo =>
  match how with
  | .block => mask signo || set signo
  | .unblock => mask signo && !set signo
  | .setmask => set signo

/-- A thread blocks these while a handler with this mask runs. -/
def handlerMask (mask saMask : SignalSet) (signo : Signo) : SignalSet :=
  sigaddset (sigmask .block mask saMask) signo

theorem sigmask_unblock {mask : SignalSet} {signo other : Signo}
    (unblocked : sigmask .unblock mask (sigaddset sigemptyset signo) other = false) :
    mask other = false ∨ other = signo := by
  by_cases same : other = signo
  · exact .inr same
  · simp [sigmask, sigaddset, sigemptyset, Function.update_of_ne same] at unblocked
    exact .inl unblocked

theorem handlerMask_unblocked {mask saMask : SignalSet} {signo other : Signo}
    (unblocked : handlerMask mask saMask signo other = false) : mask other = false := by
  by_cases same : other = signo
  · rw [same, handlerMask, sigaddset, Function.update_self] at unblocked
    cases unblocked
  · rw [handlerMask, sigaddset, Function.update_of_ne same, sigmask] at unblocked
    exact (Bool.or_eq_false_iff.mp unblocked).1

theorem sigaction_self (dispositions : Dispositions) (signo : Signo) (disposition : Disposition) :
    sigaction dispositions signo disposition signo = disposition :=
  Function.update_self ..

theorem sigaction_of_ne (dispositions : Dispositions) {signo other : Signo}
    (disposition : Disposition) (apart : other ≠ signo) :
    sigaction dispositions signo disposition other = dispositions other :=
  Function.update_of_ne apart ..

end Lsnp.Unix
