import Mathlib.Tactic.DeriveFintype

namespace Lsnp.Unix

/-- How a process can end. Signal numbers run from 1 to 126. -/
inductive Termination where
  | exited (code : Fin 256)
  | signaled (signal : Fin 126) (core : Bool)
  deriving DecidableEq, Repr

/-- The status word of a terminated process, its bits as an unsigned number. -/
def Termination.encode : Termination → Nat
  | .exited code => code.val * 256
  | .signaled signal core => signal.val + 1 + if core then 128 else 0

/-- `WIFEXITED(status)`: `(status & 0x7f) == 0`. -/
def wifexited (status : Nat) : Bool := status % 128 == 0

/-- `WEXITSTATUS(status)`: `(status & 0xff00) >> 8`. -/
def wexitstatus (status : Nat) : Nat := status / 256 % 256

@[simp] theorem wifexited_exited (code : Fin 256) :
    wifexited (Termination.exited code).encode = true := by
  have divides : code.val * 256 % 128 = 0 := by omega
  simp [wifexited, Termination.encode, divides]

@[simp] theorem wexitstatus_exited (code : Fin 256) :
    wexitstatus (Termination.exited code).encode = code.val := by
  have bound := code.isLt
  simp only [wexitstatus, Termination.encode]
  omega

@[simp] theorem wifexited_signaled (signal : Fin 126) (core : Bool) :
    wifexited (Termination.signaled signal core).encode = false := by
  have bound := signal.isLt
  cases core <;> simp [wifexited, Termination.encode] <;> omega

theorem Termination.encode_injective : Function.Injective Termination.encode := by
  intro first second same
  cases first with
  | exited code =>
    cases second with
    | exited other =>
      have equal : code.val = other.val := by
        simpa only [wexitstatus_exited] using congrArg wexitstatus same
      exact congrArg _ (Fin.ext equal)
    | signaled signal core =>
      have differ := congrArg wifexited same
      simp only [wifexited_exited, wifexited_signaled] at differ
      cases differ
  | signaled signal core =>
    cases second with
    | exited other =>
      have differ := congrArg wifexited same
      simp only [wifexited_exited, wifexited_signaled] at differ
      cases differ
    | signaled other dumped =>
      have bound := signal.isLt
      have bound' := other.isLt
      cases core <;> cases dumped <;> simp [Termination.encode, Fin.ext_iff] at same ⊢ <;> omega

end Lsnp.Unix
