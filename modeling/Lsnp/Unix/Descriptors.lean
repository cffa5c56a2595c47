import Mathlib.Logic.Function.Basic

namespace Lsnp.Unix

abbrev Fd := Nat

/-- A process's descriptor table; slots past the end of the list are closed. -/
structure FdTable (File : Type) where
  slots : List (Option File)
  deriving DecidableEq, Repr

namespace FdTable

variable {File : Type}

def file (table : FdTable File) (fd : Fd) : Option File :=
  table.slots[fd]?.join

/-- Make `fd` refer to `opened`, whatever it referred to before. -/
def set (table : FdTable File) (fd : Fd) (opened : File) : FdTable File :=
  ⟨(table.slots ++ List.replicate (fd + 1 - table.slots.length) none).set fd (some opened)⟩

def close (table : FdTable File) (fd : Fd) : FdTable File :=
  ⟨table.slots.set fd none⟩

/-- The lowest-numbered descriptor that is not open, the one the system hands out. -/
def lowest (table : FdTable File) : Fd :=
  table.slots.findIdx Option.isNone

@[simp] theorem file_set (table : FdTable File) (fd : Fd) (opened : File) :
    (table.set fd opened).file = Function.update table.file fd (some opened) := by
  funext other
  simp only [file, set, List.getElem?_set, Function.update_apply, List.length_append,
    List.length_replicate]
  by_cases same : other = fd
  · subst same
    simp only [↓reduceIte]
    rw [if_pos (by omega)]
    rfl
  · rw [if_neg (Ne.symm same), if_neg same]
    rcases Nat.lt_or_ge other table.slots.length with within | past
    · rw [List.getElem?_append_left within]
    · rw [List.getElem?_append_right past, List.getElem?_eq_none past, List.getElem?_replicate]
      split <;> rfl

@[simp] theorem file_close (table : FdTable File) (fd : Fd) :
    (table.close fd).file = Function.update table.file fd none := by
  funext other
  simp only [file, close, List.getElem?_set, Function.update_apply]
  by_cases same : other = fd
  · subst same
    simp only [↓reduceIte]
    split <;> rfl
  · rw [if_neg (Ne.symm same), if_neg same]

@[simp] theorem file_lowest (table : FdTable File) : table.file table.lowest = none := by
  unfold file lowest
  by_cases found : table.slots.findIdx Option.isNone < table.slots.length
  · have free : Option.isNone table.slots[table.slots.findIdx Option.isNone] = true :=
      List.findIdx_getElem
    rw [List.getElem?_eq_getElem found]
    simpa using free
  · rw [List.getElem?_eq_none (by omega)]
    rfl

/-- What is opened at the lowest free number leaves every open descriptor as it is. -/
theorem file_set_lowest {table : FdTable File} {fd : Fd} {held : File} (opened : File)
    (file : table.file fd = some held) : (table.set table.lowest opened).file fd = some held := by
  have apart : fd ≠ table.lowest := by
    rintro rfl
    rw [file_lowest] at file
    cases file
  rw [file_set, Function.update_of_ne apart, file]

def anyFile (table : FdTable File) (kind : File → Bool) : Bool :=
  table.slots.any fun slot => slot.any kind

theorem anyFile_eq_true {table : FdTable File} {kind : File → Bool} :
    table.anyFile kind = true ↔ ∃ fd opened, table.file fd = some opened ∧ kind opened = true := by
  simp only [anyFile, List.any_eq_true, Option.any_eq_true, file]
  constructor
  · rintro ⟨slot, member, opened, rfl, found⟩
    obtain ⟨fd, here⟩ := List.mem_iff_getElem?.mp member
    exact ⟨fd, opened, by rw [here]; rfl, found⟩
  · rintro ⟨fd, opened, here, found⟩
    have given := Option.join_eq_some_iff.mp here
    exact ⟨some opened, List.mem_of_getElem? given, opened, rfl, found⟩

/-- Some descriptor of the table refers to the open file. -/
def Holds (table : FdTable File) (opened : File) : Prop :=
  ∃ fd, table.file fd = some opened

theorem Holds.of_set {table : FdTable File} {fd : Fd} {opened other : File}
    (held : (table.set fd opened).Holds other) : other = opened ∨ table.Holds other := by
  obtain ⟨at', found⟩ := held
  rw [file_set, Function.update_apply] at found
  split at found
  · exact .inl (Option.some.inj found).symm
  · exact .inr ⟨at', found⟩

theorem Holds.of_close {table : FdTable File} {fd : Fd} {other : File}
    (held : (table.close fd).Holds other) : table.Holds other := by
  obtain ⟨at', found⟩ := held
  rw [file_close, Function.update_apply] at found
  split at found
  · cases found
  · exact ⟨at', found⟩

end FdTable

end Lsnp.Unix
