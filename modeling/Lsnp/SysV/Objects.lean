import Mathlib.Logic.Function.Basic

namespace Lsnp.SysV

/-- The objects made under one key: the one that is there now, and how many there were. -/
structure Objects (Object : Type) where
  current : Option Nat
  made : Nat
  objects : Nat → Object

/-- How far a process has got in getting the object: it tries to make it (`IPC_EXCL`), and
to find it where that fails. -/
inductive Getting where
  | making
  | finding
  | got (number : Nat)
  | failed
  deriving DecidableEq

variable {Object : Type} {table after : Objects Object} {number : Nat}

namespace Objects

def empty (blank : Object) : Objects Object := ⟨none, 0, fun _ => blank⟩

def has (table : Objects Object) (number : Nat) : Prop := table.current = some number

instance : Decidable (table.has number) := inferInstanceAs (Decidable (_ = _))

def create (table : Objects Object) (blank : Object) : Objects Object where
  current := some table.made
  made := table.made + 1
  objects := Function.update table.objects table.made blank

def remove (table : Objects Object) (number : Nat) : Objects Object :=
  if table.has number then { table with current := none } else table

/-- Change the object with this number, which may be out of reach already. -/
def modify (table : Objects Object) (number : Nat) (change : Object → Object) : Objects Object :=
  { table with objects := Function.update table.objects number (change (table.objects number)) }

/-- Change the object with this number; an error, and nothing changed, if it was removed. -/
def operate (table : Objects Object) (number : Nat) (change : Object → Object) : Objects Object :=
  if table.has number then table.modify number change else table

/-- `msgget` without `IPC_EXCL`: the object that is there, or a new one. -/
def obtain (table : Objects Object) (blank : Object) : Objects Object × Nat :=
  match table.current with
  | some number => (table, number)
  | none => (table.create blank, table.made)

@[simp] theorem objects_modify (change : Object → Object) :
    (table.modify number change).objects number = change (table.objects number) := by
  simp [modify]

theorem operate_of_has (here : table.has number) (change : Object → Object) :
    table.operate number change = table.modify number change := if_pos here

@[simp] theorem objects_remove : (table.remove number).objects = table.objects := by
  unfold remove
  split <;> rfl

end Objects

/-- One call of `shmget` or `semget`. -/
inductive Get (blank : Object) (table : Objects Object) : Getting → Objects Object → Getting → Prop
  where
  | make (free : table.current = none) :
      Get blank table .making (table.create blank) (.got table.made)
  | there {number : Nat} (there : table.current = some number) :
      Get blank table .making table .finding
  | find {number : Nat} (there : table.current = some number) :
      Get blank table .finding table (.got number)
  | miss (free : table.current = none) : Get blank table .finding table .failed

/-- Two processes get the same object, number 0, which is not removed before both have it. -/
inductive Shared (table : Objects Object) : Getting → Getting → Bool → Prop where
  | absent (free : table.current = none) (none : table.made = 0) : Shared table .making .making false
  | present {first second : Getting} (here : table.current = some 0) (one : table.made = 1)
      (firstWay : first = .making ∨ first = .finding ∨ first = .got 0)
      (secondWay : second = .making ∨ second = .finding ∨ second = .got 0) :
      Shared table first second false
  | removed (gone : table.current = none) (one : table.made = 1) : Shared table (.got 0) (.got 0) true

namespace Shared

variable {first second other : Getting} {gone : Bool} {blank : Object}

theorem symm (shared : Shared table first second gone) : Shared table second first gone := by
  cases shared with
  | absent free none => exact .absent free none
  | present here one firstWay secondWay => exact .present here one secondWay firstWay
  | removed here one => exact .removed here one

theorem get (shared : Shared table first second gone) (get : Get blank table first after other) :
    Shared after other second gone := by
  cases shared with
  | absent free none =>
    cases get with
    | make _ =>
      rw [none]
      apply Shared.present
      · simp [Objects.create, none]
      · simp [Objects.create, none]
      · exact .inr (.inr rfl)
      · exact .inl rfl
    | there there => simp [free] at there
  | present here one firstWay secondWay =>
    cases get with
    | make free => simp [here] at free
    | there _ => exact .present here one (.inr (.inl rfl)) secondWay
    | find there =>
      obtain rfl := Option.some.inj (here.symm.trans there)
      exact .present here one (.inr (.inr rfl)) secondWay
    | miss free => simp [here] at free
  | removed _ _ => cases get

theorem obtain (shared : Shared table .making second gone) (blank : Object) :
    Shared (table.obtain blank).1 (.got (table.obtain blank).2) second gone := by
  cases shared with
  | absent free none =>
    have made : table.obtain blank = (table.create blank, 0) := by
      simp [Objects.obtain, free, none]
    rw [made]
    apply Shared.present
    · simp [Objects.create, none]
    · simp [Objects.create, none]
    · exact .inr (.inr rfl)
    · exact .inl rfl
  | present here one firstWay secondWay =>
    have found : table.obtain blank = (table, 0) := by simp [Objects.obtain, here]
    rw [found]
    exact .present here one (.inr (.inr rfl)) secondWay

/-- Where the other process has got the object, there is nothing to make. -/
theorem get_same {number : Nat} (shared : Shared table first (.got number) gone)
    (get : Get blank table first after other) : after = table := by
  cases shared with
  | present here _ _ _ =>
    cases get with
    | make free => simp [here] at free
    | there | find | miss => rfl
  | removed _ _ => cases get

theorem number_eq (shared : Shared table (.got number) second gone) : number = 0 := by
  cases shared with
  | present _ _ firstWay _ => simpa using firstWay
  | removed _ _ => rfl

theorem has (shared : Shared table (.got number) second false) : table.has number := by
  obtain rfl := shared.number_eq
  cases shared with
  | present here _ _ _ => exact here

theorem made_of_has (shared : Shared table first second gone) (here : table.has number) :
    table.made = 1 := by
  cases shared with
  | absent free none =>
    rw [Objects.has, free] at here
    cases here
  | present _ one _ _ | removed _ one => exact one

theorem made_of_got (shared : Shared table (.got number) second gone) : table.made = 1 := by
  cases shared with
  | present _ one _ _ | removed _ one => exact one

theorem has_of_made (shared : Shared table first second false) (made : table.made ≠ 0) :
    table.has 0 := by
  cases shared with
  | absent _ none => exact (made none).elim
  | present here _ _ _ => exact here

theorem obtain_same (shared : Shared table .making second gone) (blank : Object)
    (there : table.made ≠ 0) : table.obtain blank = (table, 0) := by
  cases shared with
  | absent free none => exact (there none).elim
  | present here one firstWay secondWay => simp [Objects.obtain, here]

theorem both (shared : Shared table first second true) : first = .got 0 ∧ second = .got 0 := by
  cases shared with
  | removed _ _ => exact ⟨rfl, rfl⟩

theorem not_has (shared : Shared table first second true) : ¬ table.has number := by
  cases shared with
  | removed free _ =>
    intro here
    rw [Objects.has, free] at here
    cases here

theorem modify (shared : Shared table first second gone) (change : Object → Object) :
    Shared (table.modify number change) first second gone := by
  cases shared with
  | absent free none => exact .absent free none
  | present here one firstWay secondWay => exact .present here one firstWay secondWay
  | removed here one => exact .removed here one

theorem operate (shared : Shared table first second gone) (change : Object → Object) :
    Shared (table.operate number change) first second gone := by
  unfold Objects.operate
  split
  · exact shared.modify change
  · exact shared

theorem remove {first second : Nat} (shared : Shared table (.got first) (.got second) gone) :
    Shared (table.remove first) (.got first) (.got second) true := by
  obtain rfl := shared.number_eq
  obtain rfl := shared.symm.number_eq
  cases shared with
  | present here one _ _ =>
    rw [Objects.remove, if_pos (show table.has 0 from here)]
    exact .removed rfl one
  | removed free one =>
    rw [Objects.remove, if_neg (by simp [Objects.has, free])]
    exact .removed free one

end Shared

end Lsnp.SysV
