import Mathlib.Data.List.TakeWhile

namespace Lsnp.Libc

def nul : Char := '\x00'

/-- What a program sees that reads an array as a string. -/
def cString (chars : List Char) : List Char := chars.takeWhile (· ≠ nul)

theorem nul_notMem_cString (chars : List Char) : nul ∉ cString chars := by
  intro member
  have other := List.mem_takeWhile_imp member
  simp at other

theorem cString_of_notMem {chars : List Char} (free : nul ∉ chars) : cString chars = chars := by
  apply List.takeWhile_eq_self_iff.mpr
  intro char member
  have apart : char ≠ nul := by
    rintro rfl
    exact free member
  simpa using apart

theorem cString_append {front : List Char} (free : nul ∉ front) (back : List Char) :
    cString (front ++ back) = front ++ cString back := by
  have all : ∀ char ∈ front, decide (char ≠ nul) = true := by
    intro char member
    have apart : char ≠ nul := by
      rintro rfl
      exact free member
    simpa using apart
  rw [cString, List.takeWhile_append_of_pos all]
  rfl

theorem cString_append_nul {chars : List Char} (rest : List Char) (free : nul ∉ chars) :
    cString (chars ++ nul :: rest) = chars := by
  rw [cString_append free]
  simp [cString]

theorem cString_nul_append (front rest : List Char) :
    cString (front ++ nul :: rest) = cString front := by
  induction front with
  | nil => simp [cString]
  | cons char front ih =>
    by_cases last : char = nul
    · simp [cString, last]
    · simpa [cString, last] using ih

theorem length_cString_le (chars : List Char) : (cString chars).length ≤ chars.length :=
  (List.takeWhile_sublist _).length_le

/-- `strncmp` with a short string sees no more of a text than there is of that string. -/
theorem isPrefixOf_take {short : List Char} {room : Nat} (enough : short.length ≤ room)
    (text : List Char) : short.isPrefixOf (text.take room) = short.isPrefixOf text := by
  apply Bool.eq_iff_iff.mpr
  rw [List.isPrefixOf_iff_prefix, List.isPrefixOf_iff_prefix, List.prefix_take_iff]
  exact and_iff_left enough

def poke (place : Nat) (char : Char) (memory : List Char) : List Char :=
  memory.take place ++ char :: memory.drop (place + 1)

theorem take_poke {written : Nat} {char : Char} {memory string : List Char}
    (inside : written ≤ memory.length) (so : memory.take written = string.take written)
    (next : string[written]? = some char) :
    written + 1 ≤ (poke written char memory).length ∧
      (poke written char memory).take (written + 1) = string.take (written + 1) := by
  have length : (memory.take written).length = written := List.length_take_of_le inside
  constructor
  · simp only [poke, List.length_append, List.length_cons, length]
    omega
  · have last : string.take (written + 1) = string.take written ++ [char] := by
      rw [List.take_add_one, next, Option.toList_some]
    rw [last, ← so, poke, List.take_append, length, Nat.add_sub_cancel_left,
      List.take_of_length_le (by omega), List.take_succ_cons, List.take_zero]

theorem cString_poke {memory string : List Char}
    (so : memory.take string.length = string) (free : nul ∉ string) :
    cString (poke string.length nul memory) = string := by
  rw [poke, so]
  exact cString_append_nul _ free

/-- A string: characters without a NUL. -/
structure CString where
  chars : List Char
  nulFree : nul ∉ chars
  deriving DecidableEq

def CString.of (chars : List Char) : CString := ⟨cString chars, nul_notMem_cString chars⟩

/-- The first characters of a string are this word: `strncmp` with the length of the word
finds no difference. -/
def CString.starts (string : CString) (word : List Char) : Bool := word.isPrefixOf string.chars

/-- An array of `room` characters and a last one, which is NUL. -/
structure Buffer (room : Nat) where
  chars : List Char
  length : chars.length = room + 1
  last : chars[room]? = some nul

namespace Buffer

variable {room : Nat}

def zero (room : Nat) : Buffer room :=
  ⟨List.replicate (room + 1) nul, by simp, by simp⟩

def string (buffer : Buffer room) : List Char := cString buffer.chars

/-- Copy at most `room` characters of a string, and fill up with NULs. -/
def strncpy (dest : Buffer room) (src : CString) : Buffer room where
  chars := (src.chars ++ List.replicate room nul).take room ++ dest.chars.drop room
  length := by
    have size := dest.length
    simp only [List.length_append, List.length_take, List.length_replicate, List.length_drop]
    omega
  last := by
    have bound : ((src.chars ++ List.replicate room nul).take room).length = room := by simp
    rw [List.getElem?_append_right (by rw [bound]), bound, Nat.sub_self, List.getElem?_drop]
    exact dest.last

theorem string_strncpy (dest : Buffer room) (src : CString) :
    (dest.strncpy src).string = src.chars.take room := by
  have free : nul ∉ src.chars.take room := fun member => src.nulFree (List.mem_of_mem_take member)
  have tail : dest.chars.drop room = [nul] := by
    apply List.ext_getElem?
    intro index
    rw [List.getElem?_drop]
    cases index with
    | zero => exact dest.last
    | succ index =>
      rw [List.getElem?_eq_none (by rw [dest.length]; omega)]
      rfl
  have filled : (dest.strncpy src).chars =
      src.chars.take room ++ nul :: List.replicate (room - src.chars.length) nul := by
    simp only [strncpy, tail, List.take_append, List.append_assoc, List.take_replicate]
    congr 1
    rw [← List.replicate_succ, ← List.replicate_succ']
    congr 1
    omega
  rw [string, filled]
  exact cString_append_nul _ free

end Buffer

end Lsnp.Libc
