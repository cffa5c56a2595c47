import Mathlib
import Lsnp.Libc.Stdio

/-! Files that are passed on block for block through an array: `sendData` of both versions of
`webserver.c`, and the loop of `ch03/execercise.c`. Each block is written as a string. -/

namespace Lsnp.Libc

/-- A file is read in blocks into the front of an array, and the array is written as a string
behind each `read`, until one has given less than a block. A string that does not end in the
array goes on in the memory behind it. -/
def passOn (size : Nat) [NeZero size] (beyond : Nat → List Char) (round : Nat)
    (array file : List Char) : List Char :=
  let length := min size file.length
  let array := file.take size ++ array.drop length
  let written := cString (array ++ beyond round)
  if _full : length = size then written ++ passOn size beyond (round + 1) array (file.drop size)
  else written
termination_by file.length
decreasing_by
  have positive := Nat.pos_of_ne_zero (NeZero.ne size)
  rw [List.length_drop]
  omega

/-- A file comes out of an array as it is: it is shorter than a block, has no NUL, and finds
one behind it in the array. -/
def PassesOn (size : Nat) (array file : List Char) : Prop :=
  nul ∉ file ∧ file.length < size ∧ (array.drop file.length).head? = some nul

variable {size : Nat} [NeZero size] {array file : List Char} {round : Nat}
  {beyond : Nat → List Char}

theorem nul_notMem_passOn : nul ∉ passOn size beyond round array file := by
  fun_induction passOn size beyond round array file with
  | case1 round array file length array' written full ih =>
    intro member
    rcases List.mem_append.mp member with here | later
    · exact nul_notMem_cString _ here
    · exact ih later
  | case2 => exact nul_notMem_cString _

private theorem length_le_cString {chars : List Char} {count : Nat} (free : nul ∉ chars.take count)
    (inside : count ≤ chars.length) : count ≤ (cString chars).length := by
  calc
    count = (cString (chars.take count)).length := by
      rw [cString_of_notMem free, List.length_take_of_le inside]
    _ ≤ (cString chars).length := by
      conv => rhs; rw [← List.take_append_drop count chars]
      rw [cString_append free, cString_of_notMem free, List.length_append]
      exact Nat.le_add_right _ _

omit [NeZero size] in
private theorem length_loaded (roomy : size ≤ array.length) :
    (file.take size ++ array.drop (min size file.length)).length = array.length := by
  rw [List.length_append, List.length_take, List.length_drop]
  omega

omit [NeZero size] in
private theorem nul_notMem_loaded (free : nul ∉ file) (full : nul ∉ array.take size) :
    nul ∉ (file.take size ++ array.drop (min size file.length)).take size := by
  have front : (file.take size).take size = file.take size := by simp
  rw [List.take_append, front, List.length_take, ← List.drop_take]
  intro member
  rcases List.mem_append.mp member with new | old
  · exact free (List.mem_of_mem_take new)
  · exact full (List.mem_of_mem_drop old)

omit [NeZero size] in
private theorem size_le_written (clear : nul ∉ array.take size) (roomy : size ≤ array.length)
    (behind : List Char) : size ≤ (cString (array ++ behind)).length := by
  apply length_le_cString
  · rwa [List.take_append_of_le_length roomy]
  · rw [List.length_append]
    omega

private theorem length_lt_passOn (free : nul ∉ file) (full : nul ∉ array.take size)
    (roomy : size ≤ array.length) : file.length < (passOn size beyond round array file).length := by
  fun_induction passOn size beyond round array file with
  | case1 round array file length array' written filled ih =>
    have clear := nul_notMem_loaded free full
    have still : size ≤ array'.length := by rwa [length_loaded roomy]
    have later := ih (fun member => free (List.mem_of_mem_drop member)) clear still
    have block : size ≤ written.length := size_le_written clear still _
    rw [List.length_drop] at later
    rw [List.length_append]
    omega
  | case2 round array file length array' written partly =>
    have clear := nul_notMem_loaded free full
    have still : size ≤ array'.length := by rwa [length_loaded roomy]
    have block : size ≤ written.length := size_le_written clear still _
    omega

private theorem passOn_short (short : file.length < size) (free : nul ∉ file) :
    passOn size beyond round array file =
      file ++ cString (array.drop file.length ++ beyond round) := by
  have length : min size file.length = file.length := Nat.min_eq_right (Nat.le_of_lt short)
  have all : file.take size = file := List.take_of_length_le (Nat.le_of_lt short)
  rw [passOn]
  simp only [length, all]
  rw [dif_neg (Nat.ne_of_lt short), List.append_assoc, cString_append free]

private theorem passOn_long (long : size ≤ file.length) (free : nul ∉ file)
    (roomy : size ≤ array.length) : file.length < (passOn size beyond round array file).length := by
  have length : min size file.length = size := Nat.min_eq_left long
  have clear : nul ∉ (file.take size ++ array.drop size).take size := by
    rw [List.take_left' (List.length_take_of_le long)]
    exact fun member => free (List.mem_of_mem_take member)
  have still := @length_loaded size array file roomy
  rw [passOn]
  simp only [length] at still ⊢
  rw [dif_pos trivial, List.length_append]
  have block := size_le_written clear (by omega) (beyond round)
  have later : (file.drop size).length < (passOn size beyond (round + 1)
      (file.take size ++ array.drop size) (file.drop size)).length :=
    length_lt_passOn (fun member => free (List.mem_of_mem_drop member)) clear (by omega)
  rw [List.length_drop] at later
  omega

theorem passOn_eq_iff (roomy : size ≤ array.length) :
    passOn size beyond round array file = file ↔ PassesOn size array file := by
  constructor
  · intro same
    have free : nul ∉ file := same ▸ nul_notMem_passOn
    have short : file.length < size := by
      by_contra long
      have more : file.length < (passOn size beyond round array file).length :=
        passOn_long (Nat.le_of_not_lt long) free roomy
      rw [same] at more
      exact Nat.lt_irrefl _ more
    refine ⟨free, short, ?_⟩
    rw [passOn_short short free] at same
    have same := List.append_cancel_left (same.trans (List.append_nil file).symm)
    cases behind : array.drop file.length with
    | nil =>
      have lengths := congrArg List.length behind
      rw [List.length_drop, List.length_nil] at lengths
      omega
    | cons char rest =>
      rw [behind, List.cons_append] at same
      by_cases it : char = nul
      · rw [it]
        rfl
      · simp [cString, it] at same
  · rintro ⟨free, short, ends⟩
    obtain ⟨behind, split⟩ := List.head?_eq_some_iff.mp ends
    rw [passOn_short short free, split, List.cons_append]
    simp [cString]

end Lsnp.Libc

namespace Lsnp.WebServer

open Lsnp.Libc

instance : NeZero BUFSIZ := ⟨by decide⟩

/-- The header: `protocol`, `server`, `cnt_type` and `end`. -/
def okHeader : List Char :=
  "HTTP/1.1 200 OK\r\n".toList ++ "Server:Netscape-Enterprise/6.0\r\n".toList ++
    "Content-Type:text/html\r\n".toList ++ "\r\n".toList

/-- `sendData`, with what is in its array when it starts and behind it: the header, and what
is written for the file, or for want of one. A `read` that fails leaves the array alone. -/
def sendData (file : Option (List Char)) (buf : List.Vector Char BUFSIZ) (beyond : Nat → List Char) :
    List Char :=
  okHeader ++
    match file with
    | none => cString (buf.toList ++ beyond 0)
    | some content => passOn BUFSIZ beyond 0 buf.toList content

end Lsnp.WebServer

namespace Lsnp.Execercise

open Lsnp.Libc

def MAX_SIZE : Nat := 1024

instance : NeZero (MAX_SIZE - 1) := ⟨by decide⟩

/-- What `main` prints for a file that can be opened. -/
def main (file : List Char) (buffer : List.Vector Char MAX_SIZE) (beyond : Nat → List Char) :
    List Char :=
  "buffer : ".toList ++ passOn (MAX_SIZE - 1) beyond 0 buffer.toList file ++ "\n".toList

end Lsnp.Execercise

namespace Lsnp.WebServer

open Lsnp.Libc

private theorem cString_eq_nil_iff {array : List Char} (roomy : BUFSIZ ≤ array.length)
    (behind : List Char) : cString (array ++ behind) = [] ↔ PassesOn BUFSIZ array [] := by
  have size : 0 < BUFSIZ := by decide
  cases array with
  | nil => exact absurd roomy (by decide)
  | cons char array =>
    by_cases it : char = nul
    · simp [PassesOn, cString, it, size]
    · simp [PassesOn, cString, it]

theorem sendData_iff (file : Option (List Char)) (buf : List.Vector Char BUFSIZ)
    (beyond : Nat → List Char) :
    sendData file buf beyond = okHeader ++ file.getD [] ↔
      PassesOn BUFSIZ buf.toList (file.getD []) := by
  have room : BUFSIZ ≤ buf.toList.length := (List.Vector.toList_length buf).ge
  cases file with
  | some content => exact (List.append_right_inj okHeader).trans (passOn_eq_iff room)
  | none => exact (List.append_right_inj okHeader).trans (cString_eq_nil_iff room _)

theorem main_iff (file : List Char) (buffer : List.Vector Char Execercise.MAX_SIZE)
    (beyond : Nat → List Char) :
    Execercise.main file buffer beyond = "buffer : ".toList ++ file ++ "\n".toList ↔
      PassesOn (Execercise.MAX_SIZE - 1) buffer.toList file := by
  have room : Execercise.MAX_SIZE - 1 ≤ buffer.toList.length :=
    (Nat.sub_le _ _).trans (List.Vector.toList_length buffer).ge
  exact (List.append_left_inj _).trans ((List.append_right_inj _).trans (passOn_eq_iff room))

end Lsnp.WebServer
