import Mathlib.Data.List.Basic
import Lsnp.WebServer.Query
import Lsnp.WebServer.Shift

/-! The handler of `webLED/webserver.c`. An array is the characters from its start on, with
what is in the memory behind it; what is not given is NUL. -/

namespace Lsnp.WebServer.Led

open Lsnp.Libc

structure Locals where
  regLine : List Char
  method : List Char
  filename : List Char

/-- `200 OK` with what is written to the LED, `400 Bad Request`, the content of a file, or
no end of the header. -/
inductive Outcome where
  | ok (writes : List Level)
  | badRequest
  | file (name : List Char)
  | hangs
  deriving DecidableEq

def put (array chars : List Char) : List Char := chars ++ nul :: array.drop (chars.length + 1)

/-- `fgets` into an array. -/
def readLine (array stream : List Char) : List Char × List Char :=
  match fgets BUFSIZ stream with
  | none => (array, [])
  | some (read, rest) => (put array read, rest)

/-- `(ret != NULL) ? ret : ""`. -/
def ret (result : Strtok) : List Char :=
  match result.token with
  | none => []
  | some start => cString (result.memory.drop start)

/-- `led_function`, for the files that stand for commands. -/
def led (filename : List Char) : Option (List Level) :=
  if filename = "on".toList then some [.high]
  else if filename = "off".toList then some [.low]
  else if filename = "blink".toList then some [.high, .low]
  else none

/-- The loop over the header: a line is the last one when it begins with `\r\n`. At the end
of the stream `fgets` leaves the array alone, so that the loop never ends if it has not. -/
def headers (regLine : List Char) : List (List Char) → Bool
  | [] => "\r\n".toList.isPrefixOf (cString regLine)
  | piece :: more =>
    if "\r\n".toList.isPrefixOf (cString (put regLine piece)) then true
    else headers (put regLine piece) more

/-- The part of the handler that has the path in `filename`. -/
def serve (filename : List Char) (headers : Bool) : Outcome :=
  let filename := if filename.getD 0 nul = '/' then shift BUFSIZ 0 0 filename else filename
  let filename := if cString filename = [] then put filename "led.html".toList else filename
  match led (cString filename) with
  | some writes => .ok writes
  | none => if headers then .file (cString filename) else .hangs

def clntConnection (stream : List Char) (locals : Locals) : Outcome :=
  let (regLine, stream) := readLine locals.regLine stream
  let result := strtok ['/', ' '] regLine 0
  let method := put locals.method (ret result)
  if cString method = "POST".toList then .ok []
  else if cString method ≠ "GET".toList then .badRequest
  else
    let result := strtok [' '] result.memory result.cursor
    let filename := put locals.filename (ret result)
    serve filename (headers result.memory (pieces BUFSIZ stream))

def firstToken (delim string : List Char) : List Char :=
  match cutToken delim string with
  | none => []
  | some (word, _) => word

def Headed (stream : List Char) : Prop :=
  ∃ piece ∈ pieces BUFSIZ stream, "\r\n".toList.isPrefixOf (cString piece)

/-- A `GET` for a path with two slashes in front and an even number of characters. -/
def Doubled (read : List Char) : Prop :=
  ∃ behind tail, cutToken ['/', ' '] (cString read) = some ("GET".toList, behind) ∧
    firstToken [' '] behind = '/' :: '/' :: tail ∧ Even tail.length

/-- There is a request line, and it is not a doubled one with an end of its header. -/
def Decided (stream : List Char) : Prop :=
  ∃ read rest, fgets BUFSIZ stream = some (read, rest) ∧ ¬ (Doubled read ∧ Headed rest)

variable {delim memory array chars : List Char} {offset : Nat}

@[simp] theorem cString_put (array chars : List Char) :
    cString (put array chars) = cString chars :=
  cString_nul_append chars _

theorem ret_strtok (delim memory : List Char) (offset : Nat) :
    ret (strtok delim memory offset) = firstToken delim (cString (memory.drop offset)) := by
  cases cut : cutToken delim (cString (memory.drop offset)) with
  | none => simp only [ret, strtok_cut_none cut, firstToken, cut]
  | some pair =>
    obtain ⟨start, token, word, -⟩ := strtok_cut_some cut
    simp only [ret, token, word, firstToken, cut]

theorem cString_firstToken (delim string : List Char) :
    cString (firstToken delim (cString string)) = firstToken delim (cString string) := by
  rw [← List.drop_zero (l := string), ← ret_strtok]
  unfold ret
  split
  · rfl
  · exact cString_of_notMem (nul_notMem_cString _)

private theorem head_poke (place : Nat) (char : Char) (memory : List Char) :
    (poke place char memory).head? = memory.head? ∨
      (poke place char memory).head? = some char := by
  cases place with
  | zero => exact .inr rfl
  | succ place =>
    cases memory with
    | nil => exact .inr rfl
    | cons first memory => exact .inl rfl

private theorem head_strtok (delim memory : List Char) (offset : Nat) :
    (strtok delim memory offset).memory.head? = memory.head? ∨
      (strtok delim memory offset).memory.head? = some nul := by
  unfold strtok
  dsimp only
  split
  · exact .inl rfl
  · split
    · exact .inl rfl
    · exact head_poke _ _ _

private theorem head_of_cutToken {line behind : List Char}
    (cut : cutToken ['/', ' '] line = some ("GET".toList, behind)) :
    line.head? ≠ some '\r' ∧ line ≠ [] := by
  cases line with
  | nil => simp [cutToken] at cut
  | cons char line =>
    refine ⟨?_, List.cons_ne_nil _ _⟩
    intro return'
    obtain rfl := Option.some.inj return'
    simp [cutToken] at cut

private theorem head_put {read behind : List Char}
    (cut : cutToken ['/', ' '] (cString read) = some ("GET".toList, behind)) (array : List Char) :
    (put array read).head? ≠ some '\r' := by
  obtain ⟨head, some⟩ := head_of_cutToken cut
  cases read with
  | nil => exact (some rfl).elim
  | cons char read =>
    intro return'
    obtain rfl := Option.some.inj return'
    exact head rfl

theorem not_blank {line : List Char} (head : line.head? ≠ some '\r') :
    "\r\n".toList.isPrefixOf (cString line) = false := by
  cases line with
  | nil => rfl
  | cons char line =>
    have other : char ≠ '\r' := fun same => head (by rw [same]; rfl)
    by_cases last : char = nul
    · subst last
      rfl
    · have string : cString (char :: line) = char :: cString line := by
        simp [cString, last]
      rw [string]
      simp [List.isPrefixOf, Ne.symm other]

theorem head_line {read behind : List Char}
    (cut : cutToken ['/', ' '] (cString read) = some ("GET".toList, behind)) (array : List Char) :
    let first := strtok ['/', ' '] (put array read) 0
    (strtok [' '] first.memory first.cursor).memory.head? ≠ some '\r' := by
  intro first
  have apart : some nul ≠ some '\r' := by decide
  rcases head_strtok [' '] first.memory first.cursor with same | ended
  · rcases head_strtok ['/', ' '] (put array read) 0 with same' | ended
    · rw [same, same']
      exact head_put cut _
    · rw [same, ended]
      exact apart
  · rw [ended]
    exact apart

private theorem headers_eq_true {regLine : List Char} (lines : List (List Char))
    (open' : "\r\n".toList.isPrefixOf (cString regLine) = false) :
    headers regLine lines = true ↔
      ∃ piece ∈ lines, "\r\n".toList.isPrefixOf (cString piece) := by
  induction lines generalizing regLine with
  | nil => simp only [headers, open', List.not_mem_nil, false_and, exists_false, Bool.false_eq_true]
  | cons piece more ih =>
    rw [headers, cString_put]
    split
    · rename_i blank
      exact iff_of_true rfl ⟨piece, List.mem_cons_self, blank⟩
    · rename_i other
      rw [ih (by rw [cString_put]; exact Bool.eq_false_iff.mpr other), List.exists_mem_cons_iff]
      exact (or_iff_right other).symm

theorem headers_iff {regLine : List Char} (head : regLine.head? ≠ some '\r')
    (stream : List Char) :
    headers regLine (pieces BUFSIZ stream) = true ↔ Headed stream :=
  headers_eq_true _ (not_blank head)

/-- What the loop makes of a path, if it stops at the NUL of the path. -/
def stripped : List Char → List Char
  | '/' :: '/' :: tail => '/' :: everyOther (tail.drop 1)
  | '/' :: tail => tail
  | path => path

/-- The string in `filename` when the slashes have been looked at. -/
def strip (filename : List Char) : List Char :=
  cString (if filename.getD 0 nul = '/' then shift BUFSIZ 0 0 filename else filename)

theorem serve_eq (filename : List Char) (headers : Bool) :
    serve filename headers =
      let name := if strip filename = [] then "led.html".toList else strip filename
      match led name with
      | some writes => .ok writes
      | none => if headers then .file name else .hangs := by
  have html : cString "led.html".toList = "led.html".toList := by decide
  unfold serve strip
  dsimp only
  generalize (if filename.getD 0 nul = '/' then shift BUFSIZ 0 0 filename else filename) = name
  by_cases empty : cString name = []
  · simp only [empty, if_true, cString_put, html]
  · simp only [empty, if_false]

private theorem strip_plain {path : List Char} (free : nul ∉ path)
    (plain : path.head? ≠ some '/') (array : List Char) : strip (put array path) = path := by
  have first : (put array path).getD 0 nul ≠ '/' := by
    cases path with
    | nil => exact (by decide : nul ≠ '/')
    | cons char path => simpa [put] using plain
  rw [strip, if_neg first, cString_put, cString_of_notMem free]

private theorem strip_slash {tail : List Char} (free : nul ∉ tail)
    (plain : tail.head? ≠ some '/') (short : tail.length < BUFSIZ) (array : List Char) :
    strip (put array ('/' :: tail)) = tail := by
  obtain ⟨behind, same⟩ : ∃ behind, put array ('/' :: tail) = '/' :: (tail ++ nul :: behind) :=
    ⟨_, rfl⟩
  have string : cString (tail ++ nul :: behind) = tail := cString_append_nul _ free
  rw [strip, same, if_pos (List.getD_cons_zero ..)]
  cases tail with
  | nil => exact shift_one (by decide) List.mem_cons_self (by rw [← string] at short; exact short)
  | cons char tail =>
    have other : char ≠ '/' := by simpa using plain
    rw [← string] at short
    exact (shift_one other (List.mem_append_right (char :: tail) List.mem_cons_self) short).trans
      string

private theorem strip_slashes {tail seen : List Char} {skipped : Char} (array : List Char)
    (split : tail ++ nul :: array.drop (tail.length + 3) = skipped :: seen)
    (ends : nul ∈ everyOther seen) (short : (cString (everyOther seen)).length + 1 < BUFSIZ) :
    strip (put array ('/' :: '/' :: tail)) = '/' :: cString (everyOther seen) := by
  have same : put array ('/' :: '/' :: tail) = '/' :: '/' :: skipped :: seen :=
    congrArg (fun behind => '/' :: '/' :: behind) split
  rw [strip, same, if_pos (List.getD_cons_zero ..)]
  exact shift_two skipped ends short

private theorem strip_odd {tail : List Char} (free : nul ∉ tail) (odd : ¬ Even tail.length)
    (short : tail.length < BUFSIZ) (array : List Char) :
    strip (put array ('/' :: '/' :: tail)) = '/' :: everyOther (tail.drop 1) := by
  cases tail with
  | nil => simp at odd
  | cons char tail =>
    have even : Even tail.length := by
      simpa [Nat.even_add_one] using odd
    have apart : nul ∉ everyOther tail :=
      fun member => free (List.mem_cons_of_mem _ (mem_of_mem_everyOther member))
    obtain ⟨behind, split⟩ : ∃ behind,
        char :: tail ++ nul :: array.drop ((char :: tail).length + 3) =
          char :: (tail ++ nul :: behind) := ⟨_, rfl⟩
    obtain ⟨later, seen⟩ : ∃ later, everyOther (tail ++ nul :: behind) =
        everyOther tail ++ nul :: later := by
      rw [everyOther_append even]
      cases behind with
      | nil => exact ⟨[], rfl⟩
      | cons first behind => exact ⟨_, rfl⟩
    have string : cString (everyOther (tail ++ nul :: behind)) = everyOther tail := by
      rw [seen, cString_append_nul _ apart]
    have bound := length_everyOther_le tail
    rw [strip_slashes array split, string]
    · rfl
    · rw [seen]
      exact List.mem_append_right _ List.mem_cons_self
    · rw [string]
      exact Nat.lt_of_le_of_lt (Nat.succ_le_succ bound) short

/-- An array that has these characters behind a path of this length. -/
private def leftover (length : Nat) (behind : List Char) : List Char :=
  List.replicate (length + 1) nul ++ behind

private theorem strip_even {tail : List Char} (behind later : List Char) (free : nul ∉ tail)
    (even : Even tail.length) (seen : everyOther behind = later ++ [nul]) (apart : nul ∉ later)
    (short : tail.length + later.length + 1 < BUFSIZ) :
    strip (put (leftover (tail.length + 2) behind) ('/' :: '/' :: tail)) =
      '/' :: (everyOther (tail.drop 1) ++ later) := by
  have back : (leftover (tail.length + 2) behind).drop (tail.length + 3) = behind := by
    simp [leftover]
  obtain ⟨skipped, front, split, evenFront, same⟩ : ∃ skipped front,
      tail ++ [nul] = skipped :: front ∧ Even front.length ∧
        everyOther front = everyOther (tail.drop 1) := by
    cases tail with
    | nil => exact ⟨nul, [], rfl, by simp, rfl⟩
    | cons char tail =>
      have odd : ¬ Even tail.length := by
        simpa [Nat.even_add_one] using even
      exact ⟨char, tail ++ [nul], rfl, by simpa [Nat.even_add_one] using odd, everyOther_snoc odd nul⟩
  have whole : tail ++ nul :: (leftover (tail.length + 2) behind).drop (tail.length + 3) =
      skipped :: (front ++ behind) := by
    rw [back, ← List.cons_append, ← split, List.append_assoc]
    rfl
  have none : nul ∉ everyOther (tail.drop 1) ++ later := by
    intro member
    rcases List.mem_append.mp member with early | late
    · exact free (List.mem_of_mem_drop (mem_of_mem_everyOther early))
    · exact apart late
  have read : everyOther (front ++ behind) = (everyOther (tail.drop 1) ++ later) ++ [nul] := by
    rw [everyOther_append evenFront, same, seen, List.append_assoc]
  have string : cString (everyOther (front ++ behind)) = everyOther (tail.drop 1) ++ later := by
    rw [read, cString_append_nul _ none]
  have bound := length_everyOther_le (tail.drop 1)
  rw [strip_slashes _ whole, string]
  · rw [read]
    exact List.mem_append_right _ List.mem_cons_self
  · rw [string, List.length_append]
    rw [List.length_drop] at bound
    omega

private theorem strip_slash_stays (tail array : List Char) :
    ∃ name, strip (put array ('/' :: '/' :: tail)) = '/' :: name := by
  have first : (put array ('/' :: '/' :: tail)).getD 0 nul = '/' := rfl
  rw [strip, if_pos first]
  have head : (shift BUFSIZ 0 0 (put array ('/' :: '/' :: tail))).head? = some '/' :=
    shift_stays (by decide) _
  obtain ⟨name, same⟩ := List.head?_eq_some_iff.mp head
  exact ⟨cString name, by rw [same]; rfl⟩

theorem serve_slash {filename name : List Char} (stays : strip filename = '/' :: name)
    (headers : Bool) :
    serve filename headers = if headers then .file ('/' :: name) else .hangs := by
  have command : led ('/' :: name) = none := by simp [led]
  rw [serve_eq, stays]
  simp only [reduceCtorEq, if_false, command]

/-- Apart from the doubled paths, what is left in the array does not matter. -/
theorem strip_alone {path : List Char} (free : nul ∉ path) (short : path.length < BUFSIZ)
    (single : ∀ tail, path = '/' :: '/' :: tail → ¬ Even tail.length) (array : List Char) :
    strip (put array path) = stripped path := by
  by_cases slash : path.head? = some '/'
  · obtain ⟨tail, rfl⟩ := List.head?_eq_some_iff.mp slash
    rw [List.length_cons] at short
    by_cases two : tail.head? = some '/'
    · obtain ⟨tail, rfl⟩ := List.head?_eq_some_iff.mp two
      rw [List.length_cons] at short
      have free : nul ∉ tail := fun member => free (by simp [member])
      exact strip_odd free (single tail rfl) (by omega) array
    · have free : nul ∉ tail := fun member => free (by simp [member])
      rw [strip_slash free two (by omega)]
      unfold stripped
      split
      · rename_i same
        obtain rfl := (List.cons.inj same).2
        exact (two rfl).elim
      · rename_i same
        exact (List.cons.inj same).2
      · rename_i other
        exact (other tail rfl).elim
  · rw [strip_plain free slash]
    unfold stripped
    split
    · exact (slash rfl).elim
    · exact (slash rfl).elim
    · rfl

private theorem strip_not_alone {tail : List Char} (free : nul ∉ tail) (even : Even tail.length)
    (short : tail.length + 2 < BUFSIZ) :
    ∃ one two, strip (put one ('/' :: '/' :: tail)) ≠ strip (put two ('/' :: '/' :: tail)) := by
  have none := strip_even [nul] [] free even rfl (by simp) (by simp; omega)
  have more := strip_even ['x', nul, nul] ['x'] free even rfl (by decide) (by simp; omega)
  use leftover (tail.length + 2) [nul], leftover (tail.length + 2) ['x', nul, nul]
  intro same
  rw [none, more] at same
  simpa using congrArg List.length same

/-- For some array, two slashes in front are never made one with all of the rest behind it. -/
theorem strip_doubled {tail : List Char} (free : nul ∉ tail) (short : tail.length + 2 < BUFSIZ)
    (more : List Char) :
    ∃ array, strip (put array ('/' :: '/' :: tail)) ≠ '/' :: (tail ++ more) := by
  by_cases even : Even tail.length
  · obtain ⟨one, two, apart⟩ := strip_not_alone free even short
    by_cases same : strip (put one ('/' :: '/' :: tail)) = '/' :: (tail ++ more)
    · exact ⟨two, fun also => apart (same.trans also.symm)⟩
    · exact ⟨one, same⟩
  · refine ⟨[], fun same => ?_⟩
    rw [strip_odd free even (by omega)] at same
    have lengths := congrArg List.length (List.cons.inj same).2
    have bound := length_everyOther_le (tail.drop 1)
    have some : 0 < tail.length := Nat.pos_of_ne_zero fun zero => even (zero ▸ .zero)
    rw [List.length_append] at lengths
    rw [List.length_drop] at bound
    omega

variable {stream read rest : List Char} {locals : Locals}

private theorem readLine_eq (got : fgets BUFSIZ stream = some (read, rest)) (array : List Char) :
    readLine array stream = (put array read, rest) := by
  rw [readLine, got]

theorem outcome_of_ne (got : fgets BUFSIZ stream = some (read, rest))
    (other : firstToken ['/', ' '] (cString read) ≠ "GET".toList) (locals : Locals) :
    clntConnection stream locals =
      if firstToken ['/', ' '] (cString read) = "POST".toList then .ok [] else .badRequest := by
  simp only [clntConnection, readLine_eq got, ret_strtok, List.drop_zero, cString_put,
    cString_firstToken]
  rw [if_pos other]

theorem outcome_of_get {behind : List Char} (got : fgets BUFSIZ stream = some (read, rest))
    (cut : cutToken ['/', ' '] (cString read) = some ("GET".toList, behind)) (locals : Locals) :
    ∃ header, (header = true ↔ Headed rest) ∧
      clntConnection stream locals =
        serve (put locals.filename (firstToken [' '] behind)) header := by
  have line : cString ((put locals.regLine read).drop 0) = cString read := by
    rw [List.drop_zero, cString_put]
  have method : firstToken ['/', ' '] (cString read) = "GET".toList := by
    rw [firstToken, cut]
  obtain ⟨-, -, -, after⟩ := strtok_cut_some (line.symm ▸ cut)
  let first := strtok ['/', ' '] (put locals.regLine read) 0
  let second := strtok [' '] first.memory first.cursor
  use headers second.memory (pieces BUFSIZ rest), headers_iff (head_line cut locals.regLine) rest
  simp only [clntConnection, readLine_eq got, ret_strtok, line, cString_put, method,
    after]
  rw [if_neg (by decide), if_neg (by decide)]

private theorem path_fits {behind : List Char} (got : fgets BUFSIZ stream = some (read, rest))
    (cut : cutToken ['/', ' '] (cString read) = some ("GET".toList, behind)) :
    nul ∉ firstToken [' '] behind ∧ (firstToken [' '] behind).length < BUFSIZ := by
  have line : cString (read.drop 0) = cString read := by rw [List.drop_zero]
  obtain ⟨-, -, -, after⟩ := strtok_cut_some (line.symm ▸ cut)
  have piece : read.length ≤ BUFSIZ - 1 := by
    rw [(fgets_eq_some got).1]
    exact length_piece_le _ _
  have string := length_cString_le read
  have parts := length_cutToken_le cut
  have word : (firstToken [' '] behind).length ≤ behind.length := by
    unfold firstToken
    split
    · exact Nat.zero_le _
    · rename_i word _ cut
      have parts := length_cutToken_le cut
      omega
  constructor
  · rw [← after, ← cString_firstToken]
    exact nul_notMem_cString _
  · have size : BUFSIZ - 1 < BUFSIZ := by decide
    omega

theorem outcome_alone {stream : List Char} (decided : Decided stream) (one two : Locals) :
    clntConnection stream one = clntConnection stream two := by
  obtain ⟨read, rest, got, single⟩ := decided
  by_cases get : firstToken ['/', ' '] (cString read) = "GET".toList
  · obtain ⟨behind, cut⟩ : ∃ behind,
        cutToken ['/', ' '] (cString read) = some ("GET".toList, behind) := by
      unfold firstToken at get
      split at get
      · simp at get
      · rename_i word behind cut
        exact ⟨behind, by rw [cut, get]⟩
    obtain ⟨free, short⟩ := path_fits got cut
    obtain ⟨header, blank, first⟩ := outcome_of_get got cut one
    obtain ⟨header', blank', second⟩ := outcome_of_get got cut two
    obtain rfl : header = header' := Bool.eq_iff_iff.mpr (blank.trans blank'.symm)
    rw [first, second]
    by_cases doubled : ∃ tail, firstToken [' '] behind = '/' :: '/' :: tail ∧ Even tail.length
    · obtain ⟨tail, path, even⟩ := doubled
      have none : header = false := by
        apply Bool.eq_false_iff.mpr
        intro held
        exact single ⟨⟨behind, tail, cut, path, even⟩, blank.mp held⟩
      obtain ⟨name, stays⟩ := strip_slash_stays tail one.filename
      obtain ⟨name', stays'⟩ := strip_slash_stays tail two.filename
      rw [path, serve_slash stays, serve_slash stays', none]
      rfl
    · have single : ∀ tail, firstToken [' '] behind = '/' :: '/' :: tail → ¬ Even tail.length :=
        fun tail path even => doubled ⟨tail, path, even⟩
      rw [serve_eq, serve_eq, strip_alone free short single, strip_alone free short single]
  · rw [outcome_of_ne got get, outcome_of_ne got get]

private theorem not_alone_empty {stream : List Char} (empty : fgets BUFSIZ stream = none) :
    clntConnection stream ⟨"POST".toList, [], []⟩ ≠ clntConnection stream ⟨[], [], []⟩ := by
  have posted : clntConnection stream ⟨"POST".toList, [], []⟩ = .ok [] := by
    simp only [clntConnection, readLine, empty]
    decide
  have refused : clntConnection stream ⟨[], [], []⟩ = .badRequest := by
    simp only [clntConnection, readLine, empty]
    decide
  rw [posted, refused]
  simp

private theorem not_alone_doubled (got : fgets BUFSIZ stream = some (read, rest))
    (doubled : Doubled read) (headed : Headed rest) :
    ∃ one two, clntConnection stream one ≠ clntConnection stream two := by
  obtain ⟨behind, tail, cut, path, even⟩ := doubled
  obtain ⟨free, short⟩ := path_fits got cut
  rw [path] at free short
  have free : nul ∉ tail := fun member => free (by simp [member])
  obtain ⟨one, two, apart⟩ := strip_not_alone free even short
  refine ⟨⟨[], [], one⟩, ⟨[], [], two⟩, ?_⟩
  obtain ⟨header, blank, first⟩ := outcome_of_get got cut ⟨[], [], one⟩
  obtain ⟨header', blank', second⟩ := outcome_of_get got cut ⟨[], [], two⟩
  obtain ⟨name, stays⟩ := strip_slash_stays tail one
  obtain ⟨name', stays'⟩ := strip_slash_stays tail two
  rw [first, second, path, serve_slash stays, serve_slash stays', blank.mpr headed,
    blank'.mpr headed]
  rw [stays, stays'] at apart
  simpa using apart

theorem outcome_alone_iff (stream : List Char) :
    (∀ one two, clntConnection stream one = clntConnection stream two) ↔ Decided stream := by
  constructor
  · intro alone
    cases got : fgets BUFSIZ stream with
    | none => exact (not_alone_empty got (alone _ _)).elim
    | some pair =>
      obtain ⟨read, rest⟩ := pair
      refine ⟨read, rest, got, ?_⟩
      rintro ⟨doubled, headed⟩
      obtain ⟨one, two, apart⟩ := not_alone_doubled got doubled headed
      exact apart (alone one two)
  · exact outcome_alone

end Lsnp.WebServer.Led
