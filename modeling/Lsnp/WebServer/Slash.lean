import Lsnp.WebServer.Led

namespace Lsnp.WebServer

open Lsnp.Libc

/-- The places of `filename` that the loop reads, round for round. -/
def shiftReads : Nat → Nat → Nat → List Char → List Nat
  | 0, _, _, _ => []
  | rounds + 1, i, j, filename =>
    let j := if filename.getD 0 nul = '/' then j + 1 else j
    let filename := filename.set i (filename.getD j nul)
    [0, j] ++ if filename.getD j nul = nul then [] else shiftReads rounds (i + 1) (j + 1) filename

/-- The array `filename` behind the loop, as a string, for a `GET`. -/
def requested (stream : List Char) (locals : Led.Locals) : Option (List Char) :=
  let (regLine, _) := Led.readLine locals.regLine stream
  let result := strtok ['/', ' '] regLine 0
  let method := Led.put locals.method (Led.ret result)
  if cString method ≠ "GET".toList then none
  else some (Led.strip (Led.put locals.filename (Led.ret (strtok [' '] result.memory result.cursor))))

namespace Page

open Led

/-- The handler of `chattingProgram/webserver.c`, which knows no commands. -/
def clntConnection (stream : List Char) (locals : Locals) : Outcome :=
  let (regLine, stream) := readLine locals.regLine stream
  let result := strtok ['/', ' '] regLine 0
  let method := put locals.method (ret result)
  if cString method = "POST".toList then .ok []
  else if cString method ≠ "GET".toList then .badRequest
  else
    let result := strtok [' '] result.memory result.cursor
    let filename := put locals.filename (ret result)
    let filename := if filename.getD 0 nul = '/' then shift BUFSIZ 0 0 filename else filename
    if headers result.memory (pieces BUFSIZ stream) then .file (cString filename) else .hangs

end Page

variable {path tail version stream : List Char}

/-- Both handlers look up the name that was requested, in the one case as a command first
and with a default. -/
theorem looksUp {name : List Char} {locals : Led.Locals} (some : requested stream locals = some name) :
    ∃ headers : Bool, Page.clntConnection stream locals = (if headers then .file name else .hangs) ∧
      Led.clntConnection stream locals =
        let name := if name = [] then "led.html".toList else name
        match Led.led name with
        | .some writes => .ok writes
        | none => if headers then .file name else .hangs := by
  unfold requested at some
  dsimp only at some
  split at some
  · cases some
  · rename_i get
    rw [not_not] at get
    obtain rfl := Option.some.inj some
    have other : "GET".toList ≠ "POST".toList := by decide
    refine ⟨Led.headers (strtok [' '] (strtok ['/', ' '] (Led.readLine locals.regLine stream).1 0).memory
      (strtok ['/', ' '] (Led.readLine locals.regLine stream).1 0).cursor).memory
      (pieces BUFSIZ (Led.readLine locals.regLine stream).2), ?_, ?_⟩
    · simp only [Page.clntConnection, get, other, if_false, ne_eq, not_true_eq_false]
      rfl
    · simp only [Led.clntConnection, get, other, if_false, ne_eq, not_true_eq_false]
      refine (Led.serve_eq _ _).trans ?_
      rfl

private theorem getD_set {filename : List Char} {i place : Nat} (apart : place ≠ i) (char : Char) :
    (filename.set i char).getD place nul = filename.getD place nul := by
  rw [List.getD_eq_getElem?_getD, List.getD_eq_getElem?_getD, List.getElem?_set_ne apart.symm]

private theorem reads_plain {filename : List Char} {i length : Nat} (rounds : Nat) (later : 0 < i)
    (plain : filename.getD 0 nul ≠ '/') (ends : filename.getD length nul = nul)
    (within : i < length) : ∀ place ∈ shiftReads rounds i (i + 1) filename, place ≤ length := by
  induction rounds generalizing i filename with
  | zero => nofun
  | succ rounds ih =>
    intro place member
    simp only [shiftReads, plain, if_false, getD_set (Nat.succ_ne_self i)] at member
    rcases List.mem_append.mp member with here | behind
    · simp only [List.mem_cons, List.not_mem_nil, or_false] at here
      omega
    · split at behind
      · cases behind
      · rename_i other
        have before : i + 1 ≠ length := by
          rintro rfl
          exact other ends
        refine ih (Nat.succ_pos i) ?_ ?_ (by omega) place behind
        · rwa [getD_set (Nat.ne_of_lt later)]
        · rwa [getD_set (by omega)]

private theorem reads_slash {filename : List Char} {i : Nat} (more rounds : Nat) (later : 0 < i)
    (slash : filename.getD 0 nul = '/')
    (others : ∀ round < more, filename.getD (2 * (i + round) + 1) nul ≠ nul) :
    2 * (i + more) + 1 ∈ shiftReads (more + 1 + rounds) i (2 * i) filename := by
  induction more generalizing i filename with
  | zero =>
    rw [Nat.zero_add, Nat.add_comm 1, shiftReads]
    simp only [slash, if_true]
    exact List.mem_append_left _ (by simp)
  | succ more ih =>
    have next : filename.getD (2 * i + 1) nul ≠ nul := others 0 (Nat.succ_pos more)
    have apart : 2 * i + 1 ≠ i := by omega
    rw [show more + 1 + 1 + rounds = (more + 1 + rounds) + 1 by omega, shiftReads]
    simp only [slash, if_true, getD_set apart, if_neg next]
    refine List.mem_append_right _ ?_
    have place : 2 * (i + (more + 1)) + 1 = 2 * (i + 1 + more) + 1 := by omega
    rw [place, show 2 * i + 1 + 1 = 2 * (i + 1) by omega]
    refine ih (Nat.succ_pos i) ?_ fun round less => ?_
    · rwa [getD_set (Nat.ne_of_lt later)]
    · rw [getD_set (by omega)]
      have same : 2 * (i + 1 + round) + 1 = 2 * (i + (round + 1)) + 1 := by omega
      rw [same]
      exact others (round + 1) (Nat.succ_lt_succ less)

private theorem getD_put {path : List Char} {place : Nat} (inside : place < path.length)
    (free : nul ∉ path) (array : List Char) : (Led.put array path).getD place nul ≠ nul := by
  rw [Led.put, List.getD_eq_getElem?_getD, List.getElem?_append_left inside,
    List.getElem?_eq_getElem inside, Option.getD_some]
  exact fun same => free (same ▸ List.getElem_mem inside)

private theorem getD_put_length (path array : List Char) :
    (Led.put array path).getD path.length nul = nul := by
  rw [Led.put, List.getD_eq_getElem?_getD, List.getElem?_append_right (Nat.le_refl _), Nat.sub_self]
  rfl

theorem reads_within (plain : tail.head? ≠ some '/') (array : List Char) :
    ∀ place ∈ shiftReads BUFSIZ 0 0 (Led.put array ('/' :: tail)), place ≤ tail.length + 1 := by
  intro place member
  have rounds : BUFSIZ = 8191 + 1 := rfl
  have first : (Led.put array ('/' :: tail)).getD 0 nul = '/' := rfl
  have ends := getD_put_length ('/' :: tail) array
  rw [rounds, shiftReads] at member
  simp only [first, if_true, getD_set Nat.one_ne_zero] at member
  rcases List.mem_append.mp member with here | behind
  · simp only [List.mem_cons, List.not_mem_nil, or_false] at here
    omega
  · split at behind
    · cases behind
    · rename_i other
      cases tail with
      | nil => exact (other ends).elim
      | cons char tail =>
        have apart : char ≠ '/' := by simpa using plain
        refine reads_plain 8191 Nat.one_pos ?_ ?_ (Nat.succ_lt_succ (Nat.succ_pos _)) place behind
        · exact apart
        · rwa [getD_set (Nat.succ_ne_zero _)]

theorem reads_beyond (free : nul ∉ tail) (even : Even tail.length) (short : tail.length + 2 < BUFSIZ)
    (array : List Char) :
    tail.length + 3 ∈ shiftReads BUFSIZ 0 0 (Led.put array ('/' :: '/' :: tail)) := by
  obtain ⟨half, halves⟩ := even
  obtain ⟨rounds, enough⟩ : ∃ rounds, BUFSIZ = half + 1 + rounds + 1 :=
    ⟨BUFSIZ - half - 2, by omega⟩
  have first : (Led.put array ('/' :: '/' :: tail)).getD 0 nul = '/' := rfl
  have second : (Led.put array ('/' :: '/' :: tail)).getD 1 nul = '/' := rfl
  have apart : '/' ≠ nul := by decide
  have free : nul ∉ '/' :: '/' :: tail := by simpa [apart.symm] using free
  rw [enough, shiftReads]
  simp only [first, if_true, getD_set Nat.one_ne_zero, second, if_neg apart]
  have place : tail.length + 3 = 2 * (1 + half) + 1 := by omega
  rw [place]
  refine List.mem_append_right _ (reads_slash half rounds Nat.one_pos rfl fun round less => ?_)
  rw [getD_set (by omega)]
  exact getD_put (by simp; omega) free array

/-- The loop makes `tail` of a path with a slash in front, and reads no further than its NUL. -/
def Removes (tail array : List Char) : Prop :=
  Led.strip (Led.put array ('/' :: tail)) = tail ∧
    ∀ place ∈ shiftReads BUFSIZ 0 0 (Led.put array ('/' :: tail)), place ≤ tail.length + 1

theorem strip_single (free : nul ∉ tail) (plain : tail.head? ≠ some '/')
    (short : tail.length + 1 < BUFSIZ) (array : List Char) :
    Led.strip (Led.put array ('/' :: tail)) = tail := by
  have apart : nul ≠ '/' := by decide
  have free : nul ∉ '/' :: tail := by simpa [apart] using free
  rw [Led.strip_alone free short]
  · cases tail with
    | nil => rfl
    | cons char tail =>
      have other : char ≠ '/' := by simpa using plain
      unfold Led.stripped
      split
      · rename_i same
        exact (other (List.cons.inj (List.cons.inj same).2).1).elim
      · rename_i same
        exact (List.cons.inj same).2.symm
      · rename_i none
        exact (none _ rfl).elim
  · rintro behind same
    obtain rfl := (List.cons.inj same).2
    exact (plain rfl).elim

theorem removes_iff (free : nul ∉ tail) (short : tail.length + 1 < BUFSIZ) (array : List Char) :
    Removes tail array ↔ tail.head? ≠ some '/' := by
  constructor
  · rintro ⟨same, within⟩ slash
    obtain ⟨tail, rfl⟩ := List.head?_eq_some_iff.mp slash
    have free : nul ∉ tail := fun member => free (by simp [member])
    rw [List.length_cons] at short
    by_cases even : Even tail.length
    · have read := within _ (reads_beyond free even short array)
      rw [List.length_cons] at read
      omega
    · have apart : nul ≠ '/' := by decide
      have single : ∀ behind, '/' :: '/' :: tail = '/' :: '/' :: behind → ¬ Even behind.length := by
        rintro behind path
        obtain rfl := (List.cons.inj (List.cons.inj path).2).2
        exact even
      rw [Led.strip_alone (by simp [apart, free]) (by simpa using short) single] at same
      have lengths := congrArg List.length (List.cons.inj same).2
      have bound := length_everyOther_le (tail.drop 1)
      have some : 0 < tail.length := Nat.pos_of_ne_zero fun zero => even (zero ▸ .zero)
      rw [List.length_drop] at bound
      omega
  · intro plain
    exact ⟨strip_single free plain short array, reads_within plain array⟩

private theorem cutToken_get (rest : List Char) :
    cutToken ['/', ' '] ("GET ".toList ++ rest) = some ("GET".toList, rest) := by
  simp [cutToken]

private theorem firstToken_take {word : List Char} (blank : ' ' ∉ word) (some : word ≠ [])
    (rest : List Char) {room : Nat} (roomy : 0 < room) :
    Led.firstToken [' '] ((word ++ ' ' :: rest).take room) = word.take room := by
  have free : ∀ char ∈ word.take room, char ∉ [' '] := by
    intro char member
    rw [List.mem_singleton]
    rintro rfl
    exact blank (List.mem_of_mem_take member)
  have some : word.take room ≠ [] := by simp [some, Nat.ne_of_gt roomy]
  have ends : ∀ char ∈ ((' ' :: rest).take (room - word.length)).head?, char ∈ [' '] := by
    intro char member
    cases left : room - word.length with
    | zero => simp [left] at member
    | succ left' => simpa [left] using member.symm
  rw [List.take_append, Led.firstToken, cutToken_word free some ends]

/-- The name that the loop leaves is made from as much of the path as there is room for. -/
theorem requested_eq (some : path ≠ []) (blank : ' ' ∉ path) (free : nul ∉ path)
    (request : line stream = "GET ".toList ++ path ++ ' ' :: version) (locals : Led.Locals) :
    requested stream locals =
      .some (Led.strip (Led.put locals.filename (path.take (BUFSIZ - 5)))) := by
  have clear : nul ∉ "GET ".toList ++ path := by
    have apart : nul ∉ "GET ".toList := by decide
    simp only [List.mem_append, apart, free, or_self, not_false_eq_true]
  obtain ⟨read, rest, got⟩ : ∃ read rest, fgets BUFSIZ stream = .some (read, rest) := by
    cases got : fgets BUFSIZ stream with
    | none =>
      rw [(fgets_eq_none (by decide)).mp got] at request
      cases request
    | some pair => exact ⟨pair.1, pair.2, rfl⟩
  have string : cString read =
      "GET ".toList ++ (path ++ ' ' :: cString version).take (BUFSIZ - 5) := by
    have apart : nul ≠ ' ' := by decide
    have whole : cString (line stream) = "GET ".toList ++ path ++ ' ' :: cString version := by
      rw [request, cString_append clear]
      simp [cString, apart.symm]
    calc
      cString read = cString ((line stream).take (BUFSIZ - 1)) := by
        rw [(fgets_eq_some got).1, piece_eq_take]
      _ = (cString (line stream)).take (BUFSIZ - 1) := (List.take_takeWhile ..).symm
      _ = "GET ".toList ++ (path ++ ' ' :: cString version).take (BUFSIZ - 5) := by
        rw [whole, List.append_assoc]
        rfl
  have cut := cutToken_get ((path ++ ' ' :: cString version).take (BUFSIZ - 5))
  rw [← string] at cut
  have string : cString ((Led.put locals.regLine read).drop 0) = cString read := by
    rw [List.drop_zero, Led.cString_put]
  obtain ⟨-, -, -, after⟩ := strtok_cut_some (string.symm ▸ cut)
  have line : (Led.readLine locals.regLine stream).1 = Led.put locals.regLine read := by
    rw [Led.readLine, got]
  have method : Led.firstToken ['/', ' '] (cString read) = "GET".toList := by
    rw [Led.firstToken, cut]
  have roomy : 0 < BUFSIZ - 5 := by decide
  simp only [requested, line, Led.ret_strtok, string, method, after, Led.cString_put]
  rw [if_neg (by decide), firstToken_take blank some _ roomy]

theorem requested_iff (free : nul ∉ tail) (blank : ' ' ∉ tail)
    (request : line stream = "GET ".toList ++ ('/' :: tail) ++ ' ' :: version) :
    (∀ locals, requested stream locals = some tail) ↔
      tail.head? ≠ some '/' ∧ tail.length + 5 < BUFSIZ := by
  have other : ' ' ≠ '/' ∧ nul ≠ '/' := by decide
  have whole := requested_eq (List.cons_ne_nil '/' tail) (by simp [other.1, blank])
    (by simp [other.2, free]) request
  have part : ('/' :: tail).take (BUFSIZ - 5) = '/' :: tail.take (BUFSIZ - 6) := rfl
  have some : nul ∉ tail.take (BUFSIZ - 6) := fun member => free (List.mem_of_mem_take member)
  have short : (tail.take (BUFSIZ - 6)).length ≤ BUFSIZ - 6 := List.length_take_le _ _
  have size : BUFSIZ = 8192 := rfl
  simp only [whole, part, Option.some.injEq]
  constructor
  · intro always
    by_cases slash : (tail.take (BUFSIZ - 6)).head? = .some '/'
    · obtain ⟨front, same⟩ := List.head?_eq_some_iff.mp slash
      rw [same] at some short
      rw [List.length_cons] at short
      have again : tail = '/' :: (front ++ tail.drop (BUFSIZ - 6)) := by
        rw [← List.cons_append, ← same, List.take_append_drop]
      obtain ⟨array, apart⟩ := @Led.strip_doubled front (fun member => some (by simp [member])) (by omega)
        (tail.drop (BUFSIZ - 6))
      refine (apart ?_).elim
      rw [← again, ← same]
      exact always ⟨[], [], array⟩
    · have stripped := always ⟨[], [], []⟩
      rw [strip_single some slash (by omega)] at stripped
      have fits := congrArg List.length stripped
      refine ⟨by rwa [stripped] at slash, ?_⟩
      omega
  · rintro ⟨plain, fits⟩ locals
    rw [List.take_of_length_le (by omega)]
    exact strip_single free plain (by omega) _

/-- The slash of a path is taken off as it should exactly when there is no second one behind
it; for the path of a request, if that fits behind the method. -/
theorem slash_removed_iff (tail : List Char) (free : nul ∉ tail) :
    (tail.length + 1 < BUFSIZ → ∀ array, Removes tail array ↔ tail.head? ≠ some '/') ∧
      ∀ version stream, ' ' ∉ tail →
        line stream = "GET ".toList ++ ('/' :: tail) ++ ' ' :: version →
        ((∀ locals, requested stream locals = some tail) ↔
          tail.head? ≠ some '/' ∧ tail.length + 5 < BUFSIZ) :=
  ⟨fun short => removes_iff free short,
    fun _ _ blank request => requested_iff free blank request⟩

/-- The name of a page. -/
theorem slash_removed_iff_page :
    Removes "led.html".toList [] ∧
      requested "GET /led.html HTTP/1.1\r\n".toList ⟨[], [], []⟩ = some "led.html".toList :=
  ⟨((slash_removed_iff "led.html".toList (by decide)).1 (by decide) []).mpr (by decide),
    ((slash_removed_iff "led.html".toList (by decide)).2 "HTTP/1.1\r\n".toList _ (by decide)
      (by decide)).mpr (by decide) ⟨[], [], []⟩⟩

/-- Of `//a` only the second slash is left. -/
theorem not_slash_removed : ¬ Removes "/a".toList [] ∧
    requested "GET //a HTTP/1.1\r\n".toList ⟨[], [], []⟩ = some "/".toList := by
  constructor
  · rw [removes_iff (by decide) (by decide)]
    decide
  · decide

end Lsnp.WebServer
