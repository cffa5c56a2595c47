import Lsnp.Libc.Strings

namespace Lsnp.Libc

/-- The size that programs give the arrays they read into. -/
def BUFSIZ : Nat := 8192

/-- At most `room` characters, and none behind the first newline. -/
def piece : Nat → List Char → List Char
  | 0, _ => []
  | _, [] => []
  | room + 1, char :: rest => if char = '\n' then [char] else char :: piece room rest

/-- What `fgets` reads into an array of this size, and what it leaves in the stream; `none`
at the end of the stream, where it leaves the array alone. -/
def fgets (size : Nat) (stream : List Char) : Option (List Char × List Char) :=
  match piece (size - 1) stream with
  | [] => none
  | read => some (read, stream.drop read.length)

variable {room size : Nat} {stream read rest : List Char}

theorem prefix_piece (room : Nat) (stream : List Char) : piece room stream <+: stream := by
  induction room, stream using piece.induct with
  | case1 stream => exact List.nil_prefix
  | case2 room => simp [piece]
  | case3 room rest => simp [piece]
  | case4 room char rest other ih =>
    rw [piece, if_neg other]
    exact (List.prefix_cons_inj char).mpr ih

theorem length_piece_le (room : Nat) (stream : List Char) : (piece room stream).length ≤ room := by
  induction room, stream using piece.induct with
  | case1 | case2 => simp [piece]
  | case3 room rest => simp [piece]
  | case4 room char rest other ih =>
    rw [piece, if_neg other]
    exact Nat.succ_le_succ ih

theorem fgets_eq_some (found : fgets size stream = some (read, rest)) :
    read = piece (size - 1) stream ∧ read ≠ [] ∧ stream = read ++ rest := by
  unfold fgets at found
  split at found
  · cases found
  · rename_i some
    obtain ⟨rfl, rfl⟩ := Prod.mk.inj (Option.some.inj found)
    exact ⟨rfl, some, (List.prefix_iff_eq_append.mp (prefix_piece (size - 1) stream)).symm⟩

theorem length_rest_lt (found : fgets size stream = some (read, rest)) :
    rest.length < stream.length := by
  obtain ⟨-, some, rfl⟩ := fgets_eq_some found
  rw [List.length_append]
  exact Nat.lt_add_of_pos_left (List.length_pos_iff.mpr some)

/-- What `fgets` reads has its newline or fills the array: it asks for no more. -/
def Enough (size : Nat) (stream : List Char) : Prop :=
  '\n' ∈ piece (size - 1) stream ∨ (piece (size - 1) stream).length = size - 1

theorem piece_append (more : List Char)
    (enough : '\n' ∈ piece room stream ∨ (piece room stream).length = room) :
    piece room (stream ++ more) = piece room stream := by
  induction room, stream using piece.induct with
  | case1 stream => rw [piece, piece]
  | case2 room some =>
    simp only [piece, List.not_mem_nil, List.length_nil, false_or] at enough
    exact (some enough.symm).elim
  | case3 room rest => simp [piece]
  | case4 room char rest other ih =>
    rw [piece, if_neg other] at enough ⊢
    rw [List.cons_append, piece, if_neg other]
    congr 1
    apply ih
    rcases enough with newline | full
    · exact .inl ((List.mem_cons.mp newline).resolve_left fun same => other same.symm)
    · exact .inr (Nat.succ.inj full)

theorem fgets_append (roomy : 1 < size) (more : List Char) (enough : Enough size stream) :
    ∃ read rest, fgets size stream = some (read, rest) ∧
      fgets size (stream ++ more) = some (read, rest ++ more) := by
  have whole := piece_append more enough
  have within := (prefix_piece (size - 1) stream).length_le
  cases read : piece (size - 1) stream with
  | nil =>
    rw [Enough, read] at enough
    rcases enough with newline | full
    · cases newline
    · rw [List.length_nil] at full
      omega
  | cons char tail =>
    rw [read] at whole within
    refine ⟨char :: tail, stream.drop (char :: tail).length, ?_, ?_⟩
    · rw [fgets, read]
    · rw [fgets, whole]
      show some (_, _) = _
      rw [List.drop_append_of_le_length within]

/-- What `fgets` reads, call for call, up to the end of the stream. -/
def pieces (size : Nat) (stream : List Char) : List (List Char) :=
  match _found : fgets size stream with
  | none => []
  | some (read, rest) => read :: pieces size rest
termination_by stream.length
decreasing_by exact length_rest_lt _found

theorem pieces_eq_nil (ended : fgets size stream = none) : pieces size stream = [] := by
  unfold pieces
  split
  · rfl
  · rename_i found
    rw [ended] at found
    cases found

theorem pieces_eq_cons (found : fgets size stream = some (read, rest)) :
    pieces size stream = read :: pieces size rest := by
  rw [pieces]
  split
  · rename_i ended
    rw [found] at ended
    cases ended
  · rename_i same
    rw [found] at same
    obtain ⟨rfl, rfl⟩ := Prod.mk.inj (Option.some.inj same)
    rfl

theorem fgets_of_pieces {more : List (List Char)} (cut : pieces size stream = read :: more) :
    ∃ rest, fgets size stream = some (read, rest) ∧ pieces size rest = more := by
  cases found : fgets size stream with
  | none =>
    rw [pieces_eq_nil found] at cut
    cases cut
  | some pair =>
    rw [pieces_eq_cons found] at cut
    obtain ⟨rfl, rfl⟩ := List.cons.inj cut
    exact ⟨pair.2, rfl, rfl⟩

theorem fgets_eq_none (roomy : 1 < size) : fgets size stream = none ↔ stream = [] := by
  obtain ⟨room, rfl⟩ := Nat.exists_eq_add_of_lt roomy
  cases stream with
  | nil => simp [fgets, piece]
  | cons char rest =>
    simp only [reduceCtorEq, iff_false]
    intro ended
    unfold fgets at ended
    split at ended
    · rename_i nothing
      rw [show 1 + room + 1 - 1 = room + 1 by omega, piece] at nothing
      split at nothing
      · cases nothing
      · cases nothing
    · cases ended

theorem pieces_cases (roomy : 1 < size) (stream : List Char) :
    (stream = [] ∧ pieces size stream = []) ∨
      ∃ read rest, fgets size stream = some (read, rest) ∧ read ≠ [] ∧ stream = read ++ rest ∧
        rest.length < stream.length ∧ pieces size stream = read :: pieces size rest := by
  cases found : fgets size stream with
  | none => exact .inl ⟨(fgets_eq_none roomy).mp found, pieces_eq_nil found⟩
  | some pair =>
    obtain ⟨read, rest⟩ := pair
    obtain ⟨-, some, split⟩ := fgets_eq_some found
    exact .inr ⟨read, rest, rfl, some, split, length_rest_lt found, pieces_eq_cons found⟩

theorem flatten_pieces (roomy : 1 < size) (stream : List Char) :
    (pieces size stream).flatten = stream := by
  induction length : stream.length using Nat.strong_induction_on generalizing stream with
  | _ bound ih =>
    rcases pieces_cases roomy stream with ⟨rfl, none⟩ | ⟨read, rest, -, -, split, shorter, cut⟩
    · rw [none]
      rfl
    · rw [cut, List.flatten_cons, ih rest.length (length ▸ shorter) rest rfl, split]

theorem ne_nil_of_mem_pieces (roomy : 1 < size) (stream : List Char)
    (member : read ∈ pieces size stream) : read ≠ [] := by
  induction length : stream.length using Nat.strong_induction_on generalizing stream with
  | _ bound ih =>
    rcases pieces_cases roomy stream with ⟨-, none⟩ | ⟨first, rest, -, some, -, shorter, cut⟩
    · rw [none] at member
      cases member
    · rw [cut] at member
      rcases List.mem_cons.mp member with rfl | later
      · exact some
      · exact ih rest.length (length ▸ shorter) rest later rfl

theorem length_lt_of_mem_pieces (roomy : 1 < size) (stream : List Char)
    (member : read ∈ pieces size stream) : read.length < size := by
  induction length : stream.length using Nat.strong_induction_on generalizing stream with
  | _ bound ih =>
    rcases pieces_cases roomy stream with ⟨-, none⟩ | ⟨first, rest, found, -, -, shorter, cut⟩
    · rw [none] at member
      cases member
    · rw [cut] at member
      rcases List.mem_cons.mp member with rfl | later
      · rw [(fgets_eq_some found).1]
        exact Nat.lt_of_le_of_lt (length_piece_le _ _) (Nat.sub_one_lt_of_lt roomy)
      · exact ih rest.length (length ▸ shorter) rest later rfl

def line : List Char → List Char
  | [] => []
  | char :: rest => if char = '\n' then [char] else char :: line rest

theorem prefix_line (stream : List Char) : line stream <+: stream := by
  induction stream with
  | nil => exact List.nil_prefix
  | cons char rest ih =>
    rw [line]
    split
    · exact ⟨rest, rfl⟩
    · exact (List.prefix_cons_inj char).mpr ih

theorem line_append_newline {text : List Char} (whole : '\n' ∉ text) (rest : List Char) :
    line (text ++ '\n' :: rest) = text ++ ['\n'] := by
  induction text with
  | nil => rfl
  | cons char text ih =>
    obtain ⟨other, later⟩ := List.ne_and_not_mem_of_not_mem_cons whole
    rw [List.cons_append, line, if_neg other.symm, ih later]
    rfl

theorem piece_eq_take (room : Nat) (stream : List Char) :
    piece room stream = (line stream).take room := by
  induction room, stream using piece.induct with
  | case1 stream => simp [piece]
  | case2 room => simp [piece, line]
  | case3 room rest => simp [piece, line]
  | case4 room char rest other ih =>
    rw [piece, line, if_neg other, if_neg other, List.take_succ_cons, ih]

theorem fgets_line (some' : stream ≠ []) (short : (line stream).length < size) :
    fgets size stream = some (line stream, stream.drop (line stream).length) := by
  have whole : piece (size - 1) stream = line stream := by
    rw [piece_eq_take, List.take_of_length_le (by omega)]
  have filled : line stream ≠ [] := by
    cases stream with
    | nil => exact (some' rfl).elim
    | cons char rest =>
      rw [line]
      split <;> exact List.cons_ne_nil _ _
  rw [fgets, whole]
  split
  · rename_i empty
    exact (filled empty).elim
  · rfl

theorem line_piece (room : Nat) (stream : List Char) :
    ((piece room stream).getLast? = some '\n' ∧ line stream = piece room stream) ∨
      ((piece room stream).getLast? ≠ some '\n' ∧
        line stream = piece room stream ++ line (stream.drop (piece room stream).length)) := by
  induction room, stream using piece.induct with
  | case1 stream => simp [piece]
  | case2 room => simp [piece, line]
  | case3 room rest => simp [piece, line]
  | case4 room char rest other ih =>
    rw [piece, line, if_neg other, if_neg other]
    rcases ih with ⟨ends, whole⟩ | ⟨goesOn, split⟩
    · left
      rw [whole, List.getLast?_cons, ends]
      exact ⟨rfl, rfl⟩
    · right
      constructor
      · rw [List.getLast?_cons]
        cases last : (piece room rest).getLast? with
        | none => simpa using other
        | some char => simpa [last] using goesOn
      · rw [List.length_cons, List.drop_succ_cons, List.cons_append, ← split]

theorem line_eq_nil : line stream = [] ↔ stream = [] := by
  cases stream with
  | nil => simp [line]
  | cons char rest =>
    rw [line]
    split
    · simp
    · simp

/-- A piece without a newline has taken all the room, or the stream ends with it. -/
theorem piece_full (room : Nat) (stream : List Char) (goesOn : '\n' ∉ piece room stream) :
    (piece room stream).length = room ∨ piece room stream = stream := by
  induction room, stream using piece.induct with
  | case1 stream => simp [piece]
  | case2 room => simp [piece]
  | case3 room rest => simp [piece] at goesOn
  | case4 room char rest other ih =>
    rw [piece, if_neg other] at goesOn ⊢
    rcases ih fun member => goesOn (List.mem_cons_of_mem _ member) with full | whole
    · exact .inl (congrArg Nat.succ full)
    · exact .inr (congrArg (char :: ·) whole)

theorem getLast?_piece (room : Nat) (stream : List Char) :
    (piece room stream).getLast? = some '\n' ↔ '\n' ∈ piece room stream := by
  constructor
  · exact List.mem_of_getLast?
  · intro member
    induction room, stream using piece.induct with
    | case1 stream => simp [piece] at member
    | case2 room => simp [piece] at member
    | case3 room rest => simp [piece]
    | case4 room char rest other ih =>
      rw [piece, if_neg other] at member ⊢
      have later := (List.mem_cons.mp member).resolve_left fun same => other same.symm
      rw [List.getLast?_cons, ih later]
      rfl

def lines (stream : List Char) : List (List Char) :=
  match stream with
  | [] => []
  | char :: rest => line (char :: rest) :: lines ((char :: rest).drop (line (char :: rest)).length)
termination_by stream.length
decreasing_by
  have some : 0 < (line (char :: rest)).length := by
    apply List.length_pos_iff.mpr
    simp [line_eq_nil]
  rw [List.length_drop, List.length_cons]
  omega

theorem flatten_lines (stream : List Char) : (lines stream).flatten = stream := by
  induction stream using lines.induct with
  | case1 => simp [lines]
  | case2 char rest ih =>
    rw [lines, List.flatten_cons, ih]
    exact List.prefix_iff_eq_append.mp (prefix_line (char :: rest))

theorem line_line (stream : List Char) : line (line stream) = line stream := by
  induction stream with
  | nil => rfl
  | cons char rest ih =>
    rw [line]
    split
    · rename_i newline
      rw [line, if_pos newline]
    · rename_i other
      rw [line, if_neg other, ih]

theorem line_of_mem_lines {text : List Char} (member : text ∈ lines stream) :
    line text = text ∧ text ≠ [] := by
  induction stream using lines.induct with
  | case1 => simp [lines] at member
  | case2 char rest ih =>
    rw [lines] at member
    rcases List.mem_cons.mp member with rfl | later
    · exact ⟨line_line _, mt line_eq_nil.mp (List.cons_ne_nil char rest)⟩
    · exact ih later

theorem nul_notMem_lines (stdin : CString) : ∀ line ∈ lines stdin.chars, nul ∉ line := by
  intro line member inside
  apply stdin.nulFree
  rw [← flatten_lines stdin.chars]
  exact List.mem_flatten.mpr ⟨line, member, inside⟩

theorem piece_piece (room : Nat) (stream : List Char) :
    piece room (piece room stream) = piece room stream := by
  induction room, stream using piece.induct with
  | case1 stream => simp [piece]
  | case2 room => simp [piece]
  | case3 room rest => simp [piece]
  | case4 room char rest other ih =>
    rw [piece, if_neg other, piece, if_neg other, ih]

theorem fgets_again (found : fgets size stream = some (read, rest)) (more : List Char)
    (ends : '\n' ∈ read ∨ read.length = size - 1 ∨ more = []) :
    fgets size (read ++ more) = some (read, more) := by
  obtain ⟨same, some, -⟩ := fgets_eq_some found
  have again : piece (size - 1) read = read := by
    rw [same, piece_piece]
  have whole : piece (size - 1) (read ++ more) = read := by
    rcases ends with newline | full | rfl
    · rw [piece_append more (.inl (again.symm ▸ newline)), again]
    · rw [piece_append more (.inr (again.symm ▸ full)), again]
    · rw [List.append_nil, again]
  unfold fgets
  rw [whole]
  cases read with
  | nil => exact (some rfl).elim
  | cons char read => simp

theorem pieces_of_line {text : List Char} (whole : line text = text) (filled : text ≠ [])
    (fits : text.length < size) : pieces size text = [text] := by
  have all : piece (size - 1) text = text := by
    rw [piece_eq_take, whole, List.take_of_length_le (Nat.le_sub_one_of_lt fits)]
  have found : fgets size text = some (text, []) := by
    unfold fgets
    rw [all]
    cases text with
    | nil => exact (filled rfl).elim
    | cons char rest => simp
  have roomy : 1 < size := Nat.lt_of_le_of_lt (List.length_pos_iff.mpr filled) fits
  rw [pieces_eq_cons found, pieces_eq_nil ((fgets_eq_none roomy).mpr rfl)]

/-- The pieces of a stream are those of its first line and those of the rest. -/
theorem pieces_line (roomy : 1 < size) (stream : List Char) :
    pieces size stream =
      pieces size (line stream) ++ pieces size (stream.drop (line stream).length) := by
  induction length : stream.length using Nat.strong_induction_on generalizing stream with
  | _ bound ih =>
    rcases pieces_cases roomy stream with ⟨rfl, none⟩ | ⟨read, rest, found, some, split, shorter, cut⟩
    · simp [line, none]
    · obtain ⟨same, -, -⟩ := fgets_eq_some found
      have behind : stream.drop read.length = rest := by
        rw [split, List.drop_left]
      have ended := pieces_eq_nil ((fgets_eq_none roomy).mpr rfl)
      rcases line_piece (size - 1) stream with ⟨newline, only⟩ | ⟨goesOn, more⟩
      · rw [← same] at only newline
        have alone := fgets_again found [] (.inr (.inr rfl))
        rw [List.append_nil] at alone
        rw [only, cut, behind, pieces_eq_cons alone, ended]
        rfl
      · rw [← same, behind] at more
        have ends : '\n' ∈ read ∨ read.length = size - 1 ∨ line rest = [] := by
          right
          have none : '\n' ∉ piece (size - 1) stream := mt (getLast?_piece _ _).mpr goesOn
          rcases piece_full (size - 1) stream none with full | whole
          · exact .inl (same ▸ full)
          · right
            rw [line_eq_nil, ← behind, same, whole, List.drop_length]
        rw [more, cut, pieces_eq_cons (fgets_again found (line rest) ends), List.length_append,
          ← List.drop_drop, behind, List.cons_append,
          ← ih rest.length (length ▸ shorter) rest rfl]

theorem pieces_eq_lines (roomy : 1 < size) (stream : List Char) :
    pieces size stream = (lines stream).flatMap (pieces size) := by
  induction stream using lines.induct with
  | case1 => simp [lines, pieces_eq_nil ((fgets_eq_none roomy).mpr rfl)]
  | case2 char rest ih =>
    rw [lines, List.flatMap_cons, ← ih]
    exact pieces_line roomy (char :: rest)

end Lsnp.Libc
