import Lsnp.Libc.Stdio

/-! The command loop of `posix_shm.c` on its shared segment: which text a line with `*` shows. -/

namespace Lsnp.PosixShm

open Lsnp.Libc

def SZ_SHM_SEGMENT : Nat := 1024

/-- `sizeof(input)` -/
def INPUT : Nat := 256

/-- What the body of the loop does. -/
inductive Command where
  | leave
  | print
  | write (text : List Char)
  deriving DecidableEq

/-- The tests of `input[0]`; the last character of what is neither is taken for its newline. -/
def command (input : List Char) : Command :=
  match input.head? with
  | some '.' => .leave
  | some '*' => .print
  | _ => .write (cString input).dropLast

/-- `memcpy(shm_ptr, input, strlen(input))` -/
def memcpy (segment text : List Char) : List Char := text ++ segment.drop text.length

def message (text : List Char) : List Char := "shm -> '".toList ++ (text ++ "'\n".toList)

/-- `printf("shm -> '%.*s'\n", SZ_SHM_SEGMENT, shm_ptr)` -/
def shown (segment : List Char) : List Char := message (cString (segment.take SZ_SHM_SEGMENT))

/-- The loop on what its calls of `fgets` read: what it prints for `*`, and the segment, unless
it has been left with `.`. -/
def mainLoop (segment : List Char) : List (List Char) → List (List Char) × Option (List Char)
  | [] => ([], some segment)
  | input :: more =>
    match command input with
    | .leave => ([], none)
    | .print =>
      let rest := mainLoop segment more
      (shown segment :: rest.1, rest.2)
    | .write text => mainLoop (memcpy segment text) more

/-- A text as a segment holds it that only this program has written to. -/
structure Content where
  text : List Char
  nulFree : nul ∉ text
  short : text.length + 1 < INPUT

/-- The segment with NULs behind the text, as `ftruncate` has made them. -/
def Content.segment (content : Content) : List Char :=
  content.text ++ List.replicate (SZ_SHM_SEGMENT - content.text.length) nul

/-- A line with `*`: the last line with a text in front of it, and no line with `.` yet. -/
structure Asked (all : List (List Char)) where
  front : List (List Char)
  text : List Char
  stars : List (List Char)
  star : List Char
  behind : List (List Char)
  split : all = front ++ text :: (stars ++ star :: behind)
  goesOn : ∀ line ∈ front, line.head? ≠ some '.'
  plain : text.head? ≠ some '.' ∧ text.head? ≠ some '*'
  between : ∀ line ∈ stars, line.head? = some '*'
  asks : star.head? = some '*'

namespace Asked

variable {all : List (List Char)} (asked : Asked all)

def before : List (List Char) := asked.front ++ asked.text :: asked.stars

def last : List Char := asked.text.dropLast

def printed (content : Content) : List (List Char) :=
  match (mainLoop content.segment (asked.before.flatMap (pieces INPUT))).2 with
  | none => []
  | some segment => (mainLoop segment (pieces INPUT asked.star)).1

end Asked

/-- On this input each line with `*` prints the text of the last line that had one. -/
def ReadsBack (content : Content) (stdin : CString) : Prop :=
  ∀ asked : Asked (lines stdin.chars), asked.printed content = [message asked.last]

/-- The texts in what `fgets` has read. -/
def texts (inputs : List (List Char)) : List (List Char) :=
  inputs.filterMap fun input =>
    match command input with
    | .write text => some text
    | _ => none

/-- The texts in the pieces in which these lines are read. -/
def written (all : List (List Char)) : List (List Char) := texts (all.flatMap (pieces INPUT))

/-- The line with the text fits `input`, and nothing longer was written before; what pieces of
other lines write behind it is the beginning of it, and no piece is taken for a `.`, or for
another `*` while the line is read. -/
structure Asked.Lasting {all : List (List Char)} (asked : Asked all) (content : Content) : Prop where
  reached : ∀ line ∈ asked.before, ∀ input ∈ pieces INPUT line, input.head? ≠ some '.'
  fits : asked.text.length < INPUT
  longest : ∀ text ∈ content.text :: written asked.front, text.length ≤ asked.last.length
  restored : (written asked.stars).foldl memcpy [] <+: asked.last
  once : ∀ input ∈ (pieces INPUT asked.star).tail.takeWhile (·.head? ≠ some '.'),
    input.head? ≠ some '*'

theorem command_cases (input : List Char) :
    (input.head? = some '.' ∧ command input = .leave) ∨
      (input.head? = some '*' ∧ command input = .print) ∨
      (input.head? ≠ some '.' ∧ input.head? ≠ some '*' ∧
        command input = .write (cString input).dropLast) := by
  unfold command
  split
  · rename_i dot
    exact .inl ⟨dot, rfl⟩
  · rename_i star
    exact .inr (.inl ⟨star, rfl⟩)
  · rename_i noDot noStar
    exact .inr (.inr ⟨noDot, noStar, rfl⟩)

theorem mainLoop_segment (segment : List Char) (inputs : List (List Char)) :
    (mainLoop segment inputs).2 =
      if ∀ input ∈ inputs, input.head? ≠ some '.' then some ((texts inputs).foldl memcpy segment)
      else none := by
  induction inputs generalizing segment with
  | nil => simp [mainLoop, texts]
  | cons input more ih =>
    have tail : ∀ {text : Option (List Char)}, (match command input with
        | .write text => some text
        | _ => none) = text → texts (input :: more) = text.toList ++ texts more := by
      rintro text rfl
      unfold texts
      rw [List.filterMap_cons]
      split <;> simp [*]
    rcases command_cases input with ⟨first, does⟩ | ⟨first, does⟩ | ⟨noDot, -, does⟩
    · simp [mainLoop, does, first]
    · rw [tail (by rw [does])]
      simp [mainLoop, does, ih, first]
    · rw [tail (by rw [does])]
      simp [mainLoop, does, ih, noDot]

theorem mainLoop_prints_nothing (segment : List Char) (inputs : List (List Char)) :
    (mainLoop segment inputs).1 = [] ↔
      ∀ input ∈ inputs.takeWhile (·.head? ≠ some '.'), input.head? ≠ some '*' := by
  induction inputs generalizing segment with
  | nil => simp [mainLoop]
  | cons input more ih =>
    rcases command_cases input with ⟨first, does⟩ | ⟨first, does⟩ | ⟨noDot, noStar, does⟩
    · simp [mainLoop, does, first]
    · simp [mainLoop, does, first]
    · simp only [mainLoop, does, ih]
      rw [List.takeWhile_cons_of_pos (by simpa using noDot), List.forall_mem_cons]
      exact (and_iff_right noStar).symm

theorem length_memcpy (segment text : List Char) :
    (memcpy segment text).length = max text.length segment.length := by
  rw [memcpy, List.length_append, List.length_drop]
  omega

theorem length_foldl_memcpy (written : List (List Char)) (segment : List Char) (bound : Nat) :
    (written.foldl memcpy segment).length ≤ bound ↔
      ∀ text ∈ segment :: written, text.length ≤ bound := by
  induction written generalizing segment with
  | nil => simp
  | cons text written ih =>
    rw [List.foldl_cons, ih]
    simp only [List.forall_mem_cons, length_memcpy, Nat.max_le, and_assoc, and_left_comm]

theorem foldl_memcpy (written : List (List Char)) (segment : List Char) :
    written.foldl memcpy segment =
      written.foldl memcpy [] ++ segment.drop (written.foldl memcpy []).length := by
  induction written generalizing segment with
  | nil => simp
  | cons text written ih =>
    have alone : memcpy [] text = text := by simp [memcpy]
    rw [List.foldl_cons, List.foldl_cons, alone, ih (memcpy segment text), ih text]
    simp only [memcpy, List.drop_append, List.drop_drop, List.length_append, List.length_drop,
      List.append_assoc]
    congr 3
    omega

theorem foldl_memcpy_eq_iff (behind : List (List Char)) (segment text : List Char) :
    behind.foldl memcpy (memcpy segment text) = text ↔
      segment.length ≤ text.length ∧ behind.foldl memcpy [] <+: text := by
  rw [foldl_memcpy]
  generalize behind.foldl memcpy [] = front
  constructor
  · intro same
    have lengths := congrArg List.length same
    rw [List.length_append, List.length_drop, length_memcpy] at lengths
    exact ⟨by omega, ⟨_, same⟩⟩
  · rintro ⟨shorter, rest, rfl⟩
    rw [memcpy, List.drop_eq_nil_of_le shorter, List.append_nil, List.drop_left]

def Content.write (content text : Content) : Content where
  text := memcpy content.text text.text
  nulFree := by
    intro member
    rcases List.mem_append.mp member with early | late
    · exact text.nulFree early
    · exact content.nulFree (List.mem_of_mem_drop late)
  short := by
    have first := content.short
    have second := text.short
    rw [length_memcpy]
    omega

theorem segment_write (content text : Content) :
    (content.write text).segment = memcpy content.segment text.text := by
  have first := content.short
  have second := text.short
  unfold INPUT at first second
  simp only [Content.segment, Content.write, memcpy, List.append_assoc, List.drop_append,
    List.drop_replicate, List.length_append, List.length_drop, SZ_SHM_SEGMENT]
  congr 3
  omega

theorem shown_segment (content : Content) : shown content.segment = message content.text := by
  have short := content.short
  have room : SZ_SHM_SEGMENT - content.text.length =
      (SZ_SHM_SEGMENT - content.text.length - 1) + 1 := by
    unfold INPUT at short
    unfold SZ_SHM_SEGMENT
    omega
  have length : content.segment.length ≤ SZ_SHM_SEGMENT := by
    rw [Content.segment, List.length_append, List.length_replicate]
    unfold INPUT at short
    unfold SZ_SHM_SEGMENT
    omega
  rw [shown, List.take_of_length_le length, Content.segment, room, List.replicate_succ,
    cString_append_nul _ content.nulFree]

theorem texts_content {inputs : List (List Char)} (fits : ∀ input ∈ inputs, input.length < INPUT) :
    ∃ contents : List Content, texts inputs = contents.map Content.text := by
  induction inputs with
  | nil => exact ⟨[], rfl⟩
  | cons input more ih =>
    obtain ⟨contents, same⟩ := ih fun other member => fits other (List.mem_cons_of_mem _ member)
    have fit := fits input (List.mem_cons_self ..)
    unfold texts at same ⊢
    rw [List.filterMap_cons]
    rcases command_cases input with ⟨-, does⟩ | ⟨-, does⟩ | ⟨-, -, does⟩
    · exact ⟨contents, by rw [does, same]⟩
    · exact ⟨contents, by rw [does, same]⟩
    · have short : (cString input).dropLast.length + 1 < INPUT := by
        have string := length_cString_le input
        have positive : 1 < INPUT := by decide
        rw [List.length_dropLast]
        omega
      have free : nul ∉ (cString input).dropLast := fun member =>
        nul_notMem_cString input (List.dropLast_subset _ member)
      exact ⟨⟨_, free, short⟩ :: contents, by rw [does, same]; rfl⟩

theorem foldl_write (contents : List Content) (content : Content) :
    (contents.foldl Content.write content).text =
        (contents.map Content.text).foldl memcpy content.text ∧
      (contents.foldl Content.write content).segment =
        (contents.map Content.text).foldl memcpy content.segment := by
  induction contents generalizing content with
  | nil => exact ⟨rfl, rfl⟩
  | cons text contents ih =>
    rw [List.foldl_cons, List.map_cons, List.foldl_cons, List.foldl_cons, ← segment_write]
    exact ih (content.write text)

theorem message_inj {first second : List Char} (same : message first = message second) :
    first = second :=
  (List.append_left_inj _).mp ((List.append_right_inj _).mp same)

theorem length_of_mem_pieces (all : List (List Char)) :
    ∀ input ∈ all.flatMap (pieces INPUT), input.length < INPUT := by
  intro input member
  obtain ⟨line, -, among⟩ := List.mem_flatMap.mp member
  exact length_lt_of_mem_pieces (by decide) line among

theorem pieces_head {line : List Char} {char : Char} (first : line.head? = some char) :
    ∃ input more, pieces INPUT line = input :: more ∧ input.head? = some char := by
  rcases pieces_cases (show 1 < INPUT by decide) line with ⟨rfl, -⟩ | ⟨input, rest, -, some, split, -, cut⟩
  · cases first
  · obtain ⟨other, tail, rfl⟩ := List.exists_cons_of_ne_nil some
    exact ⟨_, _, cut, by simpa [split] using first⟩

namespace Asked

variable {all : List (List Char)} (asked : Asked all) (content : Content)

theorem printed_iff : asked.printed content = [message asked.last] ↔
    (∀ line ∈ asked.before, ∀ input ∈ pieces INPUT line, input.head? ≠ some '.') ∧
      (written asked.before).foldl memcpy content.text = asked.last ∧
      ∀ input ∈ (pieces INPUT asked.star).tail.takeWhile (·.head? ≠ some '.'),
        input.head? ≠ some '*' := by
  have flat : (∀ input ∈ asked.before.flatMap (pieces INPUT), input.head? ≠ some '.') ↔
      ∀ line ∈ asked.before, ∀ input ∈ pieces INPUT line, input.head? ≠ some '.' := by
    simp only [List.mem_flatMap]
    exact ⟨fun all line among input member => all input ⟨line, among, member⟩,
      fun all input ⟨line, among, member⟩ => all line among input member⟩
  obtain ⟨contents, same⟩ := texts_content (length_of_mem_pieces asked.before)
  obtain ⟨text, segment⟩ := foldl_write contents content
  obtain ⟨input, more, cut, first⟩ := pieces_head asked.asks
  have does : command input = .print := by simp [command, first]
  rw [← flat, written, same, ← text, cut, List.tail_cons]
  unfold printed
  rw [mainLoop_segment, same, ← segment]
  by_cases reached : ∀ input ∈ asked.before.flatMap (pieces INPUT), input.head? ≠ some '.'
  · rw [if_pos reached]
    simp only [cut, mainLoop, does, shown_segment, List.cons.injEq]
    rw [and_iff_right reached, mainLoop_prints_nothing]
    exact and_congr_left fun _ => ⟨message_inj, congrArg message⟩
  · rw [if_neg reached]
    exact iff_of_false (by simp) fun all => reached all.1

theorem written_before : written asked.before =
    written asked.front ++ (texts (pieces INPUT asked.text) ++ written asked.stars) := by
  simp only [written, before, texts, List.flatMap_append, List.flatMap_cons, List.filterMap_append]

theorem texts_text (whole : line asked.text = asked.text ∧ asked.text ≠ []) (free : nul ∉ asked.text)
    (fits : asked.text.length < INPUT) : texts (pieces INPUT asked.text) = [asked.last] := by
  have does : command asked.text = .write asked.last := by
    rcases command_cases asked.text with ⟨first, -⟩ | ⟨first, -⟩ | ⟨-, -, does⟩
    · exact (asked.plain.1 first).elim
    · exact (asked.plain.2 first).elim
    · rw [does, cString_of_notMem free]
      rfl
  rw [pieces_of_line whole.1 whole.2 fits, texts, List.filterMap_cons, does]
  rfl

theorem foldl_eq_last_iff (whole : line asked.text = asked.text ∧ asked.text ≠ [])
    (free : nul ∉ asked.text) :
    (written asked.before).foldl memcpy content.text = asked.last ↔
      asked.text.length < INPUT ∧
      (∀ text ∈ content.text :: written asked.front, text.length ≤ asked.last.length) ∧
      (written asked.stars).foldl memcpy [] <+: asked.last := by
  have shorter : (written asked.before).foldl memcpy content.text = asked.last →
      asked.text.length < INPUT := by
    intro same
    obtain ⟨contents, texts⟩ := texts_content (length_of_mem_pieces asked.before)
    obtain ⟨text, -⟩ := foldl_write contents content
    have short := (contents.foldl Content.write content).short
    rw [text, ← texts] at short
    change ((written asked.before).foldl memcpy content.text).length + 1 < INPUT at short
    rw [same, last, List.length_dropLast] at short
    omega
  have fitting : asked.text.length < INPUT →
      ((written asked.before).foldl memcpy content.text = asked.last ↔
        (∀ text ∈ content.text :: written asked.front, text.length ≤ asked.last.length) ∧
          (written asked.stars).foldl memcpy [] <+: asked.last) := by
    intro fits
    rw [written_before, texts_text asked whole free fits, List.foldl_append, List.singleton_append,
      List.foldl_cons, foldl_memcpy_eq_iff, length_foldl_memcpy]
  exact ⟨fun same => ⟨shorter same, (fitting (shorter same)).mp same⟩,
    fun ⟨fits, lasts⟩ => (fitting fits).mpr lasts⟩

theorem text_mem : asked.text ∈ all := by
  have here : asked.text ∈ asked.front ++ asked.text :: (asked.stars ++ asked.star :: asked.behind) := by
    simp
  exact (congrArg (asked.text ∈ ·) asked.split).mpr here

end Asked

/-- Each line with `*` prints the text of the last line that had one exactly when that text lasts
until then. -/
theorem readsBack_iff (content : Content) (stdin : CString) :
    ReadsBack content stdin ↔ ∀ asked : Asked (lines stdin.chars), asked.Lasting content := by
  refine forall_congr' fun asked => ?_
  rw [asked.printed_iff, asked.foldl_eq_last_iff content (line_of_mem_lines asked.text_mem)
    (nul_notMem_lines stdin _ asked.text_mem)]
  exact ⟨fun ⟨reached, ⟨fits, longest, restored⟩, once⟩ => ⟨reached, fits, longest, restored, once⟩,
    fun lasting => ⟨lasting.reached, ⟨lasting.fits, lasting.longest, lasting.restored⟩, lasting.once⟩⟩

/-- Of a longer text what is behind the next one still shows. -/
theorem not_readsBack :
    ¬ ReadsBack ⟨[], by decide, by decide⟩ ⟨"hello\nhi\n*\n".toList, by decide⟩ := by
  intro reads
  have split : lines "hello\nhi\n*\n".toList = ["hello\n".toList] ++ "hi\n".toList ::
      ([] ++ "*\n".toList :: []) := by simp [lines, line]
  let asked : Asked (lines "hello\nhi\n*\n".toList) :=
    ⟨_, _, _, _, _, split, by decide, by decide, by simp, rfl⟩
  have left := ((asked.printed_iff _).mp (reads asked)).2.1
  have first : pieces INPUT "hello\n".toList = ["hello\n".toList] :=
    pieces_of_line (by decide) (by decide) (by decide)
  have second : pieces INPUT "hi\n".toList = ["hi\n".toList] :=
    pieces_of_line (by decide) (by decide) (by decide)
  simp only [written, Asked.before, asked, List.cons_append, List.nil_append, List.flatMap_cons,
    List.flatMap_nil, first, second] at left
  have other : (texts ["hello\n".toList, "hi\n".toList]).foldl memcpy [] ≠ "hi\n".toList.dropLast := by
    decide
  exact other left

end Lsnp.PosixShm
