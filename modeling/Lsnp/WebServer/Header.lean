import Lsnp.WebServer.Led

namespace Lsnp.WebServer

open Lsnp.Libc

def crlf : List Char := ['\r', '\n']

/-- `strncmp(line, "\r\n", 2) == 0` -/
def isBlank (array : List Char) : Bool := crlf.isPrefixOf (cString array)

/-- The loop of `webserver.c`, with at most this many rounds: what it leaves in the stream. -/
def headerLoop : Nat → List Char → List Char → Option (List Char)
  | 0, _, _ => none
  | rounds + 1, regLine, stream =>
    let (regLine, stream) := Led.readLine regLine stream
    if isBlank regLine then some stream else headerLoop rounds regLine stream

/-- The array `reg_line` in front of the loop: a request line whose tokens have been ended. -/
def tokenized (array request : List Char) : List Char :=
  let method := strtok ['/', ' '] (Led.put array request) 0
  (strtok [' '] method.memory method.cursor).memory

/-- The loop of `rpi6.c`: what it leaves in the stream. -/
def skipHeader (stream : List Char) : List Char :=
  match _found : fgets BUFSIZ stream with
  | none => stream
  | some (read, rest) => if isBlank read then rest else skipHeader rest
termination_by stream.length
decreasing_by exact length_rest_lt _found

/-- What is behind the first of these lines that is CR LF only; nothing if none is. -/
def afterCrlf (texts : List (List Char)) : List Char :=
  (texts.dropWhile (· ≠ crlf)).tail.flatten

def afterHeader (stream : List Char) : List Char := afterCrlf (lines stream)

def Stops (text : List Char) : Prop := crlf <:+ text ∧ text.length % (BUFSIZ - 1) = 2

instance (text : List Char) : Decidable (Stops text) :=
  inferInstanceAs (Decidable (crlf <:+ text ∧ text.length % (BUFSIZ - 1) = 2))

/-- In front of the first line of CR LF only, and of the last line, there is no line that is
too long and has CR LF as its last piece. -/
def Whole (texts : List (List Char)) : Prop :=
  ∀ text ∈ texts.dropLast.takeWhile (· ≠ crlf), ¬ Stops text

def Unbroken (stream : List Char) : Prop := Whole (lines stream)

def afterBlank : List (List Char) → Option (List Char)
  | [] => none
  | piece :: more => if isBlank piece then some more.flatten else afterBlank more

@[simp] theorem isBlank_put (array chars : List Char) :
    isBlank (Led.put array chars) = isBlank chars := by
  rw [isBlank, Led.cString_put, isBlank]

private theorem headerLoop_nil {regLine : List Char} (other : isBlank regLine = false)
    (rounds : Nat) : headerLoop rounds regLine [] = none := by
  induction rounds with
  | zero => rfl
  | succ rounds ih =>
    have ended : Led.readLine regLine [] = (regLine, []) := rfl
    rw [headerLoop, ended]
    simpa [other] using ih

theorem headerLoop_iff {regLine stream left : List Char} (other : isBlank regLine = false) :
    (∃ rounds, headerLoop rounds regLine stream = some left) ↔
      afterBlank (pieces BUFSIZ stream) = some left := by
  induction length : stream.length using Nat.strong_induction_on generalizing regLine stream with
  | _ bound ih =>
    rcases pieces_cases (by decide : 1 < BUFSIZ) stream with
      ⟨rfl, none⟩ | ⟨read, rest, found, -, -, shorter, cut⟩
    · simp [headerLoop_nil other, none, afterBlank]
    · have read' : Led.readLine regLine stream = (Led.put regLine read, rest) := by
        rw [Led.readLine, found]
      have first : ∀ rounds, headerLoop (rounds + 1) regLine stream =
          if isBlank read then some rest else headerLoop rounds (Led.put regLine read) rest := by
        intro rounds
        rw [headerLoop, read']
        simp only [isBlank_put]
      rw [cut, afterBlank, flatten_pieces (by decide)]
      have none : headerLoop 0 regLine stream ≠ some left := fun same => by cases same
      rw [← Nat.or_exists_add_one, or_iff_right none]
      simp only [first]
      by_cases blank : isBlank read = true
      · simp [blank]
      · simp only [blank, if_false, Bool.false_eq_true]
        exact ih rest.length (length ▸ shorter) (by simpa using blank) rfl

theorem headers_iff_loop {regLine : List Char} (other : isBlank regLine = false)
    (stream : List Char) :
    Led.headers regLine (pieces BUFSIZ stream) = true ↔
      ∃ rounds left, headerLoop rounds regLine stream = some left := by
  have same : ∀ texts : List (List Char), ∀ regLine, isBlank regLine = false →
      (Led.headers regLine texts = true ↔ ∃ left, afterBlank texts = some left) := by
    intro texts
    induction texts with
    | nil =>
      intro regLine other
      simp only [Led.headers, afterBlank, reduceCtorEq, exists_false, iff_false]
      exact Bool.eq_false_iff.mp other
    | cons piece more ih =>
      intro regLine _
      have test : "\r\n".toList.isPrefixOf (cString (Led.put regLine piece)) = isBlank piece :=
        isBlank_put regLine piece
      rw [Led.headers, test, afterBlank]
      by_cases blank : isBlank piece = true
      · simp [blank]
      · rw [if_neg blank, if_neg blank]
        exact ih _ ((isBlank_put regLine piece).trans (Bool.eq_false_iff.mpr blank))
  rw [same _ _ other, exists_comm]
  exact exists_congr fun left => (headerLoop_iff other).symm

theorem skipHeader_eq (stream : List Char) :
    skipHeader stream = (afterBlank (pieces BUFSIZ stream)).getD [] := by
  induction length : stream.length using Nat.strong_induction_on generalizing stream with
  | _ bound ih =>
    rcases pieces_cases (by decide : 1 < BUFSIZ) stream with
      ⟨rfl, none⟩ | ⟨read, rest, found, -, -, shorter, cut⟩
    · rw [none, skipHeader]
      rfl
    · rw [cut, afterBlank, flatten_pieces (by decide), skipHeader]
      split
      · rename_i ended
        rw [found] at ended
        cases ended
      · rename_i same
        rw [found] at same
        obtain ⟨rfl, rfl⟩ := Prod.mk.inj (Option.some.inj same)
        split
        · rfl
        · exact ih rest.length (length ▸ shorter) rest rfl

private theorem prefix_of_isBlank {text : List Char} (blank : isBlank text = true) : crlf <+: text :=
  (List.isPrefixOf_iff_prefix.mp blank).trans (List.takeWhile_prefix _)

theorem isBlank_iff {text : List Char} (whole : line text = text) : isBlank text ↔ text = crlf := by
  constructor
  · intro blank
    obtain ⟨more, rfl⟩ := prefix_of_isBlank blank
    have first : line (crlf ++ more) = crlf := by simp [crlf, line]
    exact whole.symm.trans first
  · rintro rfl
    rfl

private theorem stops_short {text : List Char} (short : text.length < BUFSIZ) :
    Stops text ↔ text = crlf := by
  constructor
  · rintro ⟨behind, two⟩
    have size : BUFSIZ = 8192 := rfl
    rw [size] at two short
    have length : text.length = 2 := by omega
    exact (behind.eq_of_length length.symm).symm
  · rintro rfl
    decide

private theorem stops_long {read rest : List Char} (full : read.length = BUFSIZ - 1) :
    Stops (read ++ rest) ↔ Stops rest := by
  have length : (read ++ rest).length % (BUFSIZ - 1) = rest.length % (BUFSIZ - 1) := by
    rw [List.length_append, full, Nat.add_mod_left]
  unfold Stops
  rw [length]
  refine and_congr_left fun two => ?_
  constructor
  · intro behind
    have room : crlf.length ≤ rest.length := by
      have least : rest.length % (BUFSIZ - 1) ≤ rest.length := Nat.mod_le _ _
      rw [two] at least
      exact least
    exact List.suffix_of_suffix_length_le behind (List.suffix_append _ _) room
  · exact fun behind => behind.trans (List.suffix_append _ _)

theorem afterBlank_line {text : List Char} (whole : line text = text) (filled : text ≠ [])
    (more : List (List Char)) :
    afterBlank (pieces BUFSIZ text ++ more) =
      if Stops text then some more.flatten else afterBlank more := by
  induction length : text.length using Nat.strong_induction_on generalizing text with
  | _ bound ih =>
    by_cases short : text.length < BUFSIZ
    · rw [pieces_of_line whole filled short, List.singleton_append, afterBlank]
      simp only [isBlank_iff whole, stops_short short]
    · rcases pieces_cases (by decide : 1 < BUFSIZ) text with
        ⟨empty, -⟩ | ⟨read, rest, found, -, split, shorter, cut⟩
      · exact (filled empty).elim
      · obtain ⟨same, -, -⟩ := fgets_eq_some found
        have full : read.length = BUFSIZ - 1 := by
          rw [same, piece_eq_take, whole, List.length_take]
          omega
        rcases line_piece (BUFSIZ - 1) text with ⟨-, only⟩ | ⟨goesOn, later⟩
        · rw [whole, ← same] at only
          have size : BUFSIZ = 8192 := rfl
          rw [only] at short
          omega
        · rw [ne_eq, getLast?_piece, ← same] at goesOn
          have other : ¬ isBlank read = true := fun blank =>
            goesOn ((prefix_of_isBlank blank).subset (by decide))
          have behind : text.drop read.length = rest := by rw [split, List.drop_left]
          rw [whole, ← same, behind] at later
          have wholeRest : line rest = rest := List.append_cancel_left (later.symm.trans split)
          have someRest : rest ≠ [] := by
            rintro rfl
            rw [List.append_nil] at split
            have size : BUFSIZ = 8192 := rfl
            rw [split] at short
            omega
          rw [cut, List.cons_append, afterBlank, if_neg other,
            ih rest.length (length ▸ shorter) wholeRest someRest rfl]
          simp only [split, stops_long full]

def afterStop : List (List Char) → Option (List Char)
  | [] => none
  | text :: more => if Stops text then some more.flatten else afterStop more

theorem afterBlank_pieces (stream : List Char) :
    afterBlank (pieces BUFSIZ stream) = afterStop (lines stream) := by
  rw [pieces_eq_lines (by decide)]
  have all : ∀ text ∈ lines stream, line text = text ∧ text ≠ [] := fun _ => line_of_mem_lines
  generalize lines stream = texts at all ⊢
  induction texts with
  | nil => rfl
  | cons text more ih =>
    obtain ⟨whole, filled⟩ := all text List.mem_cons_self
    have later : ∀ other ∈ more, line other = other ∧ other ≠ [] :=
      fun other member => all other (List.mem_cons_of_mem _ member)
    have flat : (more.flatMap (pieces BUFSIZ)).flatten = more.flatten := by
      rw [List.flatMap_def, List.flatten_flatten, List.map_map]
      congr 1
      conv => rhs; rw [← List.map_id more]
      exact List.map_congr_left fun other _ => flatten_pieces (by decide) other
    rw [List.flatMap_cons, afterBlank_line whole filled, afterStop, flat, ih later]

theorem stops_crlf : Stops crlf := by decide

private theorem afterCrlf_crlf (more : List (List Char)) :
    afterCrlf (crlf :: more) = more.flatten := by
  rw [afterCrlf, List.dropWhile_cons_of_neg (by simp), List.tail_cons]

private theorem afterCrlf_cons {text : List Char} (other : text ≠ crlf) (more : List (List Char)) :
    afterCrlf (text :: more) = afterCrlf more := by
  rw [afterCrlf, List.dropWhile_cons_of_pos (by simpa using other), afterCrlf]

private theorem whole_crlf (more : List (List Char)) : Whole (crlf :: more) := by
  cases more with
  | nil => nofun
  | cons next more => simp [Whole]

private theorem whole_cons {text : List Char} (other : text ≠ crlf) (more : List (List Char)) :
    Whole (text :: more) ↔ (more ≠ [] → ¬ Stops text) ∧ Whole more := by
  cases more with
  | nil => simp [Whole]
  | cons next more => simp [Whole, other]

private theorem afterCrlf_ne {texts : List (List Char)} (some : texts ≠ [])
    (filled : ∀ text ∈ texts, text ≠ []) : afterCrlf texts ≠ texts.flatten := by
  intro same
  have behind : (texts.dropWhile (· ≠ crlf)).tail <:+ texts.tail := by
    cases texts with
    | nil => exact (some rfl).elim
    | cons text more =>
      by_cases it : text = crlf
      · subst it
        simp
      · rw [List.dropWhile_cons_of_pos (by simpa using it)]
        exact (List.tail_suffix _).trans (List.dropWhile_suffix _)
  obtain ⟨text, more, rfl⟩ := List.exists_cons_of_ne_nil some
  obtain ⟨front, split⟩ := behind
  rw [List.tail_cons] at split
  have parts := congrArg (List.length ∘ List.flatten) split
  have lengths := congrArg List.length same
  have first := List.length_pos_iff.mpr (filled text List.mem_cons_self)
  rw [List.flatten_cons, List.length_append, afterCrlf] at lengths
  simp only [Function.comp, List.flatten_append, List.length_append] at parts
  omega

theorem afterStop_iff {texts : List (List Char)} (filled : ∀ text ∈ texts, text ≠ []) :
    (afterStop texts = some (afterCrlf texts) ↔ (∃ text ∈ texts, Stops text) ∧ Whole texts) ∧
      ((afterStop texts).getD [] = afterCrlf texts ↔ Whole texts) := by
  induction texts with
  | nil => simp [afterStop, afterCrlf, Whole]
  | cons text more ih =>
    have later : ∀ other ∈ more, other ≠ [] :=
      fun other member => filled other (List.mem_cons_of_mem _ member)
    obtain ⟨loops, skips⟩ := ih later
    rw [afterStop, List.exists_mem_cons_iff]
    by_cases it : text = crlf
    · subst it
      simp [stops_crlf, afterCrlf_crlf, whole_crlf]
    · rw [afterCrlf_cons it, whole_cons it]
      by_cases stops : Stops text
      · by_cases last : more = []
        · subst last
          simp [stops, afterCrlf, Whole]
        · have apart := afterCrlf_ne last later
          simp [stops, last, apart.symm]
      · simp [stops, loops, skips]

theorem unblank_tokenized {request : List Char}
    (get : Led.firstToken ['/', ' '] (cString request) = "GET".toList) (array : List Char) :
    isBlank (tokenized array request) = false := by
  unfold Led.firstToken at get
  split at get
  · cases get
  · rename_i word behind cut
    subst get
    exact Led.not_blank (Led.head_line cut array)

end Lsnp.WebServer
