import Mathlib.Data.List.Induction
import Lsnp.Chatting.Programs

namespace Lsnp.Chatting

open Lsnp.Interaction Lsnp.Libc

private def ends (piece : List Char) : Bool := piece.getLast? == some '\n'

private def restOfLine : List (List Char) → List Char
  | [] => []
  | piece :: more => if ends piece then piece else piece ++ restOfLine more

/-- The text up to `exit`, from its pieces and whether the first one starts a line. -/
private def fromPieces : Bool → List (List Char) → List Char
  | _, [] => []
  | start, piece :: more =>
    if start && exits piece then restOfLine (piece :: more)
    else piece ++ fromPieces (ends piece) more

private theorem roomy : 1 < BUFF_SIZE := by
  decide

private theorem upToExit_eq {text : List Char} (some : text ≠ []) :
    upToExit text = if exits (line text) then line text
      else line text ++ upToExit (text.drop (line text).length) := by
  cases text with
  | nil => exact (some rfl).elim
  | cons char more => rw [upToExit]

private theorem lines_of_pieces (text : List Char) :
    line text = restOfLine (pieces BUFF_SIZE text) ∧
      upToExit text = fromPieces true (pieces BUFF_SIZE text) ∧
      line text ++ upToExit (text.drop (line text).length) =
        fromPieces false (pieces BUFF_SIZE text) := by
  induction length : text.length using Nat.strong_induction_on generalizing text with
  | _ bound ih =>
    rcases pieces_cases roomy text with ⟨rfl, none⟩ | ⟨first, rest, found, some, split, fewer, cut⟩
    · rw [none]
      simp [line, restOfLine, fromPieces, upToExit]
    · have same : piece 1023 text = first := (fgets_eq_some found).1.symm
      have shorter : rest.length < bound := length ▸ fewer
      obtain ⟨lineRest, fromStart, fromWithin⟩ := ih rest.length shorter rest rfl
      have behind : text.drop first.length = rest := by
        rw [split, List.drop_left]
      have nonempty : text ≠ [] := by
        rw [split]
        exact List.append_ne_nil_of_left_ne_nil some rest
      have startsLine : exits (line text) = exits first := by
        rw [← same, piece_eq_take]
        exact (isPrefixOf_take (by decide : ['e', 'x', 'i', 't'].length ≤ 1023) _).symm
      have whole : line text = restOfLine (pieces BUFF_SIZE text) := by
        rw [cut, restOfLine]
        rcases line_piece 1023 text with ⟨last, only⟩ | ⟨last, more⟩
        · rw [same] at last only
          rw [if_pos (by simp [ends, last]), only]
        · rw [same, behind] at more
          rw [same] at last
          rw [if_neg (by simpa [ends] using last), more, lineRest]
      have within : line text ++ upToExit (text.drop (line text).length) =
          fromPieces false (pieces BUFF_SIZE text) := by
        rw [cut, fromPieces, Bool.false_and, if_neg Bool.false_ne_true]
        rcases line_piece 1023 text with ⟨last, only⟩ | ⟨last, more⟩
        · rw [same] at last only
          have ended : ends first = true := by simp [ends, last]
          rw [only, behind, ended, fromStart]
        · rw [same, behind] at more
          rw [same] at last
          have ended : ends first = false := by simpa [ends] using last
          rw [more, ended, ← fromWithin, List.length_append, ← List.drop_drop, behind,
            List.append_assoc]
      refine ⟨whole, ?_, within⟩
      rw [upToExit_eq nonempty, startsLine, cut, fromPieces, Bool.true_and]
      split
      · rw [whole, cut]
      · rw [within, cut, fromPieces, Bool.false_and, if_neg Bool.false_ne_true]

private def startsLine (start : Bool) : List (List Char) → Bool
  | [] => start
  | piece :: more => startsLine (ends piece) more

private theorem startsLine_eq_true (before : List (List Char)) :
    startsLine true before = true ↔
      ∀ piece, before.getLast? = some piece → piece.getLast? = some '\n' := by
  rcases List.eq_nil_or_concat before with rfl | ⟨front, last, rfl⟩
  · simp [startsLine]
  · have behind (start : Bool) : startsLine start (front ++ [last]) = ends last := by
      induction front generalizing start with
      | nil => rfl
      | cons piece front ih => exact ih _
    rw [List.concat_eq_append, behind]
    simp [ends]

private theorem fromPieces_append {before : List (List Char)} (more : List (List Char))
    (open' : ∀ piece ∈ before, exits piece = false) (start : Bool) :
    fromPieces start (before ++ more) =
      before.flatten ++ fromPieces (startsLine start before) more := by
  induction before generalizing start with
  | nil => rfl
  | cons piece before ih =>
    have later : ∀ piece ∈ before, exits piece = false :=
      fun piece member => open' piece (List.mem_cons_of_mem _ member)
    rw [List.cons_append, fromPieces, open' piece List.mem_cons_self, Bool.and_false,
      if_neg Bool.false_ne_true, ih later, List.flatten_cons, List.append_assoc]
    rfl

private theorem fromPieces_eq_nil {start : Bool} {more : List (List Char)}
    (some : ∀ piece ∈ more, piece ≠ []) (empty : fromPieces start more = []) : more = [] := by
  cases more with
  | nil => rfl
  | cons piece more =>
    rw [fromPieces, restOfLine] at empty
    have first : piece = [] := by
      split at empty
      · split at empty
        · exact empty
        · exact (List.append_eq_nil_iff.mp empty).1
      · exact (List.append_eq_nil_iff.mp empty).1
    exact (some piece List.mem_cons_self first).elim

private theorem restOfLine_eq_nil {more : List (List Char)}
    (some : ∀ piece ∈ more, piece ≠ []) (empty : restOfLine more = []) : more = [] := by
  cases more with
  | nil => rfl
  | cons piece more =>
    rw [restOfLine] at empty
    have first : piece = [] := by
      split at empty
      · exact empty
      · exact (List.append_eq_nil_iff.mp empty).1
    exact (some piece List.mem_cons_self first).elim

variable {text last : List Char} {before after : List (List Char)}

/-- What is sent up to the first piece that starts with `exit` is the text up to `exit` exactly
when the piece ends the text, or it is a whole line. -/
theorem sent_eq_upToExit (cut : pieces BUFF_SIZE text = before ++ last :: after)
    (open' : ∀ piece ∈ before, exits piece = false) (exit : exits last = true) :
    before.flatten ++ last = upToExit text ↔
      (after = [] ∨ (last.getLast? = some '\n' ∧
        ∀ piece, before.getLast? = some piece → piece.getLast? = some '\n')) := by
  have some : ∀ piece ∈ after, piece ≠ [] := by
    intro piece member
    apply ne_nil_of_mem_pieces roomy text
    rw [cut]
    exact List.mem_append_right _ (List.mem_cons_of_mem _ member)
  have ended : ends last = true ↔ last.getLast? = Option.some '\n' := by
    simp [ends]
  rw [(lines_of_pieces text).2.1, cut, fromPieces_append _ open', List.append_cancel_left_eq,
    fromPieces, exit, Bool.and_true, ← startsLine_eq_true, ← ended]
  cases start : startsLine true before with
  | true =>
    rw [if_pos rfl, restOfLine]
    split
    · rename_i ends
      simp [ends]
    · rename_i goesOn
      simp only [goesOn, Bool.false_eq_true, false_and, or_false, List.self_eq_append_right]
      constructor
      · exact restOfLine_eq_nil some
      · rintro rfl
        rfl
  | false =>
    rw [if_neg Bool.false_ne_true]
    simp only [Bool.false_eq_true, and_false, or_false, List.self_eq_append_right]
    constructor
    · exact fromPieces_eq_nil some
    · rintro rfl
      rfl

/-- The pieces up to the last one are sent one by one, and the text ends no earlier. -/
structure Progress (before : List (List Char)) (last : List Char) (after : List (List Char))
    (state : State) : Prop where
  running : state.ended = none → nul ∉ state.rest ∧
    ∃ done todo, before = done ++ todo ∧ state.sent = done.flatten ∧
      pieces BUFF_SIZE state.rest = todo ++ last :: after
  left : state.ended ≠ none → state.sent <+: before.flatten ++ last
  bye : state.ended = some .bye → state.sent = before.flatten ++ last

variable {program : Program} {state : State}

private theorem relay_eq {read rest : List Char}
    (got : fgets BUFF_SIZE state.rest = some (read, rest)) (free : nul ∉ state.rest) :
    state.relay = { state with
      rest := rest
      buffer := read
      sent := state.sent ++ read } := by
  have string : cString read = read := by
    apply cString_of_notMem
    intro member
    rw [(fgets_eq_some got).2.2] at free
    exact free (List.mem_append_left rest member)
  rw [State.relay, got]
  simp only [string]

private theorem progress_relay (progress : Progress before last after state)
    (running : state.ended = none) :
    nul ∉ state.relay.rest ∧ state.relay.ended = none ∧
      ((state.relay.buffer = last ∧ state.relay.sent = before.flatten ++ last) ∨
        ∃ done todo, state.relay.buffer ∈ before ∧ before = done ++ todo ∧
          state.relay.sent = done.flatten ∧
          pieces BUFF_SIZE state.relay.rest = todo ++ last :: after) := by
  obtain ⟨free, done, todo, split, sent, cut⟩ := progress.running running
  cases todo with
  | nil =>
    obtain ⟨rest, got, behind⟩ := fgets_of_pieces cut
    have later : nul ∉ rest := by
      rw [(fgets_eq_some got).2.2] at free
      exact fun member => free (List.mem_append_right last member)
    rw [List.append_nil] at split
    rw [relay_eq got free]
    exact ⟨later, running, .inl ⟨rfl, by rw [sent, split]⟩⟩
  | cons piece todo =>
    obtain ⟨rest, got, behind⟩ := fgets_of_pieces cut
    have later : nul ∉ rest := by
      rw [(fgets_eq_some got).2.2] at free
      exact fun member => free (List.mem_append_right piece member)
    rw [relay_eq got free]
    refine ⟨later, running, .inr ⟨done ++ [piece], todo, ?_, ?_, ?_, behind⟩⟩
    · rw [split]
      exact List.mem_append_right done List.mem_cons_self
    · rw [split, List.append_assoc]
      rfl
    · simp only [sent, List.flatten_append, List.flatten_singleton]

private theorem prefix_of_done {done todo : List (List Char)} (split : before = done ++ todo)
    (last : List Char) : done.flatten <+: before.flatten ++ last := by
  rw [split, List.flatten_append, List.append_assoc]
  exact List.prefix_append _ _

private theorem progress_leave {ending : Ending} {text : List Char}
    (sent : state.sent <+: before.flatten ++ last) (other : ending ≠ .bye) :
    Progress before last after (state.leave program ending text) := by
  refine ⟨fun running => (nomatch running), fun _ => sent, fun bye => ?_⟩
  exact (other (Option.some.inj bye)).elim

private theorem progress_step {next : State} (open' : ∀ piece ∈ before, exits piece = false)
    (exit : exits last = true) (progress : Progress before last after state)
    (running : state.ended = none) (round : Round program state next) :
    Progress before last after next := by
  have far : state.sent <+: before.flatten ++ last := by
    obtain ⟨-, done, todo, split, sent, -⟩ := progress.running running
    rw [sent]
    exact prefix_of_done split last
  obtain ⟨free, still, more⟩ := progress_relay progress running
  cases round with
  | typed =>
    rcases more with ⟨buffer, sent⟩ | ⟨done, todo, member, split, sent, cut⟩
    · rw [State.test, buffer, if_pos exit]
      refine ⟨fun running => (nomatch running), fun _ => ?_, fun _ => sent⟩
      show state.relay.sent <+: _
      exact sent ▸ List.prefix_rfl
    · rw [State.test, if_neg (by rw [open' _ member]; exact Bool.false_ne_true)]
      refine ⟨fun _ => ⟨free, done, todo, split, sent, cut⟩, fun left => (left still).elim, ?_⟩
      intro bye
      rw [still] at bye
      cases bye
  | sendFails =>
    apply progress_leave _ (by decide)
    rcases more with ⟨-, sent⟩ | ⟨done, todo, -, split, sent, -⟩
    · exact sent ▸ List.prefix_rfl
    · rw [sent]
      exact prefix_of_done split last
  | received bytes some short =>
    exact ⟨progress.running, progress.left, progress.bye⟩
  | recvFails => exact progress_leave far (by decide)
  | cut => exact progress_leave far (by decide)
  | neither polls => exact progress_leave far (by decide)

private theorem lawful_of_closed {source : Source} {stdin : CString} (closed : Closed stdin.chars)
    (reachable : (chatting source stdin).Reachable state) : Lawful stdin state := by
  obtain ⟨before, last, after, cut, open', exit, whole⟩ := closed
  have same := (sent_eq_upToExit cut open' exit).mpr whole
  have progress : Progress before last after state := by
    apply reachable.invariant (Progress before last after)
    · rintro state ⟨rest, -, sent, -, ended⟩
      refine ⟨fun _ => ⟨?_, [], before, rfl, sent, ?_⟩, fun left => (left ended).elim, ?_⟩
      · rw [rest]
        exact stdin.nulFree
      · rw [rest, cut]
      · intro bye
        rw [ended] at bye
        cases bye
    · rintro state next progress ⟨running, round⟩
      exact progress_step open' exit progress running round
  refine ⟨?_, ?_⟩
  · rw [← same]
    cases ended : state.ended with
    | none =>
      obtain ⟨-, done, todo, split, sent, -⟩ := progress.running ended
      rw [sent]
      exact prefix_of_done split last
    | some ending => exact progress.left (by rw [ended]; exact Option.some_ne_none ending)
  · rw [← same]
    rintro (bye | ⟨running, empty⟩)
    · exact progress.bye bye
    · obtain ⟨-, done, todo, -, -, more⟩ := progress.running running
      rw [empty, pieces_eq_nil rfl] at more
      simp at more

private theorem prefix_restOfLine (more : List (List Char)) : restOfLine more <+: more.flatten := by
  induction more with
  | nil => exact List.nil_prefix
  | cons piece more ih =>
    rw [restOfLine, List.flatten_cons]
    split
    · exact List.prefix_append piece _
    · exact (List.prefix_append_right_inj piece).mpr ih

private theorem prefix_fromPieces (start : Bool) (more : List (List Char)) :
    fromPieces start more <+: more.flatten := by
  induction more generalizing start with
  | nil => exact List.nil_prefix
  | cons piece more ih =>
    rw [fromPieces]
    split
    · exact prefix_restOfLine _
    · rw [List.flatten_cons]
      exact (List.prefix_append_right_inj piece).mpr (ih _)

private theorem prefix_upToExit (text : List Char) : upToExit text <+: text := by
  have parts := prefix_fromPieces true (pieces BUFF_SIZE text)
  rwa [← (lines_of_pieces text).2.1, flatten_pieces roomy] at parts

private theorem reach_pieces (source : Source) {stdin : CString} {buffer : List Char}
    (string : nul ∉ buffer) (before more : List (List Char))
    (cut : pieces BUFF_SIZE stdin.chars = before ++ more)
    (open' : ∀ piece ∈ before, exits piece = false) :
    ∃ state, (chatting source stdin).Reachable state ∧ state.ended = none ∧
      state.sent = before.flatten ∧ pieces BUFF_SIZE state.rest = more ∧ nul ∉ state.rest ∧
      state.buffer = before.getLast?.getD buffer := by
  induction before using List.reverseRecOn generalizing more with
  | nil =>
    exact ⟨⟨stdin.chars, buffer, [], [], none⟩, .start ⟨rfl, string, rfl, rfl, rfl⟩, rfl, rfl, cut,
      stdin.nulFree, rfl⟩
  | append_singleton before piece ih =>
    have earlier : ∀ piece ∈ before, exits piece = false :=
      fun piece member => open' piece (List.mem_append_left _ member)
    obtain ⟨state, reachable, running, sent, pieces, free, -⟩ :=
      ih (piece :: more) (by rw [cut, List.append_assoc]; rfl) earlier
    obtain ⟨rest, got, behind⟩ := fgets_of_pieces pieces
    have later : nul ∉ rest := by
      rw [(fgets_eq_some got).2.2] at free
      exact fun member => free (List.mem_append_right piece member)
    have none : exits piece = false := open' piece (by simp)
    refine ⟨_, reachable.next ⟨running, .typed⟩, ?_⟩
    rw [relay_eq got free, State.test, if_neg (by rw [none]; exact Bool.false_ne_true)]
    exact ⟨running, by simp [sent], behind, later, by simp⟩

private theorem first_exit (pieces : List (List Char)) :
    (∀ piece ∈ pieces, exits piece = false) ∨
      ∃ before last after, pieces = before ++ last :: after ∧
        (∀ piece ∈ before, exits piece = false) ∧ exits last = true := by
  induction pieces with
  | nil => exact .inl (by simp)
  | cons piece pieces ih =>
    cases exit : exits piece with
    | true => exact .inr ⟨[], piece, pieces, rfl, by simp, exit⟩
    | false =>
      rcases ih with none | ⟨before, last, after, rfl, open', last'⟩
      · exact .inl (List.forall_mem_cons.mpr ⟨exit, none⟩)
      · exact .inr ⟨piece :: before, last, after, rfl, List.forall_mem_cons.mpr ⟨exit, open'⟩, last'⟩

private theorem sent_test (program : Program) (state : State) :
    (state.test program).sent = state.sent := by
  unfold State.test
  split
  · rfl
  · rfl

private theorem not_lawful_again (source : Source) {stdin : CString}
    (none : ∀ piece ∈ pieces BUFF_SIZE stdin.chars, exits piece = false) :
    ∃ state, (chatting source stdin).Reachable state ∧ ¬ Lawful stdin state := by
  obtain ⟨state, reachable, running, sent, left, -, buffer⟩ :=
    reach_pieces source (by decide : nul ∉ ['x']) _ [] (List.append_nil _).symm none
  have stale : state.buffer ≠ [] := by
    rw [buffer]
    cases last : (pieces BUFF_SIZE stdin.chars).getLast? with
    | none => simp
    | some piece => exact ne_nil_of_mem_pieces roomy stdin.chars (List.mem_of_getLast? last)
  have empty : state.rest = [] := by
    rw [← flatten_pieces roomy state.rest, left]
    rfl
  refine ⟨_, reachable.next ⟨running, .typed⟩, ?_⟩
  intro lawful
  have relayed : state.relay.sent = stdin.chars ++ state.buffer := by
    rw [State.relay, empty]
    show state.sent ++ state.buffer = _
    rw [sent, flatten_pieces roomy]
  have only : stdin.chars ++ state.buffer <+: upToExit stdin.chars := by
    rw [← relayed, ← sent_test source.program]
    exact lawful.only
  have short := (only.trans (prefix_upToExit stdin.chars)).length_le
  rw [List.length_append] at short
  have some := List.length_pos_iff.mpr stale
  omega

/-- The chat programs relay what is typed exactly when the first piece that starts with `exit`
is a whole line or the end of the text. -/
theorem relays_iff_closed (source : Source) (stdin : CString) :
    (∀ state, (chatting source stdin).Reachable state → Lawful stdin state) ↔
      Closed stdin.chars := by
  constructor
  · intro lawful
    rcases first_exit (pieces BUFF_SIZE stdin.chars) with none | ⟨before, last, after, cut, open', exit⟩
    · obtain ⟨state, reachable, wrong⟩ := not_lawful_again source none
      exact (wrong (lawful state reachable)).elim
    · refine ⟨before, last, after, cut, open', exit, (sent_eq_upToExit cut open' exit).mp ?_⟩
      obtain ⟨state, reachable, running, sent, more, free, -⟩ :=
        reach_pieces source List.not_mem_nil before _ cut open'
      obtain ⟨rest, got, -⟩ := fgets_of_pieces more
      have next := reachable.next ⟨running, .typed⟩
      rw [relay_eq got free, State.test, if_pos exit] at next
      have whole := (lawful _ next).whole (.inl rfl)
      rw [← whole]
      show _ = state.sent ++ last
      rw [sent]
  · intro closed state
    exact lawful_of_closed closed

/-- At the end of the input the last line is sent once more. -/
theorem not_relays_twice :
    ¬ ∀ state, (chatting .tcpChattingServer ⟨['h', 'i', '\n'], by decide⟩).Reachable state →
      Lawful ⟨['h', 'i', '\n'], by decide⟩ state := by
  intro lawful
  have start : (chatting .tcpChattingServer ⟨['h', 'i', '\n'], by decide⟩).Reachable
      ⟨['h', 'i', '\n'], [], [], [], none⟩ :=
    .start ⟨rfl, List.not_mem_nil, rfl, rfl, rfl⟩
  have run := (start.next ⟨rfl, .typed⟩).next ⟨rfl, .typed⟩
  have only : ['h', 'i', '\n', 'h', 'i', '\n'] <+: upToExit ['h', 'i', '\n'] := (lawful _ run).only
  have short := (only.trans (prefix_upToExit _)).length_le
  simp at short

end Lsnp.Chatting
