import Lsnp.Lab.Calls
import Lsnp.Lab.Reading
import Lsnp.Lab.Rounds

namespace Lsnp.Lab

open Lsnp.Interaction Lsnp.Unix Lsnp.Libc

/-- The length of `pids`. -/
def MAXPIDS : Nat := 1024

/-- The slot of the token whose last character `get_op_type` tests, if it gets there. -/
def lookBack (args : List (Option Text)) (start : Nat) : Option Nat :=
  match scan (args.drop start) start with
  | some (.none, stop) => if stop = start then none else some (stop - 1)
  | _ => none

/-- The operators whose case goes on at `end + 1`, or reads there. -/
def Op.readsOn : Op → Bool
  | .pipe | .out | .input | .and => true
  | .none | .background => false

/-- What is asked of a head of the loop on an array of this many tokens. -/
structure Interp.Within (interp : Interp) (count : Nat) : Prop where
  cmd : interp.cmdArglist ≤ count
  curr : interp.currPtr ≤ count
  stop : ∃ op args stop, getOpType interp.args interp.currPtr = some (op, args, stop) ∧
    interp.currPtr ≤ stop ∧ stop ≤ count ∧ (op.readsOn → stop + 1 ≤ count)
  lookBack : ∀ slot, lookBack interp.args interp.currPtr = some slot →
    interp.currPtr ≤ slot ∧ ∃ token, interp.args[slot]? = some (some token) ∧ token ≠ []
  pids : interp.pids.length < MAXPIDS

/-- The slots that are still to be scanned hold the last tokens and the terminating `NULL`. -/
structure Interp.InBounds (interp : Interp) (count : Nat) : Prop where
  terminated : interp.args[count]? = some none
  filled : ∀ slot, interp.currPtr ≤ slot → slot < count →
    ∃ token, interp.args[slot]? = some (some token) ∧ token ≠ []
  behind : interp.cmdArglist ≤ interp.currPtr
  within : interp.currPtr ≤ count
  counted : interp.pids.length ≤ interp.currPtr

/-- What a scan has found out about the slots it went over. -/
structure Found (args : List (Option Text)) (start : Nat) (op : Op) (stop : Nat) : Prop where
  behind : start ≤ stop
  words : ∀ slot, start ≤ slot → slot < stop → args[slot]? ≠ some none
  here : if op = .none then args[stop]? = some none
    else ∃ token, args[stop]? = some (some token) ∧ operator token = op

theorem found_of_scan {args slots : List (Option Text)} {start stop : Nat} {op : Op}
    (rest : args.drop start = slots) (scanned : scan slots start = some (op, stop)) :
    Found args start op stop := by
  induction slots generalizing start with
  | nil => cases scanned
  | cons slot slots ih =>
    have here : args[start]? = some slot := by
      rw [← List.head?_drop, rest, List.head?_cons]
    have next : args.drop (start + 1) = slots := by
      rw [← List.tail_drop, rest, List.tail_cons]
    cases slot with
    | none =>
      cases scanned
      exact ⟨Nat.le_refl _, fun slot first last => absurd (first.trans_lt last) (Nat.lt_irrefl _),
        by simpa using here⟩
    | some token =>
      rw [scan] at scanned
      split at scanned
      · have found := ih next scanned
        refine ⟨Nat.le_of_succ_le found.behind, fun slot first last => ?_, found.here⟩
        rcases Nat.eq_or_lt_of_le first with rfl | later
        · simp [here]
        · exact found.words slot later last
      · rename_i other
        cases scanned
        refine ⟨Nat.le_refl _, fun slot first last => absurd (first.trans_lt last) (Nat.lt_irrefl _),
          ?_⟩
        simp [other, here]

theorem exists_scan {slots : List (Option Text)} (terminated : none ∈ slots) (start : Nat) :
    ∃ op stop, scan slots start = some (op, stop) := by
  induction slots generalizing start with
  | nil => cases terminated
  | cons slot slots ih =>
    cases slot with
    | none => exact ⟨_, _, rfl⟩
    | some token =>
      rw [scan]
      split
      · exact ih (by simpa using terminated) _
      · exact ⟨_, _, rfl⟩

/-- What a call of `get_op_type` leaves of the array. -/
structure Interp.Cut (interp : Interp) (count : Nat) (op : Op) (args : List (Option Text))
    (stop : Nat) : Prop where
  behind : interp.currPtr ≤ stop
  within : stop ≤ count
  readsOn : op.readsOn → stop < count
  terminated : args[count]? = some none
  later : ∀ slot, stop < slot → args[slot]? = interp.args[slot]?

variable {interp : Interp} {count : Nat}

theorem Interp.InBounds.scan (inBounds : interp.InBounds count) :
    ∃ op stop, scan (interp.args.drop interp.currPtr) interp.currPtr = some (op, stop) ∧
      Found interp.args interp.currPtr op stop ∧ stop ≤ count := by
  have member : none ∈ interp.args.drop interp.currPtr := by
    refine List.mem_of_getElem? (i := count - interp.currPtr) ?_
    rw [List.getElem?_drop, Nat.add_sub_cancel' inBounds.within, inBounds.terminated]
  obtain ⟨op, stop, scanned⟩ := exists_scan member interp.currPtr
  have found := found_of_scan rfl scanned
  refine ⟨op, stop, scanned, found, Nat.le_of_not_lt fun beyond => ?_⟩
  exact found.words count inBounds.within beyond inBounds.terminated

theorem Interp.InBounds.last (inBounds : interp.InBounds count) {stop : Nat}
    (behind : interp.currPtr ≤ stop) (within : stop ≤ count) (some : stop ≠ interp.currPtr) :
    interp.currPtr ≤ stop - 1 ∧ stop - 1 < count ∧
      ∃ token, interp.args[stop - 1]? = .some (.some token) ∧ token ≠ [] := by
  have first : interp.currPtr ≤ stop - 1 := by omega
  have last : stop - 1 < count := by omega
  exact ⟨first, last, inBounds.filled _ first last⟩

theorem Interp.InBounds.getOpType (inBounds : interp.InBounds count) :
    ∃ op args stop, getOpType interp.args interp.currPtr = some (op, args, stop) ∧
      interp.Cut count op args stop := by
  obtain ⟨op, stop, scanned, found, within⟩ := inBounds.scan
  unfold Lab.getOpType
  rw [scanned]
  by_cases plain : op = .none
  · subst plain
    by_cases empty : stop = interp.currPtr
    · simp only [empty, if_true]
      exact ⟨_, _, _, rfl, Nat.le_refl _, inBounds.within, nofun, inBounds.terminated,
        fun _ _ => rfl⟩
    · obtain ⟨first, last, token, read, full⟩ := inBounds.last found.behind within empty
      simp only [empty, if_false, read, List.getLast?_eq_some_getLast full]
      split
      · refine ⟨_, _, _, rfl, found.behind, within, nofun, ?_, fun slot later => ?_⟩
        · rw [List.getElem?_set_ne last.ne, inBounds.terminated]
        · rw [List.getElem?_set_ne (by omega)]
      · exact ⟨_, _, _, rfl, found.behind, within, nofun, inBounds.terminated, fun _ _ => rfl⟩
  · have here := found.here
    rw [if_neg plain] at here
    obtain ⟨token, read, -⟩ := here
    have other : stop ≠ count := by
      rintro rfl
      rw [inBounds.terminated] at read
      cases read
    refine ⟨op, interp.args.set stop none, stop, ?_, found.behind, within, fun _ => by omega, ?_,
      fun slot later => List.getElem?_set_ne later.ne⟩
    · cases op <;> first | rfl | exact (plain rfl).elim
    · rw [List.getElem?_set_ne other, inBounds.terminated]

theorem Interp.InBounds.toWithin (inBounds : interp.InBounds count) (short : count < MAXPIDS) :
    interp.Within count where
  cmd := inBounds.behind.trans inBounds.within
  curr := inBounds.within
  stop := by
    obtain ⟨op, args, stop, read, cut⟩ := inBounds.getOpType
    exact ⟨op, args, stop, read, cut.behind, cut.within, cut.readsOn⟩
  lookBack := by
    intro slot looked
    obtain ⟨op, stop, scanned, found, within⟩ := inBounds.scan
    unfold Lab.lookBack at looked
    rw [scanned] at looked
    cases op <;> simp only [Option.ite_none_left_eq_some, Option.some.injEq, reduceCtorEq] at looked
    obtain ⟨some, rfl⟩ := looked
    obtain ⟨first, -, filled⟩ := inBounds.last found.behind within some
    exact ⟨first, filled⟩
  pids := (inBounds.counted.trans inBounds.within).trans_lt short

theorem Interp.Cut.next {op : Op} {args : List (Option Text)} {stop : Nat}
    (cut : interp.Cut count op args stop) (inBounds : interp.InBounds count) {next : Interp}
    (same : next.args = args) (behind : next.cmdArglist ≤ next.currPtr)
    (moved : stop < next.currPtr) (within : next.currPtr ≤ count)
    (counted : next.pids.length ≤ next.currPtr) : next.InBounds count where
  terminated := by rw [same, cut.terminated]
  filled := by
    intro slot first last
    rw [same, cut.later slot (moved.trans_le first)]
    exact inBounds.filled slot (cut.behind.trans (moved.le.trans first)) last
  behind := behind
  within := within
  counted := counted

theorem Interp.InBounds.round (inBounds : interp.InBounds count) :
    (round interp).gives fun flow => ∀ next, flow = .again next →
      next.InBounds count ∧ interp.currPtr < next.currPtr := by
  obtain ⟨op, args, stop, read, cut⟩ := inBounds.getOpType
  have behind := cut.behind
  have counted := inBounds.counted
  have left : ∀ other next, Flow.leave other = .again next →
      next.InBounds count ∧ interp.currPtr < next.currPtr := by
    intro other next same
    cases same
  simp only [Lab.round, read]
  cases op with
  | none | background =>
    simp only [opNone, opBackground, Program.gives_bind, Program.gives_pure]
    refine Program.gives_of_forall _ fun pid => ?_
    first | exact left _ | exact Program.gives_of_forall _ fun _ => left _
  | pipe =>
    have stopped := cut.readsOn rfl
    simp only [opPipe, Program.gives_bind]
    refine Program.gives_of_forall _ fun ends => ?_
    cases ends with
    | none => exact left _
    | some ends =>
      refine (Program.gives_bind _ _).mpr (Program.gives_of_forall _ fun pid => ?_)
      cases pid with
      | none => exact fun _ => left _
      | some pid =>
        rintro next ⟨⟩
        refine ⟨cut.next inBounds rfl (Nat.le_refl _) (Nat.lt_succ_self _) stopped ?_,
          Nat.lt_succ_of_le behind⟩
        simp only [List.length_append, List.length_singleton]
        omega
  | and =>
    have stopped := cut.readsOn rfl
    simp only [opAnd, Program.gives_bind]
    refine Program.gives_of_forall _ fun andPid => Program.gives_of_forall _ fun lastStatus => ?_
    split
    · exact left _
    · rintro next ⟨⟩
      exact ⟨cut.next inBounds rfl (Nat.le_refl _) (Nat.lt_succ_self _) stopped (Nat.zero_le _),
        Nat.lt_succ_of_le behind⟩
  | out | input =>
    have stopped := cut.readsOn rfl
    simp only [opOut, opIn, opRedirect]
    split
    · exact fun reply => reply.elim
    · exact fun _ => left _
    · rename_i target found
      simp only [Program.gives_bind]
      refine Program.gives_of_forall _ fun _ fd => ?_
      cases fd with
      | none => exact fun _ => left _
      | some fd =>
        rintro next ⟨⟩
        have inside : stop + 1 ≠ count := by
          rintro rfl
          rw [cut.terminated] at found
          cases found
        have cmd := inBounds.behind
        refine ⟨cut.next inBounds rfl ?_ ?_ ?_ ?_, ?_⟩
        all_goals
          simp only
          omega

theorem Progress.inBounds {State : Type} {service : Service Call Call.Reply State}
    {tokens : List Text} {entry mark state : State} (full : ∀ token ∈ tokens, token ≠ [])
    (progress : Progress service tokens entry mark interp state) :
    interp.InBounds tokens.length := by
  induction progress with
  | start =>
    refine ⟨by simp [Interp.initial], fun slot _ last => ⟨tokens[slot], ?_, ?_⟩, Nat.le_refl _,
      Nat.zero_le _, Nat.le_refl _⟩
    · simp [Interp.initial, List.getElem?_append_left, last]
    · exact full _ (List.getElem_mem last)
  | round _ ran ih => exact (ran.gives ih.round _ rfl).1

/-- No line that `fgets` delivers has more tokens than `pids` has places. -/
theorem length_commandParse_lt {line : List Char} (short : line.length < MAXLINE) :
    (commandParse line).length < MAXPIDS := by
  have tokens := length_tokens_le delim (cString line)
  have string := length_cString_le line
  have fewer : MAXLINE ≤ MAXPIDS := by decide
  rw [commandParse_eq]
  omega

theorem chainLoop_add {rounds : Nat} (faultless : (chainLoop rounds interp).uses (· ≠ .fault))
    (more : Nat) : chainLoop (rounds + more) interp = chainLoop rounds interp := by
  induction rounds generalizing interp with
  | zero => exact (faultless.1 rfl).elim
  | succ rounds ih =>
    rw [Nat.succ_add, chainLoop, chainLoop]
    refine Program.bind_congr_of_gives (Program.gives_of_uses_bind faultless) fun flow kept => ?_
    cases flow with
    | again next => exact ih kept
    | leave last => rfl

/-- On every line and whatever the calls reply, `is_executable` leaves its loop after at most as
many rounds as there are slots, without an access out of bounds, and at every head of the loop
all is within its bounds. -/
theorem within_bounds (line : List Char) (short : line.length < MAXLINE) :
    (isExecutable (commandParse line)).uses (· ≠ .fault) ∧
      (∀ rounds > (commandParse line).length,
        chainLoop rounds (.initial (commandParse line)) =
          chainLoop ((commandParse line).length + 1) (.initial (commandParse line))) ∧
      ∀ {State : Type} (service : Service Call Call.Reply State) (entry mark state : State)
        (interp : Interp), Progress service (commandParse line) entry mark interp state →
          interp.Within (commandParse line).length := by
  have faultless := isExecutable_faultless (full_commandParse line)
  refine ⟨faultless, fun rounds enough => ?_, ?_⟩
  · obtain ⟨more, rfl⟩ := Nat.exists_eq_add_of_le (Nat.succ_le_of_lt enough)
    exact chainLoop_add (Program.uses_of_uses_bind faultless) more
  · intro State service entry mark state interp progress
    exact (progress.inBounds (full_commandParse line)).toWithin (length_commandParse_lt short)

/-- The first head of the loop on a line with a pipe. -/
theorem within_bounds_pipe :
    (isExecutable (commandParse "ls | wc\n".toList)).uses (· ≠ .fault) ∧
      (Interp.initial (commandParse "ls | wc\n".toList)).Within
        (commandParse "ls | wc\n".toList).length := by
  have bounds := within_bounds "ls | wc\n".toList (by decide)
  exact ⟨bounds.1, bounds.2.2 ⟨fun _ _ _ _ => True, fun _ _ => True⟩ () () () _ .start⟩

end Lsnp.Lab
