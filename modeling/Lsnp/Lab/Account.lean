import Lsnp.Lab.Smooth

namespace Lsnp.Lab

open Lsnp.Interaction Lsnp.Unix

namespace Noted

/-- The slots of the tokens that are used up by what has been done. -/
def Mark.slots : Mark → List Nat
  | .command arglist argv => List.range' arglist argv.length
  | .operator slot | .target slot => [slot]
  | .complaint _ | .failure _ => []

/-- A command that is forked when it is run: it has words, and the first is no builtin. -/
def forksOne (argv : List Text) : Bool := !argv.isEmpty && !isBuiltin argv

/-- No token is passed over: no word stands behind a redirection target of its command,
nothing stands behind a `&`, and in front of each `|` is a command that is forked.
`argv` are the words of the current command, `redirected` says that a target is behind them. -/
def keeps (redirected : Bool) (argv : List Text) : List Text → Bool
  | [] => true
  | token :: rest =>
    match operator token, rest with
    | .none, rest => !redirected && keeps false (argv ++ [token]) rest
    | .pipe, rest => forksOne argv && keeps false [] rest
    | .and, rest => keeps false [] rest
    | .background, rest => rest.isEmpty
    | .out, [] | .input, [] => true
    | .out, _ :: rest | .input, _ :: rest => keeps true argv rest

def commandMarks (arglist : Nat) (argv : List Text) : List Mark :=
  if argv.isEmpty then [] else [.command arglist argv]

/-- The marks of a run in which nothing fails; `none` if it comes to a redirection without
a target. -/
def account (draft : Draft) (slot : Nat) : List Text → Option (List Mark)
  | [] => some (commandMarks (draft.finish slot).start (draft.finish slot).argv)
  | token :: rest =>
    match operator token, rest with
    | .none, rest => account (draft.push token) (slot + 1) rest
    | .pipe, rest =>
      if forksOne draft.argv then
        (account (.fresh (slot + 1)) (slot + 1) rest).map fun marks =>
          commandMarks draft.start draft.argv ++ .operator slot :: marks
      else some (commandMarks draft.start draft.argv)
    | .and, rest => (account (.fresh (slot + 1)) (slot + 1) rest).map fun marks =>
        commandMarks draft.start draft.argv ++ .operator slot :: marks
    | .background, _ => some (commandMarks draft.start draft.argv ++ [.operator slot])
    | .out, [] | .input, [] => none
    | .out, _ :: rest | .input, _ :: rest =>
      (account draft.redirect (slot + 2) rest).map fun marks =>
        .operator slot :: .target (slot + 1) :: marks

/-- The words of a command that is not redirected yet stand in front of `slot`. -/
structure Reading (draft : Draft) (slot : Nat) : Prop where
  placed : draft.redirected = false → draft.start + draft.argv.length = slot
  filled : draft.redirected = false → draft.last ≠ none → draft.argv ≠ []

variable {draft : Draft} {slot : Nat} {tokens : List Text} {marks : List Mark}

theorem reading_fresh (slot : Nat) : Reading (.fresh slot) slot :=
  ⟨fun _ => rfl, fun _ last => (last rfl).elim⟩

theorem Reading.push (reading : Reading draft slot) (word : Text) :
    Reading (draft.push word) (slot + 1) := by
  constructor
  · intro plain
    have plain : draft.redirected = false := plain
    simp [Draft.push, plain, ← reading.placed plain, Nat.add_assoc]
  · intro plain _
    have plain : draft.redirected = false := plain
    simp [Draft.push, plain]

theorem reading_redirect (draft : Draft) (slot : Nat) : Reading draft.redirect slot :=
  ⟨nofun, nofun⟩

theorem Reading.finish (reading : Reading draft slot) :
    (draft.finish slot).start = draft.start ∧
      (draft.finish slot).argv.length = draft.argv.length := by
  have filled := reading.filled
  unfold Draft.finish
  split
  · exact ⟨rfl, rfl⟩
  · next word found =>
    split
    · exact ⟨rfl, rfl⟩
    · split
      · refine ⟨rfl, ?_⟩
        cases redirected : draft.redirected with
        | true => simp [Draft.close]
        | false =>
          have some : draft.argv ≠ [] := filled redirected (by simp [found])
          have positive : 0 < draft.argv.length := List.length_pos_of_ne_nil some
          simp [Draft.close]
          omega
      · exact ⟨rfl, rfl⟩

@[simp] theorem slots_commandMarks (arglist : Nat) (argv : List Text) :
    (commandMarks arglist argv).flatMap Mark.slots = List.range' arglist argv.length := by
  cases argv <;> simp [commandMarks, Mark.slots]

private theorem range_operator (slot count : Nat) (front : List Nat) {later : List Nat}
    (rest : later.Perm (List.range' (slot + 1) count)) :
    (front ++ slot :: later).Perm (front ++ List.range' slot (count + 1)) := by
  rw [List.range'_succ]
  exact (rest.cons slot).append_left front

/-- Where nothing is passed over, the marks use up the words read and all tokens to come. -/
theorem account_perm (reading : Reading draft slot) (found : account draft slot tokens = some marks)
    (kept : keeps draft.redirected draft.argv tokens = true) :
    (marks.flatMap Mark.slots).Perm
      (List.range' draft.start draft.argv.length ++ List.range' slot tokens.length) := by
  fun_induction account draft slot tokens generalizing marks with
  | case1 draft slot =>
    obtain ⟨start, length⟩ := reading.finish
    obtain rfl := Option.some.inj found
    simp [start, length]
  | case2 draft slot token rest plain ih =>
    simp only [keeps, plain, Bool.and_eq_true, Bool.not_eq_true'] at kept
    obtain ⟨here, kept⟩ := kept
    have later := ih (reading.push token) found (by simpa [Draft.push, here] using kept)
    have range : List.range' draft.start (draft.argv.length + 1) =
        List.range' draft.start draft.argv.length ++ [slot] := by
      rw [List.range'_concat, Nat.one_mul, reading.placed here]
    simpa [Draft.push, here, range, List.range'_succ] using later
  | case3 draft slot token rest op forks ih =>
    simp only [keeps, op, forks, Bool.true_and] at kept
    obtain ⟨later, behind, rfl⟩ := Option.map_eq_some_iff.mp found
    have others := ih (reading_fresh _) behind kept
    simpa [Mark.slots] using range_operator slot rest.length _ others
  | case4 draft slot token rest op idle => simp [keeps, op, idle] at kept
  | case5 draft slot token rest op ih =>
    simp only [keeps, op] at kept
    obtain ⟨later, behind, rfl⟩ := Option.map_eq_some_iff.mp found
    have others := ih (reading_fresh _) behind kept
    simpa [Mark.slots] using range_operator slot rest.length _ others
  | case6 draft slot token rest op =>
    simp only [keeps, op, List.isEmpty_iff] at kept
    obtain rfl := Option.some.inj found
    simp [kept, Mark.slots]
  | case7 | case8 => cases found
  | case9 draft slot token target rest op ih | case10 draft slot token target rest op ih =>
    simp only [keeps, op] at kept
    obtain ⟨later, behind, rfl⟩ := Option.map_eq_some_iff.mp found
    have others := ih (reading_redirect _ _) behind kept
    have here : (slot :: (slot + 1) :: later.flatMap Mark.slots).Perm
        (List.range' draft.start draft.argv.length ++ slot :: (slot + 1) ::
          List.range' (slot + 2) rest.length) :=
      ((others.cons _).trans List.perm_middle.symm).cons _ |>.trans List.perm_middle.symm
    simpa [Mark.slots, List.range'_succ] using here

/-- The marks use up no more slots than there are, and fewer where a token is passed over. -/
theorem account_length (reading : Reading draft slot)
    (found : account draft slot tokens = some marks) :
    (marks.flatMap Mark.slots).length ≤ draft.argv.length + tokens.length ∧
      (keeps draft.redirected draft.argv tokens = false →
        (marks.flatMap Mark.slots).length < draft.argv.length + tokens.length) := by
  fun_induction account draft slot tokens generalizing marks with
  | case1 draft slot =>
    obtain ⟨start, length⟩ := reading.finish
    obtain rfl := Option.some.inj found
    simp [length, keeps]
  | case2 draft slot token rest plain ih =>
    obtain ⟨most, fewer⟩ := ih (reading.push token) found
    cases here : draft.redirected with
    | true =>
      simp only [Draft.push, here, if_true] at most
      simp only [List.length_cons]
      omega
    | false =>
      simp only [Draft.push, here, Bool.false_eq_true, if_false, List.length_append,
        List.length_singleton] at most fewer
      simp only [keeps, plain, Bool.not_false, Bool.true_and, List.length_cons]
      constructor
      · omega
      · intro passed
        have less := fewer passed
        omega
  | case3 draft slot token rest op forks ih =>
    obtain ⟨later, behind, rfl⟩ := Option.map_eq_some_iff.mp found
    obtain ⟨most, fewer⟩ := ih (reading_fresh _) behind
    simp only [Draft.fresh, List.length_nil, Nat.zero_add] at most fewer
    simp only [keeps, op, forks, Bool.true_and, List.flatMap_append, slots_commandMarks,
      List.flatMap_cons, Mark.slots, List.length_append, List.length_range', List.length_cons,
      List.length_nil]
    constructor
    · omega
    · intro passed
      have less := fewer passed
      omega
  | case4 draft slot token rest op idle =>
    obtain rfl := Option.some.inj found
    simp
  | case5 draft slot token rest op ih =>
    obtain ⟨later, behind, rfl⟩ := Option.map_eq_some_iff.mp found
    obtain ⟨most, fewer⟩ := ih (reading_fresh _) behind
    simp only [Draft.fresh, List.length_nil, Nat.zero_add] at most fewer
    simp only [keeps, op, List.flatMap_append, slots_commandMarks, List.flatMap_cons, Mark.slots,
      List.length_append, List.length_range', List.length_cons, List.length_nil]
    constructor
    · omega
    · intro passed
      have less := fewer passed
      omega
  | case6 draft slot token rest op =>
    obtain rfl := Option.some.inj found
    cases rest <;> simp [keeps, op, Mark.slots]
  | case7 | case8 => cases found
  | case9 draft slot token target rest op ih | case10 draft slot token target rest op ih =>
    obtain ⟨later, behind, rfl⟩ := Option.map_eq_some_iff.mp found
    obtain ⟨most, fewer⟩ := ih (reading_redirect _ _) behind
    simp only [Draft.redirect] at most fewer
    simp only [keeps, op, List.flatMap_cons, Mark.slots, List.length_append, List.length_cons,
      List.length_nil]
    constructor
    · omega
    · intro passed
      have less := fewer passed
      omega

private theorem misses_pipe (draft : Draft) (slot : Nat) (rest : List Stage) :
    misses (draft.close .pipe slot :: rest) =
      ((draft.close .pipe slot).passes && misses rest) := rfl

theorem account_eq_none : account draft slot tokens = none ↔
    misses (parse draft slot tokens) = true := by
  have added : ∀ redirection (stages : List Stage),
      misses (addRedirection redirection stages) = misses stages := by
    intro redirection stages
    cases stages <;> rfl
  fun_induction account draft slot tokens with
  | case1 draft slot =>
    have ending : ∀ direction, (draft.finish slot).ending ≠ .missing direction := by
      intro direction
      unfold Draft.finish
      split
      · nofun
      · split
        · nofun
        · split <;> nofun
    have targeted : misses [draft.finish slot] = false := by
      unfold misses
      split
      · next direction found => exact (ending direction found).elim
      · simp [misses]
    simp [parse, targeted]
  | case2 draft slot token rest plain ih => simpa only [parse, plain] using ih
  | case3 draft slot token rest op forks ih =>
    have passes : (draft.close .pipe slot).passes = true := forks
    simpa [parse, op, misses_pipe, passes] using ih
  | case4 draft slot token rest op idle =>
    have stays : (draft.close .pipe slot).passes = false := Bool.eq_false_iff.mpr idle
    simp [parse, op, misses_pipe, stays]
  | case5 draft slot token rest op ih =>
    simpa [parse, op, misses, Draft.close, Stage.passes] using ih
  | case6 draft slot token rest op => simp [parse, op, misses, Draft.close, Stage.passes]
  | case7 draft slot token op | case8 draft slot token op =>
    simp [parse, op, misses, Draft.close]
  | case9 draft slot token target rest op ih | case10 draft slot token target rest op ih =>
    simpa [parse, op, added] using ih

theorem account_unfailed (found : account draft slot tokens = some marks) (failed : Nat) :
    .failure failed ∉ marks := by
  have command : ∀ arglist argv, Mark.failure failed ∉ commandMarks arglist argv := by
    intro arglist argv
    cases argv <;> simp [commandMarks]
  fun_induction account draft slot tokens generalizing marks with
  | case1 =>
    obtain rfl := Option.some.inj found
    exact command _ _
  | case2 draft slot token rest plain ih => exact ih found
  | case3 draft slot token rest op forks ih | case5 draft slot token rest op ih =>
    obtain ⟨later, behind, rfl⟩ := Option.map_eq_some_iff.mp found
    simp [command, ih behind]
  | case4 =>
    obtain rfl := Option.some.inj found
    exact command _ _
  | case6 =>
    obtain rfl := Option.some.inj found
    simp [command]
  | case7 | case8 => cases found
  | case9 draft slot token target rest op ih | case10 draft slot token target rest op ih =>
    obtain ⟨later, behind, rfl⟩ := Option.map_eq_some_iff.mp found
    simp [ih behind]

end Noted

end Lsnp.Lab
