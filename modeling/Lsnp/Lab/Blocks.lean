import Lsnp.Lab.Calls
import Lsnp.Lab.Reading
import Lsnp.Lab.Rounds
import Lsnp.Unix.Obliging

/-! The blocks that `command_parse` allocates for a line, and what `command_freelist` frees
of them once the line has been run. -/

namespace Lsnp.Lab

open Lsnp.Interaction Lsnp.Unix Lsnp.Libc

/-- The array, and the copy of the token to which a slot pointed at first. -/
inductive Block where
  | array
  | token (slot : Nat)
  deriving DecidableEq, Repr

/-- The blocks of `command_parse`, which allocates none for a blank line. -/
def allocated (tokens : List Text) : List Block :=
  if tokens = [] then [] else (List.range tokens.length).map .token ++ [.array]

/-- The loop of `command_freelist` from a slot on, and the array; `none` when the array ends
before a `NULL`. -/
def freeFrom : Nat → List (Option Text) → Option (List Block)
  | _, [] => none
  | _, none :: _ => some [.array]
  | slot, some _ :: rest => (freeFrom (slot + 1) rest).map (.token slot :: ·)

/-- `command_freelist(arglist)` -/
def commandFreelist (args : List (Option Text)) : Option (List Block) :=
  freeFrom 0 args

/-- `is_executable`, with the array as it leaves it. -/
def isExecutableArgs (tokens : List Text) : Prog (List (Option Text)) := do
  let interp ← chainLoop (tokens.length + 1) (.initial tokens)
  errorExit interp.background interp.pids interp.fds
  pure interp.args

/-- One iteration of the loop of `main` on a line that does not end the shell, with the blocks
that it frees. -/
def iteration (line : List Char) : Prog (Option (List Block)) := do
  Sys.fgets
  match commandParse line with
  | [] => do
    Sys.printf prompt
    pure (some [])
  | cmd :: words => do
    let args ←
      if ← checkBuiltin (cmd :: words) then pure ((cmd :: words).map some ++ [none])
      else isExecutableArgs (cmd :: words)
    Sys.printf prompt
    pure (commandFreelist args)

/-- Each block that was allocated has been freed once, and no other. -/
def FreedOnce (tokens : List Text) (freed : Option (List Block)) : Prop :=
  ∃ blocks, freed = some blocks ∧
    ∀ block, blocks.count block = if block ∈ allocated tokens then 1 else 0

theorem isExecutable_eq_args (tokens : List Text) :
    isExecutable tokens = (fun _ => ()) <$> isExecutableArgs tokens := by
  simp only [isExecutable, isExecutableArgs, map_bind, map_pure]
  congr 1
  funext interp
  exact (bind_pure _).symm

theorem runLine_eq_iteration (line : List Char) :
    runLine (commandParse line) = (fun _ => ()) <$> iteration line := by
  unfold runLine iteration dispatch
  cases commandParse line with
  | nil => rfl
  | cons cmd words =>
    simp only [List.isEmpty_cons, Bool.false_eq_true, if_false, map_bind, bind_assoc]
    congr 1
    funext _
    congr 1
    funext builtin
    cases builtin with
    | true => rfl
    | false =>
      simp only [Bool.false_eq_true, if_false, isExecutable_eq_args, map_eq_pure_bind, bind_assoc,
        pure_bind]
      rfl

/-- The first `NULL` is in this slot. -/
def Cut (count : Nat) (args : List (Option Text)) : Prop :=
  ∃ (front : List Text) (back : List (Option Text)),
    args = front.map some ++ none :: back ∧ front.length = count

private theorem freeFrom_words (slot : Nat) (front : List Text) (back : List (Option Text)) :
    freeFrom slot (front.map some ++ none :: back) =
      some ((List.range' slot front.length).map .token ++ [.array]) := by
  induction front generalizing slot with
  | nil => rfl
  | cons word front ih =>
    rw [List.map_cons, List.cons_append, freeFrom, ih]
    rfl

/-- What is freed are the copies in front of the first `NULL`, and the array. -/
theorem commandFreelist_cut {count : Nat} {args : List (Option Text)} (cut : Cut count args) :
    commandFreelist args = some ((List.range count).map .token ++ [.array]) := by
  obtain ⟨front, back, rfl, rfl⟩ := cut
  rw [commandFreelist, freeFrom_words, List.range_eq_range']

theorem Cut.set {count slot : Nat} {args : List (Option Text)} (cut : Cut count args)
    (behind : count < slot) (value : Option Text) : Cut count (args.set slot value) := by
  obtain ⟨front, back, rfl, rfl⟩ := cut
  refine ⟨front, back.set (slot - front.length - 1) value, ?_, rfl⟩
  rw [List.set_append_right _ _ (by simpa using Nat.le_of_lt behind), List.length_map]
  obtain ⟨more, same⟩ := Nat.exists_eq_add_of_lt behind
  rw [same, show front.length + more + 1 - front.length = more + 1 by omega, List.set_cons_succ,
    Nat.add_sub_cancel]

private theorem le_of_scan {args : List (Option Text)} {slot stop : Nat} {op : Op}
    (scanned : scan args slot = some (op, stop)) : slot ≤ stop := by
  induction args generalizing slot with
  | nil => cases scanned
  | cons arg args ih =>
    cases arg with
    | none =>
      obtain ⟨-, rfl⟩ := Prod.mk.inj (Option.some.inj scanned)
      exact Nat.le_refl slot
    | some token =>
      rw [scan] at scanned
      split at scanned
      · exact Nat.le_of_succ_le (ih scanned)
      · obtain ⟨-, rfl⟩ := Prod.mk.inj (Option.some.inj scanned)
        exact Nat.le_refl slot

/-- `get_op_type` writes to one slot, not in front of the one at which it starts. -/
theorem getOpType_writes {args after : List (Option Text)} {start stop : Nat} {op : Op}
    (read : getOpType args start = some (op, after, stop)) :
    start ≤ stop ∧ (after = args ∨ ∃ slot value, start ≤ slot ∧ after = args.set slot value) := by
  unfold getOpType at read
  split at read
  · cases read
  · rename_i stop' scanned
    have behind := le_of_scan scanned
    split at read
    · cases read
      exact ⟨behind, .inl rfl⟩
    · rename_i moved
      split at read
      · split at read
        · cases read
        · split at read
          · cases read
            exact ⟨behind, .inr ⟨_, _, by omega, rfl⟩⟩
          · cases read
            exact ⟨behind, .inl rfl⟩
      · cases read
  · rename_i op' stop' _ scanned
    cases read
    have behind := le_of_scan scanned
    exact ⟨behind, .inr ⟨_, _, behind, rfl⟩⟩

variable {State : Type} {service : Service Call Call.Reply State} {state : State}

/-- A round leaves the array as `get_op_type` does, and the loop goes on behind the operator. -/
private def Left (interp : Interp) (flow : Flow) : Prop :=
  ∃ op args stop, getOpType interp.args interp.currPtr = some (op, args, stop) ∧
    flow.interp.args = args ∧ (flow.goesOn = true → stop < flow.interp.currPtr)

private theorem opRedirect_left (direction : Direction) {interp : Interp} {op : Op}
    {args : List (Option Text)} {stop : Nat}
    (read : getOpType interp.args interp.currPtr = some (op, args, stop)) :
    service.Returns (fun flow _ => Left interp flow)
      (opRedirect direction { interp with args := args } stop) state := by
  unfold opRedirect
  split
  · exact ⟨trivial, fun reply => reply.elim⟩
  · exact (Service.returns_true _ _).bind fun _ _ _ => ⟨op, args, stop, read, rfl, nofun⟩
  · apply (Service.returns_true _ _).bind
    rintro _ _ -
    apply (Service.returns_true _ _).bind
    rintro (_ | fd) _ -
    · exact (Service.returns_true _ _).bind fun _ _ _ => ⟨op, args, stop, read, rfl, nofun⟩
    · exact ⟨op, args, stop, read, rfl, fun _ => Nat.lt_add_of_pos_right Nat.two_pos⟩

theorem round_left (interp : Interp) :
    service.Returns (fun flow _ => Left interp flow) (round interp) state := by
  unfold round
  cases read : getOpType interp.args interp.currPtr with
  | none => exact ⟨trivial, fun reply => reply.elim⟩
  | some found =>
    obtain ⟨op, args, stop⟩ := found
    cases op with
    | none =>
      exact (Service.returns_true _ _).bind fun _ _ _ => ⟨_, args, stop, read, rfl, nofun⟩
    | out => exact opRedirect_left .output read
    | input => exact opRedirect_left .input read
    | background =>
      apply (Service.returns_true _ _).bind
      rintro _ _ -
      exact (Service.returns_true _ _).bind fun _ _ _ => ⟨_, args, stop, read, rfl, nofun⟩
    | pipe =>
      apply (Service.returns_true _ _).bind
      rintro (_ | ends) _ -
      · exact ⟨_, args, stop, read, rfl, nofun⟩
      · apply (Service.returns_true _ _).bind
        rintro (_ | pid) _ -
        · exact (Service.returns_true _ _).bind fun _ _ _ => ⟨_, args, stop, read, rfl, nofun⟩
        · exact ⟨_, args, stop, read, rfl, fun _ => Nat.lt_succ_self stop⟩
    | and =>
      apply (Service.returns_true _ _).bind
      rintro andPid _ -
      apply (Service.returns_true _ _).bind
      rintro lastStatus _ -
      split
      · exact ⟨_, args, stop, read, rfl, nofun⟩
      · exact ⟨_, args, stop, read, rfl, fun _ => Nat.lt_succ_self stop⟩

private theorem chainLoop_cut {count : Nat} (rounds : Nat) {interp : Interp}
    (cut : Cut count interp.args) (behind : count < interp.currPtr) :
    service.Returns (fun interp _ => Cut count interp.args) (chainLoop rounds interp) state := by
  induction rounds generalizing interp state with
  | zero => exact ⟨trivial, fun reply => reply.elim⟩
  | succ rounds ih =>
    apply (round_left interp).bind
    rintro flow after ⟨op, args, stop, read, same, onward⟩
    obtain ⟨later, written⟩ := getOpType_writes read
    have cut' : Cut count flow.interp.args := by
      rw [same]
      rcases written with rfl | ⟨slot, value, within, rfl⟩
      · exact cut
      · exact cut.set (Nat.lt_of_lt_of_le behind within) value
    cases flow with
    | again next => exact ih cut' (Nat.lt_of_lt_of_le behind (later.trans (onward rfl).le))
    | leave last => exact cut'

/-- The slot of the first operator, or the end of the array. -/
def firstOperator (tokens : List Text) : Nat :=
  (tokens.takeWhile (operator · = .none)).length

private theorem scan_firstOperator (tokens : List Text) (slot : Nat) :
    ∃ op, scan (tokens.map some ++ [none]) slot = some (op, slot + firstOperator tokens) ∧
      (op = .none ↔ firstOperator tokens = tokens.length) := by
  induction tokens generalizing slot with
  | nil => exact ⟨.none, rfl, by simp [firstOperator]⟩
  | cons token tokens ih =>
    by_cases plain : operator token = .none
    · obtain ⟨op, scanned, ends⟩ := ih (slot + 1)
      refine ⟨op, ?_, ?_⟩
      · simp only [List.map_cons, List.cons_append, scan, plain, if_true, scanned, firstOperator,
          List.takeWhile_cons_of_pos, decide_true, List.length_cons]
        congr 2
        omega
      · rw [ends]
        simp [firstOperator, plain]
    · refine ⟨operator token, ?_, ?_⟩
      · simp [scan, firstOperator, plain]
      · simp [firstOperator, plain]

private theorem cut_all (tokens : List Text) : Cut tokens.length (tokens.map some ++ [none]) :=
  ⟨tokens, [], rfl, rfl⟩

private theorem firstOperator_le (tokens : List Text) : firstOperator tokens ≤ tokens.length :=
  (List.takeWhile_sublist _).length_le

private theorem cut_set_token (tokens : List Text) (slot : Nat) (inside : slot < tokens.length)
    (value : Text) : Cut tokens.length ((tokens.map some ++ [none]).set slot (some value)) := by
  refine ⟨tokens.set slot value, [], ?_, List.length_set⟩
  rw [List.set_append_left _ _ (by simpa using inside), List.map_set]

private theorem cut_set_null (tokens : List Text) (slot : Nat) (inside : slot < tokens.length) :
    Cut slot ((tokens.map some ++ [none]).set slot none) := by
  refine ⟨tokens.take slot, (tokens.map some ++ [none]).drop (slot + 1), ?_, ?_⟩
  · rw [List.set_eq_take_append_cons_drop, if_pos, List.take_append_of_le_length, List.map_take]
    · simpa using Nat.le_of_lt inside
    · simp only [List.length_append, List.length_map, List.length_singleton]
      omega
  · exact List.length_take_of_le (Nat.le_of_lt inside)

private theorem getOpType_first {tokens : List Text} {op : Op} {args : List (Option Text)}
    {stop : Nat} (read : getOpType (tokens.map some ++ [none]) 0 = some (op, args, stop)) :
    Cut (firstOperator tokens) args ∧ stop = firstOperator tokens := by
  obtain ⟨found, scanned, ends⟩ := scan_firstOperator tokens 0
  have short := firstOperator_le tokens
  rw [Nat.zero_add] at scanned
  unfold getOpType at read
  rw [List.drop_zero, scanned] at read
  cases found with
  | none =>
    have all := ends.mp rfl
    dsimp only at read
    split at read
    · cases read
      rw [all]
      exact ⟨cut_all tokens, rfl⟩
    · rename_i some
      split at read
      · split at read
        · cases read
        · split at read
          · cases read
            rw [all]
            exact ⟨cut_set_token tokens _ (by omega) _, rfl⟩
          · cases read
            rw [all]
            exact ⟨cut_all tokens, rfl⟩
      · cases read
  | pipe | out | input | and | background =>
    have inside : firstOperator tokens < tokens.length := by
      apply Nat.lt_of_le_of_ne short
      intro all
      cases ends.mpr all
    cases read
    exact ⟨cut_set_null tokens _ inside, rfl⟩

theorem isExecutableArgs_cut (tokens : List Text) :
    service.Returns (fun args _ => Cut (firstOperator tokens) args) (isExecutableArgs tokens)
      state := by
  have looped : service.Returns (fun interp _ => Cut (firstOperator tokens) interp.args)
      (chainLoop (tokens.length + 1) (.initial tokens)) state := by
    apply (round_left (.initial tokens)).bind
    rintro flow after ⟨op, args, stop, read, same, onward⟩
    obtain ⟨cut, rfl⟩ := getOpType_first read
    rw [← same] at cut
    cases flow with
    | again next => exact chainLoop_cut _ cut (onward rfl)
    | leave last => exact cut
  apply looped.bind
  rintro interp after cut
  apply (Service.returns_true _ _).bind
  exact fun _ _ _ => cut

/-- How many copies are freed: all of them for a builtin, else those in front of the first
operator. -/
private def freedTokens (tokens : List Text) : Nat :=
  if isBuiltin tokens then tokens.length else firstOperator tokens

private theorem iteration_frees {line : List Char} (some' : commandParse line ≠ []) :
    service.Returns (fun freed _ => freed =
      some ((List.range (freedTokens (commandParse line))).map .token ++ [.array]))
      (iteration line) state := by
  unfold iteration freedTokens
  obtain ⟨cmd, words, parsed⟩ := List.exists_cons_of_ne_nil some'
  simp only [parsed]
  apply (Service.returns_true _ _).bind
  rintro _ read -
  cases builtin : isBuiltin (cmd :: words) with
  | true =>
    obtain ⟨btFunc, found⟩ := Option.isSome_iff_exists.mp builtin
    simp only [checkBuiltin, found, bind_assoc, pure_bind, if_true]
    apply (Service.returns_true _ _).bind
    rintro _ done -
    apply (Service.returns_true _ _).bind
    exact fun _ _ _ => commandFreelist_cut (cut_all (cmd :: words))
  | false =>
    have missing : checkBuiltin (cmd :: words) = pure false := by
      have none : findBuiltin cmd = none := by simpa [isBuiltin] using builtin
      simp only [checkBuiltin, none]
    simp only [missing, pure_bind, Bool.false_eq_true, if_false]
    apply (isExecutableArgs_cut (cmd :: words)).bind
    rintro args done cut
    apply (Service.returns_true _ _).bind
    exact fun _ _ _ => commandFreelist_cut cut

private theorem freedOnce_nil {line : List Char} (blank : commandParse line = []) :
    service.Returns (fun freed _ => FreedOnce (commandParse line) freed) (iteration line) state := by
  unfold iteration
  simp only [blank]
  apply (Service.returns_true _ _).bind
  rintro _ _ -
  apply (Service.returns_true _ _).bind
  exact fun _ _ _ => ⟨[], rfl, by simp [allocated]⟩

private theorem nodup_freed (count : Nat) :
    ((List.range count).map Block.token ++ [Block.array]).Nodup := by
  apply List.Nodup.append
  · exact List.nodup_range.map fun _ _ same => Block.token.inj same
  · exact List.nodup_singleton _
  · intro block token array
    rw [List.mem_singleton] at array
    simp [array] at token

private theorem freedOnce_range {tokens : List Text} (filled : tokens ≠ []) {count : Nat}
    (within : count ≤ tokens.length) :
    FreedOnce tokens (some ((List.range count).map .token ++ [.array])) ↔
      count = tokens.length := by
  constructor
  · rintro ⟨blocks, same, once⟩
    obtain rfl := Option.some.inj same
    by_contra fewer
    have next := once (.token count)
    rw [if_pos (by simp [allocated, filled]; omega), List.count_eq_zero_of_not_mem (by simp)]
      at next
    cases next
  · rintro rfl
    refine ⟨_, rfl, fun block => ?_⟩
    rw [(nodup_freed _).count, allocated, if_neg filled]

private theorem firstOperator_eq_length (tokens : List Text) :
    firstOperator tokens = tokens.length ↔ ∀ token ∈ tokens, operator token = .none := by
  constructor
  · intro all token member
    have whole := (List.takeWhile_prefix _).eq_of_length all
    rw [← whole] at member
    simpa using List.mem_takeWhile_imp member
  · intro plain
    rw [firstOperator, List.takeWhile_eq_self_iff.mpr fun token member => by
      simpa using plain token member]

private theorem freedOnce_iff_all {line : List Char} (filled : commandParse line ≠ [])
    (entry : Shell) :
    (∀ freed after, (kernel true).Reach (iteration line, entry) (.done freed, after) →
        FreedOnce (commandParse line) freed) ↔
      freedTokens (commandParse line) = (commandParse line).length := by
  have frees : ∀ {state : Shell}, (kernel true).Returns (fun freed _ => freed =
      some ((List.range (freedTokens (commandParse line))).map .token ++ [.array]))
      (iteration line) state := iteration_frees filled
  have within : freedTokens (commandParse line) ≤ (commandParse line).length := by
    unfold freedTokens
    split
    · exact Nat.le_refl _
    · exact firstOperator_le _
  rw [← freedOnce_range filled within]
  constructor
  · intro once
    have full : ∀ token ∈ commandParse line, token ≠ [] := by
      rw [commandParse_eq]
      exact fun token => ne_nil_of_mem_tokens
    have uses : (iteration line).uses (· ≠ .fault) := by
      have faultless := runLine_faultless full
      rwa [runLine_eq_iteration, Program.uses_map] at faultless
    obtain ⟨freed, after, run, rfl⟩ := Service.exists_eval
      (frees.permitted obliging.permits) uses obliging.total
    exact once _ after (Service.reach_of_eval obliging.permits run)
  · intro once freed after reach
    rw [frees.reach (kernel_quiet true) reach]
    exact once

/-- Whatever the calls reply, the blocks of a line are freed once exactly if it starts with the
name of a builtin or has no operator. -/
theorem freedOnce_iff (line : List Char) (entry : Shell) :
    (∀ freed after, (kernel true).Reach (iteration line, entry) (.done freed, after) →
        FreedOnce (commandParse line) freed) ↔
      isBuiltin (commandParse line) = true ∨
        ∀ token ∈ commandParse line, operator token = .none := by
  by_cases blank : commandParse line = []
  · apply iff_of_true
    · exact fun freed after reach => (freedOnce_nil blank).reach (kernel_quiet true) reach
    · simp [blank]
  · rw [freedOnce_iff_all blank, freedTokens, ← firstOperator_eq_length]
    split
    · rename_i builtin
      simp [builtin]
    · rename_i external
      simp [external]

/-- `a | b` leaves two copies behind. -/
theorem not_freedOnce_pipe : ¬ ∀ freed after,
    (kernel true).Reach (iteration ['a', ' ', '|', ' ', 'b'], .initial) (.done freed, after) →
      FreedOnce (commandParse ['a', ' ', '|', ' ', 'b']) freed := by
  rw [freedOnce_iff_all (by decide)]
  decide

end Lsnp.Lab
