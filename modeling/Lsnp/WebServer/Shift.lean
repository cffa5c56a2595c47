import Mathlib.Algebra.Group.Nat.Even
import Lsnp.Libc.Stdio

namespace Lsnp.WebServer

open Lsnp.Libc

def shift : Nat → Nat → Nat → List Char → List Char
  | 0, _, _, filename => filename
  | rounds + 1, i, j, filename =>
    let j := if filename.getD 0 nul = '/' then j + 1 else j
    let filename := filename.set i (filename.getD j nul)
    if filename.getD j nul = nul then filename else shift rounds (i + 1) (j + 1) filename

def everyOther : List Char → List Char
  | [] => []
  | [char] => [char]
  | char :: _ :: rest => char :: everyOther rest

theorem everyOther_append {front : List Char} (even : Even front.length) (back : List Char) :
    everyOther (front ++ back) = everyOther front ++ everyOther back := by
  induction front using everyOther.induct with
  | case1 => rfl
  | case2 char => simp at even
  | case3 char skipped rest ih =>
    simp only [List.length_cons, Nat.even_add_one, not_not] at even
    simp only [List.cons_append, everyOther, ih even]

theorem everyOther_snoc {front : List Char} (odd : ¬ Even front.length) (last : Char) :
    everyOther (front ++ [last]) = everyOther front := by
  induction front using everyOther.induct with
  | case1 => simp at odd
  | case2 char => rfl
  | case3 char skipped rest ih =>
    simp only [List.length_cons, Nat.even_add_one, not_not] at odd
    simp only [List.cons_append, everyOther, ih odd]

theorem length_everyOther_le (chars : List Char) : (everyOther chars).length ≤ chars.length := by
  induction chars using everyOther.induct with
  | case1 | case2 => exact Nat.le_refl _
  | case3 char skipped rest ih =>
    simp only [everyOther, List.length_cons]
    omega

theorem mem_of_mem_everyOther {char : Char} {chars : List Char} (member : char ∈ everyOther chars) :
    char ∈ chars := by
  induction chars using everyOther.induct with
  | case1 | case2 => exact member
  | case3 first skipped rest ih =>
    rcases List.mem_cons.mp member with rfl | later
    · exact List.mem_cons_self
    · exact List.mem_cons_of_mem _ (List.mem_cons_of_mem _ (ih later))

variable {word gap rest : List Char} {old char : Char} {rounds j : Nat}

private theorem cString_cons (apart : char ≠ nul) (rest : List Char) :
    cString (char :: rest) = char :: cString rest := by
  simp [cString, apart]

@[simp] private theorem cString_nul (rest : List Char) : cString (nul :: rest) = [] := by
  simp [cString]

private theorem getD_behind (word : List Char) (old : Char) (rest : List Char) (place : Nat) :
    (word ++ old :: rest).getD (word.length + 1 + place) nul = rest.getD place nul := by
  rw [List.getD_eq_getElem?_getD, List.getD_eq_getElem?_getD,
    List.getElem?_append_right (by omega), Nat.add_assoc, Nat.add_sub_cancel_left, Nat.add_comm 1,
    List.getElem?_cons_succ]

private theorem getD_gap (gap behind : List Char) :
    (gap ++ behind).getD gap.length nul = behind.getD 0 nul := by
  rw [List.getD_eq_getElem?_getD, List.getD_eq_getElem?_getD,
    List.getElem?_append_right (Nat.le_refl _), Nat.sub_self]

private theorem free_snoc (free : nul ∉ word) (apart : char ≠ nul) : nul ∉ word ++ [char] := by
  intro member
  rcases List.mem_append.mp member with before | last
  · exact free before
  · exact apart (List.mem_singleton.mp last).symm

private theorem shift_char (rounds : Nat) (gap : List Char)
    (jump : (if (word ++ old :: (gap ++ char :: rest)).getD 0 nul = '/' then j + 1 else j) =
      word.length + 1 + gap.length) (apart : char ≠ nul) :
    shift (rounds + 1) word.length j (word ++ old :: (gap ++ char :: rest)) =
      shift rounds (word.length + 1) (word.length + 1 + gap.length + 1)
        (word ++ char :: (gap ++ char :: rest)) := by
  have put : (word ++ old :: (gap ++ char :: rest)).set word.length char =
      word ++ char :: (gap ++ char :: rest) := by
    simp
  rw [shift]
  simp only [jump, getD_behind, getD_gap, List.getD_cons_zero, put]
  rw [if_neg apart]

private theorem shift_nul (gap : List Char)
    (jump : (if (word ++ old :: (gap ++ nul :: rest)).getD 0 nul = '/' then j + 1 else j) =
      word.length + 1 + gap.length) (free : nul ∉ word) :
    cString (shift (rounds + 1) word.length j (word ++ old :: (gap ++ nul :: rest))) = word := by
  have put : (word ++ old :: (gap ++ nul :: rest)).set word.length nul =
      word ++ nul :: (gap ++ nul :: rest) := by
    simp
  rw [shift]
  simp only [jump, getD_behind, getD_gap, List.getD_cons_zero, put, if_true]
  exact cString_append_nul _ free

private theorem jump_plain (word : List Char) {first : Char} (plain : first ≠ '/')
    (behind : List Char) :
    (if (first :: word ++ behind).getD 0 nul = '/' then word.length + 2 + 1
      else word.length + 2) = (first :: word).length + 1 + 0 := by
  rw [List.cons_append, List.getD_cons_zero, if_neg plain, List.length_cons]

private theorem jump_slash {gap : List Char} (room : gap.length = word.length + 1)
    (behind : List Char) :
    (if ('/' :: word ++ behind).getD 0 nul = '/' then 2 * (word.length + 1) + 1
      else 2 * (word.length + 1)) = ('/' :: word).length + 1 + gap.length := by
  rw [List.cons_append, List.getD_cons_zero, if_pos rfl, List.length_cons, room]
  omega

private theorem shift_plain {first : Char} (plain : first ≠ '/') (old : Char)
    (free : nul ∉ first :: word) (ends : nul ∈ rest) (short : (cString rest).length < rounds) :
    cString (shift rounds (word.length + 1) (word.length + 2) (first :: word ++ old :: rest)) =
      first :: word ++ cString rest := by
  induction rest generalizing word old rounds with
  | nil => simp at ends
  | cons char rest ih =>
    obtain ⟨rounds, rfl⟩ : ∃ more, rounds = more + 1 := ⟨rounds - 1, by omega⟩
    by_cases apart : char = nul
    · subst apart
      rw [cString_nul, List.append_nil]
      exact shift_nul [] (jump_plain word plain _) free
    · rw [cString_cons apart] at short ⊢
      have next := shift_char rounds []
        (jump_plain word plain (old :: char :: rest)) apart
      have extended : nul ∉ first :: (word ++ [char]) := free_snoc free apart
      have later : nul ∈ rest := by
        simpa [Ne.symm apart] using ends
      have done := ih char extended later (Nat.lt_of_succ_lt_succ short)
      simp only [List.length_append, List.append_assoc, List.cons_append, List.nil_append,
        List.length_cons, List.length_nil, Nat.add_zero] at next done ⊢
      rw [next, done]

private theorem shift_slash (gap : List Char) (old : Char) (free : nul ∉ '/' :: word)
    (room : gap.length = word.length + 1) (ends : nul ∈ everyOther rest)
    (short : (cString (everyOther rest)).length < rounds) :
    cString (shift rounds (word.length + 1) (2 * (word.length + 1))
        ('/' :: word ++ old :: (gap ++ rest))) =
      '/' :: word ++ cString (everyOther rest) := by
  induction rest using everyOther.induct generalizing word old gap rounds with
  | case1 => simp [everyOther] at ends
  | case2 char =>
    obtain ⟨rounds, rfl⟩ : ∃ more, rounds = more + 1 := ⟨rounds - 1, by omega⟩
    obtain rfl := List.mem_singleton.mp ends
    rw [everyOther, cString_nul, List.append_nil]
    exact shift_nul gap (jump_slash room _) free
  | case3 char skipped rest ih =>
    obtain ⟨rounds, rfl⟩ : ∃ more, rounds = more + 1 := ⟨rounds - 1, by omega⟩
    rw [everyOther] at short ends ⊢
    by_cases apart : char = nul
    · subst apart
      rw [cString_nul, List.append_nil]
      exact shift_nul gap (jump_slash room _) free
    · rw [cString_cons apart] at short ⊢
      have next := shift_char rounds gap
        (jump_slash room (old :: (gap ++ char :: skipped :: rest))) apart
      have extended : nul ∉ '/' :: (word ++ [char]) := free_snoc free apart
      have later : nul ∈ everyOther rest := by
        simpa [Ne.symm apart] using ends
      obtain ⟨first, gap, rfl⟩ := List.exists_cons_of_length_eq_add_one room
      have roomy : (gap ++ [char, skipped]).length = (word ++ [char]).length + 1 := by
        simp at room ⊢
        omega
      have done := ih _ first extended roomy later (Nat.lt_of_succ_lt_succ short)
      simp only [List.length_append, List.append_assoc, List.cons_append, List.nil_append,
        List.length_cons, List.length_nil] at next done room ⊢
      have place : word.length + 1 + 1 + (gap.length + 1) + 1 = 2 * (word.length + 1 + 1) := by
        omega
      rw [next, ← done, place]

theorem head_shift (rounds : Nat) {i : Nat} (later : 0 < i) (j : Nat) (filename : List Char) :
    (shift rounds i j filename).head? = filename.head? := by
  induction rounds generalizing i j filename with
  | zero => rfl
  | succ rounds ih =>
    have kept (char : Char) : (filename.set i char).head? = filename.head? := by
      obtain ⟨i, rfl⟩ : ∃ before, i = before + 1 := ⟨i - 1, by omega⟩
      cases filename <;> rfl
    simp only [shift]
    generalize (if filename.getD 0 nul = '/' then j + 1 else j) = j
    split
    · exact kept _
    · rw [ih (Nat.succ_pos i), kept]

theorem shift_stays (positive : 0 < rounds) (rest : List Char) :
    (shift rounds 0 0 ('/' :: '/' :: rest)).head? = some '/' := by
  obtain ⟨rounds, rfl⟩ : ∃ more, rounds = more + 1 := ⟨rounds - 1, by omega⟩
  exact head_shift rounds Nat.one_pos 2 ('/' :: '/' :: rest)

theorem shift_one (plain : char ≠ '/') (ends : nul ∈ char :: rest)
    (short : (cString (char :: rest)).length < rounds) :
    cString (shift rounds 0 0 ('/' :: char :: rest)) = cString (char :: rest) := by
  obtain ⟨rounds, rfl⟩ : ∃ more, rounds = more + 1 := ⟨rounds - 1, by omega⟩
  by_cases apart : char = nul
  · subst apart
    rw [cString_nul]
    exact shift_nul [] rfl List.not_mem_nil
  · rw [cString_cons apart] at short ⊢
    have free : nul ∉ [char] := free_snoc List.not_mem_nil apart
    have later : nul ∈ rest := by
      simpa [Ne.symm apart] using ends
    exact (congrArg cString (shift_char rounds [] rfl apart)).trans
      (shift_plain plain char free later (Nat.lt_of_succ_lt_succ short))

/-- Of two slashes in front one stays, with every other character behind them. -/
theorem shift_two (skipped : Char) (ends : nul ∈ everyOther rest)
    (short : (cString (everyOther rest)).length + 1 < rounds) :
    cString (shift rounds 0 0 ('/' :: '/' :: skipped :: rest)) =
      '/' :: cString (everyOther rest) := by
  obtain ⟨rounds, rfl⟩ : ∃ more, rounds = more + 1 := ⟨rounds - 1, by omega⟩
  have free : nul ∉ ['/'] := by decide
  exact (congrArg cString (shift_char rounds [] rfl (by decide : '/' ≠ nul))).trans
    (shift_slash [skipped] '/' free rfl ends (Nat.lt_of_succ_lt_succ short))

example : cString (shift BUFSIZ 0 0 "//abcde\x00".toList) = "/bd".toList := by
  decide

end Lsnp.WebServer
