import Lsnp.Lab.Noted
import Lsnp.Lab.Stage

namespace Lsnp.Lab

open Lsnp.Interaction Lsnp.Unix

namespace Noted

/-- A background command; `ampersand` is the slot of its `&`. -/
def background (draft : Stage) (fds : Fds) (pids : List Pid) (ampersand : Option Nat) :
    Prog Unit := do
  let bgPid ← execute draft.start draft.argv fds.fdIn fds.fdOut
  (announce bgPid).unmarked
  match ampersand with
  | none => pure ()
  | some slot => mark (.operator slot)
  (errorExit true (pids ++ bgPid.toList) .none).unmarked

def lastCommand (stage : Stage) (fds : Fds) (pids : List Pid) : Prog Unit :=
  match stage.ending with
  | .background => background stage fds pids none
  | .blank => fault.unmarked
  | _ => do
    let pid ← execute stage.start stage.argv fds.fdIn fds.fdOut
    (errorExit false (pids ++ pid.toList) .none).unmarked

/-- Open the target behind a redirection in this slot, then go on. -/
def redirected (direction : Direction) (slot : Nat) (target : Text) (fds : Fds) (pids : List Pid)
    (next : Fds → Prog Unit) : Prog Unit := do
  (closeIfOpen (fds.get direction)).unmarked
  match ← (Sys.openFile direction target).unmarked with
  | none => do
    perror target
    (errorExit false pids (fds.set direction none)).unmarked
  | some fd => do
    mark (.operator slot)
    mark (.target (slot + 1))
    next (fds.set direction (some fd))

def untargeted (direction : Direction) (fds : Fds) (pids : List Pid) : Prog Unit := do
  fprintf (syntaxError direction)
  (errorExit false pids fds).unmarked

/-- The loop from `slot` on, where the tokens still to be scanned begin; the draft is what
has been read of the current command. -/
def course (draft : Draft) (slot : Nat) (fds : Fds) (pids : List Pid) : List Text → Prog Unit
  | [] => lastCommand (draft.finish slot) fds pids
  | token :: rest =>
    match operator token, rest with
    | .none, rest => course (draft.push token) (slot + 1) fds pids rest
    | .pipe, rest => do
      match ← openPipe draft.start (slot + 1) fds.fdOut with
      | none => (errorExit false pids fds).unmarked
      | some (readEnd, fdOut) => do
        match ← execute draft.start draft.argv fds.fdIn (some fdOut) with
        | some pid => do
          mark (.operator slot)
          course (.fresh (slot + 1)) (slot + 1) ⟨some readEnd, none⟩ (pids ++ [pid]) rest
        | none => do
          (Sys.close readEnd).unmarked
          (errorExit false pids .none).unmarked
    | .and, rest => do
      let andPid ← execute draft.start draft.argv fds.fdIn fds.fdOut
      let lastStatus ← (waitAnd (pids ++ andPid.toList) andPid).unmarked
      if andFailed lastStatus then do
        mark (.failure slot)
        (errorExit false [] .none).unmarked
      else do
        mark (.operator slot)
        course (.fresh (slot + 1)) (slot + 1) .none [] rest
    | .background, _ => background (draft.close .background slot) fds pids (some slot)
    | .out, [] => untargeted .output fds pids
    | .out, target :: rest => redirected .output slot target fds pids fun fds =>
      course draft.redirect (slot + 2) fds pids rest
    | .input, [] => untargeted .input fds pids
    | .input, target :: rest => redirected .input slot target fds pids fun fds =>
      course draft.redirect (slot + 2) fds pids rest

end Noted

/-- The draft after a run of words that are no operators. -/
def Draft.pushAll (draft : Draft) (words : List Text) : Draft :=
  words.foldl Draft.push draft

theorem pushAll_start (draft : Draft) (words : List Text) :
    (draft.pushAll words).start = draft.start := by
  induction words generalizing draft with
  | nil => rfl
  | cons word words ih => exact ih (draft.push word)

theorem pushAll_redirected (draft : Draft) (words : List Text) :
    (draft.pushAll words).redirected = draft.redirected := by
  induction words generalizing draft with
  | nil => rfl
  | cons word words ih => exact ih (draft.push word)

theorem pushAll_argv (draft : Draft) (words : List Text) :
    (draft.pushAll words).argv = if draft.redirected then draft.argv else draft.argv ++ words := by
  induction words generalizing draft with
  | nil => simp [Draft.pushAll]
  | cons word words ih =>
    have step := ih (draft.push word)
    cases redirected : draft.redirected <;>
      simpa [Draft.pushAll, Draft.push, redirected] using step

theorem pushAll_last (draft : Draft) (words : List Text) :
    (draft.pushAll words).last = words.getLast?.or draft.last := by
  induction words generalizing draft with
  | nil => rfl
  | cons word words ih =>
    have step := ih (draft.push word)
    simp only [Draft.pushAll, Draft.push, List.foldl_cons] at step ⊢
    rw [step, List.getLast?_cons]
    cases words.getLast? <;> rfl

theorem parse_words {words : List Text} (plain : ∀ word ∈ words, operator word = .none)
    (draft : Draft) (slot : Nat) (rest : List Text) :
    parse draft slot (words ++ rest) =
      parse (draft.pushAll words) (slot + words.length) rest := by
  induction words generalizing draft slot with
  | nil => rfl
  | cons word words ih =>
    have first := plain word (by simp)
    have rest := ih (fun other member => plain other (by simp [member])) (draft.push word) (slot + 1)
    simp only [List.cons_append, parse, first, rest, List.length_cons, Draft.pushAll,
      List.foldl_cons]
    congr 1
    omega

private theorem scan_words {words : List Text} (plain : ∀ word ∈ words, operator word = .none)
    (tail : List (Option Text)) (slot : Nat) :
    scan (words.map some ++ tail) slot = scan tail (slot + words.length) := by
  induction words generalizing slot with
  | nil => rfl
  | cons word words ih =>
    have first := plain word (by simp)
    have rest := ih (fun other member => plain other (by simp [member])) (slot + 1)
    simp only [List.map_cons, List.cons_append, scan, first, if_true, rest, List.length_cons]
    congr 1
    omega

private theorem split_words (tokens : List Text) : ∃ words rest, tokens = words ++ rest ∧
    (∀ word ∈ words, operator word = .none) ∧
    (rest = [] ∨ ∃ token after, rest = token :: after ∧ operator token ≠ .none) := by
  induction tokens with
  | nil => exact ⟨[], [], rfl, by simp, .inl rfl⟩
  | cons token tokens ih =>
    by_cases plain : operator token = .none
    · obtain ⟨words, rest, same, words_plain, ends⟩ := ih
      refine ⟨token :: words, rest, by simp [same], ?_, ends⟩
      intro word member
      rcases List.mem_cons.mp member with rfl | later
      · exact plain
      · exact words_plain word later
    · exact ⟨[], token :: tokens, rfl, by simp, .inr ⟨token, tokens, rfl, plain⟩⟩

private theorem cStrings_words (words : List Text) (tail : List (Option Text)) :
    cStrings (words.map some ++ none :: tail) = some words := by
  induction words with
  | nil => rfl
  | cons word words ih => simp [cStrings, ih]

/-- The array at the head of the loop: a part already cut, of which the command's
arguments are fixed once it has a redirection, and the tokens still to be scanned. -/
private structure Represents (interp : Interp) (draft : Draft) (slot : Nat)
    (rest : List Text) (front : List (Option Text)) : Prop where
  args : interp.args = front ++ (rest.map some ++ [none])
  length : front.length = slot
  curr : interp.currPtr = slot
  cmd : interp.cmdArglist = draft.start
  within : draft.start ≤ slot
  last : draft.last = none
  foreground : interp.background = false
  fixed : draft.redirected = true → ∀ tail, cStrings (front.drop draft.start ++ tail) = some draft.argv
  unread : draft.redirected = false → draft.start = slot ∧ draft.argv = []

private theorem Represents.argv {interp : Interp} {draft : Draft} {slot : Nat} {rest : List Text}
    {front : List (Option Text)} (represents : Represents interp draft slot rest front)
    (words : List Text) (tail : List (Option Text)) :
    cStrings ((front ++ (words.map some ++ none :: tail)).drop interp.cmdArglist) =
      some (draft.pushAll words).argv := by
  have within : draft.start ≤ front.length := by
    rw [represents.length]
    exact represents.within
  rw [represents.cmd, List.drop_append_of_le_length within, pushAll_argv]
  cases redirected : draft.redirected with
  | true => exact represents.fixed redirected _
  | false =>
    obtain ⟨start, empty⟩ := represents.unread redirected
    have read : front.drop draft.start = [] := by
      rw [start, ← represents.length, List.drop_length]
    simp [read, empty, cStrings_words]

private theorem Represents.getOpType {interp : Interp} {draft : Draft} {slot : Nat}
    {words after : List Text} {token : Text} {front : List (Option Text)}
    (represents : Represents interp draft slot (words ++ token :: after) front)
    (plain : ∀ word ∈ words, operator word = .none) (found : operator token ≠ .none) :
    getOpType interp.args interp.currPtr = some (operator token,
      front ++ (words.map some ++ none :: (after.map some ++ [none])), slot + words.length) := by
  have scanned : scan (interp.args.drop interp.currPtr) interp.currPtr =
      some (operator token, slot + words.length) := by
    rw [represents.args, represents.curr, ← represents.length, List.drop_left, List.map_append,
      List.append_assoc, scan_words plain]
    simp [scan, found]
  have cut : interp.args.set (slot + words.length) none =
      front ++ (words.map some ++ none :: (after.map some ++ [none])) := by
    rw [represents.args, ← represents.length]
    simp
  unfold Lab.getOpType
  rw [scanned]
  cases op : operator token <;> simp_all

private theorem Represents.getOpType_end {interp : Interp} {draft : Draft} {slot : Nat}
    {words : List Text} {front : List (Option Text)}
    (represents : Represents interp draft slot words front)
    (plain : ∀ word ∈ words, operator word = .none) :
    (Lab.getOpType interp.args interp.currPtr = some (.none, interp.args, slot + words.length) ∧
      (draft.pushAll words).finish (slot + words.length) =
        (draft.pushAll words).close .none (slot + words.length)) ∨
    (Lab.getOpType interp.args interp.currPtr = none ∧
      (draft.pushAll words).finish (slot + words.length) =
        (draft.pushAll words).close .blank (slot + words.length)) ∨
    ∃ cut : List Text,
      Lab.getOpType interp.args interp.currPtr = some (.background,
        front ++ (cut.map some ++ [none]), slot + words.length) ∧
      (draft.pushAll words).finish (slot + words.length) =
        (draft.pushAll cut).close .background (slot + words.length) := by
  have scanned : scan (interp.args.drop interp.currPtr) interp.currPtr =
      some (.none, slot + words.length) := by
    rw [represents.args, represents.curr, ← represents.length, List.drop_left, scan_words plain]
    rfl
  have last : (draft.pushAll words).last = words.getLast? := by
    simp [pushAll_last, represents.last]
  unfold Lab.getOpType Draft.finish
  rw [scanned, last]
  rcases List.eq_nil_or_concat words with rfl | ⟨before, word, rfl⟩
  · left
    simp [represents.curr]
  · have moved : slot + (before ++ [word]).length ≠ interp.currPtr := by
      rw [represents.curr]
      simp
    have read : interp.args[slot + (before ++ [word]).length - 1]? = some (some word) := by
      rw [represents.args, ← represents.length]
      simp
    have tail : (before ++ [word]).getLast? = some word := by simp
    simp only [List.concat_eq_append, tail, moved, if_false, read]
    cases ends : word.getLast? with
    | none =>
      right; left
      simp
    | some character =>
      by_cases ampersand : character = '&'
      · right; right
        refine ⟨before ++ [word.dropLast], ?_, ?_⟩
        · have set : interp.args.set (slot + (before ++ [word]).length - 1) (some word.dropLast) =
              front ++ ((before ++ [word.dropLast]).map some ++ [none]) := by
            rw [represents.args, ← represents.length]
            simp
          simpa [ampersand] using set
        · simp only [ampersand, Draft.close, pushAll_start, pushAll_argv, pushAll_redirected,
            if_true]
          cases draft.redirected <;> simp
      · left
        simp [ampersand]

private theorem slot_behind {front : List (Option Text)} {slot : Nat} (length : front.length = slot)
    (words : List Text) (tail : List (Option Text)) :
    (front ++ (words.map some ++ none :: tail))[slot + words.length + 1]? = tail[0]? := by
  have same : slot + words.length + 1 = (front ++ (words.map some ++ [none])).length := by
    simp [length, Nat.add_assoc]
  have whole : front ++ (words.map some ++ none :: tail) =
      front ++ (words.map some ++ [none]) ++ tail := by simp
  rw [whole, same, List.getElem?_append_right (Nat.le_refl _), Nat.sub_self]

private theorem represents_fresh {front : List (Option Text)} {slot : Nat} (words after : List Text)
    (fds : Fds) (pids : List Pid) (length : front.length = slot) :
    Represents ⟨front ++ (words.map some ++ none :: (after.map some ++ [none])),
      slot + words.length + 1, slot + words.length + 1, fds, pids, false⟩
      (.fresh (slot + words.length + 1)) (slot + words.length + 1) after
      (front ++ (words.map some ++ [none])) where
  args := by simp
  length := by simp [length]; omega
  curr := rfl
  cmd := rfl
  within := Nat.le_refl _
  last := rfl
  foreground := rfl
  fixed := nofun
  unread := fun _ => ⟨rfl, rfl⟩

private theorem Represents.redirect {interp : Interp} {draft : Draft} {slot : Nat}
    {words after : List Text} {token target : Text} {front : List (Option Text)}
    (represents : Represents interp draft slot (words ++ token :: target :: after) front)
    (fds : Fds) :
    Represents { interp with
        args := front ++ (words.map some ++ none :: ((target :: after).map some ++ [none]))
        currPtr := slot + words.length + 2
        fds := fds }
      (draft.pushAll words).redirect (slot + words.length + 2) after
      (front ++ (words.map some ++ [none, some target])) where
  args := by simp
  length := by simp [represents.length]; omega
  curr := rfl
  cmd := by simpa [Draft.redirect, pushAll_start] using represents.cmd
  within := by
    have within := represents.within
    simp only [Draft.redirect, pushAll_start]
    omega
  last := rfl
  foreground := represents.foreground
  fixed := by
    intro _ tail
    have kept := represents.argv words (some target :: tail)
    have within : draft.start ≤ (front ++ (words.map some ++ [none, some target])).length := by
      have within := represents.within
      have length := represents.length
      simp only [List.length_append]
      omega
    simp only [Draft.redirect, pushAll_start]
    rw [← List.drop_append_of_le_length within]
    simpa [represents.cmd] using kept
  unread := nofun

private theorem Represents.slot {interp : Interp} {draft : Draft} {slot : Nat}
    {words after : List Text} {front : List (Option Text)}
    (represents : Represents interp draft slot (words ++ after) front) :
    interp.args[slot + words.length]? = some after.head? := by
  rw [represents.args, ← represents.length]
  cases after <;> simp

namespace Noted

theorem course_words {words : List Text} (plain : ∀ word ∈ words, operator word = .none)
    (draft : Draft) (slot : Nat) (fds : Fds) (pids : List Pid) (rest : List Text) :
    course draft slot fds pids (words ++ rest) =
      course (draft.pushAll words) (slot + words.length) fds pids rest := by
  induction words generalizing draft slot with
  | nil => rfl
  | cons word words ih =>
    have first := plain word (by simp)
    have rest := ih (fun other member => plain other (by simp [member])) (draft.push word) (slot + 1)
    simp only [List.cons_append, course, first, rest, List.length_cons, Draft.pushAll,
      List.foldl_cons]
    congr 1
    omega

private theorem executeAt_words {interp : Interp} {draft : Draft} {slot : Nat} {rest : List Text}
    {front : List (Option Text)} (represents : Represents interp draft slot rest front)
    (words : List Text) (tail : List (Option Text)) (fds : Fds) :
    executeAt { interp with args := front ++ (words.map some ++ none :: tail) } fds =
      execute (draft.pushAll words).start (draft.pushAll words).argv fds.fdIn fds.fdOut := by
  simp only [executeAt, represents.argv, pushAll_start]
  rw [represents.cmd]

private theorem opRedirect_target (direction : Direction) (interp : Interp) {stop : Nat}
    {target : Text} (found : interp.args[stop + 1]? = some (some target))
    {rest : Flow → Prog Unit} {next : Fds → Prog Unit}
    (left : ∀ fds, rest (.leave { interp with fds := fds }) =
      (errorExit false interp.pids fds).unmarked)
    (again : ∀ fds, rest (.again { interp with fds := fds, currPtr := stop + 2 }) = next fds) :
    opRedirect direction interp stop >>= rest =
      redirected direction stop target interp.fds interp.pids next := by
  simp only [opRedirect, redirected, found, bind_assoc]
  refine bind_congr fun closed => ?_
  refine bind_congr fun fd => ?_
  cases fd with
  | none => simp only [bind_assoc, pure_bind, left]
  | some fd => simp only [bind_assoc, pure_bind, again]

private theorem opRedirect_missing (direction : Direction) (interp : Interp) {stop : Nat}
    (found : interp.args[stop + 1]? = some none) {rest : Flow → Prog Unit}
    (left : rest (.leave interp) = (errorExit false interp.pids interp.fds).unmarked) :
    opRedirect direction interp stop >>= rest = untargeted direction interp.fds interp.pids := by
  simp only [opRedirect, untargeted, found, bind_assoc, pure_bind, left]

/-- From any head of the loop, the remaining rounds and `error_exit` do what the
remaining tokens ask for. -/
private theorem chainLoop_eq {rounds : Nat} {interp : Interp} {draft : Draft} {slot : Nat}
    {rest : List Text} {front : List (Option Text)}
    (represents : Represents interp draft slot rest front) (enough : rest.length < rounds) :
    (do
      let final ← chainLoop rounds interp
      (errorExit final.background final.pids final.fds).unmarked) =
    course draft slot interp.fds interp.pids rest := by
  induction rounds generalizing interp draft slot rest front with
  | zero => omega
  | succ rounds ih =>
    obtain ⟨words, tail, rfl, plain, ends⟩ := split_words rest
    have foreground := represents.foreground
    rw [course_words plain]
    rcases ends with rfl | ⟨token, after, rfl, found⟩
    · have terminator := represents.slot
      rw [List.append_nil] at represents
      rcases represents.getOpType_end plain with ⟨read, same⟩ | ⟨read, same⟩ | ⟨cut, read, same⟩
      · have run : executeAt interp interp.fds = execute (draft.pushAll words).start
            (draft.pushAll words).argv interp.fds.fdIn interp.fds.fdOut := by
          have run := executeAt_words represents words [] interp.fds
          rwa [← represents.args] at run
        simp only [chainLoop, round, read, course, same, lastCommand, Draft.close, opNone, pure_bind,
          bind_assoc]
        change executeAt interp interp.fds >>= _ = _
        rw [run, foreground]
      · simp only [chainLoop, round, read, course, same, lastCommand, Draft.close,
          fault_unmarked_bind]
      · have run := executeAt_words represents cut [] interp.fds
        simp only [chainLoop, round, read, course, same, lastCommand, background, Draft.close,
          opBackground, terminator, List.head?_nil, Option.join_some, Option.map_none, pure_bind,
          bind_assoc, run]
    · have read := represents.getOpType plain found
      have here := represents.slot
      have run := executeAt_words represents words (after.map some ++ [none])
      have started : interp.cmdArglist = (draft.pushAll words).start := by
        rw [pushAll_start, represents.cmd]
      have rest_enough : after.length < rounds := by
        simp only [List.length_append, List.length_cons] at enough
        omega
      have again := fun fds pids => ih (represents_fresh words after fds pids represents.length)
        rest_enough
      simp only [chainLoop, round, read, bind_assoc]
      cases op : operator token with
      | none => exact (found op).elim
      | pipe =>
        simp only [opPipe, course, op, bind_assoc, run]
        simp only [started, foreground]
        refine bind_congr fun ends => ?_
        cases ends with
        | none => simp only [pure_bind]
        | some ends =>
          obtain ⟨readEnd, fdOut⟩ := ends
          simp only [bind_assoc]
          refine bind_congr fun pid => ?_
          cases pid with
          | none => simp only [bind_assoc, pure_bind]
          | some pid =>
            simp only [bind_assoc, pure_bind]
            refine bind_congr fun _ => ?_
            exact again _ _
      | and =>
        simp only [opAnd, course, op, bind_assoc, run]
        simp only [foreground]
        refine bind_congr fun andPid => ?_
        refine bind_congr fun lastStatus => ?_
        split
        · simp only [bind_assoc, pure_bind]
        · simp only [bind_assoc, pure_bind]
          refine bind_congr fun _ => ?_
          exact again _ _
      | background =>
        simp only [opBackground, course, op, background, Draft.close, here, List.head?_cons,
          Option.join_some, Option.map_some, bind_assoc, pure_bind, run]
      | out | input =>
        let cut : Interp := { interp with
          args := front ++ (words.map some ++ none :: (after.map some ++ [none])) }
        have left : ∀ fds, (errorExit interp.background interp.pids fds).unmarked =
            ((errorExit false interp.pids fds).unmarked : Prog Unit) := by
          intro fds
          rw [foreground]
        cases after with
        | nil =>
          simp only [course, op]
          exact opRedirect_missing _ cut (slot_behind represents.length words _) (left _)
        | cons target after =>
          simp only [course, op]
          refine opRedirect_target _ cut (slot_behind represents.length words _) left fun fds => ?_
          exact ih (represents.redirect fds) (by simp only [List.length_cons] at rest_enough; omega)

theorem isExecutable_course (tokens : List Text) :
    isExecutable tokens = course (.fresh 0) 0 .none [] tokens := by
  have represents : Represents (.initial tokens) (.fresh 0) 0 tokens [] := by
    refine ⟨rfl, rfl, rfl, rfl, Nat.le_refl _, rfl, rfl, nofun, fun _ => ⟨rfl, rfl⟩⟩
  exact chainLoop_eq represents (by omega)

private theorem erase_background (stage : Stage) (fds : Fds) (pids : List Pid)
    (ampersand : Option Nat) : (background stage fds pids ampersand).erase = (do
      let bgPid ← Lab.execute stage.start stage.argv fds.fdIn fds.fdOut
      announce bgPid
      errorExit true (pids ++ bgPid.toList) .none) := by
  cases ampersand <;> simp [background]

private theorem erase_lastCommand (draft : Draft) (slot : Nat) (fds : Fds) (pids : List Pid) :
    (lastCommand (draft.finish slot) fds pids).erase =
      runStages [draft.finish slot] fds pids := by
  have plain : (draft.finish slot).redirections = [] ∧
      ((draft.finish slot).ending = .none ∨ (draft.finish slot).ending = .background ∨
        (draft.finish slot).ending = .blank) := by
    unfold Draft.finish
    split
    · exact ⟨rfl, .inl rfl⟩
    · split
      · exact ⟨rfl, .inr (.inr rfl)⟩
      · split
        · exact ⟨rfl, .inr (.inl rfl)⟩
        · exact ⟨rfl, .inl rfl⟩
  simp only [lastCommand, runStages, plain.1, openAll, pure_bind, if_true, runEnding]
  rcases plain.2 with ending | ending | ending
  · simp only [ending, Program.erase_bind, erase_execute, Program.erase_unmarked]
  · simp only [ending, erase_background]
  · simp only [ending, Program.erase_unmarked]

private theorem erase_redirected (direction : Direction) (slot : Nat) (target : Text) (fds : Fds)
    (pids : List Pid) {next : Fds → Prog Unit} {stages : List Stage} (nonempty : stages ≠ [])
    (erased : ∀ fds, (next fds).erase = runStages stages fds pids) :
    (redirected direction slot target fds pids next).erase =
      runStages (addRedirection (direction, target) stages) fds pids := by
  rw [runStages_addRedirection _ _ nonempty]
  simp only [redirected, Program.erase_bind, Program.erase_unmarked]
  refine bind_congr fun closed => ?_
  refine bind_congr fun fd => ?_
  cases fd with
  | none => simp
  | some fd => simp [erased]

private theorem erase_course (draft : Draft) (slot : Nat) (fds : Fds) (pids : List Pid)
    (tokens : List Text) : (course draft slot fds pids tokens).erase =
      runStages (parse draft slot tokens) fds pids := by
  fun_induction parse draft slot tokens generalizing fds pids with
  | case1 draft slot => exact erase_lastCommand draft slot fds pids
  | case2 draft slot token rest plain ih =>
    simp only [course, plain]
    exact ih fds pids
  | case3 draft slot token rest found ih =>
    simp only [course, found]
    simp only [runStages, runEnding, Draft.close, openAll, pure_bind, if_true, Program.erase_bind,
      erase_openPipe]
    refine bind_congr fun ends => ?_
    cases ends with
    | none => simp
    | some ends =>
      simp only [Program.erase_bind, erase_execute]
      refine bind_congr fun pid => ?_
      cases pid with
      | none => simp
      | some pid => simp [ih]
  | case4 draft slot token rest found ih =>
    simp only [course, found]
    simp only [runStages, runEnding, Draft.close, openAll, pure_bind, if_true, Program.erase_bind,
      erase_execute, Program.erase_unmarked]
    refine bind_congr fun andPid => ?_
    refine bind_congr fun lastStatus => ?_
    split <;> simp [ih]
  | case5 draft slot token rest found =>
    simp only [course, found, erase_background]
    simp only [runStages, runEnding, Draft.close, openAll, pure_bind, if_true]
  | case6 draft slot token found =>
    simp only [course, found]
    simp [untargeted, runStages, runEnding, Draft.close, openAll]
  | case7 draft slot token target rest found ih =>
    simp only [course, found]
    exact erase_redirected _ _ _ _ _ (parse_ne_nil _ _ _) fun fds => ih fds pids
  | case8 draft slot token found =>
    simp only [course, found]
    simp [untargeted, runStages, runEnding, Draft.close, openAll]
  | case9 draft slot token target rest found ih =>
    simp only [course, found]
    exact erase_redirected _ _ _ _ _ (parse_ne_nil _ _ _) fun fds => ih fds pids

end Noted

theorem isExecutable_eq (tokens : List Text) :
    isExecutable tokens = runStages (stages tokens) .none [] := by
  rw [← Noted.erase_isExecutable, Noted.isExecutable_course, Noted.erase_course]
  rfl

end Lsnp.Lab
