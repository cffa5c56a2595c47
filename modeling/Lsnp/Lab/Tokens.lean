import Lsnp.Lab.Account

namespace Lsnp.Lab.Noted

open Lsnp.Interaction Lsnp.Unix

abbrev marked : Service (Call ⊕ Mark) (MarkedReply Call.Reply Mark) (Shell × List Mark) :=
  (kernel true).marking fun _ mark => mark

/-- The call on these tokens uses up every one of them exactly once, in each run in which it
prints no error, no system call fails and no `&&` finds its left side failed. -/
def UsesEachToken (tokens : List Text) : Prop :=
  ∀ (entry after : Shell) (marks : List Mark),
    entry.table.file 0 ≠ none → entry.table.file 1 ≠ none →
    marked.Reach (isExecutable tokens, (entry, [])) (.done (), (after, marks)) →
    Since entry Succeeded after → (∀ slot, .failure slot ∉ marks) →
    (marks.flatMap Mark.slots).Perm (List.range tokens.length)

/-- An error was printed, or the left side of an `&&` was found failed for a reason. -/
def Excused (events : List Event) (marks : List Mark) : Prop :=
  (∃ text, .complained text ∈ events) ∨
    (∃ slot, .failure slot ∈ marks) ∧ ∃ event ∈ events, ¬ (Succeeded event ∧ Harmless event)

theorem Excused.mono {events wider : List Event} {marks more : List Mark}
    (excused : Excused events marks) (grown : events ⊆ wider) (marked : marks ⊆ more) :
    Excused wider more := by
  rcases excused with ⟨text, complained⟩ | ⟨⟨slot, failed⟩, event, member, bad⟩
  · exact .inl ⟨text, grown complained⟩
  · exact .inr ⟨⟨slot, marked failed⟩, event, grown member, bad⟩

/-- Since `entry` the expected marks have been left, or it is excused that they have not. -/
def Did (entry : Shell × List Mark) (expected : Option (List Mark)) (after : Shell × List Mark) :
    Prop :=
  ∃ events marks, after.1.log = entry.1.log ++ events ∧ after.2 = entry.2 ++ marks ∧
    (Excused events marks ∨ expected = some marks)

variable {entry middle after : Shell × List Mark} {first : List Mark}
  {second expected : Option (List Mark)}

theorem Did.trans (did : Did entry (some first) middle) (next : Did middle second after) :
    Did entry (second.map (first ++ ·)) after := by
  obtain ⟨events, marks, log, seen, outcome⟩ := did
  obtain ⟨others, more, log', seen', outcome'⟩ := next
  refine ⟨events ++ others, marks ++ more, by rw [log', log, List.append_assoc],
    by rw [seen', seen, List.append_assoc], ?_⟩
  rcases outcome with excused | same
  · exact .inl (excused.mono (List.subset_append_left _ _) (List.subset_append_left _ _))
  · rcases outcome' with excused | rfl
    · exact .inl (excused.mono (List.subset_append_right _ _) (List.subset_append_right _ _))
    · exact .inr (by rw [Option.some.inj same]; rfl)

theorem Did.excused (did : Did entry none middle) (next : Did middle second after) :
    Did entry expected after := by
  obtain ⟨events, marks, log, seen, outcome⟩ := did
  obtain ⟨others, more, log', seen', -⟩ := next
  have excused := outcome.resolve_right nofun
  exact ⟨events ++ others, marks ++ more, by rw [log', log, List.append_assoc],
    by rw [seen', seen, List.append_assoc],
    .inl (excused.mono (List.subset_append_left _ _) (List.subset_append_left _ _))⟩

theorem did_mark (mark : Mark) :
    marked.Returns (fun _ after => Did entry (some [mark]) after) (Noted.mark mark) entry :=
  Service.ensures_mark.mpr ⟨trivial, [], [mark], by simp, rfl, .inr rfl⟩

theorem did_unmarked {α : Type} (program : Unix.Prog α) :
    marked.Returns (fun _ after => Did entry (some []) after) program.unmarked entry := by
  obtain ⟨shell, seen⟩ := entry
  refine (returns_extends program).unmarked.returns fun _ after ⟨⟨events, log⟩, same⟩ => ?_
  exact ⟨events, [], log, by rw [same, List.append_nil], .inr rfl⟩

theorem did_some {α : Type} (program : Prog α) (entry : Shell × List Mark) :
    marked.Returns (fun _ after => ∃ marks, Did entry (some marks) after) program entry := by
  induction program generalizing entry with
  | done value => exact ⟨[], [], [], by simp, by simp, .inr rfl⟩
  | ask asked next ih =>
    refine ⟨trivial, fun reply between served => (ih reply between).returns ?_⟩
    rintro _ after ⟨marks, did⟩
    cases asked with
    | inl asked =>
      obtain ⟨events, log⟩ := serve_extends served.1
      have first : Did entry (some []) between :=
        ⟨events, [], log, by rw [served.2, List.append_nil], .inr rfl⟩
      exact ⟨_, first.trans did⟩
    | inr mark =>
      have first : Did entry (some [mark]) between := by
        obtain rfl := served
        exact ⟨[], [mark], by simp, rfl, .inr rfl⟩
      exact ⟨_, first.trans did⟩

theorem did_perror (label : Text) :
    marked.Returns (fun _ after => Did entry none after) (perror label) entry := by
  refine ⟨trivial, fun _ noted served => ⟨trivial, fun _ after complained => ?_⟩⟩
  obtain rfl := served
  obtain ⟨complained, unmarked⟩ := complained
  refine ⟨[.complained label], [.complaint label], ?_, unmarked, .inl (.inl ⟨label, by simp⟩)⟩
  rw [show after.1 = entry.1.note (.complained label) from complained]
  rfl

/-- What came of a command: an error, or its mark, and a process if it is to be forked. -/
def Executed (entry : Shell × List Mark) (arglist : Nat) (argv : List Text) (pid : Option Pid)
    (after : Shell × List Mark) : Prop :=
  Did entry none after ∨ Did entry (some (commandMarks arglist argv)) after ∧
    pid.isSome = forksOne argv

private theorem Executed.then {arglist : Nat} {argv : List Text} {pid : Option Pid}
    (executed : Executed entry arglist argv pid middle) (next : Did middle (some []) after) :
    Executed entry arglist argv pid after := by
  rcases executed with failed | ⟨did, same⟩
  · exact .inl (failed.excused next)
  · exact .inr ⟨by simpa using did.trans next, same⟩

private theorem Executed.behind {arglist : Nat} {argv : List Text} {pid : Option Pid}
    (before : Did entry (some []) middle) (executed : Executed middle arglist argv pid after) :
    Executed entry arglist argv pid after := by
  rcases executed with failed | ⟨did, same⟩
  · exact .inl (by simpa using before.trans failed)
  · exact .inr ⟨by simpa using before.trans did, same⟩

private theorem perror_executed (label : Text) (arglist : Nat) (argv : List Text) :
    marked.Returns (Executed entry arglist argv)
      (do perror label; pure none) entry :=
  (did_perror label).bind fun _ _ failed => .inl failed

private theorem checkBuiltin_found (shell : Shell) (cmd : Text) (args : List Text) :
    (kernel true).Returns (fun found _ => found = isBuiltin (cmd :: args))
      (Lab.checkBuiltin (cmd :: args)) shell := by
  cases found : findBuiltin cmd with
  | none =>
    simp only [Lab.checkBuiltin, found]
    simp [isBuiltin, found]
  | some btFunc =>
    simp only [Lab.checkBuiltin, found]
    apply (Service.returns_true _ _).bind
    intro _ _ _
    simp [isBuiltin, found]

theorem checkBuiltin_did (arglist : Nat) (cmd : Text) (args : List Text) :
    marked.Returns (fun found after => found = isBuiltin (cmd :: args) ∧
        Did entry (some (if found then commandMarks arglist (cmd :: args) else [])) after)
      (checkBuiltin arglist (cmd :: args)) entry := by
  have called : ∀ entry : Shell × List Mark, marked.Returns
      (fun found after => found = isBuiltin (cmd :: args) ∧ Did entry (some []) after)
      (Lab.checkBuiltin (cmd :: args)).unmarked entry :=
    fun entry => ((checkBuiltin_found entry.1 cmd args).unmarked.and (did_unmarked _)).returns
      fun _ _ known => ⟨known.1.1, known.2⟩
  unfold checkBuiltin
  cases builtin : isBuiltin (cmd :: args) with
  | true =>
    rw [builtin] at called
    simp only [if_true]
    refine (did_mark _).bind fun _ noted did => ?_
    refine (called noted).returns fun found after known => ?_
    obtain ⟨same, next⟩ := known
    refine ⟨same, ?_⟩
    simpa [same, commandMarks] using did.trans next
  | false =>
    rw [builtin] at called
    simp only [Bool.false_eq_true, if_false]
    refine (called entry).returns fun found after known => ?_
    obtain ⟨same, next⟩ := known
    refine ⟨same, ?_⟩
    simpa [same] using next

private theorem start_executed (arglist : Nat) (cmd : Text) (args : List Text) :
    marked.Returns (Executed entry arglist (cmd :: args)) (start arglist (cmd :: args)) entry := by
  refine (checkBuiltin_did arglist cmd args).bind fun found checked ⟨same, did⟩ => ?_
  cases found with
  | true =>
    refine (did_unmarked Sys.fflush).bind fun _ _ flushed => ?_
    exact .inr ⟨by simpa using did.trans flushed, by simp [forksOne, ← same]⟩
  | false =>
    refine (did_unmarked (Sys.fork arglist (cmd :: args))).bind fun pid forked next => ?_
    have unmarked : Did entry (some []) forked := by simpa using did.trans next
    cases pid with
    | none =>
      refine (perror_executed _ arglist (cmd :: args)).returns fun _ _ executed => ?_
      exact executed.behind unmarked
    | some pid =>
      refine (did_mark _).bind fun _ _ noted => ?_
      refine .inr ⟨by simpa [commandMarks] using unmarked.trans noted, ?_⟩
      simp [forksOne, ← same]

private theorem startSaved_executed (savedIn savedOut : Option Fd) (arglist : Nat) (cmd : Text)
    (args : List Text) (fdIn fdOut : Option Fd) :
    marked.Returns (Executed entry arglist (cmd :: args))
      (startSaved savedIn savedOut arglist (cmd :: args) fdIn fdOut) entry := by
  unfold startSaved
  split
  · refine (did_unmarked (redirect fdIn 0)).bind fun inDone first inPlace => ?_
    cases inDone with
    | false =>
      exact (perror_executed _ _ _).returns fun _ _ executed => executed.behind inPlace
    | true =>
      refine (did_unmarked (redirect fdOut 1)).bind fun outDone second outPlace => ?_
      have placed : Did entry (some []) second := by simpa using inPlace.trans outPlace
      cases outDone with
      | false =>
        exact (perror_executed _ _ _).returns fun _ _ executed => executed.behind placed
      | true => exact (start_executed _ _ _).returns fun _ _ executed => executed.behind placed
  · exact perror_executed _ _ _

theorem execute_executed (arglist : Nat) (argv : List Text) (fdIn fdOut : Option Fd) :
    marked.Returns (Executed entry arglist argv) (execute arglist argv fdIn fdOut) entry := by
  cases argv with
  | nil => exact .inr ⟨⟨[], [], by simp, by simp, .inr rfl⟩, rfl⟩
  | cons cmd args =>
    refine (did_unmarked Sys.fflush).bind fun _ flushed first => ?_
    refine (did_unmarked (Sys.dup 0)).bind fun savedIn inSaved second => ?_
    refine (did_unmarked (Sys.dup 1)).bind fun savedOut outSaved third => ?_
    have saved : Did entry (some []) outSaved := by simpa using (first.trans second).trans third
    refine (startSaved_executed savedIn savedOut arglist cmd args fdIn fdOut).bind
      fun pid ran executed => ?_
    refine (did_unmarked _).bind fun _ closed last => ?_
    exact (executed.behind saved).then last

private theorem waitLoop_shows (andPid : Option Pid) (pids : List Pid) (status lastStatus : Nat)
    (shell : Shell) : (kernel true).Returns
      (fun last after => ∃ events, after.log = shell.log ++ events ∧
        (andFailed last = true → andFailed lastStatus = true ∨
          ∃ event ∈ events, ¬ (Succeeded event ∧ Harmless event)))
      (waitLoop andPid pids status lastStatus) shell := by
  induction pids generalizing shell status lastStatus with
  | nil => exact ⟨[], by simp, .inl⟩
  | cons pid pids ih =>
    refine ⟨trivial, fun reply waited served => ?_⟩
    obtain ⟨rfl, -⟩ := served
    refine (ih _ _ _).returns fun last after ⟨events, log, shown⟩ => ?_
    refine ⟨.waited pid reply :: events, by simp [log, Shell.note], fun failed => ?_⟩
    by_cases good : Succeeded (.waited pid reply) ∧ Harmless (.waited pid reply)
    · rcases shown failed with here | ⟨event, member, bad⟩
      · left
        split at here
        · obtain ⟨status, rfl⟩ := Option.ne_none_iff_exists'.mp good.1
          have fine : andFailed status = false := good.2
          simp [fine] at here
        · exact here
      · exact .inr ⟨event, by simp [member], bad⟩
    · exact .inr ⟨_, by simp, good⟩

theorem waitAnd_shows (pids : List Pid) (andPid : Option Pid) (shell : Shell) :
    (kernel true).Returns
      (fun last after => ∃ events, after.log = shell.log ++ events ∧ (andFailed last = true →
        ∃ event ∈ events, ¬ (Succeeded event ∧ Harmless event)))
      (waitAnd pids andPid) shell := by
  refine ⟨trivial, fun status begun served => ?_⟩
  obtain rfl : begun = shell := served
  refine (waitLoop_shows andPid pids status 0 _).returns fun last after ⟨events, log, shown⟩ => ?_
  exact ⟨events, log, fun failed => (shown failed).resolve_left (by simp)⟩

private theorem openPipe_did (left right : Nat) (fdOut : Option Fd) :
    marked.Returns (fun ends after => Did entry none after ∨
        ends ≠ none ∧ Did entry (some []) after) (openPipe left right fdOut) entry := by
  refine (did_unmarked (Sys.pipe left right)).bind fun ends made first => ?_
  cases ends with
  | none =>
    refine (did_perror _).bind fun _ _ failed => .inl ?_
    simpa using first.trans failed
  | some ends =>
    refine (did_unmarked _).bind fun fdOut taken next => .inr ⟨nofun, ?_⟩
    simpa using first.trans next

private theorem background_did (stage : Stage) (fds : Fds) (pids : List Pid)
    (ampersand : Option Nat) : marked.Returns
      (fun _ after => Did entry (some (commandMarks stage.start stage.argv ++
        ampersand.toList.map Mark.operator)) after)
      (background stage fds pids ampersand) entry := by
  refine (execute_executed _ _ _ _).bind fun bgPid ran executed => ?_
  refine (did_unmarked _).bind fun _ told second => ?_
  have ran := executed.then second
  cases ampersand with
  | none =>
    refine (did_unmarked _).returns fun _ after last => ?_
    rcases ran with failed | ⟨did, -⟩
    · exact failed.excused last
    · simpa using did.trans last
  | some slot =>
    refine (did_mark _).bind fun _ noted third => ?_
    refine (did_unmarked _).returns fun _ after last => ?_
    rcases ran with failed | ⟨did, -⟩
    · exact failed.excused (third.trans last)
    · simpa using (did.trans third).trans last

private theorem lastCommand_did (stage : Stage) (fds : Fds) (pids : List Pid) : marked.Returns
      (fun _ after => Did entry (some (commandMarks stage.start stage.argv)) after)
      (lastCommand stage fds pids) entry := by
  unfold lastCommand
  split
  · simpa using background_did stage fds pids none
  · exact ⟨trivial, fun reply => reply.elim⟩
  · refine (execute_executed _ _ _ _).bind fun pid ran executed => ?_
    refine (did_unmarked _).returns fun _ after last => ?_
    rcases executed with failed | ⟨did, -⟩
    · exact failed.excused last
    · simpa using did.trans last

private theorem Did.operator {arglist : Nat} {argv : List Text} {operated : Shell × List Mark}
    {slot : Nat} (command : Did entry (some (commandMarks arglist argv)) middle)
    (noted : Did middle (some [.operator slot]) operated) (rest : Did operated expected after) :
    Did entry (expected.map fun marks => commandMarks arglist argv ++ .operator slot :: marks)
      after := by
  simpa [Function.comp_def] using (command.trans noted).trans rest

private theorem redirected_did (direction : Direction) (slot : Nat) (target : Text) (fds : Fds)
    (pids : List Pid) {next : Fds → Prog Unit}
    (later : ∀ fds entry, marked.Returns (fun _ after => Did entry expected after) (next fds) entry) :
    marked.Returns
      (fun _ after => Did entry
        (expected.map fun marks => .operator slot :: .target (slot + 1) :: marks) after)
      (redirected direction slot target fds pids next) entry := by
  refine (did_unmarked _).bind fun _ closed first => ?_
  refine (did_unmarked _).bind fun fd opened second => ?_
  cases fd with
  | none =>
    refine (did_perror target).bind fun _ complained failed => ?_
    refine (did_unmarked _).returns fun _ after last => ?_
    exact (first.trans (second.trans failed)).excused last
  | some fd =>
    refine (did_mark _).bind fun _ operated third => ?_
    refine (did_mark _).bind fun _ targeted fourth => ?_
    refine (later _ _).returns fun _ after rest => ?_
    simpa [Function.comp_def] using
      (((first.trans second).trans third).trans fourth).trans rest

private theorem pipe_did (draft : Draft) (slot : Nat) (fds : Fds) (pids : List Pid)
    (next : Fds → List Pid → Prog Unit) (expected : Option (List Mark)) (entry : Shell × List Mark)
    (later : forksOne draft.argv = true → ∀ fds pids entry,
      marked.Returns (fun _ after => Did entry expected after) (next fds pids) entry) :
    marked.Returns
      (fun _ after => Did entry (if forksOne draft.argv then
          expected.map fun marks => commandMarks draft.start draft.argv ++ .operator slot :: marks
        else some (commandMarks draft.start draft.argv)) after)
      (do
        match ← openPipe draft.start (slot + 1) fds.fdOut with
        | none => (errorExit false pids fds).unmarked
        | some (readEnd, fdOut) => do
          match ← execute draft.start draft.argv fds.fdIn (some fdOut) with
          | some pid => do
            mark (.operator slot)
            next ⟨some readEnd, none⟩ (pids ++ [pid])
          | none => do
            (Sys.close readEnd).unmarked
            (errorExit false pids .none).unmarked) entry := by
  refine (openPipe_did _ _ _).bind fun ends piped opened => ?_
  cases ends with
  | none =>
    refine (did_unmarked _).returns fun _ after last => ?_
    exact (opened.resolve_right fun made => made.1 rfl).excused last
  | some ends =>
    obtain ⟨readEnd, fdOut⟩ := ends
    refine (execute_executed _ _ _ _).bind fun pid ran executed => ?_
    have since : Executed entry draft.start draft.argv pid ran := by
      rcases opened with failed | ⟨_, did⟩
      · rcases executed with next | ⟨next, _⟩
        · exact .inl (failed.excused next)
        · exact .inl (failed.excused next)
      · exact executed.behind did
    cases pid with
    | none =>
      refine (did_unmarked _).bind fun _ closed first => ?_
      refine (did_unmarked _).returns fun _ after last => ?_
      rcases since with failed | ⟨did, same⟩
      · exact failed.excused (first.trans last)
      · have idle : forksOne draft.argv = false := same.symm
        simpa [idle] using (did.trans first).trans last
    | some pid =>
      refine (did_mark _).bind fun _ operated noted => ?_
      rcases since with failed | ⟨did, same⟩
      · exact (did_some _ _).returns fun _ after ⟨_, rest⟩ => failed.excused (noted.trans rest)
      · have forks : forksOne draft.argv = true := same.symm
        refine (later forks _ _ _).returns fun _ after rest => ?_
        rw [if_pos forks]
        exact did.operator noted rest

private theorem and_did (draft : Draft) (slot : Nat) (fds : Fds) (pids : List Pid)
    {next : Prog Unit}
    (later : ∀ entry, marked.Returns (fun _ after => Did entry expected after) next entry) :
    marked.Returns
      (fun _ after => Did entry (expected.map fun marks =>
        commandMarks draft.start draft.argv ++ .operator slot :: marks) after)
      (do
        let andPid ← execute draft.start draft.argv fds.fdIn fds.fdOut
        let lastStatus ← (waitAnd (pids ++ andPid.toList) andPid).unmarked
        if andFailed lastStatus then do
          mark (.failure slot)
          (errorExit false [] .none).unmarked
        else do
          mark (.operator slot)
          next) entry := by
  refine (execute_executed _ _ _ _).bind fun andPid ran executed => ?_
  obtain ⟨shell, seen⟩ := ran
  refine (waitAnd_shows _ _ shell).unmarked.bind fun last waited ⟨⟨events, log, shown⟩, same⟩ => ?_
  have quiet : Did (shell, seen) (some []) waited :=
    ⟨events, [], log, by rw [same, List.append_nil], .inr rfl⟩
  split
  · next failed =>
    have found : marked.Returns (fun _ noted => Did (shell, seen) none noted)
        (mark (.failure slot)) waited :=
      Service.ensures_mark.mpr ⟨trivial, events, [.failure slot], log, by rw [same],
        .inl (.inr ⟨⟨slot, by simp⟩, shown failed⟩)⟩
    refine (found.and (did_some _ _)).bind fun _ noted ⟨excused, _, first⟩ => ?_
    refine (did_unmarked _).returns fun _ after last => ?_
    rcases executed with failed | ⟨did, -⟩
    · exact failed.excused ((quiet.trans first).trans last)
    · exact (did.trans excused).excused last
  · refine (did_mark _).bind fun _ operated noted => ?_
    refine (later _).returns fun _ after rest => ?_
    rcases executed.then quiet with failed | ⟨did, -⟩
    · exact failed.excused (noted.trans rest)
    · exact did.operator noted rest

/-- A run leaves the marks of the line, or it is excused that it does not. -/
theorem course_did (draft : Draft) (slot : Nat) (fds : Fds) (pids : List Pid) (tokens : List Text)
    (entry : Shell × List Mark) :
    marked.Returns (fun _ after => Did entry (account draft slot tokens) after)
      (course draft slot fds pids tokens) entry := by
  fun_induction account draft slot tokens generalizing fds pids entry with
  | case1 draft slot => exact lastCommand_did _ fds pids
  | case2 draft slot token rest plain ih =>
    simp only [course, plain]
    exact ih fds pids entry
  | case3 draft slot token rest op forks ih =>
    simp only [course, op]
    have did := pipe_did draft slot fds pids _ _ entry fun _ => ih
    rw [if_pos forks] at did
    exact did
  | case4 draft slot token rest op idle =>
    simp only [course, op]
    have did := pipe_did draft slot fds pids
      (fun fds pids => course (.fresh (slot + 1)) (slot + 1) fds pids rest) none entry
      fun forks => (idle forks).elim
    rw [if_neg idle] at did
    exact did
  | case5 draft slot token rest op ih =>
    simp only [course, op]
    exact and_did draft slot fds pids (ih .none [])
  | case6 draft slot token rest op =>
    simp only [course, op]
    exact background_did (draft.close .background slot) fds pids (some slot)
  | case7 draft slot token op | case8 draft slot token op =>
    simp only [course, op]
    refine (did_perror _).bind fun _ complained failed => ?_
    exact (did_unmarked _).returns fun _ after last => failed.excused last
  | case9 draft slot token target rest op ih | case10 draft slot token target rest op ih =>
    simp only [course, op]
    exact redirected_did _ slot target fds pids fun fds => ih fds pids

private theorem marks_of_run {tokens : List Text} {entry after : Shell} {marks : List Mark}
    (reach : marked.Reach (isExecutable tokens, (entry, [])) (.done (), (after, marks)))
    (excusable : ∀ events, after.log = entry.log ++ events → ¬ Excused events marks) :
    account (.fresh 0) 0 tokens = some marks := by
  rw [isExecutable_course] at reach
  have did : Did (entry, []) (account (.fresh 0) 0 tokens) (after, marks) :=
    (course_did (.fresh 0) 0 .none [] tokens (entry, [])).reach
      (Service.marking_quiet (kernel_quiet true) _) reach
  obtain ⟨events, left, log, seen, outcome⟩ := did
  obtain rfl : marks = left := seen
  exact outcome.resolve_left (excusable events log)

theorem usesEachToken_of_keeps {tokens : List Text}
    (kept : misses (stages tokens) = true ∨ keeps false [] tokens = true) :
    UsesEachToken tokens := by
  intro entry after marks _ _ reach succeeded unfailed
  have found : account (.fresh 0) 0 tokens = some marks := by
    apply marks_of_run reach
    obtain ⟨events, log, good⟩ := succeeded
    intro others log'
    obtain rfl := List.append_cancel_left (log.symm.trans log')
    rintro (⟨text, complained⟩ | ⟨⟨slot, failed⟩, -⟩)
    · exact good _ complained
    · exact unfailed slot failed
  rcases kept with missed | kept
  · have none := account_eq_none.mpr missed
    rw [found] at none
    cases none
  · rw [List.range_eq_range']
    exact account_perm (reading_fresh 0) found kept

theorem not_usesEachToken {tokens : List Text} (full : ∀ token ∈ tokens, token ≠ [])
    (targeted : misses (stages tokens) = false) (passed : keeps false [] tokens = false) :
    ¬ UsesEachToken tokens := by
  intro uses
  have standardIn : Shell.initial.table.file 0 ≠ none := nofun
  have standardOut : Shell.initial.table.file 1 ≠ none := nofun
  obtain ⟨after, run, good⟩ := exists_smooth full targeted standardIn standardOut
  rw [← erase_isExecutable] at run
  obtain ⟨marks, run⟩ : ∃ marks,
      marked.Reach (isExecutable tokens, (.initial, [])) (.done (), (after, marks)) :=
    run.marked (kernel_quiet true) []
  have found : account (.fresh 0) 0 tokens = some marks := by
    apply marks_of_run run
    obtain ⟨events, log, good⟩ := good
    intro others log'
    obtain rfl := List.append_cancel_left (log.symm.trans log')
    rintro (⟨text, complained⟩ | ⟨-, event, member, bad⟩)
    · exact (good _ complained).1
    · exact bad (good event member)
  have succeeded : Since .initial Succeeded after := by
    obtain ⟨events, log, good⟩ := good
    exact ⟨events, log, fun event member => (good event member).1⟩
  have perm := uses .initial after marks standardIn standardOut run succeeded
    (account_unfailed found)
  obtain ⟨-, fewer⟩ := account_length (reading_fresh 0) found
  have less := fewer passed
  rw [perm.length_eq, List.length_range] at less
  simp [Draft.fresh] at less

/-- Every token is used up exactly once where none is passed over, and where the line lacks a
target, so that an error is printed. -/
theorem usesEachToken_iff {tokens : List Text} (full : ∀ token ∈ tokens, token ≠ []) :
    UsesEachToken tokens ↔ misses (stages tokens) = true ∨ keeps false [] tokens = true := by
  constructor
  · intro uses
    by_contra neither
    obtain ⟨targeted, passed⟩ := not_or.mp neither
    exact not_usesEachToken full (by simpa using targeted) (by simpa using passed) uses
  · exact usesEachToken_of_keeps

/-- `ls | wc > f &` -/
theorem usesEachToken_iff_background :
    (∀ token ∈ ["ls".toList, ['|'], "wc".toList, ['>'], ['f'], ['&']], token ≠ []) ∧
      UsesEachToken ["ls".toList, ['|'], "wc".toList, ['>'], ['f'], ['&']] := by
  have full : ∀ token ∈ ["ls".toList, ['|'], "wc".toList, ['>'], ['f'], ['&']], token ≠ [] := by
    decide
  exact ⟨full, (usesEachToken_iff full).mpr (.inr (by decide))⟩

/-- `ls > f -l`: the last word is no argument of the command. -/
theorem not_usesEachToken_word : ¬ UsesEachToken ["ls".toList, ['>'], ['f'], "-l".toList] :=
  not_usesEachToken (by decide) (by decide) (by decide)

end Lsnp.Lab.Noted
