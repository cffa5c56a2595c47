import Lsnp.Lab2.Session

namespace Lsnp.Lab2

open Lsnp.Interaction Lsnp.Unix

/-- What a process has to do with a pipe: nothing, or it has made the pipe and not forked yet, or
it is on the left or on the right of it. -/
inductive Side where
  | outside
  | maker
  | left
  | right
  deriving DecidableEq

def Lacks (file : File) (own : Local) : Prop := ¬ own.table.Holds file

def Apart (pipe : Nat) (own : Local) : Prop := Lacks (.pipeRead pipe) own ∧ Lacks (.pipeWrite pipe) own

/-- What is demanded on each side of this pipe. -/
def sides (pipe : Nat) : Roles Call Call.Reply (List Text) Local Made Side where
  asks
    | .outside, _, own => Apart pipe own
    | .maker, asked, _ => asked ≠ .own .pipe ∧ ∀ argv, asked ≠ .exec argv
    | .left, asked, own => asked ≠ .own .pipe ∧ asked ≠ .fork ∧
        ∀ argv, asked = .exec argv → Lacks (.pipeRead pipe) own
    | .right, asked, own => asked ≠ .own .pipe ∧ asked ≠ .fork ∧
        ∀ argv, asked = .exec argv → Lacks (.pipeWrite pipe) own
  after
    | .outside, made, .own .pipe, some _ => if made.pipes = pipe then .maker else .outside
    | .maker, _, .fork, .parent _ => .right
    | side, _, _, _ => side
  forked
    | .maker => .left
    | side => side

/-- A command on one side of a pipe has the other end not open, and nobody else has it but the
process on the other side: the one that it has forked, or that has forked it. -/
structure Sealed (pipe : Nat) (world : World) : Prop where
  reader : ∀ (index : Nat) (command : Member), world.processes[index]? = some command → ∀ argv,
    command.doing = .turned argv → command.own.table.Holds (.pipeRead pipe) →
    Lacks (.pipeWrite pipe) command.own ∧
    ∃ writer : Nat, ∀ (place : Nat) (other : Member), world.processes[place]? = some other →
      other.doing.isEnded = false → other.own.table.Holds (.pipeWrite pipe) →
      place = writer ∧ other.parent = index
  writer : ∀ (index : Nat) (command : Member), world.processes[index]? = some command → ∀ argv,
    command.doing = .turned argv → command.own.table.Holds (.pipeWrite pipe) →
    Lacks (.pipeRead pipe) command.own ∧
    ∀ (place : Nat) (other : Member), world.processes[place]? = some other →
      other.doing.isEnded = false → other.own.table.Holds (.pipeRead pipe) → place = command.parent

variable {pipe : Nat} {own after : Local} {made changed : Made} {file : File} {fails : Prop}

theorem Lacks.set {opened : File} (lacks : Lacks file own) (other : file ≠ opened) (fd : Fd) :
    Lacks file (own.set fd opened) := fun held =>
  held.of_set.elim other lacks

theorem Lacks.drop (lacks : Lacks file own) (fd : Fd) : Lacks file (own.drop fd) := fun held =>
  lacks held.of_close

/-- No call but `pipe` opens an end of a pipe that a process does not have. -/
theorem Lacks.serve {asked : Call} {reply : asked.Reply} (lacks : Lacks file own)
    (served : serve fails own made asked reply after changed) (other : asked ≠ .pipe)
    (ends : ∀ number path, file ≠ .regular number path .output) : Lacks file after := by
  cases asked with
  | fault => exact reply.elim
  | pipe => exact (other rfl).elim
  | signal signo disposition =>
    obtain ⟨-, rfl⟩ := served
    exact lacks
  | openFile path =>
    cases path with
    | none =>
      obtain ⟨-, rfl, -⟩ := served
      exact lacks
    | some path =>
      rcases served with ⟨-, -, rfl, -⟩ | ⟨-, rfl, -⟩
      · exact lacks
      · exact lacks.set (ends _ _) _
  | dup2 fd standard =>
    rcases served with ⟨-, ⟨-, -, rfl⟩ | ⟨opened, found, -, rfl⟩⟩
    · exact lacks
    · obtain ⟨number, -, here⟩ := Option.bind_eq_some_iff.mp found
      refine lacks.set ?_ standard
      rintro rfl
      exact lacks ⟨number, here⟩
  | close fd =>
    obtain ⟨-, rfl⟩ := served
    cases fd with
    | none => exact lacks
    | some fd => exact lacks.drop fd
  | perror | printf | fprintf | uname | getenv | chdir | getcwd =>
    obtain ⟨rfl, -⟩ := served
    exact lacks

theorem Apart.serve {asked : Call} {reply : asked.Reply} (apart : Apart pipe own)
    (served : serve fails own made asked reply after changed) (other : asked ≠ .pipe) :
    Apart pipe after :=
  ⟨apart.1.serve served other (fun _ _ same => by cases same),
    apart.2.serve served other (fun _ _ same => by cases same)⟩

theorem Apart.addPipe (apart : Apart pipe own) {number : Nat} (other : number ≠ pipe) :
    Apart pipe (own.addPipe number) :=
  ⟨(apart.1.set (fun same => other (by cases same; rfl)) _).set (fun same => by cases same) _,
    (apart.2.set (fun same => by cases same) _).set (fun same => other (by cases same; rfl)) _⟩

theorem addPipe_drop_read (apart : Apart pipe own) :
    Lacks (.pipeRead pipe) ((own.addPipe pipe).drop (own.pipeEnds pipe).1) := by
  rintro ⟨fd, held⟩
  simp only [Local.drop, FdTable.file_close, Function.update_apply] at held
  split at held
  · cases held
  · rename_i readEnd
    simp only [Local.addPipe, Local.set, FdTable.file_set, Function.update_apply,
      if_neg readEnd] at held
    split at held
    · cases held
    · exact apart.1 ⟨fd, held⟩

theorem addPipe_drop_write (apart : Apart pipe own) :
    Lacks (.pipeWrite pipe) ((own.addPipe pipe).drop (own.pipeEnds pipe).2) := by
  rintro ⟨fd, held⟩
  simp only [Local.drop, FdTable.file_close, Function.update_apply] at held
  split at held
  · cases held
  · rename_i writeEnd
    simp only [Local.addPipe, Local.set, FdTable.file_set, Function.update_apply,
      if_neg writeEnd] at held
    split at held
    · cases held
    · exact apart.2 ⟨fd, held⟩

private theorem outside_plays {code : Prog α} (departs : Departs ofSide code) (apart : Apart pipe own) :
    (platform True).Plays (sides pipe) (fun _ _ _ => False) code .outside own := by
  refine Platform.plays_of_uses (Apart pipe) (fun _ => False) departs.1 departs.2 ?_
    (fun forks => (forks : False).elim) (fun _ _ _ apart => apart) (fun _ _ never => never.elim) ?_ apart
  · intro shared asked answer used
    cases asked with
    | own asked => cases asked <;> first | rfl | exact (used : False).elim
    | _ => rfl
  · intro own shared asked reply after changed used apart served
    refine apart.serve served ?_
    rintro rfl
    exact used

private theorem left_plays {code : Prog α} (departs : Departs ofSide code)
    (lacks : Lacks (.pipeRead pipe) own) :
    (platform True).Plays (sides pipe) (fun _ _ _ => False) code .left own := by
  refine Platform.plays_of_uses (Lacks (.pipeRead pipe)) (fun _ => False) departs.1 departs.2
    (fun _ _ _ _ => rfl) (fun forks => (forks : False).elim) ?_ (fun _ _ never => never.elim) ?_ lacks
  · rintro asked own used lacks
    refine ⟨?_, ?_, fun _ _ => lacks⟩ <;> rintro rfl <;> exact used
  · intro own shared asked reply after changed used lacks served
    refine lacks.serve served ?_ fun _ _ same => by cases same
    rintro rfl
    exact used

private theorem right_plays {code : Prog α} (departs : Departs ofSide code)
    (lacks : Lacks (.pipeWrite pipe) own) :
    (platform True).Plays (sides pipe) (fun _ _ _ => False) code .right own := by
  refine Platform.plays_of_uses (Lacks (.pipeWrite pipe)) (fun _ => False) departs.1 departs.2
    (fun _ _ _ _ => rfl) (fun forks => (forks : False).elim) ?_ (fun _ _ never => never.elim) ?_ lacks
  · rintro asked own used lacks
    refine ⟨?_, ?_, fun _ _ => lacks⟩ <;> rintro rfl <;> exact used
  · intro own shared asked reply after changed used lacks served
    refine lacks.serve served ?_ fun _ _ same => by cases same
    rintro rfl
    exact used

private theorem runPipe_plays (args : List (Option Text)) (slot : Nat) (apart : Apart pipe own) :
    (platform True).Plays (sides pipe) (fun _ _ _ => False) (runPipe args slot : Prog α) .outside
      own := by
  refine ⟨apart, fun made reply after changed served => ?_⟩
  cases reply with
  | none =>
    obtain ⟨-, -, rfl, -⟩ | ⟨never, -⟩ := served
    · exact outside_plays (departs_perror (fun _ => trivial) trivial _) apart
    · cases never
  | some ends =>
    obtain ⟨-, never, -⟩ | ⟨both, rfl, -⟩ := served
    · cases never
    obtain rfl := Option.some.inj both
    by_cases same : made.pipes = pipe
    · subst same
      have maker : (sides made.pipes).after .outside made (.own .pipe)
          (some (own.pipeEnds made.pipes)) = .maker := if_pos rfl
      rw [maker]
      have calls : ∀ asked, asked ≠ Ask.own .pipe → (∀ argv : List Text, asked ≠ .exec argv) →
          (sides made.pipes).asks .maker asked (own.addPipe made.pipes) := fun _ own exec => ⟨own, exec⟩
      refine ⟨calls _ nofun nofun, ?_, fun _ pid => ?_, fun _ _ => ?_⟩
      · have departs := runLeft_departs (α := α) args (own.pipeEnds made.pipes).1
          (own.pipeEnds made.pipes).2
        refine ⟨⟨nofun, nofun, nofun⟩, ?_⟩
        rintro _ reply _ _ ⟨-, rfl⟩
        exact left_plays ⟨departs.1.2 reply, departs.2 reply⟩ (addPipe_drop_read apart)
      · have departs := runRight_departs (α := α) args slot (own.pipeEnds made.pipes).1
          (own.pipeEnds made.pipes).2 pid
        refine ⟨⟨nofun, nofun, nofun⟩, ?_⟩
        rintro _ reply _ _ ⟨-, rfl⟩
        exact right_plays ⟨departs.1.2 reply, departs.2 reply⟩ (addPipe_drop_write apart)
      · exact ⟨calls _ nofun nofun, fun _ _ _ _ _ => calls _ nofun nofun⟩
    · have outside : (sides pipe).after .outside made (.own .pipe)
          (some (own.pipeEnds made.pipes)) = .outside := if_neg same
      rw [outside]
      have apart := apart.addPipe same
      refine ⟨apart, outside_plays (runLeft_departs _ _ _) apart,
        fun _ pid => outside_plays (runRight_departs _ _ _ _ _) apart,
        fun _ _ => outside_plays (departs_perror (fun _ => trivial) trivial _) apart⟩

private theorem runChild_plays (args : List (Option Text)) (apart : Apart pipe own) :
    (platform True).Plays (sides pipe) (fun _ _ _ => False) (runChild args : Prog α) .outside
      own := by
  refine ⟨apart, ?_⟩
  rintro _ _ after _ ⟨-, rfl⟩
  change (platform True).Plays _ _ (operate args) Side.outside _
  unfold operate
  split
  · exact outside_plays (departs_fault trivial) apart
  · exact outside_plays (runCommand_departs args) apart
  · exact runPipe_plays _ _ apart
  · exact outside_plays (runRedirection_departs _ _) apart

/-- Who is on which side: nobody before the pipe is made, the maker alone before its `fork`, and
then one process on each side at most, the right one having forked the left one. -/
structure Arranged (pipe : Nat) (world : World) (cast : Nat → Side) : Prop where
  unmade : world.shared.pipes ≤ pipe → ∀ place, cast place = .outside
  maker : ∀ place other, cast place = .maker → cast other ≠ .outside → other = place
  left : ∀ place other, cast place = .left → cast other = .left → place = other
  right : ∀ place other, cast place = .right → cast other = .right → place = other
  parent : ∀ (place : Nat) (process : Member), world.processes[place]? = some process →
    cast place = .left → cast process.parent = .right
  beyond : ∀ place, world.processes.length ≤ place → cast place = .outside

variable {world later : World} {cast : Nat → Side}

theorem Arranged.same (arranged : Arranged pipe world cast)
    (more : world.shared.pipes ≤ later.shared.pipes)
    (grown : world.processes.length ≤ later.processes.length)
    (parents : ∀ (place : Nat) (process : Member), later.processes[place]? = some process →
      cast place = .left → ∃ before : Member, world.processes[place]? = some before ∧
        before.parent = process.parent) : Arranged pipe later cast := by
  refine ⟨fun unmade => arranged.unmade (more.trans unmade), arranged.maker, arranged.left,
    arranged.right, fun place process found left => ?_,
    fun place past => arranged.beyond place (grown.trans past)⟩
  obtain ⟨before, found, same⟩ := parents place process found left
  rw [← same]
  exact arranged.parent place before found left

theorem serve_pipes {asked : Call} {reply : asked.Reply}
    (served : serve fails own made asked reply after changed) : made.pipes ≤ changed.pipes := by
  cases asked with
  | fault => exact reply.elim
  | pipe =>
    rcases served with ⟨-, -, -, rfl⟩ | ⟨-, -, rfl⟩
    · exact Nat.le_refl _
    · exact Nat.le_succ _
  | openFile path =>
    cases path with
    | none =>
      obtain ⟨-, -, rfl⟩ := served
      exact Nat.le_refl _
    | some path =>
      rcases served with ⟨-, -, -, rfl⟩ | ⟨-, -, rfl⟩ <;> exact Nat.le_refl _
  | signal | dup2 | close =>
    obtain ⟨rfl, -⟩ := served
    exact Nat.le_refl _
  | perror | printf | fprintf | uname | getenv | chdir | getcwd =>
    obtain ⟨-, rfl⟩ := served
    exact Nat.le_refl _

/-- The sides behind the `fork` of the maker. -/
private def divided (index last place : Nat) : Side :=
  if place = index then .right else if place = last then .left else .outside

private theorem divided_cases (index last place : Nat) :
    divided index last place = .right ∧ place = index ∨
      divided index last place = .left ∧ place = last ∨
      divided index last place = .outside ∧ place ≠ index ∧ place ≠ last := by
  unfold divided
  split
  · rename_i same
    exact .inl ⟨rfl, same⟩
  · rename_i other
    split
    · rename_i same
      exact .inr (.inl ⟨rfl, same⟩)
    · rename_i another
      exact .inr (.inr ⟨rfl, other, another⟩)

/-- The process that is new is on the left, and its parent on the right. -/
private theorem Arranged.divide {index last : Nat} (made : pipe < world.shared.pipes)
    (inside : index < last) (length : world.processes.length = last + 1)
    (parent : ∀ process : Member, world.processes[last]? = some process → process.parent = index) :
    Arranged pipe world (divided index last) := by
  refine ⟨fun unmade => (Nat.not_lt.mpr unmade made).elim, ?_, ?_, ?_, ?_, ?_⟩
  · intro place other maker
    rcases divided_cases index last place with ⟨same, -⟩ | ⟨same, -⟩ | ⟨same, -⟩ <;>
      rw [same] at maker <;> cases maker
  · intro place other one two
    rcases divided_cases index last place with ⟨same, -⟩ | ⟨-, rfl⟩ | ⟨same, -⟩
    · rw [same] at one
      cases one
    · rcases divided_cases index place other with ⟨same, -⟩ | ⟨-, rfl⟩ | ⟨same, -⟩
      · rw [same] at two
        cases two
      · rfl
      · rw [same] at two
        cases two
    · rw [same] at one
      cases one
  · intro place other one two
    rcases divided_cases index last place with ⟨-, rfl⟩ | ⟨same, -⟩ | ⟨same, -⟩
    · rcases divided_cases place last other with ⟨-, rfl⟩ | ⟨same, -⟩ | ⟨same, -⟩
      · rfl
      all_goals
        rw [same] at two
        cases two
    all_goals
      rw [same] at one
      cases one
  · intro place process found left
    rcases divided_cases index last place with ⟨same, -⟩ | ⟨-, rfl⟩ | ⟨same, -⟩
    · rw [same] at left
      cases left
    · rw [parent process found, divided, if_pos rfl]
    · rw [same] at left
      cases left
  · intro place past
    rw [divided, if_neg (by omega), if_neg (by omega)]

private theorem Arranged.make {index : Nat} (made : pipe < world.shared.pipes)
    (inside : index < world.processes.length) :
    Arranged pipe world fun place => if place = index then .maker else .outside := by
  have only : ∀ place, (if place = index then Side.maker else .outside) ≠ .outside → place = index :=
    fun place other => by_contra fun apart => other (if_neg apart)
  have sole : ∀ place side, (if place = index then Side.maker else .outside) = side →
      side = .maker ∨ side = .outside := by
    rintro place _ rfl
    split
    · exact .inl rfl
    · exact .inr rfl
  refine ⟨fun unmade => (Nat.not_lt.mpr unmade made).elim, ?_, ?_, ?_, ?_, ?_⟩
  · intro place other maker inside
    rw [only other inside, only place (by rw [maker]; exact Side.noConfusion)]
  · intro place other left
    rcases sole place _ left with never | never <;> cases never
  · intro place other right
    rcases sole place _ right with never | never <;> cases never
  · intro place process found left
    rcases sole place _ left with never | never <;> cases never
  · exact fun place past => if_neg (by omega)

private theorem recast_same {index : Nat} {side : Side} {forked : Option Side}
    (beyond : cast world.processes.length = .outside) (same : side = cast index)
    (few : forked = none ∨ forked = some .outside) :
    recast cast index side world.processes.length forked = cast := by
  funext place
  rw [recast, same]
  split
  · rename_i own
    rw [own]
  · split
    · rename_i last
      rcases few with rfl | rfl
      · rfl
      · rw [last, beyond]
        rfl
    · rfl

private theorem recast_fork {index last : Nat}
    (alone : ∀ place, place ≠ index → cast place = .outside) :
    recast cast index .right last (some .left) = divided index last := by
  funext place
  rw [recast, divided]
  split
  · rfl
  · rename_i other
    rw [alone place other]
    rfl

private theorem recast_pipe {index last : Nat} (outside : ∀ place, cast place = .outside) :
    recast cast index .maker last none = fun place => if place = index then .maker else .outside := by
  funext place
  rw [recast, outside place]
  split
  · rfl
  · split <;> rfl

private theorem sides_keep {side : Side} {asked : Ask Call (List Text)}
    (other : side ≠ .maker) (another : asked ≠ .own .pipe)
    (answer : asked.Answer Call.Reply) : (sides pipe).after side made asked answer = side := by
  cases side with
  | outside =>
    cases asked with
    | own asked => cases asked <;> first | rfl | exact (another rfl).elim
    | _ => rfl
  | maker => exact (other rfl).elim
  | left | right => rfl

private theorem outside_of_pipe {side : Side} (demand : (sides pipe).asks side (.own .pipe) own) :
    side = .outside := by
  cases side with
  | outside => rfl
  | maker | left | right => exact (demand.1 rfl).elim

private theorem forked_outside {side : Side} (demand : (sides pipe).asks side .fork own)
    (other : side ≠ .maker) : (sides pipe).forked side = .outside := by
  cases side with
  | outside => rfl
  | maker => exact (other rfl).elim
  | left | right => exact (demand.2.1 rfl).elim

theorem Arranged.step {results : Side → Unit → Local → Prop} (arranged : Arranged pipe world cast)
    (plays : world.Cast (platform True) (sides pipe) results cast)
    (step : world.Step (platform True) later) :
    ∃ next, later.Cast (platform True) (sides pipe) results next ∧ Arranged pipe later next := by
  obtain ⟨index, process, changed, new, side, found, step, grown, places, turns, next⟩ :=
    Crowd.Step.cast step plays
  have inside := (List.getElem?_eq_some_iff.mp found).1
  -- Where no side changes, a process that is new is outside.
  have unchanged : side = cast index → world.shared.pipes ≤ later.shared.pipes →
      (new = [] ∨ (sides pipe).forked (cast index) = .outside) →
      ∃ next, later.Cast (platform True) (sides pipe) results next ∧ Arranged pipe later next := by
    intro same more few
    have alike : recast cast index side world.processes.length
        (new.head?.map fun _ => (sides pipe).forked (cast index)) = cast := by
      apply recast_same (arranged.beyond _ (Nat.le_refl _)) same
      rcases few with rfl | outside
      · exact .inl rfl
      · rw [outside]
        cases new with
        | nil => exact .inl rfl
        | cons one more => exact .inr rfl
    rw [alike] at next
    refine ⟨cast, next, arranged.same more (by omega) fun place other member left => ?_⟩
    rcases places place other member with ⟨rfl, rfl⟩ | ⟨-, before⟩ | ⟨rfl, -⟩
    · exact ⟨process, found, step.parent.symm⟩
    · exact ⟨other, before, rfl⟩
    · rw [arranged.beyond _ (Nat.le_refl _)] at left
      cases left
  rcases turns with ⟨same, shared, none⟩ | ⟨asked, answer, asks, answered, turned⟩
  · exact unchanged same (by rw [shared]) (.inl none)
  have demand := (plays index process found).asks asks
  by_cases maker : cast index = .maker
  · have alone : ∀ place, place ≠ index → cast place = .outside := fun place other =>
      by_contra fun inside => other (arranged.maker index place maker inside)
    rw [maker] at turned unchanged demand next
    cases asked with
    | fork =>
      cases answer with
      | failed => exact unchanged turned (by rw [answered.1]) (.inl answered.2)
      | child => exact answered.elim
      | parent pid =>
        obtain ⟨shared, code, rfl⟩ := answered
        obtain rfl : side = .right := turned
        refine ⟨_, next, ?_⟩
        change Arranged pipe later (recast cast index .right world.processes.length (some .left))
        rw [recast_fork alone]
        refine .divide ?_ inside grown fun one found => ?_
        · rw [shared]
          refine Nat.not_le.mp fun unmade => ?_
          rw [arranged.unmade unmade index] at maker
          cases maker
        · rcases places _ one found with ⟨same, -⟩ | ⟨-, before⟩ | ⟨-, same⟩
          · exact (Nat.ne_of_lt inside same.symm).elim
          · exact (Nat.lt_irrefl _ (List.getElem?_eq_some_iff.mp before).1).elim
          · cases same
            rfl
    | own asked => exact unchanged turned (serve_pipes answered.1) (.inl answered.2)
    | exec image => exact (demand.2 _ rfl).elim
    | wait pid => exact unchanged turned (by rw [answered.1]) (.inl answered.2.1)
    | exit code => exact answer.elim
  · by_cases opens : asked = .own .pipe
    · subst opens
      have outside := outside_of_pipe demand
      rw [outside] at turned unchanged next
      cases answer with
      | none =>
        obtain ⟨⟨-, -, -, same⟩ | ⟨never, -⟩, none⟩ := answered
        · exact unchanged turned (by rw [same]) (.inl none)
        · cases never
      | some ends =>
        obtain ⟨⟨-, never, -⟩ | ⟨-, -, shared⟩, rfl⟩ := answered
        · cases never
        have more : later.shared.pipes = world.shared.pipes + 1 := by rw [shared]
        by_cases number : world.shared.pipes = pipe
        · obtain rfl : side = .maker := turned.trans (if_pos number)
          refine ⟨_, next, ?_⟩
          change Arranged pipe later (recast cast index .maker world.processes.length none)
          rw [recast_pipe (arranged.unmade (Nat.le_of_eq number))]
          exact .make (by omega) (by omega)
        · have stays : side = .outside := turned.trans (if_neg number)
          exact unchanged stays (by omega) (.inl rfl)
    · rw [sides_keep maker opens] at turned
      cases asked with
      | fork =>
        refine unchanged turned ?_ (.inr (forked_outside demand maker))
        cases answer with
        | failed | parent pid => rw [answered.1]
        | child => exact answered.elim
      | own asked => exact unchanged turned (serve_pipes answered.1) (.inl answered.2)
      | exec image => exact unchanged turned (by rw [answered.1]) (.inl answered.2)
      | wait pid => exact unchanged turned (by rw [answered.1]) (.inl answered.2.1)
      | exit code => exact answer.elim

variable {stdin : List Char}

theorem session_arranged (session : Session stdin own world) (apart : Apart pipe own) :
    ∃ cast, Arranged pipe world cast ∧ world.Cast (platform True) (sides pipe)
      (fun side _ after => side = .outside ∧ after.table = own.table) cast := by
  refine Machine.Reachable.invariant (fun world => ∃ cast, Arranged pipe world cast ∧
    world.Cast (platform True) (sides pipe)
      (fun side _ after => side = .outside ∧ after.table = own.table) cast) ?_ ?_ session
  · rintro start ⟨pid, parent, only⟩
    refine ⟨fun _ => .outside, ⟨fun _ _ => rfl, nofun, nofun, nofun, nofun, fun _ _ => rfl⟩, ?_⟩
    intro index process found
    rw [only] at found
    obtain rfl : index = 0 := by simpa using (List.getElem?_eq_some_iff.mp found).1
    obtain rfl : _ = process := by simpa using found
    have same : ∀ {other : Local}, other.table = own.table → Apart pipe other := by
      rintro ⟨_, _⟩ rfl
      exact apart
    have admits : Admits (sides pipe) .outside own.table := by
      refine ⟨fun asked other asks => same asks.2.1, fun made asked answer used _ => ?_⟩
      cases asked with
      | own asked => cases asked <;> first | rfl | exact (used : False).elim
      | fork => cases answer <;> rfl
      | _ => rfl
    refine main_plays stdin admits fun _ _ args _ => ?_
    refine executes_of_child admits (fun made reply => ?_) fun args other table =>
      runChild_plays args (same table)
    cases reply <;> rfl
  · rintro world later ⟨cast, arranged, plays⟩ step
    obtain ⟨next, plays, arranged⟩ := arranged.step plays step
    exact ⟨next, arranged, plays⟩

section

variable {table : FdTable File} {process : Member} {side : Side}

private theorem not_outside (apart : ∀ {other : Local}, other.table = table → Apart pipe other)
    (plays : process.Plays (platform True) (sides pipe)
      (fun side _ after => side = .outside ∧ after.table = table) side)
    (lives : process.doing.isEnded = false) (holds : ¬ Apart pipe process.own) : side ≠ .outside := by
  rintro rfl
  refine holds ?_
  cases here : process.doing with
  | running code =>
    cases code with
    | done value =>
      rw [Process.Plays, here] at plays
      exact apart plays.2
    | ask asked next => exact plays.asks ⟨next, here⟩
  | turned argv =>
    rw [Process.Plays, here] at plays
    exact plays
  | ended image =>
    rw [here] at lives
    cases lives

end

/-- In every session a pipe is sealed on both sides once there are commands on them, whatever
fails: the reader gets to the end of its input when the writer ends, and the writer is told when
the reader has gone. -/
theorem session_sealed (session : Session stdin own world)
    (apart : ¬ own.table.Holds (.pipeRead pipe) ∧ ¬ own.table.Holds (.pipeWrite pipe)) :
    Sealed pipe world := by
  obtain ⟨cast, arranged, plays⟩ := session_arranged session apart
  have same : ∀ {other : Local}, other.table = own.table → Apart pipe other := by
    rintro ⟨_, _⟩ rfl
    exact apart
  have notMaker : ∀ {place index : Nat}, cast index ≠ .outside → cast index ≠ .maker →
      cast place ≠ .maker := by
    intro place index inside other maker
    rw [← arranged.maker place index maker inside] at maker
    exact other maker
  refine ⟨fun index command found argv turned holds => ?_, fun index command found argv turned holds => ?_⟩
  · have demand := plays index command found
    rw [Process.Plays, turned] at demand
    have right : cast index = .right ∧ Lacks (.pipeWrite pipe) command.own := by
      cases side : cast index <;> rw [side] at demand
      · exact (demand.1 holds).elim
      · exact (demand.2 _ rfl).elim
      · exact (demand.2.2 _ rfl holds).elim
      · exact ⟨rfl, demand.2.2 _ rfl⟩
    have alone : ∃ writer, ∀ place, cast place = .left → place = writer := by
      by_cases some : ∃ place, cast place = .left
      · obtain ⟨writer, left⟩ := some
        exact ⟨writer, fun place other => arranged.left place writer other left⟩
      · exact ⟨0, fun place left => (some ⟨place, left⟩).elim⟩
    obtain ⟨writer, alone⟩ := alone
    refine ⟨right.2, writer, fun place other member lives held => ?_⟩
    have inside := not_outside same (plays place other member) lives fun apart => apart.2 held
    have left : cast place = .left := by
      cases side : cast place
      · exact (inside side).elim
      · exact (notMaker (by rw [right.1]; exact Side.noConfusion)
          (by rw [right.1]; exact Side.noConfusion) side).elim
      · rfl
      · obtain rfl := arranged.right place index side right.1
        rw [found] at member
        cases member
        exact (right.2 held).elim
    exact ⟨alone place left, arranged.right _ _ (arranged.parent place other member left) right.1⟩
  · have demand := plays index command found
    rw [Process.Plays, turned] at demand
    have left : cast index = .left ∧ Lacks (.pipeRead pipe) command.own := by
      cases side : cast index <;> rw [side] at demand
      · exact (demand.2 holds).elim
      · exact (demand.2 _ rfl).elim
      · exact ⟨rfl, demand.2.2 _ rfl⟩
      · exact (demand.2.2 _ rfl holds).elim
    refine ⟨left.2, fun place other member lives held => ?_⟩
    have inside := not_outside same (plays place other member) lives fun apart => apart.1 held
    have right : cast place = .right := by
      cases side : cast place
      · exact (inside side).elim
      · exact (notMaker (by rw [left.1]; exact Side.noConfusion)
          (by rw [left.1]; exact Side.noConfusion) side).elim
      · obtain rfl := arranged.left place index side left.1
        rw [found] at member
        cases member
        exact (left.2 held).elim
      · rfl
    exact arranged.right _ _ right (arranged.parent index command found left.1)

private theorem session_wc (own : Local) : ∃ world, Session "ls | wc\n".toList own world ∧
    ∃ process ∈ world.processes, process.doing = .turned ["wc".toList] := by
  let args := argsOf ["ls".toList, "|".toList, "wc".toList]
  have parsed : commandParse "ls | wc\n".toList = some args := by decide
  have cut : isBackground args = some (args, true) := by decide
  refine session_turned (mayAsk_main rfl (by decide) parsed rfl cut ?_)
  rw [runChild]
  refine mayAsk_own () ⟨rfl, rfl⟩ ?_
  change (platform True).MayAsk _ (runPipe (args.set 1 none) 2) _ _
  refine mayAsk_own (some (own.started.pipeEnds 0)) (.inr ⟨rfl, rfl, rfl⟩) (.parent fun pid => ?_)
  exact mayAsk_own () ⟨rfl, rfl⟩ (mayAsk_own false ⟨rfl, .inl ⟨.inl trivial, rfl, rfl⟩⟩ .here)

theorem session_sealed_wc : ∃ world, Session "ls | wc\n".toList ⟨⟨[]⟩, fun _ => .default⟩ world ∧
    (∃ process ∈ world.processes, process.doing = .turned ["wc".toList]) ∧ Sealed 0 world := by
  have closed : ∀ file : File, ¬ (⟨[]⟩ : FdTable File).Holds file := by
    rintro file ⟨fd, held⟩
    cases held
  obtain ⟨world, session, turned⟩ := session_wc ⟨⟨[]⟩, fun _ => .default⟩
  exact ⟨world, session, turned, session_sealed session ⟨closed _, closed _⟩⟩

end Lsnp.Lab2
