import Lsnp.Lab.Accounts
import Lsnp.Lab.Statuses

namespace Lsnp.Lab

open Lsnp.Interaction Lsnp.Unix

/-- No token of the line has a `&` at its end, but for the operator `&&`. -/
def Foregrounded (tokens : List Text) : Prop :=
  ∀ token ∈ tokens, token.getLast? = some '&' → token = "&&".toList

instance (tokens : List Text) : Decidable (Foregrounded tokens) :=
  inferInstanceAs (Decidable (∀ token ∈ tokens, token.getLast? = some '&' → token = "&&".toList))

/-- This process was forked with this number, and the shell has not waited for its pid since. -/
def Unawaited (log : List Event) (serial : Nat) (child : Fork) : Prop :=
  ∃ front back, log = front ++ .forked child :: back ∧ (forks front).length = serial ∧
    ∀ status, .waited child.pid status ∉ back

/-- The processes from number `first` on that have not been waited for have these pids. -/
def Owed (first : Nat) (pids : List Pid) (shell : Shell) : Prop :=
  ∀ serial child, first ≤ serial → Unawaited shell.log serial child → child.pid ∈ pids

/-- The children are among the processes that the shell has not waited for. -/
def Remembered (world : World) : Prop :=
  ∀ child ∈ world.children, Unawaited world.shell.log child.serial child.fork

/-- From number `first` on every process that was forked has ended and was reaped, once. -/
structure AllReaped (first : Nat) (world : World) : Prop where
  none : ∀ child ∈ world.children, child.serial < first
  once : ∀ serial, first ≤ serial → serial < (forks world.shell.log).length →
    (∃ termination, (serial, termination) ∈ world.died) ∧
      (world.reaped.map Prod.fst).count serial = 1

variable {theft : Bool} {shell : Shell} {first serial : Nat} {pids : List Pid} {child : Fork}
  {log events : List Event}

theorem unawaited_forked : Unawaited (log ++ [.forked child]) (forks log).length child :=
  ⟨log, [], rfl, rfl, fun _ => List.not_mem_nil⟩

theorem Unawaited.extend (unawaited : Unawaited log serial child)
    (other : ∀ status, .waited child.pid status ∉ events) :
    Unawaited (log ++ events) serial child := by
  obtain ⟨front, back, rfl, same, never⟩ := unawaited
  refine ⟨front, back ++ events, by simp, same, fun status member => ?_⟩
  exact (List.mem_append.mp member).elim (never status) (other status)

/-- What is not waited for at the end was forked at the end, or is not waited for before. -/
theorem Unawaited.cases (unawaited : Unawaited (log ++ events) serial child) :
    child ∈ forks events ∨
      Unawaited log serial child ∧ ∀ status, .waited child.pid status ∉ events := by
  obtain ⟨front, back, same, number, never⟩ := unawaited
  have late : ∀ {before : List Event}, events = before ++ .forked child :: back →
      child ∈ forks events := by
    rintro before rfl
    rw [forks_append]
    exact List.mem_append_right _ (List.mem_cons_self ..)
  rcases List.append_eq_append_iff.mp same with ⟨before, -, split⟩ | ⟨before, split, rest⟩
  · exact .inl (late split)
  · cases before with
    | nil => exact .inl (@late [] rest.symm)
    | cons event before =>
      obtain ⟨rfl, rfl⟩ := List.cons.inj rest
      refine .inr ⟨⟨front, before, split, number, fun status member => ?_⟩, fun status member => ?_⟩
      · exact never status (List.mem_append_left _ member)
      · exact never status (List.mem_append_right _ member)

theorem owed_kept : KeptIdle (kernel theft) (Owed first pids) := by
  intro state asked reply after other owed served serial child later unawaited
  obtain ⟨events, grown, unforked, -⟩ := serve_unnoticed served other
  rw [grown] at unawaited
  rcases unawaited.cases with new | ⟨old, -⟩
  · rw [unforked] at new
    cases new
  · exact owed serial child later old

theorem Owed.fork (owed : Owed first pids shell) (child : Fork) :
    Owed first (pids ++ [child.pid]) (shell.note (.forked child)) := by
  intro serial other later unawaited
  have split : Unawaited (shell.log ++ [.forked child]) serial other := unawaited
  rcases split.cases with new | ⟨old, -⟩
  · obtain rfl := List.mem_singleton.mp new
    simp
  · exact List.mem_append_left _ (owed serial other later old)

theorem Owed.waitpid {pid : Pid} (owed : Owed first (pid :: pids) shell) (status : Option Nat) :
    Owed first pids (shell.note (.waited pid status)) := by
  intro serial child later unawaited
  have split : Unawaited (shell.log ++ [.waited pid status]) serial child := unawaited
  rcases split.cases with new | ⟨old, never⟩
  · cases new
  · rcases List.mem_cons.mp (owed serial child later old) with same | rest
    · exact (never status (by rw [same]; exact List.mem_cons_self ..)).elim
    · exact rest

theorem owed_account : Account theft (Owed first) :=
  ⟨fun _ => owed_kept, fun child owed => owed.fork child, fun status owed => owed.waitpid status⟩

section

variable {mayReap : World → Process → Prop} {world after : World}

theorem serve_remembered {asked : Call} {reply : asked.Reply} (orderly : Orderly world)
    (remembered : Remembered world) (served : world.serve asked reply after) : Remembered after := by
  by_cases other : ¬ asked.isFork ∧ ¬ asked.isWaitpid
  · obtain ⟨events, grown, -, unwaited⟩ := serve_unnoticed (serve_shell served) other
    obtain ⟨shell, -, rfl⟩ := serve_idle served other
    intro child member
    rw [grown]
    exact (remembered child member).extend fun _ => waited_notMem unwaited
  · cases asked <;> first | exact (other ⟨id, id⟩).elim | skip
    case fork =>
      rcases served with ⟨-, rfl⟩ | ⟨pid, -, -, rfl⟩
      · exact remembered
      · intro child member
        rcases List.mem_append.mp member with old | new
        · exact (remembered child old).extend fun status listed => by cases List.mem_singleton.mp listed
        · obtain rfl := List.mem_singleton.mp new
          exact unawaited_forked
    case waitpid pid =>
      have extended : ∀ {child : Process} {status : Option Nat}, child ∈ world.children →
          child.fork.pid ≠ pid →
          Unawaited (world.shell.note (.waited pid status)).log child.serial child.fork := by
        intro child status member apart
        refine (remembered child member).extend fun _ listed => apart ?_
        exact (Event.waited.inj (List.mem_singleton.mp listed)).1
      rcases served with ⟨missing, -, rfl⟩ | ⟨front, back, child, termination, here, rfl, -, -, rfl⟩
      · exact fun child member => extended member (missing child member)
      · intro other member
        have distinct := orderly.distinct
        rw [here, List.map_append, List.map_cons, List.nodup_middle, List.nodup_cons] at distinct
        have among : other ∈ world.children := by
          rw [here]
          rcases List.mem_append.mp member with before | behind <;> simp [*]
        refine extended among fun same => distinct.1 ?_
        rw [← same, ← List.map_append]
        exact List.mem_map_of_mem member

theorem moves_remembered (remembered : Remembered world) (moved : Moves mayReap world after) :
    Remembered after := by
  unfold Remembered
  rw [moves_shell moved]
  rcases moves_cases moved with ⟨front, back, child, altered, here, there, serial, fork, -⟩ |
    ⟨front, back, child, here, there, -⟩ | unchanged
  · intro other member
    rw [there, List.mem_append, List.mem_cons] at member
    rcases member with before | rfl | behind
    · exact remembered other (by simp [here, before])
    · rw [serial, fork]
      exact remembered child (by simp [here])
    · exact remembered other (by simp [here, behind])
  · intro other member
    rw [there, List.mem_append] at member
    exact remembered other (by rw [here]; rcases member with before | behind <;> simp [*])
  · rw [unchanged]
    exact remembered

theorem reach_remembered {α : Type} {start final : Prog α × World}
    (reach : (system mayReap).Reach start final) (orderly : Orderly start.2)
    (remembered : Remembered start.2) : Orderly final.2 ∧ Remembered final.2 :=
  system_invariant (fun world => Orderly world ∧ Remembered world)
    (fun held served => ⟨serve_orderly held.1 served, serve_remembered held.1 held.2 served⟩)
    (fun held moved => ⟨moves_orderly held.1 moved, moves_remembered held.2 moved⟩) reach
    ⟨orderly, remembered⟩

end

private theorem parse_foreground {draft : Draft} {slot : Nat} {tokens : List Text}
    (fore : Foregrounded tokens) (last : ∀ word, draft.last = some word → word.getLast? ≠ some '&') :
    ∀ stage ∈ parse draft slot tokens, stage.ending ≠ .background := by
  have added : ∀ redirection {stages : List Stage},
      (∀ stage ∈ stages, stage.ending ≠ .background) →
        ∀ stage ∈ addRedirection redirection stages, stage.ending ≠ .background := by
    intro redirection stages held
    cases stages with
    | nil => exact held
    | cons stage stages => simpa [addRedirection] using held
  have rest : ∀ {token : Text} {tokens : List Text}, Foregrounded (token :: tokens) → Foregrounded tokens :=
    fun held other member => held other (List.mem_cons_of_mem _ member)
  fun_induction parse draft slot tokens with
  | case1 draft slot =>
    simp only [List.mem_singleton, forall_eq, Draft.finish]
    cases found : draft.last with
    | none => simp [Draft.close]
    | some word =>
      cases final : word.getLast? with
      | none => simp [Draft.close, final]
      | some character =>
        have other : character ≠ '&' := fun same => last word found (final.trans (congrArg some same))
        simp [Draft.close, final, other]
  | case2 draft slot token tokens plain ih =>
    refine ih (rest fore) fun word same final => ?_
    obtain rfl : token = word := Option.some.inj same
    rw [fore token (List.mem_cons_self ..) final] at plain
    exact absurd plain (by decide)
  | case3 draft slot token tokens found ih =>
    simpa [Draft.close] using ih (rest fore) fun _ none => (Option.some_ne_none _ none.symm).elim
  | case4 draft slot token tokens found ih =>
    simpa [Draft.close] using ih (rest fore) fun _ none => (Option.some_ne_none _ none.symm).elim
  | case5 draft slot token tokens found =>
    have same : token = "&".toList := by
      unfold operator at found
      split_ifs at found
      assumption
    have other := fore token (List.mem_cons_self ..) (by rw [same]; rfl)
    rw [same] at other
    exact absurd other (by decide)
  | case6 => simp [Draft.close]
  | case7 draft slot token target tokens found ih =>
    exact added _ (ih (rest (rest fore)) fun _ none => (Option.some_ne_none _ none.symm).elim)
  | case8 => simp [Draft.close]
  | case9 draft slot token target tokens found ih =>
    exact added _ (ih (rest (rest fore)) fun _ none => (Option.some_ne_none _ none.symm).elim)

/-- The numbers of the processes that are not waited for are those of processes. -/
theorem Unawaited.lt (unawaited : Unawaited log serial child) : serial < (forks log).length := by
  obtain ⟨front, back, rfl, rfl, -⟩ := unawaited
  simp [forks]

/-- Whatever has been typed before, and whatever is still running: once some foreground lines are
through, each process that they have forked has ended and has been reaped. -/
theorem foreground_reaped {before lines : List (List Text)} {entry world : World}
    (came : (system everything).Reach (session before, World.initial) (.done (), entry))
    (fore : ∀ tokens ∈ lines, Foregrounded tokens)
    (reach : (system everything).Reach (session lines, entry) (.done (), world)) :
    AllReaped (forks entry.shell.log).length world := by
  have remembered : Remembered World.initial := fun child member => by cases member
  obtain ⟨orderly, remembered⟩ := reach_remembered came initial_orderly remembered
  obtain ⟨-, remembered⟩ := reach_remembered reach orderly remembered
  have reckoned : Reckoned entry := reach_reckoned came initial_reckoned
  obtain ⟨-, dead, forked⟩ := reach_reckoned reach reckoned
  have owed : Owed (forks entry.shell.log).length [] world.shell := by
    have drops : ∀ tokens ∈ lines, Drops (Owed (forks entry.shell.log).length) (stages tokens) :=
      fun tokens member => .inl (parse_foreground (fore tokens member) fun _ none =>
        (Option.some_ne_none _ none.symm).elim)
    refine (owed_account.session drops fun serial child later unawaited => ?_).reach (kernel_quiet true)
      (reach_shell reach)
    exact absurd unawaited.lt (Nat.not_lt.mpr later)
  have none : ∀ child ∈ world.children, child.serial < (forks entry.shell.log).length := by
    intro child member
    refine Nat.lt_of_not_le fun later => ?_
    exact List.not_mem_nil (owed child.serial child.fork later (remembered child member))
  refine ⟨none, fun serial later made => ?_⟩
  have listed := forked.symm.subset (List.mem_range.mpr made)
  have reaped : serial ∈ world.reaped.map Prod.fst := by
    rcases List.mem_append.mp listed with present | reaped
    · obtain ⟨child, member, rfl⟩ := List.mem_map.mp present
      exact (Nat.not_lt.mpr later (none child member)).elim
    · exact reaped
  have once := (List.nodup_append.mp (forked.nodup_iff.mpr List.nodup_range)).2.1
  refine ⟨?_, List.count_eq_one_of_mem once reaped⟩
  obtain ⟨⟨_, termination⟩, entry, rfl⟩ :=
    List.mem_map.mp (dead.symm.subset (List.mem_append_right _ reaped))
  exact ⟨termination, entry⟩

/-- `a &` and then `b | c`. -/
theorem foreground_reaped_pipeline : ∃ entry world : World, entry.children.length = 1 ∧
    (forks world.shell.log).length = 3 ∧ AllReaped (forks entry.shell.log).length world := by
  have permits : (system everything).settled.Permits (World.answer obliging (.exited 0)) :=
    answer_permits (.inl rfl)
  have came : (system everything).Reach (session [["a".toList, "&".toList]], World.initial) (.done (), _) :=
    .of_settled (Service.reach_of_eval permits rfl)
  have fore : ∀ tokens ∈ [["b".toList, "|".toList, "c".toList]], Foregrounded tokens := by decide
  have reaped := foreground_reaped came fore (.of_settled (Service.reach_of_eval permits rfl))
  exact ⟨_, _, by decide, by decide, reaped⟩

end Lsnp.Lab
