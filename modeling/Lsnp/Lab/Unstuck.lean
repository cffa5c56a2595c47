import Lsnp.Lab.Calls
import Lsnp.Lab.Zombies

namespace Lsnp.Lab

open Lsnp.Interaction Lsnp.Unix

variable {mayReap : World → Process → Prop} {world after : World}

/-- Nothing is left to be done beside the shell. -/
structure AtRest (world : World) : Prop where
  idle : world.handler = .idle
  quiet : world.pending = false
  none : world.zombies = []

/-- The handler has not called `abort`. -/
def Unharmed (world : World) : Prop := world.handler ≠ .aborted

theorem serve_handler {asked : Call} {reply : asked.Reply} (served : world.serve asked reply after) :
    after.handler = world.handler := by
  rcases serve_cases served with ⟨_, _, _, -, rfl⟩ | ⟨_, _, _, _, -, -, -, rfl⟩ | ⟨_, -, rfl⟩ <;> rfl

theorem moves_unharmed (unharmed : Unharmed world) (moved : Moves mayReap world after) :
    Unharmed after := by
  cases moved with
  | rearrange | die => exact unharmed
  | deliver | collect | running | childless | resume => exact Handler.noConfusion

theorem exists_zombie (some : world.zombies ≠ []) :
    ∃ front child back, world.children = front ++ child :: back ∧ child.ended ≠ none := by
  obtain ⟨child, member⟩ := List.exists_mem_of_ne_nil _ some
  obtain ⟨present, ended⟩ := List.mem_filter.mp member
  obtain ⟨front, back, here⟩ := List.append_of_mem present
  exact ⟨front, child, back, here, Option.isSome_iff_ne_none.mp ended⟩

/-- The loop of the handler comes to its end when it has reaped all zombies. -/
theorem looping_ends (looping : world.handler = .looping) :
    ∃ after, Relation.ReflTransGen (Moves everything) world after ∧ after.handler = .idle ∧
      after.pending = world.pending ∧ after.zombies = [] := by
  induction size : world.children.length using Nat.strongRecOn generalizing world with
  | ind total ih =>
    by_cases some : world.zombies = []
    · by_cases empty : world.children = []
      · exact ⟨_, .head (.childless looping empty) (.single (.resume rfl)), rfl, rfl, some⟩
      · exact ⟨_, .head (.running looping empty some) (.single (.resume rfl)), rfl, rfl, some⟩
    · obtain ⟨front, child, back, here, ended⟩ := exists_zombie some
      have fewer : (front ++ back).length < total := by
        rw [← size, here]
        simp
      have next : ((world.reap (front ++ back) child .handler).handle
          (.child child.fork.pid)).handler = .looping := rfl
      obtain ⟨after, moved, idle, same, none⟩ := ih _ fewer next rfl
      exact ⟨after, .head (.collect looping here ended trivial) moved, idle, same, none⟩

theorem comes_idle (unharmed : Unharmed world) :
    ∃ after, Relation.ReflTransGen (Moves everything) world after ∧ after.handler = .idle := by
  cases at' : world.handler with
  | idle => exact ⟨world, .refl, at'⟩
  | looping =>
    obtain ⟨after, moved, idle, -⟩ := looping_ends at'
    exact ⟨after, moved, idle⟩
  | returning => exact ⟨_, .single (.resume at'), rfl⟩
  | aborted => exact (unharmed at').elim

private theorem serves_other (asked : Call) (sound : asked ≠ .fault)
    (other : ¬ asked.isFork ∧ ¬ asked.isWaitpid) : ∃ reply after, world.serve asked reply after := by
  have served : ∃ reply shell, Unix.serve true world.shell asked reply shell := by
    cases asked with
    | fgets | fflush | printf | fprintf | perror | close => exact ⟨(), _, rfl⟩
    | dup | pipe | openFile => exact ⟨none, _, .inl ⟨rfl, rfl⟩⟩
    | dup2 => exact ⟨false, _, .inl ⟨rfl, rfl⟩⟩
    | restore saved standard =>
      cases found : world.shell.table.file saved with
      | none => exact ⟨(), _, .inl ⟨found, rfl⟩⟩
      | some file => exact ⟨(), _, .inr ⟨file, found, rfl⟩⟩
    | uname | getenv => exact ⟨none, _, rfl⟩
    | chdir => exact ⟨false, _, rfl⟩
    | getcwd => exact ⟨(false, []), _, rfl⟩
    | indeterminate => exact ⟨0, _, rfl⟩
    | fork => exact (other.1 trivial).elim
    | waitpid => exact (other.2 trivial).elim
    | fault => exact (sound rfl).elim
  obtain ⟨reply, shell, served⟩ := served
  refine ⟨reply, world.advance shell, ?_⟩
  cases asked <;> first
    | exact (other.1 trivial).elim
    | exact (other.2 trivial).elim
    | exact ⟨shell, served, rfl⟩

private theorem serves_waitpid (idle : world.handler = .idle) (pid : Pid) :
    ∃ between reply after, Relation.ReflTransGen (Moves everything) world between ∧
      between.handler = .idle ∧ between.serve (.waitpid pid) reply after := by
  by_cases missing : ∀ child ∈ world.children, child.fork.pid ≠ pid
  · exact ⟨world, none, _, .refl, idle, .inl ⟨missing, rfl, rfl⟩⟩
  · push Not at missing
    obtain ⟨child, member, same⟩ := missing
    obtain ⟨front, back, here⟩ := List.append_of_mem member
    cases ended : child.ended with
    | some termination =>
      exact ⟨world, _, _, .refl, idle, .inr ⟨front, back, child, termination, here, same, ended, rfl, rfl⟩⟩
    | none =>
      exact ⟨_, some (Termination.exited 0).encode, _, .single (.die (.exited 0) here ended), idle,
        .inr ⟨front, back, _, .exited 0, rfl, same, rfl, rfl, rfl⟩⟩

theorem system_answers : (system everything).Answers Unharmed (· ≠ .fault) := by
  intro world asked unharmed sound
  obtain ⟨first, moved, idle⟩ := comes_idle unharmed
  have kept : ∀ {between after : World} {reply : asked.Reply}, between.handler = .idle →
      between.serve asked reply after → Unharmed after := fun idle served =>
    ((serve_handler served).trans idle).trans_ne Handler.noConfusion
  by_cases other : ¬ asked.isFork ∧ ¬ asked.isWaitpid
  · obtain ⟨reply, after, served⟩ : ∃ reply after, first.serve asked reply after :=
      serves_other asked sound other
    exact ⟨first, reply, after, moved, ⟨idle, served⟩, kept idle served⟩
  · cases asked <;> first | exact (other ⟨id, id⟩).elim | skip
    case fork arglist argv =>
      have failed : first.serve (.fork arglist argv) none first := .inl ⟨rfl, rfl⟩
      exact ⟨first, none, first, moved, ⟨idle, failed⟩, kept idle failed⟩
    case waitpid pid =>
      obtain ⟨between, reply, after, dying, idle, served⟩ := serves_waitpid idle pid
      exact ⟨between, reply, after, moved.trans dying, ⟨idle, served⟩, kept idle served⟩

theorem session_unfaulting {lines : List (List Text)}
    (full : ∀ tokens ∈ lines, ∀ token ∈ tokens, token ≠ []) :
    (session lines).uses (· ≠ .fault) := by
  induction lines with
  | nil => exact Program.uses_pure _ _
  | cons tokens lines ih =>
    refine Program.uses_bind (runLine_faultless (full tokens (List.mem_cons_self ..))) fun _ => ?_
    exact ih fun other member => full other (List.mem_cons_of_mem _ member)

theorem comes_to_rest (unharmed : Unharmed world) (reckoned : Reckoned world) :
    ∃ after, Relation.ReflTransGen (Moves everything) world after ∧ AtRest after := by
  have resting : ∀ {world : World}, world.handler = .idle → Reckoned world →
      ∃ after, Relation.ReflTransGen (Moves everything) world after ∧ AtRest after := by
    intro world idle reckoned
    cases pending : world.pending with
    | true =>
      have next : World.handler { world with pending := false, handler := .looping } = .looping := rfl
      obtain ⟨after, moved, returned, same, none⟩ := looping_ends next
      exact ⟨after, .head (.deliver pending idle) moved, returned, same, none⟩
    | false =>
      refine ⟨world, .refl, idle, pending, by_contra fun some => ?_⟩
      rcases reckoned.watched some with watched | watched
      · rw [pending] at watched
        cases watched
      · rw [idle] at watched
        cases watched
  obtain ⟨first, moved, idle⟩ := comes_idle unharmed
  have run : (system everything).Reach ((pure () : Prog Unit), world) (pure (), first) := .moves moved
  have kept : Reckoned first := reach_reckoned run reckoned
  obtain ⟨after, rest, atRest⟩ := resting idle kept
  exact ⟨after, moved.trans rest, atRest⟩

/-- Whatever has happened, the shell can come to the end of its lines, and then all that has ended
has been reaped. -/
theorem never_stuck {lines : List (List Text)} {program : Prog Unit}
    (full : ∀ tokens ∈ lines, ∀ token ∈ tokens, token ≠ [])
    (reach : (system everything).Reach (session lines, World.initial) (program, world)) :
    ∃ final, (system everything).Reach (program, world) (.done (), final) ∧ AtRest final := by
  have unharmed : Unharmed world :=
    system_invariant Unharmed (fun held served => (serve_handler served).trans_ne held) moves_unharmed
      reach Handler.noConfusion
  obtain ⟨⟨⟩, between, front, held⟩ := system_answers.finishes (reach.uses (session_unfaulting full)) unharmed
  have whole : (system everything).Reach (session lines, World.initial) (.done (), between) :=
    reach.trans front
  obtain ⟨final, moved, atRest⟩ := comes_to_rest held (reach_reckoned whole initial_reckoned)
  exact ⟨final, front.trans (Service.Reach.moves moved), atRest⟩

/-- `a` and `b &`, before anything has been done. -/
theorem never_stuck_lines : ∃ final, (system everything).Reach
    (session [["a".toList], ["b".toList, "&".toList]], World.initial) (.done (), final) ∧ AtRest final :=
  never_stuck (by decide) (.refl _)

end Lsnp.Lab
