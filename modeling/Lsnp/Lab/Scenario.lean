import Lsnp.Interaction.Settled
import Lsnp.Lab.System
import Lsnp.Unix.Obliging
import Mathlib.Data.List.TakeWhile

namespace Lsnp.Lab

open Lsnp.Interaction Lsnp.Unix

namespace World

/-- The child with a pid, and the children in front of it and behind it. -/
def split (world : World) (pid : Pid) : Option (List Process × Process × List Process) :=
  match world.children.dropWhile (·.fork.pid != pid) with
  | [] => none
  | child :: back => some (world.children.takeWhile (·.fork.pid != pid), child, back)

def bury (world : World) (rest : List Process) (child : Process) (termination : Termination) :
    World :=
  { world with
    children := rest
    pending := true
    died := world.died ++ [(child.serial, termination)]
    reaped := world.reaped ++ [(child.serial, .shell)] }

/-- A child dies and the handler reaps it, before the shell can. -/
def lose (world : World) (rest : List Process) (child : Process) (termination : Termination) :
    World :=
  { world with
    children := rest
    pending := false
    handler := .idle
    reported := world.reported ++ deadText child.fork.pid
    died := world.died ++ [(child.serial, termination)]
    reaped := world.reaped ++ [(child.serial, .handler)] }

def calm (world : World) : Bool :=
  world.handler = .idle && world.children.all (·.ended.isNone)

/-- A call is answered by the policy; where it has no termination for a process that is
waited for, the process ends like this and the handler takes it. -/
def answer (policy : Policy) (lost : Termination) (world : World) :
    (asked : Call) → Option (asked.Reply × World)
  | .fork arglist argv =>
    let pid := policy.name (forks world.shell.log).length
    if world.calm ∧ ∀ child ∈ world.children, child.fork.pid ≠ pid then
      some (some pid, world.spawn pid arglist argv)
    else none
  | .waitpid pid =>
    if world.calm then
      match world.split pid with
      | none => some (none, world.advance (world.shell.note (.waited pid none)))
      | some (front, child, back) =>
        match policy.ended world.shell pid with
        | some termination => some (some termination.encode,
            (world.bury (front ++ back) child termination).advance
              (world.shell.note (.waited pid (some termination.encode))))
        | none =>
          if ∀ other ∈ front ++ back, other.fork.pid ≠ pid then
            some (none, (world.lose (front ++ back) child lost).advance
              (world.shell.note (.waited pid none)))
          else none
    else none
  | asked =>
    if world.calm then
      (policy.answer world.shell asked).map fun replied => (replied.1, world.advance replied.2)
    else none

end World

variable {world : World} {mayReap : World → Process → Prop}

theorem split_eq_none {pid : Pid} : world.split pid = none ↔
    ∀ child ∈ world.children, child.fork.pid ≠ pid := by
  unfold World.split
  cases dropped : world.children.dropWhile (·.fork.pid != pid) with
  | nil => simpa [List.dropWhile_eq_nil_iff] using dropped
  | cons child back =>
    have head := List.head?_dropWhile_not (·.fork.pid != pid) world.children
    have member : child ∈ world.children :=
      (List.dropWhile_sublist (·.fork.pid != pid)).subset (by rw [dropped]; simp)
    simp only [dropped, List.head?_cons] at head
    simp only [reduceCtorEq, false_iff, not_forall, not_not]
    exact ⟨child, member, by simpa using head⟩

theorem split_eq_some {pid : Pid} {front back : List Process} {child : Process}
    (found : world.split pid = some (front, child, back)) :
    world.children = front ++ child :: back ∧ child.fork.pid = pid := by
  unfold World.split at found
  cases dropped : world.children.dropWhile (·.fork.pid != pid) with
  | nil => simp [dropped] at found
  | cons other others =>
    rw [dropped] at found
    obtain ⟨rfl, rfl, rfl⟩ := by simpa using found
    have head := List.head?_dropWhile_not (·.fork.pid != pid) world.children
    simp only [dropped, List.head?_cons] at head
    refine ⟨?_, by simpa using head⟩
    rw [← dropped, List.takeWhile_append_dropWhile]

theorem calm_iff : world.calm = true ↔
    world.handler = .idle ∧ ∀ child ∈ world.children, child.ended = none := by
  simp [World.calm]

theorem moves_lose {front back : List Process} {child : Process} (calm : world.calm = true)
    (here : world.children = front ++ child :: back) (termination : Termination) :
    Relation.ReflTransGen (Moves everything) world (world.lose (front ++ back) child termination) := by
  obtain ⟨idle, running⟩ := calm_iff.mp calm
  have others : ∀ other ∈ front ++ back, other.ended = none := fun other member =>
    running other (by rw [here]; rcases List.mem_append.mp member with front | back <;> simp [*])
  have quiet : (front ++ back).filter (·.ended.isSome) = [] :=
    List.filter_eq_nil_iff.mpr fun other member => by simp [others other member]
  refine .head (.die termination here (running child (by simp [here]))) ?_
  refine .head (.deliver rfl idle) ?_
  refine .head (.collect rfl rfl nofun trivial) ?_
  by_cases empty : front ++ back = []
  · refine .head (.childless rfl empty) (.head (.resume rfl) ?_)
    simp only [World.lose, World.reap, World.handle, childHandler, List.append_nil]
    exact .refl
  · refine .head (.running rfl empty quiet) (.head (.resume rfl) ?_)
    simp only [World.lose, World.reap, World.handle, childHandler, List.append_nil]
    exact .refl

theorem answer_permits {policy : Policy} {lost : Termination}
    (thefts : mayReap = everything ∨ ∀ shell pid, policy.ended shell pid ≠ none) :
    (system mayReap).settled.Permits (World.answer policy lost) := by
  intro world asked reply after answered
  have direct : world.calm = true → world.serve asked reply after →
      (system mayReap).settled.serve world asked reply after := fun calm served =>
    ⟨world, after, .refl, ⟨(calm_iff.mp calm).1, served⟩, .refl⟩
  have shell : ∀ (replied : Option (asked.Reply × Shell)),
      replied = policy.answer world.shell asked → world.calm = true →
      replied.map (fun replied => (replied.1, world.advance replied.2)) = some (reply, after) →
      ∃ shell, Unix.serve true world.shell asked reply shell ∧ after = world.advance shell := by
    rintro replied same calm mapped
    obtain ⟨⟨reply, shell⟩, rfl, same'⟩ := Option.map_eq_some_iff.mp mapped
    obtain ⟨rfl, rfl⟩ := Prod.mk.inj same'
    exact ⟨shell, policy.permits _ _ _ _ same.symm, rfl⟩
  cases asked
  case fork arglist argv =>
    simp only [World.answer] at answered
    split at answered
    · next free =>
      obtain ⟨rfl, rfl⟩ := Prod.mk.inj (Option.some.inj answered)
      exact direct free.1 (.inr ⟨_, free.2, rfl, rfl⟩)
    · cases answered
  case waitpid pid =>
    simp only [World.answer] at answered
    split at answered
    · next calm =>
      split at answered
      · next missing =>
        obtain ⟨rfl, rfl⟩ := Prod.mk.inj (Option.some.inj answered)
        exact direct calm (.inl ⟨split_eq_none.mp missing, rfl, rfl⟩)
      · next front child back found =>
        obtain ⟨here, rfl⟩ := split_eq_some found
        have running := (calm_iff.mp calm).2 child (by simp [here])
        split at answered
        · next termination atEnd =>
          obtain ⟨rfl, rfl⟩ := Prod.mk.inj (Option.some.inj answered)
          refine ⟨_, _, .single (.die termination here running), ⟨(calm_iff.mp calm).1, ?_⟩, .refl⟩
          exact .inr ⟨front, back, _, termination, rfl, rfl, rfl, rfl, rfl⟩
        · next atEnd =>
          split at answered
          · next others =>
            obtain ⟨rfl, rfl⟩ := Prod.mk.inj (Option.some.inj answered)
            obtain rfl := thefts.resolve_right fun always => always _ _ atEnd
            exact ⟨_, _, moves_lose calm here lost, ⟨rfl, .inl ⟨others, rfl, rfl⟩⟩, .refl⟩
          · cases answered
    · cases answered
  all_goals
    simp only [World.answer] at answered
    split at answered
    · next calm => exact direct calm (shell _ rfl calm answered)
    · cases answered

/-- Every child ends, and is taken by the handler, before the shell waits for it. -/
def thieving : Policy := ⟨fun count => count + 1, fun _ _ => none, fun _ _ => false⟩

end Lsnp.Lab
