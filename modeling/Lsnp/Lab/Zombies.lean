import Lsnp.Lab.Scenario

namespace Lsnp.Lab

open Lsnp.Interaction Lsnp.Unix

/-- The world can be in this state while the shell works through some lines. -/
def Arises (world : World) : Prop :=
  ∃ lines program, (system everything).Reach (session lines, World.initial) (program, world)

/-- Every zombie will be looked for; the dead are the zombies and the reaped; the
processes ever forked are the children and the reaped. -/
structure Reckoned (world : World) : Prop where
  watched : world.zombies ≠ [] → world.pending = true ∨ world.handler = .looping
  dead : (world.died.map Prod.fst).Perm
    (world.zombies.map Process.serial ++ world.reaped.map Prod.fst)
  forked : (world.children.map Process.serial ++ world.reaped.map Prod.fst).Perm
    (List.range (forks world.shell.log).length)

variable {mayReap : World → Process → Prop} {world after : World}

theorem initial_reckoned : Reckoned .initial :=
  ⟨fun some => (some rfl).elim, .refl _, .refl _⟩

private theorem zombies_split {front back : List Process} {child : Process}
    (here : world.children = front ++ child :: back) :
    world.zombies = front.filter (·.ended.isSome) ++
      ((if child.ended.isSome then [child] else []) ++ back.filter (·.ended.isSome)) := by
  rw [World.zombies, here, List.filter_append, List.filter_cons]
  split <;> rfl

theorem serve_reckoned {asked : Call} {reply : asked.Reply} (reckoned : Reckoned world)
    (served : world.serve asked reply after) : Reckoned after := by
  obtain ⟨watched, dead, forked⟩ := reckoned
  rcases serve_cases served with ⟨pid, arglist, argv, -, rfl⟩ |
    ⟨front, back, child, shell, here, zombie, same, rfl⟩ | ⟨shell, same, rfl⟩
  · have still : (world.spawn pid arglist argv).zombies = world.zombies := by
      simp [World.zombies, World.spawn]
    refine ⟨by rwa [still], by rwa [still], ?_⟩
    simp only [World.spawn, Shell.forks_note_forked, List.length_append, List.length_singleton,
      List.range_succ, List.map_append, List.map_cons, List.map_nil]
    rw [List.perm_iff_count] at forked ⊢
    intro serial
    have counted := forked serial
    simp only [List.count_append] at counted ⊢
    omega
  · have split := zombies_split here
    rw [if_pos (Option.isSome_iff_ne_none.mpr zombie)] at split
    rw [split] at watched dead
    have rest : ((world.reap (front ++ back) child .shell).advance shell).zombies =
        front.filter (·.ended.isSome) ++ back.filter (·.ended.isSome) := by
      simp [World.zombies, World.reap, World.advance]
    refine ⟨fun _ => watched (by simp), ?_, ?_⟩
    · rw [rest]
      refine dead.trans ?_
      rw [List.perm_iff_count]
      intro serial
      simp [World.reap, World.advance, List.count_append, List.count_cons]
      omega
    · refine List.Perm.trans ?_ (by simpa [World.reap, World.advance, same] using forked)
      rw [here, List.perm_iff_count]
      intro serial
      simp [World.reap, World.advance, List.count_append, List.count_cons]
      omega
  · exact ⟨watched, dead, by simpa [World.advance, same] using forked⟩

theorem moves_reckoned (reckoned : Reckoned world) (moved : Moves mayReap world after) :
    Reckoned after := by
  obtain ⟨watched, dead, forked⟩ := reckoned
  cases moved with
  | @rearrange front back child table here running narrower =>
    have still : World.zombies { world with
        children := front ++ { child with table := table } :: back } = world.zombies := by
      simp [World.zombies, here, running]
    refine ⟨by rwa [still], by rwa [still], ?_⟩
    simpa [here] using forked
  | @die front back child termination here running =>
    have split := zombies_split here
    refine ⟨fun _ => .inl rfl, ?_, by simpa [here] using forked⟩
    rw [split, List.perm_iff_count] at dead
    rw [List.perm_iff_count]
    intro serial
    have counted := dead serial
    simp [World.zombies, running, List.count_append, List.count_cons] at counted ⊢
    omega
  | deliver pending idle => exact ⟨fun _ => .inr rfl, dead, forked⟩
  | @collect front back child looping here zombie allowed =>
    have split := zombies_split here
    rw [if_pos (Option.isSome_iff_ne_none.mpr zombie)] at split
    refine ⟨fun _ => .inr rfl, ?_, ?_⟩
    · rw [split, List.perm_iff_count] at dead
      rw [List.perm_iff_count]
      intro serial
      have counted := dead serial
      simp [World.zombies, World.reap, World.handle, List.count_append, List.count_cons]
        at counted ⊢
      omega
    · rw [here, List.perm_iff_count] at forked
      rw [List.perm_iff_count]
      intro serial
      have counted := forked serial
      simp [World.reap, World.handle, List.count_append, List.count_cons] at counted ⊢
      omega
  | running looping some none => exact ⟨fun found => (found none).elim, dead, forked⟩
  | childless looping none =>
    exact ⟨fun found => (found (by simp [World.zombies, World.handle, none])).elim, dead, forked⟩
  | resume returning =>
    refine ⟨fun found => .inl ((watched found).resolve_right fun looping => ?_), dead, forked⟩
    rw [returning] at looping
    cases looping

theorem reach_reckoned {α : Type} {start final : Prog α × World}
    (reach : (system mayReap).Reach start final) (initially : Reckoned start.2) :
    Reckoned final.2 :=
  system_invariant Reckoned serve_reckoned moves_reckoned reach initially

/-- A zombie exists only while `SIGCHLD` is pending or the handler is in its loop; when
neither is the case, each of the dead has been reaped exactly once. -/
structure NoneForgotten (world : World) : Prop where
  watched : (∃ child ∈ world.children, child.ended ≠ none) →
    world.pending = true ∨ world.handler = .looping
  settled : world.pending = false → world.handler = .idle →
    (∀ child ∈ world.children, child.ended = none) ∧
    ∀ serial termination, (serial, termination) ∈ world.died →
      (∃ reaper, (serial, reaper) ∈ world.reaped) ∧
        (world.reaped.map Prod.fst).count serial = 1

/-- Whatever the order of all steps, no zombie is forgotten. -/
theorem no_zombie_forgotten {world : World} (arises : Arises world) : NoneForgotten world := by
  obtain ⟨lines, program, reach⟩ := arises
  obtain ⟨watched, dead, forked⟩ := reach_reckoned reach initial_reckoned
  have found : (∃ child ∈ world.children, child.ended ≠ none) → world.zombies ≠ [] := by
    rintro ⟨child, member, ended⟩ none
    have zombie : child ∈ world.zombies :=
      List.mem_filter.mpr ⟨member, Option.isSome_iff_ne_none.mpr ended⟩
    simp [none] at zombie
  refine ⟨fun some => watched (found some), fun settled idle => ?_⟩
  have none : world.zombies = [] := by
    by_contra some
    simpa [settled, idle] using watched some
  refine ⟨fun child member => by_contra fun ended => found ⟨child, member, ended⟩ none, ?_⟩
  intro serial termination member
  -- no serial number occurs twice among the reaped
  have once := (List.nodup_append.mp (forked.nodup_iff.mpr List.nodup_range)).2.1
  have reaped : serial ∈ world.reaped.map Prod.fst := by
    have listed := dead.subset (List.mem_map_of_mem (f := Prod.fst) member)
    simpa [none] using listed
  refine ⟨?_, List.count_eq_one_of_mem once reaped⟩
  obtain ⟨⟨_, reaper⟩, entry, rfl⟩ := List.mem_map.mp reaped
  exact ⟨reaper, entry⟩

/-- Of the two processes of a pipeline the shell gets the first one, and the handler the second. -/
private def sharing (ending : Termination) : Policy where
  name count := count + 1
  ended
    | _, 1 => some ending
    | _, _ => none
  refuses _ _ := false

theorem no_zombie_forgotten_line : ∃ world : World,
    world.died = [(0, .exited 0), (1, .exited 0)] ∧ world.reaped = [(0, .shell), (1, .handler)] ∧
      NoneForgotten world := by
  have permits : (system everything).settled.Permits (World.answer (sharing (.exited 0)) (.exited 0)) :=
    answer_permits (.inl rfl)
  have reach : (system everything).Reach (session [["a".toList, "|".toList, "b".toList]], World.initial)
      (.done (), _) := .of_settled (Service.reach_of_eval permits rfl)
  exact ⟨_, by decide, by decide, no_zombie_forgotten ⟨_, _, reach⟩⟩

end Lsnp.Lab
