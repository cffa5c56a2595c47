import Lsnp.Lab.Leftover
import Lsnp.Lab.Unstuck

namespace Lsnp.Lab

open Lsnp.Interaction Lsnp.Unix

/-- Before each `waitpid` in the log the pid was forked more often than waited for. -/
def Matched (log : List Event) : Prop :=
  ∀ front pid status back, log = front ++ .waited pid status :: back →
    ((waits front).map Prod.fst).count pid < ((forks front).map Fork.pid).count pid

/-- The shell has only waited for processes that it had forked, and can still wait for these. -/
structure Owing (pids : List Pid) (shell : Shell) : Prop where
  matched : Matched shell.log
  room : ∀ pid, shell.waitedPids.count pid + pids.count pid ≤ shell.forkedPids.count pid

def pidOf (log : List Event) (serial : Nat) : Option Pid := ((forks log)[serial]?).map Fork.pid

/-- The pids of the processes that the shell or the handler has reaped, in order. -/
def World.reapedBy (world : World) (reaper : Reaper) : List Pid :=
  world.reaped.filterMap fun entry => if entry.2 = reaper then pidOf world.shell.log entry.1 else none

/-- The pids whose `waitpid` has returned a status, and those whose has failed. -/
def returnedPids (log : List Event) : List Pid := ((waits log).filter (·.2.isSome)).map Prod.fst

def failedPids (log : List Event) : List Pid := ((waits log).filter (·.2.isNone)).map Prod.fst

/-- What the handler prints are the pids of what it has reaped, what `waitpid` returns are those of
what the shell has; each process that was forked is still a child or was reaped by one of the two; and
for each `waitpid` that failed the handler has printed the pid. -/
structure Told (world : World) : Prop where
  reported : world.reported = (world.reapedBy .handler).flatMap deadText
  returned : returnedPids world.shell.log = world.reapedBy .shell
  each : world.shell.forkedPids.Perm ((world.children.map fun child => child.fork.pid) ++
    (world.reapedBy .shell ++ world.reapedBy .handler))
  failed : ∀ pid, (failedPids world.shell.log).count pid ≤ (world.reapedBy .handler).count pid

variable {theft : Bool} {shell : Shell} {log events : List Event} {pids : List Pid} {pid : Pid}

theorem Matched.of_append (matched : Matched (log ++ events)) : Matched log := by
  rintro front pid status back rfl
  exact matched front pid status (back ++ events) (by simp)

theorem Matched.extend (matched : Matched log) (none : waits events = []) : Matched (log ++ events) := by
  intro front pid status back same
  rcases List.append_eq_append_iff.mp same with ⟨before, -, split⟩ | ⟨before, split, rest⟩
  · have member : .waited pid status ∈ events := by simp [split]
    exact (waited_notMem none member).elim
  · cases before with
    | nil =>
      have member : .waited pid status ∈ events := by
        rw [← List.nil_append events, ← rest]
        exact List.mem_cons_self ..
      exact (waited_notMem none member).elim
    | cons event before =>
      obtain ⟨rfl, rfl⟩ := List.cons.inj rest
      exact matched front pid status before split

theorem Matched.waited {status : Option Nat} (matched : Matched log)
    (room : ((waits log).map Prod.fst).count pid < ((forks log).map Fork.pid).count pid) :
    Matched (log ++ [.waited pid status]) := by
  intro front other outcome back same
  rcases List.eq_nil_or_concat back with rfl | ⟨more, last, rfl⟩
  · obtain ⟨rfl, event⟩ := List.append_inj' same rfl
    obtain ⟨rfl, -⟩ := Event.waited.inj (List.cons.inj event).1
    exact room
  · have split : log ++ [.waited pid status] = (front ++ .waited other outcome :: more) ++ [last] := by
      simpa using same
    exact matched front other outcome more (List.append_inj' split rfl).1

theorem owing_account : Account theft Owing where
  idle pids := by
    intro state asked reply after other owing served
    obtain ⟨events, grown, unforked, unwaited⟩ := serve_unnoticed served other
    obtain ⟨matched, room⟩ := owing
    refine ⟨grown ▸ matched.extend unwaited, fun pid => ?_⟩
    simpa [Shell.waitedPids, Shell.forkedPids, grown, unforked, unwaited] using room pid
  fork child owing := by
    obtain ⟨matched, room⟩ := owing
    refine ⟨matched.extend rfl, fun pid => ?_⟩
    have enough := room pid
    simp only [Shell.waitedPids, Shell.forkedPids, Shell.waits_note_forked, Shell.forks_note_forked,
      List.map_append, List.count_append] at enough ⊢
    simp only [List.map_cons, List.map_nil]
    omega
  waitpid {pid} _ _ status owing := by
    obtain ⟨matched, room⟩ := owing
    refine ⟨matched.waited ?_, fun other => ?_⟩
    · have enough := room pid
      rw [List.count_cons_self] at enough
      exact Nat.lt_of_lt_of_le (Nat.lt_add_of_pos_right (Nat.succ_pos _)) enough
    · have enough := room other
      simp only [Shell.waitedPids, Shell.forkedPids, Shell.waits_note_waited, Shell.forks_note_waited,
        List.map_append, List.count_append, List.map_cons, List.map_nil] at enough ⊢
      simp only [List.count_cons, List.count_nil] at enough ⊢
      omega

theorem session_owing (lines : List (List Text)) :
    (kernel theft).Returns (fun _ after => Owing [] after) (session lines) .initial := by
  refine owing_account.session (fun _ _ => .inr fun _ _ owing => ⟨owing.matched, fun pid => ?_⟩) ?_
  · exact Nat.le_trans (Nat.le_add_right _ _) (owing.room pid)
  · refine ⟨fun front pid status back same => ?_, fun _ => Nat.le_refl 0⟩
    exact (List.append_ne_nil_of_right_ne_nil _ (List.cons_ne_nil _ _) same.symm).elim

theorem kernel_answers : (kernel true).Answers (fun _ => True) (· ≠ .fault) := by
  intro shell asked _ possible
  obtain ⟨reply, after, answered⟩ := obliging.total shell asked possible
  exact ⟨shell, reply, after, .refl, obliging.permits _ _ _ _ answered, trivial⟩

theorem session_matched {lines : List (List Text)} {program : Prog Unit}
    (full : ∀ tokens ∈ lines, ∀ token ∈ tokens, token ≠ [])
    (reach : (kernel true).Reach (session lines, .initial) (program, shell)) : Matched shell.log := by
  obtain ⟨⟨⟩, final, rest, -⟩ :=
    kernel_answers.finishes (reach.uses (session_unfaulting full)) (trivial : (fun _ => True) shell)
  have owing : Owing [] final := (session_owing lines).reach (kernel_quiet true) (reach.trans rest)
  obtain ⟨events, grown⟩ := (returns_extends program).reach (kernel_quiet true) rest
  have matched := owing.matched
  rw [grown] at matched
  exact matched.of_append

variable {mayReap : World → Process → Prop} {world after : World} {child : Process}

theorem pidOf_append {serial : Nat} (made : serial < (forks log).length) (events : List Event) :
    pidOf (log ++ events) serial = pidOf log serial := by
  rw [pidOf, forks_append, List.getElem?_append_left made, pidOf]

theorem Reckoned.made (reckoned : Reckoned world) {entry : Nat × Reaper} (member : entry ∈ world.reaped) :
    entry.1 < (forks world.shell.log).length := by
  refine List.mem_range.mp (reckoned.forked.subset (List.mem_append_right _ ?_))
  exact List.mem_map_of_mem member

theorem Reckoned.reapedBy_grow (reckoned : Reckoned world) (reaper : Reaper)
    (grown : after.shell.log = world.shell.log ++ events) (same : after.reaped = world.reaped) :
    after.reapedBy reaper = world.reapedBy reaper := by
  unfold World.reapedBy
  rw [same]
  refine List.filterMap_congr fun entry member => ?_
  rw [grown, pidOf_append (reckoned.made member)]

theorem Orderly.numberedPid (orderly : Orderly world) (member : child ∈ world.children) :
    pidOf world.shell.log child.serial = some child.fork.pid := by
  rw [pidOf, orderly.numbered child member]
  rfl

theorem Reckoned.reapedBy_reap (reckoned : Reckoned world) (orderly : Orderly world)
    (member : child ∈ world.children) {reaper : Reaper} (other : Reaper)
    (grown : after.shell.log = world.shell.log ++ events)
    (reaped : after.reaped = world.reaped ++ [(child.serial, reaper)]) :
    after.reapedBy other =
      world.reapedBy other ++ if reaper = other then [child.fork.pid] else [] := by
  have before : World.reapedBy { after with reaped := world.reaped } other = world.reapedBy other :=
    reckoned.reapedBy_grow other grown rfl
  have made : child.serial < (forks world.shell.log).length :=
    (List.getElem?_eq_some_iff.mp (orderly.numbered child member)).1
  have pid : pidOf after.shell.log child.serial = some child.fork.pid := by
    rw [grown, pidOf_append made, orderly.numberedPid member]
  rw [← before, World.reapedBy, reaped, List.filterMap_append]
  congr 1
  by_cases same : reaper = other
  · simp [same, pid]
  · simp [same]

private theorem pids_range (all : List Fork) :
    (List.range all.length).filterMap (fun serial => (all[serial]?).map Fork.pid) = all.map Fork.pid := by
  induction all using List.reverseRecOn with
  | nil => rfl
  | append_singleton all last ih =>
    have front : (List.range all.length).filterMap (fun serial => ((all ++ [last])[serial]?).map Fork.pid) =
        all.map Fork.pid := by
      rw [← ih]
      refine List.filterMap_congr fun serial member => ?_
      rw [List.getElem?_append_left (List.mem_range.mp member)]
    rw [List.length_append, List.length_singleton, List.range_succ, List.filterMap_append, front]
    simp

private theorem reapers_parted (pid : Nat → Option Pid) (reaped : List (Nat × Reaper)) :
    ((reaped.map Prod.fst).filterMap pid).Perm
      (reaped.filterMap (fun entry => if entry.2 = .shell then pid entry.1 else none) ++
        reaped.filterMap fun entry => if entry.2 = .handler then pid entry.1 else none) := by
  induction reaped with
  | nil => exact .refl _
  | cons entry reaped ih =>
    obtain ⟨serial, reaper⟩ := entry
    cases found : pid serial with
    | none => simpa [found] using ih
    | some one =>
      cases reaper with
      | shell => simpa [found] using ih
      | handler =>
        have moved := (ih.cons one).trans List.perm_middle.symm
        simpa [found] using moved

/-- Each process that was forked is a child, or has been reaped by the shell or by the handler. -/
theorem forked_each (reckoned : Reckoned world) (orderly : Orderly world) :
    world.shell.forkedPids.Perm ((world.children.map fun child => child.fork.pid) ++
      (world.reapedBy .shell ++ world.reapedBy .handler)) := by
  have all : (List.range (forks world.shell.log).length).filterMap (pidOf world.shell.log) =
      world.shell.forkedPids := pids_range _
  have children : (world.children.map Process.serial).filterMap (pidOf world.shell.log) =
      world.children.map fun child => child.fork.pid := by
    rw [List.filterMap_map, ← List.filterMap_eq_map]
    exact List.filterMap_congr fun child member => orderly.numberedPid member
  rw [← all, ← children]
  refine (reckoned.forked.symm.filterMap _).trans ?_
  rw [List.filterMap_append]
  exact (reapers_parted _ _).append_left _

/-- What holds at every moment, with the log as it is then. -/
structure Telling (world : World) : Prop where
  orderly : Orderly world
  reckoned : Reckoned world
  reported : world.reported = (world.reapedBy .handler).flatMap deadText
  returned : returnedPids world.shell.log = world.reapedBy .shell
  failed : ∀ pid, (failedPids world.shell.log).count pid ≤ (world.reapedBy .handler).count pid

@[simp] theorem returnedPids_append (log events : List Event) :
    returnedPids (log ++ events) = returnedPids log ++ returnedPids events := by
  simp [returnedPids]

@[simp] theorem failedPids_append (log events : List Event) :
    failedPids (log ++ events) = failedPids log ++ failedPids events := by
  simp [failedPids]

private theorem Telling.quiet (telling : Telling world) (orderly : Orderly after) (reckoned : Reckoned after)
    (grown : after.shell.log = world.shell.log ++ events) (none : waits events = [])
    (reported : after.reported = world.reported) (reaped : after.reaped = world.reaped) :
    Telling after := by
  have same := fun reaper => telling.reckoned.reapedBy_grow reaper grown reaped
  refine ⟨orderly, reckoned, ?_, ?_, fun pid => ?_⟩
  · rw [reported, same, telling.reported]
  · have unreturned : returnedPids events = [] := by simp [returnedPids, none]
    rw [grown, returnedPids_append, unreturned, List.append_nil, same, telling.returned]
  · have unfailed : failedPids events = [] := by simp [failedPids, none]
    rw [grown, failedPids_append, unfailed, List.append_nil, same]
    exact telling.failed pid

theorem count_waits (log : List Event) (pid : Pid) :
    ((waits log).map Prod.fst).count pid = (returnedPids log).count pid + (failedPids log).count pid := by
  have parted : ∀ waits : List (Pid × Option Nat), (waits.map Prod.fst).count pid =
      ((waits.filter (·.2.isSome)).map Prod.fst).count pid +
        ((waits.filter (·.2.isNone)).map Prod.fst).count pid := by
    intro waits
    induction waits with
    | nil => rfl
    | cons entry waits ih =>
      obtain ⟨other, status⟩ := entry
      cases status <;> simp [List.count_cons, ih] <;> omega
  exact parted _

/-- A `waitpid` that fails is for a process that the handler has reaped: the shell has not waited for
all that it has forked with this pid. -/
private theorem Telling.fails (telling : Telling world)
    (missing : ∀ child ∈ world.children, child.fork.pid ≠ pid)
    (orderly : Orderly (world.advance (world.shell.note (.waited pid none))))
    (reckoned : Reckoned (world.advance (world.shell.note (.waited pid none))))
    (matched : Matched (world.shell.note (.waited pid none)).log) :
    Telling (world.advance (world.shell.note (.waited pid none))) := by
  have same : ∀ reaper, (world.advance (world.shell.note (.waited pid none))).reapedBy reaper =
      world.reapedBy reaper := fun reaper => telling.reckoned.reapedBy_grow reaper rfl rfl
  have log : (world.advance (world.shell.note (.waited pid none))).shell.log =
      world.shell.log ++ [.waited pid none] := rfl
  refine ⟨orderly, reckoned, ?_, ?_, fun other => ?_⟩
  · rw [same]
    exact telling.reported
  · rw [log, returnedPids_append, same, ← telling.returned]
    exact List.append_nil _
  · rw [log, failedPids_append, same, List.count_append]
    have before := telling.failed other
    have last : failedPids [.waited pid none] = [pid] := rfl
    rw [last, List.count_singleton]
    by_cases this : pid = other
    · subst this
      have room := matched world.shell.log pid none [] rfl
      have each := (forked_each telling.reckoned telling.orderly).count_eq pid
      have gone : (world.children.map fun child => child.fork.pid).count pid = 0 := by
        refine List.count_eq_zero.mpr fun member => ?_
        obtain ⟨child, among, same⟩ := List.mem_map.mp member
        exact missing child among same
      rw [count_waits, telling.returned] at room
      rw [List.count_append, List.count_append, gone] at each
      change _ < world.shell.forkedPids.count pid at room
      simp only [beq_self_eq_true, if_true]
      omega
    · simpa [this] using before

private theorem Telling.reaps {reaper : Reaper} (telling : Telling world)
    (member : child ∈ world.children) (orderly : Orderly after) (reckoned : Reckoned after)
    (grown : after.shell.log = world.shell.log ++ events)
    (reaped : after.reaped = world.reaped ++ [(child.serial, reaper)])
    (reported : after.reported =
      world.reported ++ if reaper = .handler then deadText child.fork.pid else [])
    (returned : returnedPids events = if reaper = .shell then [child.fork.pid] else [])
    (failed : failedPids events = []) : Telling after := by
  have more := fun other => telling.reckoned.reapedBy_reap telling.orderly member other grown reaped
  refine ⟨orderly, reckoned, ?_, ?_, fun other => ?_⟩
  · rw [reported, more, List.flatMap_append, ← telling.reported]
    cases reaper <;> simp
  · rw [grown, returnedPids_append, returned, more, telling.returned]
  · rw [grown, failedPids_append, failed, List.append_nil, more, List.count_append]
    exact Nat.le_trans (telling.failed other) (Nat.le_add_right _ _)

theorem serve_telling {asked : Call} {reply : asked.Reply} (telling : Telling world)
    (served : world.serve asked reply after) (matched : Matched after.shell.log) : Telling after := by
  have orderly := serve_orderly telling.orderly served
  have reckoned := serve_reckoned telling.reckoned served
  by_cases other : ¬ asked.isFork ∧ ¬ asked.isWaitpid
  · obtain ⟨events, grown, -, unwaited⟩ := serve_unnoticed (serve_shell served) other
    obtain ⟨shell, -, rfl⟩ := serve_idle served other
    exact telling.quiet orderly reckoned grown unwaited rfl rfl
  · cases asked <;> first | exact (other ⟨id, id⟩).elim | skip
    case fork =>
      rcases served with ⟨-, rfl⟩ | ⟨pid, -, -, rfl⟩
      · exact telling
      · exact telling.quiet orderly reckoned rfl rfl rfl rfl
    case waitpid pid =>
      rcases served with ⟨missing, -, rfl⟩ | ⟨front, back, child, termination, here, rfl, -, -, rfl⟩
      · exact telling.fails missing orderly reckoned matched
      · have member : child ∈ world.children := by simp [here]
        exact telling.reaps member orderly reckoned rfl rfl (List.append_nil _).symm rfl rfl

theorem moves_telling (telling : Telling world) (moved : Moves mayReap world after) : Telling after := by
  have orderly := moves_orderly telling.orderly moved
  have reckoned := moves_reckoned telling.reckoned moved
  have same : ∀ {after : World}, after.shell = world.shell → after.reaped = world.reaped →
      ∀ reaper, after.reapedBy reaper = world.reapedBy reaper := fun shell reaped reaper =>
    telling.reckoned.reapedBy_grow reaper (by rw [shell, List.append_nil]) reaped
  cases moved with
  | rearrange | die | deliver | resume =>
    exact ⟨orderly, reckoned, telling.reported, telling.returned, telling.failed⟩
  | running | childless =>
    refine ⟨orderly, reckoned, ?_, telling.returned, telling.failed⟩
    exact (List.append_nil _).trans telling.reported
  | @collect front back child looping here zombie allowed =>
    have member : child ∈ world.children := by simp [here]
    exact telling.reaps member orderly reckoned (List.append_nil _).symm rfl rfl rfl rfl

/-- At every moment of every session, each end of a process is told once at most, and none gets lost:
what `waitpid` could not return has been printed. -/
theorem deaths_told {lines : List (List Text)} {program : Prog Unit}
    (full : ∀ tokens ∈ lines, ∀ token ∈ tokens, token ≠ [])
    (reach : (system everything).Reach (session lines, World.initial) (program, world)) : Told world := by
  have matched := session_matched full (reach_shell reach)
  have telling : Matched world.shell.log → Telling world := by
    refine system_invariant (fun world => Matched world.shell.log → Telling world) ?_ ?_ reach ?_
    · intro world after asked reply held served matched
      obtain ⟨events, grown⟩ := serve_extends (serve_shell served)
      have before : Matched world.shell.log := by
        rw [grown] at matched
        exact matched.of_append
      exact serve_telling (held before) served matched
    · intro world after held moved matched
      rw [moves_shell moved] at matched
      exact moves_telling (held matched) moved
    · exact fun _ => ⟨initial_orderly, initial_reckoned, rfl, rfl, fun _ => Nat.le_refl 0⟩
  obtain ⟨orderly, reckoned, reported, returned, failed⟩ := telling matched
  exact ⟨reported, returned, forked_each reckoned orderly, failed⟩

/-- In `a` the handler takes the process before the shell waits for it. -/
theorem deaths_told_stolen : ∃ world : World, failedPids world.shell.log = [1] ∧
    world.reported = deadText 1 ∧ Told world := by
  have permits : (system everything).settled.Permits (World.answer thieving (.exited 0)) :=
    answer_permits (.inl rfl)
  have reach : (system everything).Reach (session [["a".toList]], World.initial) (.done (), _) :=
    .of_settled (Service.reach_of_eval permits rfl)
  exact ⟨_, by decide, by decide, deaths_told (by decide) reach⟩

end Lsnp.Lab
