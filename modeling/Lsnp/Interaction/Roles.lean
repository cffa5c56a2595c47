import Lsnp.Interaction.Asking

namespace Lsnp.Interaction

variable {Request Image Local Shared Role α β : Type} {Reply : Request → Type}

/-- What is demanded where a process of this role asks something, its role behind the answer, and
the role of the process that it forks. -/
structure Roles (Request : Type) (Reply : Request → Type) (Image Local Shared Role : Type) where
  asks : Role → Ask Request Image → Local → Prop
  after : Role → Shared → (asked : Ask Request Image) → asked.Answer Reply → Role
  forked : Role → Role

/-- Whatever is replied, the program plays the role up to its end, where this is demanded of its
result; so do the processes that it forks. -/
def Platform.Plays (platform : Platform Request Reply Local Shared)
    (roles : Roles Request Reply Image Local Shared Role) :
    (Role → α → Local → Prop) → Code Request Reply Image α → Role → Local → Prop
  | results, .done value, role, own => results role value own
  | results, .ask .fork next, role, own => roles.asks role .fork own ∧
      platform.Plays roles results (next .child) (roles.forked role) own ∧
      (∀ shared pid, platform.Plays roles results (next (.parent pid))
        (roles.after role shared .fork (.parent pid)) own) ∧
      (platform.fails → ∀ shared, platform.Plays roles results (next .failed)
        (roles.after role shared .fork .failed) own)
  | results, .ask (.exec image) next, role, own => roles.asks role (.exec image) own ∧
      (platform.fails → ∀ shared, platform.Plays roles results (next ())
        (roles.after role shared (.exec image) ()) own)
  | results, .ask (.wait pid) next, role, own => roles.asks role (.wait pid) own ∧
      ∀ shared reply, platform.Plays roles results (next reply)
        (roles.after role shared (.wait pid) reply) own
  | _, .ask (.exit code) _, role, own => roles.asks role (.exit code) own
  | results, .ask (.own asked) next, role, own => roles.asks role (.own asked) own ∧
      ∀ shared reply after changed, platform.serve own shared asked reply after changed →
        platform.Plays roles results (next reply) (roles.after role shared (.own asked) reply) after

variable {platform : Platform Request Reply Local Shared}
  {roles : Roles Request Reply Image Local Shared Role} {results weaker : Role → α → Local → Prop}
  {role : Role} {own : Local}

theorem Platform.Plays.mono {code : Code Request Reply Image α}
    (plays : platform.Plays roles results code role own)
    (weaken : ∀ role value own, results role value own → weaker role value own) :
    platform.Plays roles weaker code role own := by
  induction code generalizing role own with
  | done value => exact weaken _ value own plays
  | ask asked next ih =>
    cases asked with
    | fork =>
      obtain ⟨made, child, parent, failed⟩ := plays
      exact ⟨made, ih _ child, fun shared pid => ih _ (parent shared pid),
        fun fails shared => ih _ (failed fails shared)⟩
    | exec image => exact ⟨plays.1, fun fails shared => ih _ (plays.2 fails shared)⟩
    | wait pid => exact ⟨plays.1, fun shared reply => ih _ (plays.2 shared reply)⟩
    | exit code => exact plays
    | own asked =>
      exact ⟨plays.1, fun shared reply after changed served =>
        ih _ (plays.2 shared reply after changed served)⟩

/-- The rule for a composition: whoever gets to the end of the first part goes on with the
second, a process that was forked on the way as well. -/
theorem Platform.Plays.bind {code : Code Request Reply Image β}
    {rest : β → Code Request Reply Image α}
    (plays : platform.Plays roles
      (fun role value own => platform.Plays roles results (rest value) role own) code role own) :
    platform.Plays roles results (code >>= rest) role own := by
  induction code generalizing role own with
  | done value => exact plays
  | ask asked next ih =>
    cases asked with
    | fork =>
      obtain ⟨made, child, parent, failed⟩ := plays
      exact ⟨made, ih _ child, fun shared pid => ih _ (parent shared pid),
        fun fails shared => ih _ (failed fails shared)⟩
    | exec image => exact ⟨plays.1, fun fails shared => ih _ (plays.2 fails shared)⟩
    | wait pid => exact ⟨plays.1, fun shared reply => ih _ (plays.2 shared reply)⟩
    | exit code => exact plays
    | own asked =>
      exact ⟨plays.1, fun shared reply after changed served =>
        ih _ (plays.2 shared reply after changed served)⟩

/-- A program plays a role in which it stays if the requests that it uses meet the demand in
every state with a property that these requests keep. -/
theorem Platform.plays_of_uses {allowed : Ask Request Image → Prop} (property : Local → Prop)
    (held : α → Prop) {code : Code Request Reply Image α} (uses : code.uses allowed)
    (gives : code.gives held)
    (stays : ∀ shared asked answer, allowed asked → roles.after role shared asked answer = role)
    (forks : allowed .fork → roles.forked role = role)
    (asks : ∀ asked own, allowed asked → property own → roles.asks role asked own)
    (ends : ∀ value own, held value → property own → results role value own)
    (kept : ∀ own shared asked reply after changed, allowed (.own asked) → property own →
      platform.serve own shared asked reply after changed → property after)
    (initially : property own) : platform.Plays roles results code role own := by
  induction code generalizing own with
  | done value => exact ends value own gives initially
  | ask asked next ih =>
    obtain ⟨made, uses⟩ := uses
    have now := asks asked own made initially
    have later : ∀ shared answer {own}, property own →
        platform.Plays roles results (next answer) (roles.after role shared asked answer) own := by
      intro shared answer own holds
      rw [stays shared asked answer made]
      exact ih _ (uses _) (gives _) holds
    cases asked with
    | fork =>
      refine ⟨now, ?_, fun shared pid => later shared _ initially,
        fun _ shared => later shared _ initially⟩
      rw [forks made]
      exact ih _ (uses _) (gives _) initially
    | exec image => exact ⟨now, fun _ shared => later shared _ initially⟩
    | wait pid => exact ⟨now, fun shared reply => later shared reply initially⟩
    | exit code => exact now
    | own asked =>
      exact ⟨now, fun shared reply after changed served =>
        later shared reply (kept _ _ _ _ _ _ made initially served)⟩

/-- A process plays a role; one that has turned into an image did so in its last state. -/
def Process.Plays (platform : Platform Request Reply Local Shared)
    (roles : Roles Request Reply Image Local Shared Role) (results : Role → α → Local → Prop)
    (process : Process Request Reply Image Local α) (role : Role) : Prop :=
  match process.doing with
  | .running code => platform.Plays roles results code role process.own
  | .turned image | .ended (some image) => roles.asks role (.exec image) process.own
  | .ended none => True

theorem Process.Plays.asks {process : Process Request Reply Image Local α}
    {asked : Ask Request Image} (plays : process.Plays platform roles results role)
    (asks : process.Asks asked) : roles.asks role asked process.own := by
  obtain ⟨next, doing⟩ := asks
  rw [Process.Plays, doing] at plays
  cases asked with
  | exit code => exact plays
  | fork | exec | wait | own => exact plays.1

def Process.Answered (platform : Platform Request Reply Local Shared)
    (crowd : Crowd Request Reply Image Local Shared α) (index : Nat)
    (process changed : Process Request Reply Image Local α) (shared : Shared)
    (new : List (Process Request Reply Image Local α)) :
    (asked : Ask Request Image) → asked.Answer Reply → Prop
  | .own asked, reply =>
      platform.serve process.own crowd.shared asked reply changed.own shared ∧ new = []
  | .fork, .parent pid => shared = crowd.shared ∧
      ∃ code, new = [⟨process.own, pid, index, .running code, false⟩]
  | .fork, .failed => shared = crowd.shared ∧ new = []
  | .fork, .child => False
  | .wait pid, _ => shared = crowd.shared ∧ new = [] ∧
      ∀ other ∈ crowd.processes, other.parent = index → other.pid = pid → other.reaped = false →
        other.doing.isEnded = true
  | .exec _, _ | .exit _, _ => shared = crowd.shared ∧ new = []

/-- The role behind a step: that of the answer, or the old one if there was nothing to answer. -/
def Roles.Recast (roles : Roles Request Reply Image Local Shared Role)
    (platform : Platform Request Reply Local Shared)
    (crowd : Crowd Request Reply Image Local Shared α) (index : Nat)
    (process changed : Process Request Reply Image Local α) (shared : Shared)
    (new : List (Process Request Reply Image Local α)) (role later : Role) : Prop :=
  later = role ∧ shared = crowd.shared ∧ new = [] ∨
    ∃ asked answer, process.Asks asked ∧
      process.Answered platform crowd index changed shared new asked answer ∧
      later = roles.after role crowd.shared asked answer

/-- The step lemma: a process goes on in some role, and whom it forks begins in its own. -/
theorem Process.Step.plays {crowd : Crowd Request Reply Image Local Shared α} {index : Nat}
    {process changed : Process Request Reply Image Local α} {shared : Shared}
    {new : List (Process Request Reply Image Local α)}
    (step : process.Step platform crowd index changed shared new)
    (plays : process.Plays platform roles results role) :
    ∃ later, roles.Recast platform crowd index process changed shared new role later ∧
      changed.Plays platform roles results later ∧
      ∀ one ∈ new, one.Plays platform roles results (roles.forked role) := by
  unfold Process.Plays at plays
  cases step with
  | @own asked next reply own shared here served =>
    rw [here] at plays
    exact ⟨_, .inr ⟨.own asked, reply, ⟨next, here⟩, ⟨served, rfl⟩, rfl⟩, plays.2 _ _ _ _ served,
      by simp⟩
  | fork pid here fresh =>
    rw [here] at plays
    obtain ⟨-, child, parent, -⟩ := plays
    refine ⟨_, .inr ⟨.fork, .parent pid, ⟨_, here⟩, ⟨rfl, _, rfl⟩, rfl⟩, parent crowd.shared pid,
      fun one member => ?_⟩
    obtain rfl := List.mem_singleton.mp member
    exact child
  | forkFails here fails =>
    rw [here] at plays
    exact ⟨_, .inr ⟨.fork, .failed, ⟨_, here⟩, ⟨rfl, rfl⟩, rfl⟩, plays.2.2.2 fails crowd.shared,
      by simp⟩
  | exec here =>
    rw [here] at plays
    exact ⟨role, .inl ⟨rfl, rfl, rfl⟩, plays.1, by simp⟩
  | @execFails image next here fails =>
    rw [here] at plays
    exact ⟨_, .inr ⟨.exec image, (), ⟨next, here⟩, ⟨rfl, rfl⟩, rfl⟩, plays.2 fails crowd.shared,
      by simp⟩
  | @wait pid next reply here gone =>
    rw [here] at plays
    exact ⟨_, .inr ⟨.wait pid, reply, ⟨next, here⟩, ⟨rfl, rfl, gone⟩, rfl⟩,
      plays.2 crowd.shared reply, by simp⟩
  | exit here => exact ⟨role, .inl ⟨rfl, rfl, rfl⟩, trivial, by simp⟩
  | finish here =>
    rw [here] at plays
    exact ⟨role, .inl ⟨rfl, rfl, rfl⟩, plays, by simp⟩
  | reap here left => exact ⟨role, .inl ⟨rfl, rfl, rfl⟩, plays, by simp⟩

section

variable {crowd : Crowd Request Reply Image Local Shared α} {index : Nat}
  {process changed : Process Request Reply Image Local α} {shared : Shared}
  {new : List (Process Request Reply Image Local α)}

theorem Process.Step.parent (step : process.Step platform crowd index changed shared new) :
    changed.parent = process.parent := by
  cases step <;> rfl

theorem Process.Step.pid (step : process.Step platform crowd index changed shared new) :
    changed.pid = process.pid := by
  cases step <;> rfl

theorem Process.Step.new_parent (step : process.Step platform crowd index changed shared new) :
    ∀ one ∈ new, one.parent = index := by
  cases step <;> simp

theorem Process.Step.reaped (step : process.Step platform crowd index changed shared new)
    (before : process.reaped = true → process.doing.isEnded = true) :
    ∀ one ∈ changed :: new, one.reaped = true → one.doing.isEnded = true := by
  have running : ∀ {code}, process.doing = .running code → process.reaped = false := by
    intro code here
    refine Bool.eq_false_iff.mpr fun reaped => ?_
    have ended := before reaped
    rw [here] at ended
    cases ended
  cases step with
  | own here | forkFails here | execFails here | wait _ here | exec here | exit here =>
    simp [running here]
  | fork pid here fresh => simp [running here]
  | finish here => simp [Doing.isEnded]
  | reap here left => simp [here]

end

theorem Crowd.Step.reaped {crowd after : Crowd Request Reply Image Local Shared α}
    (step : crowd.Step platform after)
    (before : ∀ process ∈ crowd.processes, process.reaped = true → process.doing.isEnded = true) :
    ∀ process ∈ after.processes, process.reaped = true → process.doing.isEnded = true := by
  cases step with
  | @of front back new process changed shared here step =>
    rw [here] at before
    have own := step.reaped (before process (by simp))
    intro other member
    simp only [List.mem_append, List.mem_cons] at member
    rcases member with early | rfl | late | forked
    · exact before other (by simp [early])
    · exact own other (by simp)
    · exact before other (by simp [late])
    · exact own other (by simp [forked])

theorem Process.Step.length_new {crowd : Crowd Request Reply Image Local Shared α} {index : Nat}
    {process changed : Process Request Reply Image Local α} {shared : Shared}
    {new : List (Process Request Reply Image Local α)}
    (step : process.Step platform crowd index changed shared new) : new.length ≤ 1 := by
  cases step <;> simp

/-- Whose step it was, and where each process of the crowd was before it. -/
theorem Crowd.Step.origin {crowd after : Crowd Request Reply Image Local Shared α}
    (step : crowd.Step platform after) :
    ∃ index process changed new, crowd.processes[index]? = some process ∧
      process.Step platform crowd index changed after.shared new ∧
      after.processes.length = crowd.processes.length + new.length ∧
      ∀ place other, after.processes[place]? = some other →
        place = index ∧ other = changed ∨
        place ≠ index ∧ crowd.processes[place]? = some other ∨
        place = crowd.processes.length ∧ new = [other] := by
  cases step with
  | @of front back new process changed shared found step =>
    refine ⟨front.length, process, changed, new, by simp [found], step, ?_, ?_⟩
    · simp only [found, List.length_append, List.length_cons]
      omega
    have whole : front ++ changed :: (back ++ new) = crowd.processes.set front.length changed ++ new := by
      simp [found]
    have inside : front.length < crowd.processes.length := by simp [found]
    intro place other member
    rw [whole] at member
    rcases Nat.lt_or_ge place crowd.processes.length with within | past
    · rw [List.getElem?_append_left (by simpa using within), List.getElem?_set] at member
      by_cases same : front.length = place
      · rw [if_pos same, if_pos (same ▸ inside)] at member
        exact .inl ⟨same.symm, (Option.some.inj member).symm⟩
      · rw [if_neg same] at member
        exact .inr (.inl ⟨Ne.symm same, member⟩)
    · rw [List.getElem?_append_right (by simpa using past), List.length_set] at member
      have few := step.length_new
      have first := (List.getElem?_eq_some_iff.mp member).1
      match new, few with
      | [one], _ =>
        have zero : place - crowd.processes.length = 0 := by simpa using first
        rw [zero] at member
        exact .inr (.inr ⟨by omega, by simpa using member⟩)
      | [], _ => cases first

/-- Each process of the crowd plays the role that it has in this cast. -/
def Crowd.Cast (platform : Platform Request Reply Local Shared)
    (roles : Roles Request Reply Image Local Shared Role) (results : Role → α → Local → Prop)
    (crowd : Crowd Request Reply Image Local Shared α) (cast : Nat → Role) : Prop :=
  ∀ index (process : Process Request Reply Image Local α), crowd.processes[index]? = some process →
    process.Plays platform roles results (cast index)

/-- The cast when the process at this place has got another role, and has perhaps forked one that
comes last. -/
def recast (cast : Nat → Role) (index : Nat) (later : Role) (last : Nat) (forked : Option Role)
    (place : Nat) : Role :=
  if place = index then later else if place = last then forked.getD (cast place) else cast place

/-- Who has taken the step, and in which role each process is behind it. -/
theorem Crowd.Step.cast {crowd after : Crowd Request Reply Image Local Shared α} {cast : Nat → Role}
    (step : crowd.Step platform after) (plays : crowd.Cast platform roles results cast) :
    ∃ index process changed new later, crowd.processes[index]? = some process ∧
      process.Step platform crowd index changed after.shared new ∧
      after.processes.length = crowd.processes.length + new.length ∧
      (∀ place other, after.processes[place]? = some other →
        place = index ∧ other = changed ∨
        place ≠ index ∧ crowd.processes[place]? = some other ∨
        place = crowd.processes.length ∧ new = [other]) ∧
      roles.Recast platform crowd index process changed after.shared new (cast index) later ∧
      after.Cast platform roles results (recast cast index later crowd.processes.length
        (new.head?.map fun _ => roles.forked (cast index))) := by
  obtain ⟨index, process, changed, new, found, step, grown, places⟩ := step.origin
  obtain ⟨later, turns, own, forked⟩ := step.plays (plays index process found)
  refine ⟨index, process, changed, new, later, found, step, grown, places, turns, ?_⟩
  have inside := (List.getElem?_eq_some_iff.mp found).1
  intro place other member
  rcases places place other member with ⟨rfl, rfl⟩ | ⟨apart, before⟩ | ⟨rfl, rfl⟩
  · rw [recast, if_pos rfl]
    exact own
  · have within := (List.getElem?_eq_some_iff.mp before).1
    rw [recast, if_neg apart, if_neg (Nat.ne_of_lt within)]
    exact plays place other before
  · rw [recast, if_neg (Nat.ne_of_gt inside), if_pos rfl]
    exact forked other (by simp)

/-- One role for the first process, and one for all others. -/
def leading (first others : Role) (place : Nat) : Role := if place = 0 then first else others

/-- If no answer changes a role, the first process keeps its own and all others have that of the
processes that are forked. -/
theorem Platform.cast_of_reachable {initial : Crowd Request Reply Image Local Shared α → Prop}
    {crowd : Crowd Request Reply Image Local Shared α} {first others : Role}
    (stays : ∀ role shared asked answer, roles.after role shared asked answer = role)
    (forked : ∀ role, roles.forked role = others)
    (initially : ∀ crowd, initial crowd → ∃ process, crowd.processes = [process] ∧
      process.Plays platform roles results first)
    (reachable : (platform.crowd initial).Reachable crowd) :
    0 < crowd.processes.length ∧ crowd.Cast platform roles results (leading first others) := by
  refine reachable.invariant (fun crowd => 0 < crowd.processes.length ∧
    crowd.Cast platform roles results (leading first others)) ?_ ?_
  · intro crowd initial
    obtain ⟨process, only, plays⟩ := initially crowd initial
    refine ⟨by simp [only], fun index other found => ?_⟩
    rw [only] at found
    obtain rfl : index = 0 := by simpa using (List.getElem?_eq_some_iff.mp found).1
    obtain rfl : process = other := by simpa using found
    exact plays
  · rintro crowd after ⟨filled, plays⟩ step
    refine ⟨?_, ?_⟩
    · cases step with
      | of here step =>
        simp only [List.length_append, List.length_cons]
        omega
    · obtain ⟨index, process, changed, new, later, found, -, -, -, turns, cast⟩ :=
        Crowd.Step.cast step plays
      have same : later = leading first others index := by
        rcases turns with ⟨same, -⟩ | ⟨asked, answer, -, -, same⟩
        · exact same
        · exact same.trans (stays _ _ _ _)
      have unchanged : recast (leading first others) index later crowd.processes.length
          (new.head?.map fun _ => roles.forked (leading first others index)) =
            leading first others := by
        funext place
        rw [recast, same, forked]
        split
        · rename_i own
          rw [own]
        · split
          · rw [leading, if_neg (by omega)]
            cases new <;> rfl
          · rfl
      rwa [unchanged] at cast

end Lsnp.Interaction
