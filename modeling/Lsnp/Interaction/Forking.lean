import Lsnp.Interaction.Machine
import Lsnp.Interaction.Program
import Mathlib.Algebra.Order.Group.Multiset

/-! Processes that run programs, fork, turn into images and wait for each other. The
processes of a crowd take their steps in any order; what they turn into in the end is read
off the program of the first one. -/

namespace Lsnp.Interaction

variable {Request Image Local Shared α : Type} {Reply : Request → Type}

/-- What a process asks: one of four things about processes, or a request of its own. -/
inductive Ask (Request Image : Type) where
  | fork
  | exec (image : Image)
  | wait (pid : Nat)
  | exit (code : Nat)
  | own (asked : Request)

/-- What `fork` returns in the new process and in the old one. -/
inductive ForkReply where
  | failed
  | child
  | parent (pid : Nat)

/-- An `exec` returns only if it has failed; a wait tells whether there was a process to
wait for. -/
abbrev Ask.Answer (Reply : Request → Type) : Ask Request Image → Type
  | .fork => ForkReply
  | .exec _ => Unit
  | .wait _ => Bool
  | .exit _ => Empty
  | .own asked => Reply asked

abbrev Code (Request : Type) (Reply : Request → Type) (Image α : Type) : Type :=
  Program (Ask Request Image) (Ask.Answer Reply) α

/-- What a process does: it runs a program, it has turned into an image, or it has ended,
as an image or not. -/
inductive Doing (Request : Type) (Reply : Request → Type) (Image α : Type) where
  | running (code : Code Request Reply Image α)
  | turned (image : Image)
  | ended (image : Option Image)

/-- A process with its own state, its pid, the place of its parent in the crowd, and
whether somebody has waited for it. -/
structure Process (Request : Type) (Reply : Request → Type) (Image Local α : Type) where
  own : Local
  pid : Nat
  parent : Nat
  doing : Doing Request Reply Image α
  reaped : Bool

/-- The processes in the order in which they were forked, and what they share. -/
structure Crowd (Request : Type) (Reply : Request → Type) (Image Local Shared α : Type) where
  shared : Shared
  processes : List (Process Request Reply Image Local α)

/-- How requests are served, and whether `fork` and `exec` can fail. -/
structure Platform (Request : Type) (Reply : Request → Type) (Local Shared : Type) where
  serve : Local → Shared → (asked : Request) → Reply asked → Local → Shared → Prop
  fails : Prop

def Doing.isEnded : Doing Request Reply Image α → Bool
  | .ended _ => true
  | _ => false

namespace Process

variable {platform : Platform Request Reply Local Shared}
  {crowd : Crowd Request Reply Image Local Shared α} {index : Nat}

/-- One step of the process at this place of the crowd: what becomes of it and of what is
shared, and whom it forks. A wait returns once no child with that pid runs any more. A
process that has ended is reaped at some time, by the one that waits for it or another. -/
inductive Step (platform : Platform Request Reply Local Shared)
    (crowd : Crowd Request Reply Image Local Shared α) (index : Nat)
    (process : Process Request Reply Image Local α) :
    Process Request Reply Image Local α → Shared → List (Process Request Reply Image Local α) →
      Prop where
  | own {asked : Request} {next : Reply asked → Code Request Reply Image α} {reply : Reply asked}
      {own : Local} {shared : Shared} (here : process.doing = .running (.ask (.own asked) next))
      (served : platform.serve process.own crowd.shared asked reply own shared) :
      Step platform crowd index process
        { process with own := own, doing := .running (next reply) } shared []
  | fork {next : ForkReply → Code Request Reply Image α} (pid : Nat)
      (here : process.doing = .running (.ask .fork next))
      (fresh : ∀ other ∈ crowd.processes, other.reaped = false → other.pid ≠ pid) :
      Step platform crowd index process
        { process with doing := .running (next (.parent pid)) } crowd.shared
        [⟨process.own, pid, index, .running (next .child), false⟩]
  | forkFails {next : ForkReply → Code Request Reply Image α}
      (here : process.doing = .running (.ask .fork next)) (fails : platform.fails) :
      Step platform crowd index process
        { process with doing := .running (next .failed) } crowd.shared []
  | exec {image : Image} {next : Unit → Code Request Reply Image α}
      (here : process.doing = .running (.ask (.exec image) next)) :
      Step platform crowd index process { process with doing := .turned image } crowd.shared []
  | execFails {image : Image} {next : Unit → Code Request Reply Image α}
      (here : process.doing = .running (.ask (.exec image) next)) (fails : platform.fails) :
      Step platform crowd index process { process with doing := .running (next ()) }
        crowd.shared []
  | wait {pid : Nat} {next : Bool → Code Request Reply Image α} (reply : Bool)
      (here : process.doing = .running (.ask (.wait pid) next))
      (gone : ∀ other ∈ crowd.processes, other.parent = index → other.pid = pid →
        other.reaped = false → other.doing.isEnded = true) :
      Step platform crowd index process { process with doing := .running (next reply) }
        crowd.shared []
  | exit {code : Nat} {next : Empty → Code Request Reply Image α}
      (here : process.doing = .running (.ask (.exit code) next)) :
      Step platform crowd index process { process with doing := .ended none } crowd.shared []
  | finish {image : Image} (here : process.doing = .turned image) :
      Step platform crowd index process { process with doing := .ended (some image) }
        crowd.shared []
  | reap (here : process.doing.isEnded = true) (left : process.reaped = false) :
      Step platform crowd index process { process with reaped := true } crowd.shared []

end Process

/-- A step of any process of a crowd; the process it forks comes last. -/
inductive Crowd.Step (platform : Platform Request Reply Local Shared)
    (crowd : Crowd Request Reply Image Local Shared α) :
    Crowd Request Reply Image Local Shared α → Prop where
  | of {front back new : List (Process Request Reply Image Local α)}
      {process after : Process Request Reply Image Local α} {shared : Shared}
      (here : crowd.processes = front ++ process :: back)
      (step : process.Step platform crowd front.length after shared new) :
      Crowd.Step platform crowd ⟨shared, front ++ after :: (back ++ new)⟩

def Platform.crowd (platform : Platform Request Reply Local Shared)
    (initial : Crowd Request Reply Image Local Shared α → Prop) :
    Machine (Crowd Request Reply Image Local Shared α) :=
  ⟨initial, Crowd.Step platform⟩

/-- Images, each with the state of the process that turned into it. -/
abbrev Launches (Image Local : Type) : Type := Multiset (Image × Local)

def rest (post part : Launches Image Local → Prop) : Launches Image Local → Prop :=
  fun others => ∀ one, part one → post (one + others)

/-- Whatever is replied, what the program and the processes that it forks turn into is
together as stated. -/
def Platform.Launch (platform : Platform Request Reply Local Shared) :
    Code Request Reply Image α → Local → (Launches Image Local → Prop) → Prop
  | .done _, _, post => post 0
  | .ask .fork next, own, post =>
    (∃ part, platform.Launch (next .child) own part ∧
      ∀ pid, platform.Launch (next (.parent pid)) own (rest post part)) ∧
    (platform.fails → platform.Launch (next .failed) own post)
  | .ask (.exec image) next, own, post =>
    post {(image, own)} ∧ (platform.fails → platform.Launch (next ()) own post)
  | .ask (.wait _) next, own, post => ∀ reply, platform.Launch (next reply) own post
  | .ask (.exit _) _, _, post => post 0
  | .ask (.own asked) next, own, post =>
    ∀ shared reply after changed, platform.serve own shared asked reply after changed →
      platform.Launch (next reply) after post

variable {platform : Platform Request Reply Local Shared} {post weaker : Launches Image Local → Prop}

namespace Process

/-- What a process turns into, or has turned into, is as stated. -/
def Keeps (platform : Platform Request Reply Local Shared)
    (process : Process Request Reply Image Local α) (post : Launches Image Local → Prop) : Prop :=
  match process.doing with
  | .running code => platform.Launch code process.own post
  | .turned image | .ended (some image) => post {(image, process.own)}
  | .ended none => post 0

def launched (process : Process Request Reply Image Local α) : Launches Image Local :=
  match process.doing with
  | .turned image | .ended (some image) => {(image, process.own)}
  | _ => 0

/-- The process runs no code any more, or its program is through. -/
def isSettled (process : Process Request Reply Image Local α) : Bool :=
  match process.doing with
  | .running (.ask _ _) => false
  | _ => true

theorem Keeps.settled {process : Process Request Reply Image Local α}
    (keeps : process.Keeps platform post) (settled : process.isSettled = true) :
    post process.launched := by
  obtain ⟨own, pid, parent, doing, reaped⟩ := process
  cases doing with
  | running code =>
    cases code with
    | done value => exact keeps
    | ask asked next => cases settled
  | turned image => exact keeps
  | ended image => cases image <;> exact keeps

end Process

/-- What all of these processes turn into is together as stated. -/
def Kept (platform : Platform Request Reply Local Shared) :
    List (Process Request Reply Image Local α) → (Launches Image Local → Prop) → Prop
  | [], post => post 0
  | process :: others, post =>
    ∃ part, process.Keeps platform part ∧ Kept platform others (rest post part)

variable {processes others : List (Process Request Reply Image Local α)}

theorem Kept.mono (kept : Kept platform processes post)
    (weaken : ∀ launches, post launches → weaker launches) : Kept platform processes weaker := by
  induction processes generalizing post weaker with
  | nil => exact weaken _ kept
  | cons process others ih =>
    obtain ⟨part, keeps, kept⟩ := kept
    exact ⟨part, keeps, ih kept fun _ left one held => weaken _ (left one held)⟩

theorem Kept.perm (kept : Kept platform processes post) (perm : processes.Perm others) :
    Kept platform others post := by
  induction perm generalizing post with
  | nil => exact kept
  | cons process _ ih =>
    obtain ⟨part, keeps, kept⟩ := kept
    exact ⟨part, keeps, ih kept⟩
  | swap first second front =>
    obtain ⟨one, keepsOne, two, keepsTwo, kept⟩ := kept
    refine ⟨two, keepsTwo, one, keepsOne, kept.mono fun others left => ?_⟩
    intro launchedOne heldOne launchedTwo heldTwo
    rw [add_left_comm]
    exact left launchedTwo heldTwo launchedOne heldOne
  | trans _ _ front back => exact back (front kept)

/-- Once all processes have settled, what was launched is as stated. -/
theorem Kept.settled (kept : Kept platform processes post)
    (settled : ∀ process ∈ processes, process.isSettled = true) :
    post (processes.map Process.launched).sum := by
  induction processes generalizing post with
  | nil => exact kept
  | cons process others ih =>
    obtain ⟨part, keeps, kept⟩ := kept
    have here := keeps.settled (settled process (by simp))
    have later := ih kept fun other member => settled other (by simp [member])
    exact later _ here

theorem Kept.of_settled (settled : ∀ process ∈ processes, process.isSettled = true) :
    Kept platform processes fun launches => launches = (processes.map Process.launched).sum := by
  induction processes with
  | nil => rfl
  | cons process others ih =>
    refine ⟨fun launches => launches = process.launched, ?_, ?_⟩
    · obtain ⟨own, pid, parent, doing, reaped⟩ := process
      cases doing with
      | running code =>
        cases code with
        | done value => rfl
        | ask asked next => cases settled _ (List.mem_cons_self ..)
      | turned image => rfl
      | ended image => cases image <;> rfl
    · refine (ih fun other member => settled other (by simp [member])).mono ?_
      rintro _ rfl _ rfl
      simp

theorem Kept.append {part : Launches Image Local → Prop} (kept : Kept platform processes part)
    (left : Kept platform others (rest post part)) : Kept platform (processes ++ others) post := by
  induction processes generalizing post part with
  | nil =>
    refine left.mono fun launches held => ?_
    simpa using held 0 kept
  | cons process more ih =>
    obtain ⟨first, keeps, kept⟩ := kept
    refine ⟨first, keeps, ih kept (left.mono fun launches held => ?_)⟩
    intro two heldTwo one heldOne
    rw [← add_assoc]
    exact held _ (heldTwo one heldOne)

theorem Kept.single {process : Process Request Reply Image Local α}
    (keeps : process.Keeps platform post) : Kept platform [process] post :=
  ⟨post, keeps, fun one held => by simpa using held⟩

variable {crowd after : Crowd Request Reply Image Local Shared α}

/-- What a process turns into is divided between it and the one that it forks. -/
theorem Process.Step.kept {index : Nat} {process changed : Process Request Reply Image Local α}
    {shared : Shared} {new : List (Process Request Reply Image Local α)}
    (step : process.Step platform crowd index changed shared new)
    (keeps : process.Keeps platform post) : Kept platform (changed :: new) post := by
  cases step with
  | own here served =>
    rw [Keeps, here] at keeps
    exact .single (keeps _ _ _ _ served)
  | fork pid here fresh =>
    rw [Keeps, here] at keeps
    obtain ⟨⟨part, child, parent⟩, -⟩ := keeps
    have both : Kept platform [⟨process.own, pid, index, .running (_ : Code Request Reply Image α), false⟩,
        { process with doing := .running _ }] post := ⟨part, child, .single (parent pid)⟩
    exact both.perm (.swap _ _ _)
  | forkFails here fails =>
    rw [Keeps, here] at keeps
    exact .single (keeps.2 fails)
  | exec here =>
    rw [Keeps, here] at keeps
    exact .single keeps.1
  | execFails here fails =>
    rw [Keeps, here] at keeps
    exact .single (keeps.2 fails)
  | wait reply here gone =>
    rw [Keeps, here] at keeps
    exact .single (keeps reply)
  | exit here =>
    rw [Keeps, here] at keeps
    exact .single keeps
  | finish here =>
    rw [Keeps, here] at keeps
    exact .single keeps
  | reap here left => exact .single keeps

theorem Crowd.Step.kept (step : crowd.Step platform after)
    (kept : Kept platform crowd.processes post) : Kept platform after.processes post := by
  cases step with
  | @of front back new process changed shared here step =>
    rw [here] at kept
    obtain ⟨part, keeps, others⟩ := kept.perm List.perm_middle
    refine ((step.kept keeps).append others).perm ?_
    have shuffled : (new ++ (front ++ back)).Perm (front ++ (back ++ new)) := by
      rw [← List.append_assoc front]
      exact List.perm_append_comm
    exact (shuffled.cons changed).trans List.perm_middle.symm

/-- A step leaves the process at a place alone, or it is a step of that process. -/
theorem Crowd.Step.place (step : crowd.Step platform after) {index : Nat}
    {process : Process Request Reply Image Local α} (found : crowd.processes[index]? = some process) :
    after.processes[index]? = some process ∨
      ∃ changed new, process.Step platform crowd index changed after.shared new ∧
        after.processes = crowd.processes.set index changed ++ new := by
  cases step with
  | @of front back new process' changed shared here step =>
    rw [here] at found
    rcases Nat.lt_trichotomy index front.length with before | rfl | behind
    · rw [List.getElem?_append_left before] at found
      exact .inl (by rw [List.getElem?_append_left before, found])
    · obtain rfl : process' = process := by simpa using found
      exact .inr ⟨changed, new, step, by simp [here]⟩
    · obtain ⟨more, rfl⟩ := Nat.exists_eq_add_of_lt behind
      rw [List.getElem?_append_right (by omega)] at found ⊢
      simp only [show front.length + more + 1 - front.length = more + 1 by omega,
        List.getElem?_cons_succ] at found ⊢
      exact .inl (by rw [List.getElem?_append_left (List.getElem?_eq_some_iff.mp found).1, found])

theorem Process.Step.settled {index : Nat} {process changed : Process Request Reply Image Local α}
    {shared : Shared} {new : List (Process Request Reply Image Local α)}
    (step : process.Step platform crowd index changed shared new)
    (settled : process.isSettled = true) : changed.isSettled = true ∧ new = [] := by
  cases step with
  | own here | fork _ here | forkFails here | exec here | execFails here | wait _ here | exit here =>
    rw [isSettled, here] at settled
    cases settled
  | finish here => exact ⟨rfl, rfl⟩
  | reap here left => exact ⟨settled, rfl⟩

theorem Process.Step.ended {index : Nat} {process changed : Process Request Reply Image Local α}
    {shared : Shared} {new : List (Process Request Reply Image Local α)}
    (step : process.Step platform crowd index changed shared new)
    (ended : process.doing.isEnded = true) : changed.doing.isEnded = true := by
  cases step with
  | reap here left => exact here
  | own here | fork _ here | forkFails here | exec here | execFails here | wait _ here | exit here
  | finish here =>
    rw [here] at ended
    cases ended

/-- The process itself turns into nothing but what is aimed at, and does not end before. -/
def Platform.Becomes (platform : Platform Request Reply Local Shared) (aim : Image → Local → Prop) :
    Code Request Reply Image α → Local → Prop
  | .done _, _ => False
  | .ask .fork next, own => (∀ pid, platform.Becomes aim (next (.parent pid)) own) ∧
      (platform.fails → platform.Becomes aim (next .failed) own)
  | .ask (.exec image) next, own => aim image own ∧
      (platform.fails → platform.Becomes aim (next ()) own)
  | .ask (.wait _) next, own => ∀ reply, platform.Becomes aim (next reply) own
  | .ask (.exit _) _, _ => False
  | .ask (.own asked) next, own =>
    ∀ shared reply after changed, platform.serve own shared asked reply after changed →
      platform.Becomes aim (next reply) after

/-- The process is on its way to become this, or has become it. -/
def Process.Becomes (platform : Platform Request Reply Local Shared) (aim : Image → Local → Prop)
    (process : Process Request Reply Image Local α) : Prop :=
  match process.doing with
  | .running code => platform.Becomes aim code process.own
  | .turned image | .ended (some image) => aim image process.own
  | .ended none => False

/-- A child: its parent and its pid, what it becomes, and that nobody reaps it before its end. -/
structure Process.Child (platform : Platform Request Reply Local Shared)
    (aim : Image → Local → Prop) (parent pid : Nat)
    (process : Process Request Reply Image Local α) : Prop where
  parent : process.parent = parent
  pid : process.pid = pid
  becomes : process.Becomes platform aim
  reaped : process.reaped = true → process.doing.isEnded = true

theorem Process.Step.child {index parent pid : Nat} {aim : Image → Local → Prop}
    {process changed : Process Request Reply Image Local α} {shared : Shared}
    {new : List (Process Request Reply Image Local α)}
    (step : process.Step platform crowd index changed shared new)
    (child : process.Child platform aim parent pid) : changed.Child platform aim parent pid := by
  obtain ⟨parent', pid', becomes, reaped⟩ := child
  have unreaped : ∀ {code} {doing : Doing Request Reply Image α}, process.doing = .running code →
      process.reaped = true → doing.isEnded = true := by
    intro code doing here some
    have ended := reaped some
    rw [here] at ended
    cases ended
  unfold Process.Becomes at becomes
  cases step with
  | own here served =>
    rw [here] at becomes
    exact ⟨parent', pid', becomes _ _ _ _ served, unreaped here⟩
  | fork number here fresh =>
    rw [here] at becomes
    exact ⟨parent', pid', becomes.1 number, unreaped here⟩
  | forkFails here fails =>
    rw [here] at becomes
    exact ⟨parent', pid', becomes.2 fails, unreaped here⟩
  | exec here =>
    rw [here] at becomes
    exact ⟨parent', pid', becomes.1, unreaped here⟩
  | execFails here fails =>
    rw [here] at becomes
    exact ⟨parent', pid', becomes.2 fails, unreaped here⟩
  | wait reply here gone =>
    rw [here] at becomes
    exact ⟨parent', pid', becomes reply, unreaped here⟩
  | exit here =>
    rw [here] at becomes
    exact becomes.elim
  | finish here =>
    rw [here] at becomes
    exact ⟨parent', pid', becomes, fun _ => rfl⟩
  | reap here left => exact ⟨parent', pid', becomes, fun _ => here⟩

theorem Crowd.Step.child {index parent pid : Nat} {aim : Image → Local → Prop}
    {process : Process Request Reply Image Local α} (step : crowd.Step platform after)
    (found : crowd.processes[index]? = some process)
    (child : process.Child platform aim parent pid) :
    ∃ later, after.processes[index]? = some later ∧ later.Child platform aim parent pid ∧
      (process.doing.isEnded = true → later.doing.isEnded = true) := by
  rcases step.place found with same | ⟨changed, new, own, there⟩
  · exact ⟨process, same, child, id⟩
  · have within := (List.getElem?_eq_some_iff.mp found).1
    refine ⟨changed, ?_, own.child child, own.ended⟩
    rw [there, List.getElem?_append_left (by simpa using within)]
    simp [within]

theorem Process.Child.image {parent pid : Nat} {aim : Image → Local → Prop}
    {process : Process Request Reply Image Local α}
    (child : process.Child platform aim parent pid) (ended : process.doing.isEnded = true) :
    ∃ image, process.doing = .ended (some image) ∧ aim image process.own := by
  have becomes := child.becomes
  unfold Process.Becomes at becomes
  cases doing : process.doing with
  | running code | turned image =>
    rw [doing] at ended
    cases ended
  | ended image =>
    rw [doing] at becomes
    cases image with
    | none => exact becomes.elim
    | some image => exact ⟨image, rfl, becomes⟩

end Lsnp.Interaction
