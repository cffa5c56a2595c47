import Lsnp.Interaction.Machine
import Lsnp.PosixShm.Segment
import Mathlib.Logic.Function.Basic

/-! Any number of instances of `posix_shm.c`. The one that creates the object also gives it its
size, in a second step, for which the others do not wait. -/

namespace Lsnp.PosixShm

open Lsnp.Interaction Lsnp.Libc

/-- The objects that were ever created, each with the bytes it has, and the one that
`NAME_POSIX_SHM` stands for. -/
structure Kernel where
  objects : List (List Char)
  name : Option Nat
  deriving DecidableEq

namespace Kernel

variable (kernel : Kernel)

def content (object : Nat) : List Char := kernel.objects.getD object []

def size (object : Nat) : Nat := (kernel.content object).length

def set (object : Nat) (content : List Char) : Kernel :=
  { kernel with objects := kernel.objects.set object content }

/-- `shm_open` with `O_CREAT|O_EXCL` of a name that is free. -/
def create : Kernel := ⟨kernel.objects ++ [[]], some kernel.objects.length⟩

/-- `ftruncate(shm_fd, SZ_SHM_SEGMENT)` -/
def ftruncate (object : Nat) : Kernel :=
  kernel.set object <| (kernel.content object ++
    List.replicate (SZ_SHM_SEGMENT - kernel.size object) nul).take SZ_SHM_SEGMENT

/-- `shm_unlink` -/
def unlink : Kernel := { kernel with name := none }

end Kernel

/-- Where an instance is: in front of the first `shm_open`, of `ftruncate`, of the second
`shm_open`, of `mmap`, in the loop, behind `munmap`, or ended, by itself or by a signal. -/
inductive Stage where
  | start
  | created (object : Nat)
  | found
  | opened (object : Nat)
  | attached (object : Nat)
  | detached
  | exited
  | killed
  deriving DecidableEq

/-- The body of the loop for an instance with this object: an access to an object without
bytes is a `SIGBUS`. -/
def obey (kernel : Kernel) (object : Nat) (input : List Char) : Kernel × Stage :=
  match command input with
  | .leave => (kernel, .detached)
  | .print => if kernel.size object = 0 then (kernel, .killed) else (kernel, .attached object)
  | .write [] => (kernel, .attached object)
  | .write text =>
    if kernel.size object = 0 then (kernel, .killed)
    else (kernel.set object (memcpy (kernel.content object) text), .attached object)

/-- A step of an instance, with the calls that can fail. -/
inductive Acts (kernel : Kernel) : Stage → Kernel → Stage → Prop where
  | create (free : kernel.name = none) :
      Acts kernel .start kernel.create (.created kernel.objects.length)
  | find (taken : kernel.name ≠ none) : Acts kernel .start kernel .found
  | createFails : Acts kernel .start kernel .exited
  | ftruncate (object : Nat) : Acts kernel (.created object) (kernel.ftruncate object) (.opened object)
  | ftruncateFails (object : Nat) : Acts kernel (.created object) kernel .exited
  | open' {object : Nat} (named : kernel.name = some object) :
      Acts kernel .found kernel (.opened object)
  | openFails : Acts kernel .found kernel .exited
  | mmap (object : Nat) : Acts kernel (.opened object) kernel (.attached object)
  | mmapFails (object : Nat) : Acts kernel (.opened object) kernel .exited
  | obey (object : Nat) {input : List Char} (fits : input.length < INPUT) :
      Acts kernel (.attached object) (obey kernel object input).1 (obey kernel object input).2
  | ended (object : Nat) : Acts kernel (.attached object) kernel .detached
  | unlink : Acts kernel .detached kernel.unlink .exited
  | keep : Acts kernel .detached kernel .exited

structure System where
  kernel : Kernel
  stage : Nat → Stage

/-- One instance takes a step. -/
inductive Step (system : System) : System → Prop where
  | of (number : Nat) {kernel : Kernel} {stage : Stage}
      (acts : Acts system.kernel (system.stage number) kernel stage) :
      Step system ⟨kernel, Function.update system.stage number stage⟩

/-- At first there is no object; an instance starts with its first step. -/
def instances : Machine System where
  initial system := system.kernel = ⟨[], none⟩ ∧ ∀ number, system.stage number = .start
  step := Step

def NoneKilled (system : System) : Prop := ∀ number, system.stage number ≠ .killed

/-- An instance that maps an object in this step finds it with its size. -/
def MapsSized (system after : System) : Prop :=
  ∀ number object, system.stage number = .opened object → after.stage number = .attached object →
    system.kernel.size object ≠ 0

variable {kernel later : Kernel} {stage next : Stage} {system after : System}

theorem size_set_ne_zero {object other : Nat} {content : List Char} (some : content ≠ [])
    (sized : kernel.size object ≠ 0) : (kernel.set other content).size object ≠ 0 := by
  unfold Kernel.size Kernel.content Kernel.set at *
  rw [List.getD_eq_getElem?_getD] at *
  by_cases same : other = object
  · subst same
    have within : other < kernel.objects.length := by
      by_contra beyond
      rw [List.getElem?_eq_none (Nat.not_lt.mp beyond)] at sized
      exact sized rfl
    simpa [within] using some
  · rwa [List.getElem?_set_ne same]

theorem size_ftruncate {object : Nat} (within : object < kernel.objects.length) :
    (kernel.ftruncate object).size object = SZ_SHM_SEGMENT := by
  have same : (kernel.ftruncate object).content object = (kernel.content object ++
      List.replicate (SZ_SHM_SEGMENT - kernel.size object) nul).take SZ_SHM_SEGMENT := by
    simp [Kernel.ftruncate, Kernel.set, Kernel.content, within]
  rw [Kernel.size, same, List.length_take, List.length_append, List.length_replicate]
  unfold Kernel.size
  omega

theorem obey_cases (kernel : Kernel) (object : Nat) (input : List Char) :
    obey kernel object input = (kernel, .detached) ∨
      obey kernel object input = (kernel, .attached object) ∨
      (kernel.size object ≠ 0 ∧ ∃ content ≠ [],
        obey kernel object input = (kernel.set object content, .attached object)) ∨
      (kernel.size object = 0 ∧ obey kernel object input = (kernel, .killed)) := by
  unfold obey
  by_cases sized : kernel.size object = 0
  · split
    · exact .inl rfl
    · exact .inr (.inr (.inr ⟨sized, if_pos sized⟩))
    · exact .inr (.inl rfl)
    · exact .inr (.inr (.inr ⟨sized, if_pos sized⟩))
  · split
    · exact .inl rfl
    · exact .inr (.inl (if_neg sized))
    · exact .inr (.inl rfl)
    · rename_i text filled _
      have some : memcpy (kernel.content object) text ≠ [] := by
        simp only [memcpy, ne_eq, List.append_eq_nil_iff, not_and]
        exact fun empty => (filled empty).elim
      exact .inr (.inr (.inl ⟨sized, _, some, if_neg sized⟩))

theorem Acts.sized (acts : Acts kernel stage later next) {object : Nat}
    (sized : kernel.size object ≠ 0) : later.size object ≠ 0 := by
  cases acts with
  | create free =>
    have within : object < kernel.objects.length := by
      by_contra beyond
      unfold Kernel.size Kernel.content at sized
      rw [List.getD_eq_getElem?_getD, List.getElem?_eq_none (Nat.not_lt.mp beyond)] at sized
      exact sized rfl
    unfold Kernel.size Kernel.content Kernel.create at *
    rw [List.getD_eq_getElem?_getD] at *
    rwa [List.getElem?_append_left within]
  | ftruncate other =>
    have positive : SZ_SHM_SEGMENT ≠ 0 := by decide
    have length : (kernel.content other ++
        List.replicate (SZ_SHM_SEGMENT - kernel.size other) nul).length ≠ 0 := by
      rw [List.length_append, List.length_replicate]
      unfold Kernel.size
      omega
    refine size_set_ne_zero ?_ sized
    rw [ne_eq, List.take_eq_nil_iff, not_or]
    exact ⟨positive, mt List.length_eq_zero_iff.mpr length⟩
  | obey other fits =>
    rcases obey_cases kernel other _ with same | same | ⟨-, content, some, same⟩ | ⟨-, same⟩
    · rwa [same]
    · rwa [same]
    · rw [same]
      exact size_set_ne_zero some sized
    · rwa [same]
  | find | createFails | ftruncateFails | open' | openFails | mmap | mmapFails | ended | unlink
  | keep => exact sized

theorem Acts.attached {object : Nat} (acts : Acts kernel stage later next)
    (same : next = .attached object) : stage = .opened object ∨ stage = .attached object := by
  cases acts with
  | mmap other =>
    cases same
    exact .inl rfl
  | obey other fits =>
    rcases obey_cases kernel other _ with does | does | ⟨-, content, -, does⟩ | ⟨-, does⟩
    all_goals
      rw [does] at same
      cases same
    all_goals exact .inr rfl
  | _ => cases same

theorem Acts.killed (acts : Acts kernel stage later next) (same : next = .killed) :
    ∃ object, stage = .attached object ∧ kernel.size object = 0 := by
  cases acts with
  | obey object fits =>
    rcases obey_cases kernel object _ with does | does | ⟨-, content, -, does⟩ | ⟨unsized, -⟩
    · rw [does] at same
      cases same
    · rw [does] at same
      cases same
    · rw [does] at same
      cases same
    · exact ⟨object, rfl, unsized⟩
  | _ => cases same

/-- Nobody is killed, and whoever is attached has an object with a size. -/
structure Sound (system : System) : Prop where
  alive : NoneKilled system
  sized : ∀ number object, system.stage number = .attached object →
    system.kernel.size object ≠ 0

theorem Sound.step (sound : Sound system) (step : Step system after)
    (maps : MapsSized system after) : Sound after := by
  cases step with
  | @of number later next acts =>
    constructor
    · intro other killed
      by_cases same : other = number
      · subst same
        obtain ⟨object, attached, unsized⟩ := acts.killed (by simpa using killed)
        exact sound.sized other object attached unsized
      · exact sound.alive other (by simpa [same] using killed)
    · intro other object attached
      apply acts.sized
      by_cases same : other = number
      · subst same
        rcases acts.attached (by simpa using attached) with opened | before
        · exact maps other object opened attached
        · exact sound.sized other object before
      · exact sound.sized other object (by simpa [same] using attached)

theorem Acts.opened {object : Nat} (acts : Acts kernel stage later next)
    (same : stage = .opened object) : later = kernel := by
  cases acts with
  | mmap | mmapFails => rfl
  | _ => cases same

/-- With an object without a size an instance is one line away from being killed. -/
theorem killed_of_unsized {number object : Nat} (attached : system.stage number = .attached object)
    (unsized : system.kernel.size object = 0) :
    ∃ after, Step system after ∧ ¬ NoneKilled after := by
  have fits : ['*'].length < INPUT := by decide
  have does : obey system.kernel object ['*'] = (system.kernel, .killed) := by
    simp [obey, command, unsized]
  have acts : Acts system.kernel (.attached object) (obey system.kernel object ['*']).1
      (obey system.kernel object ['*']).2 := .obey object fits
  rw [does, ← attached] at acts
  exact ⟨_, .of number acts, fun none => none number (by simp)⟩

/-- In a run in which every object has its size when it is mapped nobody uses one without; from
any other run one step more leads to such a use. -/
theorem sized_before_use (system : System) :
    ((instances.restrict MapsSized).Reachable system → NoneKilled system) ∧
      ∀ after, instances.Reachable system → Step system after → ¬ MapsSized system after →
        ∃ later, Step after later ∧ ¬ NoneKilled later := by
  constructor
  · intro reachable
    refine (reachable.invariant Sound ?_ ?_).alive
    · rintro start ⟨-, fresh⟩
      exact ⟨fun number => by simp [fresh], fun number object => by simp [fresh]⟩
    · exact fun sound ⟨step, maps⟩ => sound.step step maps
  · intro after _ step against
    simp only [MapsSized, not_forall, not_not] at against
    obtain ⟨number, object, opened, attached, unsized⟩ := against
    refine killed_of_unsized attached ?_
    cases step with
    | @of other later next acts =>
      by_cases same : number = other
      · subst same
        rwa [acts.opened opened]
      · have still : Function.update system.stage other next number = .opened object := by
          simp [same, opened]
        cases still.symm.trans attached

theorem mapsSized_of {number : Nat} (sized : ∀ object, system.stage number = .opened object →
    next = .attached object → system.kernel.size object ≠ 0) :
    MapsSized system ⟨later, Function.update system.stage number next⟩ := by
  intro other object opened attached
  by_cases same : other = number
  · subst same
    exact sized object opened (by simpa using attached)
  · have still : Function.update system.stage number next other = .opened object := by
      simp [same, opened]
    cases still.symm.trans attached

private theorem created : (instances.restrict MapsSized).Reachable
    ⟨⟨[[]], some 0⟩, Function.update (fun _ => .start) 0 (.created 0)⟩ := by
  have start : (instances.restrict MapsSized).Reachable ⟨⟨[], none⟩, fun _ => .start⟩ :=
    .start ⟨rfl, fun _ => rfl⟩
  exact start.next ⟨.of 0 (.create rfl), mapsSized_of nofun⟩

/-- One instance creates the object and gives it its size, another one maps it. -/
theorem sized_before_use_two : ∃ system, (instances.restrict MapsSized).Reachable system ∧
    system.stage 1 = .attached 0 ∧ NoneKilled system := by
  have sized := created.next ⟨.of 0 (.ftruncate 0), mapsSized_of nofun⟩
  have found := sized.next ⟨.of 1 (.find nofun), mapsSized_of nofun⟩
  have opened := found.next ⟨.of 1 (.open' rfl), mapsSized_of nofun⟩
  have attached := opened.next ⟨.of 1 (.mmap 0), mapsSized_of fun object _ same => ?_⟩
  · exact ⟨_, attached, rfl, (sized_before_use _).1 attached⟩
  · cases same
    have size := size_ftruncate (show 0 < (⟨[[]], some 0⟩ : Kernel).objects.length from Nat.zero_lt_one)
    exact size ▸ (by decide : SZ_SHM_SEGMENT ≠ 0)

/-- A second instance maps the object and reads it before it has its size. -/
theorem not_sized_before_use : ¬ ∀ system, instances.Reachable system → NoneKilled system := by
  intro all
  have found := created.of_restrict.next (.of 1 (.find nofun))
  have opened := found.next (.of 1 (.open' rfl))
  let system : System := ⟨⟨[[]], some 0⟩, Function.update (Function.update (Function.update
    (Function.update (fun _ => .start) 0 (.created 0)) 1 .found) 1 (.opened 0)) 1 (.attached 0)⟩
  have attached : instances.Reachable system := opened.next (.of 1 (.mmap 0))
  have second : system.stage 1 = .attached 0 := rfl
  obtain ⟨killed, step, some⟩ := killed_of_unsized second rfl
  exact some (all killed (attached.next step))

end Lsnp.PosixShm
