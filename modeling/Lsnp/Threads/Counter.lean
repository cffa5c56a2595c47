import Mathlib.Algebra.BigOperators.Group.Finset.Basic
import Lsnp.Interaction.Machine

/-! The shared counter of `ch08/ex05.c`: each thread reads it into a variable of its own and
writes back one more, under a mutex. A step is one access to what the threads share. -/

namespace Lsnp.Threads.Counter

open Lsnp.Interaction

/-- `int`. -/
abbrev CInt := BitVec 32

/-- Where a thread is: at the head of the loop, in front of the text `from a`, of the read,
of the write, of the text `to b`, of `pthread_mutex_unlock`, or behind the loop. -/
inductive Place where
  | head
  | locked
  | reading (from' : CInt)
  | writing (from' temp : CInt)
  | written (from' : CInt)
  | unlocking
  | returned
  deriving DecidableEq

/-- The pairs `from a to b` are those that the thread has printed. -/
structure Thread where
  place : Place
  loopCount : Nat
  printed : List (CInt × CInt)
  deriving DecidableEq

structure State where
  commonCounter : CInt
  owner : Option Nat
  threads : Nat → Thread

def State.go (state : State) (number : Nat) (thread : Thread) : State :=
  { state with threads := Function.update state.threads number thread }

/-- A step of `inc_thread` with this bound for the loop. -/
inductive IncThread (bound number : Nat) (state : State) : State → Prop where
  | lock (at' : (state.threads number).place = .head)
      (more : (state.threads number).loopCount < bound) (free : state.owner = none) :
      IncThread bound number state { state.go number { state.threads number with
          place := .locked } with
        owner := some number }
  | printFrom (at' : (state.threads number).place = .locked) :
      IncThread bound number state (state.go number { state.threads number with
        place := .reading state.commonCounter })
  | read {from' : CInt} (at' : (state.threads number).place = .reading from') :
      IncThread bound number state (state.go number { state.threads number with
        place := .writing from' state.commonCounter })
  | write {from' temp : CInt} (at' : (state.threads number).place = .writing from' temp) :
      IncThread bound number state { state.go number { state.threads number with
          place := .written from' } with
        commonCounter := temp + 1 }
  | printTo {from' : CInt} (at' : (state.threads number).place = .written from') :
      IncThread bound number state (state.go number { state.threads number with
        place := .unlocking
        printed := (state.threads number).printed ++ [(from', state.commonCounter)] })
  | unlock (at' : (state.threads number).place = .unlocking) :
      IncThread bound number state { state.go number { state.threads number with
          place := .head
          loopCount := (state.threads number).loopCount + 1 } with
        owner := none }
  | return' (at' : (state.threads number).place = .head)
      (done : bound ≤ (state.threads number).loopCount) :
      IncThread bound number state (state.go number { state.threads number with
        place := .returned })

/-- So many threads, each with its bound, and any value of the counter at the start. -/
def counting (bounds : Nat → Nat) (count : Nat) (start : CInt) : Machine State where
  initial state := state.commonCounter = start ∧ state.owner = none ∧
    ∀ number, state.threads number = ⟨.head, 0, []⟩
  step state after := ∃ number < count, IncThread (bounds number) number state after

def Place.inside : Place → Bool
  | .head | .returned => false
  | _ => true

/-- No update is lost. -/
structure NothingLost (bounds : Nat → Nat) (count : Nat) (start : CInt) (state : State) : Prop where
  alone : ∀ one < count, ∀ two < count, (state.threads one).place.inside = true →
    (state.threads two).place.inside = true → one = two
  pairs : ∀ number < count, ∀ pair ∈ (state.threads number).printed, pair.2 = pair.1 + 1
  total : (∀ number < count, (state.threads number).place = .returned) →
    state.commonCounter = start + BitVec.ofNat 32 (∑ number ∈ Finset.range count, bounds number)
  exactly : (∀ number < count, (state.threads number).place = .returned) →
    start.toInt + (∑ number ∈ Finset.range count, bounds number : Nat) < 2 ^ 31 →
    state.commonCounter.toInt = start.toInt + (∑ number ∈ Finset.range count, bounds number : Nat)

variable {bounds : Nat → Nat} {count : Nat} {start : CInt} {state after : State}

def Thread.writes (thread : Thread) : Nat :=
  match thread.place with
  | .written _ | .unlocking => thread.loopCount + 1
  | _ => thread.loopCount

def Thread.Knows (thread : Thread) (counter : CInt) : Prop :=
  match thread.place with
  | .reading from' => from' = counter
  | .writing from' temp => from' = counter ∧ temp = counter
  | .written from' => counter = from' + 1
  | _ => True

/-- The thread's own account: each pair goes up by one, and a thread inside has an iteration
to go. -/
structure Thread.Sound (thread : Thread) (bound : Nat) : Prop where
  pairs : ∀ pair ∈ thread.printed, pair.2 = pair.1 + 1
  bounded : thread.place = .returned → thread.loopCount = bound
  within : thread.loopCount + thread.place.inside.toNat ≤ bound

/-- The owner of the mutex is the thread inside, which alone may know the counter; the
counter tells how often it was written. -/
structure Locked (bounds : Nat → Nat) (count : Nat) (start : CInt) (state : State) : Prop where
  owns : ∀ number, (state.threads number).place.inside = true ↔ state.owner = some number
  knows : ∀ number, (state.threads number).Knows state.commonCounter
  sound : ∀ number, (state.threads number).Sound (bounds number)
  sum : state.commonCounter =
    start + BitVec.ofNat 32 (∑ number ∈ Finset.range count, (state.threads number).writes)

private theorem knows_outside {thread : Thread} (outside : thread.place.inside = false)
    (counter : CInt) : thread.Knows counter := by
  unfold Thread.Knows
  split <;> simp_all [Place.inside]

private theorem forall_go {number : Nat} {thread : Thread} (property : Nat → Thread → Prop)
    (here : property number thread) (others : ∀ other, other ≠ number →
      property other (state.threads other)) (other : Nat) :
    property other ((state.go number thread).threads other) := by
  show property other (Function.update state.threads number thread other)
  by_cases same : other = number
  · subst same
    rwa [Function.update_self]
  · rw [Function.update_of_ne same]
    exact others other same

private theorem sum_go {number : Nat} {thread : Thread}
    (same : thread.writes = (state.threads number).writes) :
    ∑ other ∈ Finset.range count, ((state.go number thread).threads other).writes =
      ∑ other ∈ Finset.range count, (state.threads other).writes := by
  apply Finset.sum_congr rfl
  intro other _
  apply forall_go (fun other thread => thread.writes = (state.threads other).writes) same
  intro other _
  rfl

private theorem sum_write {number : Nat} {thread : Thread} (inside : number < count)
    (more : thread.writes = (state.threads number).writes + 1) :
    ∑ other ∈ Finset.range count, ((state.go number thread).threads other).writes =
      ∑ other ∈ Finset.range count, (state.threads other).writes + 1 := by
  have member : number ∈ Finset.range count := Finset.mem_range.mpr inside
  rw [← Finset.add_sum_erase _ _ member, ← Finset.add_sum_erase (Finset.range count) (fun other =>
    (state.threads other).writes) member]
  have others : ∑ other ∈ (Finset.range count).erase number,
      ((state.go number thread).threads other).writes =
        ∑ other ∈ (Finset.range count).erase number, (state.threads other).writes := by
    apply Finset.sum_congr rfl
    intro other apart
    show (Function.update state.threads number thread other).writes = _
    rw [Function.update_of_ne (Finset.ne_of_mem_erase apart)]
  have here : ((state.go number thread).threads number).writes =
      (state.threads number).writes + 1 := by
    show (Function.update state.threads number thread number).writes = _
    rw [Function.update_self, more]
  rw [others, here]
  omega

private theorem locked_go {number : Nat} {thread : Thread} (locked : Locked bounds count start state)
    (inside : thread.place.inside = (state.threads number).place.inside)
    (knows : thread.Knows state.commonCounter) (sound : thread.Sound (bounds number))
    (writes : thread.writes = (state.threads number).writes) :
    Locked bounds count start (state.go number thread) where
  owns := by
    apply forall_go fun other thread => (thread.place.inside = true ↔ state.owner = some other)
    · rw [inside]
      exact locked.owns number
    · exact fun other _ => locked.owns other
  knows := by
    apply forall_go fun _ thread => thread.Knows state.commonCounter
    · exact knows
    · exact fun other _ => locked.knows other
  sound := by
    apply forall_go fun other thread => thread.Sound (bounds other)
    · exact sound
    · exact fun other _ => locked.sound other
  sum := by
    rw [sum_go writes]
    exact locked.sum

private theorem Thread.Sound.at_place {thread : Thread} {bound : Nat} (sound : thread.Sound bound)
    {place : Place} (same : place.inside = thread.place.inside) (stays : place ≠ .returned) :
    Thread.Sound { thread with place := place } bound := by
  refine ⟨sound.pairs, fun gone => (stays gone).elim, ?_⟩
  show thread.loopCount + place.inside.toNat ≤ bound
  rw [same]
  exact sound.within

private theorem outside_of_owner (locked : Locked bounds count start state) {number other : Nat}
    (owner : state.owner = none ∨ state.owner = some number) (apart : other ≠ number) :
    (state.threads other).place.inside = false := by
  apply Bool.eq_false_iff.mpr
  intro inside
  have owns := (locked.owns other).mp inside
  rcases owner with free | mine
  · rw [free] at owns
    cases owns
  · rw [mine] at owns
    exact apart (Option.some.inj owns).symm

private theorem locked_lock {number : Nat} (locked : Locked bounds count start state)
    (at' : (state.threads number).place = .head)
    (more : (state.threads number).loopCount < bounds number) (free : state.owner = none) :
    Locked bounds count start { state.go number { state.threads number with place := .locked } with
      owner := some number } := by
  have sound := locked.sound number
  have within : (state.threads number).loopCount + 1 ≤ bounds number := more
  refine ⟨?_, ?_, ?_, ?_⟩
  · apply forall_go fun other thread => (thread.place.inside = true ↔ some number = some other)
    · exact iff_of_true rfl rfl
    · intro other apart
      rw [outside_of_owner locked (.inl free) apart]
      exact iff_of_false Bool.false_ne_true fun same => apart (Option.some.inj same).symm
  · apply forall_go fun _ thread => thread.Knows state.commonCounter
    · trivial
    · exact fun other _ => locked.knows other
  · apply forall_go fun other thread => thread.Sound (bounds other)
    · exact ⟨sound.pairs, fun gone => (nomatch gone), within⟩
    · exact fun other _ => locked.sound other
  · show state.commonCounter = _
    rw [locked.sum, ← sum_go]
    simp [Thread.writes, at']

private theorem locked_write {number : Nat} (locked : Locked bounds count start state)
    (present : number < count) {from' temp : CInt}
    (at' : (state.threads number).place = .writing from' temp) :
    Locked bounds count start { state.go number { state.threads number with
        place := .written from' } with
      commonCounter := temp + 1 } := by
  have owner : state.owner = some number := (locked.owns number).mp (by rw [at']; rfl)
  have knows := locked.knows number
  rw [Thread.Knows, at'] at knows
  obtain ⟨rfl, rfl⟩ := knows
  refine ⟨?_, ?_, ?_, ?_⟩
  · apply forall_go fun other thread => (thread.place.inside = true ↔ state.owner = some other)
    · exact iff_of_true rfl owner
    · exact fun other _ => locked.owns other
  · apply forall_go fun _ thread => thread.Knows (state.commonCounter + 1)
    · rfl
    · exact fun other apart => knows_outside (outside_of_owner locked (.inr owner) apart) _
  · apply forall_go fun other thread => thread.Sound (bounds other)
    · exact (locked.sound number).at_place (by rw [at']; rfl) (by simp)
    · exact fun other _ => locked.sound other
  · show state.commonCounter + 1 = start + BitVec.ofNat 32
      (∑ other ∈ Finset.range count, ((state.go number _).threads other).writes)
    rw [sum_write present (by simp [Thread.writes, at']), BitVec.ofNat_add, ← BitVec.add_assoc,
      ← locked.sum]
    rfl

private theorem locked_unlock {number : Nat} (locked : Locked bounds count start state)
    (at' : (state.threads number).place = .unlocking) :
    Locked bounds count start { state.go number { state.threads number with
        place := .head
        loopCount := (state.threads number).loopCount + 1 } with
      owner := none } := by
  have sound := locked.sound number
  have owner : state.owner = some number := (locked.owns number).mp (by rw [at']; rfl)
  refine ⟨?_, ?_, ?_, ?_⟩
  · apply forall_go fun other thread => (thread.place.inside = true ↔ none = some other)
    · exact iff_of_false Bool.false_ne_true (by simp)
    · intro other apart
      rw [outside_of_owner locked (.inr owner) apart]
      exact iff_of_false Bool.false_ne_true (by simp)
  · apply forall_go fun _ thread => thread.Knows state.commonCounter
    · trivial
    · exact fun other _ => locked.knows other
  · apply forall_go fun other thread => thread.Sound (bounds other)
    · refine ⟨sound.pairs, fun gone => (nomatch gone), ?_⟩
      have within := sound.within
      rw [at'] at within
      exact within
    · exact fun other _ => locked.sound other
  · show state.commonCounter = _
    rw [locked.sum, ← sum_go]
    simp [Thread.writes, at']

private theorem locked_step {number : Nat} (locked : Locked bounds count start state)
    (present : number < count) (step : IncThread (bounds number) number state after) :
    Locked bounds count start after := by
  have sound := locked.sound number
  have knows := locked.knows number
  cases step with
  | lock at' more free => exact locked_lock locked at' more free
  | printFrom at' =>
    apply locked_go locked
    · rw [at']
      rfl
    · rfl
    · exact sound.at_place (by rw [at']; rfl) (by simp)
    · simp [Thread.writes, at']
  | read at' =>
    apply locked_go locked
    · rw [at']
      rfl
    · rw [Thread.Knows, at'] at knows
      exact ⟨knows, rfl⟩
    · exact sound.at_place (by rw [at']; rfl) (by simp)
    · simp [Thread.writes, at']
  | write at' => exact locked_write locked present at'
  | @printTo from' at' =>
    apply locked_go locked
    · rw [at']
      rfl
    · trivial
    · rw [Thread.Knows, at'] at knows
      refine ⟨?_, fun gone => (nomatch gone), ?_⟩
      · intro pair member
        rcases List.mem_append.mp member with before | last
        · exact sound.pairs pair before
        · obtain rfl := List.mem_singleton.mp last
          exact knows
      · have within := sound.within
        rw [at'] at within
        exact within
    · simp [Thread.writes, at']
  | unlock at' => exact locked_unlock locked at'
  | return' at' done =>
    have within := sound.within
    rw [at'] at within
    apply locked_go locked
    · rw [at']
      rfl
    · trivial
    · exact ⟨sound.pairs, fun _ => Nat.le_antisymm within done, within⟩
    · simp [Thread.writes, at']

theorem locked (reachable : (counting bounds count start).Reachable state) :
    Locked bounds count start state := by
  apply reachable.invariant (Locked bounds count start)
  · rintro state ⟨counter, owner, threads⟩
    refine ⟨fun number => ?_, fun number => ?_, fun number => ?_, ?_⟩
    · rw [threads, owner]
      exact iff_of_false Bool.false_ne_true (by simp)
    · rw [threads]
      trivial
    · rw [threads]
      exact ⟨by simp, fun gone => (nomatch gone), Nat.zero_le _⟩
    · simp [threads, counter, Thread.writes]
  · rintro state after locked ⟨number, present, step⟩
    exact locked_step locked present step

private theorem toInt_add (start : CInt) {more : Nat} (fits : start.toInt + more < 2 ^ 31) :
    (start + BitVec.ofNat 32 more).toInt = start.toInt + more := by
  have low := BitVec.le_toInt start
  rw [BitVec.toInt_add, BitVec.toInt_ofNat', Int.add_bmod_bmod]
  apply Int.bmod_eq_of_le
  · omega
  · omega

private theorem total (locked : Locked bounds count start state)
    (returned : ∀ number < count, (state.threads number).place = .returned) :
    state.commonCounter =
      start + BitVec.ofNat 32 (∑ number ∈ Finset.range count, bounds number) := by
  rw [locked.sum]
  congr 2
  apply Finset.sum_congr rfl
  intro number member
  have gone := returned number (Finset.mem_range.mp member)
  rw [Thread.writes, gone]
  exact (locked.sound number).bounded gone

/-- Whatever the order of the steps of any number of threads, no update is lost. -/
theorem nothing_lost (reachable : (counting bounds count start).Reachable state) :
    NothingLost bounds count start state := by
  have locked := locked reachable
  refine ⟨fun one _ two _ inside inside' => ?_, fun number _ => (locked.sound number).pairs,
    total locked, fun returned fits => ?_⟩
  · have owner := (locked.owns one).mp inside
    rw [(locked.owns two).mp inside'] at owner
    exact (Option.some.inj owner).symm
  · rw [total locked returned]
    exact toInt_add start fits

/-- One thread goes round twice, and another one once between the two. -/
theorem nothing_lost_once :
    ∃ state, (counting (fun number => number + 1) 2 0).Reachable state ∧
      (state.threads 0).printed = [(1, 2)] ∧ (state.threads 1).printed = [(0, 1), (2, 3)] ∧
        state.commonCounter = 3 ∧ NothingLost (fun number => number + 1) 2 0 state := by
  have start : (counting (fun number => number + 1) 2 0).Reachable
      ⟨0, none, fun _ => ⟨.head, 0, []⟩⟩ := .start ⟨rfl, rfl, fun _ => rfl⟩
  have first := start
    |>.next ⟨1, by decide, .lock rfl (by decide) rfl⟩
    |>.next ⟨1, by decide, .printFrom rfl⟩
    |>.next ⟨1, by decide, .read rfl⟩
    |>.next ⟨1, by decide, .write rfl⟩
    |>.next ⟨1, by decide, .printTo rfl⟩
    |>.next ⟨1, by decide, .unlock rfl⟩
  have second := first
    |>.next ⟨0, by decide, .lock rfl (by decide) rfl⟩
    |>.next ⟨0, by decide, .printFrom rfl⟩
    |>.next ⟨0, by decide, .read rfl⟩
    |>.next ⟨0, by decide, .write rfl⟩
    |>.next ⟨0, by decide, .printTo rfl⟩
    |>.next ⟨0, by decide, .unlock rfl⟩
    |>.next ⟨0, by decide, .return' rfl (by decide)⟩
  have run := second
    |>.next ⟨1, by decide, .lock rfl (by decide) rfl⟩
    |>.next ⟨1, by decide, .printFrom rfl⟩
    |>.next ⟨1, by decide, .read rfl⟩
    |>.next ⟨1, by decide, .write rfl⟩
    |>.next ⟨1, by decide, .printTo rfl⟩
    |>.next ⟨1, by decide, .unlock rfl⟩
    |>.next ⟨1, by decide, .return' rfl (by decide)⟩
  exact ⟨_, run, rfl, rfl, rfl, nothing_lost run⟩

end Lsnp.Threads.Counter
