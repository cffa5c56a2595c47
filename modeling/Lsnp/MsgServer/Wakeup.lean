import Lsnp.MsgServer.Queue

namespace Lsnp.MsgServer

open Lsnp.Interaction

variable {arrives : Enqueue → Prop} {state after : State}

/-- Whoever sleeps found the queue empty; if it is not any more, the signal is next. -/
def NotForgotten (state : State) : Prop :=
  state.collector = .waiting → state.qCount = 0 ∨ state.receiver = .signalling

theorem step_notForgotten (held : NotForgotten state) (step : Step arrives state after) :
    NotForgotten after := by
  intro asleep
  cases step with
  | countUp at' => exact .inr rfl
  | sleep at' empty => exact .inl empty
  | signal at' =>
    -- nobody is asleep behind the signal
    cases place : state.collector <;> simp [place] at asleep
  | unlock at' | receive at' | lock at' | accept at' | drop at' | storeIp at' | storeMessage at'
  | advanceTail at' =>
    rcases held asleep with empty | signals
    · exact .inl empty
    · rw [at'] at signals
      cases signals
  | openLog | giveUp | lockQueue | wake | relock | goOn | copy | advanceHead | countDown
  | unlockQueue | log => cases asleep

theorem notForgotten_of_reachable (reachable : (server arrives).Reachable state) :
    Invariant state ∧ NotForgotten state := by
  apply reachable.invariant fun state => Invariant state ∧ NotForgotten state
  · rintro _ rfl
    exact ⟨initial_invariant, nofun⟩
  · rintro state after ⟨invariant, held⟩ step
    exact ⟨step_invariant invariant step, step_notForgotten held step⟩

/-- If `msg_collect` sleeps though there are messages, the receiving thread has the mutex and is
about to signal, and in every next step `msg_collect` gets its wake-up; and it takes no entry from
an empty queue. -/
theorem no_lost_wakeup (reachable : (server arrives).Reachable state) :
    (0 < state.qCount → state.collector = .waiting →
      state.qMutex = some .receiving ∧ state.receiver = .signalling ∧
        ∀ after, Step arrives state after → after.collector = .woken) ∧
      (state.collector = .copying → 0 < state.qCount) := by
  obtain ⟨invariant, held⟩ := notForgotten_of_reachable reachable
  constructor
  · intro some asleep
    have signals : state.receiver = .signalling :=
      (held asleep).resolve_left (Nat.ne_of_gt some)
    obtain ⟨owner, -, -⟩ := invariant.storing (by rw [signals]; rfl)
    refine ⟨owner, signals, fun after step => ?_⟩
    cases step with
    | signal at' => simp [asleep]
    | wake at' => rfl
    | receive at' | lock at' | accept at' | drop at' | storeIp at' | storeMessage at'
  | advanceTail at' | countUp at' | unlock at' =>
      rw [signals] at at'
      cases at'
    | openLog at' | giveUp at' | lockQueue at' | sleep at' | relock at' | goOn at' | copy at'
  | advanceHead at' | countDown at' | unlockQueue at' | log at' =>
      rw [asleep] at at'
      cases at'
  · intro copying
    obtain ⟨-, -, taking⟩ := invariant.taking (by rw [copying]; rfl)
    rw [State.taking, copying] at taking
    exact taking.2

private theorem unsignalled : ∃ state, (server received).Reachable state ∧ 0 < state.qCount ∧
    state.collector = .waiting := by
  have start : (server received).Reachable .initial := .start rfl
  have opened := start.next (Step.openLog rfl)
  have locked := opened.next (Step.lockQueue rfl rfl)
  have asleep := locked.next (Step.sleep rfl rfl)
  have came : received ⟨.of (inetNtoa (127, 0, 0, 1)), .of "hello".toList⟩ :=
    ⟨(127, 0, 0, 1), some "hello".toList, rfl⟩
  obtain ⟨stored, reachable, -, collector, count, -⟩ := enqueue_runs asleep rfl rfl (by decide) came
  exact ⟨stored, reachable, by rw [count]; exact Nat.succ_pos _, collector⟩

/-- The one that sleeps is woken by the signal, whichever thread goes on. -/
theorem no_lost_wakeup_message : ∃ state : State, 0 < state.qCount ∧ state.collector = .waiting ∧
    state.qMutex = some .receiving ∧ state.receiver = .signalling ∧
    ∀ after, Step received state after → after.collector = .woken := by
  obtain ⟨state, reachable, some, asleep⟩ := unsignalled
  exact ⟨state, some, asleep, (no_lost_wakeup reachable).1 some asleep⟩

/-- Between the count and the signal a message is in the queue, `msg_collect` sleeps and
no wake-up has been sent. -/
theorem not_awake_before_signal : ¬ ∀ state, (server received).Reachable state →
    ¬ (0 < state.qCount ∧ state.collector = .waiting) := by
  intro never
  obtain ⟨state, reachable, some, asleep⟩ := unsignalled
  exact never state reachable ⟨some, asleep⟩

end Lsnp.MsgServer
