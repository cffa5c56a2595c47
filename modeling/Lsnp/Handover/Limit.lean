import Lsnp.Handover.Delivery

namespace Lsnp.Handover

open Lsnp.Interaction Lsnp.Libc Lsnp.SysV

/-- The values of the semaphores, and how often each program has taken and given a turn. -/
structure Stands (set : Semaphores Program) (write read sent given taken returned : Nat) : Prop where
  write : set.values 0 = write
  read : set.values 1 = read
  sent : set.undo .sender 0 = sent
  given : set.undo .sender 1 = -given
  taken : set.undo .receiver 1 = taken
  returned : set.undo .receiver 0 = -returned

section

variable {set : Semaphores Program} {write read sent given taken returned : Nat}

theorem Stands.senderTakes (stands : Stands set 1 read sent given taken returned)
    (few : sent < Semaphores.SEMVMX) :
    Stands (set.semop .sender 0 (-1)) 0 read (sent + 1) given taken returned := by
  obtain ⟨write, read, sent, given, taken, returned⟩ := stands
  have fits : set.inRange .sender 0 (-1) := by
    unfold Semaphores.inRange
    omega
  rw [Semaphores.semop, if_pos fits]
  constructor <;> simp [*]

theorem Stands.senderGives (stands : Stands set write 0 sent given taken returned)
    (few : given ≤ Semaphores.SEMVMX) :
    Stands (set.semop .sender 1 1) write 1 sent (given + 1) taken returned := by
  obtain ⟨write, read, sent, given, taken, returned⟩ := stands
  have one : 1 ≤ Semaphores.SEMVMX := by decide
  have fits : set.inRange .sender 1 1 := by
    unfold Semaphores.inRange
    omega
  rw [Semaphores.semop, if_pos fits]
  constructor <;> simp [*]
  omega

theorem Stands.receiverTakes (stands : Stands set write 1 sent given taken returned)
    (few : taken < Semaphores.SEMVMX) :
    Stands (set.semop .receiver 1 (-1)) write 0 sent given (taken + 1) returned := by
  obtain ⟨write, read, sent, given, taken, returned⟩ := stands
  have fits : set.inRange .receiver 1 (-1) := by
    unfold Semaphores.inRange
    omega
  rw [Semaphores.semop, if_pos fits]
  constructor <;> simp [*]

theorem Stands.receiverGives (stands : Stands set 0 read sent given taken returned)
    (few : returned ≤ Semaphores.SEMVMX) :
    Stands (set.semop .receiver 0 1) 1 read sent given taken (returned + 1) := by
  obtain ⟨write, read, sent, given, taken, returned⟩ := stands
  have one : 1 ≤ Semaphores.SEMVMX := by decide
  have fits : set.inRange .receiver 0 1 := by
    unfold Semaphores.inRange
    omega
  rw [Semaphores.semop, if_pos fits]
  constructor <;> simp [*]
  omega

/-- Behind so many turns `semop` fails, and the sender takes its turn all the same. -/
theorem Stands.senderFails (stands : Stands set write read Semaphores.SEMVMX given taken returned) :
    set.semop .sender 0 (-1) = set := by
  have sent := stands.sent
  refine if_neg fun fits => ?_
  unfold Semaphores.inRange at fits
  omega

theorem Stands.receiverFails (stands : Stands set write read sent given Semaphores.SEMVMX returned) :
    set.semop .receiver 1 (-1) = set := by
  have taken := stands.taken
  refine if_neg fun fits => ?_
  unfold Semaphores.inRange at fits
  omega

end

variable {count done sent : Nat} {state : State}

/-- So many messages have been handed over, and both programs are in front of their `semop`. -/
structure Between (count done : Nat) (state : State) : Prop where
  reachable : (programs count).Reachable state
  sender : state.sender = .taking done
  receiver : state.receiver = .taking
  senderSegment : state.senderSegment = .got 0
  senderSet : state.senderSet = .got 0
  receiverSegment : state.receiverSegment = .got 0
  receiverSet : state.receiverSet = .got 0
  here : state.sets.has 0
  stands : Stands (state.sets.objects 0) 1 0 done done done done

theorem between_zero (count : Nat) : ∃ state, Between count 0 state := by
  have start : (programs count).Reachable .initial := .start rfl
  have segment := start.next (.inl (.getSegment rfl (.make rfl)))
  have set := segment.next (.inl (.getSet rfl rfl (.make rfl)))
  have first := set.next (.inl (.setFirst rfl rfl))
  have second := first.next (.inl (.setSecond rfl rfl))
  have attached := second.next (.inl (.attach rfl))
  have there := attached.next (.inr (.getSegment rfl (.there rfl)))
  have found := there.next (.inr (.getSegment rfl (.find rfl)))
  have known := found.next (.inr (.getSet rfl rfl (.there rfl)))
  have got := known.next (.inr (.getSet rfl rfl (.find rfl)))
  have waiting := got.next (.inr (.attach rfl rfl))
  exact ⟨_, waiting, rfl, rfl, rfl, rfl, rfl, rfl, rfl, rfl, rfl, rfl, rfl, rfl, rfl⟩

theorem writes (begun : (programs count).Reachable state) (at' : state.sender = .writing sent 0)
    (segment : state.senderSegment = .got 0) :
    ∃ segments, (programs count).Reachable { state with
        segments := segments
        sender := if sent < count then .printing sent else .detaching } ∧
      cString (segments.objects 0) = text count sent := by
  have written : ∀ written ≤ (text count sent).length, ∃ segments : Objects (List Char),
      (programs count).Reachable { state with
        segments := segments
        sender := .writing sent written } ∧
      written ≤ (segments.objects 0).length ∧
      (segments.objects 0).take written = (text count sent).take written := by
    intro written
    induction written with
    | zero =>
      refine fun _ => ⟨state.segments, ?_, Nat.zero_le _, rfl⟩
      rwa [← at']
    | succ written ih =>
      intro more
      obtain ⟨segments, reachable, inside, so⟩ := ih (Nat.le_of_succ_le more)
      have more : written < (text count sent).length := more
      have char := List.getElem?_eq_getElem more
      obtain ⟨longer, grown⟩ := take_poke inside so char
      have next := reachable.next (.inl (.write rfl segment
        ((List.getElem?_append_left more).trans char)))
      rw [if_pos more] at next
      exact ⟨_, next, by rwa [Objects.objects_modify], by rwa [Objects.objects_modify]⟩
  obtain ⟨segments, reachable, inside, so⟩ := written _ (Nat.le_refl _)
  have last : (text count sent ++ [nul])[(text count sent).length]? = some nul := by simp
  have ended := reachable.next (.inl (.write rfl segment last))
  rw [if_neg (Nat.lt_irrefl _)] at ended
  rw [List.take_length] at so
  refine ⟨_, ended, ?_⟩
  rw [Objects.objects_modify]
  exact cString_poke so (nul_notMem_text count sent)

theorem stands_operate {sets : Objects (Semaphores Program)} (here : sets.has 0)
    (act : Semaphores Program → Semaphores Program) {write read sent given taken returned : Nat}
    (stands : Stands (act (sets.objects 0)) write read sent given taken returned) :
    (sets.operate 0 act).has 0 ∧
      Stands ((sets.operate 0 act).objects 0) write read sent given taken returned := by
  rw [Objects.operate_of_has here]
  exact ⟨here, by rwa [Objects.objects_modify]⟩

/-- The sender sends the next message, whether its first `semop` fails or not. -/
theorem Between.sends (between : Between count done state) (more : done < count) {write given : Nat}
    (stood : Stands ((state.sets.objects 0).semop .sender 0 (-1)) write 0 given done done done)
    (few : done ≤ Semaphores.SEMVMX) :
    ∃ segments sets, (programs count).Reachable { state with
        segments := segments
        sets := sets
        sender := .taking (done + 1) } ∧
      cString (segments.objects 0) = message done ∧ sets.has 0 ∧
      Stands (sets.objects 0) write 1 given (done + 1) done done := by
  obtain ⟨reachable, sender, receiver, senderSegment, senderSet, -, -, here, stands⟩ := between
  have taken := reachable.next (.inl (.take sender senderSet fun _ => by
    rw [stands.write]
    exact Nat.one_pos))
  obtain ⟨first, stood⟩ := stands_operate here (·.semop .sender 0 (-1)) stood
  obtain ⟨segments, written, string⟩ := writes taken rfl senderSegment
  rw [if_pos more] at written
  rw [text, if_pos more] at string
  have given := (written.next (.inl (.print rfl))).next (.inl (.give rfl senderSet))
  obtain ⟨second, stood⟩ := stands_operate first (·.semop .sender 1 1) (stood.senderGives few)
  exact ⟨segments, _, given, string, second, stood⟩

theorem Between.round (between : Between count done state) (more : done < count)
    (few : done < Semaphores.SEMVMX) : ∃ later, Between count (done + 1) later := by
  obtain ⟨segments, sets, sent, string, here, stands⟩ :=
    between.sends more (between.stands.senderTakes few) (Nat.le_of_lt few)
  obtain ⟨-, -, receiver, senderSegment, senderSet, receiverSegment, receiverSet, -, -⟩ := between
  have taken := sent.next (.inr (.take receiver receiverSet fun _ => by
    change 0 < (sets.objects 0).values 1
    rw [stands.read]
    exact Nat.one_pos))
  obtain ⟨first, stands⟩ := stands_operate here (·.semop .receiver 1 (-1)) (stands.receiverTakes few)
  have compared := taken.next (.inr (.compareEnd rfl receiverSegment))
  rw [if_neg (by change cString _ ≠ _; rw [string]; exact message_ne_ending _)] at compared
  have filled := compared.next (.inr (.compareEmpty rfl receiverSegment))
  rw [if_neg (by change cString _ ≠ _; rw [string]; exact message_ne_nil _)] at filled
  have printed := filled.next (.inr (.print rfl receiverSegment))
  have given := printed.next (.inr (.give rfl receiverSet))
  obtain ⟨second, stands⟩ := stands_operate first (·.semop .receiver 0 1)
    (stands.receiverGives (Nat.le_of_lt few))
  have delayed := given.next (.inr (.delay rfl))
  exact ⟨_, delayed, rfl, rfl, senderSegment, senderSet, receiverSegment, receiverSet, second, stands⟩

theorem between {done : Nat} (few : done ≤ Semaphores.SEMVMX) (more : done ≤ count) :
    ∃ state, Between count done state := by
  induction done with
  | zero => exact between_zero count
  | succ done ih =>
    obtain ⟨state, between⟩ := ih (Nat.le_of_succ_le few) (Nat.le_of_succ_le more)
    exact between.round more few

/-- With more messages than an adjustment can count, the sender comes to write what the receiver may
be reading. -/
theorem not_exclusive (many : Semaphores.SEMVMX < count) : ∃ state sent written,
    (programs count).Reachable state ∧ state.sender = .writing sent written ∧
      state.receiver.reads = true := by
  obtain ⟨state, between⟩ := between (Nat.le_refl Semaphores.SEMVMX) (Nat.le_of_lt many)
  have failed := between.stands.senderFails
  obtain ⟨segments, sets, sent, -, here, stands⟩ :=
    between.sends many (failed ▸ between.stands) (Nat.le_refl _)
  have taken := sent.next (.inr (.take between.receiver between.receiverSet fun _ => by
    change 0 < (sets.objects 0).values 1
    rw [stands.read]
    exact Nat.one_pos))
  obtain ⟨first, stood⟩ := stands_operate here (·.semop .receiver 1 (-1))
    (stands.receiverFails ▸ stands)
  have begun := taken.next (.inl (.take rfl between.senderSet fun _ => by
    change 0 < ((sets.operate 0 _).objects 0).values 0
    rw [stood.write]
    exact Nat.one_pos))
  exact ⟨_, _, _, begun, rfl, rfl⟩

/-- With 32768 messages the sender writes while the receiver may be reading. -/
theorem not_hands_over : ¬ ∀ state, (programs 32768).Reachable state → HandsOver 32768 state := by
  intro handsOver
  obtain ⟨state, sent, written, reachable, place, reads⟩ := not_exclusive (by decide : Semaphores.SEMVMX < 32768)
  have still := (handsOver state reachable).exclusive sent written place
  rw [reads] at still
  cases still

end Lsnp.Handover
