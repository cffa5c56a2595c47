import Lsnp.Interaction.Settled
import Lsnp.Lab.Calls
import Lsnp.Lab.Rounds
import Lsnp.Lab.Zombies

namespace Lsnp.Lab

open Lsnp.Interaction Lsnp.Unix

/-- The rest of a line, read from a command, has an `&&` behind the pipeline of that
command. The word after `<` or `>` is no operator. -/
def andAhead : List Text → Bool
  | [] => false
  | token :: rest =>
    match operator token, rest with
    | .none, rest => andAhead rest
    | .pipe, rest => andAhead rest
    | .and, _ => true
    | .background, _ => false
    | .out, [] => false
    | .out, _ :: rest => andAhead rest
    | .input, [] => false
    | .input, _ :: rest => andAhead rest

/-- The process was forked after so many others, for a command with an `&&` ahead. -/
def Spared (tokens : List Text) (first : Nat) (serial : Nat) (fork : Fork) : Prop :=
  first ≤ serial ∧ andAhead (tokens.drop fork.arglist) = true

/-- The handler leaves such processes to the shell. -/
def spares (tokens : List Text) (first : Nat) : World → Process → Prop :=
  fun _ child => ¬ Spared tokens first child.serial child.fork

/-- In some run of the call an `&&` is reached, `started` is the state when its command
has been run, and in `after` this status is about to be looked at. -/
def DecidedOn (service : Service Call Call.Reply World) (tokens : List Text)
    (entry started after : World) (andPid : Option Pid) (lastStatus : Nat) : Prop :=
  ∃ mark interp before args stop, Progress service tokens entry mark interp before ∧
    getOpType interp.args interp.currPtr = some (.and, args, stop) ∧
    service.Reach ({ interp with args := args }.execute interp.fds, before) (.done andPid, started) ∧
    service.Reach (waitAnd (interp.pids ++ andPid.toList) andPid, started) (.done lastStatus, after)

/-- The status is how the process that was forked last has ended. -/
def StatusOfLast (started after : World) (andPid : Option Pid) (lastStatus : Nat) : Prop :=
  ∃ child termination, (forks started.shell.log).getLast? = some child ∧ andPid = some child.pid ∧
    ((forks started.shell.log).length - 1, termination) ∈ after.died ∧
    lastStatus = termination.encode

/-- The pids of the children tell them apart; each child is the process forked at its
place, and if it is a zombie its end is on record. -/
structure Orderly (world : World) : Prop where
  distinct : (world.children.map fun child => child.fork.pid).Nodup
  numbered : ∀ child ∈ world.children, (forks world.shell.log)[child.serial]? = some child.fork
  recorded : ∀ child ∈ world.children, ∀ termination, child.ended = some termination →
    (child.serial, termination) ∈ world.died

variable {mayReap : World → Process → Prop} {world after : World}

theorem initial_orderly : Orderly .initial := ⟨.nil, nofun, nofun⟩

theorem serve_orderly {asked : Call} {reply : asked.Reply} (orderly : Orderly world)
    (served : world.serve asked reply after) : Orderly after := by
  obtain ⟨distinct, numbered, recorded⟩ := orderly
  rcases serve_cases served with ⟨pid, arglist, argv, fresh, rfl⟩ |
    ⟨front, back, child, shell, here, zombie, same, rfl⟩ | ⟨shell, same, rfl⟩
  · refine ⟨?_, ?_, ?_⟩
    · simp only [World.spawn, List.map_append, List.map_cons, List.map_nil]
      refine List.nodup_append.mpr ⟨distinct, List.nodup_singleton _, ?_⟩
      rintro other member _ new rfl
      obtain ⟨child, present, rfl⟩ := List.mem_map.mp member
      exact fresh child present (List.mem_singleton.mp new)
    · intro child member
      simp only [World.spawn, List.mem_append, List.mem_singleton] at member
      simp only [World.spawn, Shell.forks_note_forked]
      rcases member with member | rfl
      · have found := numbered child member
        rw [List.getElem?_append_left (List.getElem?_eq_some_iff.mp found).1]
        exact found
      · simp
    · intro child member termination ended
      simp only [World.spawn, List.mem_append, List.mem_singleton] at member
      rcases member with member | rfl
      · exact recorded child member termination ended
      · cases ended
  · have kept : (front ++ back).Sublist world.children := by
      rw [here]
      exact (List.Sublist.refl front).append (List.sublist_cons_self child back)
    refine ⟨distinct.sublist (kept.map _), ?_, ?_⟩
    · intro other member
      change (forks shell.log)[other.serial]? = some other.fork
      rw [same]
      exact numbered other (kept.subset member)
    · exact fun other member => recorded other (kept.subset member)
  · refine ⟨distinct, ?_, recorded⟩
    simpa [World.advance, same] using numbered

theorem moves_orderly (orderly : Orderly world) (moved : Moves mayReap world after) :
    Orderly after := by
  obtain ⟨distinct, numbered, recorded⟩ := orderly
  have same := moves_shell moved
  have died := moves_died moved
  rcases moves_cases moved with ⟨front, back, child, altered, here, there, serial, fork, -, ended⟩ |
    ⟨front, back, child, here, there, -⟩ | unchanged
  · refine ⟨?_, ?_, ?_⟩
    · simpa [there, here, fork] using distinct
    · intro other member
      rw [same]
      rw [there, List.mem_append, List.mem_cons] at member
      rcases member with before | rfl | behind
      · exact numbered other (by simp [here, before])
      · rw [serial, fork]
        exact numbered child (by simp [here])
      · exact numbered other (by simp [here, behind])
    · intro other member termination atEnd
      rw [there, List.mem_append, List.mem_cons] at member
      rcases member with before | rfl | behind
      · exact died (recorded other (by simp [here, before]) termination atEnd)
      · rw [serial]
        exact ended termination atEnd
      · exact died (recorded other (by simp [here, behind]) termination atEnd)
  · have kept : after.children.Sublist world.children := by
      rw [here, there]
      exact (List.Sublist.refl front).append (List.sublist_cons_self child back)
    refine ⟨distinct.sublist (kept.map _), fun other member => ?_, fun other member _ atEnd => ?_⟩
    · rw [same]
      exact numbered other (kept.subset member)
    · exact died (recorded other (kept.subset member) _ atEnd)
  · refine ⟨by rwa [unchanged], ?_, ?_⟩
    · rwa [unchanged, same]
    · rw [unchanged]
      exact fun other member _ atEnd => died (recorded other member _ atEnd)

theorem settled_orderly {asked : Call} {reply : asked.Reply} (orderly : Orderly world)
    (served : (system mayReap).settled.serve world asked reply after) : Orderly after := by
  apply Service.settled_keeps Orderly Orderly moves_orderly _ moves_orderly served orderly
  intro before after orderly served
  exact serve_orderly orderly (And.right served)

section

variable {tokens : List Text} {first : Nat} {log : List Fork} {owned : List (Nat × Fork)}

/-- These processes are still there for the shell to wait for. -/
structure Owning (tokens : List Text) (first : Nat) (log : List Fork) (owned : List (Nat × Fork))
    (world : World) : Prop where
  orderly : Orderly world
  logged : forks world.shell.log = log
  present : ∀ entry ∈ owned, ∃ child ∈ world.children,
    child.serial = entry.1 ∧ child.fork = entry.2
  spared : ∀ entry ∈ owned, Spared tokens first entry.1 entry.2
  once : (owned.map Prod.fst).Nodup

theorem Owning.only (owning : Owning tokens first log owned world) {last : Nat × Fork}
    (member : last ∈ owned) : ∀ entry ∈ owned, entry.2.pid = last.2.pid → entry = last := by
  intro entry other same
  obtain ⟨child, found, serial, fork⟩ := owning.present entry other
  obtain ⟨child', found', serial', fork'⟩ := owning.present last member
  obtain rfl : child = child' :=
    List.inj_on_of_nodup_map owning.orderly.distinct found found' (by rw [fork, fork', same])
  exact Prod.ext (serial.symm.trans serial') (fork.symm.trans fork')

theorem Owning.distinct (owning : Owning tokens first log owned world) :
    (owned.map fun entry => entry.2.pid).Nodup :=
  List.Nodup.map_on (fun entry member _ other same => owning.only other entry member same)
    (List.Nodup.of_map _ owning.once)

theorem Owning.earlier (owning : Owning tokens first log owned world) {entry : Nat × Fork}
    (member : entry ∈ owned) : entry.1 < log.length := by
  obtain ⟨child, found, serial, -⟩ := owning.present entry member
  rw [← owning.logged, ← serial]
  exact (List.getElem?_eq_some_iff.mp (owning.orderly.numbered child found)).1

theorem Orderly.owning (orderly : Orderly world) :
    Owning tokens first (forks world.shell.log) [] world := ⟨orderly, rfl, nofun, nofun, .nil⟩

theorem moves_owning (owning : Owning tokens first log owned world)
    (moved : Moves (spares tokens first) world after) : Owning tokens first log owned after := by
  obtain ⟨orderly, logged, present, spared, once⟩ := owning
  refine ⟨moves_orderly orderly moved, by rwa [moves_shell moved], fun entry member => ?_, spared,
    once⟩
  obtain ⟨child, found, serial, fork⟩ := present entry member
  rcases moves_cases moved with ⟨front, back, other, altered, here, there, number, same, -, -⟩ |
    ⟨front, back, other, here, there, allowed⟩ | unchanged
  · rw [here, List.mem_append, List.mem_cons] at found
    rw [there]
    rcases found with before | rfl | behind
    · exact ⟨child, by simp [before], serial, fork⟩
    · exact ⟨altered, by simp, number.trans serial, same.trans fork⟩
    · exact ⟨child, by simp [behind], serial, fork⟩
  · rw [here, List.mem_append, List.mem_cons] at found
    rw [there]
    rcases found with before | rfl | behind
    · exact ⟨child, by simp [before], serial, fork⟩
    · exact (allowed (by rw [serial, fork]; exact spared entry member)).elim
    · exact ⟨child, by simp [behind], serial, fork⟩
  · exact ⟨child, by rwa [unchanged], serial, fork⟩

theorem keptIdle_owning :
    KeptIdle (system (spares tokens first)).settled (Owning tokens first log owned) := by
  intro state asked reply after idle owning served
  refine Service.settled_keeps _ _ moves_owning ?_ moves_owning served owning
  intro before after owning served
  obtain ⟨shell, same, rfl⟩ := serve_idle (And.right served) idle
  exact ⟨serve_orderly owning.orderly (And.right served), same.trans owning.logged,
    owning.present, owning.spared, owning.once⟩

theorem execute_owning (arglist : Nat) (argv : List Text) (fdIn fdOut : Option Fd)
    (later : first ≤ log.length) (ahead : andAhead (tokens.drop arglist) = true)
    (owning : Owning tokens first log owned world) :
    (system (spares tokens first)).settled.Returns
      (Started (Owning tokens first log owned) fun pid after => ∃ child, child.pid = pid ∧
        Owning tokens first (log ++ [child]) (owned ++ [(log.length, child)]) after)
      (execute arglist argv fdIn fdOut) world := by
  refine execute_forks keptIdle_owning (fun pid state asked reply after idle held served => ?_)
    (fun state reply after owning served => ?_) fdIn fdOut owning
  · obtain ⟨child, same, owning⟩ := held
    exact ⟨child, same, keptIdle_owning _ _ _ _ idle owning served⟩
  · refine Service.settled_keeps _ (Started _ _ reply) moves_owning ?_ ?_ served owning
    · intro before after owning served
      have orderly := serve_orderly owning.orderly (And.right served)
      rcases And.right served with ⟨rfl, rfl⟩ | ⟨pid, fresh, rfl, rfl⟩
      · exact owning
      · refine ⟨before.shell.child pid arglist argv, rfl, orderly, ?_, ?_, ?_, ?_⟩
        · simp [World.spawn, owning.logged]
        · intro entry member
          rcases List.mem_append.mp member with old | new
          · obtain ⟨child, found, same⟩ := owning.present entry old
            exact ⟨child, by simp [World.spawn, found], same⟩
          · obtain rfl := List.mem_singleton.mp new
            exact ⟨_, List.mem_append_right _ (List.mem_singleton_self _), by rw [owning.logged], rfl⟩
        · intro entry member
          rcases List.mem_append.mp member with old | new
          · exact owning.spared entry old
          · obtain rfl := List.mem_singleton.mp new
            exact ⟨later, ahead⟩
        · rw [List.map_append]
          refine List.nodup_append.mpr ⟨owning.once, List.nodup_singleton _, ?_⟩
          rintro serial member other new rfl
          obtain ⟨entry, present, rfl⟩ := List.mem_map.mp member
          have before := owning.earlier present
          rw [List.mem_singleton.mp new] at before
          exact Nat.lt_irrefl _ before
    · intro before after held moved
      cases reply with
      | none => exact moves_owning held moved
      | some pid =>
        obtain ⟨child, same, owning⟩ := held
        exact ⟨child, same, moves_owning owning moved⟩

private theorem waitpid_owning {entry : Nat × Fork} {rest : List (Nat × Fork)}
    {reply : (Call.waitpid entry.2.pid).Reply}
    (owning : Owning tokens first log (entry :: rest) world)
    (apart : ∀ other ∈ rest, other.2.pid ≠ entry.2.pid)
    (served : (system (spares tokens first)).settled.serve world (.waitpid entry.2.pid) reply after) :
    world.died ⊆ after.died ∧ Owning tokens first log rest after ∧
      ∃ termination, (entry.1, termination) ∈ after.died ∧ reply = some termination.encode := by
  refine Service.settled_keeps
    (fun state => world.died ⊆ state.died ∧ Owning tokens first log (entry :: rest) state)
    (fun state => world.died ⊆ state.died ∧ Owning tokens first log rest state ∧
      ∃ termination, (entry.1, termination) ∈ state.died ∧ reply = some termination.encode)
    ?_ ?_ ?_ served ⟨List.Subset.refl _, owning⟩
  · rintro before after ⟨grown, owning⟩ moved
    exact ⟨List.Subset.trans grown (moves_died moved), moves_owning owning moved⟩
  · rintro before after ⟨grown, owning⟩ served
    have orderly := serve_orderly owning.orderly (And.right served)
    obtain ⟨child, found, serial, fork⟩ := owning.present entry (by simp)
    rcases And.right served with ⟨missing, -, -⟩ |
      ⟨front, back, other, termination, here, pid, ended, rfl, rfl⟩
    · exact (missing child found (by rw [fork])).elim
    · have member : other ∈ before.children := by simp [here]
      obtain rfl : child = other := by
        refine List.inj_on_of_nodup_map owning.orderly.distinct found member ?_
        rw [fork, pid]
      refine ⟨grown, ⟨orderly, by simpa [World.advance] using owning.logged, ?_, ?_, ?_⟩,
        termination, ?_, rfl⟩
      · intro entry' waiting
        obtain ⟨child', found', serial', fork'⟩ := owning.present entry' (by simp [waiting])
        refine ⟨child', ?_, serial', fork'⟩
        rw [here, List.mem_append, List.mem_cons] at found'
        rcases found' with before | rfl | behind
        · exact List.mem_append_left _ before
        · exact (apart entry' waiting (by rw [← fork', fork])).elim
        · exact List.mem_append_right _ behind
      · exact fun entry' waiting => owning.spared entry' (by simp [waiting])
      · exact (List.nodup_cons.mp owning.once).2
      · rw [← serial]
        exact owning.orderly.recorded child found termination ended
  · rintro before after ⟨grown, owning, termination, died, same⟩ moved
    exact ⟨List.Subset.trans grown (moves_died moved), moves_owning owning moved, termination,
      moves_died moved died, same⟩

theorem waitLoop_owning {last : Nat × Fork} {status lastStatus : Nat}
    (owning : Owning tokens first log owned world)
    (distinct : (owned.map fun entry => entry.2.pid).Nodup)
    (only : ∀ entry ∈ owned, entry.2.pid = last.2.pid → entry = last)
    (known : last ∈ owned ∨ ∃ termination, (last.1, termination) ∈ world.died ∧
      lastStatus = termination.encode) :
    (system (spares tokens first)).settled.Returns
      (fun value after => ∃ termination, (last.1, termination) ∈ after.died ∧
        value = termination.encode)
      (waitLoop (some last.2.pid) (owned.map fun entry => entry.2.pid) status lastStatus) world := by
  induction owned generalizing world status lastStatus with
  | nil => exact known.resolve_left (by simp)
  | cons entry rest ih =>
    simp only [List.map_cons, List.nodup_cons] at distinct
    have apart : ∀ other ∈ rest, other.2.pid ≠ entry.2.pid := fun other member same =>
      distinct.1 (same ▸ List.mem_map_of_mem (f := fun entry => entry.2.pid) member)
    refine ⟨trivial, fun reply after served => ?_⟩
    obtain ⟨grown, still, termination, died, rfl⟩ := waitpid_owning owning apart served
    refine ih still distinct.2 (fun other member => only other (by simp [member])) ?_
    by_cases here : entry.2.pid = last.2.pid
    · right
      obtain rfl := only entry (by simp) here
      exact ⟨termination, died, by simp⟩
    · rw [if_neg (by simpa using here)]
      rcases known with member | ⟨termination, recorded, same⟩
      · left
        rcases List.mem_cons.mp member with rfl | behind
        · exact (here rfl).elim
        · exact behind
      · exact .inr ⟨termination, grown recorded, same⟩

/-- From the slot at which the scan goes on the array is still the one of the line, and
the command being read has the same `&&` ahead. -/
structure Framed (tokens : List Text) (interp : Interp) : Prop where
  uncut : interp.args.drop interp.currPtr = (tokens.drop interp.currPtr).map some ++ [none]
  same : andAhead (tokens.drop interp.cmdArglist) = andAhead (tokens.drop interp.currPtr)

theorem framed_initial (tokens : List Text) : Framed tokens (.initial tokens) := ⟨by simp [Interp.initial], rfl⟩

private theorem andAhead_words {words : List Text} (plain : ∀ word ∈ words, operator word = .none)
    (rest : List Text) : andAhead (words ++ rest) = andAhead rest := by
  induction words with
  | nil => rfl
  | cons word words ih =>
    rw [List.cons_append, andAhead.eq_def]
    simp only [plain word (by simp)]
    exact ih fun other member => plain other (by simp [member])

private theorem scan_found {tokens : List Text} {slot stop : Nat} {op : Op} (found : op ≠ .none)
    (scanned : scan (tokens.map some ++ [none]) slot = some (op, stop)) :
    ∃ words token rest, tokens = words ++ token :: rest ∧ stop = slot + words.length ∧
      operator token = op ∧ ∀ word ∈ words, operator word = .none := by
  induction tokens generalizing slot with
  | nil =>
    simp only [List.map_nil, List.nil_append, scan, Option.some.injEq, Prod.mk.injEq] at scanned
    exact (found scanned.1.symm).elim
  | cons token tokens ih =>
    simp only [List.map_cons, List.cons_append, scan] at scanned
    split at scanned
    · next plain =>
      obtain ⟨words, other, rest, rfl, stop, same, others⟩ := ih scanned
      refine ⟨token :: words, other, rest, rfl, by simp; omega, same, ?_⟩
      rintro word (_ | ⟨_, member⟩)
      · exact plain
      · exact others word member
    · obtain ⟨rfl, rfl⟩ := Prod.mk.inj (Option.some.inj scanned)
      exact ⟨[], token, tokens, rfl, rfl, rfl, fun _ member => absurd member List.not_mem_nil⟩

/-- What `get_op_type` returns for an operator: its slot is cut, behind it the array is
untouched, and in front of it there are only words. -/
private theorem Framed.getOpType {interp : Interp} {op : Op} {args : List (Option Text)} {stop : Nat}
    (framed : Framed tokens interp)
    (read : getOpType interp.args interp.currPtr = some (op, args, stop))
    (regular : op ≠ .none) (other : op ≠ .background) :
    ∃ token rest, operator token = op ∧ tokens.drop stop = token :: rest ∧
      args.drop (stop + 1) = rest.map some ++ [none] ∧
      andAhead (tokens.drop interp.cmdArglist) = andAhead (token :: rest) := by
  unfold Lab.getOpType at read
  rw [framed.uncut] at read
  have cut : scan ((tokens.drop interp.currPtr).map some ++ [none]) interp.currPtr =
      some (op, stop) ∧ args = interp.args.set stop none := by
    split at read
    · cases read
    · split at read
      · simp_all
      · split at read
        · split at read
          · cases read
          · split at read <;> simp_all
        · cases read
    · simp_all
      obtain ⟨-, rfl, rfl⟩ := read
      rfl
  obtain ⟨scanned, rfl⟩ := cut
  obtain ⟨words, token, rest, split, rfl, same, plain⟩ := scan_found regular scanned
  have ahead : tokens.drop (interp.currPtr + words.length) = token :: rest := by
    rw [← List.drop_drop, split, List.drop_left]
  refine ⟨token, rest, same, ahead, ?_, ?_⟩
  · rw [List.drop_set_of_lt (by omega), Nat.add_assoc, ← List.drop_drop, framed.uncut, split]
    simp [List.drop_append]
  · rw [framed.same, split, andAhead_words plain]

/-- Where a round leaves the line when the loop goes on. -/
private def Onward (tokens : List Text) (interp : Interp) (flow : Flow) : Prop :=
  ∀ next, flow = .again next → Framed tokens next ∧
    (interp.atAnd = true → next.pids = []) ∧
    (interp.atAnd = false →
      andAhead (tokens.drop interp.currPtr) = andAhead (tokens.drop next.currPtr))

private theorem fault_onward {State α : Type} {service : Service Call Call.Reply State} {state : State}
    {after : α → State → Prop} : service.Returns after fault state :=
  ⟨trivial, fun reply => reply.elim⟩

/-- Behind a redirection and its target the line goes on. -/
private theorem opRedirect_onward {State : Type} {service : Service Call Call.Reply State}
    {state : State} {interp : Interp} {op : Op} {args : List (Option Text)} {stop : Nat}
    (framed : Framed tokens interp)
    (read : getOpType interp.args interp.currPtr = some (op, args, stop))
    (kind : op = .out ∨ op = .input) (direction : Direction) :
    service.Returns (fun flow _ => Onward tokens interp flow)
      (opRedirect direction { interp with args := args } stop) state := by
  obtain ⟨token, rest, same, here, uncut, ahead⟩ := framed.getOpType read
    (by rcases kind with rfl | rfl <;> nofun) (by rcases kind with rfl | rfl <;> nofun)
  have notAnd : interp.atAnd = false := by
    simp only [Interp.atAnd, read]
    rcases kind with rfl | rfl <;> rfl
  unfold opRedirect
  split
  · exact fault_onward
  · exact (Service.returns_true _ _).bind fun _ _ _ => nofun
  · next target slot =>
    refine (Service.returns_true _ _).bind fun _ _ _ => ?_
    refine (Service.returns_true _ _).bind fun fd _ _ => ?_
    cases fd with
    | none => exact (Service.returns_true _ _).bind fun _ _ _ => nofun
    | some fd =>
      rintro next ⟨⟩
      change args[stop + 1]? = some (some target) at slot
      have head : (args.drop (stop + 1)).head? = some (some target) := by
        rw [List.head?_drop, slot]
      cases rest with
      | nil => simp [uncut] at head
      | cons word rest =>
        have next : tokens.drop (stop + 2) = rest := by
          rw [← List.drop_drop, here]
          rfl
        have skips : andAhead (token :: word :: rest) = andAhead rest := by
          rw [andAhead.eq_def]
          rcases kind with rfl | rfl <;> simp [same]
        refine ⟨⟨?_, ?_⟩, fun atAnd => ?_, fun _ => ?_⟩
        · change args.drop (stop + 2) = (tokens.drop (stop + 2)).map some ++ [none]
          rw [show stop + 2 = stop + 1 + 1 from rfl, ← List.drop_drop, uncut]
          simp [next]
        · change andAhead (tokens.drop interp.cmdArglist) = andAhead (tokens.drop (stop + 2))
          rw [ahead, skips, next]
        · rw [notAnd] at atAnd
          cases atAnd
        · change andAhead (tokens.drop interp.currPtr) = andAhead (tokens.drop (stop + 2))
          rw [← framed.same, ahead, skips, next]

private theorem round_onward {State : Type} {service : Service Call Call.Reply State} {state : State}
    {interp : Interp} (framed : Framed tokens interp) :
    service.Returns (fun flow _ => Onward tokens interp flow) (round interp) state := by
  have executed : ∀ {interp : Interp} {fds : Fds} {state : State},
      service.Returns (fun _ _ => True) (interp.execute fds) state :=
    fun {_ _ _} => Service.returns_true _ _
  unfold round
  cases read : getOpType interp.args interp.currPtr with
  | none => exact fault_onward
  | some found =>
    obtain ⟨op, args, stop⟩ := found
    have behind : ∀ {token rest}, tokens.drop stop = token :: rest →
        tokens.drop (stop + 1) = rest := by
      intro token rest here
      rw [← List.drop_drop, here, List.drop_one, List.tail_cons]
    cases op with
    | none => exact executed.bind fun _ _ _ => nofun
    | out => exact opRedirect_onward framed read (.inl rfl) .output
    | input => exact opRedirect_onward framed read (.inr rfl) .input
    | background =>
      exact executed.bind fun _ _ _ => (Service.returns_true _ _).bind fun _ _ _ => nofun
    | pipe =>
      obtain ⟨token, rest, same, here, uncut, ahead⟩ := framed.getOpType read nofun nofun
      have skips : andAhead (token :: rest) = andAhead rest := by
        rw [andAhead.eq_def]
        simp [same]
      refine (Service.returns_true _ _).bind fun ends _ _ => ?_
      cases ends with
      | none => exact nofun
      | some ends =>
        refine executed.bind fun pid _ _ => ?_
        cases pid with
        | none => exact (Service.returns_true _ _).bind fun _ _ _ => nofun
        | some pid =>
          rintro next ⟨⟩
          refine ⟨⟨?_, rfl⟩, fun atAnd => ?_, fun _ => ?_⟩
          · change args.drop (stop + 1) = (tokens.drop (stop + 1)).map some ++ [none]
            rw [uncut, behind here]
          · simp [Interp.atAnd, read] at atAnd
          · change andAhead (tokens.drop interp.currPtr) = andAhead (tokens.drop (stop + 1))
            rw [← framed.same, ahead, skips, behind here]
    | and =>
      obtain ⟨token, rest, same, here, uncut, ahead⟩ := framed.getOpType read nofun nofun
      refine executed.bind fun andPid _ _ => (Service.returns_true _ _).bind fun lastStatus _ _ => ?_
      split
      · exact nofun
      · rintro next ⟨⟩
        refine ⟨⟨?_, rfl⟩, fun _ => rfl, fun notAnd => ?_⟩
        · change args.drop (stop + 1) = (tokens.drop (stop + 1)).map some ++ [none]
          rw [uncut, behind here]
        · simp [Interp.atAnd, read] at notAnd

/-- The processes in the list of pids are still there for the shell to wait for. -/
def Holding (tokens : List Text) (first : Nat) (pids : List Pid) (world : World) : Prop :=
  ∃ log owned, first ≤ log.length ∧ Owning tokens first log owned world ∧
    pids = owned.map fun entry => entry.2.pid

private theorem moves_holding {pids : List Pid} (holding : Holding tokens first pids world)
    (moved : Moves (spares tokens first) world after) : Holding tokens first pids after := by
  obtain ⟨log, owned, later, owning, same⟩ := holding
  exact ⟨log, owned, later, moves_owning owning moved, same⟩

private theorem keptIdle_holding {pids : List Pid} :
    KeptIdle (system (spares tokens first)).settled (Holding tokens first pids) := by
  rintro state asked reply after idle ⟨log, owned, later, owning, same⟩ served
  exact ⟨log, owned, later, keptIdle_owning _ _ _ _ idle owning served, same⟩

private theorem execute_holding {pids : List Pid} {arglist : Nat} {argv : List Text}
    {fdIn fdOut : Option Fd} (ahead : andAhead (tokens.drop arglist) = true)
    (holding : Holding tokens first pids world) :
    (system (spares tokens first)).settled.Returns
      (fun pid after => Holding tokens first (pids ++ pid.toList) after)
      (execute arglist argv fdIn fdOut) world := by
  obtain ⟨log, owned, later, owning, rfl⟩ := holding
  refine (execute_owning arglist argv fdIn fdOut later ahead owning).returns
    fun pid after started => ?_
  cases pid with
  | none => exact ⟨log, owned, later, started, by simp⟩
  | some pid =>
    obtain ⟨child, rfl, owning⟩ := started
    exact ⟨_, _, by simp; omega, owning, by simp⟩

private theorem round_holding {interp : Interp} (framed : Framed tokens interp)
    (ahead : andAhead (tokens.drop interp.currPtr) = true) (notAnd : interp.atAnd = false)
    (holding : Holding tokens first interp.pids world) :
    (system (spares tokens first)).settled.Returns
      (fun flow after => Holding tokens first flow.interp.pids after) (round interp) world := by
  have started : ∀ {world : World} {args fds}, Holding tokens first interp.pids world →
      (system (spares tokens first)).settled.Returns
        (fun pid after => Holding tokens first (interp.pids ++ pid.toList) after)
        (({ interp with args := args } : Interp).execute fds) world := by
    intro world args fds holding
    unfold Interp.execute
    split
    · exact ⟨trivial, fun reply => reply.elim⟩
    · exact execute_holding (framed.same.trans ahead) holding
  have redirected : ∀ {args stop} direction, (system (spares tokens first)).settled.Returns
      (fun flow after => Holding tokens first flow.interp.pids after)
      (opRedirect direction { interp with args := args } stop) world := by
    intro args stop direction
    unfold opRedirect
    split
    · exact ⟨trivial, fun reply => reply.elim⟩
    · exact (keptIdle_holding.request ⟨id, id⟩ holding).bind fun _ _ told => told
    · refine (keptIdle_holding.returns ?_ holding).bind fun _ closed held => ?_
      · change (closeIfOpen (interp.fds.get direction)).uses _
        cases interp.fds.get direction with
        | none => trivial
        | some fd => exact Program.uses_request.mpr ⟨id, id⟩
      · refine (keptIdle_holding.request ⟨id, id⟩ held).bind fun fd opened held => ?_
        cases fd with
        | none => exact (keptIdle_holding.request ⟨id, id⟩ held).bind fun _ _ told => told
        | some fd => exact held
  unfold round
  cases read : getOpType interp.args interp.currPtr with
  | none => exact ⟨trivial, fun reply => reply.elim⟩
  | some found =>
    obtain ⟨op, args, stop⟩ := found
    cases op with
    | none => exact (started holding).bind fun pid after held => held
    | out => exact redirected .output
    | input => exact redirected .input
    | and => simp [Interp.atAnd, read] at notAnd
    | background =>
      refine (started holding).bind fun bgPid after held => ?_
      cases bgPid with
      | none => exact held
      | some pid => exact (keptIdle_holding.request ⟨id, id⟩ held).bind fun _ _ told => told
    | pipe =>
      refine (keptIdle_holding.returns (openPipe_uses _ _ _ ⟨id, id⟩ (fun _ => ⟨id, id⟩)
        fun _ => ⟨id, id⟩) holding).bind fun ends piped held => ?_
      cases ends with
      | none => exact held
      | some ends =>
        refine (started held).bind fun pid after held => ?_
        cases pid with
        | none =>
          rw [Option.toList_none, List.append_nil] at held
          exact (keptIdle_holding.request ⟨id, id⟩ held).bind fun _ _ closed => closed
        | some pid => exact held

/-- What holds between two rounds: as long as an `&&` lies ahead, the processes in the
list are the shell's. -/
structure Standing (tokens : List Text) (first : Nat) (interp : Interp) (world : World) : Prop where
  framed : Framed tokens interp
  orderly : Orderly world
  later : first ≤ (forks world.shell.log).length
  pipeline : andAhead (tokens.drop interp.currPtr) = true → Holding tokens first interp.pids world

theorem Orderly.holding_nil (orderly : Orderly world)
    (later : first ≤ (forks world.shell.log).length) : Holding tokens first [] world :=
  ⟨_, [], later, orderly.owning, rfl⟩

private theorem reach_later {α : Type} {start final : Prog α × World}
    (reach : (system mayReap).Reach start final) (later : first ≤ (forks start.2.shell.log).length) :
    first ≤ (forks final.2.shell.log).length := by
  refine system_invariant (fun world => first ≤ (forks world.shell.log).length) ?_ ?_ reach later
  · intro world after asked reply later served
    obtain ⟨events, grown⟩ := serve_extends (serve_shell served)
    simp only [grown, forks_append, List.length_append]
    omega
  · intro world after later moved
    rwa [moves_shell moved]

theorem progress_standing {entry mark : World} {interp : Interp} (orderly : Orderly entry)
    (later : first ≤ (forks entry.shell.log).length)
    (progress : Progress (system (spares tokens first)) tokens entry mark interp world) :
    Standing tokens first interp world := by
  induction progress with
  | start => exact ⟨framed_initial tokens, orderly, later, fun _ => orderly.holding_nil later⟩
  | @round mark state after interp next before ran ih =>
    obtain ⟨framed, orderly, later, pipeline⟩ := ih
    have orderly := system_invariant Orderly serve_orderly moves_orderly ran orderly
    have later := reach_later ran later
    obtain ⟨onward, emptied, kept⟩ :=
      ran.returned (fun flow _ => Onward tokens interp flow) (fun _ _ => round_onward framed) next rfl
    refine ⟨onward, orderly, later, fun ahead => ?_⟩
    cases atAnd : interp.atAnd with
    | true =>
      rw [emptied atAnd]
      exact orderly.holding_nil later
    | false =>
      have ahead := (kept atAnd).trans ahead
      have holding := pipeline ahead
      exact ran.returned (fun flow after => Holding tokens _ flow.interp.pids after) fun _ moved =>
        round_holding framed ahead atAnd (Service.moves_keep moves_holding moved holding)

theorem decided_standing {entry started : World} {pid : Pid} {lastStatus : Nat}
    (orderly : Orderly entry) (later : first ≤ (forks entry.shell.log).length)
    (decided : DecidedOn (system (spares tokens first)) tokens entry started after (some pid)
      lastStatus) : StatusOfLast started after (some pid) lastStatus := by
  obtain ⟨mark, interp, before, args, stop, progress, read, ran, waited⟩ := decided
  obtain ⟨framed, -, -, pipeline⟩ := progress_standing orderly later progress
  have ahead : andAhead (tokens.drop interp.cmdArglist) = true := by
    obtain ⟨token, rest, same, -, -, ahead⟩ := framed.getOpType read nofun nofun
    rw [ahead, andAhead.eq_def]
    simp [same]
  obtain ⟨log, owned, later, owning, same⟩ := pipeline (framed.same.symm.trans ahead)
  have running : Started (Owning tokens first log owned) (fun pid after => ∃ child, child.pid = pid ∧
      Owning tokens first (log ++ [child]) (owned ++ [(log.length, child)]) after)
      (some pid) started := by
    refine ran.returned (Started _ _) fun middle moved => ?_
    unfold Interp.execute
    split
    · exact ⟨trivial, fun reply => reply.elim⟩
    · exact execute_owning _ _ _ _ later ahead (Service.moves_keep moves_owning moved owning)
  obtain ⟨child, rfl, owning⟩ := running
  have listed : interp.pids ++ (some child.pid).toList =
      (owned ++ [(log.length, child)]).map fun entry => entry.2.pid := by simp [same]
  rw [listed] at waited
  obtain ⟨termination, died, status⟩ := waited.returned (fun value after => ∃ termination,
      (log.length, termination) ∈ after.died ∧ value = termination.encode) fun middle moved => by
    have owning := Service.moves_keep moves_owning moved owning
    refine (keptIdle_owning.request ⟨id, id⟩ owning).bind fun status _ owning => ?_
    have last : (log.length, child) ∈ owned ++ [(log.length, child)] := by simp
    exact waitLoop_owning owning owning.distinct (owning.only last) (.inl last)
  exact ⟨child, termination, by simp [owning.logged], rfl, by simpa [owning.logged] using died, status⟩

end

/-- As long as the handler takes no process of a pipeline that an `&&` ends, every `&&`
behind a command that was started is decided on how that process ended. -/
theorem status_of_last {tokens : List Text} {entry started after : World} {andPid : Option Pid}
    {lastStatus : Nat} (arises : Arises entry)
    (decided : DecidedOn (system (spares tokens (forks entry.shell.log).length)) tokens entry
      started after andPid lastStatus) (running : andPid ≠ none) :
    StatusOfLast started after andPid lastStatus := by
  obtain ⟨lines, program, run⟩ := arises
  obtain ⟨pid, rfl⟩ := Option.ne_none_iff_exists'.mp running
  have orderly := system_invariant Orderly serve_orderly moves_orderly run initial_orderly
  exact decided_standing orderly (Nat.le_refl _) decided

theorem status_of_last_pipeline : ∃ started after, StatusOfLast started after (some 2) 0 := by
  have permits : (system (spares ["a".toList, "|".toList, "b".toList, "&&".toList, "c".toList] 0)).settled.Permits
      (World.answer obliging (.exited 0)) := answer_permits (.inr fun _ _ => nofun)
  exact ⟨_, _, status_of_last ⟨[], _, .refl _⟩ ⟨_, _, _, _, _,
    .round .start (.of_settled (Service.reach_of_eval permits rfl)), rfl,
    .of_settled (Service.reach_of_eval permits rfl),
    .of_settled (Service.reach_of_eval permits rfl)⟩ nofun⟩

/-- In `a && b` the handler takes `a`, which has failed; the `&&` is decided on a status
that was never set, and finds it to be 0. -/
theorem not_status_of_last_stolen : ∃ started after,
    DecidedOn (system everything) ["a".toList, "&&".toList, "b".toList] .initial started after
      (some 1) 0 ∧ ¬ StatusOfLast started after (some 1) 0 := by
  have permits : (system everything).settled.Permits (World.answer thieving (.exited 1)) :=
    answer_permits (.inl rfl)
  refine ⟨_, _, ⟨_, _, _, _, _, .start, rfl, .of_settled (Service.reach_of_eval permits rfl),
    .of_settled (Service.reach_of_eval permits rfl)⟩, ?_⟩
  rintro ⟨child, termination, -, -, died, status⟩
  change (0, termination) ∈ [(0, Termination.exited 1)] at died
  obtain rfl : termination = .exited 1 := by simpa using died
  revert status
  decide

end Lsnp.Lab
