import Lsnp.Interaction.Forking
import Mathlib.Data.Fintype.EquivFin

namespace Lsnp.Interaction

variable {Request Image Local Shared α : Type} {Reply : Request → Type}

def Process.Asks (process : Process Request Reply Image Local α) (asked : Ask Request Image) : Prop :=
  ∃ next, process.doing = .running (.ask asked next)

/-- The processes that run code only ever ask what is allowed. -/
def Crowd.Uses (crowd : Crowd Request Reply Image Local Shared α)
    (allowed : Ask Request Image → Prop) : Prop :=
  ∀ process ∈ crowd.processes, ∀ code, process.doing = .running code → code.uses allowed

variable {platform : Platform Request Reply Local Shared}
  {crowd after : Crowd Request Reply Image Local Shared α} {allowed : Ask Request Image → Prop}

/-- What is allowed to a process is so to itself later and to the one that it forks. -/
theorem Process.Step.uses {index : Nat} {process changed : Process Request Reply Image Local α}
    {shared : Shared} {new : List (Process Request Reply Image Local α)}
    (step : process.Step platform crowd index changed shared new)
    (uses : ∀ code, process.doing = .running code → code.uses allowed) :
    ∀ one ∈ changed :: new, ∀ code, one.doing = .running code → code.uses allowed := by
  have later : ∀ {doing : Doing Request Reply Image α} {code : Code Request Reply Image α},
      code.uses allowed → doing = .running code → ∀ left, doing = .running left → left.uses allowed := by
    rintro _ code held rfl left same
    cases same
    exact held
  cases step with
  | own here served =>
    simpa using later ((uses _ here).2 _) rfl
  | fork pid here fresh =>
    have both := (uses _ here).2
    intro one member
    rcases List.mem_pair.mp member with rfl | rfl
    · exact later (both (.parent pid)) rfl
    · exact later (both .child) rfl
  | forkFails here fails => simpa using later ((uses _ here).2 .failed) rfl
  | exec here => simp
  | execFails here fails => simpa using later ((uses _ here).2 ()) rfl
  | wait reply here gone => simpa using later ((uses _ here).2 reply) rfl
  | exit here => simp
  | finish here => simp
  | reap here left => simpa using uses

theorem Crowd.Step.uses (step : crowd.Step platform after) (uses : crowd.Uses allowed) :
    after.Uses allowed := by
  cases step with
  | @of front back new process changed shared here step =>
    rw [Crowd.Uses, here] at uses
    have own := step.uses (uses process (by simp))
    intro other member
    simp only [List.mem_append, List.mem_cons] at member
    rcases member with early | rfl | late | forked
    · exact uses other (by simp [early])
    · exact own other (by simp)
    · exact uses other (by simp [late])
    · exact own other (by simp [forked])

theorem Platform.uses_of_reachable {initial : Crowd Request Reply Image Local Shared α → Prop}
    (initially : ∀ crowd, initial crowd → crowd.Uses allowed)
    (reachable : (platform.crowd initial).Reachable crowd) : crowd.Uses allowed :=
  reachable.invariant (·.Uses allowed) initially fun uses step => Crowd.Step.uses step uses

/-- With some replies the program, or a process that it forks, comes to ask this. -/
inductive Platform.MayAsk (platform : Platform Request Reply Local Shared)
    (asked : Ask Request Image) :
    Code Request Reply Image α → Local → Shared → Prop where
  | here {next : asked.Answer Reply → Code Request Reply Image α} {own : Local} {shared : Shared} :
      MayAsk platform asked (.ask asked next) own shared
  | own {made : Request} {next : Reply made → Code Request Reply Image α} {reply : Reply made}
      {own later : Local} {shared changed : Shared}
      (served : platform.serve own shared made reply later changed)
      (rest : MayAsk platform asked (next reply) later changed) :
      MayAsk platform asked (.ask (.own made) next) own shared
  | parent {next : ForkReply → Code Request Reply Image α} {own : Local} {shared : Shared}
      (rest : ∀ pid, MayAsk platform asked (next (.parent pid)) own shared) :
      MayAsk platform asked (.ask .fork next) own shared
  | child {next : ForkReply → Code Request Reply Image α} {own : Local} {shared : Shared}
      (rest : MayAsk platform asked (next .child) own shared) :
      MayAsk platform asked (.ask .fork next) own shared

theorem Platform.MayAsk.bind {asked : Ask Request Image} {β : Type}
    {code : Code Request Reply Image α} {own : Local} {shared : Shared}
    (may : platform.MayAsk asked code own shared) (rest : α → Code Request Reply Image β) :
    platform.MayAsk asked (code >>= rest) own shared := by
  induction may with
  | here => exact .here
  | own served _ ih => exact .own served ih
  | parent _ ih => exact .parent ih
  | child _ ih => exact .child ih

theorem Crowd.exists_fresh (crowd : Crowd Request Reply Image Local Shared α) :
    ∃ pid, ∀ other ∈ crowd.processes, other.reaped = false → other.pid ≠ pid := by
  obtain ⟨pid, fresh⟩ := Infinite.exists_notMem_finset (crowd.processes.map Process.pid).toFinset
  exact ⟨pid, fun other member _ same => fresh (by simpa using ⟨other, member, same⟩)⟩

theorem Platform.MayAsk.reachable {asked : Ask Request Image} {code : Code Request Reply Image α}
    {own : Local} {shared : Shared} (may : platform.MayAsk asked code own shared)
    {initial : Crowd Request Reply Image Local Shared α → Prop}
    (reachable : (platform.crowd initial).Reachable crowd)
    {front back : List (Process Request Reply Image Local α)}
    {process : Process Request Reply Image Local α} (here : crowd.processes = front ++ process :: back)
    (doing : process.doing = .running code) (owns : process.own = own)
    (shares : crowd.shared = shared) :
    ∃ later, (platform.crowd initial).Reachable later ∧
      ∃ process ∈ later.processes, process.Asks asked := by
  induction may generalizing crowd front back process with
  | @here next own shared => exact ⟨crowd, reachable, process, by simp [here], next, doing⟩
  | own served rest ih =>
    subst owns shares
    exact ih (reachable.next (.of here (.own doing served))) rfl rfl rfl rfl
  | parent rest ih =>
    subst owns shares
    obtain ⟨pid, fresh⟩ := crowd.exists_fresh
    exact ih pid (reachable.next (.of here (.fork pid doing fresh))) rfl rfl rfl rfl
  | @child next own shared rest ih =>
    subst owns shares
    obtain ⟨pid, fresh⟩ := crowd.exists_fresh
    have forked := reachable.next (.of here (.fork pid doing fresh))
    rw [← List.cons_append, ← List.append_assoc] at forked
    exact ih forked rfl rfl rfl rfl

end Lsnp.Interaction
