import Lsnp.Interaction.Asking

namespace Lsnp.Interaction

variable {Request Image Local Shared α : Type} {Reply : Request → Type}

/-- Whatever is replied, the program waits for nobody, and each of its own requests is served. -/
def Platform.Straight (platform : Platform Request Reply Local Shared) :
    Code Request Reply Image α → Prop
  | .done _ => True
  | .ask .fork next => platform.Straight (next .child) ∧ ∀ pid, platform.Straight (next (.parent pid))
  | .ask (.exec _) _ => True
  | .ask (.wait _) _ => False
  | .ask (.exit _) _ => True
  | .ask (.own asked) next =>
    (∀ own shared, ∃ reply after changed, platform.serve own shared asked reply after changed) ∧
      ∀ reply, platform.Straight (next reply)

variable {platform : Platform Request Reply Local Shared}
  {initial : Crowd Request Reply Image Local Shared α → Prop}
  {crowd : Crowd Request Reply Image Local Shared α}
  {front back : List (Process Request Reply Image Local α)}
  {process : Process Request Reply Image Local α} {code : Code Request Reply Image α}

/-- Such a process settles, and so do those that it forks; nobody else does anything. -/
theorem Platform.Straight.settles (straight : platform.Straight code)
    (reachable : (platform.crowd initial).Reachable crowd)
    (here : crowd.processes = front ++ process :: back) (doing : process.doing = .running code) :
    ∃ later settled new, (platform.crowd initial).Reachable later ∧
      later.processes = front ++ settled :: (back ++ new) ∧ settled.isSettled = true ∧
      settled.parent = process.parent ∧ ∀ other ∈ new, other.isSettled = true ∧ front.length ≤ other.parent := by
  induction code generalizing crowd front back process with
  | done value =>
    refine ⟨crowd, process, [], reachable, by simp [here], ?_, rfl, nofun⟩
    rw [Process.isSettled, doing]
  | ask asked next ih =>
    cases asked with
    | fork =>
      obtain ⟨pid, fresh⟩ := crowd.exists_fresh
      have forked := reachable.next (.of here (.fork pid doing fresh))
      rw [← List.cons_append, ← List.append_assoc] at forked
      obtain ⟨between, child, grand, reached, same, childSettled, childParent, grandSettled⟩ :=
        ih .child straight.1 forked rfl rfl
      rw [List.append_assoc, List.cons_append] at same
      obtain ⟨later, settled, new, ends, there, parentSettled, sameParent, newSettled⟩ :=
        ih (.parent pid) (straight.2 pid) reached same rfl
      refine ⟨later, settled, child :: (grand ++ new), ends, by simp [there], parentSettled,
        sameParent, ?_⟩
      intro other member
      rcases List.mem_cons.mp member with rfl | member
      · exact ⟨childSettled, childParent.ge⟩
      rcases List.mem_append.mp member with among | among
      · obtain ⟨otherSettled, behind⟩ := grandSettled other among
        rw [List.length_append] at behind
        exact ⟨otherSettled, Nat.le_trans (Nat.le_add_right _ _) behind⟩
      · exact newSettled other among
    | exec image =>
      have turned := reachable.next (.of here (.exec doing))
      exact ⟨_, _, [], turned, rfl, rfl, rfl, nofun⟩
    | wait pid => exact straight.elim
    | exit number =>
      have ended := reachable.next (.of here (.exit doing))
      exact ⟨_, _, [], ended, rfl, rfl, rfl, nofun⟩
    | own request =>
      obtain ⟨reply, after, changed, served⟩ := straight.1 process.own crowd.shared
      have replied := reachable.next (.of here (.own doing served))
      obtain ⟨later, settled, new, reached, there, rest⟩ := ih reply (straight.2 reply) replied rfl rfl
      exact ⟨later, settled, new, reached, by simpa using there, rest⟩

end Lsnp.Interaction
