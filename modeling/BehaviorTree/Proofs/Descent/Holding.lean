import BehaviorTree.Proofs.Descent.Frames
import BehaviorTree.Proofs.Tree.Preorder

/-!
Listening nodes that are active, and the listeners that they hold. A stack tells them, and so does
the saved state that it is the layout of; and the saved state can be recovered from the stack.
-/

namespace BehaviorTree

/-- What a listening node is at. -/
inductive Stance where
  /-- No child runs; events may wait. -/
  | due
  /-- No child runs, and no event waits. -/
  | idle
  /-- The child runs. -/
  | busy
deriving DecidableEq

/-- A listening node and its listener. -/
structure Hold where
  node : Node
  listener : Nat
  stance : Stance

mutual

/-- The listening nodes in a stack, those in branches included; one is busy if anything runs above
it. -/
def stackHolds : List Frame → List Hold
  | [] => []
  | .mk node progress _ :: above =>
    progressHolds node (if above.isEmpty then .due else .busy) progress ++ stackHolds above

/-- Holds of the progress of a node, those of its branches included. -/
def progressHolds (node : Node) (stance : Stance) : Progress → List Hold
  | .listening listener _ => [⟨node, listener, stance⟩]
  | .branches branches => branchHolds branches
  | _ => []

/-- Holds of the branches that are still active. -/
def branchHolds : List Branch → List Hold
  | [] => []
  | .settled _ :: rest => branchHolds rest
  | .active stack :: rest => stackHolds stack ++ branchHolds rest

end

/-- What a frame's progress lets its node remember. -/
def Progress.memory : Progress → Descent.Memory
  | .iteration index limit _ _ items => .round ⟨index, limit, items⟩
  | .attempt ended _ => .attempts ended
  | .deadline time => .until time
  | .delaying time => .until time
  | .listening listener _ => .mailbox listener
  | _ => .nothing

/-- Which child of a node the frames above it begin with. -/
def childAbove (node : Node) : List Frame → Nat
  | [] => 0
  | frame :: _ => node.children.findIdx fun child => child.id = frame.node.id

mutual

/-- The saved state that a stack is the layout of. -/
def restore : List Frame → Option Descent.Active
  | [] => none
  | .mk _ (.branches branches) _ :: _ => some (.beside (restoreShares branches))
  | .mk node progress _ :: above =>
    match restore above with
    | none => some (.resting progress.memory)
    | some state => some (.over progress.memory (childAbove node above) state)

/-- The shares that branches are read back as. -/
def restoreShares : List Branch → List Descent.Share
  | [] => []
  | branch :: rest => restoreShare branch :: restoreShares rest

/-- A branch that has not begun is laid out by no state. -/
def restoreShare : Branch → Descent.Share
  | .settled verdict => .settled verdict
  | .active stack =>
    match restore stack with
    | none => .settled .failure
    | some state => .active state

end

namespace Descent

/-! ### Saved states -/

/-- The listener that a listening node remembers. -/
def Memory.holds (node : Node) (stance : Stance) : Memory → List Hold
  | .mailbox listener => [⟨node, listener, stance⟩]
  | _ => []

mutual

/-- The listening nodes in a saved state, with the stance of those that rest. -/
def Active.holds (resting : Stance) : Node → Active → List Hold
  | node, .resting memory => memory.holds node resting
  | node, .over memory i state =>
    memory.holds node .busy ++
      match node.children[i]? with
      | some child => state.holds resting child
      | none => []
  | node, .beside shares => shareHolds resting node.children shares

/-- Holds of the share of a child. -/
def Share.holds (resting : Stance) : Node → Share → List Hold
  | _, .settled _ => []
  | node, .active state => state.holds resting node

/-- Holds of the shares of the children, in their order. -/
def shareHolds (resting : Stance) : List Node → List Share → List Hold
  | child :: children, share :: shares => share.holds resting child ++ shareHolds resting children shares
  | _, _ => []

end

theorem stance_memory {node : Node} {stance : Stance} {memory : Memory} :
    ∀ h ∈ memory.holds node stance, h.stance = stance := by
  intro h member
  cases memory with
  | mailbox => rw [List.mem_singleton.mp member]
  | _ => cases member

mutual

/-- A listening node is busy unless it rests. -/
theorem stance_holds (resting : Stance) : ∀ (node : Node) (state : Active),
    ∀ h ∈ state.holds resting node, h.stance = resting ∨ h.stance = .busy
  | node, .resting memory, h, member => by
    rw [Active.holds] at member
    exact .inl (stance_memory h member)
  | node, .over memory i state, h, member => by
    rw [Active.holds] at member
    rcases List.mem_append.mp member with own | above
    · exact .inr (stance_memory h own)
    · split at above
      · rename_i child _
        exact stance_holds resting child state h above
      · cases above
  | node, .beside shares, h, member => by
    rw [Active.holds] at member
    exact stance_shareHolds resting node.children shares h member

/-- Among the shares a listening node rests as asked or is busy. -/
theorem stance_shareHolds (resting : Stance) : ∀ (nodes : List Node) (shares : List Share),
    ∀ h ∈ shareHolds resting nodes shares, h.stance = resting ∨ h.stance = .busy
  | [], _, h, member => by
    rw [shareHolds] at member
    · cases member
    · rintro _ _ _ _ ⟨⟩
  | _ :: _, [], h, member => by
    rw [shareHolds] at member
    · cases member
    · rintro _ _ _ _ - ⟨⟩
  | node :: rest, share :: shares, h, member => by
    rw [shareHolds] at member
    rcases List.mem_append.mp member with first | later
    · rcases share with verdict | state
      · cases first
      · exact stance_holds resting node state h first
    · exact stance_shareHolds resting rest shares h later

end

theorem progressHolds_progressAt {kind : Kind} {memory : Memory} (rests : RestsWith kind memory)
    (node : Node) (stance : Stance) :
    progressHolds node stance (progressAt kind memory) = memory.holds node stance := by
  cases kind <;> cases memory <;> first | exact rests.elim | rfl

theorem progressHolds_progressOver {kind : Kind} {memory : Memory} {i : Nat}
    (waits : WaitsWith kind memory i) (node : Node) (stance : Stance) :
    progressHolds node stance (progressOver kind memory i) = memory.holds node stance := by
  by_cases chooses : kind = .ifElse
  · subst chooses
    cases memory <;> first | exact waits.elim | skip
    rw [progressOver]
    split <;> rfl
  · cases kind <;> cases memory <;> first | exact waits.elim | exact absurd rfl chooses | rfl

mutual

/-- The stack of a sound state tells the same listening nodes. -/
theorem stackHolds_frames {completed : List Nat} : ∀ {node : Node} {state : Active},
    Sound completed node state → stackHolds (frames node state) = state.holds .due node
  | node, .resting memory, rests => by
    simp only [frames, stackHolds, Active.holds, List.append_nil]
    exact progressHolds_progressAt rests node .due
  | node, .over memory i state, ⟨waits, _, child, here, sound⟩ => by
    have above : (frames child state).isEmpty = false := by simp [frames_ne_nil]
    simp only [frames, here, stackHolds, above, Active.holds, stackHolds_frames sound]
    rw [if_neg Bool.false_ne_true, progressHolds_progressOver waits]
  | node, .beside shares, ⟨_, sound⟩ => by
    simp only [frames, stackHolds, progressHolds, Active.holds, branchHolds_branches sound,
      List.append_nil]

/-- The branches hold what the shares hold. -/
theorem branchHolds_branches {completed : List Nat} : ∀ {nodes : List Node} {shares : List Share},
    SoundShares completed nodes shares →
      branchHolds (branches nodes shares) = shareHolds .due nodes shares
  | [], [], _ => rfl
  | _ :: _, .settled _ :: _, ⟨_, rest⟩ => by
    simp only [branches, branch, branchHolds, shareHolds, Share.holds, branchHolds_branches rest,
      List.nil_append]
  | _ :: _, .active _ :: _, ⟨first, rest⟩ => by
    simp only [branches, branch, branchHolds, shareHolds, Share.holds, branchHolds_branches rest]
    rw [stackHolds_frames first]

end

theorem Memory.node_of_mem_holds {memory : Memory} {node : Node} {stance : Stance} {h : Hold}
    (member : h ∈ memory.holds node stance) : h.node = node := by
  cases memory with
  | mailbox listener => rw [List.mem_singleton.mp member]
  | _ => cases member

mutual

/-- The listening nodes in a saved state are nodes of the tree. -/
theorem mem_preorder_of_holds (resting : Stance) : ∀ {node : Node} {state : Active} {h : Hold},
    h ∈ state.holds resting node → h.node ∈ node.preorder
  | node, .resting memory, h, member => by
    rw [Memory.node_of_mem_holds member]
    exact node.self_mem_preorder
  | node, .over memory i state, h, member => by
    rw [Active.holds] at member
    rcases List.mem_append.mp member with own | inside
    · rw [Memory.node_of_mem_holds own]
      exact node.self_mem_preorder
    · rcases here : node.children[i]? with _ | child
      · rw [here] at inside
        cases inside
      · rw [here] at inside
        exact Node.mem_preorder_of_child (List.mem_of_getElem? here) (mem_preorder_of_holds resting inside)
  | node, .beside shares, h, member => by
    rw [Active.holds] at member
    obtain ⟨child, there, inside⟩ := mem_preorder_of_shareHolds resting member
    exact Node.mem_preorder_of_child there inside

/-- What the shares hold is held by nodes below. -/
theorem mem_preorder_of_shareHolds (resting : Stance) :
    ∀ {nodes : List Node} {shares : List Share} {h : Hold},
      h ∈ shareHolds resting nodes shares → ∃ child ∈ nodes, h.node ∈ child.preorder
  | [], [], _, member => by cases member
  | [], _ :: _, _, member => by cases member
  | _ :: _, [], _, member => by cases member
  | child :: rest, share :: shares, h, member => by
    rw [shareHolds] at member
    rcases List.mem_append.mp member with first | later
    · cases share with
      | settled verdict => cases first
      | active state => exact ⟨child, List.mem_cons_self, mem_preorder_of_holds resting first⟩
    · obtain ⟨other, there, inside⟩ := mem_preorder_of_shareHolds resting later
      exact ⟨other, List.mem_cons_of_mem _ there, inside⟩

end

/-! ### Recovering the state -/

theorem memory_progressAt {kind : Kind} {memory : Memory} (rests : RestsWith kind memory) :
    (progressAt kind memory).memory = memory := by
  cases kind <;> cases memory <;> first | exact rests.elim | rfl

theorem memory_progressOver {kind : Kind} {memory : Memory} {i : Nat}
    (waits : WaitsWith kind memory i) : (progressOver kind memory i).memory = memory := by
  by_cases chooses : kind = .ifElse
  · subst chooses
    cases memory <;> first | exact waits.elim | skip
    rw [progressOver]
    split <;> rfl
  · cases kind <;> cases memory <;> first | exact waits.elim | exact absurd rfl chooses | rfl

/-- Only Parallel nodes keep branches. -/
theorem progressAt_ne_branches (kind : Kind) (memory : Memory) (branches : List Branch) :
    progressAt kind memory ≠ .branches branches := by
  cases kind <;> cases memory <;> exact nofun

theorem progressOver_ne_branches (kind : Kind) (memory : Memory) (i : Nat) (branches : List Branch) :
    progressOver kind memory i ≠ .branches branches := by
  by_cases chooses : kind = .ifElse
  · subst chooses
    rw [progressOver]
    split <;> exact nofun
  · cases kind <;> cases memory <;> first | exact absurd rfl chooses | exact nofun

/-- Siblings are told apart by their ids. -/
theorem childAbove_frames {node child : Node} {i : Nat} (nodup : (node.children.map Node.id).Nodup)
    (here : node.children[i]? = some child) (state : Active) :
    childAbove node (frames child state) = i := by
  have first : ∃ progress deadline above, frames child state = .mk child progress deadline :: above := by
    cases state <;> exact ⟨_, _, _, rfl⟩
  obtain ⟨progress, deadline, above, laid⟩ := first
  obtain ⟨bound, found⟩ := List.getElem?_eq_some_iff.mp here
  rw [laid, childAbove, Frame.node]
  refine (List.findIdx_eq bound).mpr ⟨by simp [found], fun j before => ?_⟩
  have apart := (List.pairwise_iff_getElem.mp nodup) j i (by simpa using Nat.lt_trans before bound)
    (by simpa using bound) before
  simpa [found] using apart

mutual

/-- A sound state is recovered from its stack. -/
theorem restore_frames {completed : List Nat} : ∀ {node : Node} {state : Active},
    node.ids.Nodup → Sound completed node state → restore (frames node state) = some state
  | node, .resting memory, _, rests => by
    rw [frames, restore, restore, memory_progressAt rests]
    exact progressAt_ne_branches _ _
  | node, .over memory i state, nodup, ⟨waits, _, child, here, sound⟩ => by
    have siblings := Node.nodup_idsAll_children nodup
    have below := restore_frames (Node.nodup_ids_of_mem siblings (List.mem_of_getElem? here)) sound
    simp only [frames, here]
    rw [restore, below, childAbove_frames (Node.nodup_map_id siblings) here, memory_progressOver waits]
    exact progressOver_ne_branches _ _ _
  | node, .beside shares, nodup, ⟨_, sound⟩ => by
    rw [frames, restore, restoreShares_branches (Node.nodup_idsAll_children nodup) sound]

/-- Sound shares are read back from their branches. -/
theorem restoreShares_branches {completed : List Nat} : ∀ {nodes : List Node} {shares : List Share},
    (Node.idsAll nodes).Nodup → SoundShares completed nodes shares →
      restoreShares (branches nodes shares) = shares
  | [], [], _, _ => rfl
  | _ :: _, .settled _ :: _, nodup, ⟨_, rest⟩ => by
    have later := (List.nodup_append.mp nodup).2.1
    rw [branches, branch, restoreShares, restoreShare, restoreShares_branches later rest]
  | _ :: _, .active _ :: _, nodup, ⟨first, rest⟩ => by
    have later := (List.nodup_append.mp nodup).2.1
    have first := restore_frames (List.nodup_append.mp nodup).1 first
    rw [branches, branch, restoreShares, restoreShare, first, restoreShares_branches later rest]

end

end Descent

end BehaviorTree
