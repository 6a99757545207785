import BehaviorTree.Proofs.Descent.Calls
import BehaviorTree.Proofs.Descent.Simulation

/-!
When the deadlines in a saved state were armed. A Timeout node arms its deadline when it is entered afresh, at the
time of that tick plus its time limit, and keeps it until it completes. So in whatever is saved, every deadline
goes back to the last tick in which its node was entered afresh: no other node arms it, and the ticks that go on
from the saved state leave it as it is.
-/

namespace BehaviorTree

/-- How long the child of a Timeout node may take. -/
def Node.timeLimit (node : Node) : Float := (node.number? "time").getD 0.0

mutual

/-- A frame and all frames in its branches. -/
def Frame.within : Frame → List Frame
  | .mk node progress deadline => .mk node progress deadline :: progress.within

/-- Frames kept within the progress of a node. -/
def Progress.within : Progress → List Frame
  | .branches branches => branchFrames branches
  | _ => []

/-- Frames of a branch that is still active. -/
def Branch.within : Branch → List Frame
  | .settled _ => []
  | .active stack => stackFrames stack

/-- All frames of a stack, those in branches included. -/
def stackFrames : List Frame → List Frame
  | [] => []
  | frame :: rest => frame.within ++ stackFrames rest

/-- Frames of all branches. -/
def branchFrames : List Branch → List Frame
  | [] => []
  | branch :: rest => branch.within ++ branchFrames rest

end

namespace Descent

open TickM

/-! ### Frames of saved states -/

theorem within_progressAt (kind : Kind) (memory : Memory) : (progressAt kind memory).within = [] := by
  cases kind <;> cases memory <;> rfl

theorem within_progressOver (kind : Kind) (memory : Memory) (i : Nat) : (progressOver kind memory i).within = [] := by
  cases kind with
  | ifElse =>
    rw [progressOver]
    split <;> rfl
  | _ => cases memory <;> rfl

theorem stackFrames_resting (node : Node) (memory : Memory) :
    stackFrames (frames node (.resting memory)) = [.mk node (progressAt node.kind memory) none] := by
  rw [frames, stackFrames, Frame.within, within_progressAt]
  rfl

theorem stackFrames_over {node child : Node} {i : Nat} (here : node.children[i]? = some child) (memory : Memory)
    (state : Active) :
    stackFrames (frames node (.over memory i state)) =
      .mk node (progressOver node.kind memory i) (armed? node.kind memory) :: stackFrames (frames child state) := by
  rw [frames, here, stackFrames, Frame.within, within_progressOver]
  rfl

theorem stackFrames_beside (node : Node) (shares : List Share) :
    stackFrames (frames node (.beside shares)) =
      .mk node (.branches (branches node.children shares)) none :: branchFrames (branches node.children shares) := by
  rw [frames, stackFrames, Frame.within, Progress.within, stackFrames, List.append_nil]

mutual

/-- The frames of a saved state are for nodes of the tree. -/
theorem mem_preorder_stackFrames : ∀ {node : Node} {state : Active} {frame : Frame},
    frame ∈ stackFrames (frames node state) → frame.node ∈ node.preorder
  | node, .resting memory, frame, member => by
    rw [stackFrames_resting, List.mem_singleton] at member
    exact member ▸ node.self_mem_preorder
  | node, .over memory i state, frame, member => by
    rcases here : node.children[i]? with _ | child
    · rw [frames, here, stackFrames, Frame.within, within_progressOver] at member
      rw [List.mem_singleton.mp member]
      exact node.self_mem_preorder
    · rw [stackFrames_over here] at member
      rcases List.mem_cons.mp member with rfl | above
      · exact node.self_mem_preorder
      · exact Node.mem_preorder_of_child (List.mem_of_getElem? here) (mem_preorder_stackFrames above)
  | node, .beside shares, frame, member => by
    rw [stackFrames_beside] at member
    rcases List.mem_cons.mp member with rfl | beside
    · exact node.self_mem_preorder
    · obtain ⟨child, inside, below⟩ := mem_preorder_branchFrames beside
      exact Node.mem_preorder_of_child inside below

/-- The frames of the branches are those of nodes below. -/
theorem mem_preorder_branchFrames : ∀ {nodes : List Node} {shares : List Share} {frame : Frame},
    frame ∈ branchFrames (branches nodes shares) → ∃ child ∈ nodes, frame.node ∈ child.preorder
  | [], shares, _, member => by cases shares <;> cases member
  | _ :: _, [], _, member => by cases member
  | child :: rest, share :: shares, frame, member => by
    rw [branches, branchFrames] at member
    rcases List.mem_append.mp member with first | later
    · exact ⟨child, List.mem_cons_self, mem_preorder_within_branch first⟩
    · obtain ⟨other, inside, below⟩ := mem_preorder_branchFrames later
      exact ⟨other, List.mem_cons_of_mem _ inside, below⟩

theorem mem_preorder_within_branch : ∀ {child : Node} {share : Share} {frame : Frame},
    frame ∈ (branch child share).within → frame.node ∈ child.preorder
  | _, .settled _, _, member => by
    rw [branch, Branch.within] at member
    cases member
  | _, .active _, _, member => mem_preorder_stackFrames member

end

theorem ids_within_branch {child : Node} {share : Share} {frame : Frame} (member : frame ∈ (branch child share).within) :
    frame.node.ids ⊆ child.ids := Node.ids_subset_of_mem_preorder (mem_preorder_within_branch member)

/-! ### Calls -/

/-- What is called from a node is below it. -/
theorem id_calls (node : Node) (state : Option Active) (path : Path) (s : Scene) :
    ∀ call ∈ calls node state path s, call.node.id ∈ Node.idsAll node.children := by
  induction node using Node.induct generalizing state path s with
  | step node ih =>
    intro call member
    rw [calls_eq] at member
    obtain ⟨made, inside, member⟩ := List.mem_flatMap.mp member
    have child : made.node ∈ node.children := List.mem_of_getElem? (child_inner inside)
    rcases List.mem_cons.mp member with rfl | within
    · exact Node.ids_subset_of_mem child call.node.id_mem_ids
    · have below := ih made.node child _ _ _ call within
      exact Node.ids_subset_of_mem child (made.node.idsAll_children_subset below)

theorem id_call_or_within {call : Call} {other : Call} (member : other ∈ call :: call.within) :
    other.node.id ∈ call.node.ids := by
  rcases List.mem_cons.mp member with rfl | within
  · exact other.node.id_mem_ids
  · exact call.node.idsAll_children_subset (id_calls _ _ _ _ other within)

/-- The last time that the node was entered afresh, its time limit was to end at this deadline. -/
def Armed (log : List Call) (node : Node) (deadline : Float) : Prop :=
  ∃ earlier call later, log = earlier ++ call :: later ∧ call.node = node ∧ call.state = none ∧
    deadline = call.scene.context.clock + node.timeLimit ∧
    ∀ other ∈ later, other.node.id = node.id → other.state ≠ none

section

variable {log more : List Call} {node : Node} {deadline : Float}

theorem armed_call (log : List Call) {call : Call} (fresh : call.state = none) :
    Armed (log ++ [call]) call.node (call.scene.context.clock + call.node.timeLimit) :=
  ⟨log, call, [], rfl, rfl, fresh, rfl, fun _ member => absurd member List.not_mem_nil⟩

/-- It stays so until the node is entered again. -/
theorem Armed.later (armed : Armed log node deadline)
    (others : ∀ call ∈ more, call.node.id = node.id → call.state ≠ none) : Armed (log ++ more) node deadline := by
  obtain ⟨earlier, call, later, rfl, own, fresh, time, since⟩ := armed
  refine ⟨earlier, call, later ++ more, by rw [List.append_assoc, List.cons_append], own, fresh, time, ?_⟩
  intro other member
  rcases List.mem_append.mp member with here | after
  · exact since other here
  · exact others other after

/-- There is one last tick in which a node was entered afresh. -/
theorem entry_unique {earlier since earlier' since' : List Call} {call call' : Call}
    (same : earlier ++ call :: since = earlier' ++ call' :: since') (own : call.node = node) (own' : call'.node = node)
    (fresh : call.state = none) (fresh' : call'.state = none)
    (others : ∀ other ∈ since, other.node.id = node.id → other.state ≠ none)
    (others' : ∀ other ∈ since', other.node.id = node.id → other.state ≠ none) : call = call' ∧ since = since' := by
  -- Neither entry comes after the other.
  rcases List.append_eq_append_iff.mp same with ⟨between, -, split⟩ | ⟨between, -, split⟩ <;>
    rcases between with _ | ⟨first, between⟩ <;> cases split
  · exact ⟨rfl, rfl⟩
  · exact absurd fresh' (others call' (List.mem_append_right _ List.mem_cons_self) (own' ▸ rfl))
  · exact ⟨rfl, rfl⟩
  · exact absurd fresh (others' call (List.mem_append_right _ List.mem_cons_self) (own ▸ rfl))

/-- There is one last entry, so there is one deadline. -/
theorem Armed.unique {other : Float} (armed : Armed log node deadline) (again : Armed log node other) :
    deadline = other := by
  obtain ⟨earlier, call, later, rfl, own, fresh, rfl, since⟩ := armed
  obtain ⟨earlier', call', later', same, own', fresh', rfl, since'⟩ := again
  rw [(entry_unique same own own' fresh fresh' since since').1]

end

/-- Every deadline in the frames is armed. -/
def Dated (log : List Call) (frames : List Frame) : Prop :=
  ∀ frame ∈ frames, ∀ deadline ∈ frame.deadline, Armed log frame.node deadline

section

variable {log more : List Call} {frames rest : List Frame}

theorem dated_nil : Dated log [] := fun _ member => absurd member List.not_mem_nil

theorem dated_cons {frame : Frame} :
    Dated log (frame :: frames) ↔ (∀ deadline ∈ frame.deadline, Armed log frame.node deadline) ∧ Dated log frames :=
  List.forall_mem_cons

theorem dated_append : Dated log (frames ++ rest) ↔ Dated log frames ∧ Dated log rest := List.forall_mem_append

theorem Dated.later (dated : Dated log frames)
    (others : ∀ call ∈ more, ∀ frame ∈ frames, call.node.id = frame.node.id → call.state ≠ none) :
    Dated (log ++ more) frames := fun frame member deadline armed =>
  (dated frame member deadline armed).later fun call called => others call called frame member

/-- Other nodes do not matter. -/
theorem Dated.apart (dated : Dated log frames)
    (apart : ∀ call ∈ more, ∀ frame ∈ frames, call.node.id ≠ frame.node.id) : Dated (log ++ more) frames :=
  dated.later fun call called frame member same => absurd same (apart call called frame member)

end

/-- The deadlines in what a node has saved are armed. -/
def DatedReport (log : List Call) (node : Node) : Report → Prop
  | .done _ => True
  | .running state => Dated log (stackFrames (frames node state))

theorem datedReport_resting (log : List Call) (node : Node) (memory : Memory) :
    DatedReport log node (.running (.resting memory)) := by
  rw [DatedReport, stackFrames_resting]
  exact dated_cons.mpr ⟨by rintro _ ⟨⟩, dated_nil⟩

/-- The frames that the children of a Parallel node go on from. -/
def framesBefore : List Node → List (Option Share) → List Frame
  | child :: children, some share :: shares => (branch child share).within ++ framesBefore children shares
  | _ :: children, none :: shares => framesBefore children shares
  | _, _ => []

theorem framesBefore_some : ∀ (nodes : List Node) (shares : List Share),
    framesBefore nodes (shares.map some) = branchFrames (branches nodes shares)
  | [], shares => by cases shares <;> rfl
  | _ :: _, [] => rfl
  | child :: rest, share :: shares => by
    rw [List.map_cons, framesBefore, framesBefore_some, branches, branchFrames]

theorem framesBefore_none : ∀ nodes : List Node, framesBefore nodes (nodes.map fun _ => none) = []
  | [] => rfl
  | _ :: rest => framesBefore_none rest

theorem ids_framesBefore : ∀ {nodes : List Node} {shares : List (Option Share)} {frame : Frame},
    frame ∈ framesBefore nodes shares → frame.node.ids ⊆ Node.idsAll nodes
  | [], shares, _, member => by cases shares <;> cases member
  | _ :: _, [], _, member => by cases member
  | _ :: rest, none :: shares, frame, member => by
    have later : frame ∈ framesBefore rest shares := member
    exact fun id inside => List.mem_append_right _ (ids_framesBefore later inside)
  | _ :: _, some _ :: _, _, member => by
    intro id inside
    rcases List.mem_append.mp member with first | later
    · exact List.mem_append_left _ (ids_within_branch first inside)
    · exact List.mem_append_right _ (ids_framesBefore later inside)

/-! ### Ticks -/

/-- When the node has just been entered, or what it goes on from is dated, so is what it saves. -/
def Dates (node : Node) : Prop := ∀ state path s log,
  (state = none → Armed log node (s.context.clock + node.timeLimit)) →
  (∀ active ∈ state, Dated log (stackFrames (frames node active))) →
    Gives (tick node state path) s fun report _ => DatedReport (log ++ calls node state path s) node report

/-- A child that is ticked saves what is dated. -/
theorem Dates.call {child : Node} (dates : Dates child) {log : List Call} (i : Nat) (state : Option Active)
    (path : Path) (memory : Memory) (before s : Scene)
    (dated : ∀ active ∈ state, Dated log (stackFrames (frames child active))) :
    Gives (tick child state path) s fun report _ =>
      DatedReport (log ++ ⟨i, child, state, path, memory, before, s⟩ :: calls child state path s) child report := by
  have logged := dates state path s (log ++ [⟨i, child, state, path, memory, before, s⟩]) ?_ ?_
  · rwa [List.append_assoc] at logged
  · rintro rfl
    exact armed_call log rfl
  · intro active here
    refine (dated active here).later fun call called _ _ _ => ?_
    rw [List.mem_singleton.mp called]
    rw [Option.mem_def.mp here]
    exact Option.some_ne_none active

/-- What a move arms for the node itself. -/
def ArmedMove (log : List Call) (node : Node) (move : Move) : Prop :=
  ∀ i memory, move = .enter i memory → ∀ deadline ∈ armed? node.kind memory, Armed log node deadline

theorem armedMove_of_ne {node : Node} (other : node.kind ≠ .timeout) (log : List Call) (move : Move) :
    ArmedMove log node move := fun _ _ _ _ armed => absurd (timeout_of_armed armed).1 other

section

variable {node : Node} {path : Path} {log : List Call}

/-- The start of a node arms the deadline that the node asks for, and no other. -/
theorem armedMove_start {s : Scene} (armed : Armed log node (s.context.clock + node.timeLimit)) :
    Gives (start (visitAt node path) node.kind) s fun move _ => ArmedMove log node move := by
  by_cases timeout : node.kind = .timeout
  · rw [timeout, start]
    refine gives_bind (P := fun now _ => now = s.context.clock) ?_ ?_
    · intro now t played
      cases played
      rfl
    · rintro now t rfl
      refine gives_pure fun i memory same deadline waits => ?_
      cases same
      obtain ⟨-, same⟩ := timeout_of_armed waits
      cases same
      exact armed
  · exact fun move _ _ => armedMove_of_ne timeout log move

/-- A node that goes on with no child active does not remember a time when it enters one. -/
theorem untimed_goOn (visit : Visit) (kind : Kind) (memory : Memory) :
    Yields (goOn visit kind memory) fun move => ∀ i kept, move = .enter i kept → ∀ time, kept ≠ .until time := by
  cases memory with
  | nothing | attempts count =>
    refine yields_pure fun i kept same time => ?_
    cases same
    rintro ⟨⟩
  | round it =>
    refine yields_ite (fun _ => yields_pure (by rintro _ _ ⟨⟩)) fun _ => yields_bind fun _ => ?_
    refine yields_pure fun i kept same time => ?_
    rw [nextInRound] at same
    split at same
    · cases same
      rintro ⟨⟩
    · split at same <;> cases same
  | «until» limit =>
    rw [goOn]
    split <;> refine yields_bind fun now => yields_pure fun i kept same time => ?_
    · split at same <;> cases same
    · split at same
      · cases same
      · cases same
        rintro ⟨⟩
  | mailbox listener =>
    refine yields_bind fun event => ?_
    split
    · exact yields_pure (by rintro _ _ ⟨⟩)
    · refine yields_bind fun _ => yields_pure fun i kept same time => ?_
      cases same
      rintro ⟨⟩

theorem armedMove_goOn (memory : Memory) (s : Scene) :
    Gives (goOn (visitAt node path) node.kind memory) s fun move _ => ArmedMove log node move :=
  (untimed_goOn _ _ memory s).mono fun _ _ untimed i kept same deadline armed =>
    absurd (timeout_of_armed armed).2 (untimed i kept same deadline)

/-- A Timeout node whose child completes does so itself. -/
theorem armedMove_heed (memory : Memory) (i : Nat) (verdict : Verdict) (s : Scene) :
    Gives (heed (visitAt node path) node.kind memory i verdict) s fun move _ => ArmedMove log node move := by
  by_cases timeout : node.kind = .timeout
  · rw [timeout]
    refine gives_pure fun i memory same => ?_
    cases same
  · exact fun move _ _ => armedMove_of_ne timeout log move

end

section

variable {node : Node} {path : Path} {log : List Call} (nodup : node.ids.Nodup)
  (below : ∀ child ∈ node.children, Dates child)

include nodup

omit below in
/-- A node does not enter itself. -/
theorem Armed.inside {more : List Call} {deadline : Float} (armed : Armed log node deadline)
    (inside : ∀ call ∈ more, call.node.id ∈ Node.idsAll node.children) : Armed (log ++ more) node deadline :=
  armed.later fun call called same => absurd (same ▸ inside call called) (Node.id_notMem_children nodup)

include below

/-- While a node takes its turns, every frame it leaves is dated by a call in the log. -/
theorem dates_drive (turns : Nat) (move : Move) (before s : Scene) (armed : ArmedMove log node move) :
    Gives (drive (visitAt node path) (node.children.map tick) turns move) s fun report _ =>
      DatedReport (log ++ spread (entries (visitAt node path) turns move before s)) node report := by
  induction turns generalizing move before s log with
  | zero =>
    cases move with
    | finish | enter => exact gives_pure trivial
    | rest memory => exact gives_pure (datedReport_resting _ _ memory)
  | succ turns ih =>
    cases move with
    | finish verdict => exact gives_pure trivial
    | rest memory => exact gives_pure (datedReport_resting _ _ memory)
    | enter i memory =>
      rw [entries, drive, visitAt_node, List.getElem?_map]
      rcases here : node.children[i]? with _ | child
      · exact gives_throw _
      · have member := List.mem_of_getElem? here
        have nothing : ∀ active ∈ (none : Option Active), Dated log (stackFrames (frames child active)) := by
          rintro _ ⟨⟩
        have called := (below child member).call i none path memory before s nothing
        have inside : ∀ call ∈ (⟨i, child, none, path, memory, before, s⟩ : Call) :: calls child none path s,
            call.node.id ∈ Node.idsAll node.children := fun call called =>
          Node.ids_subset_of_mem member (id_call_or_within called)
        intro report u played
        rw [Option.map_some, visitAt_path, play_bind] at played
        rw [visitAt_path, spread_cons, Call.within, ← List.cons_append, ← List.append_assoc]
        rcases ticked : (tick child none path).play s with ⟨fault | (verdict | state), t⟩
        · rw [ticked] at played
          cases played
        · rw [ticked] at played
          simp only at played ⊢
          rw [play_bind] at played
          rcases heeded : (heed (visitAt node path) node.kind memory i verdict).play t with ⟨fault | move, v⟩
          · rw [heeded] at played
            cases played
          · rw [heeded] at played
            exact ih move t v (armedMove_heed memory i verdict t move v heeded) report u played
        · rw [ticked] at played
          cases played
          rw [spread_nil, List.append_nil, DatedReport, stackFrames_over here]
          refine dated_cons.mpr ⟨fun deadline waits => ?_, called _ _ ticked⟩
          exact (armed i memory rfl deadline waits).inside nodup inside

/-- The same for a rule and the move that it comes to. -/
theorem dates_rule {x : TickM Move} {s : Scene} (armed : Gives x s fun move _ => ArmedMove log node move) :
    Gives (do carryOut (visitAt node path) (node.children.map tick) (← x) : TickM Report) s fun report _ =>
      DatedReport (log ++ spread (entriesOf (visitAt node path) x s)) node report := by
  intro report u played
  rw [play_bind] at played
  rw [entriesOf]
  rcases decided : x.play s with ⟨fault | move, t⟩
  · rw [decided] at played
    cases played
  · rw [decided] at played
    exact dates_drive nodup below _ move s t (armed move t decided) report u played

end

/-! ### Children beside each other -/

/-- The same for one branch. -/
theorem dates_share (visit : Visit) {child : Node} (dates : Dates child) {log : List Call} (i : Nat)
    (share : Option Share) (s : Scene) (dated : ∀ before ∈ share, Dated log (branch child before).within) :
    Gives (tickShare visit (tick child) share) s fun after _ =>
      Dated (log ++ spread (callBeside i child s share)) (branch child after).within := by
  have beside (state : Option Active) (dated : ∀ active ∈ state, Dated log (stackFrames (frames child active))) :
      Gives (tickBeside visit (tick child) state) s fun after _ =>
        Dated (log ++ spread [⟨i, child, state, [], .nothing, s, s⟩]) (branch child after).within := by
    refine gives_bind (gives_rethrow _ (dates.call i state [] .nothing s s dated)) fun report t dated => gives_pure ?_
    rw [spread_cons, spread_nil, List.append_nil]
    cases report with
    | done verdict => exact dated_nil
    | running state => exact dated
  rcases share with _ | (verdict | state)
  · exact beside none (by rintro _ ⟨⟩)
  · exact gives_pure dated_nil
  · exact beside (some state) fun active same => Option.mem_some.mp same ▸ dated _ rfl

/-- The same for all branches, since their nodes are apart. -/
theorem dates_shares (visit : Visit) {nodes : List Node} (nodup : (Node.idsAll nodes).Nodup)
    (below : ∀ child ∈ nodes, Dates child) {log : List Call} (i : Nat) (shares : List (Option Share)) (s : Scene)
    (dated : Dated log (framesBefore nodes shares)) :
    Gives (tickShares visit (nodes.map tick) shares) s fun after _ =>
      Dated (log ++ spread (entriesBeside visit i nodes shares s)) (branchFrames (branches nodes after)) := by
  induction nodes generalizing i shares s log with
  | nil => cases shares <;> exact gives_pure dated_nil
  | cons child rest ih =>
    rcases shares with _ | ⟨share, shares⟩
    · exact gives_pure dated_nil
    rw [Node.idsAll, List.flatMap_cons, List.nodup_append] at nodup
    obtain ⟨-, nodupRest, apart⟩ := nodup
    have dated : (∀ before ∈ share, Dated log (branch child before).within) ∧ Dated log (framesBefore rest shares) := by
      rcases share with _ | share
      · exact ⟨by rintro _ ⟨⟩, dated⟩
      · obtain ⟨first, later⟩ := dated_append.mp dated
        exact ⟨fun before same => Option.mem_some.mp same ▸ first, later⟩
    have own : ∀ call ∈ spread (callBeside i child s share), call.node.id ∈ child.ids := by
      intro call member
      obtain ⟨outer, inside, member⟩ := List.mem_flatMap.mp member
      exact (mem_callBeside inside).2 ▸ id_call_or_within member
    intro after u played
    rw [List.map_cons, tickShares, play_bind] at played
    rw [entriesBeside, spread_append, ← List.append_assoc]
    rcases ticked : (tickShare visit (tick child) share).play s with ⟨fault | first, t⟩
    · rw [ticked] at played
      cases played
    · rw [ticked] at played
      simp only at played ⊢
      rw [play_bind] at played
      have untouched : Dated (log ++ spread (callBeside i child s share)) (framesBefore rest shares) :=
        dated.2.apart fun call called frame member =>
          apart _ (own call called) _ (ids_framesBefore member frame.node.id_mem_ids)
      have later := ih nodupRest (fun n member => below n (List.mem_cons_of_mem _ member)) (i + 1) shares t untouched
      have others : ∀ call ∈ spread (entriesBeside visit (i + 1) rest shares t), call.node.id ∈ Node.idsAll rest := by
        intro call member
        obtain ⟨outer, inside, member⟩ := List.mem_flatMap.mp member
        exact Node.ids_subset_of_mem (List.mem_of_getElem? (child_entriesBeside inside).2) (id_call_or_within member)
      rcases resumed : (tickShares visit (rest.map tick) shares).play t with ⟨fault | after, v⟩
      · rw [resumed] at played
        cases played
      · rw [resumed] at played
        cases played
        rw [branches, branchFrames]
        refine dated_append.mpr ⟨?_, later _ _ resumed⟩
        have saved := dates_share visit (below child List.mem_cons_self) i share s dated.1 _ _ ticked
        exact saved.apart fun call called frame member same =>
          apart _ (ids_within_branch member frame.node.id_mem_ids) _ (others call called) same.symm

/-! ### Nodes -/

theorem dates_act {visit : Visit} {x : TickM Report} {s : Scene} {P : Report → Prop}
    (gives : Gives x (begun visit s) fun report _ => P report) : Gives (act visit x) s fun report _ => P report := by
  refine gives_bind (P := fun _ t => t = begun visit s) ?_ ?_
  · intro _ t played
    cases played
    rfl
  · rintro _ t rfl
    refine gives_bind gives fun report u related => ?_
    intro r v played
    cases played
    exact related

/-- A node that gives up its child fails. -/
theorem yields_expire (visit : Visit) (state : Active) : Yields (expire visit state) (· = .done .failure) := by
  refine yields_bind fun _ => yields_bind fun _ => yields_bind fun _ s => dates_act ?_
  exact gives_bind (P := fun _ _ => True) (fun _ _ _ => trivial) fun _ _ _ => gives_pure rfl

/-- The same for a node that ticks its children side by side. -/
theorem dates_allBeside {node : Node} {path : Path} {log : List Call} (nodup : node.ids.Nodup)
    (below : ∀ child ∈ node.children, Dates child) (shares : List (Option Share)) (s : Scene)
    (dated : Dated log (framesBefore node.children shares)) :
    Gives (tickAllBeside (visitAt node path) (node.children.map tick) shares) s fun report _ =>
      DatedReport (log ++ spread (entriesBeside (visitAt node path) 0 node.children shares s)) node report := by
  refine gives_bind (dates_shares _ (Node.nodup_idsAll_children nodup) below 0 shares s dated) fun after t dated =>
    gives_pure ?_
  split
  · trivial
  · rw [DatedReport, stackFrames_beside]
    exact dated_cons.mpr ⟨by rintro _ ⟨⟩, dated⟩

/-- A node whose child is active gives up at its deadline, and otherwise keeps that deadline as long as the child
runs. -/
theorem dates_over {node : Node} {path : Path} {log : List Call} (nodup : node.ids.Nodup)
    (below : ∀ child ∈ node.children, Dates child) (memory : Memory) (i : Nat) (state : Active) (s : Scene)
    (dated : Dated log (stackFrames (frames node (.over memory i state)))) :
    Gives (visitNode (visitAt node path) (node.children.map tick) (some (.over memory i state))) s fun report _ =>
      DatedReport (log ++ spread (inner (visitAt node path) s (some (.over memory i state)))) node report := by
  intro report u played
  rw [inner, visitAt_node]
  rw [visitNode, play_bind_ok (play_now s), visitAt_node, List.getElem?_map] at played
  by_cases late : (armed? node.kind memory).any (· ≤ s.context.clock)
  · rw [if_pos late] at played
    rw [yields_expire _ _ _ _ _ played]
    trivial
  · rw [if_neg late] at played
    rw [if_neg late]
    rcases here : node.children[i]? with _ | child
    · rw [here] at played
      cases played
    · rw [here, Option.map_some, visitAt_path] at played
      have member := List.mem_of_getElem? here
      rw [stackFrames_over here] at dated
      obtain ⟨own, above⟩ := dated_cons.mp dated
      have called := (below child member).call i (some state) path memory s s fun active same =>
        Option.mem_some.mp same ▸ above
      have inside : ∀ call ∈ (⟨i, child, some state, path, memory, s, s⟩ : Call) :: calls child (some state) path s,
          call.node.id ∈ Node.idsAll node.children := fun call called =>
        Node.ids_subset_of_mem member (id_call_or_within called)
      simp only at played ⊢
      rw [play_bind] at played
      rw [visitAt_path, spread_cons, Call.within, ← List.cons_append, ← List.append_assoc]
      rcases ticked : (tick child (some state) path).play s with ⟨fault | (verdict | state), t⟩
      · rw [ticked] at played
        cases played
      · rw [ticked] at played
        exact dates_act (dates_rule nodup below (armedMove_heed memory i verdict _)) _ _ played
      · rw [ticked] at played
        cases played
        rw [spread_nil, List.append_nil, DatedReport, stackFrames_over here]
        exact dated_cons.mpr ⟨fun deadline waits => (own deadline waits).inside nodup inside, called _ _ ticked⟩

/-- What a node saves is dated. -/
theorem dates (node : Node) (nodup : node.ids.Nodup) : Dates node := by
  induction node using Node.induct with
  | step node ih =>
    have below (child : Node) (member : child ∈ node.children) : Dates child :=
      ih child member (Node.nodup_ids_of_mem (Node.nodup_idsAll_children nodup) member)
    intro state path s log entered dated
    have clock : (begun (visitAt node (path ++ [node.id])) s).context.clock = s.context.clock := noteDebug_clock s _
    rw [calls_eq, tick_eq]
    generalize path ++ [node.id] = path at clock ⊢
    rcases state with _ | (memory | ⟨memory, i, state⟩ | shares)
    · rw [inner, visitNode, visitAt_node]
      by_cases parallel : node.kind = .parallel
      · rw [if_pos parallel, if_pos parallel, List.map_map]
        refine dates_act (dates_allBeside nodup below _ _ ?_)
        change Dated log (framesBefore node.children (node.children.map fun _ => none))
        rw [framesBefore_none]
        exact dated_nil
      · rw [if_neg parallel, if_neg parallel]
        exact dates_act (dates_rule nodup below (armedMove_start (clock ▸ entered rfl)))
    · exact dates_act (dates_rule nodup below (armedMove_goOn memory _))
    · exact dates_over nodup below memory i state s (dated _ rfl)
    · refine dates_act (dates_allBeside nodup below _ _ ?_)
      rw [framesBefore_some]
      have dated := dated _ rfl
      rw [stackFrames_beside] at dated
      exact (dated_cons.mp dated).2

end Descent
end BehaviorTree
