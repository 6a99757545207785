import BehaviorTree.Proofs.Descent.Arming
import BehaviorTree.Proofs.Descent.Holding
import Mathlib.Data.List.Forall2
import Mathlib.Data.List.Induction

/-!
How the branches of a Parallel node have come about. From the tick on in which the node was entered afresh, each of
its children has been ticked: afresh the first time, and then on from what the tick before had left, as long as it
ran on. What the last of these ticks has left is the branch that is kept, and a child that has completed is not
ticked again.
-/

namespace BehaviorTree

namespace Descent

open TickM

/-! ### The ticks of a child -/

/-- The ticks of a node in a log. -/
def ticksOf (node : Node) (log : List Call) : List Call := log.filter fun call => call.node.id = node.id

@[simp] theorem ticksOf_append (node : Node) (log more : List Call) :
    ticksOf node (log ++ more) = ticksOf node log ++ ticksOf node more := List.filter_append _ _

theorem ticksOf_eq_nil {node : Node} {log : List Call} (apart : ∀ call ∈ log, call.node.id ≠ node.id) :
    ticksOf node log = [] := List.filter_eq_nil_iff.mpr fun call member => by simpa using apart call member

/-- These are the ticks that a Parallel node has made of a child, and this is the branch that they have left. -/
inductive Pursued (child : Node) : List Call → Branch → Prop
  /-- The child is ticked afresh. -/
  | first {call : Call} {report : Report} (own : call.node = child) (fresh : call.state = none)
      (reported : call.result = .ok report) : Pursued child [call] (branch child report.share)
  /-- It runs, and goes on from what it has left. -/
  | again {calls : List Call} {call : Call} {state : Active} {report : Report}
      (before : Pursued child calls (.active (frames child state))) (own : call.node = child)
      (state : call.state = some state) (reported : call.result = .ok report) :
      Pursued child (calls ++ [call]) (branch child report.share)

theorem Pursued.ne_nil {child : Node} {calls : List Call} {branch : Branch} (pursued : Pursued child calls branch) :
    calls ≠ [] := by
  cases pursued with
  | first => exact List.cons_ne_nil _ _
  | again => exact List.append_ne_nil_of_right_ne_nil _ (List.cons_ne_nil _ _)

/-- The branch is what the last tick has left. -/
theorem Pursued.last {child : Node} {calls : List Call} {after : Branch} (pursued : Pursued child calls after) :
    ∃ call report, calls.getLast? = some call ∧ call.result = .ok report ∧ after = branch child report.share := by
  cases pursued with
  | first own fresh reported => exact ⟨_, _, rfl, reported, rfl⟩
  | again before own state reported => exact ⟨_, _, List.getLast?_concat, reported, rfl⟩

theorem Pursued.unique {child : Node} {calls : List Call} {branch other : Branch}
    (pursued : Pursued child calls branch) (again : Pursued child calls other) : other = branch := by
  obtain ⟨call, report, last, reported, rfl⟩ := pursued.last
  obtain ⟨call', report', last', reported', rfl⟩ := again.last
  cases last.symm.trans last'
  cases reported.symm.trans reported'
  rfl

/-- The child ran on after each tick but the last one. -/
theorem Pursued.runs {child : Node} {calls more : List Call} {after : Branch}
    (pursued : Pursued child (calls ++ more) after) (some : calls ≠ []) (later : more ≠ []) :
    ∃ stack, Pursued child calls (.active stack) := by
  induction more using List.reverseRecOn generalizing after with
  | nil => exact absurd rfl later
  | append_singleton between call ih =>
    obtain ⟨stack, before⟩ : ∃ stack, Pursued child (calls ++ between) (.active stack) := by
      rw [← List.append_assoc] at pursued
      generalize split : calls ++ between ++ [call] = ticks at pursued
      cases pursued with
      | first =>
        obtain ⟨none, -⟩ := (List.append_eq_singleton_iff.mp split).resolve_right fun other => by cases other.2
        exact absurd (List.append_eq_nil_iff.mp none).1 some
      | again before =>
        rw [(List.append_inj' split rfl).1]
        exact ⟨_, before⟩
    rcases between with _ | ⟨next, between⟩
    · exact ⟨stack, by rwa [List.append_nil] at before⟩
    · exact ih before (List.cons_ne_nil _ _)

/-- A child that has completed is not ticked any more, and so its verdict stays. -/
theorem Pursued.stays {child : Node} {calls more : List Call} {verdict : Verdict} {after : Branch}
    (pursued : Pursued child calls (.settled verdict)) (later : Pursued child (calls ++ more) after) :
    more = [] ∧ after = .settled verdict := by
  have none : more = [] := by
    by_contra some
    obtain ⟨stack, runs⟩ := later.runs pursued.ne_nil some
    cases pursued.unique runs
  subst none
  rw [List.append_nil] at later
  exact ⟨rfl, pursued.unique later⟩

/-! ### Branches of a Parallel node -/

/-- The branches of a Parallel node are what has become of its children since it was last entered afresh. -/
def Lived (log : List Call) (node : Node) (branches : List Branch) : Prop :=
  ∃ earlier call since, log = earlier ++ call :: since ∧ call.node = node ∧ call.state = none ∧
    (∀ other ∈ since, other.node.id = node.id → other.state ≠ none) ∧
      List.Forall₂ (fun child branch => Pursued child (ticksOf child since) branch) node.children branches

/-- This goes for all frames of Parallel nodes. -/
def LivedAll (log : List Call) (frames : List Frame) : Prop :=
  ∀ frame ∈ frames, ∀ branches, frame.progress = .branches branches → Lived log frame.node branches

/-- Ticks of other nodes do not matter, nor do those in which the node goes on. -/
theorem Lived.later {log more : List Call} {node : Node} {branches : List Branch} (lived : Lived log node branches)
    (others : ∀ call ∈ more, call.node.id = node.id → call.state ≠ none)
    (apart : ∀ call ∈ more, call.node.id ∉ Node.idsAll node.children) : Lived (log ++ more) node branches := by
  obtain ⟨earlier, call, since, rfl, own, fresh, entered, pursued⟩ := lived
  refine ⟨earlier, call, since ++ more, by rw [List.append_assoc, List.cons_append], own, fresh, ?_, ?_⟩
  · intro other member
    rcases List.mem_append.mp member with here | after
    · exact entered other here
    · exact others other after
  · have none : ∀ child ∈ node.children, ticksOf child more = [] := fun child member =>
      ticksOf_eq_nil fun call called same =>
        apart call called (Node.ids_subset_of_mem member (same ▸ child.id_mem_ids))
    refine List.Forall₂.imp ?_ ((List.forall₂_and_left _ _).mpr ⟨none, pursued⟩)
    rintro child branch ⟨none, pursued⟩
    rwa [ticksOf_append, none, List.append_nil]

theorem exists_of_forall₂ {α β : Type} {R : α → β → Prop} {l : List α} {u : List β} (related : List.Forall₂ R l u)
    {i : Nat} {a : α} (here : l[i]? = some a) : ∃ b, u[i]? = some b ∧ R a b := by
  induction related generalizing i with
  | nil => cases here
  | cons first others ih =>
    rcases i with _ | i
    · cases here
      exact ⟨_, rfl, first⟩
    · exact ih here

/-- As long as the node is not entered again, a child that has completed is not ticked any more. -/
theorem Lived.onward {log more : List Call} {node : Node} {branches after : List Branch}
    (lived : Lived log node branches) (later : Lived (log ++ more) node after)
    (others : ∀ call ∈ more, call.node.id = node.id → call.state ≠ none)
    {i : Nat} {child : Node} {verdict : Verdict} (here : node.children[i]? = some child)
    (settled : branches[i]? = some (.settled verdict)) :
    after[i]? = some (.settled verdict) ∧ ticksOf child more = [] := by
  obtain ⟨earlier, call, since, rfl, own, fresh, entered, pursued⟩ := lived
  obtain ⟨earlier', call', since', same, own', fresh', entered', pursued'⟩ := later
  rw [List.append_assoc, List.cons_append] at same
  obtain ⟨-, rfl⟩ := entry_unique same own own' fresh fresh'
    (fun other member => (List.mem_append.mp member).elim (entered other) (others other)) entered'
  obtain ⟨before, found, left⟩ := exists_of_forall₂ pursued here
  obtain ⟨last, there, leaves⟩ := exists_of_forall₂ pursued' here
  cases found.symm.trans settled
  rw [ticksOf_append] at leaves
  obtain ⟨none, rfl⟩ := left.stays leaves
  exact ⟨there, none⟩

section

variable {log more : List Call} {frames rest : List Frame} {node : Node}

theorem livedAll_nil : LivedAll log [] := fun _ member => absurd member List.not_mem_nil

theorem livedAll_cons {frame : Frame} :
    LivedAll log (frame :: frames) ↔
      (∀ branches, frame.progress = .branches branches → Lived log frame.node branches) ∧ LivedAll log frames :=
  List.forall_mem_cons

theorem livedAll_append : LivedAll log (frames ++ rest) ↔ LivedAll log frames ∧ LivedAll log rest :=
  List.forall_mem_append

/-- Ticks of other nodes do not matter. -/
theorem LivedAll.apart (lived : LivedAll log frames)
    (apart : ∀ frame ∈ frames, ∀ call ∈ more, call.node.id ∉ frame.node.ids) : LivedAll (log ++ more) frames := by
  intro frame member branches kept
  refine (lived frame member branches kept).later (fun call called same => ?_) fun call called below => ?_
  · exact absurd (same ▸ frame.node.id_mem_ids) (apart frame member call called)
  · exact apart frame member call called (frame.node.idsAll_children_subset below)

/-- The node goes on from what it has saved. -/
theorem LivedAll.resumed {state : Active} {call : Call} (nodup : node.ids.Nodup)
    (lived : LivedAll log (stackFrames (Descent.frames node state))) (own : call.node = node)
    (goesOn : call.state ≠ none) : LivedAll (log ++ [call]) (stackFrames (Descent.frames node state)) := by
  intro frame member branches kept
  have below := Node.idsAll_subset_of_mem_preorder (mem_preorder_stackFrames member)
  refine (lived frame member branches kept).later (fun other called _ => ?_) fun other called inside => ?_
  · rwa [List.mem_singleton.mp called]
  · rw [List.mem_singleton.mp called, own] at inside
    exact Node.id_notMem_children nodup (below inside)

end

/-- What a node has saved, if it runs, holds what has become of the children of its Parallel nodes. -/
def LivedReport (log : List Call) (node : Node) : Report → Prop
  | .done _ => True
  | .running state => LivedAll log (stackFrames (frames node state))

theorem livedReport_resting (log : List Call) (node : Node) (memory : Memory) :
    LivedReport log node (.running (.resting memory)) := by
  rw [LivedReport, stackFrames_resting]
  exact livedAll_cons.mpr ⟨fun branches kept => absurd kept (progressAt_ne_branches _ _ _), livedAll_nil⟩

theorem livedReport_over {log : List Call} {node child : Node} {i : Nat} (here : node.children[i]? = some child)
    (memory : Memory) {state : Active} (lived : LivedReport log child (.running state)) :
    LivedReport log node (.running (.over memory i state)) := by
  rw [LivedReport, stackFrames_over here]
  exact livedAll_cons.mpr ⟨fun branches kept => absurd kept (progressOver_ne_branches _ _ _ _), lived⟩

/-! ### Ticks -/

/-- The last tick in the log is the one in which the node is entered afresh. -/
def Entered (log : List Call) (node : Node) : Prop :=
  ∃ earlier call, log = earlier ++ [call] ∧ call.node = node ∧ call.state = none

/-- When the node has just been entered, or what it goes on from has come about so, then what it saves has. -/
def Lives (node : Node) : Prop := ∀ state path s log, (state = none → Entered log node) →
  (∀ active ∈ state, LivedAll log (stackFrames (frames node active))) →
    Gives (tick node state path) s fun report _ => LivedReport (log ++ calls node state path s) node report

/-- A child that is ticked saves what has come about so. -/
theorem Lives.call {child : Node} (lives : Lives child) (nodup : child.ids.Nodup) {log : List Call} (i : Nat)
    (state : Option Active) (path : Path) (memory : Memory) (before s : Scene)
    (lived : ∀ active ∈ state, LivedAll log (stackFrames (frames child active))) :
    Gives (tick child state path) s fun report _ =>
      LivedReport (log ++ ⟨i, child, state, path, memory, before, s⟩ :: calls child state path s) child report := by
  have logged := lives state path s (log ++ [⟨i, child, state, path, memory, before, s⟩]) ?_ ?_
  · rwa [List.append_assoc] at logged
  · rintro rfl
    exact ⟨log, _, rfl, rfl, rfl⟩
  · intro active here
    refine (lived active here).resumed nodup rfl ?_
    rw [Option.mem_def.mp here]
    exact Option.some_ne_none active

section

variable {node : Node} {path : Path} {log : List Call} (nodup : node.ids.Nodup)
  (below : ∀ child ∈ node.children, Lives child)

include nodup below

/-- While a node takes its turns, every Parallel node on its frames has attended to its branches. -/
theorem lives_drive (turns : Nat) (move : Move) (before s : Scene) :
    Gives (drive (visitAt node path) (node.children.map tick) turns move) s fun report _ =>
      LivedReport (log ++ spread (entries (visitAt node path) turns move before s)) node report := by
  induction turns generalizing move before s log with
  | zero =>
    cases move with
    | finish | enter => exact gives_pure trivial
    | rest memory => exact gives_pure (livedReport_resting _ _ memory)
  | succ turns ih =>
    cases move with
    | finish verdict => exact gives_pure trivial
    | rest memory => exact gives_pure (livedReport_resting _ _ memory)
    | enter i memory =>
      rw [entries, drive, visitAt_node, List.getElem?_map]
      rcases here : node.children[i]? with _ | child
      · exact gives_throw _
      · have member := List.mem_of_getElem? here
        have unique := Node.nodup_ids_of_mem (Node.nodup_idsAll_children nodup) member
        have nothing : ∀ active ∈ (none : Option Active), LivedAll log (stackFrames (frames child active)) := by
          rintro _ ⟨⟩
        have called := (below child member).call unique i none path memory before s nothing
        intro report u played
        rw [Option.map_some, visitAt_path, play_bind] at played
        rw [visitAt_path, spread_cons, Call.within, ← List.cons_append, ← List.append_assoc]
        rcases ticked : (tick child none path).play s with ⟨fault | (verdict | state), t⟩
        · rw [ticked] at played
          cases played
        · rw [ticked] at played
          simp only at played ⊢
          rw [play_bind] at played
          rcases heeded : (heed (visitAt node path) node.kind memory i verdict).play t with ⟨fault | move, v⟩
          · rw [heeded] at played
            cases played
          · rw [heeded] at played
            exact ih move t v report u played
        · rw [ticked] at played
          cases played
          rw [spread_nil, List.append_nil]
          exact livedReport_over here memory (called _ _ ticked)

/-- The same for a rule and the move that it comes to. -/
theorem lives_rule (x : TickM Move) (s : Scene) :
    Gives (do carryOut (visitAt node path) (node.children.map tick) (← x) : TickM Report) s fun report _ =>
      LivedReport (log ++ spread (entriesOf (visitAt node path) x s)) node report := by
  intro report u played
  rw [play_bind] at played
  rw [entriesOf]
  rcases decided : x.play s with ⟨fault | move, t⟩
  · rw [decided] at played
    cases played
  · rw [decided] at played
    exact lives_drive nodup below _ move s t report u played

/-- A node whose child is active saves what the child saves. -/
theorem lives_over (memory : Memory) (i : Nat) (state : Active) (s : Scene)
    (lived : LivedAll log (stackFrames (frames node (.over memory i state)))) :
    Gives (visitNode (visitAt node path) (node.children.map tick) (some (.over memory i state))) s fun report _ =>
      LivedReport (log ++ spread (inner (visitAt node path) s (some (.over memory i state)))) node report := by
  intro report u played
  rw [inner, visitAt_node]
  rw [visitNode, play_bind_ok (play_now s), visitAt_node, List.getElem?_map] at played
  by_cases late : (armed? node.kind memory).any (· ≤ s.context.clock)
  · rw [if_pos late] at played
    rw [yields_expire _ _ _ _ _ played]
    trivial
  · rw [if_neg late] at played
    rw [if_neg late]
    rcases here : node.children[i]? with _ | child
    · rw [here] at played
      cases played
    · rw [here, Option.map_some, visitAt_path] at played
      have member := List.mem_of_getElem? here
      rw [stackFrames_over here] at lived
      have unique := Node.nodup_ids_of_mem (Node.nodup_idsAll_children nodup) member
      have called := (below child member).call unique i (some state) path memory s s fun active same =>
        Option.mem_some.mp same ▸ (livedAll_cons.mp lived).2
      simp only at played ⊢
      rw [play_bind] at played
      rw [visitAt_path, spread_cons, Call.within, ← List.cons_append, ← List.append_assoc]
      rcases ticked : (tick child (some state) path).play s with ⟨fault | (verdict | state), t⟩
      · rw [ticked] at played
        cases played
      · rw [ticked] at played
        exact dates_act (lives_rule nodup below _ _) _ _ played
      · rw [ticked] at played
        cases played
        rw [spread_nil, List.append_nil]
        exact livedReport_over here memory (called _ _ ticked)

end

/-! ### Children beside each other -/

/-- What a child of a Parallel node has come to, with these ticks of it since the node was entered: nothing as long as
there are none. -/
def PursuedShare (child : Node) (calls : List Call) : Option Share → Prop
  | none => calls = []
  | some share => Pursued child calls (branch child share)

/-- What the children have come to. -/
def PursuedShares (since : List Call) : List Node → List (Option Share) → Prop
  | child :: children, share :: shares =>
    PursuedShare child (ticksOf child since) share ∧ PursuedShares since children shares
  | [], _ => True
  | _ :: _, [] => False

theorem pursuedShares_none : ∀ nodes : List Node, PursuedShares [] nodes (nodes.map fun _ => none)
  | [] => trivial
  | _ :: rest => ⟨rfl, pursuedShares_none rest⟩

theorem pursuedShares_some {since : List Call} : ∀ {nodes : List Node} {shares : List Share},
    List.Forall₂ (fun child branch => Pursued child (ticksOf child since) branch) nodes (branches nodes shares) →
      PursuedShares since nodes (shares.map some)
  | [], _, _ => trivial
  | _ :: _, [], pursued => by cases pursued
  | _ :: _, _ :: _, .cons first others => ⟨first, pursuedShares_some others⟩

/-- Ticks of other nodes do not matter. -/
theorem PursuedShares.apart {since more : List Call} : ∀ {nodes : List Node} {shares : List (Option Share)},
    PursuedShares since nodes shares → (∀ call ∈ more, call.node.id ∉ Node.idsAll nodes) →
      PursuedShares (since ++ more) nodes shares
  | [], _, _, _ => trivial
  | child :: rest, _ :: _, ⟨first, others⟩, apart => by
    have none : ticksOf child more = [] := ticksOf_eq_nil fun call called same =>
      apart call called (List.mem_append_left _ (same ▸ child.id_mem_ids))
    refine ⟨?_, others.apart fun call called inside => apart call called (List.mem_append_right _ inside)⟩
    rwa [ticksOf_append, none, List.append_nil]

/-- What a Parallel node ticks of a child are these ticks; others are below. -/
theorem ticksOf_callBeside {child : Node} (nodup : child.ids.Nodup) (i : Nat) (share : Option Share) (s : Scene) :
    ticksOf child (spread (callBeside i child s share)) = callBeside i child s share := by
  have alone (call : Call) (own : call.node = child) : ticksOf child (spread [call]) = [call] := by
    have below : ticksOf child call.within = [] := ticksOf_eq_nil fun other within same =>
      Node.id_notMem_children nodup (same ▸ own ▸ id_calls _ _ _ _ other within)
    have first : ticksOf child [call] = [call] := List.filter_eq_self.mpr fun other member => by
      rw [List.mem_singleton.mp member, own, decide_eq_true_eq]
    rw [spread_cons, spread_nil, List.append_nil, ← List.singleton_append, ticksOf_append, below, first]
    rfl
  rcases share with _ | (verdict | state)
  · exact alone _ rfl
  · rfl
  · exact alone _ rfl

/-- A child that has not completed is ticked once, and left as the report says. -/
theorem pursued_share (visit : Visit) {child : Node} {calls : List Call} (i : Nat) (share : Option Share) (s : Scene)
    (pursued : PursuedShare child calls share) :
    Gives (tickShare visit (tick child) share) s fun after _ =>
      Pursued child (calls ++ callBeside i child s share) (branch child after) := by
  have reports (state : Option Active) : Gives (tickBeside visit (tick child) state) s fun after _ =>
      ∃ report, ((tick child state []).play s).1 = .ok report ∧ after = report.share := by
    refine gives_bind (P := fun report _ => ((tick child state []).play s).1 = .ok report) ?_ fun report t played =>
      gives_pure ⟨report, played, rfl⟩
    exact gives_rethrow _ fun report t played => by rw [played]
  rcases share with _ | (verdict | state)
  · refine (reports none).mono fun after t ⟨report, reported, same⟩ => ?_
    rw [same, show calls = [] from pursued]
    exact .first rfl rfl reported
  · refine gives_pure ?_
    rw [callBeside, List.append_nil]
    exact pursued
  · refine (reports (some state)).mono fun after t ⟨report, reported, same⟩ => ?_
    rw [same]
    exact .again pursued rfl rfl reported

/-- The same for one branch. -/
theorem lives_share (visit : Visit) {child : Node} (lives : Lives child) (nodup : child.ids.Nodup) {log : List Call}
    (i : Nat) (share : Option Share) (s : Scene) (lived : ∀ before ∈ share, LivedAll log (branch child before).within) :
    Gives (tickShare visit (tick child) share) s fun after _ =>
      LivedAll (log ++ spread (callBeside i child s share)) (branch child after).within := by
  have beside (state : Option Active) (lived : ∀ active ∈ state, LivedAll log (stackFrames (frames child active))) :
      Gives (tickBeside visit (tick child) state) s fun after _ =>
        LivedAll (log ++ spread [⟨i, child, state, [], .nothing, s, s⟩]) (branch child after).within := by
    refine gives_bind (gives_rethrow _ (lives.call nodup i state [] .nothing s s lived)) fun report t lived =>
      gives_pure ?_
    rw [spread_cons, spread_nil, List.append_nil]
    cases report with
    | done verdict => exact livedAll_nil
    | running state => exact lived
  rcases share with _ | (verdict | state)
  · exact beside none (by rintro _ ⟨⟩)
  · exact gives_pure livedAll_nil
  · exact beside (some state) fun active same => Option.mem_some.mp same ▸ lived _ rfl

/-- The calls for one of several children are for that child and the nodes below it. -/
theorem id_spread_entriesBeside {visit : Visit} {i : Nat} {nodes : List Node} {shares : List (Option Share)}
    {s : Scene} {call : Call} (member : call ∈ spread (entriesBeside visit i nodes shares s)) :
    call.node.id ∈ Node.idsAll nodes := by
  obtain ⟨outer, inside, member⟩ := List.mem_flatMap.mp member
  exact Node.ids_subset_of_mem (List.mem_of_getElem? (child_entriesBeside inside).2) (id_call_or_within member)

theorem lives_shares (visit : Visit) {nodes : List Node} (nodup : (Node.idsAll nodes).Nodup)
    (below : ∀ child ∈ nodes, Lives child) {log since : List Call} (i : Nat) (shares : List (Option Share)) (s : Scene)
    (pursued : PursuedShares since nodes shares) (lived : LivedAll log (framesBefore nodes shares)) :
    Gives (tickShares visit (nodes.map tick) shares) s fun after _ =>
      List.Forall₂
          (fun child branch =>
            Pursued child (ticksOf child (since ++ spread (entriesBeside visit i nodes shares s))) branch)
          nodes (branches nodes after) ∧
        LivedAll (log ++ spread (entriesBeside visit i nodes shares s)) (branchFrames (branches nodes after)) := by
  induction nodes generalizing i shares s log since with
  | nil => cases shares <;> exact gives_pure ⟨.nil, livedAll_nil⟩
  | cons child rest ih =>
    rcases shares with _ | ⟨share, shares⟩
    · exact pursued.elim
    obtain ⟨first, others⟩ := pursued
    rw [Node.idsAll, List.flatMap_cons, List.nodup_append] at nodup
    obtain ⟨unique, nodupRest, apart⟩ := nodup
    have lived : (∀ before ∈ share, LivedAll log (branch child before).within) ∧
        LivedAll log (framesBefore rest shares) := by
      rcases share with _ | share
      · exact ⟨by rintro _ ⟨⟩, lived⟩
      · obtain ⟨first, later⟩ := livedAll_append.mp lived
        exact ⟨fun before same => Option.mem_some.mp same ▸ first, later⟩
    have own : ∀ call ∈ spread (callBeside i child s share), call.node.id ∈ child.ids := by
      intro call member
      obtain ⟨outer, inside, member⟩ := List.mem_flatMap.mp member
      exact (mem_callBeside inside).2 ▸ id_call_or_within member
    intro after u played
    rw [List.map_cons, tickShares, play_bind] at played
    rw [entriesBeside, spread_append, ← List.append_assoc, ← List.append_assoc]
    rcases ticked : (tickShare visit (tick child) share).play s with ⟨fault | outcome, t⟩
    · rw [ticked] at played
      cases played
    · rw [ticked] at played
      simp only at played ⊢
      rw [play_bind] at played
      -- The calls for one child do not matter for another one, be it before or after that.
      have untouched : LivedAll (log ++ spread (callBeside i child s share)) (framesBefore rest shares) :=
        lived.2.apart fun frame member call called inside =>
          apart _ (own call called) _ (ids_framesBefore member inside) rfl
      have waiting : PursuedShares (since ++ spread (callBeside i child s share)) rest shares :=
        others.apart fun call called inside => apart _ (own call called) _ inside rfl
      have later := ih nodupRest (fun n member => below n (List.mem_cons_of_mem _ member)) (i + 1) shares t waiting
        untouched
      rcases resumed : (tickShares visit (rest.map tick) shares).play t with ⟨fault | after, v⟩
      · rw [resumed] at played
        cases played
      · rw [resumed] at played
        cases played
        obtain ⟨onward, nested⟩ := later _ _ resumed
        rw [branches, branchFrames]
        refine ⟨.cons ?_ onward, livedAll_append.mpr ⟨?_, nested⟩⟩
        · have none : ticksOf child (spread (entriesBeside visit (i + 1) rest shares t)) = [] :=
            ticksOf_eq_nil fun call called same =>
              apart _ (same ▸ child.id_mem_ids) _ (id_spread_entriesBeside called) rfl
          rw [ticksOf_append, ticksOf_append, none, ticksOf_callBeside unique, List.append_nil]
          exact pursued_share visit i share s first _ _ ticked
        · have saved := lives_share visit (below child List.mem_cons_self) unique i share s lived.1 _ _ ticked
          exact saved.apart fun frame member call called inside =>
            apart _ (ids_within_branch member inside) _ (id_spread_entriesBeside called) rfl

/-! ### Nodes -/

/-- A Parallel node that ticks its children side by side attends to every branch. -/
theorem lives_allBeside {node : Node} {path : Path} (nodup : node.ids.Nodup)
    (below : ∀ child ∈ node.children, Lives child) {earlier since : List Call} {call : Call} (own : call.node = node)
    (fresh : call.state = none) (entered : ∀ other ∈ since, other.node.id = node.id → other.state ≠ none)
    (shares : List (Option Share)) (s : Scene)
    (pursued : PursuedShares since node.children shares)
    (lived : LivedAll (earlier ++ call :: since) (framesBefore node.children shares)) :
    Gives (tickAllBeside (visitAt node path) (node.children.map tick) shares) s fun report _ =>
      LivedReport (earlier ++ call :: since ++ spread (entriesBeside (visitAt node path) 0 node.children shares s)) node
        report := by
  have nodupAll := Node.nodup_idsAll_children nodup
  refine gives_bind (lives_shares _ nodupAll below 0 shares s pursued lived) fun after t both => gives_pure ?_
  obtain ⟨onward, nested⟩ := both
  split
  · trivial
  · rw [LivedReport, stackFrames_beside]
    refine livedAll_cons.mpr ⟨fun branches kept => ?_, nested⟩
    cases kept
    refine ⟨earlier, call, since ++ spread (entriesBeside (visitAt node path) 0 node.children shares s), ?_, own, fresh,
      fun other member same => ?_, onward⟩
    · rw [List.append_assoc, List.cons_append]
    · rcases List.mem_append.mp member with here | inside
      · exact entered other here same
      · have child : other.node.id ∈ Node.idsAll node.children := id_spread_entriesBeside inside
        exact absurd (same ▸ child) (Node.id_notMem_children nodup)

/-- What a node saves holds what has become of the children of its Parallel nodes. -/
theorem lives (node : Node) (nodup : node.ids.Nodup) : Lives node := by
  induction node using Node.induct with
  | step node ih =>
    have below (child : Node) (member : child ∈ node.children) : Lives child :=
      ih child member (Node.nodup_ids_of_mem (Node.nodup_idsAll_children nodup) member)
    intro state path s log entered lived
    rw [calls_eq, tick_eq]
    generalize path ++ [node.id] = path
    rcases state with _ | (memory | ⟨memory, i, state⟩ | shares)
    · rw [inner, visitNode, visitAt_node]
      by_cases parallel : node.kind = .parallel
      · rw [if_pos parallel, if_pos parallel, List.map_map]
        obtain ⟨earlier, call, rfl, own, fresh⟩ := entered rfl
        refine dates_act (lives_allBeside nodup below own fresh (List.forall_mem_nil _) _ _ (pursuedShares_none _) ?_)
        change LivedAll _ (framesBefore node.children (node.children.map fun _ => none))
        rw [framesBefore_none]
        exact livedAll_nil
      · rw [if_neg parallel, if_neg parallel]
        exact dates_act (lives_rule nodup below _ _)
    · exact dates_act (lives_rule nodup below _ _)
    · exact lives_over nodup below memory i state s (lived _ rfl)
    · have lived := lived _ rfl
      rw [stackFrames_beside] at lived
      obtain ⟨own, nested⟩ := livedAll_cons.mp lived
      obtain ⟨earlier, call, since, rfl, same, fresh, entered, pursued⟩ := own _ rfl
      refine dates_act (lives_allBeside nodup below same fresh entered _ _ (pursuedShares_some pursued) ?_)
      rwa [framesBefore_some]

end Descent
end BehaviorTree
