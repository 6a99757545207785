import BehaviorTree.Proofs.Descent.Genuine
import BehaviorTree.Proofs.Session.Aftermath
import BehaviorTree.Proofs.Stack.Timeout
import Mathlib.Data.List.SplitBy

/-!
Activations. A node is activated when it is entered afresh, and its activation goes on in later runs for as long as
it reports that it runs: every tick goes on from what the one before has left, and is the first tick of the node in
its run. Between two runs that is what the stack holds for the node. An activation that has not completed goes on in
the next run, unless it is abandoned: by an interrupt, by clearing, by an error, or by a node above whose deadline has
come.
-/

namespace BehaviorTree

open Descent (Active Call Part frames progressAt progressOver branches armed?)

/-- The frame of a node on the stack, given what the node has saved. -/
def Node.frame (node : Node) : Active → Frame
  | .resting memory => .mk node (progressAt node.kind memory) none
  | .over memory i _ => .mk node (progressOver node.kind memory i) (armed? node.kind memory)
  | .beside shares => .mk node (.branches (branches node.children shares)) none

@[simp] theorem Node.node_frame (node : Node) (state : Active) : (node.frame state).node = node := by
  cases state <;> rfl

theorem Node.isDue_frame (node : Node) (state : Active) (now : Float) :
    (node.frame state).isDue now = true ↔ state.IsDue node now := by
  rcases state with memory | ⟨memory, i, state⟩ | shares
  · exact Iff.rfl
  · rw [Active.IsDue, Active.deadline?, frame, Descent.isDue_eq]
  · exact Iff.rfl

namespace Descent

/-! ### Parts on the stack -/

/-- A child's branch stands in its place among the branches. -/
theorem getElem?_branches {nodes : List Node} {shares : List Share} {k : Nat} {child : Node} {share : Share}
    (here : nodes[k]? = some child) (there : shares[k]? = some share) :
    (branches nodes shares)[k]? = some (branch child share) := by
  induction nodes generalizing shares k with
  | nil => cases here
  | cons first rest ih =>
    rcases shares with _ | ⟨other, shares⟩
    · cases there
    rcases k with _ | k
    · cases here
      cases there
      rfl
    · exact ih here there

/-- The parts of a saved state are laid out as frames. -/
theorem Part.mem_stackFrames {node part : Node} {whole saved : Active} (inner : Part node whole part saved) :
    part.frame saved ∈ stackFrames (frames node whole) := by
  induction inner with
  | self node whole =>
    rcases whole with memory | ⟨memory, i, state⟩ | shares
    · rw [stackFrames_resting]
      exact List.mem_singleton_self _
    · rw [frames, stackFrames, Frame.within]
      exact List.mem_cons_self
    · rw [stackFrames_beside]
      exact List.mem_cons_self
  | @child node child part whole state saved i here kept _ ih =>
    rcases whole with memory | ⟨memory, j, active⟩ | shares
    · cases kept
    · rw [Active.child?] at kept
      split at kept
      · cases kept
        subst j
        rw [stackFrames_over here]
        exact List.mem_cons_of_mem _ ih
      · cases kept
    · obtain ⟨share, there, active⟩ := Option.bind_eq_some_iff.mp kept
      rcases share with verdict | other <;> cases active
      rw [stackFrames_beside]
      exact List.mem_cons_of_mem _ (stackFrames_subset_of_branch (getElem?_branches here there) ih)

/-! ### Activations -/

/-- The ticks of a node, split where the node is entered afresh. -/
def activations (node : Node) (log : List Call) : List (List Call) :=
  (ticksOf node log).splitBy fun _ next => next.state.isSome

/-- A tick goes on from what another one has left. -/
def Call.GoesOn (tick next : Call) : Prop := ∃ state, tick.result = .ok (.running state) ∧ next.state = some state

/-- The ticks of one activation of a node. -/
structure Activation (node : Node) (ticks : List Call) : Prop where
  own : ∀ tick ∈ ticks, tick.node = node
  /-- The node is entered afresh once, at first. -/
  entered : ∃ first later, ticks = first :: later ∧ first.state = none ∧ ∀ tick ∈ later, tick.state ≠ none
  /-- Then it goes on from what it has left. -/
  goesOn : ticks.IsChain Call.GoesOn

/-- The ticks of a node in a log go on from one another. -/
structure Linked (node : Node) (log : List Call) : Prop where
  own : ∀ tick ∈ ticksOf node log, tick.node = node
  first : ∀ tick ∈ (ticksOf node log).head?, tick.state = none
  chain : (ticksOf node log).IsChain fun tick next =>
    ∀ state, next.state = some state → tick.result = .ok (.running state)

theorem forall_mem_tail {α : Type} {P : α → Prop} {first : α} {later : List α}
    (chain : (first :: later).IsChain fun _ next => P next) : ∀ next ∈ later, P next := by
  induction later generalizing first with
  | nil => exact fun _ member => absurd member List.not_mem_nil
  | cons next rest ih =>
    obtain ⟨holds, chain⟩ := List.isChain_cons_cons.mp chain
    exact List.forall_mem_cons.mpr ⟨holds, ih chain⟩

/-- Each part of a log that is split so is an activation. -/
theorem Linked.activation {node : Node} {log : List Call} (linked : Linked node log) {ticks : List Call}
    (member : ticks ∈ activations node log) : Activation node ticks := by
  obtain ⟨before, after, split⟩ := List.append_of_mem member
  have whole : before.flatten ++ ticks ++ after.flatten = ticksOf node log := by
    rw [← List.flatten_splitBy (fun _ next : Call => next.state.isSome) (ticksOf node log)]
    rw [activations] at split
    rw [split, List.flatten_append, List.flatten_cons, List.append_assoc]
  have inside : ticks <:+: ticksOf node log := ⟨_, _, whole⟩
  have again : ticks.IsChain fun _ next => next.state.isSome = true := List.isChain_of_mem_splitBy member
  obtain ⟨first, later, rfl⟩ := List.exists_cons_of_ne_nil (List.ne_nil_of_mem_splitBy member)
  have fresh : first.state = none := by
    rcases List.eq_nil_or_concat before with rfl | ⟨earlier, last, rfl⟩
    · refine linked.first first ?_
      rw [← whole]
      rfl
    · -- An activation comes before it, from which it does not go on.
      have apart := List.isChain_getLast_head_splitBy (fun _ next : Call => next.state.isSome) (ticksOf node log)
      rw [activations] at split
      rw [split, List.concat_eq_append, List.append_assoc] at apart
      have joint : [last, first :: later] <:+: earlier ++ ([last] ++ (first :: later) :: after) :=
        ⟨earlier, after, by simp⟩
      have pair : [last, first :: later].IsChain _ := List.IsChain.infix apart joint
      obtain ⟨_, _, still⟩ := List.isChain_pair.mp pair
      exact Option.isNone_iff_eq_none.mp (Option.isSome_eq_false_iff.mp still)
  have others : ∀ tick ∈ later, tick.state ≠ none := fun tick inside none => by
    have some := forall_mem_tail again tick inside
    rw [none] at some
    cases some
  refine ⟨fun tick own => linked.own tick (inside.subset own), ⟨first, later, rfl, fresh, others⟩, ?_⟩
  refine List.isChain_iff_forall_rel_of_append_cons_cons.mpr fun tick next l₁ l₂ split => ?_
  have goesOn := List.isChain_iff_forall_rel_of_append_cons_cons.mp again split
  have chain : (first :: later).IsChain _ := List.IsChain.infix linked.chain inside
  have left := List.isChain_iff_forall_rel_of_append_cons_cons.mp chain split
  obtain ⟨state, saved⟩ := Option.isSome_iff_exists.mp goesOn
  exact ⟨state, left state saved, saved⟩

end Descent

/-! ### Runs -/

namespace Descent

/-- What a call leaves of its node, if that runs. -/
def Call.saved? (call : Call) : Option Active :=
  match call.result with
  | .ok (.running state) => some state
  | _ => none

theorem Call.saved?_eq_some {call : Call} {state : Active} :
    call.saved? = some state ↔ call.result = .ok (.running state) := by
  rw [saved?]
  rcases call.result with fault | (verdict | other)
  · exact ⟨nofun, nofun⟩
  · exact ⟨nofun, nofun⟩
  · exact ⟨fun same => by cases same; rfl, fun same => by cases same; rfl⟩

/-- Nodes of a tree are told apart by their ids. -/
theorem eq_of_id {root node other : Node} (nodup : root.ids.Nodup) (member : node ∈ root.preorder)
    (member' : other ∈ root.preorder) (same : other.id = node.id) : other = node :=
  List.inj_on_of_nodup_map nodup member' member same

end Descent

/-- The host makes the runner abandon whatever runs. -/
def HostAction.abandons : HostAction → Bool
  | interrupt => true
  | clear => true
  | _ => false

namespace Runner

open Descent (Activation Linked activations ticksOf)

/-- A node is active between two runs, and this is what it has saved. -/
def Keeps (runner : Runner) (node : Node) (state : Active) : Prop :=
  ∃ whole, restore runner.actor.stack = some whole ∧ Part runner.tree.root whole node state

/-- A run is not interrupted, and no error cuts it short. -/
def RunsThrough (runner : Runner) (ctx : Context) : Prop :=
  runner.isCancelled ctx = false ∧
    ∃ outcome, (runner.tickNodes (ctx.dropRequest runner.actor.caller)).1 = .ok outcome

variable {runner : Runner} {cache : ExprCache} {ctx : Context} {node : Node} {log : List Call}

theorem calls_eq (runner : Runner) (ctx : Context) :
    runner.calls ctx =
      if runner.isCancelled ctx then [] else (runner.rootCall (ctx.dropRequest runner.actor.caller)).all := rfl

/-- What a run keeps is what the tick of the root has left. -/
theorem Ready.restore_run (ready : runner.Ready cache) (ctx : Context) :
    restore (runner.run ctx).2.1.actor.stack =
      if runner.isCancelled ctx then none else (runner.rootCall (ctx.dropRequest runner.actor.caller)).saved? := by
  rw [run_eq]
  split
  · rfl
  generalize ctx.dropRequest runner.actor.caller = ctx
  have sound := ready.gives_ticks ctx
  rw [ready.tickNodes_eq, Call.saved?, Call.result, rootCall]
  rcases played : (Descent.tick runner.tree.root (restore runner.actor.stack) []).play (runner.opening ctx) with
    ⟨fault | (verdict | state), t⟩
  · rfl
  · rfl
  · exact Descent.restore_frames ready.tree.nodup (sound _ _ played).1

/-- What a run keeps of a node is its part of what the root reports. -/
theorem Ready.keeps_run (ready : runner.Ready cache) {state : Active} :
    (runner.run ctx).2.1.Keeps node state ↔
      runner.isCancelled ctx = false ∧ ∃ whole,
        (runner.rootCall (ctx.dropRequest runner.actor.caller)).result = .ok (.running whole) ∧
          Part runner.tree.root whole node state := by
  have tree : (runner.run ctx).2.1.tree = runner.tree := runner.tree_perform ctx .run
  rw [Keeps, ready.restore_run, tree]
  by_cases cancelled : runner.isCancelled ctx = true
  · rw [if_pos cancelled, cancelled]
    refine ⟨fun ⟨whole, left, _⟩ => ?_, fun ⟨going, _⟩ => ?_⟩
    · cases left
    · cases going
  · rw [if_neg cancelled]
    exact ⟨fun ⟨whole, left, part⟩ => ⟨Bool.eq_false_iff.mpr cancelled, whole, Call.saved?_eq_some.mp left, part⟩,
      fun ⟨_, whole, left, part⟩ => ⟨whole, Call.saved?_eq_some.mpr left, part⟩⟩

/-- Between two runs nothing but an interrupt and clearing drop what is kept. -/
theorem Ready.keeps_perform (ready : runner.Ready cache) {action : HostAction} (other : action.isRun = false)
    {state : Active} :
    (runner.perform ctx action).2.1.Keeps node state ↔ runner.Keeps node state ∧ action.abandons = false := by
  have nothing {next : Runner} (empty : next.actor.stack = []) : ¬ next.Keeps node state := by
    rintro ⟨whole, there, -⟩
    rw [empty] at there
    cases there
  cases action with
  | run => cases other
  | interrupt => exact ⟨fun keeps => absurd keeps (nothing ready.stack_interrupt), fun ⟨_, gone⟩ => nomatch gone⟩
  | clear => exact ⟨fun keeps => absurd keeps (nothing rfl), fun ⟨_, gone⟩ => nomatch gone⟩
  | context | vars | setDebug | follow => exact ⟨fun keeps => ⟨keeps, rfl⟩, fun ⟨keeps, _⟩ => keeps⟩

theorem mem_preorder_calls {tick : Call} (member : tick ∈ runner.calls ctx) : tick.node ∈ runner.tree.root.preorder := by
  rw [calls_eq] at member
  split at member
  · cases member
  · exact Call.mem_preorder_all member

theorem mem_ticksOf {node : Node} {tick : Call} : tick ∈ ticksOf node log ↔ tick ∈ log ∧ tick.node.id = node.id := by
  rw [ticksOf, List.mem_filter, decide_eq_true_eq]

/-! ### Ticks of a node in a run -/

section

variable (ready : runner.Ready cache) (inside : node ∈ runner.tree.root.preorder)

include ready

/-- Within one run a node is ticked again only after it has completed, and then from the start. -/
theorem Ready.order_calls (node : Node) (ctx : Context) :
    (ticksOf node (runner.calls ctx)).Pairwise fun tick next =>
      next.state = none ∧ ∃ verdict, tick.result = .ok (.done verdict) := by
  rw [calls_eq]
  split
  · exact .nil
  · have order := Call.order (runner.rootCall (ctx.dropRequest runner.actor.caller)) ready.tree.nodup
    refine (order.filter _).imp_of_mem fun {a b} member member' after => after ?_
    exact (mem_ticksOf.mp member).2.trans (mem_ticksOf.mp member').2.symm

/-- A node that runs after a run has last been ticked in that run. -/
theorem Ready.latest_run {state : Active} (keeps : (runner.run ctx).2.1.Keeps node state) :
    ∃ tick, (ticksOf node (runner.calls ctx)).getLast? = some tick ∧ tick.result = .ok (.running state) := by
  obtain ⟨going, whole, left, part⟩ := ready.keeps_run.mp keeps
  obtain ⟨tick, member, own, runs⟩ := Call.left_of_part _ left part
  have called : tick ∈ ticksOf node (runner.calls ctx) := by
    rw [mem_ticksOf, calls_eq, going]
    exact ⟨member, own ▸ rfl⟩
  obtain ⟨before, after, split⟩ := List.append_of_mem called
  have order := ready.order_calls node ctx
  refine ⟨tick, ?_, runs⟩
  rcases after with _ | ⟨next, after⟩
  · rw [split, List.getLast?_concat]
  · rw [split] at order
    obtain ⟨-, verdict, completed⟩ :=
      (List.pairwise_cons.mp (List.pairwise_append.mp order).2.1).1 next List.mem_cons_self
    cases runs.symm.trans completed

/-- A tick that goes on is the first one in its run. -/
theorem Ready.first_of_goesOn {tick : Call} (member : tick ∈ ticksOf node (runner.calls ctx))
    (goesOn : tick.state ≠ none) :
    (ticksOf node (runner.calls ctx)).head? = some tick := by
  obtain ⟨before, after, split⟩ := List.append_of_mem member
  have order := ready.order_calls node ctx
  rcases before with _ | ⟨first, before⟩
  · rw [split]
    rfl
  · rw [split] at order
    refine absurd ((List.pairwise_append.mp order).2.2 first List.mem_cons_self tick List.mem_cons_self).1 goesOn

include inside

theorem Ready.own_calls {tick : Call} (member : tick ∈ ticksOf node (runner.calls ctx)) : tick.node = node :=
  Descent.eq_of_id ready.tree.nodup inside (mem_preorder_calls (mem_ticksOf.mp member).1) (mem_ticksOf.mp member).2

/-- A tick that goes on goes on from what is kept. -/
theorem Ready.keeps_of_goesOn {tick : Call} (member : tick ∈ ticksOf node (runner.calls ctx)) {state : Active}
    (goesOn : tick.state = some state) : runner.Keeps node state := by
  have own := ready.own_calls inside member
  have called := (mem_ticksOf.mp member).1
  rw [calls_eq] at called
  split at called
  · cases called
  · obtain ⟨whole, before, part⟩ := Call.goesOn _ tick called state goesOn
    exact ⟨whole, before, own ▸ part⟩

end

/-- The ticks of a node in a log go on from one another, and what is kept for the node is what the last of them has
left. -/
structure Remembers (runner : Runner) (node : Node) (log : List Call) : Prop where
  linked : Linked node log
  latest : ∀ state, runner.Keeps node state →
    ∃ tick, (ticksOf node log).getLast? = some tick ∧ tick.result = .ok (.running state)

/-- Nothing is kept at the beginning. -/
theorem Remembers.begin (empty : runner.actor.stack = []) (node : Node) : runner.Remembers node [] where
  linked := ⟨fun _ member => absurd member List.not_mem_nil, by rintro _ ⟨⟩, .nil⟩
  latest state := by
    rintro ⟨whole, there, -⟩
    rw [empty] at there
    cases there

/-- A run hands on what the stack keeps of a node as the log of its ticks says. -/
theorem Ready.remembers_run (ready : runner.Ready cache) (inside : node ∈ runner.tree.root.preorder)
    (remembers : runner.Remembers node log) (ctx : Context) :
    (runner.run ctx).2.1.Remembers node (log ++ runner.calls ctx) := by
  obtain ⟨⟨own, first, chain⟩, latest⟩ := remembers
  have again {tick : Call} (called : tick ∈ ticksOf node (runner.calls ctx)) {state : Active}
      (goesOn : tick.state = some state) :
      ∃ last, (ticksOf node log).getLast? = some last ∧ last.result = .ok (.running state) :=
    latest state (ready.keeps_of_goesOn inside called goesOn)
  refine ⟨⟨?_, ?_, ?_⟩, fun state keeps => ?_⟩ <;> rw [Descent.ticksOf_append]
  · intro tick member
    rcases List.mem_append.mp member with before | now
    · exact own tick before
    · exact ready.own_calls inside now
  · intro tick head
    rcases none : ticksOf node log with _ | ⟨before, rest⟩
    · rw [none, List.nil_append] at head
      refine Option.eq_none_iff_forall_ne_some.mpr fun state goesOn => ?_
      obtain ⟨last, there, -⟩ := again (List.mem_of_mem_head? head) goesOn
      rw [none] at there
      cases there
    · rw [none] at head
      exact first tick (none ▸ head)
  · refine List.isChain_append.mpr ⟨chain, ?_, fun last there tick head state goesOn => ?_⟩
    · refine (ready.order_calls node ctx).isChain.imp fun {tick next} after state goesOn => ?_
      cases after.1.symm.trans goesOn
    · obtain ⟨last', there', left⟩ := again (List.mem_of_mem_head? head) goesOn
      cases (Option.mem_def.mp there).symm.trans there'
      exact left
  · obtain ⟨tick, last, left⟩ := ready.latest_run keeps
    exact ⟨tick, by rw [List.getLast?_append, last]; rfl, left⟩

theorem callsOf_eq_nil {action : HostAction} (other : action.isRun = false) : runner.callsOf ctx action = [] := by
  cases action with
  | run => cases other
  | interrupt | clear | context | vars | setDebug | follow => rfl

/-- Every action keeps the stack in step with the log of a node's ticks. -/
theorem Ready.remembers_perform (ready : runner.Ready cache) (inside : node ∈ runner.tree.root.preorder)
    (remembers : runner.Remembers node log) (ctx : Context) (action : HostAction) :
    (runner.perform ctx action).2.1.Remembers node (log ++ runner.callsOf ctx action) := by
  by_cases run : action.isRun = true
  · cases action <;> cases run
    exact ready.remembers_run inside remembers ctx
  · have other := Bool.eq_false_iff.mpr run
    rw [callsOf_eq_nil other, List.append_nil]
    exact ⟨remembers.linked, fun state keeps => remembers.latest state ((ready.keeps_perform other).mp keeps).1⟩

/-- So does every sequence of actions. -/
theorem Ready.remembers_performAll (ready : runner.Ready cache) (inside : node ∈ runner.tree.root.preorder)
    (remembers : runner.Remembers node log) (ctx : Context) (actions : List HostAction) :
    (runner.performAll ctx actions).1.Remembers node (log ++ runner.journal ctx actions) := by
  let H (runner : Runner) (log : List Call) :=
    runner.Ready cache ∧ node ∈ runner.tree.root.preorder ∧ runner.Remembers node log
  have holds : H runner log := ⟨ready, inside, remembers⟩
  refine (journal_induct (fun runner log ctx action _ holds => ?_) holds ctx).2.2
  obtain ⟨ready, inside, remembers⟩ := holds
  exact ⟨ready.perform ctx action, by rwa [runner.tree_perform], ready.remembers_perform inside remembers ctx action⟩

/-! ### What becomes of an activation -/

/-- How the activation of a node goes on, in whatever state its runner is. -/
structure Sustains (runner : Runner) (log : List Call) (node : Node) : Prop where
  /-- What is kept for the node is what its last tick has left, and the stack holds it. -/
  kept : ∀ state, runner.Keeps node state → node.frame state ∈ stackFrames runner.actor.stack ∧
    ∃ tick, (ticksOf node log).getLast? = some tick ∧ tick.result = .ok (.running state)
  /-- While the node waits for a child, this one is active and no other of its children. -/
  waits : ∀ memory i saved, runner.Keeps node (.over memory i saved) → ∀ (j : Nat) child state,
    node.children[j]? = some child → (runner.Keeps child state ↔ j = i ∧ state = saved)
  /-- Only the first tick in a run can go on, and it goes on from what is kept. -/
  goesOn : ∀ ctx, ∀ tick ∈ ticksOf node (runner.calls ctx), ∀ state, tick.state = some state →
    runner.Keeps node state ∧ (ticksOf node (runner.calls ctx)).head? = some tick
  /-- The node goes on in a run that nothing cuts short, unless it is given up with a node above it whose deadline
  has come. -/
  turns : ∀ ctx, runner.RunsThrough ctx → ∀ state, runner.Keeps node state →
    (∃ tick ∈ ticksOf node (runner.calls ctx), tick.state = some state) ∨
      ∃ frame ∈ stackFrames runner.actor.stack, frame.isDue ctx.clock = true ∧
        node.id ∈ Node.idsAll frame.node.children
  /-- What a run keeps is what its ticks have left, and a run that is cut short keeps nothing. -/
  left : ∀ ctx state, (runner.run ctx).2.1.Keeps node state ↔
    runner.RunsThrough ctx ∧ ∃ tick ∈ ticksOf node (runner.calls ctx), tick.result = .ok (.running state)
  /-- Between two runs the activation is given up with an interrupt and with clearing, and not otherwise. -/
  lasts : ∀ ctx action, HostAction.isRun action = false → ∀ state,
    (runner.perform ctx action).2.1.Keeps node state ↔ runner.Keeps node state ∧ action.abandons = false

/-- What comes of the tick of the root decides whether a run is cut short. -/
theorem Ready.runsThrough_iff (ready : runner.Ready cache) :
    runner.RunsThrough ctx ↔ runner.isCancelled ctx = false ∧
      ∃ report, (runner.rootCall (ctx.dropRequest runner.actor.caller)).result = .ok report := by
  rw [RunsThrough, ready.tickNodes_eq]
  refine and_congr_right fun _ => ⟨fun ⟨outcome, same⟩ => ?_, fun ⟨report, came⟩ => ⟨_, congrArg (Except.map _) came⟩⟩
  obtain ⟨report, came, -⟩ := Descent.ok_of_map same
  exact ⟨report, came⟩

/-- The clock does not move before the nodes are ticked. -/
theorem clock_opening {whole : Active} (there : restore runner.actor.stack = some whole) (ctx : Context) :
    (runner.opening ctx).context.clock = ctx.clock := by
  rw [opening, if_neg]
  rintro empty
  rw [List.isEmpty_iff.mp empty] at there
  cases there

/-- What is kept for a node lies on the stack as a frame. -/
theorem Ready.frame_mem_stack (ready : runner.Ready cache) {state : Active} (keeps : runner.Keeps node state) :
    node.frame state ∈ stackFrames runner.actor.stack := by
  obtain ⟨whole, there, part⟩ := keeps
  exact ready.stack_eq_frames there ▸ part.mem_stackFrames

/-- A node that waits for a child keeps what is saved for this one and for no other. -/
theorem Ready.keeps_child_iff (ready : runner.Ready cache) {memory : Descent.Memory} {i j : Nat} {saved state : Active}
    {child : Node} (keeps : runner.Keeps node (.over memory i saved)) (here : node.children[j]? = some child) :
    runner.Keeps child state ↔ j = i ∧ state = saved := by
  obtain ⟨whole, there, part⟩ := keeps
  constructor
  · rintro ⟨whole', there', inner⟩
    cases there.symm.trans there'
    have kept := part.child?_eq ready.tree.nodup here inner
    rw [Active.child?] at kept
    split at kept
    · cases kept
      exact ⟨‹j = i›, rfl⟩
    · cases kept
  · rintro ⟨rfl, rfl⟩
    exact ⟨whole, there, part.trans (.child here (if_pos rfl) (.self _ _))⟩

/-- A run that nothing cuts short goes on with a node, or gives it up with one above it whose deadline has come. -/
theorem Ready.turns_or_due (ready : runner.Ready cache) (through : runner.RunsThrough ctx) {state : Active}
    (keeps : runner.Keeps node state) :
    (∃ tick ∈ ticksOf node (runner.calls ctx), tick.state = some state) ∨
      ∃ frame ∈ stackFrames runner.actor.stack, frame.isDue ctx.clock = true ∧
        node.id ∈ Node.idsAll frame.node.children := by
  obtain ⟨whole, there, part⟩ := keeps
  obtain ⟨going, report, came⟩ := ready.runsThrough_iff.mp through
  have builtin : runner.tree.root.Every Descent.IsBuiltin := ready.shaped.mono fun _ shaped => shaped.builtin
  rcases Call.turns _ builtin ready.tree.nodup came there part with
    ⟨tick, member, own, goesOn⟩ | ⟨outer, saved, above, due, below⟩
  · refine .inl ⟨tick, ?_, goesOn⟩
    rw [mem_ticksOf, calls_eq, going]
    exact ⟨member, own ▸ rfl⟩
  · have clock : (runner.rootCall (ctx.dropRequest runner.actor.caller)).scene.context.clock = ctx.clock :=
      clock_opening there _
    exact .inr ⟨_, ready.frame_mem_stack ⟨whole, there, above⟩, (outer.isDue_frame saved ctx.clock).mpr (clock ▸ due),
      (outer.node_frame saved).symm ▸ below⟩

/-- What a run keeps of a node is what one of the node's ticks in the run has reported. -/
theorem Ready.keeps_run_iff_left (ready : runner.Ready cache) (inside : node ∈ runner.tree.root.preorder)
    {state : Active} :
    (runner.run ctx).2.1.Keeps node state ↔
      runner.RunsThrough ctx ∧ ∃ tick ∈ ticksOf node (runner.calls ctx), tick.result = .ok (.running state) := by
  rw [ready.runsThrough_iff]
  constructor
  · intro keeps
    obtain ⟨going, whole, came, part⟩ := ready.keeps_run.mp keeps
    obtain ⟨tick, last, runs⟩ := ready.latest_run keeps
    exact ⟨⟨going, _, came⟩, tick, List.mem_of_getLast? last, runs⟩
  · rintro ⟨⟨going, report, came⟩, tick, member, runs⟩
    have own := ready.own_calls inside member
    have called := (mem_ticksOf.mp member).1
    rw [calls_eq, going] at called
    obtain ⟨whole, rfl, part⟩ := Call.leaves _ came tick called state runs
    exact ready.keeps_run.mpr ⟨going, whole, came, own ▸ part⟩

/-- From any state that remembers its ticks, the stack and the ticks to come agree. -/
theorem Ready.sustains (ready : runner.Ready cache) (inside : node ∈ runner.tree.root.preorder)
    (remembers : runner.Remembers node log) : runner.Sustains log node where
  kept state keeps := ⟨ready.frame_mem_stack keeps, remembers.latest state keeps⟩
  waits memory i saved keeps j child state here := ready.keeps_child_iff keeps here
  goesOn ctx tick member state goesOn := by
    refine ⟨ready.keeps_of_goesOn inside member goesOn, ready.first_of_goesOn member fun none => ?_⟩
    cases none.symm.trans goesOn
  turns ctx through state keeps := ready.turns_or_due through keeps
  left ctx state := ready.keeps_run_iff_left inside
  lasts ctx action other state := ready.keeps_perform other

/-! ### What is told of the runs -/

/-- How a node is activated, in the runs so far and from there on. -/
structure Activates (runner : Runner) (log : List Call) (node : Node) : Prop where
  activation : ∀ ticks ∈ activations node log, Activation node ticks
  sustains : runner.Sustains log node
  /-- The ticks that are told of are those that are made on the stack. -/
  genuine : ∀ tick ∈ ticksOf node log, ∀ call ∈ tick.all, call.Genuine

theorem Ready.proper_root (ready : runner.Ready cache) : (runner.rootCall ctx).Proper :=
  ⟨ready.shaped, ready.tree.nodup, ready.sound⟩

theorem Ready.proper_calls (ready : runner.Ready cache) : ∀ tick ∈ runner.calls ctx, tick.Proper := by
  intro tick member
  rw [calls_eq] at member
  split at member
  · cases member
  · exact ready.proper_root.all tick member

/-- Every tick of a journal comes from the stack machine. -/
theorem Ready.proper_journal (ready : runner.Ready cache) (actions : List HostAction) :
    ∀ tick ∈ runner.journal ctx actions, tick.Proper := by
  let H (runner : Runner) (log : List Call) := runner.Ready cache ∧ ∀ tick ∈ log, tick.Proper
  have holds : H runner [] := ⟨ready, fun _ member => absurd member List.not_mem_nil⟩
  refine (journal_induct (fun runner log ctx action _ holds => ?_) holds ctx).2
  obtain ⟨ready, proper⟩ := holds
  refine ⟨ready.perform ctx action, List.forall_mem_append.mpr ⟨proper, ?_⟩⟩
  by_cases run : action.isRun = true
  · cases action <;> cases run
    exact ready.proper_calls
  · rw [callsOf_eq_nil (Bool.eq_false_iff.mpr run)]
    exact fun _ member => absurd member List.not_mem_nil

theorem tree_performAll (runner : Runner) (ctx : Context) (actions : List HostAction) :
    (runner.performAll ctx actions).1.tree = runner.tree := by
  induction actions generalizing runner ctx with
  | nil => rfl
  | cons action rest ih => exact (ih (runner.perform ctx action).2.1 _).trans (runner.tree_perform ctx action)

end Runner

/-- A new runner of a loaded tree begins in a ready state. -/
theorem Source.ready_load {source : Source} {cache : ExprCache} {name : String} {strict : Bool} {tree : Tree}
    (loaded : (source.load Registry.builtin cache name strict).1 = .ok tree) (caller : Nat) (target : Target)
    (debug : Bool) :
    (Runner.new tree (.newWith caller target debug)).Ready (source.load Registry.builtin cache name strict).2 := by
  obtain ⟨admitted, nodup⟩ := source.admitted_load cache name strict loaded
  exact ⟨⟨admitted, nodup⟩, _, Descent.Walker.valid_new tree caller target debug, rfl⟩

/-- Every node of a loaded tree is activated so, whatever its host has done. -/
theorem Source.activates_load {source : Source} {cache : ExprCache} {name : String} {strict : Bool} {tree : Tree}
    (loaded : (source.load Registry.builtin cache name strict).1 = .ok tree) (caller : Nat) (target : Target)
    (debug : Bool) (before : Context) (actions : List HostAction) {node : Node} (inside : node ∈ tree.root.preorder) :
    let start := Runner.new tree (.newWith caller target debug)
    (start.performAll before actions).1.Activates (start.journal before actions) node := by
  intro start
  have fresh : start.Ready _ := Source.ready_load loaded caller target debug
  have remembers := fresh.remembers_performAll inside (.begin rfl node) before actions
  rw [List.nil_append] at remembers
  have ready := fresh.performAll before actions
  have below : node ∈ (start.performAll before actions).1.tree.root.preorder := by
    rwa [start.tree_performAll]
  exact ⟨fun ticks member => remembers.linked.activation member, ready.sustains below remembers,
    fun tick member call within =>
      ((fresh.proper_journal actions tick (Runner.mem_ticksOf.mp member).1).all call within).genuine⟩

end BehaviorTree
