import BehaviorTree.Proofs.Descent.Basic
import BehaviorTree.Proofs.Event.Mailbox
import BehaviorTree.Proofs.Tick.Play
import BehaviorTree.Proofs.Tree.Preorder
import Mathlib.Logic.Relation

/-!
What ticking can do to a scene. Whatever nodes of the built-in kinds do is a sequence of a few
single effects; only a Once node completes, and it completes under its own id. What every effect
leaves alone a tick leaves alone: the clock, the owner of the actor, and the events that wait,
which a tick may take but never adds to.
-/

namespace BehaviorTree

/-- What a note says of the stages of a run: the stage, and the tag of the follower that was told. -/
def Note.told? : Note → Option (Stage × String)
  | .followed stage tag _ _ _ => some (stage, tag)
  | _ => none

/-- All that followers have been told, in order. -/
def Context.told (ctx : Context) : List (Stage × String) := ctx.notes.filterMap Note.told?

namespace Descent

/-- Where a node listens for an actor: at its address, at a name, or for what is meant for everyone. -/
def Reaches (actor : Actor) (target : Target) : Prop :=
  target = actor.target ∨ ∀ caller, target ≠ .caller caller

/-- One change to a scene, when the nodes with these ids are ticked. -/
inductive Effect (ids : List Nat) : Scene → Scene → Prop
  | note (s : Scene) (n : Note) (ofNode : n.told? = none) : Effect ids s (s.note n)
  | write (s : Scene) (name : String) (v : Value) : Effect ids s (s.updateActor (·.set name v))
  | remove (s : Scene) (name : String) : Effect ids s (s.updateActor (·.remove name))
  | clearTemporaries (s : Scene) : Effect ids s (s.updateActor Actor.clearTemporaries)
  | report (s : Scene) (status : Status) :
      Effect ids s (s.updateActor fun actor => { actor with last := status })
  | complete (s : Scene) (id : Nat) (own : id ∈ ids) :
      Effect ids s (s.updateActor fun actor => { actor with completed := id :: actor.completed })
  | compile (s : Scene) (code : String) :
      Effect ids s (s.updateContext fun ctx => (ctx.compile code).2)
  | subscribe (s : Scene) (event : String) (target : Target) (reached : Reaches s.actor target) :
      Effect ids s (s.updateContext fun ctx => (ctx.subscribe event target s.actor.caller).2)
  | take (s : Scene) (listener : Nat) (event : List Value) (rest : List (List Value))
      (waiting : s.context.queue listener = event :: rest) :
      Effect ids s (s.updateContext (·.updateMailbox listener fun _ => rest))
  | unsubscribe (s : Scene) (listener : Nat) :
      Effect ids s (s.updateContext (·.unsubscribe listener))

/-- Any number of changes. -/
abbrev Effects (ids : List Nat) : Scene → Scene → Prop := Relation.ReflTransGen (Effect ids)

/-- A computation that changes nothing beyond these effects, whatever comes of it. -/
def Changes {α : Type} (ids : List Nat) (x : TickM α) : Prop := ∀ s, Effects ids s (x.play s).2

variable {α β : Type} {ids : List Nat}

theorem Effect.mono {more : List Nat} (sub : ids ⊆ more) {s t : Scene} (h : Effect ids s t) :
    Effect more s t := by
  cases h with
  | complete id own => exact .complete _ _ (sub own)
  | subscribe event target reached => exact .subscribe _ _ _ reached
  | take listener event rest waiting => exact .take _ _ _ _ waiting
  | note n ofNode => exact .note _ _ ofNode
  | _ => constructor

theorem Changes.mono {more : List Nat} (sub : ids ⊆ more) {x : TickM α} (h : Changes ids x) :
    Changes more x :=
  fun s => Relation.ReflTransGen.mono (fun _ _ (e : Effect ids _ _) => e.mono sub) _ _ (h s)

/-! ### Computations -/

theorem changes_pure (a : α) : Changes ids (pure a : TickM α) := fun _ => .refl

theorem changes_throw (fault : Fault) : Changes ids (throw fault : TickM α) := fun _ => .refl

theorem changes_bind {x : TickM α} {f : α → TickM β} (hx : Changes ids x)
    (hf : ∀ a, Changes ids (f a)) : Changes ids (x >>= f) := by
  intro s
  have first := hx s
  rw [TickM.play_bind]
  rcases h : x.play s with ⟨fault | a, t⟩
  · rw [h] at first
    exact first
  · rw [h] at first
    exact first.trans (hf a t)

theorem changes_map {g : α → β} {x : TickM α} (hx : Changes ids x) : Changes ids (g <$> x) := by
  intro s
  rw [TickM.play_map]
  exact hx s

theorem changes_rethrow {x : TickM α} (handle : Fault → Fault) (hx : Changes ids x) :
    Changes ids (tryCatch x fun fault => throw (handle fault)) := by
  intro s
  have first := hx s
  rw [TickM.play_tryCatch]
  rcases h : x.play s with ⟨fault | a, t⟩ <;> rw [h] at first <;> exact first

theorem changes_context : Changes ids TickM.context := fun _ => .refl

theorem changes_actor : Changes ids TickM.actor := fun _ => .refl

theorem changes_now : Changes ids TickM.now := fun _ => .refl

theorem changes_note (n : Note) (ofNode : n.told? = none) : Changes ids (TickM.note n) :=
  fun s => .single (.note s n ofNode)

theorem changes_noteDebug (n : Note) (ofNode : n.told? = none) : Changes ids (TickM.noteDebug n) := by
  intro s
  simp only [TickM.play_noteDebug, Scene.noteDebug]
  split
  · exact .single (.note s n ofNode)
  · exact .refl

theorem changes_report (status : Status) :
    Changes ids (TickM.updateActor fun actor => { actor with last := status }) :=
  fun s => .single (.report s status)

theorem changes_fail (visit : Visit) (error : RunError) :
    Changes ids (visit.fail error : TickM α) := changes_throw _

theorem changes_input (visit : Visit) (i : Nat) : Changes ids (visit.input? i) := fun _ => .refl

theorem changes_output (visit : Visit) (i : Nat) : Changes ids (visit.output? i) := fun _ => .refl

theorem effects_setOutput (node : Node) (i : Nat) (v : Value) (s : Scene) :
    Effects ids s (s.updateActor fun actor => actor.setOutput node i v) := by
  rcases h : node.outputVar? i with _ | name
  · have same : (s.updateActor fun actor => actor.setOutput node i v) = s := by
      simp only [Actor.setOutput, h]
      rfl
    rw [same]
  · have written : (s.updateActor fun actor => actor.setOutput node i v) =
        s.updateActor (·.set name v) := by
      simp only [Actor.setOutput, h]
    rw [written]
    exact .single (.write s name v)

theorem changes_setOutput (visit : Visit) (i : Nat) (v : Value) :
    Changes ids (visit.setOutput i v) := fun s => effects_setOutput visit.node i v s

theorem changes_evaluate (visit : Visit) (arg : String) : Changes ids (visit.evaluate arg) := by
  intro s
  rw [visit.play_evaluate]
  split
  · exact .refl
  · exact .single (.compile s _)

/-! ### Nodes -/

theorem changes_ite {p : Prop} [Decidable p] {x y : TickM α} (hx : Changes ids x)
    (hy : Changes ids y) : Changes ids (if p then x else y) := by
  split
  · exact hx
  · exact hy

theorem changes_takeEvent (listener : Nat) : Changes ids (Visit.takeEvent listener) := by
  intro s
  simp only [Visit.takeEvent, TickM.play_bind, TickM.play_context]
  rcases h : s.context.queue listener with _ | ⟨event, rest⟩
  · exact .refl
  · exact .single (.take s listener event rest h)

theorem changes_unsubscribe (listener : Nat) : Changes ids (Visit.unsubscribe listener) :=
  fun s => .single (.unsubscribe s listener)

theorem changes_release (listeners : List Nat) : Changes ids (release listeners) := by
  intro s
  simp only [release, TickM.play_updateContext]
  induction listeners generalizing s with
  | nil => exact .refl
  | cons listener rest ih =>
    exact .head (.unsubscribe s listener) (ih (s.updateContext (·.unsubscribe listener)))

theorem changes_writeArguments (visit : Visit) (args : List Value) :
    Changes ids (visit.writeArguments args) := by
  intro s
  simp only [Visit.writeArguments, TickM.play_updateActor]
  generalize args.zipIdx = pairs
  induction pairs generalizing s with
  | nil => exact .refl
  | cons pair rest ih =>
    exact (effects_setOutput visit.node pair.2 pair.1 s).trans
      (ih (s.updateActor fun actor => actor.setOutput visit.node pair.2 pair.1))

theorem changes_removeAll (names : List String) :
    Changes ids (TickM.updateActor fun actor => names.foldl Actor.remove actor) := by
  intro s
  rw [TickM.play_updateActor]
  induction names generalizing s with
  | nil => exact .refl
  | cons name rest ih => exact .head (.remove s name) (ih (s.updateActor (·.remove name)))

theorem changes_nextEvent (visit : Visit) (listener : Nat) :
    Changes ids (nextEvent visit listener) := by
  refine changes_bind (changes_takeEvent listener) fun event => ?_
  rcases event with _ | args
  · exact changes_pure _
  · exact changes_bind (changes_writeArguments visit args) fun _ => changes_pure _

theorem effects_startListening (visit : Visit) {target : Target} {s : Scene}
    (reached : Reaches s.actor target) : Effects ids s ((startListening visit target).play s).2 := by
  simp only [startListening, TickM.play_bind, TickM.play_get, TickM.play_set]
  exact .head (.subscribe s _ target reached) (changes_nextEvent visit _ _)

theorem changes_listening (visit : Visit) :
    Changes ids (do startListening visit (← whom visit)) := by
  unfold whom
  split
  · simp only [bind_assoc]
    refine changes_bind (changes_input visit 0) fun v s => ?_
    split
    · exact effects_startListening visit (.inr nofun)
    · exact effects_startListening visit (.inr nofun)
  · exact fun s => effects_startListening visit (.inl rfl)

theorem changes_firstRound (visit : Visit) : Changes ids (firstRound visit) := by
  unfold firstRound
  split <;> exact changes_bind (changes_input visit 0) fun _ => changes_pure _

theorem changes_writeRound (visit : Visit) (it : Visit.Iteration) :
    Changes ids (writeRound visit it) := by
  unfold writeRound
  split
  · exact changes_setOutput visit 0 _
  · split
    · exact changes_bind (changes_setOutput visit 0 _) fun _ => changes_setOutput visit 1 _
    · exact changes_pure _

theorem changes_startRound (visit : Visit) (it : Visit.Iteration) :
    Changes ids (startRound visit it) :=
  changes_ite (changes_pure _) (changes_bind (changes_writeRound visit it) fun _ => changes_pure _)

theorem changes_waitUntil (time : Float) : Changes ids (waitUntil time) :=
  changes_bind changes_now fun _ => changes_pure _

theorem changes_delayUntil (time : Float) : Changes ids (delayUntil time) :=
  changes_bind changes_now fun _ => changes_pure _

/-- To start, a node changes only what a tick may change. -/
theorem changes_start (visit : Visit) {kind : Kind} (builtin : ∀ e, kind ≠ .extension e) :
    Changes ids (start visit kind) := by
  cases kind with
  | loop => exact changes_bind (changes_firstRound visit) fun it => changes_startRound visit it
  | foreach => exact changes_bind (changes_firstRound visit) fun it => changes_startRound visit it
  | once => exact changes_bind changes_actor fun _ => changes_ite (changes_pure _) (changes_pure _)
  | timeout => exact changes_bind changes_now fun _ => changes_pure _
  | delay => exact changes_bind changes_now fun _ => changes_delayUntil _
  | listen => exact changes_listening visit
  | listenTree => exact changes_listening visit
  | wait =>
    exact changes_bind (changes_input visit 0) fun _ =>
      changes_bind changes_now fun _ => changes_waitUntil _
  | check => exact changes_map (changes_bind (changes_evaluate visit _) fun _ => changes_pure _)
  | isNull => exact changes_map (changes_bind (changes_input visit 0) fun _ => changes_pure _)
  | notNull => exact changes_map (changes_bind (changes_input visit 0) fun _ => changes_pure _)
  | isStatus => exact changes_map (changes_bind changes_actor fun _ => changes_pure _)
  | calculate =>
    exact changes_map (changes_bind (changes_evaluate visit _) fun _ =>
      changes_bind (changes_setOutput visit 0 _) fun _ => changes_pure _)
  | constant => exact changes_map (changes_bind (changes_setOutput visit 0 _) fun _ => changes_pure _)
  | push =>
    refine changes_map (changes_bind (changes_input visit 0) fun _ =>
      changes_bind (changes_output visit 0) fun v => ?_)
    split
    · exact changes_bind (changes_setOutput visit 0 _) fun _ => changes_pure _
    · exact changes_pure _
  | clear =>
    refine changes_map (changes_bind (changes_removeAll _) fun _ => ?_)
    split
    · exact changes_bind (fun s => .single (.clearTemporaries s)) fun _ => changes_pure _
    · exact changes_pure _
  | log =>
    exact changes_map (changes_bind changes_actor fun _ =>
      changes_bind (changes_note _ rfl) fun _ => changes_pure _)
  | now =>
    exact changes_map (changes_bind changes_now fun _ =>
      changes_bind (changes_setOutput visit 0 _) fun _ => changes_pure _)
  | extension e => exact absurd rfl (builtin e)
  | _ => exact changes_pure _

/-- To go on after a rest, a node changes only what a tick may change. -/
theorem changes_goOn (visit : Visit) (kind : Kind) (memory : Memory) :
    Changes ids (goOn visit kind memory) := by
  cases memory with
  | nothing => exact changes_pure _
  | round it => exact changes_startRound visit it
  | attempts count => exact changes_pure _
  | mailbox listener => exact changes_nextEvent visit listener
  | «until» time => exact changes_ite (changes_waitUntil time) (changes_delayUntil time)

theorem changes_heedEvent (visit : Visit) (memory : Memory) (verdict : Verdict) :
    Changes ids (heedEvent visit memory verdict) := by
  cases memory with
  | mailbox listener =>
    refine changes_ite ?_ (changes_nextEvent visit listener)
    exact changes_bind (changes_unsubscribe listener) fun _ => changes_pure _
  | _ => exact changes_pure _

/-- Heeding a verdict memorizes at most the node's own number. -/
theorem changes_heed (visit : Visit) (own : visit.node.id ∈ ids) (kind : Kind) (memory : Memory)
    (child : Nat) (verdict : Verdict) : Changes ids (heed visit kind memory child verdict) := by
  cases kind with
  | once => exact changes_bind (fun s => .single (.complete s _ own)) fun _ => changes_pure _
  | assert =>
    cases verdict with
    | success => exact changes_pure _
    | failure => exact changes_fail visit _
  | listen => exact changes_heedEvent visit memory verdict
  | listenTree => exact changes_heedEvent visit memory verdict
  | _ => exact changes_pure _

/-! ### The descent -/

section

variable (visit : Visit) {children : List Ticker} (own : visit.node.id ∈ ids)
  (below : ∀ tick ∈ children, ∀ state path, Changes ids (tick state path))

include own below

/-- Turns change what the calls in them change. -/
theorem changes_drive (turns : Nat) (move : Move) : Changes ids (drive visit children turns move) := by
  induction turns generalizing move with
  | zero => cases move <;> exact changes_pure _
  | succ turns ih =>
    cases move with
    | finish verdict => exact changes_pure _
    | rest memory => exact changes_pure _
    | enter i memory =>
      rw [drive]
      rcases h : children[i]? with _ | tick
      · exact changes_fail visit _
      · refine changes_bind (below tick (List.mem_of_getElem? h) _ _) fun report => ?_
        cases report with
        | running state => exact changes_pure _
        | done verdict =>
          exact changes_bind (changes_heed visit own _ _ _ _) fun move => ih move

theorem changes_carryOut (move : Move) : Changes ids (carryOut visit children move) :=
  changes_bind changes_context fun _ => changes_drive visit own below _ move

omit own in
/-- Children side by side change what each of them changes. -/
theorem changes_tickShares (shares : List (Option Share)) :
    Changes ids (tickShares visit children shares) := by
  have beside : ∀ tick ∈ children, ∀ state, Changes ids (tickBeside visit tick state) :=
    fun tick member state => changes_bind (changes_rethrow _ (below tick member state []))
      fun _ => changes_pure _
  clear below
  induction children generalizing shares with
  | nil => exact changes_pure _
  | cons tick ticks ih =>
    have later := fun shares => ih shares fun tick member =>
      beside tick (List.mem_cons_of_mem _ member)
    have beside := beside tick List.mem_cons_self
    cases shares with
    | nil => exact changes_pure _
    | cons share shares =>
      rw [tickShares]
      refine changes_bind ?_ fun share => changes_bind (later shares) fun _ => changes_pure _
      rcases share with _ | (verdict | state)
      · exact beside none
      · exact changes_pure _
      · exact beside (some state)

omit own in
theorem changes_tickAllBeside (shares : List (Option Share)) :
    Changes ids (tickAllBeside visit children shares) :=
  changes_bind (changes_tickShares visit below shares) fun _ => changes_pure _

omit own below in
theorem changes_act {x : TickM Report} (hx : Changes ids x) : Changes ids (act visit x) :=
  changes_bind (changes_noteDebug _ rfl) fun _ => changes_bind hx fun _ =>
    changes_bind (changes_noteDebug _ rfl) fun _ => changes_bind (changes_report _) fun _ => changes_pure _

omit own below in
theorem changes_expire (state : Active) : Changes ids (expire visit state) :=
  changes_bind changes_now fun _ => changes_bind (changes_noteDebug _ rfl) fun _ =>
    changes_bind (changes_release _) fun _ =>
      changes_act visit (changes_bind (changes_note _ rfl) fun _ => changes_pure _)

/-- A visit changes what a tick of the node may change. -/
theorem changes_visitNode (builtin : ∀ e, visit.node.kind ≠ .extension e) (state : Option Active) :
    Changes ids (visitNode visit children state) := by
  rcases state with _ | (memory | ⟨memory, i, state⟩ | shares)
  · refine changes_ite (changes_act visit (changes_tickAllBeside visit below _)) ?_
    exact changes_act visit (changes_bind (changes_start visit builtin)
      fun move => changes_carryOut visit own below move)
  · exact changes_act visit (changes_bind (changes_goOn visit _ _)
      fun move => changes_carryOut visit own below move)
  · refine changes_bind changes_now fun now => changes_ite (changes_expire visit state) ?_
    rcases h : children[i]? with _ | tick
    · exact changes_fail visit _
    · refine changes_bind (below tick (List.mem_of_getElem? h) _ _) fun report => ?_
      cases report with
      | running state => exact changes_bind (changes_report _) fun _ => changes_pure _
      | done verdict =>
        exact changes_act visit (changes_bind (changes_heed visit own _ _ _ _)
          fun move => changes_carryOut visit own below move)
  · exact changes_act visit (changes_tickAllBeside visit below _)

end

theorem tickAll_eq : ∀ nodes : List Node, tickAll nodes = nodes.map tick
  | [] => rfl
  | _ :: rest => by rw [tickAll, tickAll_eq rest, List.map_cons]

/-- How a node is visited in a descent; the path ends with the node. -/
def visitAt (node : Node) (path : Path) : Visit :=
  { node, progress := none, children := [], tasks := [], path }

@[simp] theorem visitAt_node (node : Node) (path : Path) : (visitAt node path).node = node := rfl

@[simp] theorem visitAt_path (node : Node) (path : Path) : (visitAt node path).path = path := rfl

theorem tick_eq (node : Node) (state : Option Active) (path : Path) :
    tick node state path =
      visitNode (visitAt node (path ++ [node.id])) (node.children.map tick) state := by
  obtain ⟨id, kind, name, desc, args, input, output, children⟩ := node
  rw [tick, tickAll_eq]
  rfl

/-- A node of a built-in kind, by its own account. -/
def IsBuiltin (node : Node) : Prop := ∀ e, node.kind ≠ .extension e

/-- Ticking a tree of built-in nodes does nothing but single effects under the ids of its nodes. -/
theorem changes_tick (node : Node) (builtin : node.Every IsBuiltin) (state : Option Active)
    (path : Path) : Changes node.ids (tick node state path) := by
  induction node using Node.induct generalizing state path with
  | step node ih =>
    rw [tick_eq]
    refine changes_visitNode (visitAt node _) node.id_mem_ids ?_ builtin.self state
    intro _ ticked state path
    obtain ⟨child, member, rfl⟩ := List.mem_map.mp ticked
    exact (ih child member (builtin.child member) state path).mono (Node.ids_child_subset member)

theorem changes_tickNodes (visit : Visit) {nodes : List Node}
    (builtin : ∀ node ∈ nodes, node.Every IsBuiltin) (shares : List (Option Share)) :
    Changes (Node.idsAll nodes) (tickShares visit (nodes.map tick) shares) := by
  refine changes_tickShares visit (fun _ ticked state path => ?_) shares
  obtain ⟨node, member, rfl⟩ := List.mem_map.mp ticked
  exact (changes_tick node (builtin node member) state path).mono (Node.ids_subset_of_mem member)

/-! ### What effects keep -/

theorem Effect.clock {s t : Scene} (h : Effect ids s t) : t.context.clock = s.context.clock := by
  cases h with
  | unsubscribe listener =>
    simp only [Scene.updateContext, Context.unsubscribe]
    split <;> rfl
  | _ => rfl

theorem Effect.requests {s t : Scene} (h : Effect ids s t) : t.context.requests = s.context.requests := by
  cases h with
  | unsubscribe listener =>
    simp only [Scene.updateContext, Context.unsubscribe]
    split <;> rfl
  | _ => rfl

/-- A tick tells followers nothing. -/
theorem Effect.told {s t : Scene} (h : Effect ids s t) : t.context.told = s.context.told := by
  cases h with
  | note n ofNode =>
    refine List.filterMap_append.trans ?_
    rw [List.filterMap_cons_none ofNode]
    exact List.append_nil _
  | unsubscribe listener =>
    simp only [Scene.updateContext, Context.unsubscribe]
    split <;> rfl
  | _ => rfl

theorem Effect.caller {s t : Scene} (h : Effect ids s t) : t.actor.caller = s.actor.caller := by
  cases h <;> rfl

theorem Effect.target {s t : Scene} (h : Effect ids s t) : t.actor.target = s.actor.target := by
  cases h <;> rfl

/-- A tick takes events out of mailboxes and puts none in. -/
theorem Effect.queue_length_le {s t : Scene} (h : Effect ids s t) (listener : Nat) :
    (t.context.queue listener).length ≤ (s.context.queue listener).length := by
  cases h with
  | subscribe event target reached =>
    simp only [Scene.updateContext, Context.queue_subscribe, Nat.le_refl]
  | take taken event rest waiting =>
    have mailbox := s.context.isSome_mailbox?_of_queue (by rw [waiting]; exact List.cons_ne_nil _ _)
    simp only [Scene.updateContext]
    rw [Context.queue_updateMailbox _ _ _ _ (.inr mailbox)]
    split
    · rename_i same
      rw [same, waiting]
      exact Nat.le_succ _
    · exact Nat.le_refl _
  | unsubscribe gone =>
    simp only [Scene.updateContext, Context.queue_unsubscribe]
    split
    · exact Nat.zero_le _
    · exact Nat.le_refl _
  | _ => exact Nat.le_refl _

/-- A tick memorizes no other nodes than its own. -/
theorem Effect.completed_subset {s t : Scene} (h : Effect ids s t) :
    t.actor.completed ⊆ s.actor.completed ++ ids := by
  cases h with
  | complete id own =>
    intro other member
    rcases List.mem_cons.mp member with rfl | member
    · exact List.mem_append_right _ own
    · exact List.mem_append_left _ member
  | _ => exact List.subset_append_left _ _

theorem Effect.completed_mono {s t : Scene} (h : Effect ids s t) : s.actor.completed ⊆ t.actor.completed := by
  cases h with
  | complete id own => exact List.subset_cons_self _ _
  | _ => exact List.Subset.refl _

theorem Effects.clock {s t : Scene} (h : Effects ids s t) : t.context.clock = s.context.clock := by
  induction h with
  | refl => rfl
  | tail _ last ih => rw [last.clock, ih]

theorem Effects.requests {s t : Scene} (h : Effects ids s t) : t.context.requests = s.context.requests := by
  induction h with
  | refl => rfl
  | tail _ last ih => rw [last.requests, ih]

theorem Effects.told {s t : Scene} (h : Effects ids s t) : t.context.told = s.context.told := by
  induction h with
  | refl => rfl
  | tail _ last ih => rw [last.told, ih]

theorem Effects.caller {s t : Scene} (h : Effects ids s t) : t.actor.caller = s.actor.caller := by
  induction h with
  | refl => rfl
  | tail _ last ih => rw [last.caller, ih]

theorem Effects.target {s t : Scene} (h : Effects ids s t) : t.actor.target = s.actor.target := by
  induction h with
  | refl => rfl
  | tail _ last ih => rw [last.target, ih]

theorem Effects.queue_length_le {s t : Scene} (h : Effects ids s t) (listener : Nat) :
    (t.context.queue listener).length ≤ (s.context.queue listener).length := by
  induction h with
  | refl => exact Nat.le_refl _
  | tail _ last ih => exact Nat.le_trans (last.queue_length_le listener) ih

/-- What Once nodes have completed is never forgotten in a tick. -/
theorem Effects.completed_mono {s t : Scene} (h : Effects ids s t) : s.actor.completed ⊆ t.actor.completed := by
  induction h with
  | refl => exact List.Subset.refl _
  | tail _ last ih => exact List.Subset.trans ih last.completed_mono

theorem Effects.completed_subset {s t : Scene} (h : Effects ids s t) :
    t.actor.completed ⊆ s.actor.completed ++ ids := by
  induction h with
  | refl => exact List.subset_append_left _ _
  | tail _ last ih =>
    intro id member
    rcases List.mem_append.mp (last.completed_subset member) with member | member
    · exact ih member
    · exact List.mem_append_right _ member

end Descent
end BehaviorTree
