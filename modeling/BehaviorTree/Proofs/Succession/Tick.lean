import BehaviorTree.Proofs.Descent.Effect
import BehaviorTree.Proofs.Succession.Context

/-!
Ticks make no difference between an actor and its successor. A node looks at the variables, at the
clock, at what was reported last and at the events that wait; the caller and the address only pass
through its hands to the bus.
-/

namespace BehaviorTree.Succession

open Descent
open Visit (Iteration)

variable (heir : Succession)

/-- An actor once it, or another, has been succeeded. -/
def actor (actor : Actor) : Actor :=
  { actor with caller := heir.owner actor.caller, target := heir.target actor.target }

/-- A scene once the actor has been succeeded. -/
def scene (s : Scene) : Scene := ⟨heir.context s.context, heir.actor s.actor⟩

@[simp] theorem scene_context (s : Scene) : (heir.scene s).context = heir.context s.context := rfl

@[simp] theorem scene_actor (s : Scene) : (heir.scene s).actor = heir.actor s.actor := rfl

@[simp] theorem actor_debug (a : Actor) : (heir.actor a).debug = a.debug := rfl

/-- A computation that comes to the same for the successor. -/
def Blind {α : Type} (x : TickM α) : Prop :=
  ∀ s, x.play (heir.scene s) = ((x.play s).1, heir.scene (x.play s).2)

variable {heir} {α β : Type}

/-! ### Computations -/

theorem blind_pure (a : α) : heir.Blind (pure a) := fun _ => rfl

theorem blind_throw (fault : Fault) : heir.Blind (throw fault : TickM α) := fun _ => rfl

theorem blind_fail (visit : Visit) (error : RunError) : heir.Blind (visit.fail error : TickM α) :=
  blind_throw _

theorem blind_bind {x : TickM α} {f : α → TickM β} (hx : heir.Blind x) (hf : ∀ a, heir.Blind (f a)) :
    heir.Blind (x >>= f) := by
  intro s
  rw [TickM.play_bind, TickM.play_bind, hx s]
  rcases x.play s with ⟨fault | a, t⟩
  · rfl
  · exact hf a t

theorem blind_map {g : α → β} {x : TickM α} (hx : heir.Blind x) : heir.Blind (g <$> x) := by
  rw [← bind_pure_comp]
  exact blind_bind hx fun _ => blind_pure _

theorem blind_ite {p : Prop} [Decidable p] {x y : TickM α} (hx : heir.Blind x) (hy : heir.Blind y) :
    heir.Blind (if p then x else y) := by
  split
  · exact hx
  · exact hy

theorem blind_rethrow {x : TickM α} (handle : Fault → Fault) (hx : heir.Blind x) :
    heir.Blind (tryCatch x fun fault => throw (handle fault)) := by
  intro s
  rw [TickM.play_tryCatch, TickM.play_tryCatch, hx s]
  rcases x.play s with ⟨fault | a, t⟩ <;> rfl

/-- The context may be read for what it is to the successor as well. -/
theorem blind_context {f : Context → TickM α} (same : ∀ ctx, f (heir.context ctx) = f ctx)
    (h : ∀ ctx, heir.Blind (f ctx)) : heir.Blind (TickM.context >>= f) := by
  intro s
  rw [TickM.play_bind_ok (TickM.play_context s), TickM.play_bind_ok (TickM.play_context (heir.scene s)),
    scene_context, same]
  exact h s.context s

theorem blind_actor {f : Actor → TickM α} (same : ∀ actor, f (heir.actor actor) = f actor)
    (h : ∀ actor, heir.Blind (f actor)) : heir.Blind (TickM.actor >>= f) := by
  intro s
  rw [TickM.play_bind_ok (TickM.play_actor s), TickM.play_bind_ok (TickM.play_actor (heir.scene s)),
    scene_actor, same]
  exact h s.actor s

theorem blind_now : heir.Blind TickM.now := fun _ => rfl

theorem blind_note (n : Note) : heir.Blind (TickM.note n) := fun _ => rfl

theorem blind_noteDebug (n : Note) : heir.Blind (TickM.noteDebug n) := by
  intro s
  rw [TickM.play_noteDebug, TickM.play_noteDebug, Scene.noteDebug, Scene.noteDebug,
    scene_actor, actor_debug]
  split <;> rfl

theorem blind_updateActor {f : Actor → Actor} (h : ∀ actor, f (heir.actor actor) = heir.actor (f actor)) :
    heir.Blind (TickM.updateActor f) :=
  fun s => Prod.ext rfl (congrArg (Scene.mk (heir.context s.context)) (h s.actor))

theorem blind_updateContext {f : Context → Context}
    (h : ∀ ctx, f (heir.context ctx) = heir.context (f ctx)) : heir.Blind (TickM.updateContext f) :=
  fun s => Prod.ext rfl (congrArg (Scene.mk · (heir.actor s.actor)) (h s.context))

theorem blind_input (visit : Visit) (i : Nat) : heir.Blind (visit.input? i) :=
  blind_actor (fun _ => rfl) fun _ => blind_pure _

theorem blind_output (visit : Visit) (i : Nat) : heir.Blind (visit.output? i) :=
  blind_actor (fun _ => rfl) fun _ => blind_pure _

theorem setOutput_actor (actor : Actor) (node : Node) (i : Nat) (v : Value) :
    (heir.actor actor).setOutput node i v = heir.actor (actor.setOutput node i v) := by
  rw [Actor.setOutput, Actor.setOutput]
  split <;> rfl

theorem blind_setOutput (visit : Visit) (i : Nat) (v : Value) : heir.Blind (visit.setOutput i v) :=
  blind_updateActor fun actor => setOutput_actor actor visit.node i v

theorem blind_evaluate (visit : Visit) (arg : String) : heir.Blind (visit.evaluate arg) := by
  intro s
  rw [visit.play_evaluate, visit.play_evaluate]
  rcases visit.node.text? arg with _ | code <;> rfl

/-! ### Nodes -/

theorem blind_takeEvent (listener : Nat) : heir.Blind (Visit.takeEvent listener) := by
  refine blind_context (fun ctx => ?_) fun ctx => ?_
  · simp only [queue_context]
  · split
    · exact blind_pure _
    · exact blind_bind (blind_updateContext fun ctx => heir.updateMailbox_context ctx listener _)
        fun _ => blind_pure _

theorem blind_unsubscribe (listener : Nat) : heir.Blind (Visit.unsubscribe listener) :=
  blind_updateContext fun ctx => heir.unsubscribe_context ctx listener

theorem blind_release (listeners : List Nat) : heir.Blind (release listeners) :=
  blind_updateContext fun ctx => heir.unsubscribes_context ctx listeners

theorem blind_writeArguments (visit : Visit) (args : List Value) :
    heir.Blind (visit.writeArguments args) := by
  refine blind_updateActor fun actor => ?_
  generalize args.zipIdx = pairs
  induction pairs generalizing actor with
  | nil => rfl
  | cons pair rest ih =>
    simp only [List.foldl_cons, setOutput_actor]
    exact ih (actor.setOutput visit.node pair.2 pair.1)

theorem blind_nextEvent (visit : Visit) (listener : Nat) : heir.Blind (nextEvent visit listener) := by
  refine blind_bind (blind_takeEvent listener) fun event => ?_
  rcases event with _ | args
  · exact blind_pure _
  · exact blind_bind (blind_writeArguments visit args) fun _ => blind_pure _

/-- A node listens for its actor, whatever the caller, at the address that comes out for it. -/
theorem blind_startListening (visit : Visit) (target : Target) (s : Scene) :
    (startListening visit (heir.target target)).play (heir.scene s) =
      (((startListening visit target).play s).1, heir.scene ((startListening visit target).play s).2) := by
  have subscribed := heir.subscribe_context s.context ((visit.node.text? "event").getD "") target
    s.actor.caller
  have opened (target : Target) (s : Scene) : (startListening visit target).play s =
      (nextEvent visit (s.context.subscribe ((visit.node.text? "event").getD "") target
        s.actor.caller).1).play (s.updateContext fun ctx => (ctx.subscribe
          ((visit.node.text? "event").getD "") target s.actor.caller).2) := rfl
  have entered : (heir.scene s).updateContext (fun ctx => (ctx.subscribe
      ((visit.node.text? "event").getD "") (heir.target target) (heir.scene s).actor.caller).2) =
        heir.scene (s.updateContext fun ctx => (ctx.subscribe
          ((visit.node.text? "event").getD "") target s.actor.caller).2) :=
    congrArg (Scene.mk · (heir.actor s.actor)) (congrArg Prod.snd subscribed)
  rw [opened, opened, entered, show ((heir.scene s).context.subscribe _ (heir.target target)
    (heir.scene s).actor.caller).1 = _ from congrArg Prod.fst subscribed]
  exact blind_nextEvent visit _ _

theorem blind_listening (visit : Visit) :
    heir.Blind (do startListening visit (← whom visit)) := by
  unfold whom
  split
  · simp only [bind_assoc]
    refine blind_bind (blind_input visit 0) fun v s => ?_
    split
    · exact blind_startListening visit (.named _) s
    · exact blind_startListening visit .everyone s
  · exact fun s => blind_startListening visit s.actor.target s

theorem blind_firstRound (visit : Visit) : heir.Blind (firstRound visit) := by
  unfold firstRound
  split <;> exact blind_bind (blind_input visit 0) fun _ => blind_pure _

theorem blind_writeRound (visit : Visit) (it : Iteration) : heir.Blind (writeRound visit it) := by
  unfold writeRound
  split
  · exact blind_setOutput visit 0 _
  · split
    · exact blind_bind (blind_setOutput visit 0 _) fun _ => blind_setOutput visit 1 _
    · exact blind_pure _

theorem blind_startRound (visit : Visit) (it : Iteration) : heir.Blind (startRound visit it) :=
  blind_ite (blind_pure _) (blind_bind (blind_writeRound visit it) fun _ => blind_pure _)

theorem blind_waitUntil (time : Float) : heir.Blind (waitUntil time) :=
  blind_bind blind_now fun _ => blind_pure _

theorem blind_delayUntil (time : Float) : heir.Blind (delayUntil time) :=
  blind_bind blind_now fun _ => blind_pure _

theorem removeAll_actor (names : List String) (actor : Actor) :
    names.foldl Actor.remove (heir.actor actor) = heir.actor (names.foldl Actor.remove actor) := by
  induction names generalizing actor with
  | nil => rfl
  | cons name rest ih => exact ih (actor.remove name)

/-- No node can tell a succession when it starts. -/
theorem blind_start (visit : Visit) {kind : Kind} (builtin : ∀ e, kind ≠ .extension e) :
    heir.Blind (start visit kind) := by
  cases kind with
  | loop => exact blind_bind (blind_firstRound visit) fun it => blind_startRound visit it
  | foreach => exact blind_bind (blind_firstRound visit) fun it => blind_startRound visit it
  | once => exact blind_actor (fun _ => rfl) fun _ => blind_ite (blind_pure _) (blind_pure _)
  | timeout => exact blind_bind blind_now fun _ => blind_pure _
  | delay => exact blind_bind blind_now fun _ => blind_delayUntil _
  | listen => exact blind_listening visit
  | listenTree => exact blind_listening visit
  | wait =>
    exact blind_bind (blind_input visit 0) fun _ => blind_bind blind_now fun _ => blind_waitUntil _
  | check => exact blind_map (blind_bind (blind_evaluate visit _) fun _ => blind_pure _)
  | isNull => exact blind_map (blind_bind (blind_input visit 0) fun _ => blind_pure _)
  | notNull => exact blind_map (blind_bind (blind_input visit 0) fun _ => blind_pure _)
  | isStatus => exact blind_map (blind_actor (fun _ => rfl) fun _ => blind_pure _)
  | calculate =>
    exact blind_map (blind_bind (blind_evaluate visit _) fun _ =>
      blind_bind (blind_setOutput visit 0 _) fun _ => blind_pure _)
  | constant => exact blind_map (blind_bind (blind_setOutput visit 0 _) fun _ => blind_pure _)
  | push =>
    refine blind_map (blind_bind (blind_input visit 0) fun _ =>
      blind_bind (blind_output visit 0) fun v => ?_)
    split
    · exact blind_bind (blind_setOutput visit 0 _) fun _ => blind_pure _
    · exact blind_pure _
  | clear =>
    refine blind_map (blind_bind (blind_updateActor fun actor => removeAll_actor _ actor) fun _ => ?_)
    split
    · exact blind_bind (blind_updateActor fun _ => rfl) fun _ => blind_pure _
    · exact blind_pure _
  | log =>
    exact blind_map (blind_actor (fun _ => rfl) fun _ =>
      blind_bind (blind_note _) fun _ => blind_pure _)
  | now =>
    exact blind_map (blind_bind blind_now fun _ =>
      blind_bind (blind_setOutput visit 0 _) fun _ => blind_pure _)
  | extension e => exact absurd rfl (builtin e)
  | _ => exact blind_pure _

/-- No node can tell a succession when it goes on. -/
theorem blind_goOn (visit : Visit) (kind : Kind) (memory : Memory) :
    heir.Blind (goOn visit kind memory) := by
  cases memory with
  | nothing => exact blind_pure _
  | round it => exact blind_startRound visit it
  | attempts count => exact blind_pure _
  | mailbox listener => exact blind_nextEvent visit listener
  | «until» time => exact blind_ite (blind_waitUntil time) (blind_delayUntil time)

theorem blind_heedEvent (visit : Visit) (memory : Memory) (verdict : Verdict) :
    heir.Blind (heedEvent visit memory verdict) := by
  cases memory with
  | mailbox listener =>
    exact blind_ite (blind_bind (blind_unsubscribe listener) fun _ => blind_pure _)
      (blind_nextEvent visit listener)
  | _ => exact blind_pure _

/-- No node can tell a succession by a verdict. -/
theorem blind_heed (visit : Visit) (kind : Kind) (memory : Memory) (child : Nat) (verdict : Verdict) :
    heir.Blind (heed visit kind memory child verdict) := by
  cases kind with
  | once => exact blind_bind (blind_updateActor fun _ => rfl) fun _ => blind_pure _
  | assert =>
    cases verdict with
    | success => exact blind_pure _
    | failure => exact blind_fail visit _
  | listen => exact blind_heedEvent visit memory verdict
  | listenTree => exact blind_heedEvent visit memory verdict
  | _ => exact blind_pure _

/-! ### The descent -/

section

variable (visit : Visit) {children : List Descent.Ticker}
  (below : ∀ tick ∈ children, ∀ state path, heir.Blind (tick state path))

include below

/-- Nor can it in its turns. -/
theorem blind_drive (turns : Nat) (move : Move) : heir.Blind (drive visit children turns move) := by
  induction turns generalizing move with
  | zero => cases move <;> exact blind_pure _
  | succ turns ih =>
    cases move with
    | finish verdict => exact blind_pure _
    | rest memory => exact blind_pure _
    | enter i memory =>
      rw [drive]
      rcases here : children[i]? with _ | tick
      · exact blind_fail visit _
      · refine blind_bind (below tick (List.mem_of_getElem? here) _ _) fun report => ?_
        cases report with
        | running state => exact blind_pure _
        | done verdict => exact blind_bind (blind_heed visit _ _ _ _) fun move => ih move

theorem blind_carryOut (move : Move) : heir.Blind (carryOut visit children move) := by
  refine blind_context (fun ctx => ?_) fun _ => blind_drive visit below _ move
  have counted : turns visit (heir.context ctx) move = turns visit ctx move := by
    simp only [turns, queue_context]
  rw [counted]

theorem blind_tickShares (shares : List (Option Share)) :
    heir.Blind (tickShares visit children shares) := by
  have beside : ∀ tick ∈ children, ∀ state, heir.Blind (tickBeside visit tick state) :=
    fun tick member state => blind_bind (blind_rethrow _ (below tick member state [])) fun _ => blind_pure _
  clear below
  induction children generalizing shares with
  | nil => exact blind_pure _
  | cons tick ticks ih =>
    have later := fun shares => ih shares fun tick member => beside tick (List.mem_cons_of_mem _ member)
    have beside := beside tick List.mem_cons_self
    cases shares with
    | nil => exact blind_pure _
    | cons share shares =>
      rw [tickShares]
      refine blind_bind ?_ fun share => blind_bind (later shares) fun _ => blind_pure _
      rcases share with _ | (verdict | state)
      · exact beside none
      · exact blind_pure _
      · exact beside (some state)

theorem blind_tickAllBeside (shares : List (Option Share)) :
    heir.Blind (tickAllBeside visit children shares) :=
  blind_bind (blind_tickShares visit below shares) fun _ => blind_pure _

omit below in
theorem blind_act {x : TickM Report} (hx : heir.Blind x) : heir.Blind (act visit x) :=
  blind_bind (blind_noteDebug _) fun _ => blind_bind hx fun _ => blind_bind (blind_noteDebug _) fun _ =>
    blind_bind (blind_updateActor fun _ => rfl) fun _ => blind_pure _

omit below in
theorem blind_expire (state : Active) : heir.Blind (expire visit state) :=
  blind_bind blind_now fun _ => blind_bind (blind_noteDebug _) fun _ => blind_bind (blind_release _) fun _ =>
    blind_act visit (blind_bind (blind_note _) fun _ => blind_pure _)

/-- No visit can tell a succession. -/
theorem blind_visitNode (builtin : ∀ e, visit.node.kind ≠ .extension e) (state : Option Active) :
    heir.Blind (visitNode visit children state) := by
  rcases state with _ | (memory | ⟨memory, i, state⟩ | shares)
  · refine blind_ite (blind_act visit (blind_tickAllBeside visit below _)) ?_
    exact blind_act visit (blind_bind (blind_start visit builtin) fun move => blind_carryOut visit below move)
  · exact blind_act visit (blind_bind (blind_goOn visit _ _) fun move => blind_carryOut visit below move)
  · refine blind_bind blind_now fun now => blind_ite (blind_expire visit state) ?_
    rcases here : children[i]? with _ | tick
    · exact blind_fail visit _
    · refine blind_bind (below tick (List.mem_of_getElem? here) _ _) fun report => ?_
      cases report with
      | running state => exact blind_bind (blind_updateActor fun _ => rfl) fun _ => blind_pure _
      | done verdict =>
        exact blind_act visit (blind_bind (blind_heed visit _ _ _ _)
          fun move => blind_carryOut visit below move)
  · exact blind_act visit (blind_tickAllBeside visit below _)

end

/-- Ticking a tree of built-in nodes comes to the same for the successor of an actor. -/
theorem blind_tick (node : Node) (builtin : node.Every IsBuiltin) (state : Option Active) (path : Path) :
    heir.Blind (tick node state path) := by
  induction node using Node.induct generalizing state path with
  | step node ih =>
    rw [tick_eq]
    refine blind_visitNode (visitAt node _) ?_ builtin.self state
    intro _ ticked state path
    obtain ⟨child, member, rfl⟩ := List.mem_map.mp ticked
    exact ih child member (builtin.child member) state path

end BehaviorTree.Succession
