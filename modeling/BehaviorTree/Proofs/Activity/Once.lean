import BehaviorTree.Proofs.Activity.Sweep
import BehaviorTree.Proofs.Stack.Beside

/-!
Once nodes. Such a node ticks its child until that has completed for the actor. From then on the node fails, and
nothing below it is ticked. It goes by whether its id is among those that the actor has completed, and no other node
puts it there, so the ticks of the node itself decide, and among them only those in which the child completed. An
activation that is abandoned before does not count.
-/

namespace BehaviorTree

open Descent TickM

namespace Descent

/-! ### Ticks -/

/-- What a Once node reports when its child reports this. -/
def Report.passedOn : Report → Report
  | .done verdict => .done verdict
  | .running saved => .running (.over .nothing 0 saved)

/-- A child completes in this tick of its node. -/
def Call.Receives (tick : Call) : Prop := ∃ call ∈ tick.made, ∃ verdict, call.result = .ok (.done verdict)

/-- The node ticks its only child, afresh if it is entered itself and on if it goes on, and reports what that does. -/
def Call.Tries (tick : Call) : Prop :=
  ∃ call, tick.made = [call] ∧ tick.node.children = [call.node] ∧
    tick.state = call.state.map (Active.over .nothing 0) ∧ tick.result = call.result.map Report.passedOn

/-- The node fails, with nothing ticked below it. -/
structure Call.Refuses (tick : Call) : Prop where
  fresh : tick.state = none
  within : tick.within = []
  fails : tick.result = .ok (.done .failure)
  /-- Nothing happens but for the execution of the node itself. -/
  left : tick.left = recorded tick.visit (.done .failure) (begun tick.visit tick.scene)

theorem Call.Refuses.not_receives {tick : Call} (refuses : tick.Refuses) : ¬ tick.Receives := by
  rintro ⟨call, member, -⟩
  have inside : call ∈ spread tick.made := List.mem_flatMap.mpr ⟨call, member, List.mem_cons_self⟩
  rw [← tick.within_eq, refuses.within] at inside
  cases inside

/-- What comes of a tick in which a Once node ticks its child. -/
inductive Passed (id : Nat) (call : Call) : Upshot Report → Prop
  | cut {fault : Fault} {t : Scene} (came : call.upshot = (.error fault, t)) : Passed id call (.error fault, t)
  | runs {saved : Active} {t u : Scene} (came : call.upshot = (.ok (.running saved), t))
      (same : u.actor.completed = t.actor.completed) : Passed id call (.ok (.running (.over .nothing 0 saved)), u)
  | done {verdict : Verdict} {t u : Scene} (came : call.upshot = (.ok (.done verdict), t))
      (more : u.actor.completed = id :: t.actor.completed) : Passed id call (.ok (.done verdict), u)

section

variable {id : Nat} {call : Call} {upshot : Upshot Report}

theorem Passed.result (passed : Passed id call upshot) : upshot.1 = call.result.map Report.passedOn := by
  cases passed with
  | cut came | runs came | done came =>
    rw [upshot_fst came]
    rfl

/-- The node is among those that have completed just if its child has. -/
theorem Passed.completed_iff (passed : Passed id call upshot) (waiting : id ∉ call.left.actor.completed) :
    id ∈ upshot.2.actor.completed ↔ ∃ verdict, call.result = .ok (.done verdict) := by
  cases passed with
  | cut came =>
    rw [upshot_fst came, ← upshot_snd came]
    exact ⟨fun member => absurd member waiting, nofun⟩
  | runs came same =>
    rw [upshot_fst came, same, ← upshot_snd came]
    exact ⟨fun member => absurd member waiting, nofun⟩
  | done came more =>
    rw [upshot_fst came, more]
    exact ⟨fun _ => ⟨_, rfl⟩, fun _ => List.mem_cons_self⟩

theorem Passed.concluded (passed : Passed id call upshot) (visit : Visit) :
    Passed id call (concluded visit upshot) := by
  cases passed with
  | cut came => exact .cut came
  | runs came same => exact .runs came ((recorded_completed _ _ _).trans same)
  | done came more => exact .done came ((recorded_completed _ _ _).trans more)

end

theorem completed_begun (visit : Visit) (s : Scene) : (begun visit s).actor.completed = s.actor.completed := by
  rw [begun, noteDebug_actor]

section

variable {tick : Call} {child : Node} (kind : tick.node.kind = .once)

include kind

theorem play_heed_once (memory : Memory) (i : Nat) (verdict : Verdict) (s : Scene) :
    (heed tick.visit tick.visit.node.kind memory i verdict).play s =
      (.ok (Conclusion.finish verdict).move,
        s.updateActor fun actor => { actor with completed := tick.node.id :: actor.completed }) := by
  rw [Call.visit_node, kind]
  rfl

theorem play_start_once (s : Scene) : (start tick.visit tick.node.kind).play s =
    if tick.node.id ∈ s.actor.completed then (.ok (Conclusion.finish .failure).move, s)
      else (.ok (.enter 0 .nothing), s) := by
  have looks : (start tick.visit .once).play s = _ := play_bind_ok (play_actor s) _
  rw [kind, looks, Call.visit_node]
  split <;> rfl

/-- The child that is entered completes, or not, and nothing follows. -/
theorem Course.passed {turns : Nat} {before s : Scene} {made : List Call} {upshot : Upshot Report}
    (course : Course tick.visit turns (.enter 0 .nothing) before s made upshot) (enough : turns ≠ 0)
    (here : tick.node.children[0]? = some child) :
    ∃ call, made = [call] ∧ call.node = child ∧ call.state = none ∧ call.scene = s ∧ Passed tick.node.id call upshot := by
  have same {other : Node} (there : tick.node.children[0]? = some other) : other = child :=
    Option.some.inj (there.symm.trans here)
  cases course with
  | spent => exact absurd rfl enough
  | missing fault none => cases none.symm.trans here
  | faulty there came => exact ⟨_, rfl, same there, rfl, rfl, .cut came⟩
  | runs there came => exact ⟨_, rfl, same there, rfl, rfl, .runs came rfl⟩
  | raised there came heeded => cases (play_heed_once kind _ _ _ _).symm.trans heeded
  | onward there came heeded course =>
    cases (play_heed_once kind _ _ _ _).symm.trans heeded
    obtain ⟨rfl, rfl⟩ := course.of_move
    exact ⟨_, rfl, same there, rfl, rfl, .done came rfl⟩

/-- The node goes on only with its child, and only while it is not among those that have completed. -/
theorem Call.waits (sound : tick.GoesOnSoundly) {state : Active} (saved : tick.state = some state) :
    tick.node.id ∉ tick.scene.actor.completed ∧ ∃ inner, state = .over .nothing 0 inner := by
  have sound := sound state saved
  rcases state with memory | ⟨memory, i, inner⟩ | shares
  · rw [Sound, kind] at sound
    cases memory <;> exact sound.elim
  · obtain ⟨waits, once, -⟩ := sound
    rw [kind] at waits
    cases memory with
    | nothing =>
      obtain rfl : i = 0 := waits
      exact ⟨once kind, inner, rfl⟩
    | _ => exact waits.elim
  · cases kind.symm.trans sound.1

/-- Entered before its child has completed, a Once node enters the child and passes its report on. -/
theorem Call.passed_entered (here : tick.node.children[0]? = some child) (fresh : tick.state = none)
    (waiting : tick.node.id ∉ tick.scene.actor.completed) :
    ∃ call, tick.made = [call] ∧ call.node = child ∧ call.state = none ∧
      call.scene.actor.completed = tick.scene.actor.completed ∧ Passed tick.node.id call tick.upshot := by
  have begins : (begun tick.visit tick.scene).actor.completed = tick.scene.actor.completed := completed_begun _ _
  have starts := play_start_once kind (begun tick.visit tick.scene)
  rw [begins, if_neg waiting] at starts
  have ticked := tick.ticked
  generalize tick.upshot = upshot at ticked ⊢
  generalize tick.made = made at ticked ⊢
  rw [fresh] at ticked
  cases ticked with
  | entered alone ruled =>
    cases ruled with
    | raised decided => cases starts.symm.trans decided
    | carried decided course =>
      cases starts.symm.trans decided
      have some : 0 < tick.visit.node.children.length := (List.getElem?_eq_some_iff.mp here).1
      have enough := length_le_turns tick.visit (begun tick.visit tick.scene).context (.enter 0 .nothing)
      obtain ⟨call, rfl, own, afresh, same, passed⟩ := course.passed kind (Nat.ne_of_gt (some.trans_le enough)) here
      exact ⟨call, rfl, own, afresh, same ▸ begins, passed.concluded _⟩
  | enteredBeside parallel => cases kind.symm.trans parallel

/-- While its child is running, a Once node lets it go on and passes its report on. -/
theorem Call.passed_goesOn (here : tick.node.children[0]? = some child) {inner : Active}
    (saved : tick.state = some (.over .nothing 0 inner)) :
    ∃ call, tick.made = [call] ∧ call.node = child ∧ call.state = some inner ∧
      call.scene.actor.completed = tick.scene.actor.completed ∧ Passed tick.node.id call tick.upshot := by
  have same {other : Node} (there : tick.node.children[0]? = some other) : other = child :=
    Option.some.inj (there.symm.trans here)
  have ticked := tick.ticked
  generalize tick.upshot = upshot at ticked ⊢
  generalize tick.made = made at ticked ⊢
  rw [saved] at ticked
  cases ticked with
  | expired late =>
    -- A Once node arms no deadline.
    rw [Lapsed, Call.visit_node, kind] at late
    cases late
  | missing fault early none => cases none.symm.trans here
  | faulty early there came => exact ⟨_, rfl, same there, rfl, rfl, .cut came⟩
  | runs early there came => exact ⟨_, rfl, same there, rfl, rfl, .runs came rfl⟩
  | back early there came ruled =>
    obtain ⟨rfl, rfl⟩ := ruled.of_move (play_heed_once kind _ _ _ _)
    refine ⟨_, rfl, same there, rfl, rfl, Passed.concluded (.done came ?_) _⟩
    exact congrArg (tick.node.id :: ·) (completed_begun _ _)

/-- As long as the node is not among those that have completed, it ticks its child. -/
theorem Call.passed (only : tick.node.children = [child]) (sound : tick.GoesOnSoundly)
    (waiting : tick.node.id ∉ tick.scene.actor.completed) :
    ∃ call, tick.made = [call] ∧ call.node = child ∧ tick.state = call.state.map (Active.over .nothing 0) ∧
      call.scene.actor.completed = tick.scene.actor.completed ∧ Passed tick.node.id call tick.upshot := by
  have here : tick.node.children[0]? = some child := by
    rw [only]
    rfl
  rcases saved : tick.state with _ | state
  · obtain ⟨call, made, own, fresh, passed⟩ := Call.passed_entered kind here saved waiting
    exact ⟨call, made, own, by rw [fresh]; rfl, passed⟩
  · obtain ⟨-, inner, rfl⟩ := Call.waits kind sound saved
    obtain ⟨call, made, own, onward, passed⟩ := Call.passed_goesOn kind here saved
    exact ⟨call, made, own, by rw [onward]; rfl, passed⟩

/-- Once its child has completed, a Once node is refused without a tick below. -/
theorem Call.refuses (sound : tick.GoesOnSoundly) (completed : tick.node.id ∈ tick.scene.actor.completed) :
    tick.Refuses := by
  have fresh : tick.state = none := by
    refine Option.eq_none_iff_forall_ne_some.mpr fun state saved => ?_
    exact (Call.waits kind sound saved).1 completed
  have starts := play_start_once kind (begun tick.visit tick.scene)
  rw [completed_begun, if_pos completed] at starts
  have alone : tick.node.kind ≠ .parallel := fun parallel => by cases kind.symm.trans parallel
  obtain ⟨none, came⟩ := Call.concludes_entered (.finish .failure) alone fresh starts
  exact ⟨fresh, by rw [tick.within_eq, none]; rfl, congrArg Prod.fst came, congrArg Prod.snd came⟩

/-- The node is among those that have completed after a tick just if it was before or its child has completed. -/
theorem Call.completed_left_iff (only : tick.node.children = [child]) (proper : tick.Proper) :
    tick.node.id ∈ tick.left.actor.completed ↔ tick.node.id ∈ tick.scene.actor.completed ∨ tick.Receives := by
  by_cases completed : tick.node.id ∈ tick.scene.actor.completed
  · have effects := changes_tick tick.node proper.builtin tick.state tick.path tick.scene
    exact ⟨fun _ => .inl completed, fun _ => effects.completed_mono completed⟩
  rw [or_iff_right completed]
  obtain ⟨call, made, -, -, same, passed⟩ := Call.passed kind only proper.sound completed
  have member : call ∈ tick.made := made ▸ List.mem_singleton_self call
  have apart : tick.node.id ∉ call.node.ids := fun inside =>
    Node.id_notMem_children proper.nodup (List.mem_flatMap.mpr ⟨call.node, mem_made member, inside⟩)
  have waiting : tick.node.id ∉ call.left.actor.completed := by
    have elsewhere :=
      elsewhere_of_changes (changes_tick call.node (proper.made member).builtin call.state call.path) apart
      (Call.upshot_eq call).symm
    rw [elsewhere.completed, same]
    exact completed
  refine (passed.completed_iff waiting).trans ⟨fun received => ⟨call, member, received⟩, ?_⟩
  rintro ⟨other, own, received⟩
  rw [made, List.mem_singleton] at own
  exact own ▸ received

theorem Call.tries (only : tick.node.children = [child]) (sound : tick.GoesOnSoundly)
    (waiting : tick.node.id ∉ tick.scene.actor.completed) : tick.Tries := by
  obtain ⟨call, made, rfl, state, -, passed⟩ := Call.passed kind only sound waiting
  exact ⟨call, made, only, state, passed.result⟩

end

/-! ### Histories -/

/-- The ticks of a Once node so far, given the nodes that have completed for the actor. -/
structure Memorized (node : Node) (ticks : List Call) (completed : List Nat) : Prop where
  known : node.id ∈ completed ↔ ∃ tick ∈ ticks, tick.Receives
  /-- As long as its child has not completed, the node ticks it again. -/
  tries : ∀ earlier tick later, ticks = earlier ++ tick :: later → (∀ before ∈ earlier, ¬ before.Receives) → tick.Tries
  /-- From then on it fails, with nothing ticked below it. -/
  refuses : ticks.Pairwise fun tick next => tick.Receives → next.Refuses

/-- Of all the ticks of a Once node its child completes in one at most. -/
structure CompletesOnce (node : Node) (ticks : List Call) (completed : List Nat) : Prop
    extends Memorized node ticks completed where
  once : ticks.Pairwise fun tick next => ¬ (tick.Receives ∧ next.Receives)
  returned : ∀ tick ∈ ticks, ∀ call ∈ tick.made, ∀ verdict, call.result = .ok (.done verdict) →
    tick.result = .ok (.done verdict)

variable {node child : Node} {ticks : List Call} {completed : List Nat}

theorem Memorized.nothing (none : node.id ∉ completed) : Memorized node [] completed where
  known := ⟨fun member => absurd member none, fun ⟨_, member, _⟩ => absurd member List.not_mem_nil⟩
  tries earlier tick later split := by
    cases earlier <;> cases split
  refuses := .nil

theorem Memorized.congr (memorized : Memorized node ticks completed) {others : List Nat}
    (same : node.id ∈ others ↔ node.id ∈ completed) : Memorized node ticks others :=
  ⟨same.trans memorized.known, memorized.tries, memorized.refuses⟩

/-- A node whose completions are memorized completes once. -/
theorem Memorized.completesOnce (memorized : Memorized node ticks completed) : CompletesOnce node ticks completed where
  toMemorized := memorized
  once := memorized.refuses.imp fun later ⟨before, again⟩ => (later before).not_receives again
  returned tick member call own verdict received := by
    obtain ⟨earlier, later, split⟩ := List.append_of_mem member
    have first : ∀ before ∈ earlier, ¬ before.Receives := fun before inside already => by
      have refuses := memorized.refuses
      rw [split] at refuses
      have refused := (List.pairwise_append.mp refuses).2.2 before inside tick List.mem_cons_self already
      exact refused.not_receives ⟨call, own, verdict, received⟩
    obtain ⟨only, made, -, -, result⟩ := memorized.tries earlier tick later split first
    rw [made, List.mem_singleton] at own
    rw [result, ← own, received]
    rfl

/-- One more tick, before which no other one has changed whether the node has completed. -/
theorem Memorized.snoc (memorized : Memorized node ticks completed) (kind : node.kind = .once)
    (only : node.children = [child]) {tick : Call} (own : tick.node = node) (proper : tick.Proper)
    (same : node.id ∈ tick.scene.actor.completed ↔ node.id ∈ completed) :
    Memorized node (ticks ++ [tick]) tick.left.actor.completed := by
  subst own
  constructor
  case known =>
    rw [Call.completed_left_iff kind only proper, same, memorized.known]
    simp only [List.mem_append, List.mem_singleton, or_and_right, exists_or, exists_eq_left]
  case tries =>
    intro earlier other later split none
    rcases List.eq_nil_or_concat later with rfl | ⟨later, last, rfl⟩
    · obtain ⟨rfl, single⟩ := List.append_inj' split rfl
      cases single
      refine Call.tries kind only proper.sound fun already => ?_
      obtain ⟨before, member, received⟩ := memorized.known.mp (same.mp already)
      exact none before member received
    · rw [List.concat_eq_append, ← List.cons_append, ← List.append_assoc] at split
      exact memorized.tries earlier other later (List.append_inj' split rfl).1 none
  case refuses =>
    refine List.pairwise_append.mpr ⟨memorized.refuses, List.pairwise_singleton _ _, fun before member next there => ?_⟩
    intro received
    obtain rfl := List.mem_singleton.mp there
    exact Call.refuses kind proper.sound (same.mpr (memorized.known.mpr ⟨before, member, received⟩))

/-- While other nodes are ticked, it stays as it is whether the node has completed. -/
theorem Visits.memorized {s t : Scene} {calls : List Call} (visits : Visits node s calls t) (kind : node.kind = .once)
    (only : node.children = [child]) (own : ∀ tick ∈ calls, tick.node = node) (proper : ∀ tick ∈ calls, tick.Proper)
    (memorized : Memorized node ticks s.actor.completed) : Memorized node (ticks ++ calls) t.actor.completed := by
  induction visits generalizing ticks with
  | done elsewhere =>
    rw [List.append_nil]
    exact memorized.congr elsewhere.completed
  | tick elsewhere _ _ ih =>
    obtain ⟨first, others⟩ := List.forall_mem_cons.mp own
    obtain ⟨firstly, further⟩ := List.forall_mem_cons.mp proper
    rw [List.append_cons]
    exact ih others further (memorized.snoc kind only first firstly elsewhere.completed)

end Descent

/-! ### Runs -/

namespace Runner

variable {runner : Runner} {cache : ExprCache} {node child : Node} {log : List Call}

/-- A run memorizes what its ticks memorize, unless it is cancelled. -/
theorem completed_run (runner : Runner) (ctx : Context) :
    (runner.run ctx).2.1.actor.completed =
      if runner.isCancelled ctx then runner.actor.completed
      else (runner.tickNodes (ctx.dropRequest runner.actor.caller)).2.actor.completed := by
  rw [run_eq]
  split
  · rfl
  · rcases runner.tickNodes (ctx.dropRequest runner.actor.caller) with ⟨fault | (verdict | frames), t⟩ <;> rfl

/-- Nothing but a run or a clear changes which nodes are memorized. -/
theorem completed_perform (runner : Runner) (ctx : Context) {action : HostAction} (other : action.isRun = false)
    (kept : action ≠ .clear) : (runner.perform ctx action).2.1.actor.completed = runner.actor.completed := by
  cases action with
  | run => cases other
  | clear => exact absurd rfl kept
  | interrupt =>
    rw [perform, Runner.interrupt]
    split <;> rfl
  | context | vars | setDebug | follow => rfl

section

variable (ready : runner.Ready cache) (inside : node ∈ runner.tree.root.preorder) (kind : node.kind = .once)
  (only : node.children = [child]) (memorized : Memorized node (ticksOf node log) runner.actor.completed)

include ready inside kind only memorized

/-- Through a run the memory and the log of a Once node stay in step. -/
theorem Ready.memorized_run (ctx : Context) :
    Memorized node (ticksOf node (log ++ runner.calls ctx)) (runner.run ctx).2.1.actor.completed := by
  have own : ∀ tick ∈ ticksOf node (runner.calls ctx), tick.node = node := fun _ member => ready.own_calls inside member
  have proper : ∀ tick ∈ ticksOf node (runner.calls ctx), tick.Proper := fun tick member =>
    ready.proper_calls tick (mem_ticksOf.mp member).1
  rw [ticksOf_append, completed_run]
  rw [calls_eq] at own proper ⊢
  split
  · exact (List.append_nil _).symm ▸ memorized
  · rename_i going
    rw [if_neg going] at own proper
    have root : (runner.rootCall (ctx.dropRequest runner.actor.caller)).Proper := ready.proper_root
    rw [ready.tickNodes_eq]
    exact (Call.visits _ root.builtin root.nodup node).memorized kind only own proper memorized

/-- Through an action other than a clear the memory and the log stay in step. -/
theorem Ready.memorized_perform (ctx : Context) {action : HostAction} (kept : action ≠ .clear) :
    Memorized node (ticksOf node (log ++ runner.callsOf ctx action)) (runner.perform ctx action).2.1.actor.completed := by
  by_cases run : action.isRun = true
  · cases action <;> cases run
    exact ready.memorized_run inside kind only memorized ctx
  · have other := Bool.eq_false_iff.mpr run
    rw [callsOf_eq_nil other, List.append_nil, completed_perform runner ctx other kept]
    exact memorized

/-- Without a clear the memory and the log stay in step. -/
theorem Ready.memorized_performAll (ctx : Context) (actions : List HostAction) (kept : .clear ∉ actions) :
    Memorized node (ticksOf node (log ++ runner.journal ctx actions))
      (runner.performAll ctx actions).1.actor.completed := by
  let H (runner : Runner) (log : List Call) :=
    runner.Ready cache ∧ node ∈ runner.tree.root.preorder ∧ Memorized node (ticksOf node log) runner.actor.completed
  have holds : H runner log := ⟨ready, inside, memorized⟩
  refine (journal_induct (fun runner log ctx action member holds => ?_) holds ctx).2.2
  obtain ⟨ready, inside, memorized⟩ := holds
  have other : action ≠ .clear := fun same => kept (same ▸ member)
  exact ⟨ready.perform ctx action, by rwa [runner.tree_perform],
    ready.memorized_perform inside kind only memorized ctx other⟩

end

end Runner

namespace Session

variable {name other : String}

/-- A command for one runner leaves the other runners as they are. -/
theorem runners_performOn (session : Session) (ne : other ≠ name) (runner : Runner) (command : RunnerCommand) :
    (session.performOn other runner command).2.runners.at? name = session.runners.at? name := by
  have put (runner : Runner) (ctx : Context) :
      (session.setRunner other runner ctx).runners.at? name = session.runners.at? name := by
    rw [setRunner_runners, Index.at?_put, if_neg ne]
  cases command with
  | run | interrupt | clear | set | remove | clearVars | clearTemporaries | setDebug => exact put _ _
  | request | tree | get | on | off | offCaller | hasListeners | unknown => rfl
  | eval code =>
    simp only [performOn, evalFor]
    split
    · rfl
    · split <;> rfl
  | subscribe label event address reaction =>
    simp only [performOn, unsubscribe]
    split <;> rfl
  | follow stage reaction =>
    rw [performOn]
    split
    · exact put _ _
    · rfl

/-- What is asked of another runner leaves a runner as it is. -/
theorem runners_toRunner (session : Session) (ne : other ≠ name) (command : RunnerCommand) :
    (session.exchange (.toRunner other command)).2.runners.at? name = session.runners.at? name := by
  rw [exchange, perform]
  rcases session.runners.at? other with _ | runner
  · rfl
  · exact session.runners_performOn ne runner command

end Session

/-- The child of a Once node of a loaded tree completes in one tick at most, whatever the host does short of clearing
the runner, and other runners have no part in it. -/
theorem Runner.once_completes_once (source : Source) (cache : ExprCache) (name : String) (strict : Bool) (tree : Tree)
    (loaded : (source.load Registry.builtin cache name strict).1 = .ok tree) (caller : Nat) (target : Target)
    (debug : Bool) (before : Context) (actions : List HostAction) (kept : .clear ∉ actions) :
    let start := Runner.new tree (.newWith caller target debug)
    let runner := (start.performAll before actions).1
    let journal := start.journal before actions
    tree.root.ids.Nodup ∧
      (∀ node ∈ tree.root.preorder, node.kind = .once →
        runner.Activates journal node ∧ CompletesOnce node (ticksOf node journal) runner.actor.completed) ∧
      ∀ (session : Session) (label other : String) (command : Session.RunnerCommand), other ≠ label →
        session.runners.at? label = some runner →
          (session.exchange (.toRunner other command)).2.runners.at? label = some runner := by
  intro start runner journal
  have fresh : start.Ready _ := Source.ready_load loaded caller target debug
  refine ⟨fresh.tree.nodup, fun node inside kind => ?_, fun session label other command ne there => ?_⟩
  · refine ⟨Source.activates_load loaded caller target debug before actions inside, ?_⟩
    obtain ⟨child, only⟩ := (fresh.shaped node inside).only_child (by rw [kind]; rfl)
    have nothing : Memorized node (ticksOf node []) start.actor.completed := .nothing List.not_mem_nil
    have memorized := fresh.memorized_performAll inside kind only nothing before actions kept
    rw [List.nil_append] at memorized
    exact memorized.completesOnce
  · exact (session.runners_toRunner ne command).trans there

/-- What can be done only once, of the chores. -/
def chores.once : Node :=
  { id := 4, kind := .once, name := "Once", desc := "", args := [], input := [], output := [], children := [clearLeaf 5] }

/-- It is done in the first run, and after the interrupt it cannot be done again. -/
theorem Runner.once_completes_once_chores :
    (choresSource.load Registry.builtin [] "chores" true).1 = .ok chores ∧ HostAction.clear ∉ [.run, .interrupt, .run] ∧
      let start := Runner.new chores (.newWith 1 .everyone false)
      let runner := (start.performAll (.new Registry.builtin) [.run, .interrupt, .run]).1
      let journal := start.journal (.new Registry.builtin) [.run, .interrupt, .run]
      (ticksOf chores.once journal).map (fun tick => tick.made.length) = [1, 0] ∧ runner.actor.completed = [4] ∧
        CompletesOnce chores.once (ticksOf chores.once journal) runner.actor.completed := by
  have loaded := congrArg Prod.fst load_chores
  have kept : HostAction.clear ∉ [.run, .interrupt, .run] := by
    rintro (_ | ⟨_, _ | ⟨_, _ | ⟨_, ⟨⟩⟩⟩⟩)
  have inside : chores.once ∈ chores.root.preorder := by
    exact List.mem_cons_of_mem _ (List.mem_cons_of_mem _ (List.mem_cons_of_mem _ List.mem_cons_self))
  obtain ⟨-, each, -⟩ := Runner.once_completes_once choresSource [] "chores" true chores loaded 1 .everyone false
    (.new Registry.builtin) [.run, .interrupt, .run] kept
  exact ⟨loaded, kept, by decide +kernel, by decide +kernel, (each chores.once inside rfl).2⟩

end BehaviorTree
