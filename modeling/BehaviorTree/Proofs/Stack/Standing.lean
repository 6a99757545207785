import BehaviorTree.Proofs.Descent.Executions
import BehaviorTree.Proofs.Descent.Simulation
import Mathlib.Data.List.Forall2

/-!
The stacks that nodes leave behind which may limit the time of a child: the built-in ones, and the decorator
by which a host does so. The frames of such a stack go down the tree from child to child. Only nodes that limit
the time of a child arm a deadline, and always have that child above them; a Timeout keeps the time that it arms.
A Parallel node is on top, with a stack of this form for each child that runs. Ticking such nodes and resuming
such stacks leaves stacks of this form again, and the clock where it was.
-/

namespace BehaviorTree

open Descent (Changes resumed resumeAt onStack leaf? tickAll_map tick_execute)

namespace Scene

/-- A node has been entered, with so many nodes below it. -/
def entered (scene : Scene) (node : Node) (depth : Nat) : Scene :=
  scene.noteDebug (.entered node.name node.id depth)

/-- A node has been executed, and this is what it reported. -/
def reported (scene : Scene) (node : Node) (status : Status) : Scene :=
  (scene.noteDebug (.left node.name node.id status)).updateActor fun actor => { actor with last := status }

end Scene

/-! ### Computations that leave the clock alone -/

/-- What one scene leads to in a run: the time is the same, and the mailboxes are still wired if they were. -/
structure Scene.Precedes (s t : Scene) : Prop where
  clock : t.context.clock = s.context.clock
  wired : s.context.Wired → t.context.Wired

namespace Scene.Precedes

variable {s t u : Scene}

theorem refl (s : Scene) : s.Precedes s := ⟨rfl, id⟩

theorem trans (first : s.Precedes t) (second : t.Precedes u) : s.Precedes u :=
  ⟨second.clock.trans first.clock, second.wired ∘ first.wired⟩

theorem of_effects {ids : List Nat} (effects : Descent.Effects ids s t) : s.Precedes t :=
  ⟨effects.clock, effects.wired⟩

end Scene.Precedes

namespace TickM

variable {α β : Type} {ids : List Nat}

/-- Whatever value a computation gives has a property, and the clock is left alone. -/
def Leaves (x : TickM α) (P : α → Prop) : Prop :=
  ∀ s, Gives x s fun a t => P a ∧ s.Precedes t

section

variable {x y : TickM α} {P : α → Prop} {Q : β → Prop}

theorem leaves_pure {a : α} (h : P a) : Leaves (pure a) P := fun s => gives_pure ⟨h, .refl s⟩

theorem leaves_throw (fault : Fault) : Leaves (throw fault : TickM α) P := fun _ => gives_throw fault

theorem leaves_bind {f : α → TickM β} (first : Leaves x P) (next : ∀ a, P a → Leaves (f a) Q) :
    Leaves (x >>= f) Q := by
  refine fun s => gives_bind (first s) fun a t done => ?_
  exact (next a done.1 t).mono fun b u after => ⟨after.1, done.2.trans after.2⟩

/-- A computation that brings no more than single effects leaves the clock alone. -/
theorem leaves_of_changes (changes : Changes ids x) : Leaves x fun _ => True := by
  intro s a t played
  have effects := changes s
  rw [played] at effects
  exact ⟨trivial, .of_effects effects⟩

theorem Leaves.and_yields (leaves : Leaves x fun _ => True) (yields : Yields x P) : Leaves x P :=
  fun s a t played => ⟨yields s a t played, (leaves s a t played).2⟩

/-- What comes after such a computation need not know of its value. -/
theorem leaves_after {f : α → TickM β} (changes : Changes [] x) (next : ∀ a, Leaves (f a) Q) :
    Leaves (x >>= f) Q := leaves_bind (leaves_of_changes changes) fun a _ => next a

theorem leaves_ite {p : Prop} [Decidable p] (hx : Leaves x P) (hy : Leaves y P) :
    Leaves (if p then x else y) P := by
  split
  · exact hx
  · exact hy

theorem leaves_rethrow (handle : Fault → Fault) (h : Leaves x P) :
    Leaves (tryCatch x fun fault => throw (handle fault)) P := fun s => gives_rethrow handle (h s)

theorem Leaves.mono {R : α → Prop} (h : Leaves x P) (sub : ∀ a, P a → R a) : Leaves x R :=
  fun s a t played => ⟨sub a (h s a t played).1, (h s a t played).2⟩

end

end TickM

open TickM

/-! ### Stacks -/

/-- Built in, or the decorator by which a host limits the time of a child. -/
def Kind.Hosted (kind : Kind) : Prop := ∀ e, kind = .extension e → e = .guarded

/-- What is kept for an entered node of a kind: its progress, the deadline that it arms and what is above it. -/
def Kind.Keeps (kind : Kind) (progress : Progress) (deadline : Option Float) (above : List Frame) : Prop :=
  match kind with
  | .timeout => ∃ time, progress = .deadline time ∧ deadline = some time ∧ above ≠ []
  | .extension _ => progress = .entered ∧ deadline.isSome ∧ above ≠ []
  | .parallel => (∃ branches, progress = .branches branches) ∧ deadline = none ∧ above = []
  | _ => (∀ branches, progress ≠ .branches branches) ∧ deadline = none

/-- Other kinds arm no deadline and keep no branches. -/
theorem Kind.keeps_plain {kind : Kind} (timeout : kind ≠ .timeout) (parallel : kind ≠ .parallel)
    (builtin : ∀ e, kind ≠ .extension e) {progress : Progress} {above : List Frame}
    (other : ∀ branches, progress ≠ .branches branches) : kind.Keeps progress none above := by
  cases kind with
  | timeout => exact absurd rfl timeout
  | parallel => exact absurd rfl parallel
  | extension e => exact absurd rfl (builtin e)
  | _ => exact ⟨other, rfl⟩

mutual

/-- The frames go down from the node, and hold what their nodes keep. -/
def Stands : List Frame → Node → Prop
  | [], _ => False
  | .mk owner progress deadline :: above, node =>
    owner = node ∧ node.kind.Keeps progress deadline above ∧ ProgressStands progress node.children ∧
      (above = [] ∨ ∃ child ∈ node.children, Stands above child)

/-- The branches that a progress holds, if any, stand on the children. -/
def ProgressStands : Progress → List Node → Prop
  | .branches branches, children => BranchesStand branches children
  | _, _ => True

/-- One branch for each child. -/
def BranchesStand : List Branch → List Node → Prop
  | [], [] => True
  | branch :: branches, child :: children => BranchStands branch child ∧ BranchesStand branches children
  | _, _ => False

/-- A branch whose child has completed, or whose frames go down from that child. -/
def BranchStands : Branch → Node → Prop
  | .settled _, _ => True
  | .active stack, child => Stands stack child

end

theorem Stands.ne_nil {stack : List Frame} {node : Node} (stands : Stands stack node) : stack ≠ [] := by
  rintro rfl
  exact stands

/-- What stands on one of the nodes, if it runs. -/
def Outcome.StandsAmong (outcome : Outcome) (nodes : List Node) : Prop :=
  match outcome with
  | .done _ => True
  | .running frames => ∃ node ∈ nodes, Stands frames node

/-- What stands on the node, if it runs. -/
def Outcome.StandsOn (outcome : Outcome) (node : Node) : Prop :=
  match outcome with
  | .done _ => True
  | .running frames => Stands frames node

theorem Outcome.StandsOn.among {outcome : Outcome} {node : Node} {nodes : List Node}
    (stands : outcome.StandsOn node) (member : node ∈ nodes) : outcome.StandsAmong nodes := by
  cases outcome with
  | done verdict => trivial
  | running frames => exact ⟨node, member, stands⟩

/-! ### Decisions -/

/-- What a node decided, if it keeps what a node of its kind keeps. -/
def Step.StandsOn (step : Step) (node : Node) : Prop :=
  match step with
  | .finish _ => True
  | .suspend progress deadline above =>
    node.kind.Keeps progress deadline above ∧ ProgressStands progress node.children ∧
      (above = [] ∨ ∃ child ∈ node.children, Stands above child)

/-- What a node decided that arms no deadline and keeps no branches. -/
def Step.Plain (step : Step) (node : Node) : Prop :=
  match step with
  | .finish _ => True
  | .suspend progress deadline above =>
    ((∀ branches, progress ≠ .branches branches) ∧ deadline = none) ∧
      (above = [] ∨ ∃ child ∈ node.children, Stands above child)

theorem progressStands_of_ne {progress : Progress} {nodes : List Node}
    (plain : ∀ branches, progress ≠ .branches branches) : ProgressStands progress nodes := by
  cases progress with
  | branches branches => exact absurd rfl (plain branches)
  | _ => trivial

theorem Step.Plain.standsOn {step : Step} {node : Node} (plain : step.Plain node)
    (keeps : ∀ progress above, (∀ branches, progress ≠ .branches branches) →
      node.kind.Keeps progress none above) : step.StandsOn node := by
  cases step with
  | finish verdict => trivial
  | suspend progress deadline above =>
    obtain ⟨⟨other, rfl⟩, above⟩ := plain
    exact ⟨keeps _ _ other, progressStands_of_ne other, above⟩

theorem Step.plain_keep {node : Node} {progress : Progress} (other : ∀ branches, progress ≠ .branches branches) :
    (Step.keep progress).Plain node := ⟨⟨other, rfl⟩, .inl rfl⟩

theorem Step.plain_await {node : Node} {progress : Progress} {above : List Frame}
    (other : ∀ branches, progress ≠ .branches branches) (child : ∃ child ∈ node.children, Stands above child) :
    (Step.await progress above).Plain node := ⟨⟨other, rfl⟩, .inr child⟩

/-- A way to tick the node or to go on with it. -/
def Backs (node : Node) (tick : Ticker) : Prop := ∀ path, Leaves (tick path) (·.StandsOn node)

/-- A child of a Parallel node that is settled, or ticked so. -/
def Task.Backs (node : Node) : Task → Prop
  | .settled _ => True
  | .pending run => BehaviorTree.Backs node run

/-- The children are ticked in such ways. -/
structure Visit.Backed (visit : Visit) : Prop where
  children : ∀ tick ∈ visit.children, ∃ child ∈ visit.node.children, Backs child tick
  tasks : visit.node.kind = .parallel → List.Forall₂ Task.Backs visit.node.children visit.tasks

namespace Visit

variable {visit : Visit}

theorem Backed.tick (backed : visit.Backed) {tick : Ticker} (member : tick ∈ visit.children) (path : Path) :
    Leaves (tick path) (·.StandsAmong visit.node.children) := by
  obtain ⟨child, inside, backs⟩ := backed.children tick member
  exact (backs path).mono fun outcome stands => stands.among inside

theorem leaves_fail {α : Type} {P : α → Prop} (error : RunError) : Leaves (visit.fail error : TickM α) P :=
  leaves_throw _

theorem leaves_badResume {α : Type} {P : α → Prop} : Leaves (visit.badResume : TickM α) P := leaves_throw _

theorem changes_childVerdict (visit : Visit) : Changes [] visit.childVerdict := by
  refine Descent.changes_bind Descent.changes_actor fun actor => ?_
  split
  · exact Descent.changes_pure _
  · exact Descent.changes_throw _

theorem leaves_tickChild (backed : visit.Backed) (i : Nat) :
    Leaves (visit.tickChild i) (·.StandsAmong visit.node.children) := by
  unfold tickChild
  split
  · exact backed.tick (List.mem_of_getElem? ‹_›) _
  · exact leaves_fail _

/-- What an only child leaves stands on the node. -/
theorem leaves_onlyChild (backed : visit.Backed) :
    Leaves visit.onlyChild (·.StandsAmong visit.node.children) := by
  unfold onlyChild
  split
  · exact leaves_after (changes_childVerdict visit) fun _ => leaves_pure trivial
  · split
    · rename_i same
      exact backed.tick (by rw [same]; exact List.mem_cons_self) _
    · exact leaves_pure trivial

/-- A node that waits for a child that runs, and goes on from the verdict of one that has completed. -/
theorem leaves_awaiting {x : TickM Outcome} {next : Outcome → TickM Step} {progress : Progress}
    (ticked : Leaves x (·.StandsAmong visit.node.children)) (other : ∀ branches, progress ≠ .branches branches)
    (awaits : ∀ above, next (.running above) = pure (.await progress above))
    (done : ∀ verdict, Leaves (next (.done verdict)) (·.Plain visit.node)) :
    Leaves (x >>= next) (·.Plain visit.node) := by
  refine leaves_bind ticked fun outcome stands => ?_
  cases outcome with
  | done verdict => exact done verdict
  | running above =>
    rw [awaits]
    exact leaves_pure (Step.plain_await other stands)

/-! ### Composites -/

theorem leaves_runFrom (backed : visit.Backed) (stop : Verdict) (i : Nat) (ticks : List Ticker)
    (sub : ticks ⊆ visit.children) : Leaves (visit.runFrom stop i ticks) (·.Plain visit.node) := by
  induction ticks generalizing i with
  | nil => exact leaves_pure trivial
  | cons tick rest ih =>
    refine leaves_awaiting (backed.tick (sub List.mem_cons_self) _) (by rintro _ ⟨⟩) (fun _ => rfl) fun verdict => ?_
    exact leaves_ite (leaves_pure trivial) (ih (i + 1) fun _ member => sub (List.mem_cons_of_mem _ member))

/-- What a Sequence or Selector leaves is plain. -/
theorem leaves_runUntil (backed : visit.Backed) (stop : Verdict) :
    Leaves (visit.runUntil stop) (·.Plain visit.node) := by
  unfold runUntil
  split
  · exact leaves_runFrom backed stop 0 _ fun _ member => member
  · refine leaves_after (changes_childVerdict visit) fun verdict => leaves_ite (leaves_pure trivial) ?_
    exact leaves_runFrom backed stop _ _ fun _ member => List.mem_of_mem_drop member
  · exact leaves_badResume

/-- The branches that the tasks leave stand. -/
theorem leaves_runTasks (depth : Nat) {nodes : List Node} {tasks : List Task}
    (backs : List.Forall₂ Task.Backs nodes tasks) : Leaves (runTasks depth tasks) (BranchesStand · nodes) := by
  induction backs with
  | nil => exact leaves_pure trivial
  | @cons node task nodes tasks first rest ih =>
    cases task with
    | settled verdict => exact leaves_bind ih fun branches stand => leaves_pure ⟨trivial, stand⟩
    | pending run =>
      refine leaves_bind (leaves_rethrow _ (first [])) fun outcome stands => ?_
      refine leaves_bind ih fun branches stand => leaves_pure ⟨?_, stand⟩
      cases outcome with
      | done verdict => trivial
      | running frames => exact stands

/-- What a Parallel node leaves stands on it. -/
theorem leaves_parallel (backed : visit.Backed) (kind : visit.node.kind = .parallel) :
    Leaves visit.parallel (·.StandsOn visit.node) := by
  have ran : Leaves (do
      let branches ← runTasks visit.path.length visit.tasks
      return if branches.all isSettled then .success else .keep (.branches branches))
      (Step.StandsOn · visit.node) := by
    refine leaves_bind (leaves_runTasks _ (backed.tasks kind)) fun branches stand => leaves_pure ?_
    split
    · trivial
    · refine ⟨?_, stand, .inl rfl⟩
      rw [kind]
      exact ⟨⟨branches, rfl⟩, rfl, rfl⟩
  unfold parallel
  split
  · exact ran
  · exact ran
  · exact leaves_bind leaves_badResume fun _ (_ : True) => ran

/-- What an IfElse node leaves is plain. -/
theorem leaves_runBranch (backed : visit.Backed) (condition : Verdict) :
    Leaves (visit.runBranch condition) (·.Plain visit.node) := by
  unfold runBranch
  extract_lets i
  split
  · exact leaves_pure trivial
  · exact leaves_awaiting (backed.tick (List.mem_of_getElem? ‹_›) _) (by rintro _ ⟨⟩) (fun _ => rfl) fun _ =>
      leaves_pure trivial

theorem leaves_ifElse (backed : visit.Backed) : Leaves visit.ifElse (·.Plain visit.node) := by
  unfold ifElse
  split
  · exact leaves_awaiting (leaves_tickChild backed 0) (by rintro _ ⟨⟩) (fun _ => rfl) (leaves_runBranch backed)
  · exact leaves_after (changes_childVerdict visit) fun verdict => leaves_runBranch backed verdict
  · exact leaves_after (changes_childVerdict visit) fun _ => leaves_pure trivial
  · exact leaves_badResume

/-- What the rest of an iteration leaves is plain. -/
theorem leaves_runIteration (backed : visit.Backed) (it : Iteration) (i : Nat) (ticks : List Ticker)
    (sub : ticks ⊆ visit.children) : Leaves (visit.runIteration it i ticks) (·.Plain visit.node) := by
  induction ticks generalizing i with
  | nil =>
    refine leaves_pure ?_
    split
    · trivial
    · exact Step.plain_keep (by rintro _ ⟨⟩)
  | cons tick rest ih =>
    refine leaves_awaiting (backed.tick (sub List.mem_cons_self) _) (by rintro _ ⟨⟩) (fun _ => rfl) fun verdict => ?_
    cases verdict with
    | success => exact ih (i + 1) fun _ member => sub (List.mem_cons_of_mem _ member)
    | failure => exact leaves_pure trivial

/-- What an iteration leaves is plain. -/
theorem leaves_enterIteration (backed : visit.Backed) {before : Iteration → TickM Unit}
    (unhurried : ∀ it, Changes [] (before it)) (it : Iteration) (i : Nat) :
    Leaves (visit.enterIteration before it i) (·.Plain visit.node) := by
  have entered : Leaves (visit.runIteration it i (visit.children.drop i)) (·.Plain visit.node) :=
    leaves_runIteration backed it i _ fun _ member => List.mem_of_mem_drop member
  unfold enterIteration
  refine leaves_ite (leaves_pure trivial) (leaves_ite ?_ entered)
  exact leaves_after (unhurried it) fun _ => entered

/-- What an iterating node leaves is plain. -/
theorem leaves_iterate (backed : visit.Backed) {fresh : TickM Iteration} {before : Iteration → TickM Unit}
    (begun : Changes [] fresh) (unhurried : ∀ it, Changes [] (before it)) :
    Leaves (visit.iterate fresh before) (·.Plain visit.node) := by
  unfold iterate
  split
  · exact leaves_after begun fun it => leaves_enterIteration backed unhurried it 0
  · refine leaves_after (changes_childVerdict visit) fun verdict => ?_
    cases verdict with
    | failure => exact leaves_pure trivial
    | success => exact leaves_enterIteration backed unhurried _ _
  · exact leaves_enterIteration backed unhurried _ _
  · exact leaves_badResume

theorem leaves_loop (backed : visit.Backed) : Leaves visit.loop (·.Plain visit.node) :=
  leaves_iterate backed
    (Descent.changes_bind (Descent.changes_input visit 0) fun _ => Descent.changes_pure _)
    fun _ => Descent.changes_setOutput visit 0 _

theorem leaves_foreach (backed : visit.Backed) : Leaves visit.foreach (·.Plain visit.node) := by
  refine leaves_iterate backed
    (Descent.changes_bind (Descent.changes_input visit 0) fun _ => Descent.changes_pure _) fun _ => ?_
  split
  · exact Descent.changes_bind (Descent.changes_setOutput visit 0 _) fun _ => Descent.changes_setOutput visit 1 _
  · exact Descent.changes_pure _

/-! ### Decorators -/

theorem leaves_mapVerdict (backed : visit.Backed) (f : Verdict → Verdict) :
    Leaves (visit.mapVerdict f) (·.Plain visit.node) :=
  leaves_awaiting (leaves_onlyChild backed) (by rintro _ ⟨⟩) (fun _ => rfl) fun _ => leaves_pure trivial

theorem leaves_assert (backed : visit.Backed) : Leaves visit.assert (·.Plain visit.node) := by
  refine leaves_awaiting (leaves_onlyChild backed) (by rintro _ ⟨⟩) (fun _ => rfl) fun verdict => ?_
  cases verdict with
  | success => exact leaves_pure trivial
  | failure => exact leaves_fail _

theorem leaves_alwaysRunning (backed : visit.Backed) : Leaves visit.alwaysRunning (·.Plain visit.node) := by
  unfold alwaysRunning
  extract_lets start
  have started : Leaves start (·.Plain visit.node) :=
    leaves_awaiting (leaves_tickChild backed 0) (by rintro _ ⟨⟩) (fun _ => rfl) fun _ =>
      leaves_pure (Step.plain_keep (by rintro _ ⟨⟩))
  split
  · exact started
  · exact started
  · exact leaves_after (changes_childVerdict visit) fun _ => leaves_pure (Step.plain_keep (by rintro _ ⟨⟩))
  · exact leaves_badResume

theorem plain_afterAttempt (visit : Visit) (wanted : Verdict) (count : Nat) (verdict : Verdict) :
    (visit.afterAttempt wanted count verdict).Plain visit.node := by
  unfold afterAttempt
  simp only
  split
  · trivial
  · split
    · trivial
    · exact Step.plain_keep (by rintro _ ⟨⟩)

/-- What a repeating node leaves is plain. -/
theorem leaves_repeatUntil (backed : visit.Backed) (wanted : Verdict) :
    Leaves (visit.repeatUntil wanted) (·.Plain visit.node) := by
  unfold repeatUntil
  extract_lets start
  have started (count : Nat) : Leaves (start count) (·.Plain visit.node) :=
    leaves_awaiting (leaves_tickChild backed 0) (by rintro _ ⟨⟩) (fun _ => rfl) fun verdict =>
      leaves_pure (plain_afterAttempt visit wanted count verdict)
  split
  · exact started 0
  · exact started _
  · exact leaves_after (changes_childVerdict visit) fun verdict =>
      leaves_pure (plain_afterAttempt visit wanted _ verdict)
  · exact leaves_badResume

theorem leaves_once (backed : visit.Backed) : Leaves visit.once (·.Plain visit.node) := by
  have completes : Changes [visit.node.id] (TickM.updateActor fun actor =>
      { actor with completed := visit.node.id :: actor.completed }) :=
    fun s => .single (.complete s _ (List.mem_singleton_self _))
  refine leaves_after Descent.changes_actor fun actor => leaves_ite (leaves_pure trivial) ?_
  exact leaves_awaiting (leaves_onlyChild backed) (by rintro _ ⟨⟩) (fun _ => rfl) fun verdict =>
    leaves_bind (leaves_of_changes completes) fun _ _ => leaves_pure trivial

theorem leaves_delay (backed : visit.Backed) : Leaves visit.delay (·.Plain visit.node) := by
  refine leaves_after Descent.changes_now fun now => ?_
  extract_lets start
  have started : Leaves start (·.Plain visit.node) :=
    leaves_awaiting (leaves_tickChild backed 0) (by rintro _ ⟨⟩) (fun _ => rfl) fun _ => leaves_pure trivial
  split
  · exact leaves_after (changes_childVerdict visit) fun _ => leaves_pure trivial
  · exact leaves_ite (leaves_pure (Step.plain_keep (by rintro _ ⟨⟩))) started
  · exact leaves_badResume
  · exact leaves_ite (leaves_pure (Step.plain_keep (by rintro _ ⟨⟩))) started

/-- What a node leaves that handles events is plain. -/
theorem leaves_handleEvents (backed : visit.Backed) (isOnce : Bool) (listener budget : Nat) :
    Leaves (visit.handleEvents isOnce listener budget) (·.Plain visit.node) := by
  induction budget with
  | zero => exact leaves_pure (Step.plain_keep (by rintro _ ⟨⟩))
  | succ budget ih =>
    refine leaves_after (Descent.changes_takeEvent listener) fun event => ?_
    cases event with
    | none => exact leaves_pure (Step.plain_keep (by rintro _ ⟨⟩))
    | some args =>
      refine leaves_after (Descent.changes_writeArguments visit args) fun _ => ?_
      refine leaves_awaiting (leaves_tickChild backed 0) (by rintro _ ⟨⟩) (fun _ => rfl) fun verdict => ?_
      exact leaves_ite (leaves_after (Descent.changes_unsubscribe listener) fun _ => leaves_pure trivial) ih

/-- What a listening node leaves is plain. -/
theorem leaves_listenOn (backed : visit.Backed) (target : Target) :
    Leaves (visit.listenOn target) (·.Plain visit.node) := by
  have handle (isOnce : Bool) (listener : Nat) : Leaves (TickM.context >>= fun ctx =>
      visit.handleEvents isOnce listener ((ctx.queue listener).length + furtherEvents)) (Step.Plain · visit.node) :=
    leaves_after Descent.changes_context fun ctx => leaves_handleEvents backed isOnce listener _
  unfold listenOn
  simp only
  split
  · intro s step t played
    rw [play_bind_ok (play_get s), play_bind_ok (play_set s _)] at played
    have opens : s.Precedes
        ⟨(s.context.subscribe ((visit.node.text? "event").getD "") target s.actor.caller).2, s.actor⟩ :=
      ⟨rfl, fun wired => wired.subscribe _ _ _⟩
    generalize s.context.subscribe ((visit.node.text? "event").getD "") target s.actor.caller = opened at played opens
    obtain ⟨plain, after⟩ := handle _ opened.1 ⟨opened.2, s.actor⟩ step t played
    exact ⟨plain, opens.trans after⟩
  · exact handle _ _
  · refine leaves_after (changes_childVerdict visit) fun verdict => leaves_ite ?_ (handle _ _)
    exact leaves_after (Descent.changes_unsubscribe _) fun _ => leaves_pure trivial
  · exact leaves_badResume

theorem leaves_listen (backed : visit.Backed) : Leaves visit.listen (·.Plain visit.node) := by
  refine leaves_after (Descent.changes_input visit 0) fun v => ?_
  split
  · exact leaves_listenOn backed _
  · exact leaves_listenOn backed _

theorem leaves_listenTree (backed : visit.Backed) : Leaves visit.listenTree (·.Plain visit.node) :=
  leaves_after Descent.changes_actor fun _ => leaves_listenOn backed _

/-! ### Limits of time -/

/-- A node that limits the time of its child and otherwise ends as the child does. -/
theorem leaves_limiting {x : TickM Outcome} {next : Outcome → TickM Step} {progress : Progress} {time : Float}
    (ticked : Leaves x (·.StandsAmong visit.node.children))
    (keeps : ∀ above, above ≠ [] → visit.node.kind.Keeps progress (some time) above)
    (other : ∀ branches, progress ≠ .branches branches)
    (awaits : ∀ above, next (.running above) = pure (.suspend progress (some time) above))
    (ends : ∀ verdict, next (.done verdict) = pure (.finish verdict)) :
    Leaves (x >>= next) (·.StandsOn visit.node) := by
  refine leaves_bind ticked fun outcome stands => ?_
  cases outcome with
  | done verdict =>
    rw [ends]
    exact leaves_pure trivial
  | running above =>
    obtain ⟨child, member, stands⟩ := stands
    rw [awaits]
    exact leaves_pure ⟨keeps above stands.ne_nil, progressStands_of_ne other, .inr ⟨child, member, stands⟩⟩

/-- What a Timeout node leaves stands on it, deadline included. -/
theorem leaves_timeout (backed : visit.Backed) (kind : visit.node.kind = .timeout) :
    Leaves visit.timeout (·.StandsOn visit.node) := by
  unfold timeout
  split
  · refine leaves_after Descent.changes_now fun now => leaves_ite ?_ ?_
    · exact leaves_after (Descent.changes_note _ rfl) fun _ => leaves_pure trivial
    · exact leaves_after (changes_childVerdict visit) fun _ => leaves_pure trivial
  · exact leaves_badResume
  · refine leaves_after Descent.changes_now fun now => ?_
    refine leaves_limiting (leaves_tickChild backed 0) (fun above busy => ?_) (by rintro _ ⟨⟩) (fun _ => rfl) fun _ =>
      rfl
    rw [kind]
    exact ⟨_, rfl, rfl, busy⟩

/-- What a guarded node leaves stands on it, deadline included. -/
theorem leaves_guarded (backed : visit.Backed) (kind : visit.node.kind = .extension .guarded) :
    Leaves visit.guarded (·.StandsOn visit.node) := by
  unfold guarded
  split
  · exact leaves_after (changes_childVerdict visit) fun _ => leaves_pure trivial
  · refine leaves_after Descent.changes_now fun now => ?_
    refine leaves_limiting (leaves_tickChild backed 0) (fun above busy => ?_) (by rintro _ ⟨⟩) (fun _ => rfl) fun _ =>
      rfl
    rw [kind]
    exact ⟨rfl, rfl, busy⟩

/-! ### Nodes without children -/

theorem leaves_wait (visit : Visit) : Leaves visit.wait (·.Plain visit.node) := by
  have ends (now deadline : Float) :
      Leaves (pure (if deadline ≤ now then .success else .keep (.deadline deadline)) : TickM Step)
        (Step.Plain · visit.node) := by
    refine leaves_pure ?_
    split
    · trivial
    · exact Step.plain_keep (by rintro _ ⟨⟩)
  refine leaves_after Descent.changes_now fun now => ?_
  split
  · exact leaves_bind (leaves_pure trivial) fun time (_ : True) => ends now time
  · exact leaves_bind leaves_badResume fun time (_ : True) => ends now time
  · refine leaves_after (Descent.changes_input visit 0) fun given => ?_
    exact leaves_bind (leaves_pure trivial) fun time (_ : True) => ends now time

/-- The other nodes without children complete at once. -/
theorem leaves_leaf {x : TickM Step} (leaf : leaf? visit visit.node.kind = some x) :
    Leaves x (·.Plain visit.node) := by
  have changes : Changes [] (Descent.start visit visit.node.kind) :=
    Descent.changes_start visit fun e same => by rw [same] at leaf; cases leaf
  rw [Descent.start_of_leaf leaf] at changes
  have unhurried : Changes [] x := by
    intro s
    have effects := changes s
    rw [play_map] at effects
    exact effects
  refine (leaves_of_changes unhurried).and_yields fun s step t played => ?_
  obtain ⟨verdict, rfl⟩ := Descent.leaf?_yields leaf s step t played
  trivial

/-! ### Executions -/

/-- Most nodes arm no deadline and keep no branches. -/
theorem plain_run (backed : visit.Backed) (timeout : visit.node.kind ≠ .timeout)
    (parallel : visit.node.kind ≠ .parallel) (builtin : ∀ e, visit.node.kind ≠ .extension e) :
    Leaves visit.run (·.Plain visit.node) := by
  have leaf {x : TickM Step} (leaf : leaf? visit visit.node.kind = some x) :
      Leaves x (·.Plain visit.node) := leaves_leaf leaf
  unfold run
  cases kind : visit.node.kind with
  | sequence => exact leaves_runUntil backed _
  | selector => exact leaves_runUntil backed _
  | parallel => exact absurd kind parallel
  | ifElse => exact leaves_ifElse backed
  | loop => exact leaves_loop backed
  | foreach => exact leaves_foreach backed
  | inverter | alwaysSuccess | alwaysFail => exact leaves_mapVerdict backed _
  | alwaysRunning => exact leaves_alwaysRunning backed
  | assert => exact leaves_assert backed
  | repeatUntil wanted => exact leaves_repeatUntil backed wanted
  | timeout => exact absurd kind timeout
  | delay => exact leaves_delay backed
  | once => exact leaves_once backed
  | listen => exact leaves_listen backed
  | listenTree => exact leaves_listenTree backed
  | wait => exact leaves_wait visit
  | extension e => exact absurd kind (builtin e)
  | check | isNull | notNull | isStatus | calculate | constant | push | clear | log | now =>
    exact leaf (by rw [kind]; rfl)

/-- A node that is ticked and resumed in such ways keeps what a node of its kind keeps. -/
theorem leaves_run (backed : visit.Backed) (hosted : visit.node.kind.Hosted) :
    Leaves visit.run (·.StandsOn visit.node) := by
  by_cases timeout : visit.node.kind = .timeout
  · rw [run, timeout]
    exact leaves_timeout backed timeout
  by_cases parallel : visit.node.kind = .parallel
  · rw [run, parallel]
    exact leaves_parallel backed parallel
  by_cases limited : visit.node.kind = .extension .guarded
  · rw [run, limited]
    exact leaves_guarded backed limited
  have builtin : ∀ e, visit.node.kind ≠ .extension e := fun e kind => limited (hosted e kind ▸ kind)
  exact (plain_run backed timeout parallel builtin).mono fun step plain =>
    plain.standsOn fun _ _ other => Kind.keeps_plain timeout parallel builtin other

theorem standsOn_outcome {step : Step} (stands : step.StandsOn visit.node) :
    (visit.outcome step).StandsOn visit.node := by
  cases step with
  | finish verdict => trivial
  | suspend progress deadline above => exact ⟨rfl, stands⟩

theorem leaves_execute (backed : visit.Backed) (hosted : visit.node.kind.Hosted) :
    Leaves visit.execute (·.StandsOn visit.node) := by
  refine leaves_after (Descent.changes_noteDebug _ rfl) fun _ => ?_
  refine leaves_bind (leaves_run backed hosted) fun step stands => ?_
  refine leaves_after (Descent.changes_noteDebug _ rfl) fun _ => ?_
  exact leaves_after (Descent.changes_report _) fun _ => leaves_pure (standsOn_outcome stands)

/-- An execution tells of its beginning and its end, if that is asked for, and records what came of it. -/
theorem play_execute (visit : Visit) (s : Scene) :
    visit.execute.play s =
      match visit.run.play (s.entered visit.node (visit.path.length - 1)) with
      | (.ok step, t) => (.ok (visit.outcome step), t.reported visit.node (visit.outcome step).status)
      | (.error fault, t) => (.error fault, t) := by
  rw [execute, play_bind_ok (play_noteDebug _ s), play_bind, Scene.entered]
  rcases visit.run.play (s.noteDebug (.entered visit.node.name visit.node.id (visit.path.length - 1))) with
    ⟨fault | step, t⟩ <;> rfl

/-- An execution records what it reports. -/
theorem last_execute (visit : Visit) (s : Scene) :
    Gives visit.execute s fun outcome t => t.actor.last = outcome.status := by
  intro outcome t played
  rw [play_execute] at played
  rcases ran : visit.run.play (s.entered visit.node (visit.path.length - 1)) with ⟨fault | step, u⟩
  · rw [ran] at played
    cases played
  · rw [ran] at played
    cases played
    rfl

end Visit

/-! ### Ticks and resumptions -/

/-- What has been ticked or resumed is recorded last, whatever came of it. -/
def Records (tick : Ticker) : Prop := ∀ path s, Gives (tick path) s fun outcome t => t.actor.last = outcome.status

theorem records_tick (node : Node) : Records node.tick := by
  intro path s
  rw [tick_execute]
  exact Visit.last_execute _ s

/-- Resuming a stack records what it reports. -/
theorem records_resumeFrom (stack : List Frame) (below : Nat) : Records (resumeFrom stack below) := by
  induction stack generalizing below with
  | nil =>
    intro path s outcome t played
    rw [resumeFrom, play_bind_ok (play_actor s)] at played
    rcases last : s.actor.last <;> rw [last] at played <;> cases played <;> exact last
  | cons frame above ih =>
    obtain ⟨node, progress, deadline⟩ := frame
    intro path s
    cases below with
    | zero =>
      rw [Descent.resumeFrom_zero]
      exact Visit.last_execute _ s
    | succ below =>
      rw [Descent.resumeFrom_succ]
      refine gives_bind (ih below _ s) fun outcome t last => ?_
      cases outcome with
      | done verdict => exact Visit.last_execute _ t
      | running frames => exact gives_pure last

theorem records_resumeAt (stack : List Frame) : Records (resumeAt stack) := fun path _ =>
  gives_bind (P := fun _ _ => True) (fun _ _ _ => trivial) fun below t _ => records_resumeFrom stack below path t

/-- Some frame of the stack is the one that goes on. -/
theorem leaves_expireDeadlines {stack : List Frame} (busy : stack ≠ []) :
    Leaves (expireDeadlines stack) (· < stack.length) := by
  refine leaves_after Descent.changes_now fun now => ?_
  split
  · exact leaves_pure (Nat.sub_lt (List.length_pos_of_ne_nil busy) Nat.one_pos)
  · rename_i i found
    have inside : i < stack.length := (List.findIdx?_eq_some_iff_getElem.mp found).1
    refine leaves_after (Descent.changes_noteDebug _ rfl) fun _ => ?_
    exact leaves_after (Descent.changes_release _) fun _ => leaves_pure inside

/-- Every stack on the node can be resumed. -/
def Resumable (node : Node) : Prop :=
  ∀ stack, Stands stack node → ∀ below < stack.length, ∀ path,
    Leaves (resumeFrom stack below path) (·.StandsOn node)

theorem Resumable.backs {node : Node} (resumable : Resumable node) {stack : List Frame}
    (stands : Stands stack node) : Backs node (resumeAt stack) := fun path =>
  leaves_bind (leaves_expireDeadlines stands.ne_nil) fun below inside => resumable stack stands below inside path

/-- What is above a frame may be replaced as long as something is. -/
theorem Kind.Keeps.replace {kind : Kind} {progress : Progress} {deadline : Option Float} {above frames : List Frame}
    (keeps : kind.Keeps progress deadline above) (busy : above ≠ []) (still : frames ≠ []) :
    kind.Keeps progress deadline frames := by
  cases kind with
  | timeout =>
    obtain ⟨time, kept, armed, -⟩ := keeps
    exact ⟨time, kept, armed, still⟩
  | parallel => exact absurd keeps.2.2 busy
  | extension e => exact ⟨keeps.1, keeps.2.1, still⟩
  | _ => exact keeps

section

variable {node : Node} (below : ∀ child ∈ node.children, Backs child child.tick ∧ Resumable child)

include below

theorem backs_branchTasks {nodes : List Node} (sub : nodes ⊆ node.children) {branches : List Branch}
    (stand : BranchesStand branches nodes) :
    List.Forall₂ Task.Backs nodes (branchTasks (nodes.map Node.tick) branches) := by
  induction nodes generalizing branches with
  | nil => cases branches <;> exact .nil
  | cons child rest ih =>
    rcases branches with _ | ⟨branch, branches⟩
    · exact stand.elim
    obtain ⟨first, others⟩ := stand
    rw [List.map_cons, branchTasks]
    refine .cons ?_ (ih (fun _ member => sub (List.mem_cons_of_mem _ member)) others)
    rcases branch with verdict | (_ | ⟨frame, above⟩)
    · trivial
    · exact first.elim
    · exact (below child (sub List.mem_cons_self)).2.backs first

theorem backs_pending {nodes : List Node} (sub : nodes ⊆ node.children) :
    List.Forall₂ Task.Backs nodes ((nodes.map Node.tick).map .pending) := by
  induction nodes with
  | nil => exact .nil
  | cons child rest ih =>
    exact .cons (below child (sub List.mem_cons_self)).1 (ih fun _ member => sub (List.mem_cons_of_mem _ member))

theorem backed_onStack {progress : Option Progress} {tasks : List Task} {path : Path}
    (backs : node.kind = .parallel → List.Forall₂ Task.Backs node.children tasks) :
    (onStack node progress tasks path).Backed := by
  refine ⟨fun tick member => ?_, backs⟩
  obtain ⟨child, inside, rfl⟩ := List.mem_map.mp member
  exact ⟨child, inside, (below child inside).1⟩

theorem backs_tick_of_children (hosted : node.kind.Hosted) : Backs node node.tick := by
  intro path
  rw [tick_execute]
  exact Visit.leaves_execute (backed_onStack below fun _ => backs_pending below (List.Subset.refl _)) hosted

/-- What a resumed node leaves stands on it. -/
theorem leaves_resumed {progress : Progress} {deadline : Option Float} {above : List Frame}
    (hosted : node.kind.Hosted) (keeps : node.kind.Keeps progress deadline above)
    (stand : ProgressStands progress node.children) (path : Path) :
    Leaves (resumed node progress path) (·.StandsOn node) := by
  refine Visit.leaves_execute (backed_onStack below fun kind => ?_) hosted
  rw [kind] at keeps
  obtain ⟨⟨branches, rfl⟩, -⟩ := keeps
  exact backs_branchTasks below (List.Subset.refl _) stand

/-- A node can be resumed if its children can. -/
theorem resumable_of_children (hosted : node.kind.Hosted) : Resumable node := by
  rintro (_ | ⟨⟨owner, progress, deadline⟩, above⟩) stands depth inside path
  · exact stands.elim
  obtain ⟨rfl, keeps, stand, higher⟩ := stands
  cases depth with
  | zero =>
    rw [Descent.resumeFrom_zero]
    exact leaves_resumed below hosted keeps stand _
  | succ depth =>
    rw [List.length_cons, Nat.add_lt_add_iff_right] at inside
    have busy : above ≠ [] := List.length_pos_iff.mp (Nat.zero_lt_of_lt inside)
    obtain ⟨child, member, stands⟩ := higher.resolve_left busy
    rw [Descent.resumeFrom_succ]
    refine leaves_bind ((below child member).2 above stands depth inside _) fun outcome still => ?_
    cases outcome with
    | done verdict => exact leaves_resumed below hosted keeps stand _
    | running frames =>
      exact leaves_pure ⟨rfl, keeps.replace busy still.ne_nil, stand, .inr ⟨child, member, still⟩⟩

end

/-- Whatever ticking and resuming such nodes leads to stands on them. -/
theorem backs_and_resumable (node : Node) (hosted : node.Every (·.kind.Hosted)) :
    Backs node node.tick ∧ Resumable node := by
  induction node using Node.induct with
  | step node ih =>
    have below (child : Node) (member : child ∈ node.children) := ih child member (hosted.child member)
    exact ⟨backs_tick_of_children below hosted.self, resumable_of_children below hosted.self⟩

end BehaviorTree
