import BehaviorTree.Proofs.Descent.Instants
import BehaviorTree.Proofs.Session.Journal
import BehaviorTree.Proofs.Stack.Standing

/-!
The status that is recorded of an actor. At every instant of a run, and between two runs, it is the one that was
reported last, the initial success if none was, and that is what IsStatus nodes look at. A node that runs on
reports as well: after that the status is not the one with which a node has completed last, but running.
-/

namespace BehaviorTree

open Descent (Follows Instant latest)
open TickM

namespace Descent

/-- The status with which a node has completed last, given the one from before. -/
def completedLast (last : Status) (instants : List Instant) : Status :=
  instants.foldl (fun last instant => ((instant.status?.bind Status.verdict?).map Verdict.status).getD last) last

theorem latest_concat (last : Status) (instants : List Instant) (instant : Instant) :
    latest last (instants ++ [instant]) = instant.status?.getD (latest last instants) :=
  latest_append last instants [instant]

theorem completedLast_concat (last : Status) (instants : List Instant) (instant : Instant) :
    completedLast last (instants ++ [instant]) =
      ((instant.status?.bind Status.verdict?).map Verdict.status).getD (completedLast last instants) := by
  rw [completedLast, List.foldl_append]
  rfl

/-- The last node to complete is not running. -/
theorem completedLast_ne_running (instants : List Instant) : completedLast .success instants ≠ .running := by
  induction instants using List.reverseRecOn with
  | nil => exact nofun
  | append_singleton instants instant ih =>
    rw [completedLast_concat]
    rcases instant.status?.bind Status.verdict? with _ | verdict
    · exact ih
    · cases verdict <;> exact nofun

/-- What was reported last is how a node has completed last, unless it is that a node runs. -/
theorem latest_eq_completedLast_iff (instants : List Instant) :
    latest .success instants = completedLast .success instants ↔ latest .success instants ≠ .running := by
  refine ⟨fun same => same ▸ completedLast_ne_running instants, fun settled => ?_⟩
  induction instants using List.reverseRecOn with
  | nil => rfl
  | append_singleton instants instant ih =>
    rw [latest_concat] at settled ⊢
    rw [completedLast_concat]
    rcases reported : instant.status? with _ | status
    · rw [reported] at settled
      exact ih settled
    · cases status with
      | running => exact absurd (by rw [reported]; rfl) settled
      | success | failure => rfl

end Descent

/-- The status that an IsStatus node asks for. -/
def Node.wantedStatus (node : Node) : Option Status := (node.text? "status").bind Status.ofName?

/-- An IsStatus node succeeds just if what is recorded is what it asks for. -/
theorem play_tick_isStatus {node : Node} (kind : node.kind = .isStatus) (path : Path) (s : Scene) :
    ((node.tick path).play s).1 = .ok (.done (.ofBool (node.wantedStatus == some s.actor.last))) := by
  have same : (s.noteDebug (.entered node.name node.id ((path ++ [node.id]).length - 1))).actor = s.actor :=
    Descent.noteDebug_actor s _
  obtain ⟨id, _, name, desc, args, input, output, children⟩ := node
  obtain rfl : _ = Kind.isStatus := kind
  rw [Node.tick, Node.wantedStatus, ← same]
  rfl

namespace Runner

variable {runner : Runner} {cache : ExprCache}

/-- The instants of a run. -/
def instantsOfRun (runner : Runner) (ctx : Context) : List Instant :=
  if runner.isCancelled ctx then [] else (runner.rootCall (ctx.dropRequest runner.actor.caller)).instants

/-- The instants of the runs that an action leads to. -/
def instantsOf (runner : Runner) (ctx : Context) : HostAction → List Instant
  | .run => runner.instantsOfRun ctx
  | _ => []

/-- All instants of the runs while actions are carried out. -/
def instantsOfActions (runner : Runner) (ctx : Context) : List HostAction → List Instant
  | [] => []
  | action :: rest =>
    let (_, next, onward) := runner.perform ctx action
    runner.instantsOf ctx action ++ next.instantsOfActions onward rest

theorem last_conclude (runner : Runner) (result : Except Fault Outcome) (scene : Scene) :
    (runner.conclude result scene).2.1.actor.last = scene.actor.last := by
  rcases result with fault | (verdict | frames) <;> rfl

theorem last_interrupt (runner : Runner) (ctx : Context) :
    (runner.interrupt ctx).1.actor.last = runner.actor.last := by
  rw [Runner.interrupt]
  split <;> rfl

theorem last_clear (runner : Runner) (ctx : Context) : (runner.clear ctx).1.actor.last = runner.actor.last := by
  by_cases running : runner.actor.status = .running
  · simp only [Runner.clear, if_pos running]
    exact runner.last_interrupt ctx
  · simp only [Runner.clear, if_neg running]
    rfl

/-- In a run every report is recorded until the next one. -/
theorem Ready.follows_run (ready : runner.Ready cache) (ctx : Context) :
    Follows runner.actor.last (runner.instantsOfRun ctx) ∧
      (runner.run ctx).2.1.actor.last = latest runner.actor.last (runner.instantsOfRun ctx) := by
  rw [run_eq, instantsOfRun]
  split
  · exact ⟨trivial, rfl⟩
  · generalize ctx.dropRequest runner.actor.caller = ctx
    obtain ⟨left, follows⟩ :=
      Descent.Call.tracked (runner.rootCall ctx) (ready.shaped.mono fun _ shaped => shaped.builtin)
    refine ⟨follows, ?_⟩
    rw [last_conclude, ready.tickNodes_eq]
    exact left

/-- Every action leaves the status that was reported last. -/
theorem Ready.follows_perform (ready : runner.Ready cache) (ctx : Context) (action : HostAction) :
    Follows runner.actor.last (runner.instantsOf ctx action) ∧
      (runner.perform ctx action).2.1.actor.last = latest runner.actor.last (runner.instantsOf ctx action) := by
  cases action with
  | run => exact ready.follows_run ctx
  | interrupt => exact ⟨trivial, runner.last_interrupt ctx⟩
  | clear => exact ⟨trivial, runner.last_clear ctx⟩
  | context | vars | setDebug | follow => exact ⟨trivial, rfl⟩

/-- The same goes for a whole schedule. -/
theorem Ready.follows_performAll (ready : runner.Ready cache) (ctx : Context) (actions : List HostAction) :
    Follows runner.actor.last (runner.instantsOfActions ctx actions) ∧
      (runner.performAll ctx actions).1.actor.last =
        latest runner.actor.last (runner.instantsOfActions ctx actions) := by
  induction actions generalizing runner ctx with
  | nil => exact ⟨trivial, rfl⟩
  | cons action rest ih =>
    obtain ⟨first, recorded⟩ := ready.follows_perform ctx action
    obtain ⟨later, last⟩ := ih (ready.perform ctx action) (runner.perform ctx action).2.2
    rw [recorded] at later last
    refine ⟨Descent.follows_append.mpr ⟨first, later⟩, last.trans ?_⟩
    rw [instantsOfActions, Descent.latest_append]

/-- What is recorded, given the instants so far. -/
structure Recorded (last : Status) (past : List Instant) : Prop where
  latest : last = latest .success past
  /-- So it is how a node has completed last just as long as no node has reported since that it runs. -/
  completed : last = Descent.completedLast .success past ↔ last ≠ .running

theorem recorded_of_latest {last : Status} {past : List Instant} (latest : last = Descent.latest .success past) :
    Recorded last past := by
  subst latest
  exact ⟨rfl, Descent.latest_eq_completedLast_iff past⟩

/-- Whatever a host does with a runner of a loaded tree: what is recorded between two runs and at every instant of a
run is the status that was reported last. A node records it whenever it has been executed, also if it runs on, and
IsStatus nodes look at it. -/
theorem last_is_latest_report (source : Source) (cache : ExprCache) (name : String) (strict : Bool) (tree : Tree)
    (loaded : (source.load Registry.builtin cache name strict).1 = .ok tree) (caller : Nat) (target : Target)
    (debug : Bool) (before : Context) (actions : List HostAction) :
    let start := Runner.new tree (.newWith caller target debug)
    let runner := (start.performAll before actions).1
    let past := start.instantsOfActions before actions
    Recorded runner.actor.last past ∧
      (∀ ctx earlier instant later, runner.instantsOfRun ctx = earlier ++ instant :: later →
        Recorded instant.scene.actor.last (past ++ earlier ++ [instant])) ∧
      ∀ node ∈ tree.root.preorder,
        (∀ path s outcome t, (node.tick path).play s = (.ok outcome, t) → t.actor.last = outcome.status) ∧
          (node.kind = .isStatus → ∀ path s,
            ((node.tick path).play s).1 = .ok (.done (.ofBool (node.wantedStatus == some s.actor.last)))) := by
  intro start runner past
  obtain ⟨admitted, nodup⟩ := source.admitted_load cache name strict loaded
  have fresh : start.Ready _ := ⟨⟨admitted, nodup⟩, _, Descent.Walker.valid_new tree caller target debug, rfl⟩
  obtain ⟨-, last⟩ := fresh.follows_performAll before actions
  refine ⟨recorded_of_latest last, fun ctx earlier instant later split => ?_,
    fun node _ => ⟨records_tick node, play_tick_isStatus⟩⟩
  have ready : runner.Ready _ := fresh.performAll before actions
  have follows := (ready.follows_run ctx).1
  rw [split, last] at follows
  refine recorded_of_latest ?_
  rw [List.append_assoc, Descent.latest_append]
  exact follows.at

/-- The patrol is still under way after a run, so that running is recorded of it, though its first node and the
last one have succeeded. -/
theorem last_is_latest_report_patrol :
    (patrolSource.load Registry.builtin [] "patrol" true).1 = .ok patrol ∧
      let start := Runner.new patrol (.newWith 1 .everyone false)
      let past := start.instantsOfActions (.new Registry.builtin) [.run]
      Recorded .running past ∧ Descent.completedLast .success past ≠ .running := by
  have loaded := congrArg Prod.fst load_patrol
  obtain ⟨recorded, -⟩ := last_is_latest_report patrolSource [] "patrol" true patrol loaded 1 .everyone false
    (.new Registry.builtin) [.run]
  exact ⟨loaded, recorded, Descent.completedLast_ne_running _⟩

end Runner
end BehaviorTree
