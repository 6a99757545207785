import BehaviorTree.Proofs.Stack.Turn

/-!
A decorator by which a host limits the time of a child and which asks for the child's verdict when it goes on.
If its deadline has not come, it goes on once its child has completed in the same run, and takes the verdict of
the child. If the deadline has come it asks as well, with the child dropped, and is told what is recorded last:
the verdict of the branch that was ticked before it in the same run, if it stands in a branch and there was one
that completed. Only otherwise is there an error.
-/

namespace BehaviorTree

open Descent (resumed resumeAt onStack)
open TickM

/-- However it comes to go on, such a decorator asks for the verdict of its child. -/
theorem play_resumed_guarded {node : Node} (kind : node.kind = .extension .guarded) (progress : Progress)
    (path : Path) (s : Scene) :
    (resumed node progress (path ++ [node.id])).play s = node.takeUp path.length s.actor.last s := by
  refine Visit.play_execute_childVerdict ?_ (by simp [onStack])
  rw [Visit.run]
  simp only [onStack, kind]
  rfl

namespace Runner

/-- In whatever state a runner is, and wherever such a decorator stands in what is resumed: if its deadline has
not come, it completes if and only if the frames above it do, which stand on a child of its own, and with their
verdict. If its deadline has come, it takes the verdict of the branch that was ticked before it in the same run,
and only without such a verdict there is an error. -/
theorem childVerdict_taken {source : Source} {check : Node → CheckM Unit} {registry : Registry} {cache : ExprCache}
    {name : String} {strict : Bool} {tree : Tree}
    (hosted : ∀ name kind, registry.get? name = some kind → kind.Hosted)
    (loaded : (source.loadWith check registry cache name strict).1 = .ok tree) (caller : Nat) (target : Target)
    (debug : Bool) (before : Context) (actions : List HostAction) :
    let runner := ((Runner.new tree (.newWith caller target debug)).performAll before actions).1
    ∀ ctx turn, runner.Resumes ctx turn → ∀ below node progress deadline above,
      turn.stack = below ++ .mk node progress deadline :: above → node.kind = .extension .guarded →
      (∀ frame ∈ below, frame.isDue turn.now = false) →
        turn.played = (rise below (resumeAt (.mk node progress deadline :: above)) []).play turn.scene ∧
        (∃ child ∈ node.children, Stands above child) ∧
        ∀ path, (resumeAt (.mk node progress deadline :: above) path).play turn.scene =
          if (Frame.mk node progress deadline).isDue turn.now then
            node.takeUp path.length (turn.since.getD .running) (turn.scene.cut node above)
          else (Frame.mk node progress deadline).passOn path.length
            ((resumeAt above (path ++ [node.id])).play turn.scene) := by
  intro runner ctx turn resumes below node progress deadline above layers kind early
  have upright : runner.Upright := Source.upright_load hosted loaded caller target debug before actions
  have standing := upright.resumes resumes
  obtain ⟨-, keeps, -, higher⟩ := standing.layer layers
  rw [kind] at keeps
  obtain ⟨-, -, busy⟩ := keeps
  refine ⟨turn.played_eq layers early, higher.resolve_left busy, fun path => ?_⟩
  split
  · rename_i due
    rw [play_due due, play_resumed_guarded kind, Scene.actor_cut, standing.last]
  · rename_i early
    exact play_passOn (Bool.eq_false_iff.mpr early) busy fun verdict t _ => play_resumed_guarded kind progress path t

end Runner

/-! ### An errand -/

/-- The built-in types, and the decorator by which a host limits the time of a child. -/
def Registry.guarded : Registry := Registry.builtin.register (.extension .guarded)

theorem Registry.hosted_guarded (name : String) (kind : Kind) (known : Registry.guarded.get? name = some kind) :
    kind.Hosted := by
  rw [show Registry.guarded.get? name = _ from Registry.get?_register _ _ _] at known
  split at known
  · cases known
    rintro e ⟨⟩
    rfl
  · exact Registry.hosted_builtin known

/-- Repeats what can be done only once, and lets something else run beside it for a limited time. -/
def errandSource (limit : Float) : Source :=
  [{ name := "errand"
     root :=
      { name := "Parallel"
        children :=
          [{ name := "RepeatUntilFailure", children := [{ name := "Once", children := [{ name := "Clear" }] }] },
            { name := "Guarded", args := [("time", .number limit)]
              children := [{ name := "AlwaysRunning", children := [{ name := "Clear" }] }] }] } }]

namespace errand

/-- Repeats a Once node until it refuses to be done again. -/
def tries : Node :=
  { id := 2, kind := .repeatUntil .failure, name := "RepeatUntilFailure", desc := "", args := [], input := []
    output := []
    children :=
      [{ id := 3, kind := .once, name := "Once", desc := "", args := [], input := [], output := []
         children := [clearLeaf 4] }] }

/-- A node that never completes. -/
def busy : Node :=
  { id := 6, kind := .alwaysRunning, name := "AlwaysRunning", desc := "", args := [], input := [], output := []
    children := [clearLeaf 7] }

/-- A busy node under a time limit of the host. -/
def limited (limit : Float) : Node :=
  { id := 5, kind := .extension .guarded, name := "Guarded", desc := "", args := [("time", .number limit)]
    input := [], output := [], children := [busy] }

end errand

def errand (limit : Float) : Tree where
  name := "errand"
  desc := ""
  root :=
    { id := 1, kind := .parallel, name := "Parallel", desc := "", args := [], input := [], output := []
      children := [errand.tries, errand.limited limit] }

theorem load_errand (limit : Float) :
    (errandSource limit).loadWith Node.check Registry.guarded [] "errand" true = (.ok (errand limit), []) := by
  cbv

namespace errand

variable (limit : Float) (ctx : Context) (deadline : Float)

/-- The second child is busy, up to this deadline. -/
def frames : List Frame := [.mk (limited limit) .entered (some deadline), .mk busy (.restarting false) none]

/-- What the children have come to after one tick. -/
def branches : List Branch := [.active [.mk tries (.attempt 1 false) none], .active (frames limit deadline)]

/-- Has been run once. -/
def runner : Runner :=
  .new (errand limit) { Actor.newWith 1 .everyone false with
    completed := [3], stack := [.mk (errand limit).root (.branches (branches limit deadline)) none]
    last := .running, status := .running }

/-- Is run once, and some time passes. -/
def begun (dt : Float) : Runner × Context :=
  (Runner.new (errand limit) (.newWith 1 .everyone false)).performAll (.new Registry.guarded)
    [.run, .context (·.advance dt)]

theorem begun_fst (dt : Float) : (begun limit dt).1 = runner limit (0.0 + limit) := by rfl

/-- What comes of the first child in the next run. -/
def tried : Except Fault (List Branch) × Scene :=
  (Visit.runTasks 1 ((branchTasks ((errand limit).root.children.map Node.tick) (branches limit deadline)).take 1)).play
    (((runner limit deadline).firstTurn ctx).scene.entered (errand limit).root 0)

theorem tried_fst : (tried limit ctx deadline).1 = .ok [.settled .success] := by cbv

/-- The turn of the second child, after the first one has succeeded. -/
def turn : Turn := ⟨frames limit deadline, (tried limit ctx deadline).2, some .success⟩

theorem resumes_turn (goesOn : (runner limit deadline).isCancelled ctx = false) :
    (runner limit deadline).Resumes ctx (turn limit ctx deadline) := by
  have opens : ((runner limit deadline).firstTurn ctx).Opens (turn limit ctx deadline) :=
    @Turn.Opens.branch _ [] _ _ (branches limit deadline) [.settled .success] 1 _
      (fun frame member => by rw [List.mem_singleton.mp member]; rfl) rfl rfl (Prod.ext (tried_fst limit ctx deadline) rfl)
  exact ⟨goesOn, List.cons_ne_nil _ _, .single opens⟩

end errand

open errand in
/-- The busy child never completes; yet twice the time after it has begun, the node that limits it takes the success
of the other branch for the child's. -/
theorem Runner.childVerdict_taken_errand :
    (∀ name kind, Registry.guarded.get? name = some kind → kind.Hosted) ∧
      ((errandSource 1.0).loadWith Node.check Registry.guarded [] "errand" true).1 = .ok (errand 1.0) ∧
      let turn := errand.turn 1.0 (begun 1.0 2.0).2 (0.0 + 1.0)
      (begun 1.0 2.0).1.Resumes (begun 1.0 2.0).2 turn ∧
        (Frame.mk (limited 1.0) .entered (some (0.0 + 1.0))).isDue turn.now = true ∧
          turn.played.1 = .ok (.done .success) := by
  have loaded : ((errandSource 1.0).loadWith Node.check Registry.guarded [] "errand" true).1 = .ok (errand 1.0) := by
    rw [load_errand]
  have resumes := resumes_turn 1.0 (begun 1.0 2.0).2 (0.0 + 1.0) rfl
  rw [← begun_fst 1.0 2.0] at resumes
  have due : (Frame.mk (limited 1.0) .entered (some (0.0 + 1.0))).isDue (0.0 + 2.0) = true := by decide +kernel
  refine ⟨Registry.hosted_guarded, loaded, resumes, due, ?_⟩
  obtain ⟨played, -, takes⟩ := Runner.childVerdict_taken Registry.hosted_guarded loaded 1 .everyone false
    (.new Registry.guarded) [.run, .context (·.advance 2.0)] _ _ resumes [] (limited 1.0) .entered (some (0.0 + 1.0))
    [.mk busy (.restarting false) none] rfl rfl (List.forall_mem_nil _)
  have took := takes []
  rw [if_pos (by exact due)] at took
  rw [played, rise, took]
  exact congrArg Prod.fst (Node.takeUp_verdict _ _ .success _)

end BehaviorTree
