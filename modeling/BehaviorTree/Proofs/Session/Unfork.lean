import BehaviorTree.Proofs.Descent.Refinement
import BehaviorTree.Proofs.Descent.Unfork

/-!
AlwaysSuccess in the place of Parallel nodes with one child, over any schedule. A host that does not debug and is not
told how many nodes are on the stack cannot tell the two trees apart: runs answer the same, the stages of each run
come in the same order, and after every action it finds the same variables, statuses and completed Once nodes, and
the same listeners on the bus.
-/

namespace BehaviorTree

open Descent

/-- What a host sees if it is not told how many nodes are on the stack. -/
def Observation.flat (seen : Observation) : Observation := { seen with context := seen.context.flat }

/-- Debugging stays off, and what is done to the context does not depend on how many nodes were on the stack. -/
def HostAction.IsFlat : HostAction → Prop
  | .context change => ∀ ctx ctx' : Context, ctx'.flat = ctx.flat → (change ctx').flat = (change ctx).flat
  | .setDebug debug => debug = false
  | _ => True

/-- So is what comes to the same in a flat context. -/
theorem HostAction.IsFlat.of_commutes {change : Context → Context}
    (commutes : ∀ ctx : Context, (change ctx).flat = change ctx.flat) : (HostAction.context change).IsFlat :=
  fun ctx ctx' same => by rw [commutes, commutes, same]

theorem Tree.Built.unfork {tree : Tree} (built : tree.Built) (chosen : Nat → Bool) : (tree.unfork chosen).Built where
  shaped := built.shaped.unfork
  nodup := by
    rw [Tree.unfork, Node.ids_unfork]
    exact built.nodup

/-! ### What a runner does to a flat context -/

namespace Runner

variable (runner : Runner) (ctx : Context)

theorem flat_announce (stage : Stage) (depth : Nat) :
    (runner.announce stage depth ctx).flat = runner.announce stage 0 ctx.flat := by
  rw [announce, announce]
  generalize runner.followers.filter (fun follower => follower.1 = stage) = followers
  induction followers generalizing ctx with
  | nil => rfl
  | cons follower rest ih =>
    rw [List.foldl_cons, List.foldl_cons, ih, Context.flat_obey, Context.flat_note]
    rfl

theorem flat_complete (verdict : Verdict) :
    (runner.complete ctx verdict).2.2.flat = (runner.complete ctx.flat verdict).2.2 := by
  cases verdict <;> simp only [complete, Context.flat_dropRequest, flat_announce]

theorem flat_report (fault : Fault) : (runner.report ctx fault).flat = runner.report ctx.flat ⟨fault.error, 0⟩ := by
  obtain ⟨error, depth⟩ := fault
  cases error with
  | assertion id message => exact (flat_announce runner _ _ _).trans (congrArg _ (ctx.flat_note _))
  | _ => exact ctx.flat_note _

end Runner

/-! ### Two walkers -/

namespace Descent.Walker

/-- Two walkers for one actor, in contexts that are the same when flat. The second one has AlwaysSuccess in the place
of the chosen Parallel nodes with one child. -/
structure Matched (chosen : Nat → Bool) (walker walker' : Walker) (ctx ctx' : Context) : Prop where
  runner : walker'.runner = { walker.runner with tree := walker.runner.tree.unfork chosen }
  active : Option.Rel (Unforked chosen walker.runner.tree.root) walker.active walker'.active
  silent : walker.runner.actor.debug = false
  context : ctx'.flat = ctx.flat

variable {chosen : Nat → Bool} {walker walker' : Walker} {ctx ctx' : Context}

/-- Nothing is active any more. -/
theorem matched_of_none {runner : Runner} (silent : runner.actor.debug = false) (context : ctx'.flat = ctx.flat) :
    Matched chosen ⟨runner, none⟩ ⟨{ runner with tree := runner.tree.unfork chosen }, none⟩ ctx ctx' :=
  ⟨rfl, .none, silent, context⟩

theorem Matched.isRunning (matched : Matched chosen walker walker' ctx ctx') :
    walker'.isRunning = walker.isRunning := by
  obtain ⟨runner, active⟩ := walker
  obtain ⟨_, active'⟩ := walker'
  obtain ⟨rfl, related, -, -⟩ := matched
  cases related <;> rfl

theorem Matched.dropRequest (matched : Matched chosen walker walker' ctx ctx') (caller : Nat) :
    Matched chosen walker walker' (ctx.dropRequest caller) (ctx'.dropRequest caller) :=
  { matched with context := (congrArg (Context.dropRequest · caller) matched.context :) }

/-- Giving up keeps matched walkers matched. -/
theorem Matched.abort (matched : Matched chosen walker walker' ctx ctx') :
    Matched chosen (walker.abort ctx).1 (walker'.abort ctx').1 (walker.abort ctx).2 (walker'.abort ctx').2 := by
  obtain ⟨runner, active⟩ := walker
  obtain ⟨_, active'⟩ := walker'
  obtain ⟨rfl, -, silent, context⟩ := matched
  refine matched_of_none silent ?_
  simp only [Walker.abort, Walker.unwind, Runner.unwind, Context.flat_unsubscribeAll, Runner.flat_announce,
    Context.flat_note, context]
  rfl

/-- Completing keeps matched walkers matched. -/
theorem Matched.complete {runner : Runner} (silent : runner.actor.debug = false) (context : ctx'.flat = ctx.flat)
    (verdict : Verdict) :
    Matched chosen (Walker.complete runner ctx verdict).2.1
      (Walker.complete { runner with tree := runner.tree.unfork chosen } ctx' verdict).2.1
      (Walker.complete runner ctx verdict).2.2
      (Walker.complete { runner with tree := runner.tree.unfork chosen } ctx' verdict).2.2 := by
  refine ⟨rfl, .none, silent, ?_⟩
  have completed (runner : Runner) (ctx : Context) :
      (Walker.complete runner ctx verdict).2.2 = (runner.complete ctx verdict).2.2 := rfl
  rw [completed, completed, Runner.flat_complete, Runner.flat_complete, context]
  rfl

/-- Ticking the root comes to the same in either tree. -/
theorem Matched.tickRoot (matched : Matched chosen walker walker' ctx ctx')
    (shaped : walker.runner.tree.root.Every Node.Shaped) :
    (∃ report report' s t, walker.tickRoot ctx = (.ok report, s) ∧ walker'.tickRoot ctx' = (.ok report', t) ∧
        UnforkedReport chosen walker.runner.tree.root report report' ∧ s.Akin t) ∨
      ∃ fault fault' s t, walker.tickRoot ctx = (.error fault, s) ∧ walker'.tickRoot ctx' = (.error fault', t) ∧
        fault'.error = fault.error ∧ s.Akin t := by
  obtain ⟨runner, active⟩ := walker
  obtain ⟨_, active'⟩ := walker'
  obtain ⟨rfl, related, silent, context⟩ := matched
  have opened : (if active'.isNone then runner.announce .beforeRun 0 ctx' else ctx').flat =
      (if active.isNone then runner.announce .beforeRun 0 ctx else ctx).flat := by
    cases related with
    | none => exact (runner.flat_announce ctx' _ 0).trans (context ▸ (runner.flat_announce ctx _ 0).symm)
    | some _ => exact context
  exact (unforks runner.tree.root shaped active active' [] [] related).ends ⟨silent, rfl, opened⟩

/-- The end of a run keeps matched walkers matched, with the same answer. -/
theorem Matched.conclude (matched : Matched chosen walker walker' ctx ctx')
    (shaped : walker.runner.tree.root.Every Node.Shaped) :
    let ended := walker.conclude (walker.tickRoot ctx).1 (walker.tickRoot ctx).2
    let ended' := walker'.conclude (walker'.tickRoot ctx').1 (walker'.tickRoot ctx').2
    ended'.1 = ended.1 ∧ Matched chosen ended.2.1 ended'.2.1 ended.2.2 ended'.2.2 := by
  have ticks := matched.tickRoot shaped
  obtain ⟨runner, active⟩ := walker
  obtain ⟨_, active'⟩ := walker'
  obtain ⟨rfl, -, -, -⟩ := matched
  rcases ticks with ⟨report, report', s, ⟨after', _⟩, ticked, ticked', reported, silent, rfl, context⟩ |
    ⟨fault, fault', s, ⟨after', _⟩, ticked, ticked', same, silent, rfl, context⟩ <;> rw [ticked, ticked']
  · cases reported with
    | done verdict => exact ⟨by cases verdict <;> rfl, Matched.complete silent context verdict⟩
    | running below => exact ⟨rfl, rfl, .some below, silent, context⟩
  · -- The error is reported, and what was running is abandoned.
    let failed : Runner := { runner with actor := s.actor }
    have left : ((failed.report after' fault').unsubscribeAll s.actor.caller).flat =
        ((failed.report s.context fault).unsubscribeAll s.actor.caller).flat := by
      rw [Context.flat_unsubscribeAll, Context.flat_unsubscribeAll, Runner.flat_report, Runner.flat_report, same,
        context]
    exact ⟨rfl, Matched.complete silent left .failure⟩

/-- A run keeps matched walkers matched, with the same answer. -/
theorem Matched.run (matched : Matched chosen walker walker' ctx ctx')
    (shaped : walker.runner.tree.root.Every Node.Shaped) :
    (walker'.run ctx').1 = (walker.run ctx).1 ∧
      Matched chosen (walker.run ctx).2.1 (walker'.run ctx').2.1 (walker.run ctx).2.2 (walker'.run ctx').2.2 := by
  have caller : walker'.runner.actor.caller = walker.runner.actor.caller := by rw [matched.runner]
  have pending : ctx'.isPending walker.runner.actor.caller = ctx.isPending walker.runner.actor.caller :=
    (congrArg (Context.isPending · walker.runner.actor.caller) matched.context :)
  rw [Walker.run, Walker.run, matched.isRunning, caller, pending]
  simp only
  split
  · exact ⟨rfl, (matched.dropRequest walker.runner.actor.caller).abort⟩
  · exact (matched.dropRequest walker.runner.actor.caller).conclude shaped

/-- An interrupt keeps matched walkers matched. -/
theorem Matched.interrupt (matched : Matched chosen walker walker' ctx ctx') :
    Matched chosen (walker.interrupt ctx).1 (walker'.interrupt ctx').1 (walker.interrupt ctx).2
      (walker'.interrupt ctx').2 := by
  have caller : walker'.runner.actor.caller = walker.runner.actor.caller := by rw [matched.runner]
  rw [Walker.interrupt, Walker.interrupt, matched.isRunning, caller]
  split
  · exact (matched.dropRequest walker.runner.actor.caller).abort
  · exact matched

/-- What clearing does once nothing runs. -/
def renew (walker : Walker) (ctx : Context) : Walker × Context :=
  let caller := walker.runner.actor.caller
  let actor := { walker.runner.actor.clearTemporaries.clearVars with stack := [], completed := [], status := .idle }
  (⟨{ walker.runner with actor }, none⟩, ((ctx.unsubscribeAll caller).dropRequest caller).offCaller caller)

theorem clear_eq (walker : Walker) (ctx : Context) :
    walker.clear ctx =
      if walker.runner.actor.status = .running then (walker.interrupt ctx).1.renew (walker.interrupt ctx).2
      else walker.renew ctx := by
  by_cases running : walker.runner.actor.status = .running
  · rw [Walker.clear, if_pos running, if_pos running]
    rfl
  · rw [Walker.clear, if_neg running, if_neg running]
    rfl

theorem Matched.renew (matched : Matched chosen walker walker' ctx ctx') :
    Matched chosen (walker.renew ctx).1 (walker'.renew ctx').1 (walker.renew ctx).2 (walker'.renew ctx').2 := by
  obtain ⟨runner, active⟩ := walker
  obtain ⟨_, active'⟩ := walker'
  obtain ⟨rfl, -, silent, context⟩ := matched
  refine matched_of_none silent ?_
  simp only [Walker.renew, Context.flat_offCaller, Context.flat_dropRequest, Context.flat_unsubscribeAll, context]

theorem Matched.clear (matched : Matched chosen walker walker' ctx ctx') :
    Matched chosen (walker.clear ctx).1 (walker'.clear ctx').1 (walker.clear ctx).2 (walker'.clear ctx').2 := by
  have status : walker'.runner.actor.status = walker.runner.actor.status := by rw [matched.runner]
  rw [clear_eq, clear_eq, status]
  split
  · exact matched.interrupt.renew
  · exact matched.renew

/-- Whatever a host does with either tree comes to the same, and so on. -/
theorem Matched.perform (matched : Matched chosen walker walker' ctx ctx')
    (shaped : walker.runner.tree.root.Every Node.Shaped) {action : HostAction} (flat : action.IsFlat) :
    (walker'.perform ctx' action).1 = (walker.perform ctx action).1 ∧
      Matched chosen (walker.perform ctx action).2.1 (walker'.perform ctx' action).2.1
        (walker.perform ctx action).2.2 (walker'.perform ctx' action).2.2 := by
  obtain ⟨runner, active⟩ := walker
  obtain ⟨_, active'⟩ := walker'
  cases action with
  | run =>
    obtain ⟨answer, after⟩ := matched.run shaped
    exact ⟨congrArg some answer, after⟩
  | interrupt => exact ⟨rfl, matched.interrupt⟩
  | clear => exact ⟨rfl, matched.clear⟩
  | context change => exact ⟨rfl, { matched with context := flat ctx ctx' matched.context }⟩
  | setDebug debug =>
    obtain ⟨rfl, related, -, context⟩ := matched
    exact ⟨rfl, rfl, related, flat, context⟩
  | vars | follow =>
    obtain ⟨rfl, related, silent, context⟩ := matched
    exact ⟨rfl, rfl, related, silent, context⟩

/-- A host sees the same of either tree, whatever it does. -/
theorem Matched.trace (matched : Matched chosen walker walker' ctx ctx')
    (shaped : walker.runner.tree.root.Every Node.Shaped) (actions : List HostAction)
    (flat : ∀ action ∈ actions, action.IsFlat) :
    (walker'.trace ctx' actions).map Observation.flat = (walker.trace ctx actions).map Observation.flat := by
  induction actions generalizing walker walker' ctx ctx' with
  | nil => rfl
  | cons action rest ih =>
    obtain ⟨answer, after⟩ := matched.perform shaped (flat action List.mem_cons_self)
    have later := ih after (by rw [tree_perform]; exact shaped) fun action member =>
      flat action (List.mem_cons_of_mem _ member)
    have seen : ((walker'.perform ctx' action).2.1.runner.actor.observed (walker'.perform ctx' action).1
        (walker'.perform ctx' action).2.2).flat =
          ((walker.perform ctx action).2.1.runner.actor.observed (walker.perform ctx action).1
            (walker.perform ctx action).2.2).flat := by
      rw [answer, after.runner, Observation.flat, Observation.flat, Actor.observed, Actor.observed, after.context]
    rw [Walker.trace, Walker.trace, List.map_cons, List.map_cons]
    exact congrArg₂ List.cons seen later

end Descent.Walker

/-- AlwaysSuccess may stand in the place of any Parallel nodes of a loaded tree that have one child. Whatever a host
does with either tree, it sees the same after every action: the answers of runs, the status, all variables, what was
recorded last, the completed Once nodes, and the context with all listeners, requests and notes, the stages of every
run among them. Only how many nodes were on the stack is left out, and nothing is debugged. -/
theorem Runner.trace_unfork (source : Source) (cache : ExprCache) (name : String) (strict : Bool) (tree : Tree)
    (loaded : (source.load Registry.builtin cache name strict).1 = .ok tree) (chosen : Nat → Bool) (caller : Nat)
    (target : Target) (ctx : Context) (actions : List HostAction) (flat : ∀ action ∈ actions, action.IsFlat) :
    ((Runner.new (tree.unfork chosen) (.newWith caller target false)).trace ctx actions).map Observation.flat =
      ((Runner.new tree (.newWith caller target false)).trace ctx actions).map Observation.flat := by
  have built := Source.built_load loaded
  have descends {tree : Tree} (built : tree.Built) :
      (Runner.new tree (.newWith caller target false)).trace ctx actions =
        (Walker.new tree (.newWith caller target false)).trace ctx actions :=
    Walker.trace_layout built (Walker.valid_new tree caller target false) ctx actions
  rw [descends built, descends (built.unfork chosen)]
  exact Walker.Matched.trace ⟨rfl, .none, rfl, rfl⟩ built.shaped actions flat

/-! ### A shelter -/

/-- Waits for a call under two covers, but not for long. -/
def shelterSource (cover : String) (limit : Float) : Source :=
  [{ name := "shelter"
     root :=
      { name := cover
        children :=
          [{ name := "Timeout", args := [("time", .number limit)]
             children :=
              [{ name := cover
                 children :=
                  [{ name := "ListenTree", args := [("event", .text "call")]
                     children := [{ name := "Clear" }] }] }] }] } }]

def shelter (limit : Float) : Tree where
  name := "shelter"
  desc := ""
  root :=
    { id := 1, kind := .parallel, name := "Parallel", desc := "", args := [], input := [], output := []
      children :=
        [{ id := 2, kind := .timeout, name := "Timeout", desc := "", args := [("time", .number limit)], input := []
           output := []
           children :=
            [{ id := 3, kind := .parallel, name := "Parallel", desc := "", args := [], input := [], output := []
               children :=
                [{ id := 4, kind := .listenTree, name := "ListenTree", desc := "", args := [("event", .text "call")]
                   input := [], output := [], children := [clearLeaf 5] }] }] }] }

theorem load_shelter (limit : Float) :
    (shelterSource "Parallel" limit).load Registry.builtin [] "shelter" true = (.ok (shelter limit), []) := by
  cbv

/-- With the other covers it is the tree in which both Parallel nodes have given way. -/
theorem load_unfork_shelter (limit : Float) :
    (shelterSource "AlwaysSuccess" limit).load Registry.builtin [] "shelter" true =
      (.ok ((shelter limit).unfork fun _ => true), []) := by
  cbv

/-- A call comes, then the time is up. The shelter is entered twice more and left when that is asked for. -/
def shelter.stay : List HostAction :=
  [.follow .interrupted ⟨"left", []⟩, .run, .context fun ctx => (ctx.dispatch "call" .everyone []).2, .run,
    .context (·.advance 2.0), .run, .run, .context (·.request 1), .run, .vars (·.set "cold" (.bool true)), .run,
    .interrupt, .clear]

theorem shelter.isFlat_stay : ∀ action ∈ stay, action.IsFlat := by
  have called := HostAction.IsFlat.of_commutes fun ctx => ctx.flat_dispatch "call" .everyone []
  have waited : (HostAction.context (·.advance 2.0)).IsFlat := .of_commutes fun _ => rfl
  have asked := HostAction.IsFlat.of_commutes fun ctx => ctx.flat_request 1
  simp only [stay, List.forall_mem_cons]
  exact ⟨trivial, trivial, called, trivial, waited, trivial, trivial, asked, trivial, trivial, trivial, trivial,
    trivial, nofun⟩

theorem Runner.trace_unfork_shelter :
    ((shelterSource "Parallel" 1.0).load Registry.builtin [] "shelter" true).1 = .ok (shelter 1.0) ∧
      ((shelterSource "AlwaysSuccess" 1.0).load Registry.builtin [] "shelter" true).1 =
          .ok ((shelter 1.0).unfork fun _ => true) ∧
        ((Runner.new ((shelter 1.0).unfork fun _ => true) (.newWith 1 .everyone false)).trace (.new Registry.builtin)
            shelter.stay).map Observation.flat =
          ((Runner.new (shelter 1.0) (.newWith 1 .everyone false)).trace (.new Registry.builtin)
            shelter.stay).map Observation.flat := by
  have loaded := congrArg Prod.fst (load_shelter 1.0)
  exact ⟨loaded, congrArg Prod.fst (load_unfork_shelter 1.0),
    Runner.trace_unfork _ _ _ _ _ loaded (fun _ => true) 1 .everyone _ shelter.stay shelter.isFlat_stay⟩

end BehaviorTree
