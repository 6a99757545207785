import BehaviorTree.Proofs.Lifecycle.Followers
import BehaviorTree.Proofs.Lifecycle.Hushed
import BehaviorTree.Proofs.Lifecycle.Rounds
import Mathlib.Data.List.DropRight

/-!
When requests take effect. A request counts until the run after it, and only if the run that has begun
last has left the tree running and the host has not interrupted or cleared the runner since; then the
next run abandons the tree. All other requests could as well not have been made.
-/

namespace BehaviorTree

open Context (Accounts Named gather)

/-! ### Whom runners ask for -/

namespace Context

end Context

/-- Whom hosts ask for when they carry out what they are charged with. -/
def askedIn (charges : List Charge) : List String := charges.flatMap fun charge => charge.1.askedObeying charge.2

namespace Runner

variable (runner : Runner)

/-- Whom a run asks for. -/
def askedRunning (ctx : Context) : List String :=
  askedIn (runner.chargesBefore ctx ++ runner.chargesAfter ctx)

/-- Whom an interrupt asks for. -/
def askedInterrupting (ctx : Context) : List String := askedIn (runner.chargesInterrupting ctx)

variable {runner} {own : String → Bool} {caller : Nat} {ctx : Context}

/-- Telling followers makes the requests that they ask for in turn. -/
theorem accounts_announce (runner : Runner) (stage : Stage) (depth : Nat) (named : ctx.Named own caller) :
    Accounts own caller ctx (runner.announce stage depth ctx) (askedIn (runner.chargesAt stage depth ctx)) := by
  rw [askedIn, chargesAt, Context.flatMap_gather]
  refine .gather (fun {ctx} follower named => ?_) _ named
  have told : Accounts own caller ctx
      (ctx.note (.followed stage follower.2.tag depth runner.actor.status runner.actor.last)) [] :=
    .of_same named rfl rfl
  rw [List.flatMap_singleton]
  exact told.trans (.obey follower.2.orders told.named)

end Runner

/-! ### Hosts and their runners -/

/-- What a host does with a runner and to its context. -/
inductive Doing where
  | run
  | interrupt
  | clear
  /-- Asks for an interrupt. -/
  | request
  /-- Carries out orders: dispatches events, registers and removes listeners, moves the clock. -/
  | obey (orders : List Order)
  /-- Writes to the variables. -/
  | write (change : Blackboard → Blackboard)
  | follow (stage : Stage) (reaction : Reaction)

/-- The action that a doing of the host comes to for a runner of this caller. -/
def Doing.action (caller : Nat) : Doing → HostAction
  | .run => .run
  | .interrupt => .interrupt
  | .clear => .clear
  | .request => .context (·.request caller)
  | .obey orders => .context (·.obey orders)
  | .write change => .vars change
  | .follow stage reaction => .follow stage reaction

/-- What matters to requests. -/
inductive Moment where
  /-- A run begins. -/
  | began
  /-- An interrupt is asked for. -/
  | requested
  /-- A run ends with an answer. -/
  | returned (status : TreeStatus)
  /-- The host interrupts the runner. -/
  | interrupted
  /-- The host clears the runner. -/
  | cleared
deriving DecidableEq

namespace Moment

/-- All moments since the last run began. -/
def recent (history : List Moment) : List Moment := history.rtakeWhile (· ≠ .began)

/-- The last run has left the tree running, and it is still. -/
def Live (history : List Moment) : Prop :=
  .returned .running ∈ recent history ∧ .interrupted ∉ recent history ∧ .cleared ∉ recent history

/-- A request was made after the last run began, the tree was left running, and it is still. -/
def Due (history : List Moment) : Prop := .requested ∈ recent history ∧ Live history

instance (history : List Moment) : Decidable (Live history) := inferInstanceAs (Decidable (_ ∧ _ ∧ _))

instance (history : List Moment) : Decidable (Due history) := inferInstanceAs (Decidable (_ ∧ _))

variable {history later : List Moment}

theorem recent_append (within : .began ∉ later) : recent (history ++ later) = recent history ++ later := by
  induction later using List.reverseRecOn with
  | nil => rw [List.append_nil, List.append_nil]
  | append_singleton before last ih =>
    rw [List.mem_append, List.mem_singleton, not_or] at within
    have other : last ≠ .began := Ne.symm within.2
    rw [recent, ← List.append_assoc, List.rtakeWhile_concat, if_pos (decide_eq_true other), ← List.append_assoc]
    exact congrArg (· ++ [last]) (ih within.1)

theorem recent_began (within : .began ∉ later) : recent (history ++ .began :: later) = later := by
  have none : recent (history ++ [.began]) = [] := List.rtakeWhile_concat_neg _ _ _ (by simp)
  rw [List.append_cons, recent_append within, none, List.nil_append]

theorem began_not_mem (only : ∀ moment ∈ later, moment = .requested) : .began ∉ later := by
  intro member
  cases only _ member

/-- Requests leave a tree running. -/
theorem live_append (only : ∀ moment ∈ later, moment = .requested) : Live (history ++ later) ↔ Live history := by
  have absent {moment : Moment} (other : moment ≠ .requested) : moment ∉ later := fun member => other (only _ member)
  simp [Live, recent_append (began_not_mem only), absent]

theorem requested_append (only : ∀ moment ∈ later, moment = .requested) :
    .requested ∈ recent (history ++ later) ↔ .requested ∈ recent history ∨ .requested ∈ later := by
  rw [recent_append (began_not_mem only), List.mem_append]

/-- A tree that is interrupted or cleared is no longer running. -/
theorem not_live {stop : Moment} (stops : stop = .interrupted ∨ stop = .cleared)
    (only : ∀ moment ∈ later, moment = .requested) : ¬ Live (history ++ stop :: later) := by
  have within : .began ∉ stop :: later := by
    rcases stops with rfl | rfl <;> simp [began_not_mem only]
  rw [Live, recent_append within]
  rcases stops with rfl | rfl <;> simp

/-- A run leaves a tree running just if it says so. -/
theorem live_returned (only : ∀ moment ∈ later, moment = .requested) {status : TreeStatus} :
    Live (history ++ .began :: later ++ [.returned status]) ↔ status = .running := by
  have absent {moment : Moment} (other : moment ≠ .requested) : moment ∉ later := fun member => other (only _ member)
  have within : .began ∉ later ++ [.returned status] := by simp [began_not_mem only]
  rw [Live, List.append_assoc, List.cons_append, recent_began within]
  simp [absent, eq_comm]

theorem requested_returned (only : ∀ moment ∈ later, moment = .requested) {status : TreeStatus} :
    .requested ∈ recent (history ++ .began :: later ++ [.returned status]) ↔ .requested ∈ later := by
  have within : .began ∉ later ++ [.returned status] := by simp [began_not_mem only]
  rw [List.append_assoc, List.cons_append, recent_began within]
  simp

end Moment

/-- A request for each of the caller's own actors that was asked for. -/
def requests (own : String → Bool) (names : List String) : List Moment :=
  (names.filter own).map fun _ => .requested

theorem requested_mem_requests {own : String → Bool} {names : List String} :
    .requested ∈ requests own names ↔ names.any own = true := by
  simp [requests]

theorem eq_of_mem_requests (own : String → Bool) (names : List String) :
    ∀ moment ∈ requests own names, moment = .requested := by
  intro moment member
  obtain ⟨-, -, rfl⟩ := List.mem_map.mp member
  rfl

namespace Runner

/-- What a host does brings about these moments. -/
def moments (own : String → Bool) (runner : Runner) (ctx : Context) : Doing → List Moment
  | .run => .began :: requests own (runner.askedRunning ctx) ++ [.returned (runner.run ctx).1]
  | .interrupt => .interrupted :: requests own (runner.askedInterrupting ctx)
  | .clear => .cleared :: requests own (runner.askedInterrupting ctx)
  | .request => [.requested]
  | .obey orders => requests own (ctx.askedObeying orders)
  | .write _ => []
  | .follow _ _ => []

/-- The runner and its context once a host has done something. -/
def act (runner : Runner) (ctx : Context) (doing : Doing) : Option TreeStatus × Runner × Context :=
  runner.perform ctx (doing.action runner.actor.caller)

/-- The answers of the runs among what a host does, and what is left in the end. -/
def actAll (runner : Runner) (ctx : Context) : List Doing → List TreeStatus × Runner × Context
  | [] => ([], runner, ctx)
  | doing :: rest =>
    let (answer, runner, ctx) := runner.act ctx doing
    let (answers, last) := runner.actAll ctx rest
    (answer.toList ++ answers, last)

/-- All that has come about by what a host does. -/
def history (own : String → Bool) (runner : Runner) (ctx : Context) : List Doing → List Moment
  | [] => []
  | doing :: rest =>
    let (_, next, ctx') := runner.act ctx doing
    runner.moments own ctx doing ++ next.history own ctx' rest

end Runner

/-- What a host does without making requests. One that is due is made right before it takes effect. -/
def Doing.quiet (own : String → Bool) (due : Bool) : Doing → List Doing
  | .run => if due then [.request, .run] else [.run]
  | .request => []
  | .obey orders => [.obey (hushedAll own orders)]
  | .follow stage reaction => [.follow stage (reaction.hushed own)]
  | doing => [doing]

/-- What a host does, less all requests but those that are due. -/
def Runner.quiet (own : String → Bool) (runner : Runner) (ctx : Context) (past : List Moment) : List Doing → List Doing
  | [] => []
  | doing :: rest =>
    let (_, next, ctx') := runner.act ctx doing
    doing.quiet own (decide (Moment.Due past)) ++ next.quiet own ctx' (past ++ runner.moments own ctx doing) rest

/-! ### Requests that are due -/

namespace Runner

open Moment (Live Due recent)

variable {own : String → Bool} {runner : Runner} {ctx : Context} {cache : ExprCache} {past : List Moment}

/-- What the moments so far say about a runner. -/
structure Tally (runner : Runner) (ctx : Context) (past : List Moment) : Prop where
  live : runner.actor.status = .running ↔ Live past
  pending : runner.actor.status = .running →
    (ctx.isPending runner.actor.caller = true ↔ .requested ∈ recent past)

/-- What a run sees of requests is that one is due. -/
theorem Tally.cancelled_iff (tally : runner.Tally ctx past) (ready : runner.Ready cache) :
    runner.isCancelled ctx = true ↔ Due past := by
  rw [isCancelled, Bool.and_eq_true, ready.isRunning_iff, Due, ← tally.live]
  exact and_congr_left tally.pending

theorem Tally.still (done : runner.actor.status ≠ .running) (dead : ¬ Live past) : runner.Tally ctx past :=
  ⟨iff_of_false done dead, fun running => absurd running done⟩

/-- The answer of a run is the status that it leaves. -/
theorem status_run (runner : Runner) (ctx : Context) : (runner.run ctx).2.1.actor.status = (runner.run ctx).1 := by
  rw [run_eq]
  split
  · rfl
  · generalize runner.tickNodes (ctx.dropRequest runner.actor.caller) = ticked
    obtain ⟨fault | (verdict | frames), scene⟩ := ticked <;> rfl

/-- Nodes make no requests; those that are pending after the ticks were made when the run began. -/
theorem Ready.pending_ticks (ready : runner.Ready cache) (named : ctx.Named own runner.actor.caller)
    (going : ¬ runner.isCancelled ctx = true) :
    (runner.tickNodes (ctx.dropRequest runner.actor.caller)).2.context.isPending runner.actor.caller =
      (askedIn (runner.chargesBefore ctx)).any own := by
  have builtin := ready.shaped.mono fun _ shaped => shaped.builtin
  have effects := Descent.changes_tick runner.tree.root builtin (restore runner.actor.stack) []
    (runner.opening (ctx.dropRequest runner.actor.caller))
  have kept := effects.requests
  rw [ready.tickNodes_eq, Context.isPending, kept, ← Context.isPending, opening, chargesBefore, if_neg going]
  split
  · have dropped : (ctx.dropRequest runner.actor.caller).Named own runner.actor.caller := named.congr rfl
    have told := accounts_announce runner .beforeRun 0 dropped
    rw [told.pending, Context.isPending_dropRequest_self, Bool.false_or]
  · exact Context.isPending_dropRequest_self ctx _

/-- A run keeps the tally of requests. -/
theorem Ready.tally_run (ready : runner.Ready cache) (named : ctx.Named own runner.actor.caller) :
    (runner.run ctx).2.1.Tally (runner.run ctx).2.2 (past ++ runner.moments own ctx .run) := by
  have ran := eq_of_mem_requests own (runner.askedRunning ctx)
  have live : Live (past ++ runner.moments own ctx .run) ↔ (runner.run ctx).1 = .running := by
    rw [moments, ← List.append_assoc]
    exact Moment.live_returned ran
  refine ⟨by rw [live, status_run], fun running => ?_⟩
  have calm : runner.chargesAfter ctx = [] := chargesAfter_eq_nil (by rw [← status_run]; exact running)
  rw [moments, ← List.append_assoc, Moment.requested_returned ran, requested_mem_requests, askedRunning, calm,
    List.append_nil]
  rw [run_eq] at running ⊢
  split at running
  · cases running
  · rename_i going
    rw [if_neg going]
    have pending := ready.pending_ticks named going
    have caller : (runner.tickNodes (ctx.dropRequest runner.actor.caller)).2.actor.caller = runner.actor.caller :=
      ready.caller_tickNodes
    generalize runner.tickNodes (ctx.dropRequest runner.actor.caller) = ticked at running pending caller ⊢
    obtain ⟨fault | (verdict | frames), scene⟩ := ticked
    · cases running
    · cases verdict <;> cases running
    · rw [← pending, ← caller]
      rfl

theorem Ready.status_interrupt (ready : runner.Ready cache) (ctx : Context) :
    (runner.interrupt ctx).1.actor.status ≠ .running := by
  rw [interrupt]
  split
  · rintro ⟨⟩
  · rename_i still
    exact fun running => still (ready.isRunning_iff.mpr running)

/-- Everything that is done keeps the tally of requests. -/
theorem Tally.act (tally : runner.Tally ctx past) (ready : runner.Ready cache)
    (named : ctx.Named own runner.actor.caller) (doing : Doing) :
    (runner.act ctx doing).2.1.Tally (runner.act ctx doing).2.2 (past ++ runner.moments own ctx doing) := by
  cases doing with
  | run => exact ready.tally_run named
  | interrupt => exact .still (ready.status_interrupt ctx) (Moment.not_live (.inl rfl) (eq_of_mem_requests _ _))
  | clear => exact .still (by rintro ⟨⟩) (Moment.not_live (.inr rfl) (eq_of_mem_requests _ _))
  | request =>
    have only : ∀ moment ∈ [Moment.requested], moment = .requested := fun _ member => List.mem_singleton.mp member
    refine ⟨tally.live.trans (Moment.live_append only).symm, fun _ => iff_of_true ?_ ?_⟩
    · exact Context.isPending_request_self ctx runner.actor.caller
    · exact (Moment.requested_append only).mpr (.inr List.mem_cons_self)
  | obey orders =>
    have only := eq_of_mem_requests own (ctx.askedObeying orders)
    have accounts := Accounts.obey orders named
    refine ⟨tally.live.trans (Moment.live_append only).symm, fun running => ?_⟩
    rw [moments, Moment.requested_append only, requested_mem_requests, ← tally.pending running, ← Bool.or_eq_true]
    exact Bool.eq_iff_iff.mp accounts.pending
  | write | follow => simpa [moments] using ⟨tally.live, tally.pending⟩

/-! ### Requests that are not -/

theorem steady_wired (caller : Nat) (followers : List (Stage × Reaction)) :
    Steady caller followers Context.Wired where
  note _ _ wired := wired.congr rfl rfl
  obey _ _ wired := (Context.stirs_obey _ _).wired wired
  dropRequest wired := wired.congr rfl rfl
  unwind wired := (Context.passage_unsubscribeAll wired _).wired

/-- One of two hosts of the same runner makes no requests but those that are due. -/
structure Beside (cache : ExprCache) (own : String → Bool) (past : List Moment) (one two : Runner × Context) : Prop where
  ready : one.1.Ready cache
  wired : one.2.Wired
  tally : one.1.Tally one.2 past
  agrees : Agrees own one two

/-- Everything that is done keeps the context wired. -/
theorem Ready.wired_act (ready : runner.Ready cache) (wired : ctx.Wired) (named : ctx.Named own runner.actor.caller)
    (doing : Doing) : (runner.act ctx doing).2.2.Wired := by
  have steady := steady_wired runner.actor.caller runner.followers
  cases doing with
  | run =>
    have dropped : (ctx.dropRequest runner.actor.caller).Wired := wired.congr rfl rfl
    have ticked := ready.tickNodes_hushed dropped (Context.hushed_self (named.congr rfl))
    exact steady.run wired ready.caller_tickNodes fun _ => ticked.2.wired
  | interrupt => exact steady.interrupt wired
  | clear =>
    obtain ⟨before, kept, same⟩ := steady.cleared wired
    have left : (runner.clear ctx).2.Wired := by
      rw [same]
      exact kept.thin (Bus.without_offCaller _ _)
    exact left
  | request => exact wired.congr (Context.bus_request ..) (Context.mailboxes_request ..)
  | obey orders => exact (Context.stirs_obey ctx orders).wired wired
  | write | follow => exact wired

/-- The second host does as the first one does, less the requests. -/
theorem agrees_quiet {ctx' : Context} (ready : runner.Ready cache) (wired : ctx.Wired) (tally : runner.Tally ctx past)
    (hush : ctx.Hushed own runner.actor.caller ctx') (doing : Doing) :
    let quiet := (runner.hushed own).actAll ctx' (doing.quiet own (decide (Due past)))
    quiet.1 = (runner.act ctx doing).1.toList ∧ Agrees own (runner.act ctx doing).2 quiet.2 := by
  have cancelled := tally.cancelled_iff ready
  cases doing with
  | run =>
    by_cases due : Due past
    · obtain ⟨same, agrees⟩ := agrees_run_request hush (cancelled.mpr due)
      rw [decide_eq_true due]
      exact ⟨congrArg (fun answer => [answer]) same, agrees⟩
    · have going : runner.isCancelled ctx = false := Bool.not_eq_true _ ▸ mt cancelled.mp due
      obtain ⟨same, agrees⟩ := ready.agrees_run wired hush going
      rw [decide_eq_false due]
      exact ⟨congrArg (fun answer => [answer]) same, agrees⟩
  | interrupt => exact ⟨rfl, agrees_interrupt hush⟩
  | clear => exact ⟨rfl, agrees_clear hush⟩
  | request => exact ⟨rfl, rfl, hush.request⟩
  | obey orders => exact ⟨rfl, rfl, hush.obey orders⟩
  | write change => exact ⟨rfl, rfl, hush⟩
  | follow stage reaction =>
    refine ⟨rfl, ?_, hush⟩
    simp [act, Doing.quiet, actAll, Doing.action, perform, Runner.follow, hushed]

/-- A step goes on beside the same step without requests, given the interrupt where one is due. -/
theorem Beside.act {one two : Runner × Context} (beside : Beside cache own past one two) (doing : Doing) :
    (two.1.actAll two.2 (doing.quiet own (decide (Due past)))).1 = (one.1.act one.2 doing).1.toList ∧
      Beside cache own (past ++ one.1.moments own one.2 doing) (one.1.act one.2 doing).2
        (two.1.actAll two.2 (doing.quiet own (decide (Due past)))).2 := by
  obtain ⟨runner, ctx⟩ := one
  obtain ⟨runner', ctx'⟩ := two
  obtain ⟨ready, wired, tally, rfl, hush⟩ := beside
  obtain ⟨answers, agrees⟩ := agrees_quiet ready wired tally hush doing
  exact ⟨answers, ready.perform ctx _, ready.wired_act wired hush.named doing, tally.act ready hush.named doing, agrees⟩

theorem actAll_append (runner : Runner) (ctx : Context) (doings more : List Doing) :
    runner.actAll ctx (doings ++ more) =
      let first := runner.actAll ctx doings
      let second := first.2.1.actAll first.2.2 more
      (first.1 ++ second.1, second.2) := by
  induction doings generalizing runner ctx with
  | nil => rfl
  | cons doing rest ih => simp only [List.cons_append, actAll, ih, List.append_assoc]

/-- So does every sequence of steps. -/
theorem Beside.actAll {one two : Runner × Context} (beside : Beside cache own past one two) (doings : List Doing) :
    let all := one.1.actAll one.2 doings
    let quiet := two.1.actAll two.2 (one.1.quiet own one.2 past doings)
    quiet.1 = all.1 ∧ Beside cache own (past ++ one.1.history own one.2 doings) all.2 quiet.2 := by
  induction doings generalizing one two past with
  | nil =>
    rw [history, List.append_nil]
    exact ⟨rfl, beside⟩
  | cons doing rest ih =>
    obtain ⟨answers, after⟩ := beside.act doing
    obtain ⟨later, last⟩ := ih after
    simp only [Runner.actAll, Runner.quiet, history, actAll_append, answers, later, ← List.append_assoc]
    exact ⟨trivial, last⟩

/-! ### What requests come to -/

/-- A run that a request interrupts. -/
structure Abandons (runner : Runner) (ctx : Context) : Prop where
  /-- No node is executed. -/
  executed : ∀ id, (runner.watched.run ctx).2.2.executions id = ctx.executions id
  /-- Only variables that are temporary are discarded. -/
  vars : ∀ name, (runner.run ctx).2.1.actor.get? name = if isTemporary name then none else runner.actor.get? name
  stack : (runner.run ctx).2.1.actor.stack = []
  told : (runner.run ctx).2.2.told = ctx.told ++ runner.tells [.interrupted]

theorem executions_abort (runner : Runner) (ctx : Context) (id : Nat) :
    (runner.abort ctx).2.executions id = ctx.executions id :=
  (steady_executions runner.actor.caller runner.followers id (· = ctx.executions id)).abort rfl

theorem abandons (cancelled : runner.isCancelled ctx = true) : runner.Abandons ctx where
  executed id := by
    have cancelled' : runner.watched.isCancelled ctx = true := cancelled
    rw [run_eq, if_pos cancelled']
    exact executions_abort _ _ id
  vars name := by
    rw [run_eq, if_pos cancelled]
    exact (Fields.get?_filter runner.actor.vars (fun name => !isTemporary name) name).trans
      (by cases isTemporary name <;> rfl)
  stack := by rw [run_eq, if_pos cancelled]; rfl
  told := by
    rw [run_eq, if_pos cancelled]
    exact told_abort runner _

end Runner
end BehaviorTree
