import BehaviorTree.Context
import BehaviorTree.Proofs.Succession.Bus

/-!
A context in which an actor has been succeeded. Everything that is done in such a context comes to
what would have come of it before, with the successor in its predecessor's place. Events and
orders name actors and targets and never callers, so they need no change.
-/

namespace BehaviorTree.Succession

variable (heir : Succession)

/-- A mailbox once the actor has been succeeded. -/
def mailbox (box : Mailbox) : Mailbox :=
  { box with caller := heir.owner box.caller, target := heir.target box.target }

/-- An entry of the directory. -/
def entry (actor : Nat × Target) : Nat × Target := (heir.owner actor.1, heir.target actor.2)

/-- The context once the successor has taken its predecessor's place. -/
def context (ctx : Context) : Context :=
  { ctx with
    bus := heir.bus ctx.bus
    mailboxes := ctx.mailboxes.map heir.mailbox
    callers := ctx.callers + 1
    requests := ctx.requests.map heir.owner
    directory := Index.relabel id heir.entry ctx.directory }

variable (ctx : Context) (event : String) (target : Target) (caller : Nat)

@[simp] theorem context_bus : (heir.context ctx).bus = heir.bus ctx.bus := rfl

@[simp] theorem context_mailboxes : (heir.context ctx).mailboxes = ctx.mailboxes.map heir.mailbox := rfl

@[simp] theorem context_registry : (heir.context ctx).registry = ctx.registry := rfl

@[simp] theorem context_cache : (heir.context ctx).cache = ctx.cache := rfl

@[simp] theorem note_context (n : Note) : (heir.context ctx).note n = heir.context (ctx.note n) := rfl

@[simp] theorem context_callers : (heir.context ctx).callers = ctx.callers + 1 := rfl

/-! ### Requests -/

theorem isPending_context : (heir.context ctx).isPending (heir.owner caller) = ctx.isPending caller := by
  simp only [Context.isPending, context, List.mem_map_of_injective heir.owner_injective]

theorem request_context :
    (heir.context ctx).request (heir.owner caller) = heir.context (ctx.request caller) := by
  have pending : heir.owner caller ∈ (heir.context ctx).requests ↔ caller ∈ ctx.requests :=
    List.mem_map_of_injective heir.owner_injective
  simp only [Context.request, pending]
  split <;> rfl

theorem dropRequest_context :
    (heir.context ctx).dropRequest (heir.owner caller) = heir.context (ctx.dropRequest caller) := by
  simp only [Context.dropRequest, context, List.filter_map]
  congr 3
  funext other
  simp only [Function.comp, ne_eq, heir.owner_injective.eq_iff]

/-! ### Subscriptions -/

theorem at?_directory (actor : String) :
    (heir.context ctx).directory.at? actor = (ctx.directory.at? actor).map heir.entry :=
  Index.at?_relabel Function.injective_id _ ctx.directory actor

theorem resolve_context (address : Address) :
    (heir.context ctx).resolve address = heir.target (ctx.resolve address) := by
  cases address with
  | ofActor actor =>
    simp only [Context.resolve, at?_directory]
    rcases ctx.directory.at? actor with _ | ⟨caller, target⟩ <;> rfl
  | _ => rfl

theorem on_context (reaction : Reaction) :
    (heir.context ctx).on event (heir.target target) (heir.owner caller) reaction =
      ((ctx.on event target caller reaction).1, heir.context (ctx.on event target caller reaction).2) := by
  simp only [Context.on, context_bus, bus_on]
  rfl

theorem off_context : (heir.context ctx).off event (heir.owner caller) = heir.context (ctx.off event caller) := by
  simp only [Context.off, context_bus, bus_off]
  rfl

theorem offCaller_context :
    (heir.context ctx).offCaller (heir.owner caller) = heir.context (ctx.offCaller caller) := by
  simp only [Context.offCaller, context_bus, bus_offCaller]
  rfl

theorem offListener_context (id : Nat) :
    (heir.context ctx).offListener id event (heir.target target) =
      heir.context (ctx.offListener id event target) := by
  simp only [Context.offListener, context_bus,
    bus_offListener]
  rfl

/-! ### Mailboxes -/

theorem subscribe_context :
    (heir.context ctx).subscribe event (heir.target target) (heir.owner caller) =
      ((ctx.subscribe event target caller).1, heir.context (ctx.subscribe event target caller).2) := by
  simp only [Context.subscribe, context_bus, bus_on]
  simp only [context, List.map_append]
  rfl

theorem mailbox?_context (id : Nat) :
    (heir.context ctx).mailbox? id = (ctx.mailbox? id).map heir.mailbox := by
  simp only [Context.mailbox?, context, List.find?_map]
  rfl

theorem queue_context (id : Nat) : (heir.context ctx).queue id = ctx.queue id := by
  simp only [Context.queue, mailbox?_context, Option.map_map]
  rfl

theorem updateMailbox_context (id : Nat) (update : List (List Value) → List (List Value)) :
    (heir.context ctx).updateMailbox id update = heir.context (ctx.updateMailbox id update) := by
  simp only [Context.updateMailbox, context, List.map_map]
  congr 2
  funext box
  by_cases here : box.listener = id <;> simp only [Function.comp, mailbox, here, if_true, if_false]

/-- Giving up a listener and its mailbox goes along with a succession. -/
theorem unsubscribe_context (id : Nat) :
    (heir.context ctx).unsubscribe id = heir.context (ctx.unsubscribe id) := by
  simp only [Context.unsubscribe, mailbox?_context]
  rcases ctx.mailbox? id with _ | box
  · rfl
  · simp only [Option.map_some, mailbox, context_bus,
      bus_offListener]
    simp only [context, List.filter_map]
    rfl

theorem unsubscribes_context (ids : List Nat) :
    ids.foldl Context.unsubscribe (heir.context ctx) = heir.context (ids.foldl Context.unsubscribe ctx) := by
  induction ids generalizing ctx with
  | nil => rfl
  | cons id rest ih => rw [List.foldl_cons, List.foldl_cons, unsubscribe_context, ih]

theorem unsubscribeAll_context :
    (heir.context ctx).unsubscribeAll (heir.owner caller) = heir.context (ctx.unsubscribeAll caller) := by
  have owns : ((fun box : Mailbox => decide (box.caller = heir.owner caller)) ∘ heir.mailbox) =
      fun box => decide (box.caller = caller) := by
    funext box
    simp only [Function.comp, mailbox, heir.owner_injective.eq_iff]
  have owned : ((heir.context ctx).mailboxes.filter fun box => box.caller = heir.owner caller).map
      Mailbox.listener = (ctx.mailboxes.filter fun box => box.caller = caller).map Mailbox.listener := by
    rw [context_mailboxes, List.filter_map,
      owns, List.map_map]
    rfl
  rw [Context.unsubscribeAll, Context.unsubscribeAll, owned, unsubscribes_context]

/-! ### Events -/

/-- Dispatching makes no difference between a caller and its successor. -/
def Impartial (again : Context.Dispatch) : Prop :=
  ∀ ctx event target args,
    again (heir.context ctx) event (heir.target target) args = heir.context (again ctx event target args)

section

variable {heir} {again : Context.Dispatch} (impartial : heir.Impartial again)

include impartial

/-- Orders are carried out alike after a succession. -/
theorem follow_context (order : Order) :
    Context.follow again (heir.context ctx) order = heir.context (Context.follow again ctx order) := by
  cases order with
  | interrupt actor =>
    simp only [Context.follow, at?_directory]
    rcases ctx.directory.at? actor with _ | ⟨caller, target⟩
    · rfl
    · exact heir.request_context ctx caller
  | offCaller actor =>
    simp only [Context.follow, at?_directory]
    rcases ctx.directory.at? actor with _ | ⟨caller, target⟩
    · rfl
    · exact heir.offCaller_context ctx caller
  | off actor event =>
    simp only [Context.follow, at?_directory]
    rcases ctx.directory.at? actor with _ | ⟨caller, target⟩
    · rfl
    · exact heir.off_context ctx event caller
  | on actor event address tag orders =>
    simp only [Context.follow, at?_directory, resolve_context]
    rcases ctx.directory.at? actor with _ | ⟨caller, target⟩
    · rfl
    · exact congrArg Prod.snd (heir.on_context ctx event _ caller ⟨tag, orders⟩)
  | dispatch event args address =>
    simp only [Context.follow, resolve_context]
    exact impartial ctx event _ args
  | advance dt => rfl

theorem followAll_context (orders : List Order) :
    Context.followAll again (heir.context ctx) orders =
      heir.context (Context.followAll again ctx orders) := by
  simp only [Context.followAll]
  induction orders generalizing ctx with
  | nil => rfl
  | cons order rest ih => rw [List.foldl_cons, List.foldl_cons, follow_context ctx impartial, ih]

theorem deliver_context (args : List Value) (l : Listener Sink) :
    Context.deliver again args (heir.context ctx) (heir.listener l) =
      heir.context (Context.deliver again args ctx l) := by
  obtain ⟨id, caller, sink⟩ := l
  cases sink with
  | mailbox => exact heir.updateMailbox_context ctx id (· ++ [args])
  | host reaction => exact followAll_context (ctx.note _) impartial reaction.orders

end

/-- Events go the same way after a succession. -/
theorem impartial_dispatchWithin (depth : Nat) : heir.Impartial (Context.dispatchWithin depth) := by
  induction depth with
  | zero => exact fun _ _ _ _ => rfl
  | succ depth ih =>
    intro ctx event target args
    rw [Context.dispatchWithin, Context.dispatchWithin,
      context_bus, bus_listeners]
    generalize ctx.bus.listeners event target = listeners
    induction listeners generalizing ctx with
    | nil => rfl
    | cons l rest again => rw [List.map_cons, List.foldl_cons, List.foldl_cons, deliver_context ctx ih, again]

theorem dispatch_context (args : List Value) :
    (heir.context ctx).dispatch event (heir.target target) args =
      ((ctx.dispatch event target args).1, heir.context (ctx.dispatch event target args).2) := by
  have called : ((heir.context ctx).bus.listeners event (heir.target target)).length =
      (ctx.bus.listeners event target).length := by
    rw [context_bus, bus_listeners, List.length_map]
  rw [Context.dispatch, called, heir.impartial_dispatchWithin]
  rfl

theorem obey_context (orders : List Order) :
    (heir.context ctx).obey orders = heir.context (ctx.obey orders) :=
  followAll_context ctx (heir.impartial_dispatchWithin _) orders

end BehaviorTree.Succession
