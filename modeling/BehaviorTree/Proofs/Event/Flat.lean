import BehaviorTree.Context

/-!
Some notes tell how many nodes were on the stack when they were taken. Without these numbers a context is flat.
Nothing that is done in a context looks at the notes, so it comes to the same whether or not the context is flat.
-/

namespace BehaviorTree

/-- The note without the number of nodes on the stack. -/
def Note.flat : Note → Note
  | interrupted tree _ => interrupted tree 0
  | followed stage tag _ status last => followed stage tag 0 status last
  | note => note

namespace Context

/-- The context without the numbers of nodes on the stack. -/
def flat (ctx : Context) : Context := { ctx with notes := ctx.notes.map Note.flat }

variable (ctx : Context) (caller id : Nat)

theorem flat_note (n : Note) : (ctx.note n).flat = ctx.flat.note n.flat :=
  congrArg (fun notes => { ctx with notes }) List.map_append

theorem flat_compile (code : String) : (ctx.compile code).2.flat = (ctx.flat.compile code).2 := rfl

theorem flat_request : (ctx.request caller).flat = ctx.flat.request caller := by
  have requests : ctx.flat.requests = ctx.requests := rfl
  rw [request, request, requests]
  split <;> rfl

theorem flat_dropRequest : (ctx.dropRequest caller).flat = ctx.flat.dropRequest caller := rfl

theorem flat_offCaller : (ctx.offCaller caller).flat = ctx.flat.offCaller caller := rfl

theorem flat_subscribe (event : String) (target : Target) :
    (ctx.subscribe event target caller).2.flat = (ctx.flat.subscribe event target caller).2 := rfl

theorem flat_updateMailbox (update : List (List Value) → List (List Value)) :
    (ctx.updateMailbox id update).flat = ctx.flat.updateMailbox id update := rfl

theorem flat_unsubscribe : (ctx.unsubscribe id).flat = ctx.flat.unsubscribe id := by
  have same : ctx.flat.mailbox? id = ctx.mailbox? id := rfl
  rw [unsubscribe, unsubscribe, same]
  rcases ctx.mailbox? id with _ | box <;> rfl

theorem flat_unsubscribes (ids : List Nat) : (ids.foldl unsubscribe ctx).flat = ids.foldl unsubscribe ctx.flat := by
  induction ids generalizing ctx with
  | nil => rfl
  | cons id rest ih => rw [List.foldl_cons, List.foldl_cons, ih, flat_unsubscribe]

theorem flat_unsubscribeAll : (ctx.unsubscribeAll caller).flat = ctx.flat.unsubscribeAll caller :=
  flat_unsubscribes ctx _

/-! ### Events -/

/-- Dispatching that comes to the same in a flat context. -/
def Dispatch.Flat (again : Dispatch) : Prop :=
  ∀ ctx event target args, (again ctx event target args).flat = again ctx.flat event target args

section

variable {again : Dispatch} (flat : again.Flat)

include flat

/-- What an order does has nothing to do with the depths in the journal. -/
theorem flat_follow (order : Order) : (follow again ctx order).flat = follow again ctx.flat order := by
  have directory : ctx.flat.directory = ctx.directory := rfl
  cases order with
  | dispatch event args address => exact flat ctx event _ args
  | advance dt => rfl
  | interrupt actor =>
    rw [follow, follow, directory]
    rcases ctx.directory.at? actor with _ | ⟨caller, target⟩
    · rfl
    · exact flat_request ctx caller
  | _ actor =>
    rw [follow, follow, directory]
    rcases ctx.directory.at? actor with _ | ⟨caller, target⟩ <;> rfl

theorem flat_followAll (orders : List Order) :
    (followAll again ctx orders).flat = followAll again ctx.flat orders := by
  rw [followAll, followAll]
  induction orders generalizing ctx with
  | nil => rfl
  | cons order rest ih => rw [List.foldl_cons, List.foldl_cons, ih, flat_follow ctx flat]

theorem flat_deliver (args : List Value) (l : Listener Sink) :
    (deliver again args ctx l).flat = deliver again args ctx.flat l := by
  rw [deliver, deliver]
  cases l.sink with
  | mailbox => rfl
  | host reaction =>
    refine (flat_followAll _ flat reaction.orders).trans ?_
    rw [flat_note]
    rfl

end

/-- Nor has what an event does. -/
theorem flat_dispatchWithin (depth : Nat) : (dispatchWithin depth : Dispatch).Flat := by
  induction depth with
  | zero => exact fun _ _ _ _ => rfl
  | succ depth ih =>
    intro ctx event target args
    rw [dispatchWithin, dispatchWithin, show ctx.flat.bus = ctx.bus from rfl]
    generalize ctx.bus.listeners event target = listeners
    induction listeners generalizing ctx with
    | nil => rfl
    | cons l rest later => rw [List.foldl_cons, List.foldl_cons, later, flat_deliver ctx ih]

theorem flat_dispatch (event : String) (target : Target) (args : List Value) :
    (ctx.dispatch event target args).2.flat = (ctx.flat.dispatch event target args).2 :=
  flat_dispatchWithin dispatchDepth ctx event target args

theorem flat_obey (orders : List Order) : (ctx.obey orders).flat = ctx.flat.obey orders :=
  flat_followAll ctx (flat_dispatchWithin dispatchDepth) orders

end Context
end BehaviorTree
