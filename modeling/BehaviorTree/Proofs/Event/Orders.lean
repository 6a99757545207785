import BehaviorTree.Proofs.Event.Dispatch
import BehaviorTree.Proofs.Event.Wired

/-!
Events among hosts that keep to certain orders. Whatever the reactions on a bus are allowed to
order, nested as deep as may be, comes down to single changes; what each of these keeps is kept by
every event. Hosts that never end the listening of an actor leave its mailboxes attended.
-/

namespace BehaviorTree

mutual

/-- The order, and any that may come of it, ends no listening of the actor of a name. -/
def Order.spares (name : String) : Order → Bool
  | .offCaller actor => actor ≠ name
  | .off actor _ => actor ≠ name
  | .on _ _ _ _ orders => sparesAll name orders
  | _ => true

/-- Whether all orders spare an actor. -/
def sparesAll (name : String) : List Order → Bool
  | [] => true
  | order :: rest => order.spares name && sparesAll name rest

end

theorem sparesAll_eq_true {name : String} : ∀ {orders : List Order},
    sparesAll name orders = true ↔ ∀ order ∈ orders, order.spares name = true
  | [] => by simp [sparesAll]
  | order :: rest => by rw [sparesAll, Bool.and_eq_true, sparesAll_eq_true, List.forall_mem_cons]

/-- Whether a reaction spares an actor. -/
def Reaction.spares (name : String) (reaction : Reaction) : Bool := sparesAll name reaction.orders

namespace Context

variable {allowed : Order → Prop} {K : Context → Prop} {ctx older newer : Context}

/-- All reactions on the bus keep to allowed orders. -/
def Heeds (allowed : Order → Prop) (ctx : Context) : Prop :=
  ∀ event target, ∀ l ∈ ctx.bus.listeners event target, ∀ reaction, l.sink = .host reaction →
    ∀ order ∈ reaction.orders, allowed order

theorem Heeds.without {gone : Listener Sink → Prop} (heeds : ctx.Heeds allowed)
    (without : Bus.Without gone ctx.bus newer.bus) : newer.Heeds allowed :=
  fun event target l present => heeds event target l ((without.sublist event target).subset present)

theorem Heeds.on (heeds : ctx.Heeds allowed) (event : String) (target : Target) (caller : Nat)
    {reaction : Reaction} (keeps : ∀ order ∈ reaction.orders, allowed order) :
    (ctx.on event target caller reaction).2.Heeds allowed := by
  intro e t l present other reacts
  rcases mem_listeners_on.mp present with before | ⟨-, rfl⟩
  · exact heeds e t l before other reacts
  · cases reacts
    exact keeps

/-- What every single change that follows from allowed orders keeps. -/
structure Withstands (allowed : Order → Prop) (K : Context → Prop) : Prop where
  heeds {ctx : Context} : K ctx → ctx.Heeds allowed
  heard {ctx : Context} (tag : String) (args : List Value) : K ctx → K (ctx.note (.heard tag args))
  deliver {ctx : Context} (listener : Nat) (args : List Value) : K ctx → K (ctx.updateMailbox listener (· ++ [args]))
  request {ctx : Context} {actor : String} {caller : Nat} {target : Target} : allowed (.interrupt actor) →
    ctx.directory.at? actor = some (caller, target) → K ctx → K (ctx.request caller)
  on {ctx : Context} {actor event : String} {address : Address} {tag : String} {orders : List Order}
    {caller : Nat} {target : Target} : allowed (.on actor event address tag orders) →
      ctx.directory.at? actor = some (caller, target) → K ctx →
        K (ctx.on event (ctx.resolve address) caller ⟨tag, orders⟩).2
  off {ctx : Context} {actor event : String} {caller : Nat} {target : Target} : allowed (.off actor event) →
    ctx.directory.at? actor = some (caller, target) → K ctx → K (ctx.off event caller)
  offCaller {ctx : Context} {actor : String} {caller : Nat} {target : Target} : allowed (.offCaller actor) →
    ctx.directory.at? actor = some (caller, target) → K ctx → K (ctx.offCaller caller)
  advance {ctx : Context} (dt : Float) : allowed (.advance dt) → K ctx → K (ctx.advance dt)

namespace Withstands

variable (withstands : Withstands allowed K) {again : Dispatch}
  (nested : ∀ ctx event target args, K ctx → K (again ctx event target args))

include withstands nested

/-- An order that is allowed keeps the property. -/
theorem follow {order : Order} (allows : allowed order) (kept : K ctx) : K (follow again ctx order) := by
  cases order with
  | interrupt actor =>
    rcases known : ctx.directory.at? actor with _ | ⟨caller, target⟩
    · rwa [Context.follow, known]
    · rw [Context.follow, known]
      exact withstands.request allows known kept
  | offCaller actor =>
    rcases known : ctx.directory.at? actor with _ | ⟨caller, target⟩
    · rwa [Context.follow, known]
    · rw [Context.follow, known]
      exact withstands.offCaller allows known kept
  | off actor event =>
    rcases known : ctx.directory.at? actor with _ | ⟨caller, target⟩
    · rwa [Context.follow, known]
    · rw [Context.follow, known]
      exact withstands.off allows known kept
  | on actor event address tag orders =>
    rcases known : ctx.directory.at? actor with _ | ⟨caller, target⟩
    · rwa [Context.follow, known]
    · rw [Context.follow, known]
      exact withstands.on allows known kept
  | dispatch event args address => exact nested ctx event _ args kept
  | advance dt => exact withstands.advance dt allows kept

theorem followAll {orders : List Order} (allows : ∀ order ∈ orders, allowed order) (kept : K ctx) :
    K (followAll again ctx orders) := by
  rw [Context.followAll]
  induction orders generalizing ctx with
  | nil => exact kept
  | cons order rest ih =>
    obtain ⟨first, later⟩ := List.forall_mem_cons.mp allows
    exact ih later (withstands.follow nested first kept)

/-- A call keeps the property if the listener's host obeys allowed orders only. -/
theorem deliver_to (args : List Value) {l : Listener Sink}
    (heeds : ∀ reaction, l.sink = .host reaction → ∀ order ∈ reaction.orders, allowed order) (kept : K ctx) :
    K (Context.deliver again args ctx l) := by
  rw [Context.deliver]
  split
  · exact withstands.deliver l.id args kept
  · rename_i reaction host
    exact withstands.followAll nested (heeds reaction host) (withstands.heard _ _ kept)

/-- Calls keep the property if all hosts obey allowed orders only. -/
theorem deliver_all (args : List Value) {listeners : List (Listener Sink)}
    (heed : ∀ l ∈ listeners, ∀ reaction, l.sink = .host reaction → ∀ order ∈ reaction.orders, allowed order)
    (kept : K ctx) : K (listeners.foldl (Context.deliver again args) ctx) := by
  induction listeners generalizing ctx with
  | nil => exact kept
  | cons l rest ih =>
    obtain ⟨first, later⟩ := List.forall_mem_cons.mp heed
    exact ih later (withstands.deliver_to nested args first kept)

end Withstands

namespace Withstands

variable (withstands : Withstands allowed K)

include withstands

theorem within (depth : Nat) :
    ∀ ctx event target args, K ctx → K (dispatchWithin depth ctx event target args) := by
  induction depth with
  | zero => exact fun _ _ _ _ kept => kept
  | succ depth ih =>
    intro ctx event target args kept
    exact withstands.deliver_all ih args (withstands.heeds kept event target) kept

theorem dispatch (event : String) (target : Target) (args : List Value) (kept : K ctx) :
    K (ctx.dispatch event target args).2 := withstands.within _ ctx event target args kept

theorem obey {orders : List Order} (allows : ∀ order ∈ orders, allowed order) (kept : K ctx) :
    K (ctx.obey orders) := withstands.followAll (withstands.within _) allows kept

end Withstands

/-! ### Mailboxes among events -/

theorem bus_request (ctx : Context) (caller : Nat) : (ctx.request caller).bus = ctx.bus := by
  rw [request]
  split <;> rfl

theorem mailboxes_request (ctx : Context) (caller : Nat) :
    (ctx.request caller).mailboxes = ctx.mailboxes := by
  rw [request]
  split <;> rfl

theorem Stir.wired (stir : Stir older newer) (wired : older.Wired) : newer.Wired := by
  cases stir with
  | note n => exact wired.congr rfl rfl
  | deliver listener args => exact wired.updateMailbox _ _
  | request caller target actor known => exact wired.congr (bus_request ..) (mailboxes_request ..)
  | on event address reaction caller target actor known => exact wired.on _ _ _ _
  | off event caller => exact wired.thin (Bus.without_off _ event caller)
  | offCaller caller => exact wired.thin (Bus.without_offCaller _ caller)
  | advance dt => exact wired.congr rfl rfl

/-- Whatever happens among events, a wired context stays wired. -/
theorem Stirs.wired (stirs : Stirs older newer) (wired : older.Wired) : newer.Wired := by
  induction stirs with
  | refl => exact wired
  | tail _ last ih => exact last.wired ih

/-- The mailboxes apart from the events that wait in them. -/
def posts (ctx : Context) : List Mailbox := ctx.mailboxes.map Mailbox.emptied

theorem posts_updateMailbox (ctx : Context) (id : Nat) (update : List (List Value) → List (List Value)) :
    (ctx.updateMailbox id update).posts = ctx.posts := by
  rw [posts, mailboxes_updateMailbox, List.map_map]
  exact List.map_congr_left fun box _ => box.emptied_fill id update

/-- Events neither open mailboxes nor close any. -/
theorem Stirs.posts (stirs : Stirs older newer) : newer.posts = older.posts :=
  Stirs.keep stirs fun a b change => by
    cases change with
    | deliver listener args => exact posts_updateMailbox a listener _
    | request caller target actor known => exact congrArg (List.map Mailbox.emptied) (mailboxes_request a caller)
    | _ => rfl

theorem Stir.issued (stir : Stir older newer) : older.bus.issued ≤ newer.bus.issued := by
  cases stir with
  | request caller target actor known =>
    exact Nat.le_of_eq (congrArg Bus.issued (bus_request _ caller).symm)
  | on event address reaction caller target actor known => exact Nat.le_succ _
  | off event caller => exact Nat.le_of_eq (Bus.without_off _ event caller).issued.symm
  | offCaller caller => exact Nat.le_of_eq (Bus.without_offCaller _ caller).issued.symm
  | _ => exact Nat.le_refl _

theorem Stirs.issued (stirs : Stirs older newer) : older.bus.issued ≤ newer.bus.issued := by
  induction stirs with
  | refl => exact Nat.le_refl _
  | tail _ last ih => exact Nat.le_trans ih last.issued

/-- Those of a caller among the mailboxes of a context with the same ones. -/
theorem map_boxes_of_posts {α : Type} (view : Mailbox → α) (blind : ∀ box, view box.emptied = view box)
    (same : newer.posts = older.posts) (caller : Nat) :
    (newer.boxes caller).map view = (older.boxes caller).map view := by
  have of_posts (ctx : Context) :
      (ctx.boxes caller).map view = (ctx.posts.filter fun box => box.caller = caller).map view := by
    rw [Context.posts, List.filter_map, List.map_map]
    exact List.map_congr_left fun box _ => (blind box).symm
  rw [of_posts, of_posts, same]

/-! ### Actors whose listening no host ends -/

/-- No host on the bus is going to end the listening of an actor, and its mailboxes are attended;
where there is no such actor, its caller is missing. -/
structure Spared (name : String) (caller : Option Nat) (ctx : Context) : Prop where
  wired : ctx.Wired
  heeds : ctx.Heeds fun order => order.spares name
  attended : ∀ c ∈ caller, Attended c ctx
  /-- No other actor goes by the caller. -/
  known : ∀ c ∈ caller, ∀ actor target, ctx.directory.at? actor = some (c, target) → actor = name

/-- A listener that has been removed belongs to another caller. -/
theorem Attended.without {caller : Nat} {gone : Listener Sink → Prop} (attended : Attended caller older)
    (without : Bus.Without gone older.bus newer.bus) (mailboxes : newer.mailboxes = older.mailboxes)
    (stay : ∀ box ∈ older.mailboxes, box.caller = caller → ¬ gone box.ear) : Attended caller newer := by
  rw [Attended, mailboxes]
  intro box member own
  exact without.mem (attended box member own) (stay box member own)

theorem Attended.updateMailbox {caller : Nat} (attended : Attended caller ctx) (id : Nat)
    (update : List (List Value) → List (List Value)) : Attended caller (ctx.updateMailbox id update) := by
  intro box member own
  obtain ⟨older, before, rfl⟩ := List.mem_map.mp member
  have own : older.caller = caller := (older.caller_fill id update).symm.trans own
  have still := attended older before own
  rwa [← older.ear_fill id update, ← older.event_fill id update, ← older.target_fill id update] at still

namespace Spared

variable {name : String} {spared : Option Nat}

/-- Whether an actor is spared depends on the bus, the mailboxes and the directory. -/
theorem congr (kept : Spared name spared older) (bus : newer.bus = older.bus)
    (mailboxes : newer.mailboxes = older.mailboxes) (directory : newer.directory = older.directory) :
    Spared name spared newer := by
  obtain ⟨wired, heeds, attended, known⟩ := kept
  refine ⟨wired.congr bus mailboxes, ?_, fun c member => ?_, ?_⟩
  · rwa [Heeds, bus]
  · rw [Attended, mailboxes, bus]
    exact attended c member
  · rwa [directory]

/-- Removing listeners spares an actor whose mailboxes keep theirs. -/
theorem without (kept : Spared name spared ctx) {bus : Bus Sink} {gone : Listener Sink → Prop}
    (without : Bus.Without gone ctx.bus bus)
    (stay : ∀ c ∈ spared, ∀ box ∈ ctx.mailboxes, box.caller = c → ¬ gone box.ear) :
    Spared name spared { ctx with bus } where
  wired := kept.wired.thin without
  heeds := kept.heeds.without without
  attended c member := (kept.attended c member).without without rfl (stay c member)
  known := kept.known

theorem on (kept : Spared name spared ctx) (event : String) (target : Target) (other : Nat)
    {reaction : Reaction} (spares : reaction.spares name) :
    Spared name spared (ctx.on event target other reaction).2 where
  wired := kept.wired.on _ _ _ _
  heeds := kept.heeds.on _ _ _ (sparesAll_eq_true.mp spares)
  attended c member box there own := mem_listeners_on.mpr (.inl (kept.attended c member box there own))
  known := kept.known

theorem updateMailbox (kept : Spared name spared ctx) (id : Nat)
    (update : List (List Value) → List (List Value)) : Spared name spared (ctx.updateMailbox id update) where
  wired := kept.wired.updateMailbox _ _
  heeds := kept.heeds
  attended c member := (kept.attended c member).updateMailbox _ _
  known := kept.known

/-- Other actors have other callers. -/
theorem apart (kept : Spared name spared ctx) {actor : String} {other : Nat} {target : Target}
    (listed : ctx.directory.at? actor = some (other, target)) (foreign : actor ≠ name) :
    ∀ c ∈ spared, ∀ box : Mailbox, box.caller = c → ¬ box.ear.caller = other := by
  rintro c member box own rfl
  exact foreign (kept.known c member actor target (own ▸ listed))

end Spared

/-- Orders that spare an actor leave its mailboxes and their listeners. -/
theorem withstands_spared (name : String) (spared : Option Nat) :
    Withstands (fun order => order.spares name) (Spared name spared) where
  heeds kept := kept.heeds
  heard tag args kept := kept.congr rfl rfl rfl
  deliver listener args kept := kept.updateMailbox _ _
  request _ _ kept := by
    refine kept.congr (bus_request ..) (mailboxes_request ..) ?_
    rw [request]
    split <;> rfl
  on allows _ kept := kept.on _ _ _ allows
  off {ctx _ event other _} allows listed kept :=
    kept.without (Bus.without_off ctx.bus event other) fun c member box _ =>
      kept.apart listed (of_decide_eq_true allows) c member box
  offCaller {ctx _ other _} allows listed kept :=
    kept.without (Bus.without_offCaller ctx.bus other) fun c member box _ =>
      kept.apart listed (of_decide_eq_true allows) c member box
  advance dt _ kept := kept.congr rfl rfl rfl

end Context
end BehaviorTree
