import BehaviorTree.Proofs.Descent.Effect
import BehaviorTree.Proofs.Event.Bus
import BehaviorTree.Proofs.Event.Dispatch

/-!
Tidy contexts: only callers that have been given out are in use, no two actors share one, and the
bus is indexed. Neither ticks nor events give out callers or change the directory; they add to the
notes and take none away; and they leave a tidy context tidy.
-/

namespace BehaviorTree

/-- A target that speaks of none but the first callers. -/
def Target.Within (count : Nat) : Target → Prop
  | .caller id => id ≤ count
  | _ => True

theorem Target.Within.mono {older newer : Nat} (le : older ≤ newer) {target : Target}
    (within : target.Within older) : target.Within newer := by
  cases target with
  | caller id => exact Nat.le_trans within le
  | _ => trivial

namespace Context

/-- Every caller and every target that something in the context belongs to is of a kind. -/
structure Each (P : Nat → Prop) (T : Target → Prop) (ctx : Context) : Prop where
  bus : Bus.Each P T ctx.bus
  mailboxes : ∀ box ∈ ctx.mailboxes, P box.caller ∧ T box.target
  requests : ∀ caller ∈ ctx.requests, P caller

/-- A caller that is among the first ones, with a target that speaks of none but these. -/
structure Given (count caller : Nat) (target : Target) : Prop where
  caller : caller ≤ count
  target : target.Within count

theorem Given.mono {older newer : Nat} (le : older ≤ newer) {caller : Nat} {target : Target}
    (given : Given older caller target) : Given newer caller target :=
  ⟨Nat.le_trans given.caller le, given.target.mono le⟩

/-- The bus is well indexed, callers are only those given out, and no actor is known under two
names. -/
structure Tidy (ctx : Context) : Prop where
  indexed : ctx.bus.Indexed
  known : ctx.Each (· ≤ ctx.callers) (Target.Within ctx.callers)
  entries : ∀ entry ∈ ctx.directory, Given ctx.callers entry.2.1 entry.2.2
  distinct : ctx.directory.Distinct
  owners : (ctx.directory.map fun entry => entry.2.1).Nodup

/-- What ticks and events can make of a context. -/
structure Tame (older newer : Context) : Prop where
  callers : newer.callers = older.callers
  directory : newer.directory = older.directory
  notes : older.notes <+: newer.notes
  tidy : older.Tidy → newer.Tidy

theorem tidy_new (registry : Registry) : (new registry).Tidy where
  indexed := Bus.indexed_empty
  known := ⟨.empty, nofun, nofun⟩
  entries := nofun
  distinct := List.nodup_nil
  owners := List.nodup_nil

variable {ctx older newer : Context}

namespace Tidy

theorem still (tidy : ctx.Tidy) (registry : Registry) (cache : ExprCache) (clock : Float)
    (notes : List Note) : { ctx with registry, cache, clock, notes }.Tidy :=
  ⟨tidy.indexed, ⟨tidy.known.bus, tidy.known.mailboxes, tidy.known.requests⟩, tidy.entries,
    tidy.distinct, tidy.owners⟩

/-- A new caller keeps a context tidy. -/
theorem newCaller (tidy : ctx.Tidy) : ctx.newCaller.2.Tidy where
  indexed := tidy.indexed
  known :=
    { bus := tidy.known.bus.mono (fun _ => Nat.le_succ_of_le) fun _ => Target.Within.mono (Nat.le_succ _)
      mailboxes box member := (tidy.known.mailboxes box member).imp Nat.le_succ_of_le
        (Target.Within.mono (Nat.le_succ _))
      requests caller member := Nat.le_succ_of_le (tidy.known.requests caller member) }
  entries entry member := (tidy.entries entry member).mono (Nat.le_succ _)
  distinct := tidy.distinct
  owners := tidy.owners

theorem forget (tidy : ctx.Tidy) (name : String) :
    { ctx with directory := ctx.directory.remove name }.Tidy where
  indexed := tidy.indexed
  known := ⟨tidy.known.bus, tidy.known.mailboxes, tidy.known.requests⟩
  entries entry member := tidy.entries entry (Index.mem_remove member).1
  distinct := Index.distinct_remove tidy.distinct name
  owners := tidy.owners.sublist (List.filter_sublist.map _)

/-- A new name may be given to a caller that no other name stands for. -/
theorem enter (tidy : ctx.Tidy) {name : String} {caller : Nat} {target : Target}
    (none : ctx.directory.at? name = none) (given : Given ctx.callers caller target)
    (fresh : ∀ entry ∈ ctx.directory, entry.2.1 ≠ caller) :
    { ctx with directory := ctx.directory.put name (caller, target) }.Tidy where
  indexed := tidy.indexed
  known := ⟨tidy.known.bus, tidy.known.mailboxes, tidy.known.requests⟩
  entries entry member := by
    rcases Index.mem_put member with rfl | member
    · exact given
    · exact tidy.entries entry member
  distinct := Index.distinct_put tidy.distinct name _
  owners := by
    rw [Index.put_of_none none, List.map_append]
    refine List.nodup_append.mpr ⟨tidy.owners, List.nodup_cons.mpr ⟨List.not_mem_nil, .nil⟩, ?_⟩
    intro owner known other new same
    obtain ⟨entry, member, rfl⟩ := List.mem_map.mp known
    exact fresh entry member (same.trans (List.mem_singleton.mp new))

end Tidy

/-! ### Single changes -/

namespace Tame

theorem refl (ctx : Context) : Tame ctx ctx := ⟨rfl, rfl, List.prefix_refl _, id⟩

theorem trans {between : Context} (first : Tame older between) (second : Tame between newer) :
    Tame older newer where
  callers := second.callers.trans first.callers
  directory := second.directory.trans first.directory
  notes := first.notes.trans second.notes
  tidy tidy := second.tidy (first.tidy tidy)

end Tame

variable (ctx)

theorem tame_note (n : Note) : Tame ctx (ctx.note n) :=
  ⟨rfl, rfl, List.prefix_append _ _, fun tidy => tidy.still _ _ _ _⟩

theorem tame_advance (dt : Float) : Tame ctx (ctx.advance dt) :=
  ⟨rfl, rfl, List.prefix_refl _, fun tidy => tidy.still _ _ _ _⟩

theorem tame_cache (cache : ExprCache) : Tame ctx { ctx with cache } :=
  ⟨rfl, rfl, List.prefix_refl _, fun tidy => tidy.still _ _ _ _⟩

theorem tame_requests {requests : List Nat}
    (known : ctx.Tidy → ∀ caller ∈ requests, caller ≤ ctx.callers) : Tame ctx { ctx with requests } where
  callers := rfl
  directory := rfl
  notes := List.prefix_refl _
  tidy tidy := ⟨tidy.indexed, ⟨tidy.known.bus, tidy.known.mailboxes, known tidy⟩, tidy.entries,
    tidy.distinct, tidy.owners⟩

/-- Changing the bus is tame if the new one is as tidy. -/
theorem tame_bus {bus : Bus Sink} (indexed : ctx.Tidy → bus.Indexed)
    (each : ctx.Tidy → Bus.Each (· ≤ ctx.callers) (Target.Within ctx.callers) bus) :
    Tame ctx { ctx with bus } where
  callers := rfl
  directory := rfl
  notes := List.prefix_refl _
  tidy tidy := ⟨indexed tidy, ⟨each tidy, tidy.known.mailboxes, tidy.known.requests⟩, tidy.entries,
    tidy.distinct, tidy.owners⟩

theorem tame_mailboxes {mailboxes : List Mailbox}
    (known : ctx.Tidy → ∀ box ∈ mailboxes, box.caller ≤ ctx.callers ∧ box.target.Within ctx.callers) :
    Tame ctx { ctx with mailboxes } where
  callers := rfl
  directory := rfl
  notes := List.prefix_refl _
  tidy tidy := ⟨tidy.indexed, ⟨tidy.known.bus, known tidy, tidy.known.requests⟩, tidy.entries,
    tidy.distinct, tidy.owners⟩

/-! ### Requests and subscriptions -/

theorem tame_request {caller : Nat} (known : ctx.Tidy → caller ≤ ctx.callers) :
    Tame ctx (ctx.request caller) := by
  rw [request]
  split
  · exact .refl ctx
  · refine ctx.tame_requests fun tidy other member => ?_
    rcases List.mem_cons.mp member with rfl | member
    · exact known tidy
    · exact tidy.known.requests other member

theorem tame_dropRequest (caller : Nat) : Tame ctx (ctx.dropRequest caller) :=
  ctx.tame_requests fun tidy other member => tidy.known.requests other (List.mem_filter.mp member).1

theorem tame_on (event : String) {target : Target} {caller : Nat} (reaction : Reaction)
    (given : ctx.Tidy → Given ctx.callers caller target) : Tame ctx (ctx.on event target caller reaction).2 :=
  ctx.tame_bus (fun tidy => tidy.indexed.on event target caller _)
    fun tidy => tidy.known.bus.on event _ (given tidy).caller (given tidy).target

theorem tame_off (event : String) (caller : Nat) : Tame ctx (ctx.off event caller) :=
  ctx.tame_bus (fun tidy => tidy.indexed.off event caller) fun tidy => tidy.known.bus.off event caller

theorem tame_offCaller (caller : Nat) : Tame ctx (ctx.offCaller caller) :=
  ctx.tame_bus (fun tidy => tidy.indexed.offCaller caller) fun tidy => tidy.known.bus.offCaller caller

theorem tame_offListener (id : Nat) (event : String) (target : Target) :
    Tame ctx (ctx.offListener id event target) :=
  ctx.tame_bus (fun tidy => tidy.indexed.offListener id event target)
    fun tidy => tidy.known.bus.offListener id event target

/-- Subscribing for a caller that was given out is tame. -/
theorem tame_subscribe (event : String) {target : Target} {caller : Nat}
    (given : Given ctx.callers caller target) : Tame ctx (ctx.subscribe event target caller).2 := by
  refine (ctx.tame_bus (fun tidy => tidy.indexed.on event target caller .mailbox)
    fun tidy => tidy.known.bus.on event .mailbox given.caller given.target).trans ?_
  refine tame_mailboxes _ fun tidy box member => ?_
  rcases List.mem_append.mp member with member | new
  · exact tidy.known.mailboxes box member
  · rw [List.mem_singleton.mp new]
    exact ⟨given.caller, given.target⟩

theorem tame_updateMailbox (id : Nat) (update : List (List Value) → List (List Value)) :
    Tame ctx (ctx.updateMailbox id update) := by
  refine ctx.tame_mailboxes fun tidy box member => ?_
  obtain ⟨before, there, rfl⟩ := List.mem_map.mp member
  split <;> exact tidy.known.mailboxes before there

theorem tame_unsubscribe (id : Nat) : Tame ctx (ctx.unsubscribe id) := by
  rw [unsubscribe]
  split
  · exact .refl ctx
  · rename_i box _
    exact (ctx.tame_offListener id box.event box.target).trans (tame_mailboxes _ fun tidy other member =>
      tidy.known.mailboxes other (List.mem_filter.mp member).1)

theorem tame_unsubscribes (ids : List Nat) : Tame ctx (ids.foldl unsubscribe ctx) := by
  induction ids generalizing ctx with
  | nil => exact .refl ctx
  | cons id rest ih => exact (ctx.tame_unsubscribe id).trans (ih (ctx.unsubscribe id))

theorem tame_unsubscribeAll (caller : Nat) : Tame ctx (ctx.unsubscribeAll caller) :=
  ctx.tame_unsubscribes _

/-! ### Events and ticks -/

variable {ctx}

/-- An address stands for a target within reach. -/
theorem Tidy.resolve (tidy : ctx.Tidy) (address : Address) : (ctx.resolve address).Within ctx.callers := by
  cases address with
  | ofActor actor =>
    rw [Context.resolve]
    rcases found : ctx.directory.at? actor with _ | ⟨caller, target⟩
    · trivial
    · exact (tidy.entries _ (Index.mem_of_at? found)).target
  | _ => trivial

/-- What hosts do is tame. -/
theorem Stir.tame (stir : Stir older newer) : Tame older newer := by
  cases stir with
  | note n => exact older.tame_note n
  | deliver listener args => exact older.tame_updateMailbox listener _
  | request caller target actor known =>
    exact older.tame_request fun tidy => (tidy.entries _ (Index.mem_of_at? known)).caller
  | on event address reaction caller target actor known =>
    exact older.tame_on event reaction fun tidy =>
      ⟨(tidy.entries _ (Index.mem_of_at? known)).caller, tidy.resolve address⟩
  | off event caller => exact older.tame_off event caller
  | offCaller caller => exact older.tame_offCaller caller
  | advance dt => exact older.tame_advance dt

theorem Stirs.tame (stirs : Stirs older newer) : Tame older newer := by
  induction stirs with
  | refl => exact .refl older
  | tail _ last ih => exact ih.trans last.tame

end Context

namespace Descent

open Context (Given Tame)

variable {ids : List Nat} {s t : Scene}

/-- What a tick does is tame. -/
theorem Effect.tame (effect : Effect ids s t)
    (given : Given s.context.callers s.actor.caller s.actor.target) : Tame s.context t.context := by
  cases effect with
  | note n => exact s.context.tame_note n
  | compile code => exact s.context.tame_cache _
  | subscribe event target reached =>
    refine s.context.tame_subscribe event ⟨given.caller, ?_⟩
    rcases reached with rfl | anyone
    · exact given.target
    · cases target with
      | caller id => exact absurd rfl (anyone id)
      | _ => trivial
  | take listener event rest waiting => exact s.context.tame_updateMailbox listener fun _ => rest
  | unsubscribe listener => exact s.context.tame_unsubscribe listener
  | _ => exact .refl _

theorem Effects.tame (effects : Effects ids s t)
    (given : Given s.context.callers s.actor.caller s.actor.target) : Tame s.context t.context := by
  induction effects with
  | refl => exact .refl _
  | tail before last ih =>
    refine ih.trans (last.tame ?_)
    rw [Effects.caller before, Effects.target before, ih.callers]
    exact given

end Descent
end BehaviorTree
