import BehaviorTree.Proofs.Event.Bus
import Mathlib.Data.List.Basic

/-!
One actor succeeding another. The successor gets the next caller, and whoever comes after it gets
a later caller than without it; the callers and addresses of everyone else stay as they are. This
changes the callers on a bus and nothing else: what a bus does with listeners it does with
listeners that have changed owners.
-/

namespace BehaviorTree

/-- An actor succeeds one with the caller `gone` when so many callers have been given out. -/
structure Succession where
  gone : Nat
  count : Nat

namespace Succession

variable (heir : Succession)

/-- Who owns what a caller owned. -/
def owner (caller : Nat) : Nat :=
  if caller = heir.gone then heir.count + 1
  else if caller ≤ heir.count then caller
  else caller + 1

/-- The successor is addressed as its predecessor was. -/
def address (caller : Nat) : Nat := if caller ≤ heir.count then caller else caller + 1

theorem owner_injective : Function.Injective heir.owner := by
  intro a b same
  simp only [owner] at same
  split at same <;> split at same <;> grind

theorem address_injective : Function.Injective heir.address := by
  intro a b same
  simp only [address] at same
  split at same <;> split at same <;> omega

/-- A target once the actor has been succeeded. -/
def target : Target → Target
  | .caller caller => .caller (heir.address caller)
  | target => target

theorem target_injective : Function.Injective heir.target := by
  intro a b same
  cases a <;> cases b <;> simp only [target, Target.caller.injEq, reduceCtorEq] at same ⊢
  · exact same
  · exact heir.address_injective same

variable {σ : Type}

/-- A listener once the actor has been succeeded. -/
def listener (l : Listener σ) : Listener σ := { l with caller := heir.owner l.caller }

/-- Where a caller has listeners. -/
def place (place : String × Target) : String × Target := (place.1, heir.target place.2)

theorem place_injective : Function.Injective heir.place := by
  intro a b same
  simp only [place, Prod.mk.injEq] at same
  exact Prod.ext same.1 (heir.target_injective same.2)

/-- The listeners of an event by their targets. -/
def targets (targets : Index Target (List (Listener σ))) : Index Target (List (Listener σ)) :=
  Index.relabel heir.target (List.map heir.listener) targets

/-- The bus once the successor owns what its predecessor owned. -/
def bus (bus : Bus σ) : Bus σ where
  byEvent := Index.relabel id heir.targets bus.byEvent
  byCaller := Index.relabel heir.owner (List.map heir.place) bus.byCaller
  issued := bus.issued

/-! ### Looking up -/

variable (b : Bus σ) (event : String) (target : Target) (caller : Nat)

theorem at?_targets (targets : Index Target (List (Listener σ))) :
    Index.at? (heir.targets targets) (heir.target target) =
      (Index.at? targets target).map (List.map heir.listener) :=
  Index.at?_relabel heir.target_injective _ targets target

theorem at?_byEvent :
    (heir.bus b).byEvent.at? event = (b.byEvent.at? event).map heir.targets :=
  Index.at?_relabel Function.injective_id _ b.byEvent event

theorem at?_byCaller :
    (heir.bus b).byCaller.at? (heir.owner caller) = (b.byCaller.at? caller).map (List.map heir.place) :=
  Index.at?_relabel heir.owner_injective _ b.byCaller caller

theorem bus_listeners :
    (heir.bus b).listeners event (heir.target target) = (b.listeners event target).map heir.listener := by
  simp only [Bus.listeners, at?_byEvent]
  rcases b.byEvent.at? event with _ | targets
  · rfl
  · simp only [Option.map_some, Option.bind_some, at?_targets]
    rcases Index.at? targets target with _ | here <;> rfl

theorem bus_places : (heir.bus b).places (heir.owner caller) = (b.places caller).map heir.place := by
  simp only [Bus.places, at?_byCaller]
  rcases b.byCaller.at? caller with _ | places <;> rfl

theorem hasCaller_bus : (heir.bus b).hasCaller (heir.owner caller) = b.hasCaller caller := by
  simp only [Bus.hasCaller, at?_byCaller, Option.isSome_map]

/-! ### Subscribing and removing -/

/-- Subscribing goes along with a succession. -/
theorem bus_on (sink : σ) :
    (heir.bus b).on event (heir.target target) (heir.owner caller) sink =
      ((b.on event target caller sink).1, heir.bus (b.on event target caller sink).2) := by
  have targets : ((heir.bus b).byEvent.at? event).getD [] =
      heir.targets ((b.byEvent.at? event).getD []) := by
    rw [at?_byEvent]
    rcases b.byEvent.at? event with _ | targets <;> rfl
  have here (found : Index Target (List (Listener σ))) :
      (Index.at? (heir.targets found) (heir.target target)).getD [] =
        ((Index.at? found target).getD []).map heir.listener := by
    rw [at?_targets]
    rcases Index.at? found target with _ | here <;> rfl
  have member : (event, heir.target target) ∈ (b.places caller).map heir.place ↔
      (event, target) ∈ b.places caller :=
    List.mem_map_of_injective heir.place_injective (a := (event, target))
  simp only [Bus.on, targets, here, bus_places, member]
  refine Prod.ext rfl ?_
  simp only [bus, Index.relabel_put Function.injective_id, Index.relabel_put heir.owner_injective,
    Succession.targets, Index.relabel_put heir.target_injective, List.map_append]
  congr 2
  split
  · rfl
  · rw [List.map_append]
    rfl

theorem targets_keepAt {keep keep' : Listener σ → Bool} (same : ∀ l, keep' (heir.listener l) = keep l)
    (targets : Index Target (List (Listener σ))) :
    Bus.keepAt (heir.targets targets) (heir.target target) keep' =
      heir.targets (Bus.keepAt targets target keep) := by
  have filtered (here : List (Listener σ)) :
      (here.map heir.listener).filter keep' = (here.filter keep).map heir.listener := by
    rw [List.filter_map]
    congr 2
    exact funext same
  rw [Bus.keepAt, Bus.keepAt, at?_targets]
  rcases Index.at? targets target with _ | here
  · rfl
  · simp only [Option.map_some, filtered, List.isEmpty_map]
    split
    · exact (Index.relabel_remove heir.target_injective _ targets target).symm
    · exact (Index.relabel_put heir.target_injective _ targets target _).symm

/-- Retaining listeners goes along with a succession. -/
theorem bus_retain {keep keep' : Listener σ → Bool} (same : ∀ l, keep' (heir.listener l) = keep l) :
    (heir.bus b).retain event (heir.target target) keep' = heir.bus (b.retain event target keep) := by
  rw [Bus.retain_eq, Bus.retain_eq, at?_byEvent]
  rcases b.byEvent.at? event with _ | targets
  · rfl
  · simp only [Option.map_some, targets_keepAt heir target same]
    rw [bus, Succession.targets, Index.isEmpty_relabel]
    congr 1
    split
    · exact (Index.relabel_remove Function.injective_id _ b.byEvent event).symm
    · exact (Index.relabel_put Function.injective_id _ b.byEvent event _).symm

theorem bus_setPlaces (places : List (String × Target)) :
    (heir.bus b).setPlaces (heir.owner caller) (places.map heir.place) =
      heir.bus (b.setPlaces caller places) := by
  simp only [Bus.setPlaces, bus, List.isEmpty_map]
  congr 1
  split
  · exact (Index.relabel_remove heir.owner_injective _ b.byCaller caller).symm
  · exact (Index.relabel_put heir.owner_injective _ b.byCaller caller places).symm

theorem keeps_others (caller : Nat) (l : Listener σ) :
    decide ((heir.listener l).caller ≠ heir.owner caller) = decide (l.caller ≠ caller) := by
  simp only [listener, ne_eq, heir.owner_injective.eq_iff]

theorem bus_retainOthers (places : List (String × Target)) :
    (heir.bus b).retainOthers (heir.owner caller) (places.map heir.place) =
      heir.bus (b.retainOthers caller places) := by
  induction places generalizing b with
  | nil => rfl
  | cons first rest ih =>
    have removed : (heir.bus b).retain first.1 (heir.target first.2)
        (fun l => decide (l.caller ≠ heir.owner caller)) =
          heir.bus (b.retain first.1 first.2 fun l => decide (l.caller ≠ caller)) :=
      heir.bus_retain b first.1 first.2 (heir.keeps_others caller)
    simp only [Bus.retainOthers, List.map_cons, List.foldl_cons] at ih ⊢
    rw [show (heir.place first).1 = first.1 from rfl,
      show (heir.place first).2 = heir.target first.2 from rfl, removed, ih]

/-- Selecting among the places by their events. -/
theorem filter_places (keep : String → Bool) (places : List (String × Target)) :
    ((places.map heir.place).filter fun place => keep place.1) =
      (places.filter fun place => keep place.1).map heir.place := by
  rw [List.filter_map]
  rfl

theorem bus_off : (heir.bus b).off event (heir.owner caller) = heir.bus (b.off event caller) := by
  simp only [Bus.off, at?_byCaller]
  rcases b.byCaller.at? caller with _ | places
  · rfl
  · simp only [Option.map_some, heir.filter_places fun name => decide (name ≠ event),
      heir.filter_places fun name => decide (name = event), bus_setPlaces, bus_retainOthers]

/-- Giving up everything goes along with a succession. -/
theorem bus_offCaller : (heir.bus b).offCaller (heir.owner caller) = heir.bus (b.offCaller caller) := by
  simp only [Bus.offCaller, at?_byCaller]
  rcases b.byCaller.at? caller with _ | places
  · rfl
  · have removed : { heir.bus b with byCaller := (heir.bus b).byCaller.remove (heir.owner caller) } =
        heir.bus { b with byCaller := b.byCaller.remove caller } := by
      simp only [bus, Index.relabel_remove heir.owner_injective]
    simp only [Option.map_some, removed, bus_retainOthers]

/-- Giving up a listener goes along with a succession. -/
theorem bus_offListener (id : Nat) :
    (heir.bus b).offListener id event (heir.target target) =
      heir.bus (b.offListener id event target) := by
  have owner : (((heir.bus b).listeners event (heir.target target)).find? fun l => l.id = id) =
      ((b.listeners event target).find? fun l => l.id = id).map heir.listener := by
    rw [bus_listeners, List.find?_map]
    rfl
  have removed : (heir.bus b).retain event (heir.target target) (fun l => decide (l.id ≠ id)) =
      heir.bus (b.retain event target fun l => decide (l.id ≠ id)) :=
    heir.bus_retain b event target fun _ => rfl
  simp only [Bus.offListener, owner, removed]
  generalize (b.listeners event target).find? (fun l => decide (l.id = id)) = found
  rcases found with _ | l
  · rfl
  generalize b.retain event target (fun l => l.id ≠ id) = b
  have others : (((heir.bus b).listeners event (heir.target target)).any fun other =>
      other.caller = heir.owner l.caller) =
        (b.listeners event target).any fun other => other.caller = l.caller := by
    rw [bus_listeners, List.any_map]
    congr 1
    funext other
    simp only [Function.comp, listener, heir.owner_injective.eq_iff]
  simp only [Option.map_some, show (heir.listener l).caller = heir.owner l.caller from rfl, others,
    at?_byCaller]
  split
  · rfl
  · rcases b.byCaller.at? l.caller with _ | places
    · rfl
    · have kept : ((places.map heir.place).filter fun place => place ≠ (event, heir.target target)) =
          (places.filter fun place => place ≠ (event, target)).map heir.place := by
        rw [List.filter_map]
        congr 2
        funext place
        simp only [Function.comp, ne_eq,
          show (event, heir.target target) = heir.place (event, target) from rfl,
          heir.place_injective.eq_iff]
      simp only [Option.map_some, kept, bus_setPlaces]

end Succession
end BehaviorTree
