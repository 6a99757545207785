import BehaviorTree.Event.Bus
import BehaviorTree.Proofs.Event.Index

/-!
The two tables of a bus. What each operation does is told by two views: the listeners at each
place, and the places of each caller. The tables keep in step: wherever a caller has a listener is
one of its places, so removing a caller leaves none of its listeners behind.
-/

namespace BehaviorTree.Bus

variable {σ : Type} {bus : Bus σ} {keep : Listener σ → Bool}

/-- What is left of the listeners to an event when only some are kept at one target. -/
def keepAt (targets : Index Target (List (Listener σ))) (target : Target)
    (keep : Listener σ → Bool) : Index Target (List (Listener σ)) :=
  match Index.at? targets target with
  | none => targets
  | some here =>
    if (here.filter keep).isEmpty then Index.remove targets target
    else Index.put targets target (here.filter keep)

theorem retain_eq (bus : Bus σ) (event : String) (target : Target) (keep : Listener σ → Bool) :
    bus.retain event target keep =
      match bus.byEvent.at? event with
      | none => bus
      | some targets =>
        { bus with
          byEvent :=
            if (keepAt targets target keep).isEmpty then bus.byEvent.remove event
            else bus.byEvent.put event (keepAt targets target keep) } := rfl

/-! ### Listeners -/

theorem at?_keepAt (keep : Listener σ → Bool) (targets : Index Target (List (Listener σ))) (target other : Target) :
    (Index.at? (keepAt targets target keep) other).getD [] =
      if target = other then ((Index.at? targets other).getD []).filter keep
      else (Index.at? targets other).getD [] := by
  rw [keepAt]
  rcases found : Index.at? targets target with _ | here
  · by_cases same : target = other
    · rw [if_pos same, ← same, found]
      rfl
    · rw [if_neg same]
  · simp only
    by_cases same : target = other
    · rw [← same, found, if_pos rfl]
      split
      · rename_i none
        rw [Index.at?_remove, if_pos rfl]
        exact (List.isEmpty_iff.mp none).symm
      · rw [Index.at?_put, if_pos rfl]
        rfl
    · rw [if_neg same]
      split
      · rw [Index.at?_remove, if_neg same]
      · rw [Index.at?_put, if_neg same]

/-- Retaining some listeners of a place leaves the other places alone. -/
theorem listeners_retain (event : String) (target : Target) (e : String) (t : Target) :
    (bus.retain event target keep).listeners e t =
      if event = e ∧ target = t then (bus.listeners e t).filter keep else bus.listeners e t := by
  rw [retain_eq]
  rcases found : bus.byEvent.at? event with _ | targets
  · by_cases same : event = e ∧ target = t
    · rw [if_pos same, listeners, ← same.1, found]
      rfl
    · rw [if_neg same]
  · simp only [listeners]
    by_cases same : event = e
    · have left := at?_keepAt keep targets target t
      rw [← same, found]
      split
      · rename_i none
        rw [List.isEmpty_iff.mp none] at left
        rw [Index.at?_remove, if_pos rfl]
        simp only [true_and, Option.bind_some]
        exact left
      · rw [Index.at?_put, if_pos rfl]
        simp only [true_and, Option.bind_some]
        exact left
    · simp only [same, false_and, if_false]
      split
      · rw [Index.at?_remove, if_neg same]
      · rw [Index.at?_put, if_neg same]

theorem byCaller_retain (event : String) (target : Target) :
    (bus.retain event target keep).byCaller = bus.byCaller := by
  rw [retain_eq]
  split <;> rfl

/-- A new listener comes last at its place. -/
theorem listeners_on (event : String) (target : Target) (caller : Nat) (sink : σ) (e : String)
    (t : Target) :
    (bus.on event target caller sink).2.listeners e t =
      bus.listeners e t ++
        if event = e ∧ target = t then [⟨bus.issued + 1, caller, sink⟩] else [] := by
  simp only [on, listeners, Index.at?_put]
  by_cases sameEvent : event = e
  · rw [if_pos sameEvent, sameEvent]
    simp only [Option.bind_some, Index.at?_put, true_and]
    split
    · rename_i sameTarget
      rw [sameTarget]
      rcases bus.byEvent.at? e <;> rfl
    · rw [List.append_nil]
      rcases bus.byEvent.at? e <;> rfl
  · rw [if_neg sameEvent, if_neg fun same => sameEvent same.1, List.append_nil]

/-- A caller that subscribes has a listener at that place besides the ones it had. -/
theorem mem_places_on (event : String) (target : Target) (caller : Nat) (sink : σ) (other : Nat)
    (place : String × Target) :
    place ∈ (bus.on event target caller sink).2.places other ↔
      place ∈ bus.places other ∨ caller = other ∧ place = (event, target) := by
  have put : (bus.on event target caller sink).2.places other =
      if caller = other then
        if (event, target) ∈ bus.places caller then bus.places caller
        else bus.places caller ++ [(event, target)]
      else bus.places other := by
    refine (congrArg (Option.getD · []) (Index.at?_put bus.byCaller caller other _)).trans ?_
    split <;> rfl
  rw [put]
  by_cases same : caller = other
  · subst same
    rw [if_pos rfl]
    split
    · rename_i known
      exact ⟨.inl, fun either => either.elim id fun new => new.2 ▸ known⟩
    · simp only [List.mem_append, List.mem_singleton, true_and]
  · simp only [same, if_false, false_and, or_false]

theorem retainOthers_cons (caller : Nat) (first : String × Target) (rest : List (String × Target)) :
    bus.retainOthers caller (first :: rest) =
      (bus.retain first.1 first.2 fun l => l.caller ≠ caller).retainOthers caller rest := rfl

/-- The caller's listeners go from the places named, everyone else's stay. -/
theorem listeners_retainOthers (caller : Nat) (places : List (String × Target)) (e : String) (t : Target) :
    (bus.retainOthers caller places).listeners e t =
      if (e, t) ∈ places then (bus.listeners e t).filter fun l => l.caller ≠ caller
      else bus.listeners e t := by
  induction places generalizing bus with
  | nil => rfl
  | cons first rest ih =>
    rw [retainOthers_cons, ih, listeners_retain]
    by_cases here : first.1 = e ∧ first.2 = t
    · have same : (e, t) = first := Prod.ext here.1.symm here.2.symm
      simp only [if_pos here, same, List.mem_cons, true_or, if_true]
      split
      · rw [List.filter_filter]
        simp only [Bool.and_self]
      · rfl
    · have other : (e, t) ≠ first := fun same => here ⟨by rw [← same], by rw [← same]⟩
      rw [if_neg here]
      simp only [List.mem_cons, other, false_or]

theorem byCaller_retainOthers (caller : Nat) (places : List (String × Target)) :
    (bus.retainOthers caller places).byCaller = bus.byCaller := by
  induction places generalizing bus with
  | nil => rfl
  | cons first rest ih => exact ih.trans (byCaller_retain first.1 first.2)

theorem places_setPlaces (caller : Nat) (places : List (String × Target)) (other : Nat) :
    (bus.setPlaces caller places).places other = if caller = other then places else bus.places other := by
  rw [setPlaces, Bus.places]
  simp only
  split
  · rename_i none
    rw [Index.at?_remove, List.isEmpty_iff.mp none]
    split <;> rfl
  · rw [Index.at?_put]
    split <;> rfl

@[simp] theorem byEvent_setPlaces (caller : Nat) (places : List (String × Target)) :
    (bus.setPlaces caller places).byEvent = bus.byEvent := rfl

@[simp] theorem listeners_setPlaces (caller : Nat) (places : List (String × Target)) (event : String)
    (target : Target) : (bus.setPlaces caller places).listeners event target = bus.listeners event target := rfl

/-- Listeners and places are recorded apart. -/
theorem retain_setPlaces (caller : Nat) (places : List (String × Target)) (event : String)
    (target : Target) :
    (bus.setPlaces caller places).retain event target keep =
      (bus.retain event target keep).setPlaces caller places := by
  rw [retain_eq, retain_eq, byEvent_setPlaces]
  split <;> rfl

/-- Keeping places and removing listeners can be exchanged. -/
theorem retainOthers_setPlaces (caller : Nat) (kept places : List (String × Target)) :
    (bus.setPlaces caller kept).retainOthers caller places =
      (bus.retainOthers caller places).setPlaces caller kept := by
  induction places generalizing bus with
  | nil => rfl
  | cons first rest ih =>
    simp only [retainOthers, List.foldl_cons, retain_setPlaces] at ih ⊢
    exact ih

/-- Removing listeners to an event leaves the places that have nothing to do with it. -/
theorem off_eq (event : String) (caller : Nat) {places : List (String × Target)}
    (found : bus.byCaller.at? caller = some places) :
    bus.off event caller =
      (bus.retainOthers caller (places.filter fun place => place.1 = event)).setPlaces caller
        (places.filter fun place => place.1 ≠ event) := by
  rw [off, found, ← retainOthers_setPlaces]

theorem offCaller_eq (caller : Nat) {places : List (String × Target)}
    (found : bus.byCaller.at? caller = some places) :
    bus.offCaller caller = (bus.retainOthers caller places).setPlaces caller [] := by
  rw [offCaller, found, ← retainOthers_setPlaces]
  rfl

/-! ### Indexed buses -/

/-- No key stands twice, and the places of a caller cover its listeners. -/
structure Indexed (bus : Bus σ) : Prop where
  events : bus.byEvent.Distinct
  targets : ∀ entry ∈ bus.byEvent, Index.Distinct entry.2
  callers : bus.byCaller.Distinct
  covered : ∀ event target, ∀ l ∈ bus.listeners event target, (event, target) ∈ bus.places l.caller

theorem indexed_empty : (empty : Bus σ).Indexed where
  events := List.nodup_nil
  targets := nofun
  callers := List.nodup_nil
  covered := nofun

namespace Indexed

/-- What stands in the table of an indexed bus is found at its place. -/
theorem listeners_eq (indexed : bus.Indexed) {event : String} {target : Target}
    {targets : Index Target (List (Listener σ))} {here : List (Listener σ)}
    (inEvents : (event, targets) ∈ bus.byEvent) (inTargets : (target, here) ∈ targets) :
    bus.listeners event target = here := by
  rw [listeners, Index.at?_of_mem indexed.events inEvents, Option.bind_some,
    Index.at?_of_mem (indexed.targets _ inEvents) inTargets]
  rfl

/-- All listeners are those that some event reaches. -/
theorem mem_all (indexed : bus.Indexed) {l : Listener σ} :
    l ∈ bus.all ↔ ∃ event target, l ∈ bus.listeners event target := by
  constructor
  · intro member
    obtain ⟨⟨event, targets⟩, inEvents, member⟩ := List.mem_flatMap.mp member
    obtain ⟨⟨target, here⟩, inTargets, member⟩ := List.mem_flatMap.mp member
    exact ⟨event, target, indexed.listeners_eq inEvents inTargets ▸ member⟩
  · rintro ⟨event, target, present⟩
    rw [listeners] at present
    rcases found : bus.byEvent.at? event with _ | targets
    · rw [found] at present
      cases present
    · rw [found, Option.bind_some] at present
      obtain ⟨here, inTargets, member⟩ := Index.mem_of_mem_getD present
      exact List.mem_flatMap.mpr ⟨_, Index.mem_of_at? found, List.mem_flatMap.mpr ⟨_, inTargets, member⟩⟩

/-- The targets of one event in an indexed bus. -/
theorem distinct_getD (indexed : bus.Indexed) (event : String) :
    Index.Distinct ((bus.byEvent.at? event).getD []) := by
  rcases found : bus.byEvent.at? event with _ | targets
  · exact List.nodup_nil
  · exact indexed.targets _ (Index.mem_of_at? found)

/-- A bus stays indexed when somebody subscribes. -/
theorem on (indexed : bus.Indexed) (event : String) (target : Target) (caller : Nat) (sink : σ) :
    (bus.on event target caller sink).2.Indexed where
  events := Index.distinct_put indexed.events _ _
  targets entry member := by
    rcases Index.mem_put member with rfl | member
    · exact Index.distinct_put (indexed.distinct_getD event) _ _
    · exact indexed.targets entry member
  callers := Index.distinct_put indexed.callers _ _
  covered e t l member := by
    rw [listeners_on] at member
    rw [mem_places_on]
    rcases List.mem_append.mp member with before | now
    · exact .inl (indexed.covered e t l before)
    · split at now
      · rename_i here
        rw [List.mem_singleton.mp now, here.1, here.2]
        exact .inr ⟨rfl, rfl⟩
      · exact absurd now List.not_mem_nil

/-- A bus stays indexed when listeners of a place are removed. -/
theorem retain (indexed : bus.Indexed) (event : String) (target : Target) :
    (bus.retain event target keep).Indexed where
  events := by
    rw [retain_eq]
    split
    · exact indexed.events
    · simp only
      split
      · exact Index.distinct_remove indexed.events _
      · exact Index.distinct_put indexed.events _ _
  targets := by
    rw [retain_eq]
    split
    · exact indexed.targets
    · rename_i targets found
      have distinct : Index.Distinct targets := indexed.targets _ (Index.mem_of_at? found)
      have left : Index.Distinct (keepAt targets target keep) := by
        rw [keepAt]
        split
        · exact distinct
        · split
          · exact Index.distinct_remove distinct _
          · exact Index.distinct_put distinct _ _
      intro entry member
      simp only at member
      split at member
      · exact indexed.targets entry (Index.mem_remove member).1
      · rcases Index.mem_put member with rfl | member
        · exact left
        · exact indexed.targets entry member
  callers := by
    rw [byCaller_retain]
    exact indexed.callers
  covered e t l member := by
    rw [listeners_retain] at member
    rw [places, byCaller_retain]
    refine indexed.covered e t l ?_
    split at member
    · exact (List.mem_filter.mp member).1
    · exact member

theorem retainOthers (indexed : bus.Indexed) (caller : Nat) (places : List (String × Target)) :
    (bus.retainOthers caller places).Indexed := by
  induction places generalizing bus with
  | nil => exact indexed
  | cons first rest ih => exact ih (indexed.retain first.1 first.2)

/-- A bus stays indexed if the places cover the caller's listeners. -/
theorem setPlaces (indexed : bus.Indexed) {caller : Nat} {places : List (String × Target)}
    (cover : ∀ event target, ∀ l ∈ bus.listeners event target, l.caller = caller →
      (event, target) ∈ places) : (bus.setPlaces caller places).Indexed where
  events := indexed.events
  targets := indexed.targets
  callers := by
    simp only [Bus.setPlaces]
    split
    · exact Index.distinct_remove indexed.callers _
    · exact Index.distinct_put indexed.callers _ _
  covered event target l member := by
    rw [places_setPlaces]
    split
    · rename_i same
      exact cover event target l member same.symm
    · exact indexed.covered event target l member

theorem off (indexed : bus.Indexed) (event : String) (caller : Nat) : (bus.off event caller).Indexed := by
  rcases found : bus.byCaller.at? caller with _ | places
  · rw [Bus.off, found]
    exact indexed
  · rw [off_eq event caller found]
    refine (indexed.retainOthers caller _).setPlaces fun e t l member same => ?_
    rw [listeners_retainOthers] at member
    split at member
    · exact absurd same (of_decide_eq_true (List.mem_filter.mp member).2)
    · rename_i elsewhere
      have place := indexed.covered e t l member
      rw [same, Bus.places, found, Option.getD_some] at place
      refine List.mem_filter.mpr ⟨place, decide_eq_true fun here => elsewhere ?_⟩
      exact List.mem_filter.mpr ⟨place, decide_eq_true here⟩

/-- Removing a caller's listeners to an event leaves all others. -/
theorem listeners_off (indexed : bus.Indexed) (event : String) (caller : Nat) (e : String) (t : Target) :
    (bus.off event caller).listeners e t =
      if e = event then (bus.listeners e t).filter fun l => l.caller ≠ caller else bus.listeners e t := by
  have elsewhere (none : (e, t) ∉ bus.places caller) :
      ((bus.listeners e t).filter fun l => l.caller ≠ caller) = bus.listeners e t := by
    refine List.filter_eq_self.mpr fun l member => decide_eq_true fun same => none ?_
    rw [← same]
    exact indexed.covered e t l member
  rcases found : bus.byCaller.at? caller with _ | places
  · rw [Bus.off, found, elsewhere, ite_self]
    rw [Bus.places, found]
    exact List.not_mem_nil
  · have listed : bus.places caller = places := by rw [Bus.places, found]; rfl
    rw [off_eq event caller found, listeners_setPlaces, listeners_retainOthers]
    simp only [List.mem_filter, decide_eq_true_eq]
    by_cases same : e = event
    · rw [if_pos same]
      split
      · rfl
      · rename_i none
        exact (elsewhere fun member => none ⟨listed ▸ member, same⟩).symm
    · rw [if_neg same, if_neg fun both => same both.2]

/-- Removing a caller removes its listeners and leaves all others. -/
theorem listeners_offCaller (indexed : bus.Indexed) (caller : Nat) (event : String) (target : Target) :
    (bus.offCaller caller).listeners event target =
      (bus.listeners event target).filter fun l => l.caller ≠ caller := by
  have elsewhere (none : (event, target) ∉ bus.places caller) :
      ((bus.listeners event target).filter fun l => l.caller ≠ caller) = bus.listeners event target := by
    refine List.filter_eq_self.mpr fun l member => decide_eq_true fun same => none ?_
    rw [← same]
    exact indexed.covered event target l member
  rcases found : bus.byCaller.at? caller with _ | places
  · rw [offCaller, found, elsewhere]
    rw [Bus.places, found]
    exact List.not_mem_nil
  · rw [offCaller_eq caller found, listeners_setPlaces, listeners_retainOthers]
    split
    · rfl
    · rename_i none
      refine (elsewhere ?_).symm
      rw [Bus.places, found]
      exact none

theorem at?_offCaller (bus : Bus σ) (caller : Nat) : (bus.offCaller caller).byCaller.at? caller = none := by
  rcases found : bus.byCaller.at? caller with _ | places
  · rw [offCaller, found]
    exact found
  · rw [offCaller_eq caller found]
    exact (Index.at?_remove _ caller caller).trans (if_pos rfl)

theorem offCaller (indexed : bus.Indexed) (caller : Nat) : (bus.offCaller caller).Indexed := by
  have none (event : String) (target : Target) (l : Listener σ)
      (member : l ∈ (bus.offCaller caller).listeners event target) : l.caller ≠ caller := by
    rw [indexed.listeners_offCaller] at member
    exact of_decide_eq_true (List.mem_filter.mp member).2
  rcases found : bus.byCaller.at? caller with _ | places
  · rw [Bus.offCaller, found]
    exact indexed
  · rw [offCaller_eq caller found] at none ⊢
    exact (indexed.retainOthers caller _).setPlaces fun e t l member same =>
      absurd same (none e t l member)

theorem offListener (indexed : bus.Indexed) (id : Nat) (event : String) (target : Target) :
    (bus.offListener id event target).Indexed := by
  have left : (bus.retain event target fun l => decide (l.id ≠ id)).Indexed :=
    indexed.retain event target
  rw [Bus.offListener]
  generalize bus.retain event target (fun l => decide (l.id ≠ id)) = bus at left
  split
  · exact left
  · rename_i caller _
    split
    · exact left
    · rename_i none
      split
      · exact left
      · rename_i places found
        refine left.setPlaces fun e t l member same => ?_
        have place := left.covered e t l member
        rw [same, Bus.places, found, Option.getD_some] at place
        refine List.mem_filter.mpr ⟨place, decide_eq_true fun here => none ?_⟩
        cases here
        exact List.any_eq_true.mpr ⟨l, member, decide_eq_true same⟩

end Indexed

/-! ### What everything on a bus has in common -/

/-- Every caller and every target on the bus is of a kind. -/
structure Each (P : Nat → Prop) (T : Target → Prop) (bus : Bus σ) : Prop where
  listeners : ∀ entry ∈ bus.byEvent, ∀ here ∈ entry.2, ∀ l ∈ here.2, P l.caller
  targets : ∀ entry ∈ bus.byEvent, ∀ here ∈ entry.2, T here.1
  callers : ∀ entry ∈ bus.byCaller, P entry.1
  places : ∀ entry ∈ bus.byCaller, ∀ place ∈ entry.2, T place.2

namespace Each

variable {P Q : Nat → Prop} {T U : Target → Prop}

theorem mono (each : Each P T bus) (callers : ∀ c, P c → Q c) (targets : ∀ t, T t → U t) :
    Each Q U bus where
  listeners entry member here inside l present :=
    callers _ (each.listeners entry member here inside l present)
  targets entry member here inside := targets _ (each.targets entry member here inside)
  callers entry member := callers _ (each.callers entry member)
  places entry member place inside := targets _ (each.places entry member place inside)

theorem empty : Each P T (Bus.empty : Bus σ) := ⟨nofun, nofun, nofun, nofun⟩

theorem on (each : Each P T bus) (event : String) {target : Target} {caller : Nat} (sink : σ)
    (allowed : P caller) (reachable : T target) : Each P T (bus.on event target caller sink).2 where
  listeners entry member here inside l present := by
    rcases Index.mem_put member with rfl | member
    · rcases Index.mem_put inside with rfl | inside
      · rcases List.mem_append.mp present with present | new
        · obtain ⟨here, inside, present⟩ := Index.mem_of_mem_getD present
          obtain ⟨targets, member, inside⟩ := Index.mem_of_mem_getD inside
          exact each.listeners _ member _ inside l present
        · rw [List.mem_singleton.mp new]
          exact allowed
      · obtain ⟨targets, member, inside⟩ := Index.mem_of_mem_getD inside
        exact each.listeners _ member here inside l present
    · exact each.listeners entry member here inside l present
  targets entry member here inside := by
    rcases Index.mem_put member with rfl | member
    · rcases Index.mem_put inside with rfl | inside
      · exact reachable
      · obtain ⟨targets, member, inside⟩ := Index.mem_of_mem_getD inside
        exact each.targets _ member here inside
    · exact each.targets entry member here inside
  callers entry member := by
    rcases Index.mem_put member with rfl | member
    · exact allowed
    · exact each.callers entry member
  places entry member place inside := by
    have before (listed : place ∈ bus.places caller) : T place.2 := by
      obtain ⟨places, member, inside⟩ := Index.mem_of_mem_getD listed
      exact each.places _ member place inside
    rcases Index.mem_put member with rfl | member
    · simp only at inside
      split at inside
      · exact before inside
      · rcases List.mem_append.mp inside with inside | new
        · exact before inside
        · rw [List.mem_singleton.mp new]
          exact reachable
    · exact each.places entry member place inside

/-- What is left of the targets of an event was there before. -/
theorem mem_keepAt {targets : Index Target (List (Listener σ))} {target : Target}
    {here : Target × List (Listener σ)} (member : here ∈ keepAt targets target keep) :
    ∃ before, (here.1, before) ∈ targets ∧ ∀ l ∈ here.2, l ∈ before := by
  rw [keepAt] at member
  split at member
  · exact ⟨here.2, member, fun _ present => present⟩
  · rename_i before found
    split at member
    · exact ⟨here.2, (Index.mem_remove member).1, fun _ present => present⟩
    · rcases Index.mem_put member with rfl | member
      · exact ⟨before, Index.mem_of_at? found, fun _ present => (List.mem_filter.mp present).1⟩
      · exact ⟨here.2, member, fun _ present => present⟩

/-- What is left of the events was there before. -/
theorem mem_retain {event : String} {target : Target}
    {entry : String × Index Target (List (Listener σ))}
    (member : entry ∈ (bus.retain event target keep).byEvent) {here : Target × List (Listener σ)}
    (inside : here ∈ entry.2) :
    ∃ before ∈ bus.byEvent, ∃ listeners, (here.1, listeners) ∈ before.2 ∧ ∀ l ∈ here.2, l ∈ listeners := by
  rw [retain_eq] at member
  split at member
  · exact ⟨entry, member, here.2, inside, fun _ present => present⟩
  · rename_i targets found
    simp only at member
    split at member
    · exact ⟨entry, (Index.mem_remove member).1, here.2, inside, fun _ present => present⟩
    · rcases Index.mem_put member with rfl | member
      · obtain ⟨listeners, inside, kept⟩ := mem_keepAt inside
        exact ⟨_, Index.mem_of_at? found, listeners, inside, kept⟩
      · exact ⟨entry, member, here.2, inside, fun _ present => present⟩

theorem retain (each : Each P T bus) (event : String) (target : Target) :
    Each P T (bus.retain event target keep) where
  listeners entry member here inside l present := by
    obtain ⟨before, member, listeners, inside, kept⟩ := mem_retain member inside
    exact each.listeners before member _ inside l (kept l present)
  targets entry member here inside := by
    obtain ⟨before, member, listeners, inside, _⟩ := mem_retain member inside
    exact each.targets before member (here.1, listeners) inside
  callers := by
    rw [byCaller_retain]
    exact each.callers
  places := by
    rw [byCaller_retain]
    exact each.places

theorem retainOthers (each : Each P T bus) (caller : Nat) (places : List (String × Target)) :
    Each P T (bus.retainOthers caller places) := by
  induction places generalizing bus with
  | nil => exact each
  | cons first rest ih => exact ih (each.retain first.1 first.2)

/-- A caller that has places keeps some of them. -/
theorem setPlaces (each : Each P T bus) {caller : Nat} {places kept : List (String × Target)}
    (found : bus.byCaller.at? caller = some places) (sub : kept ⊆ places) :
    Each P T (bus.setPlaces caller kept) where
  listeners := each.listeners
  targets := each.targets
  callers entry member := by
    simp only [Bus.setPlaces] at member
    split at member
    · exact each.callers entry (Index.mem_remove member).1
    · rcases Index.mem_put member with rfl | member
      · exact each.callers (caller, places) (Index.mem_of_at? found)
      · exact each.callers entry member
  places entry member place inside := by
    simp only [Bus.setPlaces] at member
    split at member
    · exact each.places entry (Index.mem_remove member).1 place inside
    · rcases Index.mem_put member with rfl | member
      · exact each.places _ (Index.mem_of_at? found) place (sub inside)
      · exact each.places entry member place inside

theorem off (each : Each P T bus) (event : String) (caller : Nat) : Each P T (bus.off event caller) := by
  rcases found : bus.byCaller.at? caller with _ | places
  · rw [Bus.off, found]
    exact each
  · rw [off_eq event caller found]
    refine (each.retainOthers caller _).setPlaces ?_ List.filter_sublist.subset
    rw [byCaller_retainOthers]
    exact found

theorem offCaller (each : Each P T bus) (caller : Nat) : Each P T (bus.offCaller caller) := by
  rcases found : bus.byCaller.at? caller with _ | places
  · rw [Bus.offCaller, found]
    exact each
  · rw [offCaller_eq caller found]
    refine (each.retainOthers caller _).setPlaces ?_ (List.nil_subset places)
    rw [byCaller_retainOthers]
    exact found

theorem offListener (each : Each P T bus) (id : Nat) (event : String) (target : Target) :
    Each P T (bus.offListener id event target) := by
  have left : Each P T (bus.retain event target fun l => decide (l.id ≠ id)) :=
    each.retain event target
  rw [Bus.offListener]
  generalize bus.retain event target (fun l => decide (l.id ≠ id)) = bus at left
  split
  · exact left
  · split
    · exact left
    · split
      · exact left
      · rename_i places found
        exact left.setPlaces found List.filter_sublist.subset

/-- A caller that has been removed is nowhere to be found. -/
theorem without (each : Each P T bus) (indexed : bus.Indexed) (caller : Nat) :
    Each (fun c => P c ∧ c ≠ caller) T (bus.offCaller caller) where
  listeners entry member here inside l present := by
    refine ⟨(each.offCaller caller).listeners entry member here inside l present, ?_⟩
    have found := (indexed.offCaller caller).listeners_eq member inside
    rw [indexed.listeners_offCaller] at found
    rw [← found] at present
    exact of_decide_eq_true (List.mem_filter.mp present).2
  targets := (each.offCaller caller).targets
  callers entry member := by
    refine ⟨(each.offCaller caller).callers entry member, fun same => ?_⟩
    have found := Index.at?_of_mem (indexed.offCaller caller).callers member
    rw [same, Indexed.at?_offCaller] at found
    cases found
  places := (each.offCaller caller).places

end Each

end BehaviorTree.Bus
