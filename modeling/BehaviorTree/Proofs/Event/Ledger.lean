import BehaviorTree.Proofs.Event.Wired

/-!
The plain account of a bus: one list of all subscriptions, in the order in which they were made. The
two tables of a bus say nothing else. Whatever is subscribed and removed, the bus gives the ids that a
list of entries may give and shows just what is in that list.
-/

namespace BehaviorTree

/-- A subscription together with the place it was made at. -/
structure Entry (σ : Type) extends Listener σ where
  event : String
  target : Target

/-- The event and target that an entry is for. -/
def Entry.place {σ : Type} (e : Entry σ) : String × Target := (e.event, e.target)

/-- What can be done to a bus. -/
inductive BusOperation (σ : Type) where
  | on (event : String) (target : Target) (caller : Nat) (sink : σ)
  | off (event : String) (caller : Nat)
  | offCaller (caller : Nat)
  | offListener (id : Nat) (event : String) (target : Target)

/-- All subscriptions, the oldest first, and the ids that have ever been given out. -/
structure Ledger (σ : Type) where
  entries : List (Entry σ)
  used : List Nat

namespace Ledger

variable {σ : Type}

/-- The ledger before any operation. -/
def empty : Ledger σ := ⟨[], []⟩

/-- What an operation answers and does to the list of entries. A subscription may be given any id that
was never used before. -/
inductive Step : Ledger σ → BusOperation σ → Option Nat → Ledger σ → Prop where
  | on {ledger : Ledger σ} {id : Nat} (fresh : id ∉ ledger.used) (event : String) (target : Target)
      (caller : Nat) (sink : σ) :
      Step ledger (.on event target caller sink) (some id)
        ⟨ledger.entries ++ [⟨⟨id, caller, sink⟩, event, target⟩], id :: ledger.used⟩
  | off (ledger : Ledger σ) (event : String) (caller : Nat) :
      Step ledger (.off event caller) none
        { ledger with entries := ledger.entries.filter fun e => ¬ (e.event = event ∧ e.caller = caller) }
  | offCaller (ledger : Ledger σ) (caller : Nat) :
      Step ledger (.offCaller caller) none
        { ledger with entries := ledger.entries.filter fun e => ¬ e.caller = caller }
  | offListener (ledger : Ledger σ) (id : Nat) (event : String) (target : Target) :
      Step ledger (.offListener id event target) none
        { ledger with
          entries := ledger.entries.filter fun e => ¬ (e.id = id ∧ e.event = event ∧ e.target = target) }

/-- Operations one after another, with their answers. -/
inductive Steps : Ledger σ → List (BusOperation σ) → List (Option Nat) → Ledger σ → Prop where
  | none (ledger : Ledger σ) : Steps ledger [] [] ledger
  | more {first next last : Ledger σ} {operation : BusOperation σ} {operations : List (BusOperation σ)}
      {answer : Option Nat} {answers : List (Option Nat)} (step : Step first operation answer next)
      (steps : Steps next operations answers last) :
      Steps first (operation :: operations) (answer :: answers) last

end Ledger

namespace Bus

variable {σ : Type} {bus : Bus σ} {keep : Listener σ → Bool}

/-- Carries out an operation; a subscription is answered with its id. -/
def perform (bus : Bus σ) : BusOperation σ → Option Nat × Bus σ
  | .on event target caller sink => let (id, bus) := bus.on event target caller sink; (some id, bus)
  | .off event caller => (none, bus.off event caller)
  | .offCaller caller => (none, bus.offCaller caller)
  | .offListener id event target => (none, bus.offListener id event target)

/-- Carries out operations one after another and gives their answers. -/
def performAll (bus : Bus σ) : List (BusOperation σ) → List (Option Nat) × Bus σ
  | [] => ([], bus)
  | operation :: rest =>
    let (answer, bus) := bus.perform operation
    let (answers, bus) := performAll bus rest
    (answer :: answers, bus)

/-! ### No empty entries -/

/-- Neither table keeps an empty entry. -/
structure Compact (bus : Bus σ) : Prop where
  targets : ∀ entry ∈ bus.byEvent, entry.2 ≠ []
  listeners : ∀ entry ∈ bus.byEvent, ∀ here ∈ entry.2, here.2 ≠ []
  places : ∀ entry ∈ bus.byCaller, entry.2 ≠ []

namespace Compact

theorem empty : (Bus.empty : Bus σ).Compact := ⟨nofun, nofun, nofun⟩

theorem put_ne_nil {κ α : Type} [DecidableEq κ] (index : Index κ α) (k : κ) (v : α) :
    index.put k v ≠ [] := by
  cases index with
  | nil => exact List.cons_ne_nil _ _
  | cons entry rest =>
    rw [Index.put]
    split <;> exact List.cons_ne_nil _ _

theorem on (compact : bus.Compact) (event : String) (target : Target) (caller : Nat) (sink : σ) :
    (bus.on event target caller sink).2.Compact where
  targets entry member := by
    rcases Index.mem_put member with rfl | member
    · exact put_ne_nil _ _ _
    · exact compact.targets entry member
  listeners entry member here inside := by
    rcases Index.mem_put member with rfl | member
    · rcases Index.mem_put inside with rfl | inside
      · exact List.append_ne_nil_of_right_ne_nil _ (List.cons_ne_nil _ _)
      · obtain ⟨targets, member, inside⟩ := Index.mem_of_mem_getD inside
        exact compact.listeners _ member here inside
    · exact compact.listeners entry member here inside
  places entry member := by
    rcases Index.mem_put member with rfl | member
    · simp only
      split
      · rename_i listed
        exact List.ne_nil_of_mem listed
      · exact List.append_ne_nil_of_right_ne_nil _ (List.cons_ne_nil _ _)
    · exact compact.places entry member

theorem retain (compact : bus.Compact) (event : String) (target : Target) :
    (bus.retain event target keep).Compact := by
  rw [retain_eq]
  split
  · exact compact
  · rename_i targets found
    refine ⟨fun entry member => ?_, fun entry member here inside => ?_, compact.places⟩
    · simp only at member
      split at member
      · exact compact.targets entry (Index.mem_remove member).1
      · rename_i left
        rcases Index.mem_put member with rfl | member
        · exact fun none => left (List.isEmpty_iff.mpr none)
        · exact compact.targets entry member
    · simp only at member
      split at member
      · exact compact.listeners entry (Index.mem_remove member).1 here inside
      · rcases Index.mem_put member with rfl | member
        · have before := compact.listeners _ (Index.mem_of_at? found)
          simp only [keepAt] at inside
          split at inside
          · exact before here inside
          · split at inside
            · exact before here (Index.mem_remove inside).1
            · rename_i left
              rcases Index.mem_put inside with rfl | inside
              · exact fun none => left (List.isEmpty_iff.mpr none)
              · exact before here inside
        · exact compact.listeners entry member here inside

theorem retainOthers (compact : bus.Compact) (caller : Nat) (places : List (String × Target)) :
    (bus.retainOthers caller places).Compact := by
  induction places generalizing bus with
  | nil => exact compact
  | cons first rest ih => exact ih (compact.retain first.1 first.2)

theorem setPlaces (compact : bus.Compact) (caller : Nat) (places : List (String × Target)) :
    (bus.setPlaces caller places).Compact := by
  refine ⟨compact.targets, compact.listeners, fun entry member => ?_⟩
  simp only [Bus.setPlaces] at member
  split at member
  · exact compact.places entry (Index.mem_remove member).1
  · rename_i left
    rcases Index.mem_put member with rfl | member
    · exact fun none => left (List.isEmpty_iff.mpr none)
    · exact compact.places entry member

theorem off (compact : bus.Compact) (event : String) (caller : Nat) : (bus.off event caller).Compact := by
  rcases found : bus.byCaller.at? caller with _ | places
  · rw [Bus.off, found]
    exact compact
  · rw [off_eq event caller found]
    exact (compact.retainOthers caller _).setPlaces caller _

theorem offCaller (compact : bus.Compact) (caller : Nat) : (bus.offCaller caller).Compact := by
  rcases found : bus.byCaller.at? caller with _ | places
  · rw [Bus.offCaller, found]
    exact compact
  · rw [offCaller_eq caller found]
    exact (compact.retainOthers caller _).setPlaces caller _

theorem offListener (compact : bus.Compact) (id : Nat) (event : String) (target : Target) :
    (bus.offListener id event target).Compact := by
  have left : (bus.retain event target fun l => decide (l.id ≠ id)).Compact := compact.retain event target
  rw [Bus.offListener]
  split
  · exact left
  · split
    · exact left
    · split
      · exact left
      · exact left.setPlaces _ _

/-- A caller has an entry just when it has places. -/
theorem hasCaller_iff (compact : bus.Compact) (caller : Nat) :
    bus.hasCaller caller = true ↔ ∃ place, place ∈ bus.places caller := by
  rw [hasCaller, Bus.places]
  rcases found : bus.byCaller.at? caller with _ | places
  · constructor
    · rintro ⟨⟩
    · rintro ⟨place, member⟩
      exact absurd member List.not_mem_nil
  · exact ⟨fun _ => List.exists_mem_of_ne_nil places (compact.places _ (Index.mem_of_at? found)),
      fun _ => rfl⟩

end Compact

/-! ### Places that are left -/

/-- A caller that gives up an event keeps its other places. -/
theorem mem_places_off {event : String} {caller other : Nat} {place : String × Target} :
    place ∈ (bus.off event caller).places other ↔
      place ∈ bus.places other ∧ ¬ (other = caller ∧ place.1 = event) := by
  rcases found : bus.byCaller.at? caller with _ | places
  · rw [Bus.off, found]
    refine ⟨fun member => ⟨member, fun both => ?_⟩, And.left⟩
    rw [both.1, Bus.places, found] at member
    exact absurd member List.not_mem_nil
  · rw [off_eq event caller found, places_setPlaces]
    split
    · rename_i same
      rw [← same, Bus.places, found, Option.getD_some, List.mem_filter, decide_eq_true_eq]
      simp only [true_and]
    · rename_i apart
      rw [Bus.places, byCaller_retainOthers]
      exact ⟨fun member => ⟨member, fun both => apart both.1.symm⟩, And.left⟩

/-- A caller that gives up everything keeps no place, and the others keep theirs. -/
theorem mem_places_offCaller {caller other : Nat} {place : String × Target} :
    place ∈ (bus.offCaller caller).places other ↔ place ∈ bus.places other ∧ ¬ other = caller := by
  rcases found : bus.byCaller.at? caller with _ | places
  · rw [Bus.offCaller, found]
    refine ⟨fun member => ⟨member, fun same => ?_⟩, And.left⟩
    rw [same, Bus.places, found] at member
    exact absurd member List.not_mem_nil
  · rw [offCaller_eq caller found, places_setPlaces]
    split
    · rename_i same
      exact ⟨fun member => absurd member List.not_mem_nil, fun both => absurd same.symm both.2⟩
    · rename_i apart
      rw [Bus.places, byCaller_retainOthers]
      exact ⟨fun member => ⟨member, fun same => apart same.symm⟩, And.left⟩

/-- A place that is left was there before; if a listener with the id was removed there, its owner has
another one. -/
theorem mem_places_offListener {id : Nat} {event : String} {target : Target} {caller : Nat}
    {place : String × Target} (member : place ∈ (bus.offListener id event target).places caller)
    (single : ∀ l ∈ bus.listeners event target, ∀ m ∈ bus.listeners event target, l.id = m.id → l = m) :
    place ∈ bus.places caller ∧
      ∀ l ∈ bus.listeners event target, l.id = id → l.caller = caller → place = (event, target) →
        ∃ other ∈ bus.listeners event target, other.id ≠ id ∧ other.caller = caller := by
  have left (other : Nat) : (bus.retain event target fun l => decide (l.id ≠ id)).places other = bus.places other := by
    rw [Bus.places, byCaller_retain]
    rfl
  have listed : (bus.retain event target fun l => decide (l.id ≠ id)).listeners event target =
      (bus.listeners event target).filter fun l => decide (l.id ≠ id) := by
    rw [listeners_retain, if_pos ⟨rfl, rfl⟩]
  rw [Bus.offListener] at member
  rcases found : (bus.listeners event target).find? fun l => l.id = id with _ | owner
  · rw [found] at member
    refine ⟨(left caller) ▸ member, fun l present same => ?_⟩
    exact absurd (decide_eq_true same) (List.find?_eq_none.mp found l present)
  · have named : owner.id = id := by simpa using List.find?_some found
    have present := List.mem_of_find?_eq_some found
    simp only [found, Option.map_some, listed] at member
    split at member
    · rename_i another
      refine ⟨(left caller) ▸ member, fun l there same own _ => ?_⟩
      obtain ⟨other, there', owns⟩ := List.any_eq_true.mp another
      obtain ⟨there', stays⟩ := List.mem_filter.mp there'
      refine ⟨other, there', of_decide_eq_true stays, (of_decide_eq_true owns).trans ?_⟩
      rw [single owner present l there (named.trans same.symm), own]
    · split at member
      · rename_i none
        have none' : bus.places owner.caller = [] := by
          rw [← left owner.caller, Bus.places, none]
          rfl
        refine ⟨(left caller) ▸ member, fun l there same own _ => ?_⟩
        rw [left, ← own, ← single owner present l there (named.trans same.symm), none'] at member
        exact absurd member List.not_mem_nil
      · rename_i places here
        rw [places_setPlaces] at member
        split at member
        · rename_i same
          obtain ⟨known, elsewhere⟩ := List.mem_filter.mp member
          refine ⟨?_, fun _ _ _ _ here => absurd here (of_decide_eq_true elsewhere)⟩
          rw [← left caller, ← same, Bus.places, here]
          exact known
        · rename_i apart
          refine ⟨(left caller) ▸ member, fun l there same own _ => absurd ?_ apart⟩
          rw [single owner present l there (named.trans same.symm), own]

/-! ### The bus and the list -/

/-- A bus shows what is in a list of entries. -/
structure Shows (bus : Bus σ) (entries : List (Entry σ)) : Prop where
  listeners : ∀ event target, bus.listeners event target =
    (entries.filter fun e => e.event = event ∧ e.target = target).map Entry.toListener
  count : bus.count = entries.length
  hasCaller : ∀ caller, bus.hasCaller caller = true ↔ ∃ e ∈ entries, e.caller = caller
  places : ∀ caller event target, (event, target) ∈ bus.places caller ↔
    ∃ e ∈ entries, e.caller = caller ∧ e.event = event ∧ e.target = target
  compact : bus.Compact
  apart : (entries.map fun e => e.id).Nodup

/-- What every operation keeps of a bus and the ledger of what was done to it. -/
structure Keeps (bus : Bus σ) (ledger : Ledger σ) : Prop where
  indexed : bus.Indexed
  compact : bus.Compact
  listeners : ∀ event target, bus.listeners event target =
    (ledger.entries.filter fun e => e.event = event ∧ e.target = target).map Entry.toListener
  /-- A caller's places are not recorded longer than it has listeners there. -/
  owned : ∀ caller, ∀ place ∈ bus.places caller, ∃ e ∈ ledger.entries, e.caller = caller ∧ e.place = place
  apart : (ledger.entries.map fun e => e.id).Nodup
  used : ∀ e ∈ ledger.entries, e.id ∈ ledger.used
  issued : ∀ id ∈ ledger.used, id ≤ bus.issued

namespace Keeps

variable {ledger : Ledger σ}

theorem empty : (Bus.empty : Bus σ).Keeps .empty where
  indexed := indexed_empty
  compact := .empty
  listeners _ _ := rfl
  owned := nofun
  apart := .nil
  used := nofun
  issued := nofun

theorem mem_listeners (keeps : bus.Keeps ledger) {e : Entry σ} (member : e ∈ ledger.entries) :
    e.toListener ∈ bus.listeners e.event e.target := by
  rw [keeps.listeners]
  exact List.mem_map.mpr ⟨e, List.mem_filter.mpr ⟨member, decide_eq_true ⟨rfl, rfl⟩⟩, rfl⟩

theorem entry_of_mem (keeps : bus.Keeps ledger) {event : String} {target : Target} {l : Listener σ}
    (present : l ∈ bus.listeners event target) :
    ∃ e ∈ ledger.entries, e.toListener = l ∧ e.event = event ∧ e.target = target := by
  rw [keeps.listeners] at present
  obtain ⟨e, member, rfl⟩ := List.mem_map.mp present
  obtain ⟨member, here⟩ := List.mem_filter.mp member
  exact ⟨e, member, rfl, of_decide_eq_true here⟩

theorem eq_of_id (keeps : bus.Keeps ledger) {e other : Entry σ} (member : e ∈ ledger.entries)
    (member' : other ∈ ledger.entries) (same : e.id = other.id) : e = other :=
  List.inj_on_of_nodup_map keeps.apart member member' same

theorem single (keeps : bus.Keeps ledger) {event : String} {target : Target} {l m : Listener σ}
    (present : l ∈ bus.listeners event target) (present' : m ∈ bus.listeners event target)
    (same : l.id = m.id) : l = m := by
  obtain ⟨e, member, rfl, -, -⟩ := keeps.entry_of_mem present
  obtain ⟨other, member', rfl, -, -⟩ := keeps.entry_of_mem present'
  rw [keeps.eq_of_id member member' same]

/-- A subscription is entered last, under the next number. -/
theorem on (keeps : bus.Keeps ledger) (event : String) (target : Target) (caller : Nat) (sink : σ) :
    (bus.on event target caller sink).2.Keeps
      ⟨ledger.entries ++ [⟨⟨bus.issued + 1, caller, sink⟩, event, target⟩], (bus.issued + 1) :: ledger.used⟩ where
  indexed := keeps.indexed.on event target caller sink
  compact := keeps.compact.on event target caller sink
  listeners e t := by
    rw [listeners_on, keeps.listeners, List.filter_append, List.map_append, List.filter_singleton]
    by_cases here : event = e ∧ target = t
    · rw [if_pos here, decide_eq_true here]
      rfl
    · rw [if_neg here, decide_eq_false here]
      rfl
  owned other place member := by
    rcases (mem_places_on event target caller sink other place).mp member with before | ⟨rfl, rfl⟩
    · obtain ⟨e, member, owns⟩ := keeps.owned other place before
      exact ⟨e, List.mem_append_left _ member, owns⟩
    · exact ⟨_, List.mem_append_right _ (List.mem_singleton.mpr rfl), rfl, rfl⟩
  apart := by
    rw [List.map_append, List.map_singleton]
    refine keeps.apart.append (List.nodup_singleton _) (List.disjoint_singleton.mpr fun member => ?_)
    obtain ⟨e, member, same⟩ := List.mem_map.mp member
    have bound : e.id ≤ bus.issued := keeps.issued e.id (keeps.used e member)
    rw [same] at bound
    exact absurd bound (Nat.not_succ_le_self _)
  used e member := by
    rcases List.mem_append.mp member with member | new
    · exact List.mem_cons_of_mem _ (keeps.used e member)
    · rw [List.mem_singleton.mp new]
      exact List.mem_cons_self
  issued id member := by
    change id ≤ bus.issued + 1
    rcases List.mem_cons.mp member with rfl | member
    · exact Nat.le_refl _
    · exact Nat.le_succ_of_le (keeps.issued id member)

/-- Entries are removed from the list and their listeners from the bus. -/
theorem thin (keeps : bus.Keeps ledger) {stays : Entry σ → Bool} {bus' : Bus σ} (indexed : bus'.Indexed)
    (compact : bus'.Compact) (issued : bus'.issued = bus.issued)
    (listeners : ∀ event target, bus'.listeners event target =
      ((ledger.entries.filter fun e => e.event = event ∧ e.target = target).filter stays).map Entry.toListener)
    (owned : ∀ caller, ∀ place ∈ bus'.places caller,
      ∃ e ∈ ledger.entries, stays e = true ∧ e.caller = caller ∧ e.place = place) :
    bus'.Keeps { ledger with entries := ledger.entries.filter stays } where
  indexed := indexed
  compact := compact
  listeners event target := by rw [listeners, List.filter_comm]
  owned caller place member := by
    obtain ⟨e, member, left, owns⟩ := owned caller place member
    exact ⟨e, List.mem_filter.mpr ⟨member, left⟩, owns⟩
  apart := (List.filter_sublist.map _).nodup keeps.apart
  used e member := keeps.used e (List.mem_filter.mp member).1
  issued := by
    rw [issued]
    exact keeps.issued

/-- A caller's entries for an event are struck out. -/
theorem off (keeps : bus.Keeps ledger) (event : String) (caller : Nat) :
    (bus.off event caller).Keeps
      { ledger with entries := ledger.entries.filter fun e => ¬ (e.event = event ∧ e.caller = caller) } := by
  have listeners := keeps.indexed.listeners_off event caller
  refine keeps.thin (keeps.indexed.off event caller) (keeps.compact.off event caller)
    (without_off bus event caller).issued (fun e t => ?_) fun other place member => ?_
  · rw [listeners, keeps.listeners]
    split
    · rename_i same
      rw [List.filter_map]
      refine congrArg (List.map _) (List.filter_congr fun entry member => ?_)
      have here := of_decide_eq_true (List.mem_filter.mp member).2
      simp only [Function.comp, here.1, same, true_and]
    · rename_i other
      refine congrArg (List.map _) (List.filter_eq_self.mpr fun entry member => ?_).symm
      have here := of_decide_eq_true (List.mem_filter.mp member).2
      exact decide_eq_true fun both => other (here.1.symm.trans both.1)
  · obtain ⟨known, apart⟩ := mem_places_off.mp member
    obtain ⟨e, member, own, here⟩ := keeps.owned other place known
    refine ⟨e, member, decide_eq_true fun both => apart ?_, own, here⟩
    exact ⟨own.symm.trans both.2, (congrArg Prod.fst here).symm.trans both.1⟩

/-- All entries of a caller are struck out. -/
theorem offCaller (keeps : bus.Keeps ledger) (caller : Nat) :
    (bus.offCaller caller).Keeps
      { ledger with entries := ledger.entries.filter fun e => ¬ e.caller = caller } := by
  refine keeps.thin (keeps.indexed.offCaller caller) (keeps.compact.offCaller caller)
    (without_offCaller bus caller).issued (fun e t => ?_) fun other place member => ?_
  · rw [keeps.indexed.listeners_offCaller, keeps.listeners, List.filter_map]
    rfl
  · obtain ⟨known, apart⟩ := mem_places_offCaller.mp member
    obtain ⟨e, member, own, here⟩ := keeps.owned other place known
    exact ⟨e, member, decide_eq_true fun same => apart (own.symm.trans same), own, here⟩

/-- The entry of one listener is struck out. -/
theorem offListener (keeps : bus.Keeps ledger) (id : Nat) (event : String) (target : Target) :
    (bus.offListener id event target).Keeps
      { ledger with
        entries := ledger.entries.filter fun e => ¬ (e.id = id ∧ e.event = event ∧ e.target = target) } := by
  refine keeps.thin (keeps.indexed.offListener id event target) (keeps.compact.offListener id event target)
    (issued_offListener id event target) (fun e t => ?_) fun caller place member => ?_
  · rw [listeners_offListener, keeps.listeners]
    split
    · rename_i same
      rw [List.filter_map]
      refine congrArg (List.map _) (List.filter_congr fun entry member => ?_)
      have here := of_decide_eq_true (List.mem_filter.mp member).2
      simp only [Function.comp, here.1, here.2, same.1, same.2, and_self, and_true, ne_eq]
    · rename_i other
      refine congrArg (List.map _) (List.filter_eq_self.mpr fun entry member => ?_).symm
      have here := of_decide_eq_true (List.mem_filter.mp member).2
      exact decide_eq_true fun both =>
        other ⟨both.2.1.symm.trans here.1, both.2.2.symm.trans here.2⟩
  · obtain ⟨known, needed⟩ :=
      mem_places_offListener member fun _ there _ there' => keeps.single there there'
    obtain ⟨e, listed, own, here⟩ := keeps.owned caller place known
    by_cases gone : e.id = id ∧ e.event = event ∧ e.target = target
    · -- The entry goes, so its caller is the owner; the place stays only for another listener.
      obtain ⟨rfl, rfl, rfl⟩ := gone
      obtain ⟨l, present, stays, owner⟩ := needed e.toListener (keeps.mem_listeners listed) rfl own here.symm
      obtain ⟨other, member', rfl, sameEvent, sameTarget⟩ := keeps.entry_of_mem present
      refine ⟨other, member', decide_eq_true fun both => stays both.1, owner, ?_⟩
      exact (Prod.ext sameEvent sameTarget : other.place = e.place).trans here
    · exact ⟨e, listed, decide_eq_true gone, own, here⟩

/-! ### What a bus shows -/

/-- All listeners of a bus are those of the entries, in some order. -/
theorem all_perm (keeps : bus.Keeps ledger) : bus.all.Perm (ledger.entries.map Entry.toListener) := by
  have inside {event : String} {targets : Index Target (List (Listener σ))} {target : Target}
      {here : List (Listener σ)} {l : Listener σ} (inEvents : (event, targets) ∈ bus.byEvent)
      (inTargets : (target, here) ∈ targets) (member : l ∈ here) :
      ∃ e ∈ ledger.entries, e.toListener = l ∧ e.event = event ∧ e.target = target :=
    keeps.entry_of_mem (keeps.indexed.listeners_eq inEvents inTargets ▸ member)
  have distinct : (ledger.entries.map Entry.toListener).Nodup :=
    List.Nodup.of_map Listener.id (by rw [List.map_map]; exact keeps.apart)
  refine (List.perm_ext_iff_of_nodup ?_ distinct).mpr fun l => ?_
  · refine Index.nodup_flatMap keeps.indexed.events (fun entry inEvents => ?_)
      fun entry inEvents other inEvents' l there there' => ?_
    · refine Index.nodup_flatMap (f := id) (keeps.indexed.targets entry inEvents) (fun place inTargets => ?_)
        fun place inTargets place' inTargets' l there there' => ?_
      · rw [id, ← keeps.indexed.listeners_eq inEvents inTargets, keeps.listeners]
        exact (List.filter_sublist.map _).nodup distinct
      · obtain ⟨e, member, rfl, -, here⟩ := inside inEvents inTargets there
        obtain ⟨e', member', same, -, here'⟩ := inside inEvents inTargets' there'
        rw [← here, ← here', keeps.eq_of_id member' member (congrArg Listener.id same)]
    · obtain ⟨place, inTargets, there⟩ := List.mem_flatMap.mp there
      obtain ⟨place', inTargets', there'⟩ := List.mem_flatMap.mp there'
      obtain ⟨e, member, rfl, here, -⟩ := inside inEvents inTargets there
      obtain ⟨e', member', same, here', -⟩ := inside inEvents' inTargets' there'
      rw [← here, ← here', keeps.eq_of_id member' member (congrArg Listener.id same)]
  · rw [keeps.indexed.mem_all]
    constructor
    · rintro ⟨event, target, present⟩
      obtain ⟨e, member, rfl, -, -⟩ := keeps.entry_of_mem present
      exact List.mem_map_of_mem member
    · intro member
      obtain ⟨e, listed, rfl⟩ := List.mem_map.mp member
      exact ⟨_, _, keeps.mem_listeners listed⟩

/-- A caller's places are those of its entries. -/
theorem mem_places_iff (keeps : bus.Keeps ledger) (caller : Nat) (event : String) (target : Target) :
    (event, target) ∈ bus.places caller ↔
      ∃ e ∈ ledger.entries, e.caller = caller ∧ e.event = event ∧ e.target = target := by
  constructor
  · intro known
    obtain ⟨e, member, own, here⟩ := keeps.owned caller (event, target) known
    exact ⟨e, member, own, congrArg Prod.fst here, congrArg Prod.snd here⟩
  · rintro ⟨e, member, rfl, rfl, rfl⟩
    exact keeps.indexed.covered _ _ _ (keeps.mem_listeners member)

/-- The bus shows what the ledger holds. -/
theorem shows (keeps : bus.Keeps ledger) : bus.Shows ledger.entries where
  listeners := keeps.listeners
  count := by rw [Bus.count, keeps.all_perm.length_eq, List.length_map]
  hasCaller caller := by
    rw [keeps.compact.hasCaller_iff]
    constructor
    · rintro ⟨place, known⟩
      obtain ⟨e, member, own, -⟩ := keeps.owned caller place known
      exact ⟨e, member, own⟩
    · rintro ⟨e, member, own⟩
      exact ⟨_, (keeps.mem_places_iff caller _ _).mpr ⟨e, member, own, rfl, rfl⟩⟩
  places := keeps.mem_places_iff
  compact := keeps.compact
  apart := keeps.apart

/-! ### Runs -/

/-- An operation is a step of the ledger. -/
theorem perform (keeps : bus.Keeps ledger) (operation : BusOperation σ) :
    ∃ next, ledger.Step operation (bus.perform operation).1 next ∧ (bus.perform operation).2.Keeps next := by
  cases operation with
  | on event target caller sink =>
    have fresh : bus.issued + 1 ∉ ledger.used := fun member =>
      absurd (keeps.issued _ member) (Nat.not_succ_le_self _)
    exact ⟨_, .on fresh event target caller sink, keeps.on event target caller sink⟩
  | off event caller => exact ⟨_, .off ledger event caller, keeps.off event caller⟩
  | offCaller caller => exact ⟨_, .offCaller ledger caller, keeps.offCaller caller⟩
  | offListener id event target =>
    exact ⟨_, .offListener ledger id event target, keeps.offListener id event target⟩

/-- Through every sequence of operations the bus keeps a ledger. -/
theorem performAll (keeps : bus.Keeps ledger) (operations : List (BusOperation σ)) :
    ∃ last, ledger.Steps operations (bus.performAll operations).1 last ∧
      (bus.performAll operations).2.Keeps last := by
  induction operations generalizing bus ledger with
  | nil => exact ⟨ledger, .none ledger, keeps⟩
  | cons operation rest ih =>
    obtain ⟨next, step, keeps⟩ := keeps.perform operation
    obtain ⟨last, steps, keeps⟩ := ih keeps
    exact ⟨last, .more step steps, keeps⟩

end Keeps

/-- Whatever is done to a new bus, it answers like a list of entries and shows what is in that list. -/
theorem performAll_shows_ledger (operations : List (BusOperation σ)) :
    ∃ ledger, Ledger.empty.Steps operations (performAll empty operations).1 ledger ∧
      (performAll empty operations).2.Shows ledger.entries := by
  obtain ⟨ledger, steps, keeps⟩ := Keeps.empty.performAll operations
  exact ⟨ledger, steps, keeps.shows⟩

/-- A place stays for the other listener there, and an id at a place where it is not removes nothing. -/
example :
    let bus := ((empty : Bus Unit).performAll
      [.on "hit" .everyone 1 (), .on "hit" .everyone 1 (), .on "hit" (.named "orc") 1 (),
        .offListener 1 "hit" .everyone, .offListener 3 "hit" .everyone]).2
    bus.places 1 = [("hit", .everyone), ("hit", .named "orc")] ∧ bus.count = 2 := by decide

end Bus
end BehaviorTree
