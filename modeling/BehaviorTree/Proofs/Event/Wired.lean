import BehaviorTree.Proofs.Event.Bus
import BehaviorTree.Proofs.Event.Mailbox
import Mathlib.Data.List.Nodup

/-!
Mailboxes and the listeners on the bus. In a wired context every listener that fills a mailbox has
one, of the same caller and for the place where it listens, and no listener of a host is taken for
such a listener. A mailbox is attended as long as its listener stands on the bus. Opening and
closing mailboxes keeps a context wired, and so does removing any other listeners; a mailbox is
only touched on behalf of the caller it belongs to.
-/

namespace BehaviorTree

namespace Bus

variable {σ : Type} {bus older newer : Bus σ} {gone : Listener σ → Prop}

/-- Giving up a listener removes it from its place and nothing else. -/
theorem listeners_offListener (bus : Bus σ) (id : Nat) (event : String) (target : Target) (e : String)
    (t : Target) :
    (bus.offListener id event target).listeners e t =
      if event = e ∧ target = t then (bus.listeners e t).filter fun l => l.id ≠ id
      else bus.listeners e t := by
  rw [← listeners_retain, offListener]
  split
  · rfl
  · split
    · rfl
    · split <;> rfl

theorem issued_retain (event : String) (target : Target) (keep : Listener σ → Bool) :
    (bus.retain event target keep).issued = bus.issued := by
  rw [retain_eq]
  split <;> rfl

theorem issued_offListener (id : Nat) (event : String) (target : Target) :
    (bus.offListener id event target).issued = bus.issued := by
  refine Eq.trans ?_ (issued_retain event target fun l => decide (l.id ≠ id))
  rw [offListener]
  split
  · rfl
  · split
    · rfl
    · split <;> rfl

theorem issued_retainOthers (caller : Nat) (places : List (String × Target)) :
    (bus.retainOthers caller places).issued = bus.issued := by
  induction places generalizing bus with
  | nil => rfl
  | cons first rest ih => rw [retainOthers_cons, ih, issued_retain]

/-- Nothing but listeners of a kind has been removed. -/
structure Without (gone : Listener σ → Prop) (older newer : Bus σ) : Prop where
  issued : newer.issued = older.issued
  kept : ∀ event target, ∃ keep : Listener σ → Bool,
    (∀ l ∈ older.listeners event target, ¬ gone l → keep l) ∧
      newer.listeners event target = (older.listeners event target).filter keep

namespace Without

theorem sublist (without : Without gone older newer) (event : String) (target : Target) :
    (newer.listeners event target).Sublist (older.listeners event target) := by
  obtain ⟨keep, -, same⟩ := without.kept event target
  rw [same]
  exact List.filter_sublist

theorem mem (without : Without gone older newer) {event : String} {target : Target} {l : Listener σ}
    (present : l ∈ older.listeners event target) (stays : ¬ gone l) :
    l ∈ newer.listeners event target := by
  obtain ⟨keep, keeps, same⟩ := without.kept event target
  rw [same]
  exact List.mem_filter.mpr ⟨present, keeps l present stays⟩

theorem filter (without : Without gone older newer) {p : Listener σ → Bool}
    (stay : ∀ l, p l → ¬ gone l) (event : String) (target : Target) :
    (newer.listeners event target).filter p = (older.listeners event target).filter p := by
  obtain ⟨keep, keeps, same⟩ := without.kept event target
  rw [same, List.filter_filter]
  refine List.filter_congr fun l present => ?_
  by_cases holds : p l
  · rw [keeps l present (stay l holds), Bool.and_true]
  · rw [Bool.eq_false_iff.mpr holds, Bool.false_and]

theorem mono {other : Listener σ → Prop} (without : Without gone older newer)
    (sub : ∀ event target, ∀ l ∈ older.listeners event target, gone l → other l) :
    Without other older newer := by
  refine ⟨without.issued, fun event target => ?_⟩
  obtain ⟨keep, keeps, same⟩ := without.kept event target
  exact ⟨keep, fun l present stays => keeps l present fun goes => stays (sub event target l present goes), same⟩

end Without

theorem without_refl (bus : Bus σ) : Without gone bus bus :=
  ⟨rfl, fun _ _ => ⟨fun _ => true, fun _ _ _ => rfl, (List.filter_eq_self.mpr fun _ _ => rfl).symm⟩⟩

theorem without_retainOthers (bus : Bus σ) (caller : Nat) (places : List (String × Target)) :
    Without (fun l => l.caller = caller) bus (bus.retainOthers caller places) := by
  refine ⟨issued_retainOthers caller places, fun event target => ?_⟩
  rw [listeners_retainOthers]
  split
  · exact ⟨_, fun l _ other => decide_eq_true other, rfl⟩
  · exact (without_refl bus).kept event target

/-- A caller that gives up an event loses none but its own listeners. -/
theorem without_off (bus : Bus σ) (event : String) (caller : Nat) :
    Without (fun l => l.caller = caller) bus (bus.off event caller) := by
  rcases found : bus.byCaller.at? caller with _ | places
  · rw [off, found]
    exact without_refl bus
  · rw [off_eq event caller found]
    obtain ⟨issued, kept⟩ := without_retainOthers bus caller (places.filter fun place => place.1 = event)
    exact ⟨issued, kept⟩

/-- A caller that gives up everything loses none but its own listeners. -/
theorem without_offCaller (bus : Bus σ) (caller : Nat) :
    Without (fun l => l.caller = caller) bus (bus.offCaller caller) := by
  rcases found : bus.byCaller.at? caller with _ | places
  · rw [offCaller, found]
    exact without_refl bus
  · rw [offCaller_eq caller found]
    obtain ⟨issued, kept⟩ := without_retainOthers bus caller places
    exact ⟨issued, kept⟩

theorem without_offListener (bus : Bus σ) (id : Nat) (event : String) (target : Target) :
    Without (fun l => l.id = id) bus (bus.offListener id event target) := by
  refine ⟨issued_offListener id event target, fun e t => ?_⟩
  rw [listeners_offListener]
  split
  · exact ⟨_, fun l _ other => decide_eq_true other, rfl⟩
  · exact (without_refl bus).kept e t

end Bus

namespace Mailbox

/-- The listener that fills a mailbox. -/
def ear (box : Mailbox) : Listener Sink := ⟨box.listener, box.caller, .mailbox⟩

/-- The mailbox once the events that wait in the mailbox of a listener have changed. -/
def fill (id : Nat) (update : List (List Value) → List (List Value)) (box : Mailbox) : Mailbox :=
  if box.listener = id then { box with queue := update box.queue } else box

/-- The mailbox apart from the events that wait in it. -/
def emptied (box : Mailbox) : Mailbox := { box with queue := [] }

variable (id : Nat) (update : List (List Value) → List (List Value)) (box : Mailbox)

@[simp] theorem listener_fill : (box.fill id update).listener = box.listener := by
  unfold fill
  split <;> rfl

@[simp] theorem caller_fill : (box.fill id update).caller = box.caller := by
  unfold fill
  split <;> rfl

@[simp] theorem event_fill : (box.fill id update).event = box.event := by
  unfold fill
  split <;> rfl

@[simp] theorem target_fill : (box.fill id update).target = box.target := by
  unfold fill
  split <;> rfl

@[simp] theorem ear_fill : (box.fill id update).ear = box.ear := by simp [ear]

@[simp] theorem emptied_fill : (box.fill id update).emptied = box.emptied := by simp [emptied]

end Mailbox

namespace Context

variable {ctx older newer : Context}

/-- Mailboxes of a caller. -/
def boxes (ctx : Context) (caller : Nat) : List Mailbox := ctx.mailboxes.filter fun box => box.caller = caller

/-- Listeners are numbered as they come, and those that fill a mailbox are matched with the
mailboxes. -/
structure Wired (ctx : Context) : Prop where
  apart : (ctx.mailboxes.map Mailbox.listener).Nodup
  opened : ∀ box ∈ ctx.mailboxes, box.listener ≤ ctx.bus.issued
  numbered : ∀ event target, ∀ l ∈ ctx.bus.listeners event target, l.id ≤ ctx.bus.issued
  distinct : ∀ event target, ((ctx.bus.listeners event target).map Listener.id).Nodup
  /-- A listener that fills a mailbox has one. -/
  boxed : ∀ event target, ∀ l ∈ ctx.bus.listeners event target, l.sink = .mailbox →
    ∃ box ∈ ctx.mailboxes, box.ear = l ∧ box.event = event ∧ box.target = target
  /-- A host's listener has none. -/
  hosted : ∀ event target, ∀ l ∈ ctx.bus.listeners event target, l.sink ≠ .mailbox →
    ∀ box ∈ ctx.mailboxes, box.listener ≠ l.id

/-- The mailboxes of a caller are filled. -/
def Attended (caller : Nat) (ctx : Context) : Prop :=
  ∀ box ∈ ctx.mailboxes, box.caller = caller → box.ear ∈ ctx.bus.listeners box.event box.target

theorem mem_boxes {caller : Nat} {box : Mailbox} :
    box ∈ ctx.boxes caller ↔ box ∈ ctx.mailboxes ∧ box.caller = caller := by
  rw [boxes, List.mem_filter, decide_eq_true_eq]

theorem mailboxes_updateMailbox (id : Nat) (update : List (List Value) → List (List Value)) :
    (ctx.updateMailbox id update).mailboxes = ctx.mailboxes.map (Mailbox.fill id update) := rfl

theorem wired_new (registry : Registry) : (new registry).Wired where
  apart := List.nodup_nil
  opened := nofun
  numbered := nofun
  distinct _ _ := List.nodup_nil
  boxed := nofun
  hosted := nofun

namespace Wired

/-- Mailboxes are told apart by their listeners. -/
theorem eq_of_listener (wired : ctx.Wired) {box other : Mailbox} (member : box ∈ ctx.mailboxes)
    (member' : other ∈ ctx.mailboxes) (same : box.listener = other.listener) : box = other :=
  List.inj_on_of_nodup_map wired.apart member member' same

theorem mailbox?_eq (wired : ctx.Wired) {box : Mailbox} (member : box ∈ ctx.mailboxes) :
    ctx.mailbox? box.listener = some box := by
  rcases found : ctx.mailbox? box.listener with _ | other
  · have none := List.find?_eq_none.mp found box member
    exact absurd (decide_eq_true rfl) none
  · have named : other.listener = box.listener := by simpa using List.find?_some found
    rw [wired.eq_of_listener (List.mem_of_find?_eq_some found) member named]

theorem queue_eq (wired : ctx.Wired) {box : Mailbox} (member : box ∈ ctx.mailboxes) :
    ctx.queue box.listener = box.queue := by
  rw [queue, wired.mailbox?_eq member]
  rfl

theorem mailbox?_fresh (wired : ctx.Wired) {id : Nat} (fresh : ctx.bus.issued < id) :
    ctx.mailbox? id = none := by
  refine List.find?_eq_none.mpr fun box member => ?_
  have opened := wired.opened box member
  simp only [decide_eq_true_eq]
  omega

theorem queue_fresh (wired : ctx.Wired) {id : Nat} (fresh : ctx.bus.issued < id) : ctx.queue id = [] := by
  rw [queue, wired.mailbox?_fresh fresh]
  rfl

/-- Whatever else changes, the bus and the mailboxes decide. -/
theorem congr (wired : ctx.Wired) (bus : newer.bus = ctx.bus) (mailboxes : newer.mailboxes = ctx.mailboxes) :
    newer.Wired := by
  obtain ⟨apart, opened, numbered, distinct, boxed, hosted⟩ := wired
  rw [← bus] at opened numbered distinct boxed hosted
  rw [← mailboxes] at apart opened boxed hosted
  exact ⟨apart, opened, numbered, distinct, boxed, hosted⟩

/-- Removing listeners keeps what is left wired. -/
theorem thin (wired : ctx.Wired) {bus : Bus Sink} {gone : Listener Sink → Prop}
    (without : Bus.Without gone ctx.bus bus) : { ctx with bus }.Wired where
  apart := wired.apart
  opened box member := without.issued ▸ wired.opened box member
  numbered event target l present :=
    without.issued ▸ wired.numbered event target l ((without.sublist event target).subset present)
  distinct event target := ((without.sublist event target).map _).nodup (wired.distinct event target)
  boxed event target l present := wired.boxed event target l ((without.sublist event target).subset present)
  hosted event target l present := wired.hosted event target l ((without.sublist event target).subset present)

theorem distinct_on (wired : ctx.Wired) (event : String) (target : Target) (caller : Nat) (sink : Sink)
    (e : String) (t : Target) :
    (((ctx.bus.on event target caller sink).2.listeners e t).map Listener.id).Nodup := by
  rw [Bus.listeners_on]
  split
  · rw [List.map_append, List.nodup_append]
    refine ⟨wired.distinct e t, List.nodup_singleton _, fun id inside other same => ?_⟩
    obtain ⟨l, present, rfl⟩ := List.mem_map.mp inside
    have numbered := wired.numbered e t l present
    rw [List.mem_singleton.mp same]
    exact Nat.ne_of_lt (Nat.lt_succ_of_le numbered)
  · rw [List.append_nil]
    exact wired.distinct e t

end Wired

theorem mem_listeners_on {event : String} {target : Target} {caller : Nat} {sink : Sink} {e : String}
    {t : Target} {l : Listener Sink} :
    l ∈ (ctx.bus.on event target caller sink).2.listeners e t ↔
      l ∈ ctx.bus.listeners e t ∨ (event = e ∧ target = t) ∧ l = ⟨ctx.bus.issued + 1, caller, sink⟩ := by
  rw [Bus.listeners_on, List.mem_append]
  split
  · rename_i here
    simp [here]
  · rename_i elsewhere
    simp [elsewhere]

namespace Wired

/-- A new listener of a host keeps the context wired. -/
theorem on (wired : ctx.Wired) (event : String) (target : Target) (caller : Nat) (reaction : Reaction) :
    (ctx.on event target caller reaction).2.Wired where
  apart := wired.apart
  opened box member := Nat.le_succ_of_le (wired.opened box member)
  numbered e t l present := by
    rcases mem_listeners_on.mp present with before | ⟨-, rfl⟩
    · exact Nat.le_succ_of_le (wired.numbered e t l before)
    · exact Nat.le_refl _
  distinct := wired.distinct_on event target caller (.host reaction)
  boxed e t l present fills := by
    rcases mem_listeners_on.mp present with before | ⟨-, rfl⟩
    · exact wired.boxed e t l before fills
    · cases fills
  hosted e t l present host := by
    rcases mem_listeners_on.mp present with before | ⟨-, rfl⟩
    · exact wired.hosted e t l before host
    · intro box member
      exact Nat.ne_of_lt (Nat.lt_succ_of_le (wired.opened box member))

/-- A new listener with its mailbox keeps the context wired. -/
theorem subscribe (wired : ctx.Wired) (event : String) (target : Target) (caller : Nat) :
    (ctx.subscribe event target caller).2.Wired where
  apart := by
    simp only [Context.subscribe, List.map_append, List.map_cons, List.map_nil]
    refine List.nodup_append.mpr ⟨wired.apart, List.nodup_singleton _, fun id inside other same => ?_⟩
    obtain ⟨box, member, rfl⟩ := List.mem_map.mp inside
    rw [List.mem_singleton.mp same]
    exact Nat.ne_of_lt (Nat.lt_succ_of_le (wired.opened box member))
  opened box member := by
    rcases List.mem_append.mp member with before | new
    · exact Nat.le_succ_of_le (wired.opened box before)
    · rw [List.mem_singleton.mp new]
      exact Nat.le_refl _
  numbered e t l present := by
    rcases mem_listeners_on.mp present with before | ⟨-, rfl⟩
    · exact Nat.le_succ_of_le (wired.numbered e t l before)
    · exact Nat.le_refl _
  distinct := wired.distinct_on event target caller .mailbox
  boxed e t l present fills := by
    rcases mem_listeners_on.mp present with before | ⟨⟨rfl, rfl⟩, rfl⟩
    · obtain ⟨box, member, serves⟩ := wired.boxed e t l before fills
      exact ⟨box, List.mem_append_left _ member, serves⟩
    · exact ⟨_, List.mem_append_right _ List.mem_cons_self, rfl, rfl, rfl⟩
  hosted e t l present host := by
    rcases mem_listeners_on.mp present with before | ⟨-, rfl⟩
    · intro box member
      rcases List.mem_append.mp member with old | new
      · exact wired.hosted e t l before host box old
      · rw [List.mem_singleton.mp new]
        exact (Nat.ne_of_lt (Nat.lt_succ_of_le (wired.numbered e t l before))).symm
    · exact absurd rfl host

/-- Changing a queue keeps the context wired. -/
theorem updateMailbox (wired : ctx.Wired) (id : Nat) (update : List (List Value) → List (List Value)) :
    (ctx.updateMailbox id update).Wired := by
  have listed : (ctx.updateMailbox id update).mailboxes.map Mailbox.listener =
      ctx.mailboxes.map Mailbox.listener := by
    rw [mailboxes_updateMailbox, List.map_map]
    exact List.map_congr_left fun box _ => box.listener_fill id update
  refine ⟨listed ▸ wired.apart, ?_, wired.numbered, wired.distinct, ?_, ?_⟩
  · intro box member
    obtain ⟨older, before, rfl⟩ := List.mem_map.mp member
    exact (older.listener_fill id update).symm ▸ wired.opened older before
  · intro event target l present fills
    obtain ⟨box, member, rfl, rfl, rfl⟩ := wired.boxed event target l present fills
    exact ⟨_, List.mem_map_of_mem member, box.ear_fill id update, box.event_fill id update,
      box.target_fill id update⟩
  · intro event target l present host box member
    obtain ⟨older, before, rfl⟩ := List.mem_map.mp member
    exact (older.listener_fill id update).symm ▸ wired.hosted event target l present host older before

/-- Giving up a listener with its mailbox keeps the context wired. -/
theorem unsubscribe (wired : ctx.Wired) (id : Nat) : (ctx.unsubscribe id).Wired := by
  rw [Context.unsubscribe]
  rcases found : ctx.mailbox? id with _ | box
  · exact wired
  have without := Bus.without_offListener ctx.bus id box.event box.target
  have thinned := wired.thin without
  have named : box.listener = id := by simpa using List.find?_some found
  have there := List.mem_of_find?_eq_some found
  refine ⟨(List.filter_sublist.map _).nodup wired.apart, ?_, thinned.numbered, thinned.distinct, ?_, ?_⟩
  · exact fun other member => thinned.opened other (List.mem_of_mem_filter member)
  · intro event target l present fills
    obtain ⟨other, member, rfl, rfl, rfl⟩ := thinned.boxed event target l present fills
    refine ⟨other, List.mem_filter.mpr ⟨member, decide_eq_true fun same => ?_⟩, rfl, rfl, rfl⟩
    rw [wired.eq_of_listener member there (same.trans named.symm)] at present
    simp only [Bus.listeners_offListener, and_self, if_true, List.mem_filter, decide_eq_true_eq] at present
    exact present.2 named
  · intro event target l present host other member
    exact thinned.hosted event target l present host other (List.mem_of_mem_filter member)

/-- Closing a mailbox removes no listener of another caller. -/
theorem without_unsubscribe (wired : ctx.Wired) {box : Mailbox} (member : box ∈ ctx.mailboxes) :
    Bus.Without (fun l => l.caller = box.caller) ctx.bus (ctx.unsubscribe box.listener).bus := by
  rw [Context.unsubscribe, wired.mailbox?_eq member]
  refine (Bus.without_offListener ctx.bus box.listener box.event box.target).mono fun e t l present named => ?_
  by_cases fills : l.sink = .mailbox
  · obtain ⟨other, member', rfl, -, -⟩ := wired.boxed e t l present fills
    rw [wired.eq_of_listener member' member named]
    rfl
  · exact absurd named.symm (wired.hosted e t l present fills box member)

end Wired

/-! ### Mailboxes of a caller -/

/-- A caller that subscribes has one mailbox more, an empty one. -/
theorem boxes_subscribe (event : String) (target : Target) (caller other : Nat) :
    (ctx.subscribe event target caller).2.boxes other =
      ctx.boxes other ++
        if caller = other then [⟨ctx.bus.issued + 1, caller, event, target, []⟩] else [] := by
  rw [boxes, subscribe, List.filter_append]
  by_cases same : caller = other
  · simp only [same, List.filter_cons, List.filter_nil, decide_true, if_true]
    rfl
  · simp [same, boxes]

/-- Giving up a listener removes its mailbox and no other. -/
theorem mailboxes_unsubscribe (ctx : Context) (id : Nat) :
    (ctx.unsubscribe id).mailboxes = ctx.mailboxes.filter fun box => box.listener ≠ id := by
  rw [unsubscribe]
  rcases found : ctx.mailbox? id with _ | box
  · refine (List.filter_eq_self.mpr fun box member => ?_).symm
    have other := List.find?_eq_none.mp found box member
    simpa using other
  · rfl

theorem boxes_unsubscribe (id caller : Nat) :
    (ctx.unsubscribe id).boxes caller = (ctx.boxes caller).filter fun box => box.listener ≠ id := by
  rw [boxes, boxes, mailboxes_unsubscribe, List.filter_filter, List.filter_filter]
  exact List.filter_congr fun box _ => Bool.and_comm _ _

theorem boxes_updateMailbox (id : Nat) (update : List (List Value) → List (List Value)) (caller : Nat) :
    (ctx.updateMailbox id update).boxes caller = (ctx.boxes caller).map (Mailbox.fill id update) := by
  rw [boxes, boxes, mailboxes_updateMailbox, List.filter_map]
  refine congrArg _ (List.filter_congr fun box _ => ?_)
  rw [Function.comp, Mailbox.caller_fill]

/-! ### Callers that are left alone -/

/-- What belongs to a caller has been left alone. -/
structure Untouched (caller : Nat) (older newer : Context) : Prop where
  boxes : newer.boxes caller = older.boxes caller
  listeners : ∀ event target,
    ((newer.bus.listeners event target).filter fun l => l.caller = caller) =
      (older.bus.listeners event target).filter fun l => l.caller = caller

namespace Untouched

variable {caller : Nat}

theorem refl (ctx : Context) : Untouched caller ctx ctx := ⟨rfl, fun _ _ => rfl⟩

theorem trans {between : Context} (first : Untouched caller older between)
    (second : Untouched caller between newer) : Untouched caller older newer where
  boxes := second.boxes.trans first.boxes
  listeners event target := (second.listeners event target).trans (first.listeners event target)

/-- The caller's listeners stay where nothing of its is touched. -/
theorem mem_listeners (untouched : Untouched caller older newer) {event : String} {target : Target}
    {l : Listener Sink} (own : l.caller = caller) :
    l ∈ newer.bus.listeners event target ↔ l ∈ older.bus.listeners event target := by
  have both := untouched.listeners event target
  constructor
  · intro present
    have own : l ∈ (newer.bus.listeners event target).filter fun l => l.caller = caller :=
      List.mem_filter.mpr ⟨present, decide_eq_true own⟩
    rw [both] at own
    exact List.mem_of_mem_filter own
  · intro present
    have own : l ∈ (older.bus.listeners event target).filter fun l => l.caller = caller :=
      List.mem_filter.mpr ⟨present, decide_eq_true own⟩
    rw [← both] at own
    exact List.mem_of_mem_filter own

theorem attended (untouched : Untouched caller older newer) (attended : Attended caller older) :
    Attended caller newer := by
  intro box member own
  have before : box ∈ older.boxes caller := untouched.boxes ▸ mem_boxes.mpr ⟨member, own⟩
  exact (untouched.mem_listeners own).mpr (attended box (mem_boxes.mp before).1 own)

end Untouched

/-- Nothing but the bus has changed, and nothing of this caller on it. -/
theorem untouched_of_without {gone : Listener Sink → Prop} (without : Bus.Without gone older.bus newer.bus)
    (mailboxes : newer.mailboxes = older.mailboxes) {caller : Nat}
    (stay : ∀ l : Listener Sink, l.caller = caller → ¬ gone l) : Untouched caller older newer where
  boxes := by rw [boxes, boxes, mailboxes]
  listeners event target := without.filter (fun l own => stay l (of_decide_eq_true own)) event target

theorem filter_listeners_on {event : String} {target : Target} {caller other : Nat} {sink : Sink}
    (apart : caller ≠ other) (e : String) (t : Target) :
    (((ctx.bus.on event target caller sink).2.listeners e t).filter fun l => l.caller = other) =
      (ctx.bus.listeners e t).filter fun l => l.caller = other := by
  rw [Bus.listeners_on, List.filter_append]
  split <;> simp [apart]

theorem untouched_subscribe (ctx : Context) (event : String) (target : Target) {caller other : Nat}
    (apart : caller ≠ other) : Untouched other ctx (ctx.subscribe event target caller).2 where
  boxes := by rw [boxes_subscribe, if_neg apart, List.append_nil]
  listeners := filter_listeners_on apart

section

variable (wired : ctx.Wired) {box : Mailbox} (member : box ∈ ctx.mailboxes) {other : Nat}
  (apart : box.caller ≠ other)

include wired member apart

/-- A listener of another caller does not fill the mailbox. -/
theorem Wired.ne_of_mem_boxes {foreign : Mailbox} (own : foreign ∈ ctx.boxes other) :
    foreign.listener ≠ box.listener := by
  intro same
  obtain ⟨there, rfl⟩ := mem_boxes.mp own
  exact apart (congrArg Mailbox.caller (wired.eq_of_listener there member same)).symm

theorem untouched_unsubscribe : Untouched other ctx (ctx.unsubscribe box.listener) where
  boxes := by
    rw [boxes_unsubscribe, List.filter_eq_self]
    exact fun foreign own => decide_eq_true (wired.ne_of_mem_boxes member apart own)
  listeners := (wired.without_unsubscribe member).filter fun l own same =>
    apart (same.symm.trans (of_decide_eq_true own))

theorem untouched_updateMailbox (update : List (List Value) → List (List Value)) :
    Untouched other ctx (ctx.updateMailbox box.listener update) where
  boxes := by
    rw [boxes_updateMailbox]
    refine (List.map_congr_left fun foreign own => ?_).trans (List.map_id _)
    rw [Mailbox.fill, if_neg (wired.ne_of_mem_boxes member apart own)]
    rfl
  listeners _ _ := rfl

end

end Context
end BehaviorTree
