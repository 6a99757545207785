import BehaviorTree.Proofs.Event.Asked
import BehaviorTree.Proofs.Event.Passage
import Mathlib.Data.List.TakeWhile

/-!
What is dispatched to a place while hosts carry out their orders, their reactions included. An event may be
dispatched from within the dispatching of another one; each is counted when its turn comes to a certain
listener. As long as no host ends the listening of an actor, its mailboxes receive just what is dispatched
to their places.
-/

namespace BehaviorTree
namespace Context

/-- What is dispatched in the course of an event. -/
abbrev Sending := Context → String → Target → List Value → List (List Value)

/-- What is dispatched when an order is carried out, be it in the course of an event. -/
def sent (sending : Sending) (ctx : Context) : Order → List (List Value)
  | .dispatch event args address => sending ctx event (ctx.resolve address) args
  | _ => []

/-- What is dispatched when orders are carried out in turn. -/
def sentAll (again : Dispatch) (sending : Sending) : Context → List Order → List (List Value) :=
  gather (follow again) (sent sending)

/-- What a listener dispatches when it is handed an event. -/
def sentBy (again : Dispatch) (sending : Sending) (args : List Value) (ctx : Context) (l : Listener Sink) :
    List (List Value) :=
  match l.sink with
  | .mailbox => []
  | .host reaction => sentAll again sending (ctx.note (.heard reaction.tag args)) reaction.orders

/-- What is dispatched to a place in the course of an event: what is so before its turn comes to the listener,
the event itself if it is dispatched to the place, and what comes after that. -/
def sentWithin (place : String × Target) (listener : Nat) : Nat → Sending
  | 0, _, _, _, _ => []
  | depth + 1, ctx, event, target, args =>
    let step := deliver (dispatchWithin depth) args
    let out := sentBy (dispatchWithin depth) (sentWithin place listener depth) args
    let early := (ctx.bus.listeners event target).takeWhile (·.id ≠ listener)
    let late := (ctx.bus.listeners event target).dropWhile (·.id ≠ listener)
    gather step out ctx early ++ (if (event, target) = place then [args] else []) ++
      gather step out (early.foldl step ctx) late

/-- What is dispatched to a place when hosts carry out orders. -/
def sentObeying (place : String × Target) (listener : Nat) : Context → List Order → List (List Value) :=
  sentAll (dispatchWithin dispatchDepth) (sentWithin place listener dispatchDepth)

variable {name : String} {caller : Nat} {place : String × Target} {listener : Nat} {ctx older newer : Context}
  {events : List (List Value)}

/-- A mailbox of an actor whose listening no host ends. -/
structure Posted (name : String) (caller : Nat) (place : String × Target) (listener : Nat) (ctx : Context) : Prop where
  spared : Spared name (some caller) ctx
  box : ∃ box ∈ ctx.boxes caller, box.listener = listener ∧ (box.event, box.target) = place

/-- The events have come to the mailbox, and nothing else has happened to it. -/
structure Receives (name : String) (caller : Nat) (place : String × Target) (listener : Nat) (older newer : Context)
    (events : List (List Value)) : Prop where
  posted : Posted name caller place listener newer
  queue : newer.queue listener = older.queue listener ++ events

theorem queue_congr (mailboxes : newer.mailboxes = older.mailboxes) (listener : Nat) :
    newer.queue listener = older.queue listener := by
  rw [queue, queue, mailbox?, mailbox?, mailboxes]

theorem Posted.still (posted : Posted name caller place listener older) (spared : Spared name (some caller) newer)
    (posts : newer.posts = older.posts) : Posted name caller place listener newer where
  spared := spared
  box := by
    obtain ⟨box, there, named, here⟩ := posted.box
    have same := map_boxes_of_posts Mailbox.emptied (fun _ => rfl) posts caller
    obtain ⟨later, there', alike⟩ := List.mem_map.mp (same ▸ List.mem_map_of_mem there)
    refine ⟨later, there', ?_, ?_⟩
    · exact (show later.emptied.listener = box.emptied.listener by rw [alike]).trans named
    · exact (show (later.emptied.event, later.emptied.target) = (box.emptied.event, box.emptied.target) by
        rw [alike]).trans here

namespace Receives

/-- Nothing happens to the mailboxes. -/
theorem of_same (posted : Posted name caller place listener older) (spared : Spared name (some caller) newer)
    (mailboxes : newer.mailboxes = older.mailboxes) : Receives name caller place listener older newer [] where
  posted := posted.still spared (congrArg (List.map Mailbox.emptied) mailboxes)
  queue := by rw [queue_congr mailboxes, List.append_nil]

theorem refl (posted : Posted name caller place listener ctx) : Receives name caller place listener ctx ctx [] :=
  of_same posted posted.spared rfl

theorem trans {between : Context} {more : List (List Value)}
    (one : Receives name caller place listener older between events)
    (two : Receives name caller place listener between newer more) :
    Receives name caller place listener older newer (events ++ more) where
  posted := two.posted
  queue := by rw [two.queue, one.queue, List.append_assoc]

/-- What each step brings to a mailbox, all steps bring in turn. -/
theorem gather {α : Type} (allowed : α → Prop) {step : Context → α → Context} {out : Context → α → List (List Value)}
    (one : ∀ {ctx : Context} a, allowed a → Posted name caller place listener ctx →
      Receives name caller place listener ctx (step ctx a) (out ctx a)) {list : List α}
    (allows : ∀ a ∈ list, allowed a) (posted : Posted name caller place listener ctx) :
    Receives name caller place listener ctx (list.foldl step ctx) (gather step out ctx list) := by
  induction list generalizing ctx with
  | nil => exact .refl posted
  | cons a rest ih =>
    obtain ⟨first, later⟩ := List.forall_mem_cons.mp allows
    exact (one a first posted).trans (ih later (one a first posted).posted)

section

variable {again : Dispatch} {sending : Sending}
  (nested : ∀ {ctx : Context} event target args, Posted name caller place listener ctx →
    Receives name caller place listener ctx (again ctx event target args) (sending ctx event target args))

include nested

/-- An order brings a mailbox what it sends there. -/
theorem follow {order : Order} (spares : order.spares name) (posted : Posted name caller place listener ctx) :
    Receives name caller place listener ctx (follow again ctx order) (sent sending ctx order) := by
  have withstands := withstands_spared name (some caller)
  cases order with
  | dispatch event args address => exact nested event (ctx.resolve address) args posted
  | interrupt actor =>
    simp only [Context.follow, sent]
    split
    · rename_i known
      exact .of_same posted (withstands.request spares known posted.spared) (mailboxes_request ..)
    · exact .refl posted
  | offCaller actor =>
    simp only [Context.follow, sent]
    split
    · rename_i known
      exact .of_same posted (withstands.offCaller spares known posted.spared) rfl
    · exact .refl posted
  | off actor event =>
    simp only [Context.follow, sent]
    split
    · rename_i known
      exact .of_same posted (withstands.off spares known posted.spared) rfl
    · exact .refl posted
  | on actor event address tag orders =>
    simp only [Context.follow, sent]
    split
    · rename_i known
      exact .of_same posted (withstands.on spares known posted.spared) rfl
    · exact .refl posted
  | advance dt => exact .of_same posted (withstands.advance dt spares posted.spared) rfl

theorem followAll {orders : List Order} (spares : ∀ order ∈ orders, order.spares name)
    (posted : Posted name caller place listener ctx) :
    Receives name caller place listener ctx (followAll again ctx orders) (sentAll again sending ctx orders) :=
  gather (·.spares name) (fun _ spares posted => follow nested spares posted) spares posted

/-- Handing an event to a listener, that of the mailbox apart. -/
theorem deliver (args : List Value) {l : Listener Sink} (other : l.id ≠ listener)
    (heeds : ∀ reaction, l.sink = .host reaction → ∀ order ∈ reaction.orders, order.spares name)
    (posted : Posted name caller place listener ctx) :
    Receives name caller place listener ctx (deliver again args ctx l) (sentBy again sending args ctx l) := by
  have withstands := withstands_spared name (some caller)
  obtain ⟨id, owner, _ | reaction⟩ := l
  · have filled := withstands.deliver id args posted.spared
    refine ⟨posted.still filled (posts_updateMailbox ctx id _), ?_⟩
    exact (ctx.queue_updateMailbox_of_ne other.symm _).trans (List.append_nil _).symm
  · have heard : Receives name caller place listener ctx (ctx.note (.heard reaction.tag args)) [] :=
      .of_same posted (withstands.heard _ _ posted.spared) rfl
    exact heard.trans (followAll nested (heeds reaction rfl) heard.posted)

end

/-- An event that comes to the mailbox is added to those that wait. -/
theorem deliver_box (again : Dispatch) (args : List Value) {box : Mailbox} (there : box ∈ ctx.boxes caller)
    (posted : Posted name caller place box.listener ctx) :
    Receives name caller place box.listener ctx (Context.deliver again args ctx box.ear) [args] where
  posted := posted.still ((withstands_spared name (some caller)).deliver box.listener args posted.spared)
    (posts_updateMailbox ctx box.listener _)
  queue := by
    have found : (ctx.mailbox? box.listener).isSome := by
      rw [posted.spared.wired.mailbox?_eq (mem_boxes.mp there).1]
      rfl
    exact (ctx.queue_updateMailbox _ _ _ (.inr found)).trans (if_pos rfl)

/-- A listener stands at its place just once, so those before it and those after it are others. -/
theorem exists_split {list : List (Listener Sink)} {l : Listener Sink} (member : l ∈ list)
    (distinct : (list.map (·.id)).Nodup) :
    ∃ early late, list = early ++ l :: late ∧ list.takeWhile (·.id ≠ l.id) = early ∧
      list.dropWhile (·.id ≠ l.id) = l :: late ∧ (∀ other ∈ early, other.id ≠ l.id) ∧
        ∀ other ∈ late, other.id ≠ l.id := by
  obtain ⟨early, late, rfl⟩ := List.append_of_mem member
  rw [List.map_append, List.map_cons, List.nodup_append, List.nodup_cons] at distinct
  obtain ⟨-, ⟨after, -⟩, before⟩ := distinct
  have before : ∀ other ∈ early, other.id ≠ l.id := fun other inside =>
    before _ (List.mem_map_of_mem inside) _ List.mem_cons_self
  refine ⟨early, late, rfl, ?_, ?_, before, fun other inside same => after (same ▸ List.mem_map_of_mem inside)⟩
  · rw [List.takeWhile_append_of_pos (by simpa using before), List.takeWhile_cons_of_neg (by simp), List.append_nil]
  · rw [List.dropWhile_append_of_pos (by simpa using before), List.dropWhile_cons_of_neg (by simp)]

/-- An event brings a mailbox what is sent there in its course. -/
theorem within (depth : Nat) : ∀ {ctx : Context} event target args, Posted name caller place listener ctx →
    Receives name caller place listener ctx (dispatchWithin depth ctx event target args)
      (sentWithin place listener depth ctx event target args) := by
  induction depth with
  | zero => exact fun _ _ _ posted => .refl posted
  | succ depth ih =>
    intro ctx event target args posted
    obtain ⟨box, there, rfl, here⟩ := posted.box
    obtain ⟨member, own⟩ := mem_boxes.mp there
    have wired := posted.spared.wired
    have heeds := posted.spared.heeds event target
    have distinct := wired.distinct event target
    have reached := wired.mem_ids_iff member event target
    have attended := posted.spared.attended caller rfl box member own
    have step {list : List (Listener Sink)} (sub : list ⊆ ctx.bus.listeners event target)
        (others : ∀ l ∈ list, l.id ≠ box.listener) {newer : Context}
        (posted : Posted name caller place box.listener newer) :
        Receives name caller place box.listener newer (list.foldl (Context.deliver (dispatchWithin depth) args) newer)
          (Context.gather (Context.deliver (dispatchWithin depth) args)
            (sentBy (dispatchWithin depth) (sentWithin place box.listener depth) args) newer list) :=
      gather (fun l => l.id ≠ box.listener ∧ ∀ reaction, l.sink = .host reaction →
          ∀ order ∈ reaction.orders, order.spares name)
        (fun _ allows posted => deliver ih args allows.1 allows.2 posted)
        (fun l member => ⟨others l member, heeds l (sub member)⟩) posted
    rw [dispatchWithin, sentWithin]
    by_cases same : (event, target) = place
    · -- The mailbox's listener stands among those who are called.
      obtain ⟨rfl, rfl⟩ := Prod.mk.inj (here.trans same.symm)
      obtain ⟨early, late, split, took, dropped, before, after⟩ := exists_split attended distinct
      rw [split] at step
      have first := step (List.subset_append_left _ _) before posted
      obtain ⟨later, there', named, -⟩ := first.posted.box
      have ear : later.ear = box.ear := by
        rw [Mailbox.ear, Mailbox.ear, named, own, (mem_boxes.mp there').2]
      have arrived := deliver_box (dispatchWithin depth) args there' (named ▸ first.posted)
      rw [named, ear] at arrived
      have last := step (fun _ inside => List.mem_append_right _ (List.mem_cons_of_mem _ inside)) after arrived.posted
      rw [show box.listener = box.ear.id from rfl, took, dropped, if_pos same, split, List.foldl_append,
        List.foldl_cons]
      exact (first.trans arrived).trans last
    · have none : ∀ l ∈ ctx.bus.listeners event target, l.id ≠ box.listener := by
        intro l present named
        obtain ⟨-, rfl, rfl⟩ := reached.mp (named ▸ List.mem_map_of_mem present)
        exact same here
      have took : (ctx.bus.listeners event target).takeWhile (·.id ≠ box.listener) = ctx.bus.listeners event target :=
        List.takeWhile_eq_self_iff.mpr (by simpa using none)
      have dropped : (ctx.bus.listeners event target).dropWhile (·.id ≠ box.listener) = [] :=
        List.dropWhile_eq_nil_iff.mpr (by simpa using none)
      rw [took, dropped, if_neg same, List.append_nil]
      have all := step (List.Subset.refl _) none posted
      exact (List.append_nil _).symm ▸ all

/-- The mailbox receives what is dispatched to its place. -/
theorem obey {orders : List Order} (spares : ∀ order ∈ orders, order.spares name)
    (posted : Posted name caller place listener ctx) :
    Receives name caller place listener ctx (ctx.obey orders) (sentObeying place listener ctx orders) :=
  followAll (within _) spares posted

end Receives
end Context
end BehaviorTree
