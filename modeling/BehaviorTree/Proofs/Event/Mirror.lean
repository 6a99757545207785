import BehaviorTree.Proofs.Event.Passage
import BehaviorTree.Proofs.Event.Silent

/-!
Two contexts in which a caller finds the same. Its mailboxes hold the same events and are filled in
the same way, though its listeners may go by other ids; whatever belongs to other callers may differ.
What is done on behalf of the caller keeps the likeness when it is done in both contexts; what is done
on behalf of another caller keeps it when it is done in one of them, and so does an event among silent
hosts when it is dispatched in both.
-/

namespace BehaviorTree

/-- The mailbox of a listener that goes by another id. -/
def Mailbox.rename (f : Nat → Nat) (box : Mailbox) : Mailbox := { box with listener := f box.listener }

namespace Context

/-- What belongs to a caller is the same in both contexts, apart from the ids of its listeners. -/
structure Mirrors (caller : Nat) (f : Nat → Nat) (first second : Context) : Prop where
  boxes : second.boxes caller = (first.boxes caller).map (Mailbox.rename f)
  filled : ∀ box ∈ first.boxes caller,
    (box.rename f).ear ∈ second.bus.listeners box.event box.target ↔
      box.ear ∈ first.bus.listeners box.event box.target
  pending : second.isPending caller = first.isPending caller
  clock : second.clock = first.clock
  cache : second.cache = first.cache
  notes : second.notes = first.notes

variable {caller : Nat} {f g : Nat → Nat} {ctx first second older newer : Context}

/-! ### Requests -/

theorem isPending_dropRequest_self (ctx : Context) (caller : Nat) :
    (ctx.dropRequest caller).isPending caller = false := by
  simp [isPending, dropRequest]

theorem isPending_dropRequest (ctx : Context) {caller other : Nat} (apart : other ≠ caller) :
    (ctx.dropRequest other).isPending caller = ctx.isPending caller := by
  simp [isPending, dropRequest, apart.symm]

theorem isPending_request_self (ctx : Context) (caller : Nat) : (ctx.request caller).isPending caller = true := by
  rw [isPending, decide_eq_true_eq, request]
  split
  · assumption
  · exact List.mem_cons_self

theorem isPending_request (ctx : Context) {caller other : Nat} (apart : other ≠ caller) :
    (ctx.request other).isPending caller = ctx.isPending caller := by
  rw [request]
  split
  · rfl
  · simp [isPending, apart.symm]

/-! ### On behalf of others -/

/-- A context has become another one without any consequence for a caller. -/
structure Aside (caller : Nat) (older newer : Context) : Prop where
  untouched : Untouched caller older newer
  pending : newer.isPending caller = older.isPending caller
  clock : newer.clock = older.clock
  cache : newer.cache = older.cache

namespace Aside

theorem refl (ctx : Context) : Aside caller ctx ctx := ⟨.refl ctx, rfl, rfl, rfl⟩

theorem trans {between : Context} (one : Aside caller older between) (two : Aside caller between newer) :
    Aside caller older newer where
  untouched := one.untouched.trans two.untouched
  pending := two.pending.trans one.pending
  clock := two.clock.trans one.clock
  cache := two.cache.trans one.cache

theorem dropRequest (ctx : Context) {other : Nat} (apart : other ≠ caller) :
    Aside caller ctx (ctx.dropRequest other) := ⟨⟨rfl, fun _ _ => rfl⟩, isPending_dropRequest ctx apart, rfl, rfl⟩

theorem request (ctx : Context) {other : Nat} (apart : other ≠ caller) :
    Aside caller ctx (ctx.request other) where
  untouched := ⟨by rw [Context.boxes, mailboxes_request]; rfl, fun _ _ => by rw [bus_request]⟩
  pending := isPending_request ctx apart
  clock := by rw [Context.request]; split <;> rfl
  cache := by rw [Context.request]; split <;> rfl

/-- Giving up a listener on both sides keeps the mirror. -/
theorem unsubscribe (wired : ctx.Wired) {box : Mailbox} (member : box ∈ ctx.mailboxes) (apart : box.caller ≠ caller) :
    Aside caller ctx (ctx.unsubscribe box.listener) where
  untouched := untouched_unsubscribe wired member apart
  pending := by rw [Context.unsubscribe, wired.mailbox?_eq member]; rfl
  clock := by rw [Context.unsubscribe, wired.mailbox?_eq member]
  cache := by rw [Context.unsubscribe, wired.mailbox?_eq member]

theorem unsubscribeAll (wired : ctx.Wired) {other : Nat} (apart : other ≠ caller) :
    Aside caller ctx (ctx.unsubscribeAll other) :=
  unsubscribeAll_keep wired other (.refl ctx) fun _ wired aside _ member own =>
    aside.trans (.unsubscribe wired member (own ▸ apart))

/-- Somebody else's listeners are no concern of the caller. -/
theorem offCaller (ctx : Context) {other : Nat} (apart : other ≠ caller) :
    Aside caller ctx (ctx.offCaller other) where
  untouched :=
    have without : Bus.Without _ ctx.bus (ctx.offCaller other).bus := Bus.without_offCaller ctx.bus other
    untouched_of_without without rfl fun _ own same => apart (same.symm.trans own)
  pending := rfl
  clock := rfl
  cache := rfl

end Aside

namespace Mirrors

/-- What is done on behalf of others in the first context does not matter. -/
theorem left (mirrors : Mirrors caller f first second) (aside : Aside caller first newer)
    (notes : newer.notes = first.notes) : Mirrors caller f newer second where
  boxes := aside.untouched.boxes ▸ mirrors.boxes
  filled box member := by
    rw [aside.untouched.boxes] at member
    rw [mirrors.filled box member]
    exact (aside.untouched.mem_listeners (mem_boxes.mp member).2).symm
  pending := mirrors.pending.trans aside.pending.symm
  clock := mirrors.clock.trans aside.clock.symm
  cache := mirrors.cache.trans aside.cache.symm
  notes := mirrors.notes.trans notes.symm

/-- Nor does what is done on behalf of others in the second. -/
theorem right (mirrors : Mirrors caller f first second) (aside : Aside caller second newer)
    (notes : newer.notes = second.notes) : Mirrors caller f first newer where
  boxes := aside.untouched.boxes.trans mirrors.boxes
  filled box member := by
    rw [← mirrors.filled box member]
    exact aside.untouched.mem_listeners (mem_boxes.mp member).2
  pending := aside.pending.trans mirrors.pending
  clock := aside.clock.trans mirrors.clock
  cache := aside.cache.trans mirrors.cache
  notes := notes.trans mirrors.notes

/-! ### On behalf of the caller -/

/-- A caller without mailboxes finds the same whatever the bus is like. -/
theorem of_nil {bus bus' : Bus Sink} {mailboxes mailboxes' : List Mailbox} (mirrors : Mirrors caller f first second)
    (none : { first with bus, mailboxes }.boxes caller = [])
    (none' : { second with bus := bus', mailboxes := mailboxes' }.boxes caller = []) :
    Mirrors caller f { first with bus, mailboxes } { second with bus := bus', mailboxes := mailboxes' } where
  boxes := by rw [none, none']; rfl
  filled box member := by rw [none] at member; cases member
  pending := mirrors.pending
  clock := mirrors.clock
  cache := mirrors.cache
  notes := mirrors.notes

variable (mirrors : Mirrors caller f first second)

include mirrors

/-- Only the listeners of the caller's mailboxes have to be named. -/
theorem congr (same : ∀ box ∈ first.boxes caller, g box.listener = f box.listener) : Mirrors caller g first second where
  boxes := mirrors.boxes.trans
    (List.map_congr_left fun box member => by rw [Mailbox.rename, Mailbox.rename, same box member])
  filled box member := by
    rw [Mailbox.rename, same box member]
    exact mirrors.filled box member
  pending := mirrors.pending
  clock := mirrors.clock
  cache := mirrors.cache
  notes := mirrors.notes

theorem note (n : Note) : Mirrors caller f (first.note n) (second.note n) :=
  ⟨mirrors.boxes, mirrors.filled, mirrors.pending, mirrors.clock, mirrors.cache,
    congrArg (· ++ [n]) mirrors.notes⟩

theorem takeNotes : Mirrors caller f { first with notes := [] } { second with notes := [] } :=
  ⟨mirrors.boxes, mirrors.filled, mirrors.pending, mirrors.clock, mirrors.cache, rfl⟩

theorem setClock (t : Float) : Mirrors caller f { first with clock := t } { second with clock := t } :=
  ⟨mirrors.boxes, mirrors.filled, mirrors.pending, rfl, mirrors.cache, mirrors.notes⟩

theorem advance (dt : Float) : Mirrors caller f (first.advance dt) (second.advance dt) :=
  ⟨mirrors.boxes, mirrors.filled, mirrors.pending, congrArg (· + dt) mirrors.clock, mirrors.cache,
    mirrors.notes⟩

theorem compile (code : String) : Mirrors caller f (first.compile code).2 (second.compile code).2 :=
  ⟨mirrors.boxes, mirrors.filled, mirrors.pending, mirrors.clock,
    congrArg (fun cache => (ExprCache.compile cache code).2) mirrors.cache, mirrors.notes⟩

theorem dropRequest : Mirrors caller f (first.dropRequest caller) (second.dropRequest caller) where
  boxes := mirrors.boxes
  filled := mirrors.filled
  pending := by rw [isPending_dropRequest_self, isPending_dropRequest_self]
  clock := mirrors.clock
  cache := mirrors.cache
  notes := mirrors.notes

theorem request : Mirrors caller f (first.request caller) (second.request caller) := by
  have same (ctx : Context) : ctx.request caller = { ctx with requests := (ctx.request caller).requests } := by
    rw [Context.request]
    split <;> rfl
  have pending : (second.request caller).isPending caller = (first.request caller).isPending caller := by
    rw [isPending_request_self, isPending_request_self]
  rw [same first, same second] at pending ⊢
  exact ⟨mirrors.boxes, mirrors.filled, pending, mirrors.clock, mirrors.cache, mirrors.notes⟩

theorem unsubscribeAll : Mirrors caller f (first.unsubscribeAll caller) (second.unsubscribeAll caller) := by
  have same (ids : List Nat) (ctx : Context) : ids.foldl Context.unsubscribe ctx =
      { ctx with
        bus := (ids.foldl Context.unsubscribe ctx).bus
        mailboxes := (ids.foldl Context.unsubscribe ctx).mailboxes } := by
    induction ids generalizing ctx with
    | nil => rfl
    | cons id rest ih =>
      rw [List.foldl_cons, ih, Context.unsubscribe]
      split <;> rfl
  have none := boxes_unsubscribeAll first caller
  have none' := boxes_unsubscribeAll second caller
  rw [Context.unsubscribeAll, same] at none none' ⊢
  rw [Context.unsubscribeAll, same _ second]
  exact mirrors.of_nil none none'

theorem offCaller (none : first.boxes caller = []) :
    Mirrors caller f (first.offCaller caller) (second.offCaller caller) :=
  mirrors.of_nil none (mirrors.boxes.trans (by rw [none]; rfl))

section

variable (wired : second.Wired)

include wired

theorem inj_on {box other : Mailbox} (member : box ∈ first.boxes caller) (member' : other ∈ first.boxes caller)
    (same : f box.listener = f other.listener) : box = other := by
  have distinct : ((second.boxes caller).map Mailbox.listener).Nodup :=
    (List.filter_sublist.map _).nodup wired.apart
  rw [mirrors.boxes, List.map_map] at distinct
  exact List.inj_on_of_nodup_map distinct member member' same

theorem named_iff {box other : Mailbox} (member : box ∈ first.boxes caller) (member' : other ∈ first.boxes caller) :
    f other.listener = f box.listener ↔ other.listener = box.listener :=
  ⟨fun same => congrArg Mailbox.listener (mirrors.inj_on wired member' member same), congrArg f⟩

theorem queue_eq (wired' : first.Wired) {box : Mailbox} (member : box ∈ first.boxes caller) :
    second.queue (f box.listener) = first.queue box.listener := by
  have there : box.rename f ∈ second.boxes caller := by
    rw [mirrors.boxes]
    exact List.mem_map_of_mem member
  rw [wired'.queue_eq (mem_boxes.mp member).1]
  exact wired.queue_eq (mem_boxes.mp there).1

/-- The same change to both mailboxes keeps the mirror. -/
theorem updateMailbox {box : Mailbox} (member : box ∈ first.boxes caller)
    (update : List (List Value) → List (List Value)) :
    Mirrors caller f (first.updateMailbox box.listener update) (second.updateMailbox (f box.listener) update) where
  boxes := by
    rw [boxes_updateMailbox, boxes_updateMailbox, mirrors.boxes, List.map_map, List.map_map]
    refine List.map_congr_left fun other member' => ?_
    have named := mirrors.named_iff wired member member'
    by_cases same : other.listener = box.listener
    · simp [Mailbox.rename, Mailbox.fill, same]
    · simp [Mailbox.rename, Mailbox.fill, same, mt named.mp same]
  filled other member' := by
    rw [boxes_updateMailbox] at member'
    obtain ⟨before, there, rfl⟩ := List.mem_map.mp member'
    have still := mirrors.filled before there
    rw [Mailbox.event_fill, Mailbox.target_fill, Mailbox.ear_fill]
    have ear : ((before.fill box.listener update).rename f).ear = (before.rename f).ear := by
      simp [Mailbox.rename, Mailbox.ear]
    rw [ear]
    exact still
  pending := mirrors.pending
  clock := mirrors.clock
  cache := mirrors.cache
  notes := mirrors.notes

theorem unsubscribe (wired' : first.Wired) {box : Mailbox} (member : box ∈ first.boxes caller) :
    Mirrors caller f (first.unsubscribe box.listener) (second.unsubscribe (f box.listener)) := by
  have there' : box.rename f ∈ second.boxes caller := by
    rw [mirrors.boxes]
    exact List.mem_map_of_mem member
  have found := wired'.mailbox?_eq (mem_boxes.mp member).1
  have found' : second.mailbox? (f box.listener) = some (box.rename f) := wired.mailbox?_eq (mem_boxes.mp there').1
  have boxes : (second.unsubscribe (f box.listener)).boxes caller =
      ((first.unsubscribe box.listener).boxes caller).map (Mailbox.rename f) := by
    rw [boxes_unsubscribe, boxes_unsubscribe, mirrors.boxes, List.filter_map]
    refine congrArg _ (List.filter_congr fun other member' => ?_)
    exact decide_eq_decide.mpr (not_congr (mirrors.named_iff wired member member'))
  have filled (other : Mailbox) (left : other ∈ (first.unsubscribe box.listener).boxes caller) :
      (other.rename f).ear ∈ (second.unsubscribe (f box.listener)).bus.listeners other.event other.target ↔
        other.ear ∈ (first.unsubscribe box.listener).bus.listeners other.event other.target := by
    rw [boxes_unsubscribe] at left
    obtain ⟨before, apart⟩ := List.mem_filter.mp left
    have apart : other.listener ≠ box.listener := of_decide_eq_true apart
    have apart' : f other.listener ≠ f box.listener := mt (mirrors.named_iff wired member before).mp apart
    have still := mirrors.filled other before
    rw [Context.unsubscribe, Context.unsubscribe, found, found']
    have kept (bus : Bus Sink) {id : Nat} (event : String) (target : Target) {l : Listener Sink} (other : l.id ≠ id)
        (e : String) (t : Target) :
        l ∈ (bus.offListener id event target).listeners e t ↔ l ∈ bus.listeners e t :=
      ⟨fun present => ((Bus.without_offListener bus id event target).sublist e t).subset present,
        fun present => (Bus.without_offListener bus id event target).mem present other⟩
    refine (kept second.bus _ _ ?_ _ _).trans (still.trans (kept first.bus _ _ ?_ _ _).symm)
    · exact apart'
    · exact apart
  have same : first.unsubscribe box.listener =
      { first with
        bus := (first.unsubscribe box.listener).bus
        mailboxes := (first.unsubscribe box.listener).mailboxes } := by
    rw [Context.unsubscribe, found]
  have same' : second.unsubscribe (f box.listener) =
      { second with
        bus := (second.unsubscribe (f box.listener)).bus
        mailboxes := (second.unsubscribe (f box.listener)).mailboxes } := by
    rw [Context.unsubscribe, found']
  rw [same, same'] at boxes filled ⊢
  exact ⟨boxes, filled, mirrors.pending, mirrors.clock, mirrors.cache, mirrors.notes⟩

end

/-- Subscribing on both sides keeps the mirror, if the new listeners answer to each other. -/
theorem subscribe (wired : first.Wired) (wired' : second.Wired) (event : String) (target : Target)
    (next : f (first.bus.issued + 1) = second.bus.issued + 1) :
    Mirrors caller f (first.subscribe event target caller).2 (second.subscribe event target caller).2 where
  boxes := by
    rw [boxes_subscribe, boxes_subscribe, if_pos rfl, if_pos rfl, mirrors.boxes, List.map_append, List.map_singleton,
      Mailbox.rename, next]
  filled box member := by
    rw [boxes_subscribe, if_pos rfl] at member
    have here : box.ear ∈ (first.subscribe event target caller).2.bus.listeners box.event box.target ↔
      _ := mem_listeners_on
    have there : (box.rename f).ear ∈ (second.subscribe event target caller).2.bus.listeners box.event box.target ↔
      _ := mem_listeners_on
    rw [here, there]
    rcases List.mem_append.mp member with before | new
    · have old : box.ear ≠ ⟨first.bus.issued + 1, caller, .mailbox⟩ := fun same =>
        absurd (wired.opened box (mem_boxes.mp before).1) (by
          have named : box.listener = first.bus.issued + 1 := congrArg Listener.id same
          omega)
      have there : box.rename f ∈ second.boxes caller := by
        rw [mirrors.boxes]
        exact List.mem_map_of_mem before
      have old' : (box.rename f).ear ≠ ⟨second.bus.issued + 1, caller, .mailbox⟩ := fun same =>
        absurd (wired'.opened _ (mem_boxes.mp there).1) (by
          have named : (box.rename f).listener = second.bus.issued + 1 := congrArg Listener.id same
          omega)
      simp only [old, old', and_false, or_false]
      exact mirrors.filled box before
    · rw [List.mem_singleton.mp new]
      simp [Mailbox.rename, Mailbox.ear, next]
  pending := mirrors.pending
  clock := mirrors.clock
  cache := mirrors.cache
  notes := mirrors.notes

/-! ### Events -/

/-- An event comes into the same mailboxes of the caller. -/
theorem dispatch (wired : first.Wired) (wired' : second.Wired) (silent : first.Silent) (silent' : second.Silent)
    (event : String) (target : Target) (args : List Value) :
    Mirrors caller f { (first.dispatch event target args).2 with notes := [] }
      { (second.dispatch event target args).2 with notes := [] } := by
  obtain ⟨notes, same⟩ := dispatch_silent wired silent event target args
  obtain ⟨notes', same'⟩ := dispatch_silent wired' silent' event target args
  rw [same, same']
  have boxes (ctx : Context) (listeners : List (Listener Sink)) (notes : List Note) :
      ({ ctx with mailboxes := ctx.mailboxes.map (handedTo listeners args), notes } : Context).boxes caller =
        (ctx.boxes caller).map (handedTo listeners args) := by
    rw [Context.boxes, List.filter_map]
    refine congrArg _ (List.filter_congr fun box _ => ?_)
    rw [Function.comp, caller_handedTo]
  refine ⟨?_, fun box member => ?_, mirrors.pending, mirrors.clock, mirrors.cache, rfl⟩
  · refine (boxes second _ []).trans (.trans ?_ (congrArg _ (boxes first _ []).symm))
    rw [mirrors.boxes, List.map_map, List.map_map]
    refine List.map_congr_left fun box member => ?_
    have there : box.rename f ∈ second.boxes caller := by
      rw [mirrors.boxes]
      exact List.mem_map_of_mem member
    have reached : (box.rename f).listener ∈ (second.bus.listeners event target).map Listener.id ↔
        box.listener ∈ (first.bus.listeners event target).map Listener.id :=
      (wired'.mem_ids_iff (mem_boxes.mp there).1 event target).trans
        ((and_congr_left fun _ => mirrors.filled box member).trans
          (wired.mem_ids_iff (mem_boxes.mp member).1 event target).symm)
    by_cases here : box.listener ∈ (first.bus.listeners event target).map Listener.id
    · simp only [Function.comp, handedTo, if_pos here, if_pos (reached.mpr here)]
      rfl
    · simp only [Function.comp, handedTo, if_neg here, if_neg (mt reached.mp here)]
  · obtain ⟨before, there, rfl⟩ := List.mem_map.mp ((boxes first _ []) ▸ member)
    have still := mirrors.filled before there
    rw [event_handedTo, target_handedTo, ear_handedTo]
    have ear : ((handedTo (first.bus.listeners event target) args before).rename f).ear = (before.rename f).ear := by
      simp [Mailbox.rename, Mailbox.ear]
    rw [ear]
    exact still

end Mirrors
end Context
end BehaviorTree
