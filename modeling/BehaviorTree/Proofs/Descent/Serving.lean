import BehaviorTree.Proofs.Descent.Keeping
import BehaviorTree.Proofs.Descent.Rising

/-!
The events that listening nodes handle. Whatever was offered to a listener either waits in its mailbox or
has been handled: its node has written the arguments and entered its child for it. The events are handled
in the order in which they were offered, and a node that listens once handles no more than the first.
-/

namespace BehaviorTree.Descent

open Context (Wired)

/-! ### Entries -/

/-- The child of a listening node is entered afresh for an event of a listener. -/
def Call.Enters (listener : Nat) (call : Call) : Prop := call.state = none ∧ call.memory = .mailbox listener

/-- The event of a listener for which a child is entered. -/
def Call.event? (listener : Nat) (call : Call) : Option (List Value) :=
  match call.state, call.memory with
  | none, .mailbox l => if l = listener then (call.before.context.queue listener).head? else none
  | _, _ => none

/-- The events of a listener for which children were entered, in order. -/
def served (listener : Nat) (log : List Call) : List (List Value) := log.filterMap (Call.event? listener)

/-- A node enters its only child right after it has written the arguments of the first event that waits. -/
structure Call.Serves (node : Node) (listener : Nat) (call : Call) : Prop where
  child : node.children = [call.node]
  handed : ∃ args rest, call.before.context.queue listener = args :: rest ∧
    call.scene = handed node listener args rest call.before
  opened : listener ≤ call.scene.issued

/-- A node tends to the events of a listener. -/
structure Tends (node : Node) (listener : Nat) (log : List Call) : Prop where
  serves : ∀ call ∈ log, call.Enters listener → call.Serves node listener
  once : node.isOnce → (served listener log).length ≤ 1

variable {listener other : Nat} {call : Call} {log more : List Call} {node : Node}

theorem Call.Enters.eq (enters : call.Enters listener) (enters' : call.Enters other) : other = listener :=
  Memory.mailbox.inj (enters'.2.symm.trans enters.2)

theorem Call.event?_of_enters (enters : call.Enters listener) :
    call.event? listener = (call.before.context.queue listener).head? := by
  rw [Call.event?, enters.1, enters.2]
  exact if_pos rfl

theorem Call.event?_eq_none (apart : ¬ call.Enters listener) : call.event? listener = none := by
  rw [Call.event?]
  split
  · rename_i l fresh heard
    refine if_neg fun same => apart ⟨fresh, ?_⟩
    rw [heard, same]
  · rfl

theorem served_append : served listener (log ++ more) = served listener log ++ served listener more :=
  List.filterMap_append

theorem served_eq_nil (none : ∀ call ∈ log, ¬ call.Enters listener) : served listener log = [] :=
  List.filterMap_eq_nil_iff.mpr fun call member => Call.event?_eq_none (none call member)

/-- A call that is no entry for the listener does not matter. -/
theorem served_concat (apart : ¬ call.Enters listener) : served listener (log ++ [call]) = served listener log := by
  have none : served listener [call] = [] :=
    served_eq_nil fun _ member => (List.mem_singleton.mp member) ▸ apart
  rw [served_append, none, List.append_nil]

/-- A call that hands on no event leaves what was tended. -/
theorem Tends.concat (tends : Tends node listener log) (apart : ¬ call.Enters listener) :
    Tends node listener (log ++ [call]) where
  serves other member enters := by
    rcases List.mem_append.mp member with before | new
    · exact tends.serves other before enters
    · rw [List.mem_singleton.mp new] at enters
      exact absurd enters apart
  once := by
    rw [served_concat apart]
    exact tends.once

/-- The event of an entry is handled after the others. -/
theorem served_entry {args : List Value} {rest : List (List Value)} (enters : call.Enters listener)
    (waiting : call.before.context.queue listener = args :: rest) :
    served listener (log ++ [call]) = served listener log ++ [args] := by
  have event : call.event? listener = some args := by
    rw [Call.event?_of_enters enters, waiting]
    rfl
  rw [served_append, served, served, List.filterMap_cons, event]
  rfl

/-- A node that listens once enters its child if it has not before. -/
theorem Tends.entry (tends : Tends node listener log) (enters : call.Enters listener)
    (serves : call.Serves node listener) (spare : node.isOnce → served listener log = []) :
    Tends node listener (log ++ [call]) where
  serves other member enters := by
    rcases List.mem_append.mp member with before | new
    · exact tends.serves other before enters
    · rw [List.mem_singleton.mp new]
      exact serves
  once isOnce := by
    obtain ⟨args, rest, waiting, -⟩ := serves.handed
    rw [served_entry enters waiting, spare isOnce]
    exact Nat.le_refl 1

theorem Tends.of_none (none : ∀ call ∈ log, ¬ call.Enters listener) : Tends node listener log where
  serves call member enters := absurd enters (none call member)
  once _ := by
    rw [served_eq_nil none]
    exact Nat.zero_le 1

/-! ### Steps -/

/-- What holds of the events that were offered to the listeners. -/
structure Serving (offered : Nat → List (List Value)) (H : Multiset Hold) (log : List Call) (ctx : Context) :
    Prop where
  /-- What has not been handled waits. -/
  whole : ∀ h ∈ H, served h.listener log ++ ctx.queue h.listener = offered h.listener
  ahead : ∀ listener, served listener log <+: offered listener
  known : ∀ call ∈ log, ∀ listener, call.Enters listener → listener ≤ ctx.bus.issued
  idle : ∀ h ∈ H, h.stance = .idle → ctx.queue h.listener = []
  /-- A node that listens once has not entered its child before. -/
  spare : ∀ h ∈ H, h.node.isOnce → h.stance ≠ .busy → served h.listener log = []
  tends : ∀ h ∈ H, Tends h.node h.listener log
  tended : ∀ call ∈ log, ∀ listener, call.Enters listener →
    ∃ opening ∈ log, opening.Opens ∧ opening.listener = listener ∧ Tends opening.node listener log

namespace Serving

variable {offered : Nat → List (List Value)} {H : Multiset Hold} {ctx newer : Context} {s : Scene}

/-- Whatever changes besides the events that wait. -/
theorem congr (serving : Serving offered H log ctx) (queue : ∀ h ∈ H, newer.queue h.listener = ctx.queue h.listener)
    (issued : ctx.bus.issued ≤ newer.bus.issued) : Serving offered H log newer where
  whole h member := by
    rw [queue h member]
    exact serving.whole h member
  ahead := serving.ahead
  known call member listener enters := Nat.le_trans (serving.known call member listener enters) issued
  idle h member rests := (queue h member).trans (serving.idle h member rests)
  spare := serving.spare
  tends := serving.tends
  tended := serving.tended

/-- Holding less asks for less. -/
theorem subset {fewer : Multiset Hold} (serving : Serving offered H log ctx) (sub : fewer ⊆ H) :
    Serving offered fewer log ctx where
  whole h member := serving.whole h (sub member)
  ahead := serving.ahead
  known := serving.known
  idle h member := serving.idle h (sub member)
  spare h member := serving.spare h (sub member)
  tends h member := serving.tends h (sub member)
  tended := serving.tended

/-- Nobody listens any more. -/
theorem closed (serving : Serving offered H log ctx) (issued : ctx.bus.issued ≤ newer.bus.issued) :
    Serving offered 0 log newer :=
  (serving.subset (Multiset.subset_of_le (Multiset.zero_le H))).congr
    (fun _ member => absurd member (Multiset.notMem_zero _)) issued

/-- A listener that has not been given out was not entered for. -/
theorem not_enters (serving : Serving offered H log ctx) (fresh : ctx.bus.issued < listener) :
    ∀ call ∈ log, ¬ call.Enters listener :=
  fun call member enters => absurd (serving.known call member listener enters) (Nat.not_le.mpr fresh)

/-- A call that is no entry leaves what was served. -/
theorem concat (serving : Serving offered H log ctx) (other : ¬ call.IsEntry) :
    Serving offered H (log ++ [call]) ctx := by
  have apart (listener : Nat) : ¬ call.Enters listener := fun enters => other ⟨enters.1, listener, enters.2⟩
  have logged {earlier : Call} (member : earlier ∈ log ++ [call]) {listener : Nat} (enters : earlier.Enters listener) :
      earlier ∈ log := by
    rcases List.mem_append.mp member with before | new
    · exact before
    · rw [List.mem_singleton.mp new] at enters
      exact absurd enters (apart listener)
  refine ⟨fun h member => ?_, fun listener => ?_, fun earlier member listener enters => ?_, serving.idle,
    fun h member => ?_, fun h member => (serving.tends h member).concat (apart _),
    fun earlier member listener enters => ?_⟩
  · rw [served_concat (apart _)]
    exact serving.whole h member
  · rw [served_concat (apart _)]
    exact serving.ahead listener
  · exact serving.known earlier (logged member enters) listener enters
  · rw [served_concat (apart _)]
    exact serving.spare h member
  · obtain ⟨opening, there, opens, same, tends⟩ := serving.tended earlier (logged member enters) listener enters
    exact ⟨opening, List.mem_append_left _ there, opens, same, tends.concat (apart _)⟩

/-- A listener is opened. -/
theorem subscribe (serving : Serving offered H log ctx) (event : String) (target : Target) (caller : Nat)
    (nothing : ctx.queue (ctx.bus.issued + 1) = []) (unoffered : offered (ctx.bus.issued + 1) = []) (node : Node) :
    Serving offered (⟨node, ctx.bus.issued + 1, .due⟩ ::ₘ H) log (ctx.subscribe event target caller).2 := by
  have none := serving.not_enters (Nat.lt_succ_self ctx.bus.issued)
  have kept : Serving offered H log (ctx.subscribe event target caller).2 := serving.congr
    (fun h _ => ctx.queue_subscribe event target caller h.listener) (Nat.le_succ _)
  refine ⟨fun h member => ?_, kept.ahead, kept.known, fun h member rests => ?_, fun h member isOnce free => ?_,
    fun h member => ?_, kept.tended⟩
  · rcases Multiset.mem_cons.mp member with rfl | before
    · rw [served_eq_nil none, ctx.queue_subscribe, nothing, unoffered]
      rfl
    · exact kept.whole h before
  · rcases Multiset.mem_cons.mp member with rfl | before
    · cases rests
    · exact kept.idle h before rests
  · rcases Multiset.mem_cons.mp member with rfl | before
    · exact served_eq_nil none
    · exact kept.spare h before isOnce free
  · rcases Multiset.mem_cons.mp member with rfl | before
    · exact .of_none none
    · exact kept.tends h before

/-- The first event that waits is taken, and the child is entered for it. -/
theorem accept {stance : Stance} {args : List Value} {rest : List (List Value)}
    (serving : Serving offered (⟨node, listener, stance⟩ ::ₘ H) log s.context)
    (apart : ∀ h ∈ H, h.listener ≠ listener) (opened : listener ≤ s.context.bus.issued)
    (found : ∃ opening ∈ log, opening.Opens ∧ opening.listener = listener ∧ opening.node = node)
    (again : stance = .busy → node.isOnce = false) (waiting : s.context.queue listener = args :: rest)
    (enters : call.Enters listener) (before : call.before = s)
    (entered : node.children = [call.node] ∧ call.scene = handed node listener args rest s) :
    Serving offered (⟨node, listener, .busy⟩ ::ₘ H) (log ++ [call]) (handed node listener args rest s).context := by
  subst before
  have held : (⟨node, listener, stance⟩ : Hold) ∈ (⟨node, listener, stance⟩ ::ₘ H : Multiset Hold) :=
    Multiset.mem_cons_self _ _
  have whole := serving.whole _ held
  have now : served listener (log ++ [call]) = served listener log ++ [args] := served_entry enters waiting
  have tends : Tends node listener (log ++ [call]) := by
    refine (serving.tends _ held).entry enters ⟨entered.1, ⟨args, rest, waiting, entered.2⟩, ?_⟩ fun isOnce => ?_
    · rw [entered.2]
      exact opened
    · exact serving.spare _ held isOnce fun busy => Bool.false_ne_true ((again busy).symm.trans isOnce)
  -- The other listeners are not affected.
  have others {l : Nat} (ne : l ≠ listener) : ¬ call.Enters l := fun enters' => ne (enters.eq enters')
  have queue {l : Nat} (ne : l ≠ listener) :
      (handed node listener args rest call.before).context.queue l = call.before.context.queue l :=
    call.before.context.queue_updateMailbox_of_ne ne _
  refine ⟨fun h member => ?_, fun l => ?_, fun earlier member l enters' => ?_, fun h member rests => ?_,
    fun h member isOnce free => ?_, fun h member => ?_, fun earlier member l enters' => ?_⟩
  · rcases Multiset.mem_cons.mp member with rfl | there
    · have taken : (handed node listener args rest call.before).context.queue listener = rest :=
        call.before.context.queue_take waiting
      rw [now, taken, List.append_assoc, List.singleton_append, ← waiting]
      exact whole
    · have ne := apart h there
      rw [served_concat (others ne), queue ne]
      exact serving.whole h (Multiset.mem_cons_of_mem there)
  · by_cases same : l = listener
    · subst same
      rw [now]
      exact ⟨rest, by rw [List.append_assoc, List.singleton_append, ← waiting, whole]⟩
    · rw [served_concat (others same)]
      exact serving.ahead l
  · rcases List.mem_append.mp member with there | new
    · exact serving.known earlier there l enters'
    · rw [List.mem_singleton.mp new] at enters'
      rw [enters.eq enters']
      exact opened
  · rcases Multiset.mem_cons.mp member with rfl | there
    · cases rests
    · rw [queue (apart h there)]
      exact serving.idle h (Multiset.mem_cons_of_mem there) rests
  · rcases Multiset.mem_cons.mp member with rfl | there
    · exact absurd rfl free
    · rw [served_concat (others (apart h there))]
      exact serving.spare h (Multiset.mem_cons_of_mem there) isOnce free
  · rcases Multiset.mem_cons.mp member with rfl | there
    · exact tends
    · exact (serving.tends h (Multiset.mem_cons_of_mem there)).concat (others (apart h there))
  · by_cases same : l = listener
    · subst same
      obtain ⟨opening, there, opens, named, rfl⟩ := found
      exact ⟨opening, List.mem_append_left _ there, opens, named, tends⟩
    · rcases List.mem_append.mp member with there | new
      · obtain ⟨opening, there, opens, named, tends⟩ := serving.tended earlier there l enters'
        exact ⟨opening, List.mem_append_left _ there, opens, named, tends.concat (others same)⟩
      · rw [List.mem_singleton.mp new] at enters'
        exact absurd enters' (others same)

/-- No event is left. -/
theorem settle {stance : Stance} (serving : Serving offered (⟨node, listener, stance⟩ ::ₘ H) log ctx)
    (again : stance = .busy → node.isOnce = false) (nothing : ctx.queue listener = []) :
    Serving offered (⟨node, listener, .idle⟩ ::ₘ H) log ctx := by
  have held : (⟨node, listener, stance⟩ : Hold) ∈ (⟨node, listener, stance⟩ ::ₘ H : Multiset Hold) :=
    Multiset.mem_cons_self _ _
  have whole := serving.whole _ held
  have tends := serving.tends _ held
  have spare (isOnce : node.isOnce) : served listener log = [] :=
    serving.spare _ held isOnce fun busy => Bool.false_ne_true ((again busy).symm.trans isOnce)
  refine ⟨fun h member => ?_, serving.ahead, serving.known, fun h member rests => ?_,
    fun h member isOnce free => ?_, fun h member => ?_, serving.tended⟩
  · rcases Multiset.mem_cons.mp member with rfl | there
    · exact whole
    · exact serving.whole h (Multiset.mem_cons_of_mem there)
  · rcases Multiset.mem_cons.mp member with rfl | there
    · exact nothing
    · exact serving.idle h (Multiset.mem_cons_of_mem there) rests
  · rcases Multiset.mem_cons.mp member with rfl | there
    · exact spare isOnce
    · exact serving.spare h (Multiset.mem_cons_of_mem there) isOnce free
  · rcases Multiset.mem_cons.mp member with rfl | there
    · exact tends
    · exact serving.tends h (Multiset.mem_cons_of_mem there)

end Serving

/-! ### Ticks -/

variable {caller : Nat} {start : Context} {H : Multiset Hold} {s : Scene}

namespace Keeps

theorem nodup (keeps : Keeps caller start H log s) : (H.map Hold.listener).Nodup := by
  rw [← keeps.owned, Multiset.coe_nodup]
  exact (List.filter_sublist.map _).nodup keeps.wired.apart

/-- No two listening nodes hold the same listener. -/
theorem apart {h : Hold} (keeps : Keeps caller start (h ::ₘ H) log s) : ∀ other ∈ H, other.listener ≠ h.listener := by
  intro other member same
  have distinct := keeps.nodup
  rw [Multiset.map_cons] at distinct
  exact (Multiset.nodup_cons.mp distinct).1 (same ▸ Multiset.mem_map_of_mem _ member)

theorem listener_le {h : Hold} (keeps : Keeps caller start (h ::ₘ H) log s) : h.listener ≤ s.context.bus.issued := by
  obtain ⟨box, there, named, -⟩ := keeps.box_of_held
  exact named ▸ keeps.wired.opened box there

end Keeps

/-- Events are handled as they were offered, with every step. -/
theorem invariant_serving {offered : Nat → List (List Value)} (later : ∀ l, start.bus.issued < l → offered l = []) :
    Invariant fun H log s => Keeps caller start H log s ∧ Serving offered H log s.context where
  recast vars completed last kept := ⟨(invariant_keeps caller start).recast vars completed last kept.1, kept.2⟩
  note n kept := ⟨(invariant_keeps caller start).note n kept.1, kept.2.congr (fun _ _ => rfl) (Nat.le_refl _)⟩
  noteDebug n kept := by
    refine ⟨(invariant_keeps caller start).noteDebug n kept.1, ?_⟩
    rw [Scene.noteDebug]
    split
    · exact kept.2.congr (fun _ _ => rfl) (Nat.le_refl _)
    · exact kept.2
  compile code kept :=
    ⟨(invariant_keeps caller start).compile code kept.1, kept.2.congr (fun _ _ => rfl) (Nat.le_refl _)⟩
  call kept other := ⟨(invariant_keeps caller start).call kept.1 other, kept.2.concat other⟩
  unheard kept := (invariant_keeps caller start).unheard kept.1
  subscribe {H log s call} kept logged fresh listens actor bus :=
    ⟨kept.1.subscribe logged fresh listens actor bus,
      kept.2.subscribe _ _ _ (kept.1.wired.queue_fresh (Nat.lt_succ_self _))
        (later _ (Nat.lt_succ_of_le kept.1.issued)) call.node⟩
  accept {node listener stance H log s args rest call} kept again waiting fresh heard before entered := by
    obtain ⟨opening, there, first, same, listens, subscribed, -⟩ := kept.1.opened _ (Multiset.mem_cons_self _ _)
    refine ⟨(invariant_keeps caller start).accept kept.1 again waiting fresh heard before entered, ?_⟩
    exact kept.2.accept kept.1.apart kept.1.listener_le
      ⟨opening, there, ⟨first, same ▸ listens⟩, subscribed.symm, same⟩ again waiting ⟨fresh, heard⟩ before entered
  settle kept again nothing :=
    ⟨(invariant_keeps caller start).settle kept.1 again nothing, kept.2.settle again nothing⟩
  unsubscribe {h H log s} kept := by
    have left := (kept.2.subset fun _ member => Multiset.mem_cons_of_mem member)
    refine ⟨kept.1.unsubscribe, left.congr (fun other member => ?_) ?_⟩
    · exact (s.context.queue_unsubscribe h.listener other.listener).trans (if_neg (kept.1.apart other member))
    · exact Nat.le_of_eq (s.context.without_bus_unsubscribe h.listener).issued.symm

end BehaviorTree.Descent
