import BehaviorTree.Proofs.Descent.Calls
import BehaviorTree.Proofs.Descent.Holding
import BehaviorTree.Proofs.Descent.Onward
import Mathlib.Data.Multiset.AddSub

/-!
Two ticks abreast. They may go on in different contexts, and for different listeners; as long as
nodes find the same wherever they look, both go the same way. What has to be known about the two
scenes is left open: it is a relation that every single step of a tick keeps. Of the listening nodes
that hold a listener it is told which they are, and of the first tick which calls it has made. With
one and the same tick on both sides, such a relation is an invariant.
-/

namespace BehaviorTree

/-! ### Computations -/

namespace TickM

variable {α β γ δ : Type}

/-- Two results agree: both are values, or both are the same fault. -/
inductive Agree (Q : α → β → Scene → Scene → Prop) (E : Scene → Scene → Prop) :
    Except Fault α × Scene → Except Fault β × Scene → Prop
  | values {a : α} {b : β} {s t : Scene} (related : Q a b s t) : Agree Q E (.ok a, s) (.ok b, t)
  | faults (fault : Fault) {s t : Scene} (related : E s t) :
      Agree Q E (.error fault, s) (.error fault, t)

/-- Two computations end with related values, or with the same fault, in related scenes. -/
def Abreast (x : TickM α) (y : TickM β) (s t : Scene) (Q : α → β → Scene → Scene → Prop)
    (E : Scene → Scene → Prop) : Prop := Agree Q E (x.play s) (y.play t)

section

variable {x : TickM α} {y : TickM β} {s t : Scene} {P : α → β → Scene → Scene → Prop}
  {Q : γ → δ → Scene → Scene → Prop} {E F : Scene → Scene → Prop}

theorem abreast_pure {a : α} {b : β} (h : P a b s t) : Abreast (pure a) (pure b) s t P E := .values h

theorem abreast_throw (fault : Fault) (h : E s t) :
    Abreast (throw fault : TickM α) (throw fault : TickM β) s t P E := .faults fault h

/-- Two computations go on side by side if their parts do. -/
theorem abreast_bind {f : α → TickM γ} {g : β → TickM δ} (first : Abreast x y s t P E)
    (next : ∀ a b s' t', P a b s' t' → Abreast (f a) (g b) s' t' Q E) :
    Abreast (x >>= f) (y >>= g) s t Q E := by
  unfold Abreast at first ⊢
  rw [play_bind, play_bind]
  generalize x.play s = left at first
  generalize y.play t = right at first
  cases first with
  | values related => exact next _ _ _ _ related
  | faults fault related => exact .faults fault related

theorem Abreast.mono {P' : α → β → Scene → Scene → Prop} (h : Abreast x y s t P E)
    (sub : ∀ a b s' t', P a b s' t' → P' a b s' t') (other : ∀ s' t', E s' t' → F s' t') :
    Abreast x y s t P' F := by
  unfold Abreast at h ⊢
  generalize x.play s = left at h ⊢
  generalize y.play t = right at h ⊢
  cases h with
  | values related => exact .values (sub _ _ _ _ related)
  | faults fault related => exact .faults fault (other _ _ related)

/-- What the first computation gives is known besides. -/
theorem Abreast.and_gives {G : α → Scene → Prop} (h : Abreast x y s t P E) (gives : Gives x s G) :
    Abreast x y s t (fun a b s' t' => P a b s' t' ∧ G a s') E := by
  unfold Abreast at h ⊢
  unfold Gives at gives
  generalize x.play s = left at h gives ⊢
  generalize y.play t = right at h ⊢
  cases h with
  | values related => exact .values ⟨related, gives _ _ rfl⟩
  | faults fault related => exact .faults fault related

/-- What the first computation came to is known besides. -/
theorem Abreast.played (h : Abreast x y s t P E) :
    Abreast x y s t (fun a b s' t' => x.play s = (.ok a, s') ∧ P a b s' t')
      fun s' t' => (∃ fault, x.play s = (.error fault, s')) ∧ E s' t' := by
  unfold Abreast at h ⊢
  generalize x.play s = left at h ⊢
  generalize y.play t = right at h ⊢
  cases h with
  | values related => exact .values ⟨rfl, related⟩
  | faults fault related => exact .faults fault ⟨⟨fault, rfl⟩, related⟩

/-- Handling faults alike keeps two computations side by side. -/
theorem abreast_rethrow (handle : Fault → Fault) (h : Abreast x y s t P E) :
    Abreast (tryCatch x fun fault => throw (handle fault))
      (tryCatch y fun fault => throw (handle fault)) s t P E := by
  unfold Abreast at h ⊢
  rw [play_tryCatch, play_tryCatch]
  generalize x.play s = left at h
  generalize y.play t = right at h
  cases h with
  | values related => exact .values related
  | faults fault related => exact .faults (handle fault) related

end

end TickM

/-! ### Listening nodes -/

namespace Node

/-- The event that a listening node listens to. -/
def event (node : Node) : String := (node.text? "event").getD ""

/-- Whether a listening node completes with the first event that it hands on. -/
def isOnce (node : Node) : Bool := (node.flag? "once").getD false

/-- Whom the events must be addressed to that a node listens to when it is entered for an actor. -/
def audience (node : Node) (actor : Actor) : Target :=
  match node.kind with
  | .listen =>
    match (actor.input? node 0).bind Value.text? with
    | some name => .named name
    | none => .everyone
  | _ => actor.target

end Node

/-- Writes the arguments of an event to the outputs of a node. -/
def Actor.writeArguments (actor : Actor) (node : Node) (args : List Value) : Actor :=
  args.zipIdx.foldl (fun actor (v, i) => actor.setOutput node i v) actor

namespace Scene

/-- The scene once a listening node has subscribed. -/
def subscribe (s : Scene) (event : String) (target : Target) : Scene :=
  s.updateContext fun ctx => (ctx.subscribe event target s.actor.caller).2

/-- The scene once a listening node has ended its subscription. -/
def unsubscribe (s : Scene) (listener : Nat) : Scene := s.updateContext (·.unsubscribe listener)

/-- What nodes look at besides their mailboxes is the same in both scenes. -/
structure Alike (s t : Scene) : Prop where
  vars : t.actor.vars = s.actor.vars
  completed : t.actor.completed = s.actor.completed
  last : t.actor.last = s.actor.last
  target : t.actor.target = s.actor.target
  clock : t.context.clock = s.context.clock
  cache : t.context.cache = s.context.cache

theorem Alike.get? {s t : Scene} (alike : s.Alike t) : t.actor.get? = s.actor.get? :=
  funext fun name => by rw [Actor.get?, alike.vars, Actor.get?]

end Scene

/-- A change to what an actor remembers apart from its stack. -/
def Actor.recast (vars : Blackboard → Blackboard) (completed : List Nat → List Nat)
    (last : Status → Status) (actor : Actor) : Actor :=
  { actor with
    vars := vars actor.vars, completed := completed actor.completed, last := last actor.last }

theorem Actor.setOutput_eq (node : Node) (i : Nat) (v : Value) :
    ∃ vars, ∀ actor : Actor, actor.setOutput node i v = actor.recast vars id id := by
  rcases wired : node.outputVar? i with _ | name
  · refine ⟨id, fun actor => ?_⟩
    rw [Actor.setOutput, wired]
    rfl
  · refine ⟨(·.set name v), fun actor => ?_⟩
    rw [Actor.setOutput, wired]
    rfl

/-- Writing arguments changes nothing but variables. -/
theorem Actor.writeArguments_eq (node : Node) (args : List Value) :
    ∃ vars, ∀ actor : Actor, actor.writeArguments node args = actor.recast vars id id := by
  simp only [Actor.writeArguments]
  induction args.zipIdx with
  | nil => exact ⟨id, fun _ => rfl⟩
  | cons pair rest ih =>
    obtain ⟨first, written⟩ := Actor.setOutput_eq node pair.2 pair.1
    obtain ⟨later, others⟩ := ih
    refine ⟨later ∘ first, fun actor => ?_⟩
    rw [List.foldl_cons, others, written]
    rfl

namespace Descent

open TickM

/-- The child is entered afresh for an event. -/
def Call.IsEntry (call : Call) : Prop := call.state = none ∧ ∃ listener, call.memory = .mailbox listener

/-- A relation between the scenes of two ticks, with what the listening nodes hold in the first and
the calls made there so far, that every single step of a tick keeps. The listeners of the second
tick are those of the first under a renaming. -/
structure Pairing (f : Nat → Nat) (J : Multiset Hold → List Call → Scene → Scene → Prop) : Prop where
  alike {H log s t} : J H log s t → s.Alike t
  queue {h H log s t} : J (h ::ₘ H) log s t →
    t.context.queue (f h.listener) = s.context.queue h.listener
  next {H log s t} : J H log s t → t.context.bus.issued + 1 = f (s.context.bus.issued + 1)
  recast {H log s t} (vars completed last) : J H log s t →
    J H log (s.updateActor (·.recast vars completed last)) (t.updateActor (·.recast vars completed last))
  note {H log s t} (n : Note) : J H log s t → J H log (s.note n) (t.note n)
  noteDebug {H log s t} (n : Note) : J H log s t → J H log (s.noteDebug n) (t.noteDebug n)
  compile {H log s t} (code : String) : J H log s t →
    J H log (s.updateContext fun ctx => (ctx.compile code).2)
      (t.updateContext fun ctx => (ctx.compile code).2)
  call {H log s t} {call : Call} : J H log s t → ¬ call.IsEntry → J H (log ++ [call]) s t
  unheard {H log s t} : J H log s t → s.context.queue (s.context.bus.issued + 1) = []
  subscribe {H log s t} {call : Call} : J H log s t → call ∈ log → call.state = none →
    Listens call.node → s.actor = call.scene.actor → s.context.bus = call.scene.context.bus →
    J (⟨call.node, s.context.bus.issued + 1, .due⟩ ::ₘ H) log
      (s.subscribe call.node.event (call.node.audience s.actor))
      (t.subscribe call.node.event (call.node.audience s.actor))
  accept {node listener stance H log s t} {args : List Value} {rest : List (List Value)} {call : Call} :
    J (⟨node, listener, stance⟩ ::ₘ H) log s t → (stance = .busy → node.isOnce = false) →
    s.context.queue listener = args :: rest → call.state = none → call.memory = .mailbox listener →
    call.before = s → node.children = [call.node] ∧ call.scene = handed node listener args rest s →
    J (⟨node, listener, .busy⟩ ::ₘ H) (log ++ [call]) (handed node listener args rest s)
      (handed node (f listener) args rest t)
  settle {node listener stance H log s t} : J (⟨node, listener, stance⟩ ::ₘ H) log s t →
    (stance = .busy → node.isOnce = false) → s.context.queue listener = [] →
    J (⟨node, listener, .idle⟩ ::ₘ H) log s t
  unsubscribe {h H log s t} : J (h ::ₘ H) log s t →
    J H log (s.unsubscribe h.listener) (t.unsubscribe (f h.listener))

/-! ### Nodes that do not listen -/

/-- A relation that is kept by what the rules of nodes do that do not listen. -/
structure Calm (J : Multiset Hold → List Call → Scene → Scene → Prop) : Prop where
  alike {H log s t} : J H log s t → s.Alike t
  recast {H log s t} (vars completed last) : J H log s t →
    J H log (s.updateActor (·.recast vars completed last)) (t.updateActor (·.recast vars completed last))
  logged {H log s t} (level id message) : J H log s t →
    J H log (s.note (.logged level id message)) (t.note (.logged level id message))
  compile {H log s t} (code : String) : J H log s t →
    J H log (s.updateContext fun ctx => (ctx.compile code).2)
      (t.updateContext fun ctx => (ctx.compile code).2)

theorem Pairing.calm {f : Nat → Nat} {J : Multiset Hold → List Call → Scene → Scene → Prop}
    (pairing : Pairing f J) : Calm J where
  alike := pairing.alike
  recast := pairing.recast
  logged _ _ _ := pairing.note _
  compile := pairing.compile

section

variable {J : Multiset Hold → List Call → Scene → Scene → Prop} {α β : Type}

/-- A computation that gives the same on both sides and leaves related scenes. -/
def Even (J : Multiset Hold → List Call → Scene → Scene → Prop) (x : TickM α) : Prop :=
  ∀ H log s t, J H log s t →
    Abreast x x s t (fun a b s' t' => b = a ∧ J H log s' t') (J H log)

theorem even_pure (a : α) : Even J (pure a) := fun _ _ _ _ related => abreast_pure ⟨rfl, related⟩

theorem even_fail (visit : Visit) (error : RunError) : Even J (visit.fail error : TickM α) :=
  fun _ _ _ _ related => abreast_throw _ related

theorem even_bind {x : TickM α} {f : α → TickM β} (hx : Even J x) (hf : ∀ a, Even J (f a)) :
    Even J (x >>= f) := by
  intro H log s t related
  refine abreast_bind (hx H log s t related) fun a b s' t' both => ?_
  obtain ⟨rfl, related⟩ := both
  exact hf b H log s' t' related

theorem even_map {g : α → β} {x : TickM α} (hx : Even J x) : Even J (g <$> x) := by
  rw [← bind_pure_comp]
  exact even_bind hx fun _ => even_pure _

theorem even_ite {p : Prop} [Decidable p] {x y : TickM α} (hx : Even J x) (hy : Even J y) :
    Even J (if p then x else y) := by
  split
  · exact hx
  · exact hy

variable (calm : Calm J)

include calm

/-- The actor may be read for what is the same on both sides. -/
theorem even_actor {g : Actor → TickM α} (h : ∀ actor, Even J (g actor))
    (same : ∀ s t : Scene, s.Alike t → g t.actor = g s.actor) : Even J (TickM.actor >>= g) := by
  intro H log s t related
  rw [Abreast, play_bind_ok (play_actor s), play_bind_ok (play_actor t), same s t (calm.alike related)]
  exact h s.actor H log s t related

theorem even_now : Even J TickM.now := fun _ _ _ _ related =>
  .values ⟨(calm.alike related).clock, related⟩

theorem even_input (visit : Visit) (i : Nat) : Even J (visit.input? i) :=
  even_actor calm (fun _ => even_pure _) fun s t alike => by
    rw [Actor.input?, Actor.input?, alike.get?]

theorem even_output (visit : Visit) (i : Nat) : Even J (visit.output? i) :=
  even_actor calm (fun _ => even_pure _) fun s t alike => by
    rw [Actor.output?, Actor.output?, alike.get?]

theorem even_recast {g : Actor → Actor} (vars completed last)
    (same : ∀ actor, g actor = actor.recast vars completed last) : Even J (TickM.updateActor g) := by
  intro H log s t related
  rw [show g = Actor.recast vars completed last from funext same]
  exact .values ⟨rfl, calm.recast vars completed last related⟩

theorem even_setOutput (visit : Visit) (i : Nat) (v : Value) : Even J (visit.setOutput i v) := by
  obtain ⟨vars, written⟩ := Actor.setOutput_eq visit.node i v
  exact even_recast calm vars id id written

theorem even_removeAll (names : List String) :
    Even J (TickM.updateActor fun actor => names.foldl Actor.remove actor) := by
  refine even_recast calm (names.foldl fun vars name => vars.erase name) id id fun actor => ?_
  induction names generalizing actor with
  | nil => rfl
  | cons name rest ih => exact ih (actor.remove name)

theorem even_logged (level : Level) (id : Nat) (message : String) :
    Even J (TickM.note (.logged level id message)) :=
  fun _ _ _ _ related => .values ⟨rfl, calm.logged level id message related⟩

theorem even_evaluate (visit : Visit) (arg : String) : Even J (visit.evaluate arg) := by
  intro H log s t related
  have alike := calm.alike related
  rw [Abreast, visit.play_evaluate, visit.play_evaluate]
  rcases visit.node.text? arg with _ | code
  · exact .faults _ related
  · have compiled : (t.context.compile code).1 = (s.context.compile code).1 := by
      rw [Context.compile, Context.compile, alike.cache]
    have read : visit.evaluated t = visit.evaluated s := by
      funext result
      simp only [Visit.evaluated, alike.get?]
    have next := calm.compile code related
    simp only [read, compiled]
    rcases visit.evaluated s (s.context.compile code).1 with fault | v
    · exact .faults fault next
    · exact .values ⟨rfl, next⟩

theorem even_firstRound (visit : Visit) : Even J (firstRound visit) := by
  unfold firstRound
  split <;> exact even_bind (even_input calm visit 0) fun _ => even_pure _

theorem even_writeRound (visit : Visit) (it : Visit.Iteration) : Even J (writeRound visit it) := by
  unfold writeRound
  split
  · exact even_setOutput calm visit 0 _
  · split
    · exact even_bind (even_setOutput calm visit 0 _) fun _ => even_setOutput calm visit 1 _
    · exact even_pure _

theorem even_startRound (visit : Visit) (it : Visit.Iteration) : Even J (startRound visit it) :=
  even_ite (even_pure _) (even_bind (even_writeRound calm visit it) fun _ => even_pure _)

theorem even_waitUntil (time : Float) : Even J (waitUntil time) :=
  even_bind (even_now calm) fun _ => even_pure _

theorem even_delayUntil (time : Float) : Even J (delayUntil time) :=
  even_bind (even_now calm) fun _ => even_pure _

/-- A node that does not listen begins the same on both sides. -/
theorem even_start (visit : Visit) (builtin : IsBuiltin visit.node) (deaf : ¬ Listens visit.node) :
    Even J (start visit visit.node.kind) := by
  have input := even_input calm visit 0
  have writes := even_setOutput calm visit 0
  have evaluates := even_evaluate calm visit
  unfold Listens at deaf
  unfold IsBuiltin at builtin
  generalize visit.node.kind = kind at builtin deaf
  cases kind with
  | loop =>
    exact even_bind (even_firstRound calm visit) fun it => even_startRound calm visit it
  | foreach =>
    exact even_bind (even_firstRound calm visit) fun it => even_startRound calm visit it
  | once =>
    refine even_actor calm (fun _ => even_ite (even_pure _) (even_pure _)) fun s t alike => ?_
    rw [alike.completed]
  | timeout => exact even_bind (even_now calm) fun _ => even_pure _
  | delay => exact even_bind (even_now calm) fun _ => even_delayUntil calm _
  | listen => exact absurd (.inl rfl) deaf
  | listenTree => exact absurd (.inr rfl) deaf
  | wait =>
    exact even_bind input fun _ => even_bind (even_now calm) fun _ => even_waitUntil calm _
  | check => exact even_map (even_bind (evaluates _) fun _ => even_pure _)
  | isNull => exact even_map (even_bind input fun _ => even_pure _)
  | notNull => exact even_map (even_bind input fun _ => even_pure _)
  | isStatus =>
    refine even_map (even_actor calm (fun _ => even_pure _) fun s t alike => ?_)
    rw [alike.last]
  | calculate =>
    exact even_map (even_bind (evaluates _) fun _ => even_bind (writes _) fun _ => even_pure _)
  | constant => exact even_map (even_bind (writes _) fun _ => even_pure _)
  | push =>
    refine even_map (even_bind input fun _ => even_bind (even_output calm visit 0) fun v => ?_)
    split
    · exact even_bind (writes _) fun _ => even_pure _
    · exact even_pure _
  | clear =>
    refine even_map (even_bind (even_removeAll calm _) fun _ => ?_)
    split
    · refine even_bind (even_recast calm (·.filter fun entry => !isTemporary entry.1) id id
        fun _ => rfl) fun _ => even_pure _
    · exact even_pure _
  | log =>
    refine even_map (even_actor calm (fun _ => even_bind (even_logged calm _ _ _)
      fun _ => even_pure _) fun s t alike => ?_)
    have read : t.actor.input? visit.node = s.actor.input? visit.node :=
      funext fun i => by rw [Actor.input?, alike.get?, Actor.input?]
    rw [read]
  | now =>
    exact even_map (even_bind (even_now calm) fun _ => even_bind (writes _) fun _ => even_pure _)
  | extension e => exact absurd rfl (builtin e)
  | _ => exact even_pure _

/-- A node that remembers no listener goes on the same on both sides. -/
theorem even_goOn (visit : Visit) (kind : Kind) {memory : Memory}
    (deaf : memory.Deaf) : Even J (goOn visit kind memory) := by
  cases memory with
  | nothing => exact even_pure _
  | round it => exact even_startRound calm visit it
  | attempts count => exact even_pure _
  | mailbox listener => exact absurd rfl (deaf listener)
  | «until» time => exact even_ite (even_waitUntil calm time) (even_delayUntil calm time)

/-- A node that does not listen heeds its child the same on both sides. -/
theorem even_heed (visit : Visit) (deaf : ¬ Listens visit.node) (memory : Memory) (child : Nat)
    (verdict : Verdict) : Even J (heed visit visit.node.kind memory child verdict) := by
  unfold Listens at deaf
  generalize visit.node.kind = kind at deaf
  cases kind with
  | once =>
    exact even_bind (even_recast calm id (visit.node.id :: ·) id fun _ => rfl) fun _ => even_pure _
  | assert =>
    cases verdict with
    | success => exact even_pure _
    | failure => exact even_fail visit _
  | listen => exact absurd (.inl rfl) deaf
  | listenTree => exact absurd (.inr rfl) deaf
  | _ => exact even_pure _

end

end Descent
end BehaviorTree
