import BehaviorTree.Proofs.Descent.Pairing
import BehaviorTree.Proofs.Event.Wired
import Mathlib.Algebra.BigOperators.Group.Multiset.Basic
import Mathlib.Algebra.Order.BigOperators.Group.Multiset
import Mathlib.Algebra.Order.Group.Nat

/-!
How often nodes are executed in one tick. Every execution of a node is noted when the actor is
debugged. A tick executes a node once at most, and once more for every event that waits for a
listening node above it; whether these rules let a node be entered again is known from the turns
that its parent has left.
-/

namespace BehaviorTree

/-- An execution of the node with this id. -/
def Note.enters (id : Nat) : Note → Bool
  | .entered _ other _ => other = id
  | _ => false

/-- How many executions of a node have been noted. -/
def Context.executions (id : Nat) (ctx : Context) : Nat := ctx.notes.countP (Note.enters id)

/-- How many events wait to be handled above the nodes with this id. -/
def Hold.waiting (id : Nat) (ctx : Context) (h : Hold) : Nat :=
  (Node.idsAll h.node.children).count id * (ctx.queue h.listener).length

/-- How many events wait above those nodes, in all the mailboxes that are held. -/
def Context.waiting (id : Nat) (H : Multiset Hold) (ctx : Context) : Nat :=
  (H.map (Hold.waiting id ctx)).sum

namespace Context

variable {id : Nat} {ctx : Context}

@[simp] theorem executions_note (n : Note) :
    (ctx.note n).executions id = ctx.executions id + if n.enters id then 1 else 0 := by
  rw [executions, note, List.countP_append, List.countP_singleton]
  rfl

@[simp] theorem executions_unsubscribe (listener : Nat) :
    (ctx.unsubscribe listener).executions id = ctx.executions id := by
  rw [unsubscribe]
  split <;> rfl

@[simp] theorem waiting_zero : ctx.waiting id 0 = 0 := rfl

@[simp] theorem waiting_add (H more : Multiset Hold) :
    ctx.waiting id (H + more) = ctx.waiting id H + ctx.waiting id more := by
  rw [waiting, Multiset.map_add, Multiset.sum_add]
  rfl

theorem waiting_mono {H : Multiset Hold} {later : Context}
    (fewer : ∀ listener, (later.queue listener).length ≤ (ctx.queue listener).length) :
    later.waiting id H ≤ ctx.waiting id H :=
  Multiset.sum_map_le_sum_map _ _ fun h _ => Nat.mul_le_mul_left _ (fewer h.listener)

end Context

namespace Descent

open TickM

variable {α β : Type} {id : Nat} {s : Scene}

theorem Effect.wired {ids : List Nat} {s t : Scene} (effect : Effect ids s t) (wired : s.context.Wired) :
    t.context.Wired := by
  cases effect with
  | subscribe event target reached => exact wired.subscribe event target s.actor.caller
  | take listener event rest waiting => exact wired.updateMailbox listener fun _ => rest
  | unsubscribe listener => exact wired.unsubscribe listener
  | _ => exact wired.congr rfl rfl

theorem Effects.wired {ids : List Nat} {s t : Scene} (effects : Effects ids s t) (wired : s.context.Wired) :
    t.context.Wired := by
  induction effects with
  | refl => exact wired
  | tail _ last ih => exact last.wired ih

theorem wired_noteDebug (n : Note) (wired : s.context.Wired) : (s.noteDebug n).context.Wired := by
  unfold Scene.noteDebug
  split
  · exact wired.congr rfl rfl
  · exact wired

/-! ### Computations -/

/-- A computation executes the nodes with this id so often at most, however it ends. -/
def Costs (id : Nat) (x : TickM α) (s : Scene) (cost : Nat) : Prop :=
  (x.play s).2.context.executions id ≤ s.context.executions id + cost

section

variable {x : TickM α} {f : α → TickM β} {cost more : Nat}

theorem Costs.mono (costs : Costs id x s cost) (le : cost ≤ more) : Costs id x s more :=
  Nat.le_trans costs (Nat.add_le_add_left le _)

theorem costs_pure (a : α) : Costs id (pure a) s cost := Nat.le_add_right _ _

theorem costs_throw (fault : Fault) : Costs id (throw fault : TickM α) s cost := Nat.le_add_right _ _

/-- Costs add up. -/
theorem costs_bind (first : Costs id x s cost) (next : ∀ a t, x.play s = (.ok a, t) → Costs id (f a) t more) :
    Costs id (x >>= f) s (cost + more) := by
  unfold Costs at first ⊢
  rw [play_bind]
  rcases played : x.play s with ⟨fault | a, t⟩
  · rw [played] at first
    exact Nat.le_trans first (Nat.add_le_add_left (Nat.le_add_right _ _) _)
  · rw [played] at first
    have later : ((f a).play t).2.context.executions id ≤ t.context.executions id + more := next a t played
    simp only at first ⊢
    omega

/-- What costs nothing may come first. -/
theorem costs_before (free : Costs id x s 0) (next : ∀ a t, x.play s = (.ok a, t) → Costs id (f a) t cost) :
    Costs id (x >>= f) s cost := (costs_bind free next).mono (Nat.le_of_eq (Nat.zero_add cost))

/-- What costs nothing may come last. -/
theorem costs_after (first : Costs id x s cost) (free : ∀ a t, x.play s = (.ok a, t) → Costs id (f a) t 0) :
    Costs id (x >>= f) s cost := costs_bind first free

theorem costs_rethrow (handle : Fault → Fault) (costs : Costs id x s cost) :
    Costs id (tryCatch x fun fault => throw (handle fault)) s cost := by
  unfold Costs at costs ⊢
  rw [play_tryCatch]
  rcases played : x.play s with ⟨fault | a, t⟩ <;> rw [played] at costs <;> exact costs

theorem costs_updateActor (g : Actor → Actor) : Costs id (TickM.updateActor g) s 0 := Nat.le_refl _

theorem costs_noteDebug (n : Note) : Costs id (TickM.noteDebug n) s (if n.enters id then 1 else 0) := by
  rw [Costs, play_noteDebug, Scene.noteDebug]
  split
  · exact Nat.le_of_eq (Context.executions_note n)
  · exact Nat.le_add_right _ _

theorem costs_release (listeners : List Nat) : Costs id (release listeners) s 0 := by
  rw [Costs, release, play_updateContext, Scene.updateContext]
  generalize s.context = ctx
  induction listeners generalizing ctx with
  | nil => exact Nat.le_refl _
  | cons listener rest ih => exact Nat.le_trans (ih _) (Nat.le_of_eq (Context.executions_unsubscribe listener))

/-! ### Rules -/

theorem calm_executions (id n : Nat) :
    Calm fun _ _ s t => t = s ∧ s.context.executions id = n where
  alike := by
    rintro H log s t ⟨rfl, -⟩
    exact ⟨rfl, rfl, rfl, rfl, rfl, rfl⟩
  recast vars completed last := by
    rintro ⟨rfl, same⟩
    exact ⟨rfl, same⟩
  logged level other message := by
    rintro ⟨rfl, same⟩
    exact ⟨rfl, (Context.executions_note _).trans same⟩
  compile code := by
    rintro ⟨rfl, same⟩
    exact ⟨rfl, same⟩

/-- What leaves the number of executions alone costs nothing. -/
theorem costs_of_even (even : ∀ n, Even (fun _ _ s t => t = s ∧ s.context.executions id = n) x) :
    Costs id x s 0 := by
  have played := even (s.context.executions id) 0 [] s s ⟨rfl, rfl⟩
  unfold Abreast at played
  unfold Costs
  generalize x.play s = result at played ⊢
  cases played with
  | values related => exact Nat.le_of_eq related.2.2
  | faults fault related => exact Nat.le_of_eq related.2

end

section

variable (visit : Visit)

theorem costs_nextEvent (listener : Nat) : Costs id (nextEvent visit listener) s 0 := by
  rcases waiting : s.context.queue listener with _ | ⟨args, rest⟩
  · rw [Costs, play_nextEvent_nil waiting]
    exact Nat.le_refl _
  · rw [Costs, play_nextEvent_cons waiting]
    exact Nat.le_refl _

theorem costs_start (builtin : IsBuiltin visit.node) : Costs id (start visit visit.node.kind) s 0 := by
  by_cases listens : Listens visit.node
  · rw [start_of_listens listens, Costs, play_bind_ok (play_whom_of_listens visit listens s), play_startListening]
    exact costs_nextEvent visit _
  · exact costs_of_even fun n => even_start (calm_executions id n) visit builtin listens

theorem costs_goOn (kind : Kind) (memory : Memory) : Costs id (goOn visit kind memory) s 0 := by
  cases memory with
  | mailbox listener => exact costs_nextEvent visit listener
  | _ => exact costs_of_even fun n => even_goOn (calm_executions id n) visit kind nofun

/-- Heeding a verdict executes no node. -/
theorem costs_heed (memory : Memory) (i : Nat) (verdict : Verdict) :
    Costs id (heed visit visit.node.kind memory i verdict) s 0 := by
  by_cases listens : Listens visit.node
  · rw [heed_of_listening listens]
    cases memory with
    | mailbox listener =>
      rw [heedEvent]
      split
      · exact Nat.le_of_eq (Context.executions_unsubscribe listener)
      · exact costs_nextEvent visit listener
    | _ => exact costs_pure _
  · exact costs_of_even fun n => even_heed (calm_executions id n) visit listens memory i verdict

end

/-! ### Moves -/

/-- How often the nodes with this id can be executed below a node from a move on. -/
def Move.chances (id : Nat) (children : List Node) (ctx : Context) : Move → Nat
  | .enter _ (.mailbox listener) =>
    (Node.idsAll children).count id * (1 + (ctx.queue listener).length)
  | .enter i _ => (Node.idsAll (children.drop i)).count id
  | _ => 0

section

variable {children : List Node} {ctx : Context}

theorem count_idsAll_cons (child : Node) (rest : List Node) :
    (Node.idsAll (child :: rest)).count id = child.ids.count id + (Node.idsAll rest).count id := by
  rw [Node.idsAll, List.flatMap_cons, List.count_append]
  rfl

theorem count_ids (node : Node) :
    node.ids.count id = (if node.id = id then 1 else 0) + (Node.idsAll node.children).count id := by
  rw [Node.ids_eq, List.count_cons, Nat.add_comm]
  simp only [beq_iff_eq]

theorem count_idsAll_drop_le (k : Nat) :
    (Node.idsAll (children.drop k)).count id ≤ (Node.idsAll children).count id := by
  induction k generalizing children with
  | zero => exact Nat.le_refl _
  | succ k ih =>
    cases children with
    | nil => exact Nat.le_refl _
    | cons child rest =>
      rw [count_idsAll_cons]
      exact Nat.le_trans ih (Nat.le_add_left _ _)

theorem Move.Deaf.chances_enter {i : Nat} {memory : Memory} (deaf : memory.Deaf) :
    (Move.enter i memory).chances id children ctx = (Node.idsAll (children.drop i)).count id := by
  cases memory <;> first | rfl | exact absurd rfl (deaf _)

theorem Move.Deaf.chances_le {move : Move} (deaf : move.Deaf) :
    move.chances id children ctx ≤ (Node.idsAll children).count id := by
  cases move with
  | enter i memory =>
    rw [Move.Deaf.chances_enter (show memory.Deaf from deaf)]
    exact count_idsAll_drop_le i
  | _ => exact Nat.zero_le _

end

section

variable {node : Node} {path : Path}

/-- For every event that waits a listening node can enter its child. -/
theorem chances_nextEvent (listener : Nat) :
    Gives (nextEvent (visitAt node path) listener) s fun move t =>
      move.chances id node.children t.context ≤
        (Node.idsAll node.children).count id * (s.context.queue listener).length := by
  intro move t played
  rcases waiting : s.context.queue listener with _ | ⟨args, rest⟩
  · rw [play_nextEvent_nil waiting] at played
    cases played
    exact Nat.zero_le _
  · rw [play_nextEvent_cons waiting] at played
    cases played
    have left : (handed node listener args rest s).context.queue listener = rest :=
      s.context.queue_take waiting
    rw [Move.chances, visitAt_node, left, List.length_cons, Nat.add_comm]

/-- At its start a node gives each node below it one chance to be executed. -/
theorem chances_start (builtin : IsBuiltin node) (alone : node.kind ≠ .parallel) (wired : s.context.Wired) :
    Gives (start (visitAt node path) node.kind) s fun move t =>
      move.chances id node.children t.context ≤ (Node.idsAll node.children).count id := by
  by_cases listens : Listens node
  · have begins : start (visitAt node path) node.kind = _ := start_of_listens listens
    have nothing (target : Target) :
        (s.subscribe node.event target).context.queue (s.context.bus.issued + 1) = [] :=
      (s.context.queue_subscribe _ _ _ _).trans (wired.queue_fresh (Nat.lt_succ_self _))
    intro move t played
    rw [begins, play_bind_ok (play_whom_of_listens (visitAt node path) listens s), play_startListening,
      visitAt_node, play_nextEvent_nil (nothing _)] at played
    cases played
    exact Nat.zero_le _
  · exact (fits_start (visitAt node path) builtin alone s).mono fun move t fits =>
      Move.Deaf.chances_le (deaf_of_fits listens fits)

/-- After a rest a node gives those below one chance, and one more for every event that waits. -/
theorem chances_goOn {memory : Memory} (rests : RestsWith node.kind memory) :
    Gives (goOn (visitAt node path) node.kind memory) s fun move t =>
      move.chances id node.children t.context ≤
        (Node.idsAll node.children).count id + s.context.waiting id ↑(memory.holds node .due) := by
  by_cases listens : Listens node
  · obtain ⟨listener, rfl, -⟩ := listens.rests rests
    exact (chances_nextEvent listener).mono fun move t le => Nat.le_trans le (Nat.le_add_left _ _)
  · exact (fits_goOn (visitAt node path) rests s).mono fun move t fits =>
      Nat.le_trans (Move.Deaf.chances_le (deaf_of_fits listens fits)) (Nat.le_add_right _ _)

/-- How often the nodes with this id can be executed below a node once a child has completed. -/
def Memory.chances (id : Nat) (children : List Node) (ctx : Context) (i : Nat) : Memory → Nat
  | .mailbox listener => (Node.idsAll children).count id * (ctx.queue listener).length
  | _ => (Node.idsAll (children.drop (i + 1))).count id

theorem Memory.Deaf.chances_eq {children : List Node} {ctx : Context} {i : Nat} {memory : Memory}
    (deaf : memory.Deaf) :
    memory.chances id children ctx i = (Node.idsAll (children.drop (i + 1))).count id := by
  cases memory <;> first | rfl | exact absurd rfl (deaf _)

theorem Memory.chances_mono {children : List Node} {ctx later : Context} (memory : Memory) (i : Nat)
    (fewer : ∀ listener, (later.queue listener).length ≤ (ctx.queue listener).length) :
    memory.chances id children later i ≤ memory.chances id children ctx i := by
  cases memory with
  | mailbox listener => exact Nat.mul_le_mul_left _ (fewer listener)
  | _ => exact Nat.le_refl _

/-- A listening node has one child. -/
theorem count_only_child (shaped : node.Shaped) (listens : Listens node) {i : Nat} {child : Node}
    (here : node.children[i]? = some child) :
    (Node.idsAll node.children).count id = child.ids.count id := by
  obtain ⟨only, single⟩ := listens.only_child shaped
  rw [single] at here ⊢
  rw [count_idsAll_cons, Node.idsAll, List.flatMap_nil, List.count_nil]
  cases i with
  | zero => exact congrArg (fun node => node.ids.count id) (Option.some.inj here)
  | succ i => cases here

section

variable (shaped : node.Shaped) {memory : Memory} {i : Nat} (waits : WaitsWith node.kind memory i)
  {child : Node} (here : node.children[i]? = some child)

include shaped waits here

/-- A child that is entered takes one chance. -/
theorem chances_enter (ctx : Context) :
    (Move.enter i memory).chances id node.children ctx =
      child.ids.count id + memory.chances id node.children ctx i := by
  by_cases listens : Listens node
  · obtain ⟨listener, rfl, -⟩ := listens.waits waits
    rw [Move.chances, Memory.chances, count_only_child shaped listens here, Nat.mul_add, Nat.mul_one]
  · obtain ⟨bound, found⟩ := List.getElem?_eq_some_iff.mp here
    have deaf := deaf_of_waitsWith listens waits
    rw [Move.Deaf.chances_enter deaf, Memory.Deaf.chances_eq deaf, List.drop_eq_getElem_cons bound, found,
      count_idsAll_cons]

omit here shaped in
/-- Heeding a verdict gives no more chances than were left. -/
theorem chances_heed (verdict : Verdict) :
    Gives (heed (visitAt node path) node.kind memory i verdict) s fun move t =>
      move.chances id node.children t.context ≤ memory.chances id node.children s.context i := by
  by_cases listens : Listens node
  · obtain ⟨listener, rfl, -⟩ := listens.waits waits
    rw [heed_of_listens listens, heedEvent]
    split
    · intro move t played
      cases played
      exact Nat.zero_le _
    · exact chances_nextEvent listener
  · rw [Memory.Deaf.chances_eq (deaf_of_waitsWith listens waits)]
    refine ((onward_heed (visitAt node path) listens waits verdict s).and
      (fits_heed (visitAt node path) waits verdict s)).mono ?_
    rintro move t ⟨onward, fits⟩
    cases move with
    | enter j memory =>
      rw [Move.Deaf.chances_enter (show memory.Deaf from deaf_of_fits listens fits)]
      obtain ⟨k, rfl⟩ := Nat.exists_eq_add_of_lt onward.1
      rw [show i + k + 1 = i + 1 + k by omega, ← List.drop_drop]
      exact count_idsAll_drop_le k
    | _ => exact Nat.zero_le _

/-- Before a child goes on, the node may have as many chances as events wait for it. -/
theorem chances_le (ctx : Context) :
    memory.chances id node.children ctx i + child.ids.count id ≤
      (Node.idsAll node.children).count id + ctx.waiting id ↑(memory.holds node .busy) := by
  by_cases listens : Listens node
  · obtain ⟨listener, rfl, -⟩ := listens.waits waits
    rw [← count_only_child shaped listens here, Nat.add_comm]
    exact Nat.le_refl _
  · have deaf := deaf_of_waitsWith listens waits
    have entered : (Move.enter i memory).chances id node.children ctx = _ := chances_enter shaped waits here ctx
    rw [Move.Deaf.chances_enter deaf] at entered
    rw [Nat.add_comm, ← entered]
    exact Nat.le_trans (count_idsAll_drop_le i) (Nat.le_add_right _ _)

end

end

/-! ### Nodes -/

/-- A tick of the node executes those with this id no more often than it should. -/
def Frugal (id : Nat) (node : Node) : Prop :=
  ∀ state path (s : Scene), (∀ a ∈ state, Sound [] node a) → s.context.Wired →
    Costs id (tick node state path) s (node.ids.count id + s.context.waiting id (holdsBefore node state))

/-- A fresh tick executes every node once at most. -/
theorem Frugal.fresh {node : Node} (frugal : Frugal id node) (path : Path) (wired : s.context.Wired) :
    Costs id (tick node none path) s (node.ids.count id) := frugal none path s nofun wired

/-- A visit executes its own node once, besides what is executed within it. -/
theorem costs_act {visit : Visit} {x : TickM Report} {cost : Nat} (executed : Costs id x (begun visit s) cost) :
    Costs id (act visit x) s ((if visit.node.id = id then 1 else 0) + cost) := by
  have entered : Costs id _ s _ :=
    costs_noteDebug (.entered visit.node.name visit.node.id (visit.path.length - 1))
  simp only [Note.enters, decide_eq_true_eq] at entered
  refine costs_bind entered fun _ t played => ?_
  cases played
  refine costs_after executed fun report t _ => costs_before (costs_noteDebug _) fun _ u _ => ?_
  exact costs_before (costs_updateActor _) fun _ _ _ => costs_pure _

/-- A node that is cut off is executed itself and nothing below it. -/
theorem costs_expire {visit : Visit} (state : Active) :
    Costs id (expire visit state) s (if visit.node.id = id then 1 else 0) := by
  rw [expire, Costs, play_bind_ok (play_now s)]
  refine costs_before (costs_noteDebug _) fun _ t _ => costs_before (costs_release _) fun _ u _ => ?_
  have failed : Costs id (do TickM.note (.timedOut visit.node.name visit.node.id); return Report.done .failure)
      (begun visit u) 0 :=
    costs_before (Nat.le_of_eq (Context.executions_note _)) fun _ _ _ => costs_pure _
  exact costs_act failed

section

variable (visit : Visit)

theorem begun_wired (wired : s.context.Wired) : (begun visit s).context.Wired := wired_noteDebug _ wired

theorem queue_begun (listener : Nat) : (begun visit s).context.queue listener = s.context.queue listener := by
  unfold begun Scene.noteDebug
  split <;> rfl

theorem waiting_begun (H : Multiset Hold) : (begun visit s).context.waiting id H = s.context.waiting id H :=
  congrArg (fun waiting => (H.map waiting).sum) (funext fun h => by
    rw [Hold.waiting, Hold.waiting, queue_begun])

end

/-- Where ticks add no events, no chances are added. -/
theorem fewer_of_changes {ids : List Nat} {x : TickM α} (changes : Changes ids x) {a : α} {t : Scene}
    (played : x.play s = (.ok a, t)) (listener : Nat) :
    (t.context.queue listener).length ≤ (s.context.queue listener).length := by
  have effects := changes s
  rw [played] at effects
  exact effects.queue_length_le listener

theorem wired_of_changes {ids : List Nat} {x : TickM α} (changes : Changes ids x) {a : α} {t : Scene}
    (played : x.play s = (.ok a, t)) (wired : s.context.Wired) : t.context.Wired := by
  have effects := changes s
  rw [played] at effects
  exact effects.wired wired

section

variable {node : Node} {path : Path} (shaped : node.Shaped) (builtin : node.Every IsBuiltin)
  (below : ∀ child ∈ node.children, Frugal id child)

include shaped builtin below

/-- Turns execute no node more often than the move gives it chances. -/
theorem costs_drive {turns : Nat} {move : Move} (fits : move.Fits node.kind) (wired : s.context.Wired) :
    Costs id (drive (visitAt node path) (node.children.map tick) turns move) s
      (move.chances id node.children s.context) := by
  induction turns generalizing move s with
  | zero => cases move <;> exact costs_pure _
  | succ turns ih =>
    cases move with
    | finish verdict => exact costs_pure _
    | rest memory => exact costs_pure _
    | enter i memory =>
      rw [drive, List.getElem?_map]
      rcases here : node.children[i]? with _ | child
      · exact costs_throw _
      have member := List.mem_of_getElem? here
      have changes := changes_tick child (builtin.child member) none path
      rw [chances_enter shaped fits here]
      refine costs_bind ((below child member).fresh _ wired) fun report t played => ?_
      cases report with
      | running state => exact costs_pure _
      | done verdict =>
        have heeds := changes_heed (visitAt node path) (List.mem_singleton_self _) node.kind memory i verdict
        refine costs_before (costs_heed (visitAt node path) memory i verdict) fun move u heeded => ?_
        have left : move.chances id node.children u.context ≤ memory.chances id node.children t.context i :=
          chances_heed fits verdict move u heeded
        refine (ih (fits_heed (visitAt node path) fits verdict t move u heeded) ?_).mono
          (Nat.le_trans left (memory.chances_mono i (fewer_of_changes changes played)))
        exact wired_of_changes heeds heeded (wired_of_changes changes played wired)

/-- A node decides by a rule and carries out the move. -/
theorem costs_rule {x : TickM Move} {cost : Nat} (quiet : Costs id x s 0) (changes : Changes [node.id] x)
    (fits : Yields x (Move.Fits node.kind))
    (chances : Gives x s fun move t => move.chances id node.children t.context ≤ cost)
    (wired : s.context.Wired) :
    Costs id (do carryOut (visitAt node path) (node.children.map tick) (← x)) s cost := by
  refine costs_before quiet fun move t played => ?_
  refine (costs_drive shaped builtin below (fits s move t played) ?_).mono (chances move t played)
  exact wired_of_changes changes played wired

end

section

variable (visit : Visit)

theorem costs_tickBeside {child : Node} (frugal : Frugal id child) {state : Option Active}
    (sound : ∀ a ∈ state, Sound [] child a) (wired : s.context.Wired) :
    Costs id (tickBeside visit (tick child) state) s
      (child.ids.count id + s.context.waiting id (holdsBefore child state)) :=
  costs_after (costs_rethrow _ (frugal state [] s sound wired)) fun _ _ _ => costs_pure _

theorem costs_tickShare {child : Node} (frugal : Frugal id child) {share : Option Share}
    (sound : ∀ a ∈ share, SoundShare [] child a) (wired : s.context.Wired) :
    Costs id (tickShare visit (tick child) share) s
      (child.ids.count id + s.context.waiting id (shareBefore child share)) := by
  rcases share with _ | (verdict | state)
  · exact costs_tickBeside visit frugal nofun wired
  · exact costs_pure _
  · exact costs_tickBeside visit frugal (fun a same => Option.mem_some.mp same ▸ sound _ rfl) wired

theorem changes_tickShare {child : Node} (builtin : child.Every IsBuiltin) (share : Option Share) :
    Changes child.ids (tickShare visit (tick child) share) := by
  have beside (state : Option Active) : Changes child.ids (tickBeside visit (tick child) state) :=
    changes_bind (changes_rethrow _ (changes_tick child builtin state [])) fun _ => changes_pure _
  rcases share with _ | (verdict | state)
  · exact beside none
  · exact changes_pure _
  · exact beside (some state)

theorem costs_tickShares {nodes : List Node} (builtin : ∀ child ∈ nodes, child.Every IsBuiltin)
    (frugal : ∀ child ∈ nodes, Frugal id child) {shares : List (Option Share)}
    (sound : SoundBefore [] nodes shares) (wired : s.context.Wired) :
    Costs id (tickShares visit (nodes.map tick) shares) s
      ((Node.idsAll nodes).count id + s.context.waiting id (sharesBefore nodes shares)) := by
  induction sound generalizing s with
  | nil => exact costs_pure _
  | @cons child share rest shares first later ih =>
    obtain ⟨own, others⟩ := List.forall_mem_cons.mp builtin
    obtain ⟨mine, theirs⟩ := List.forall_mem_cons.mp frugal
    have changes := changes_tickShare visit own share
    rw [sharesBefore, count_idsAll_cons, Context.waiting_add, Nat.add_add_add_comm, List.map_cons, tickShares]
    refine costs_bind (costs_tickShare visit mine first wired) fun _ t played => ?_
    refine costs_after ((ih others theirs (wired_of_changes changes played wired)).mono ?_)
      fun _ _ _ => costs_pure _
    exact Nat.add_le_add_left (Context.waiting_mono (fewer_of_changes changes played)) _

end

section

variable {node : Node} {path : Path} (shaped : node.Shaped) (builtin : node.Every IsBuiltin)
  (below : ∀ child ∈ node.children, Frugal id child)

include builtin below

theorem costs_beside {shares : List (Option Share)} (sound : SoundBefore [] node.children shares)
    (wired : s.context.Wired) :
    Costs id (tickAllBeside (visitAt node path) (node.children.map tick) shares) s
      ((Node.idsAll node.children).count id + s.context.waiting id (sharesBefore node.children shares)) :=
  costs_after (costs_tickShares _ (fun _ member => builtin.child member) below sound wired)
    fun _ _ _ => by split <;> exact costs_pure _

include shaped

/-- A visit executes a node at most once, and once more for every event that waits above it. -/
theorem costs_visitNode {state : Option Active} (sound : ∀ a ∈ state, Sound [] node a)
    (wired : s.context.Wired) :
    Costs id (visitNode (visitAt node path) (node.children.map tick) state) s
      (node.ids.count id + s.context.waiting id (holdsBefore node state)) := by
  have started := begun_wired (visitAt node path) wired
  rw [count_ids, Nat.add_assoc]
  rcases state with _ | (memory | ⟨memory, i, state⟩ | shares)
  · rw [visitNode, visitAt_node, holdsBefore, Context.waiting_zero]
    split
    · rw [List.map_map]
      refine costs_act ?_
      refine (costs_beside builtin below (soundBefore_none [] node.children) started).mono ?_
      rw [sharesBefore_none, Context.waiting_zero]
    · rename_i alone
      exact costs_act (costs_rule shaped builtin below (costs_start _ builtin.self)
        (changes_start _ builtin.self) (fits_start _ builtin.self alone)
        (chances_start builtin.self alone started) started)
  · have rests : RestsWith node.kind memory := sound _ rfl
    refine costs_act ((costs_rule shaped builtin below (costs_goOn _ node.kind memory)
      (changes_goOn _ node.kind memory) (fits_goOn _ rests) (chances_goOn rests) started).mono ?_)
    rw [waiting_begun]
    exact Nat.le_refl _
  · obtain ⟨waits, -, child, here, sound⟩ := sound _ rfl
    have member := List.mem_of_getElem? here
    have changes := changes_tick child (builtin.child member) (some state) path
    rw [visitNode, visitAt_node, visitAt_path, List.getElem?_map, here]
    refine costs_before (costs_pure _) fun now t played => ?_
    cases played
    split
    · exact (costs_expire state).mono (Nat.le_add_right _ _)
    -- The child that goes on uses up its own chance; the verdict leaves only those after it.
    have used : memory.chances id node.children s.context i + child.ids.count id ≤
        (Node.idsAll node.children).count id + s.context.waiting id ↑(memory.holds node .busy) :=
      chances_le shaped waits here s.context
    have ticked := below child member (some state) path s (fun a same => Option.mem_some.mp same ▸ sound) wired
    have total : child.ids.count id + s.context.waiting id (holdsBefore child (some state)) +
        ((if node.id = id then 1 else 0) + memory.chances id node.children s.context i) ≤
        (if node.id = id then 1 else 0) + ((Node.idsAll node.children).count id +
          s.context.waiting id (holdsBefore node (some (.over memory i state)))) := by
      simp only [holdsBefore, Active.holds, here, ← Multiset.coe_add, Context.waiting_add] at used ⊢
      omega
    refine (costs_bind ticked fun report t played => ?_).mono total
    cases report with
    | running state => exact costs_before (costs_updateActor _) fun _ _ _ => costs_pure _
    | done verdict =>
      have wired := wired_of_changes changes played wired
      refine costs_act ((costs_rule shaped builtin below (costs_heed _ memory i verdict)
        (changes_heed (visitAt node path) (List.mem_singleton_self _) node.kind memory i verdict)
        (fits_heed _ waits verdict)
        (chances_heed waits verdict) (begun_wired _ wired)).mono ?_)
      exact memory.chances_mono i fun listener => by
        rw [queue_begun]
        exact fewer_of_changes changes played listener
  · rw [visitNode]
    refine costs_act ((costs_beside builtin below
      (soundBefore_some (sound (.beside shares) rfl).2) started).mono ?_)
    rw [sharesBefore_some, waiting_begun]
    exact Nat.le_refl _

end

/-- A tick executes a node once, and once more for every event that waits above it. -/
theorem frugal (id : Nat) (node : Node) (shaped : node.Every Node.Shaped) : Frugal id node := by
  induction node using Node.induct with
  | step node ih =>
    intro state path s sound wired
    rw [tick_eq]
    exact costs_visitNode shaped.self (shaped.mono fun _ shaped => shaped.builtin)
      (fun child member => ih child member (shaped.child member)) sound wired

end Descent
end BehaviorTree
