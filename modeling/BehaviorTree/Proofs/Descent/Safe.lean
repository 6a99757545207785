import BehaviorTree.Proofs.Descent.Sound
import BehaviorTree.Proofs.Event.Dispatch
import BehaviorTree.Proofs.Expression.Eval
import BehaviorTree.Proofs.Tree.Admitted

/-!
What can cut a tick short. The nodes of a loaded tree have the children that their processes ask
for and expressions that have been read, so all that is left are failed assertions and values that
an expression has no meaning for. For the same reason ticking adds nothing to the cache.
-/

namespace BehaviorTree

/-- An error that a run of a loaded tree can raise. -/
def RunError.OfRun : RunError → Prop
  | .expr _ _ error => error.OfValue
  | .assertion .. => True
  | .badResume .. => False
  | .noChild .. => False
  | .custom .. => False

namespace Descent

open TickM (Gives Yields yields_pure yields_bind yields_ite)
open Visit (Iteration)

variable {lexicon : Lexicon} {α β : Type}

/-- A computation that leaves the node types and the cache as they are, and is cut short only by
such errors. -/
def Safe (lexicon : Lexicon) (x : TickM α) (s : Scene) : Prop :=
  s.context.lexicon = lexicon →
    (x.play s).2.context.lexicon = lexicon ∧ ∀ fault, (x.play s).1 = .error fault → fault.error.OfRun

/-! ### Computations -/

section

variable {x : TickM α} {f : α → TickM β} {s : Scene}

theorem safe_of_ok {a : α} (ok : (x.play s).1 = .ok a)
    (keeps : (x.play s).2.context.lexicon = s.context.lexicon) : Safe lexicon x s := by
  refine fun kept => ⟨keeps.trans kept, fun fault raised => ?_⟩
  rw [ok] at raised
  cases raised

theorem safe_pure (a : α) (s : Scene) : Safe lexicon (pure a) s := safe_of_ok rfl rfl

theorem safe_fail (visit : Visit) {error : RunError} (h : error.OfRun) (s : Scene) :
    Safe lexicon (visit.fail error : TickM α) s := by
  refine fun kept => ⟨kept, fun fault raised => ?_⟩
  cases raised
  exact h

/-- A sequence is safe if each part is safe after what comes before. -/
theorem safe_bind {P : α → Scene → Prop} (first : Safe lexicon x s) (given : Gives x s P)
    (next : ∀ a t, P a t → Safe lexicon (f a) t) : Safe lexicon (x >>= f) s := by
  intro kept
  obtain ⟨kept, raised⟩ := first kept
  rw [TickM.play_bind]
  rcases played : x.play s with ⟨fault | a, t⟩
  · rw [played] at kept raised
    exact ⟨kept, fun _ same => raised _ (by cases same; rfl)⟩
  · rw [played] at kept
    exact next a t (given a t played) kept

theorem safe_seq (first : Safe lexicon x s) (next : ∀ a t, Safe lexicon (f a) t) :
    Safe lexicon (x >>= f) s :=
  safe_bind (P := fun _ _ => True) first (fun _ _ _ => trivial) fun a t _ => next a t

theorem safe_map {g : α → β} (h : Safe lexicon x s) : Safe lexicon (g <$> x) s := by
  rw [← bind_pure_comp]
  exact safe_seq h fun a t => safe_pure (g a) t

theorem safe_ite {p : Prop} [Decidable p] {y : TickM α} (hx : Safe lexicon x s) (hy : Safe lexicon y s) :
    Safe lexicon (if p then x else y) s := by
  split
  · exact hx
  · exact hy

/-- A fault that is handed on from another depth is as safe as it was. -/
theorem safe_rethrow {depth : Nat} (h : Safe lexicon x s) :
    Safe lexicon (tryCatch x fun fault => throw ⟨fault.error, depth⟩) s := by
  intro kept
  obtain ⟨kept, raised⟩ := h kept
  rw [TickM.play_tryCatch]
  rcases played : x.play s with ⟨fault | a, t⟩ <;> rw [played] at kept raised
  · refine ⟨kept, fun other same => ?_⟩
    cases same
    exact raised fault rfl
  · exact ⟨kept, fun fault same => by cases same⟩

end

theorem safe_context (s : Scene) : Safe lexicon TickM.context s := safe_of_ok rfl rfl

theorem safe_actor (s : Scene) : Safe lexicon TickM.actor s := safe_of_ok rfl rfl

theorem safe_now (s : Scene) : Safe lexicon TickM.now s := safe_of_ok rfl rfl

theorem safe_updateActor (f : Actor → Actor) (s : Scene) : Safe lexicon (TickM.updateActor f) s :=
  safe_of_ok rfl rfl

theorem safe_updateContext {f : Context → Context} (h : ∀ ctx, (f ctx).lexicon = ctx.lexicon) (s : Scene) :
    Safe lexicon (TickM.updateContext f) s := safe_of_ok rfl (h s.context)

theorem safe_note (n : Note) (s : Scene) : Safe lexicon (TickM.note n) s := safe_of_ok rfl rfl

theorem safe_noteDebug (n : Note) (s : Scene) : Safe lexicon (TickM.noteDebug n) s := by
  refine safe_of_ok rfl ?_
  rw [TickM.play_noteDebug, Scene.noteDebug]
  split <;> rfl

theorem safe_input (visit : Visit) (i : Nat) (s : Scene) : Safe lexicon (visit.input? i) s :=
  safe_seq (safe_actor s) fun _ => safe_pure _

theorem safe_output (visit : Visit) (i : Nat) (s : Scene) : Safe lexicon (visit.output? i) s :=
  safe_seq (safe_actor s) fun _ => safe_pure _

theorem safe_setOutput (visit : Visit) (i : Nat) (v : Value) (s : Scene) :
    Safe lexicon (visit.setOutput i v) s := safe_updateActor _ s

/-- An expression that has been read is evaluated without adding to the cache. -/
theorem safe_evaluate {visit : Visit} {arg code : String} {e : Expr}
    (text : visit.node.text? arg = some code) (read : Fields.get? lexicon.cache code = some e) (s : Scene) :
    Safe lexicon (visit.evaluate arg) s := by
  intro kept
  have compiled : s.context.compile code = (.ok e, s.context) := by
    have cached : s.context.cache = lexicon.cache := congrArg Lexicon.cache kept
    rw [Context.compile, ExprCache.compile_of_get? (by rw [cached]; exact read)]
  rw [visit.play_evaluate, text]
  simp only [compiled, Scene.updateContext, Visit.evaluated]
  refine ⟨kept, fun fault raised => ?_⟩
  rcases evaluated : e.eval s.actor.get? with error | v
  · rw [evaluated] at raised
    cases raised
    exact Expr.evaluates_eval s.actor.get? e error evaluated
  · rw [evaluated] at raised
    cases raised

/-! ### The rules of the nodes -/

section

variable (visit : Visit)

theorem safe_release (listeners : List Nat) (s : Scene) : Safe lexicon (release listeners) s :=
  safe_updateContext (fun ctx => ctx.lexicon_unsubscribes listeners) s

theorem safe_unsubscribe (listener : Nat) (s : Scene) : Safe lexicon (Visit.unsubscribe listener) s :=
  safe_updateContext (fun ctx => ctx.lexicon_unsubscribe listener) s

theorem safe_takeEvent (listener : Nat) (s : Scene) : Safe lexicon (Visit.takeEvent listener) s := by
  refine safe_seq (safe_context s) fun ctx t => ?_
  split
  · exact safe_pure _ t
  · exact safe_seq (safe_updateContext (fun _ => rfl) t) fun _ => safe_pure _

theorem safe_nextEvent (listener : Nat) (s : Scene) : Safe lexicon (nextEvent visit listener) s := by
  refine safe_seq (safe_takeEvent listener s) fun event t => ?_
  rcases event with _ | args
  · exact safe_pure _ t
  · exact safe_seq (safe_updateActor _ t) fun _ => safe_pure _

theorem safe_whom (s : Scene) : Safe lexicon (whom visit) s := by
  unfold whom
  split
  · refine safe_seq (safe_input visit 0 s) fun v t => ?_
    split <;> exact safe_pure _ t
  · exact safe_seq (safe_actor s) fun _ => safe_pure _

theorem safe_startListening (target : Target) (s : Scene) :
    Safe lexicon (startListening visit target) s :=
  fun kept => safe_nextEvent visit _ (s.updateContext fun ctx =>
    (ctx.subscribe ((visit.node.text? "event").getD "") target s.actor.caller).2) kept

theorem safe_firstRound (s : Scene) : Safe lexicon (firstRound visit) s := by
  unfold firstRound
  split <;> exact safe_seq (safe_input visit 0 s) fun _ => safe_pure _

theorem safe_writeRound (it : Iteration) (s : Scene) : Safe lexicon (writeRound visit it) s := by
  unfold writeRound
  split
  · exact safe_setOutput visit 0 _ s
  · split
    · exact safe_seq (safe_setOutput visit 0 _ s) fun _ => safe_setOutput visit 1 _
    · exact safe_pure _ s

theorem safe_startRound (it : Iteration) (s : Scene) : Safe lexicon (startRound visit it) s :=
  safe_ite (safe_pure _ s) (safe_seq (safe_writeRound visit it s) fun _ => safe_pure _)

theorem safe_waitUntil (time : Float) (s : Scene) : Safe lexicon (waitUntil time) s :=
  safe_seq (safe_now s) fun _ => safe_pure _

theorem safe_delayUntil (time : Float) (s : Scene) : Safe lexicon (delayUntil time) s :=
  safe_seq (safe_now s) fun _ => safe_pure _

theorem safe_goOn (kind : Kind) (memory : Memory) (s : Scene) : Safe lexicon (goOn visit kind memory) s := by
  cases memory with
  | nothing => exact safe_pure _ s
  | round it => exact safe_startRound visit it s
  | attempts count => exact safe_pure _ s
  | mailbox listener => exact safe_nextEvent visit listener s
  | «until» time => exact safe_ite (safe_waitUntil time s) (safe_delayUntil time s)

theorem safe_heedEvent (memory : Memory) (verdict : Verdict) (s : Scene) :
    Safe lexicon (heedEvent visit memory verdict) s := by
  cases memory with
  | mailbox listener =>
    refine safe_ite ?_ (safe_nextEvent visit listener s)
    exact safe_seq (safe_unsubscribe listener s) fun _ => safe_pure _
  | _ => exact safe_pure _ s

end

section

variable {node : Node} {path : Path} (admitted : Node.Admitted lexicon.cache node)

include admitted

/-- A node that was admitted starts safely. -/
theorem safe_start (s : Scene) : Safe lexicon (start (visitAt node path) node.kind) s := by
  generalize known : node.kind = kind
  cases kind with
  | loop => exact safe_seq (safe_firstRound _ s) fun it => safe_startRound _ it
  | foreach => exact safe_seq (safe_firstRound _ s) fun it => safe_startRound _ it
  | once => exact safe_seq (safe_actor s) fun _ t => safe_ite (safe_pure _ t) (safe_pure _ t)
  | timeout => exact safe_seq (safe_now s) fun _ => safe_pure _
  | delay => exact safe_seq (safe_now s) fun _ => safe_delayUntil _
  | listen => exact safe_seq (safe_whom _ s) fun _ => safe_startListening _ _
  | listenTree => exact safe_seq (safe_whom _ s) fun _ => safe_startListening _ _
  | wait =>
    exact safe_seq (safe_input _ 0 s) fun _ t => safe_seq (safe_now t) fun _ => safe_waitUntil _
  | check =>
    obtain ⟨code, e, text, read⟩ := admitted.read_expr
      (by rw [known]; exact List.mem_cons_self : Arg.required "value" .expr "Expression to test" ∈ _)
      rfl rfl
    exact safe_map (safe_seq (safe_evaluate text read s) fun _ => safe_pure _)
  | isNull => exact safe_map (safe_seq (safe_input _ 0 s) fun _ => safe_pure _)
  | notNull => exact safe_map (safe_seq (safe_input _ 0 s) fun _ => safe_pure _)
  | isStatus => exact safe_map (safe_seq (safe_actor s) fun _ => safe_pure _)
  | calculate =>
    obtain ⟨code, e, text, read⟩ := admitted.read_expr
      (by rw [known]; exact List.mem_cons_self : Arg.required "value" .expr "Expression to evaluate" ∈ _)
      rfl rfl
    exact safe_map (safe_seq (safe_evaluate text read s) fun _ t =>
      safe_seq (safe_setOutput _ 0 _ t) fun _ => safe_pure _)
  | constant => exact safe_map (safe_seq (safe_setOutput _ 0 _ s) fun _ => safe_pure _)
  | push =>
    refine safe_map (safe_seq (safe_input _ 0 s) fun _ t => safe_seq (safe_output _ 0 t) fun v u => ?_)
    split
    · exact safe_seq (safe_setOutput _ 0 _ u) fun _ => safe_pure _
    · exact safe_pure _ u
  | clear =>
    refine safe_map (safe_seq (safe_updateActor _ s) fun _ t => ?_)
    split
    · exact safe_seq (safe_updateActor _ t) fun _ => safe_pure _
    · exact safe_pure _ t
  | log =>
    exact safe_map (safe_seq (safe_actor s) fun _ t => safe_seq (safe_note _ t) fun _ => safe_pure _)
  | now =>
    exact safe_map (safe_seq (safe_now s) fun _ t => safe_seq (safe_setOutput _ 0 _ t) fun _ => safe_pure _)
  | extension e => exact absurd known (admitted.builtin e)
  | _ => exact safe_pure _ s

/-- An assertion raises an error of its own and no other. -/
theorem safe_heedAssertion (kind : node.kind = .assert) (verdict : Verdict) (s : Scene) :
    Safe lexicon (heedAssertion (visitAt node path) verdict) s := by
  cases verdict with
  | success => exact safe_pure _ s
  | failure =>
    obtain ⟨child, only⟩ := admitted.only_child (by rw [kind]; rfl)
    refine safe_fail _ ?_ s
    simp only [Visit.assertionError, visitAt, only]
    split <;> trivial

/-- A node that was admitted heeds safely. -/
theorem safe_heed (memory : Memory) (i : Nat) (verdict : Verdict) (s : Scene) :
    Safe lexicon (heed (visitAt node path) node.kind memory i verdict) s := by
  generalize known : node.kind = kind
  cases kind with
  | once => exact safe_seq (safe_updateActor _ s) fun _ => safe_pure _
  | assert => exact safe_heedAssertion admitted known verdict s
  | listen => exact safe_heedEvent _ memory verdict s
  | listenTree => exact safe_heedEvent _ memory verdict s
  | _ => exact safe_pure _ s

end

/-! ### Children that are there -/

/-- A move into one of so many children, if into any. -/
def Move.Inside (count : Nat) : Move → Prop
  | .enter i _ => i < count
  | _ => True

section

variable {node : Node} {path : Path}

/-- A node that is not a composite waits for its only child. -/
theorem only_of_waitsWith {kind : Kind} (simple : kind.declaration.role ≠ .composite)
    {memory : Memory} {i : Nat} (waits : WaitsWith kind memory i) :
    i = 0 ∧ kind.declaration.role = .decorator := by
  cases kind with
  | sequence | selector | ifElse | loop | foreach => exact absurd rfl simple
  | repeatUntil wanted =>
    cases memory with
    | attempts count => exact ⟨waits, by cases wanted <;> rfl⟩
    | _ => exact waits.elim
  | _ => cases memory <;> first | exact waits.elim | exact ⟨waits, rfl⟩

/-- A node that is no composite enters a child that it has. -/
theorem inside_of_fits (shaped : node.Shaped) (simple : node.kind.declaration.role ≠ .composite)
    {move : Move} (fits : move.Fits node.kind) : move.Inside node.children.length := by
  cases move with
  | enter i memory =>
    obtain ⟨rfl, role⟩ := only_of_waitsWith simple fits
    obtain ⟨child, only⟩ := shaped.only_child role
    rw [only]
    exact Nat.zero_lt_one
  | _ => trivial

theorem inside_nextChild (stop : Verdict) (i : Nat) :
    (nextChild (visitAt node path) stop i).Inside node.children.length := by
  unfold nextChild
  split
  · assumption
  · trivial

theorem inside_chosenChild (condition : Verdict) :
    (chosenChild (visitAt node path) condition).Inside node.children.length := by
  cases condition <;> simp only [chosenChild] <;> split <;> first | assumption | trivial

theorem inside_nextInRound (it : Iteration) (i : Nat) :
    (nextInRound (visitAt node path) it i).Inside node.children.length := by
  simp only [nextInRound]
  split
  · assumption
  · split <;> trivial

theorem inside_startRound (it : Iteration) :
    Yields (startRound (visitAt node path) it) (Move.Inside node.children.length) :=
  yields_ite (fun _ => yields_pure trivial) fun _ =>
    yields_bind fun _ => yields_pure (inside_nextInRound it 0)

theorem inside_heedInRound (memory : Memory) (i : Nat) (verdict : Verdict) :
    (heedInRound (visitAt node path) memory i verdict).Inside node.children.length := by
  cases memory with
  | round it =>
    cases verdict with
    | success => exact inside_nextInRound it _
    | failure => trivial
  | _ => trivial

variable (shaped : node.Shaped)

include shaped

/-- At its start a node enters a child that it has. -/
theorem inside_start (alone : node.kind ≠ .parallel) :
    Yields (start (visitAt node path) node.kind) (Move.Inside node.children.length) := by
  have simple (role : node.kind.declaration.role ≠ .composite) :
      Yields (start (visitAt node path) node.kind) (Move.Inside node.children.length) :=
    fun s => (fits_start _ shaped.builtin alone s).mono fun _ _ => inside_of_fits shaped role
  generalize known : node.kind = kind at simple alone ⊢
  cases kind with
  | sequence => exact yields_pure (inside_nextChild _ 0)
  | selector => exact yields_pure (inside_nextChild _ 0)
  | parallel => exact absurd rfl alone
  | ifElse => exact yields_pure (Nat.lt_of_lt_of_le Nat.two_pos (shaped.ifElse_length known).1)
  | loop => exact yields_bind fun it => inside_startRound it
  | foreach => exact yields_bind fun it => inside_startRound it
  | repeatUntil wanted => exact simple (by cases wanted <;> decide)
  | extension e => exact absurd known (shaped.builtin e)
  | _ => exact simple (by decide)

/-- After a rest a node enters a child that it has. -/
theorem inside_goOn {memory : Memory} (rests : RestsWith node.kind memory) :
    Yields (goOn (visitAt node path) node.kind memory) (Move.Inside node.children.length) := by
  have simple (role : node.kind.declaration.role ≠ .composite) :
      Yields (goOn (visitAt node path) node.kind memory) (Move.Inside node.children.length) :=
    fun s => (fits_goOn _ rests s).mono fun _ _ => inside_of_fits shaped role
  generalize known : node.kind = kind at simple rests ⊢
  cases kind with
  | loop => cases memory <;> first | exact rests.elim | exact inside_startRound _
  | foreach => cases memory <;> first | exact rests.elim | exact inside_startRound _
  | sequence | selector | parallel | ifElse => cases memory <;> exact rests.elim
  | repeatUntil wanted => exact simple (by cases wanted <;> decide)
  | extension e => exact absurd known (shaped.builtin e)
  | _ => exact simple (by decide)

/-- After a verdict a node enters a child that it has. -/
theorem inside_heed {memory : Memory} {i : Nat} (waits : WaitsWith node.kind memory i)
    (verdict : Verdict) :
    Yields (heed (visitAt node path) node.kind memory i verdict)
      (Move.Inside node.children.length) := by
  have simple (role : node.kind.declaration.role ≠ .composite) :
      Yields (heed (visitAt node path) node.kind memory i verdict) (Move.Inside node.children.length) :=
    fun s => (fits_heed _ waits verdict s).mono fun _ _ => inside_of_fits shaped role
  generalize known : node.kind = kind at simple waits ⊢
  cases kind with
  | sequence =>
    refine yields_pure ?_
    split
    · trivial
    · exact inside_nextChild _ _
  | selector =>
    refine yields_pure ?_
    split
    · trivial
    · exact inside_nextChild _ _
  | ifElse =>
    refine yields_pure ?_
    split
    · exact inside_chosenChild verdict
    · trivial
  | loop => exact yields_pure (inside_heedInRound memory i verdict)
  | foreach => exact yields_pure (inside_heedInRound memory i verdict)
  | parallel => cases memory <;> exact waits.elim
  | repeatUntil wanted => exact simple (by cases wanted <;> decide)
  | extension e => exact absurd known (shaped.builtin e)
  | _ => exact simple (by decide)

end

/-! ### The descent -/

/-- A tick of the node is safe if it goes on from a sound state. -/
def TicksSafely (lexicon : Lexicon) (node : Node) : Prop :=
  ∀ (state : Option Active) (path : Path) (s : Scene), (∀ a ∈ state, Sound [] node a) →
    Safe lexicon (tick node state path) s

section

variable {node : Node} {path : Path} (admitted : Node.Admitted lexicon.cache node)
  (below : ∀ child ∈ node.children, TicksSafely lexicon child)

include admitted below

/-- Turns are safe if the children tick safely. -/
theorem drive_safe (turns : Nat) (move : Move) (fits : move.Fits node.kind)
    (inside : move.Inside node.children.length) (s : Scene) :
    Safe lexicon (drive (visitAt node path) (node.children.map tick) turns move) s := by
  induction turns generalizing move s with
  | zero => cases move <;> exact safe_pure _ s
  | succ turns ih =>
    cases move with
    | finish verdict => exact safe_pure _ s
    | rest memory => exact safe_pure _ s
    | enter i memory =>
      have here : node.children[i]? = some node.children[i] := List.getElem?_eq_getElem inside
      rw [drive, List.getElem?_map, here]
      refine safe_seq (below _ (List.mem_of_getElem? here) none path s (sound_none _ _)) fun report t => ?_
      cases report with
      | running state => exact safe_pure _ t
      | done verdict =>
        refine safe_bind (safe_heed admitted memory i verdict t)
          ((fits_heed (visitAt node path) fits verdict t).and
            (inside_heed admitted.toShaped fits verdict t)) fun move u both => ?_
        exact ih move both.1 both.2 u

theorem carryOut_safe (move : Move) (fits : move.Fits node.kind)
    (inside : move.Inside node.children.length) (s : Scene) :
    Safe lexicon (carryOut (visitAt node path) (node.children.map tick) move) s :=
  safe_seq (safe_context s) fun _ t => drive_safe admitted below _ move fits inside t

end

/-- The children of a Parallel node are ticked safely. -/
theorem tickShares_safe (visit : Visit) {nodes : List Node} {shares : List (Option Share)}
    (sound : SoundBefore [] nodes shares) (below : ∀ child ∈ nodes, TicksSafely lexicon child)
    (s : Scene) : Safe lexicon (tickShares visit (nodes.map tick) shares) s := by
  have beside {child : Node} (safely : TicksSafely lexicon child) (state : Option Active) (t : Scene)
      (sound : ∀ a ∈ state, Sound [] child a) : Safe lexicon (tickBeside visit (tick child) state) t :=
    safe_seq (safe_rethrow (safely state [] t sound)) fun _ => safe_pure _
  induction sound generalizing s with
  | nil => exact safe_pure _ s
  | @cons child share rest shares first _ ih =>
    have safely := below child List.mem_cons_self
    refine safe_seq ?_ fun share t =>
      safe_seq (ih (fun node member => below node (List.mem_cons_of_mem _ member)) t) fun _ => safe_pure _
    rcases share with _ | (verdict | state)
    · exact beside safely none s (sound_none _ _)
    · exact safe_pure _ s
    · exact beside safely (some state) s fun a same => Option.mem_some.mp same ▸ first _ rfl

theorem safe_act (visit : Visit) {x : TickM Report} (h : ∀ t, Safe lexicon x t) (s : Scene) :
    Safe lexicon (act visit x) s :=
  safe_seq (safe_noteDebug _ s) fun _ t => safe_seq (h t) fun _ u =>
    safe_seq (safe_noteDebug _ u) fun _ v => safe_seq (safe_updateActor _ v) fun _ => safe_pure _

theorem safe_expire (visit : Visit) (state : Active) (s : Scene) :
    Safe lexicon (expire visit state) s :=
  safe_seq (safe_now s) fun _ t => safe_seq (safe_noteDebug _ t) fun _ u =>
    safe_seq (safe_release _ u) fun _ =>
      safe_act visit fun v => safe_seq (safe_note _ v) fun _ => safe_pure _

section

variable {node : Node} {path : Path}

/-- A visit is safe if the children tick safely. -/
theorem visitNode_safe (admitted : Node.Admitted lexicon.cache node)
    (below : ∀ child ∈ node.children, TicksSafely lexicon child) (state : Option Active) (s : Scene)
    (sound : ∀ a ∈ state, Sound [] node a) :
    Safe lexicon (visitNode (visitAt node path) (node.children.map tick) state) s := by
  have beside (shares : List (Option Share)) (sound : SoundBefore [] node.children shares) (t : Scene) :
      Safe lexicon (tickAllBeside (visitAt node path) (node.children.map tick) shares) t :=
    safe_seq (tickShares_safe (visitAt node path) sound below t) fun _ => safe_pure _
  rcases state with _ | (memory | ⟨memory, i, state⟩ | shares)
  · rw [visitNode]
    split
    · rw [List.map_map]
      exact safe_act _ (beside _ (soundBefore_none _ _)) s
    · rename_i alone
      exact safe_act _ (fun t => safe_bind (safe_start admitted t)
        ((fits_start (visitAt node path) admitted.builtin alone t).and
          (inside_start admitted.toShaped alone t)) fun move u both =>
            carryOut_safe admitted below move both.1 both.2 u) s
  · have rests := sound _ rfl
    exact safe_act _ (fun t => safe_bind (safe_goOn _ _ memory t)
      ((fits_goOn (visitAt node path) rests t).and (inside_goOn admitted.toShaped rests t))
        fun move u both => carryOut_safe admitted below move both.1 both.2 u) s
  · obtain ⟨waits, _, child, here, sound⟩ := sound _ rfl
    rw [visitNode, List.getElem?_map, here]
    refine safe_seq (safe_now s) fun now t => safe_ite (safe_expire _ state t) ?_
    refine safe_seq (below child (List.mem_of_getElem? here) (some state) path t fun _ same =>
      Option.mem_some.mp same ▸ sound) fun report u => ?_
    cases report with
    | running state => exact safe_seq (safe_updateActor _ u) fun _ => safe_pure _
    | done verdict =>
      exact safe_act _ (fun v => safe_bind (safe_heed admitted memory i verdict v)
        ((fits_heed (visitAt node path) waits verdict v).and
          (inside_heed admitted.toShaped waits verdict v)) fun move w both =>
            carryOut_safe admitted below move both.1 both.2 w) u
  · obtain ⟨_, sound⟩ := sound _ rfl
    exact safe_act _ (beside _ (soundBefore_some sound)) s

end

/-- Ticks of loaded nodes are safe, from every sound state on. -/
theorem ticksSafely (node : Node) (admitted : node.Every (Node.Admitted lexicon.cache)) :
    TicksSafely lexicon node := by
  induction node using Node.induct with
  | step node ih =>
    intro state path s sound
    rw [tick_eq]
    exact visitNode_safe admitted.self (fun child member => ih child member (admitted.child member))
      state s sound

end Descent
end BehaviorTree
