import BehaviorTree.Proofs.Descent.Leaf
import Mathlib.Data.List.Forall2

/-!
Every state that a tick leaves is sound. The rules only make moves that fit the kind of the node,
and a Once node enters its child only while it has not completed. What the nodes below complete
are others: no two nodes of a loaded tree have the same id.
-/

namespace BehaviorTree.Descent

open TickM (Gives Yields gives_pure gives_throw gives_bind gives_map gives_rethrow yields_pure
  yields_throw yields_bind yields_map yields_ite)
open Visit (Iteration)

/-! ### Moves -/

/-- A move that nodes of a kind make. -/
def Move.Fits (kind : Kind) : Move → Prop
  | .finish _ => True
  | .enter i memory => WaitsWith kind memory i
  | .rest memory => RestsWith kind memory

variable (visit : Visit)

theorem fits_nextChild {kind : Kind} (goes : kind = .sequence ∨ kind = .selector) (stop : Verdict)
    (i : Nat) : (nextChild visit stop i).Fits kind := by
  unfold nextChild
  split
  · rcases goes with rfl | rfl <;> trivial
  · trivial

theorem fits_chosenChild (condition : Verdict) : (chosenChild visit condition).Fits .ifElse := by
  cases condition <;> simp only [chosenChild] <;> split <;> simp [Move.Fits, WaitsWith]

variable {visit} in
theorem fits_nextInRound {kind : Kind} (iterates : kind = .loop ∨ kind = .foreach) {it : Iteration}
    (underWay : it.isOver = false) (i : Nat) : (nextInRound visit it i).Fits kind := by
  simp only [nextInRound]
  split
  · rcases iterates with rfl | rfl <;> exact underWay
  · split
    · trivial
    · rename_i more
      rcases iterates with rfl | rfl <;> exact Bool.eq_false_iff.mpr more

theorem fits_startRound {kind : Kind} (iterates : kind = .loop ∨ kind = .foreach) (it : Iteration) :
    Yields (startRound visit it) (Move.Fits kind) := by
  refine yields_ite (fun _ => yields_pure trivial) fun underWay => yields_bind fun _ => ?_
  exact yields_pure (fits_nextInRound iterates (Bool.eq_false_iff.mpr underWay) 0)

theorem fits_nextEvent {kind : Kind} (listens : kind = .listen ∨ kind = .listenTree)
    (listener : Nat) : Yields (nextEvent visit listener) (Move.Fits kind) := by
  refine yields_bind fun event => ?_
  rcases event with _ | args
  · exact yields_pure (by rcases listens with rfl | rfl <;> trivial)
  · exact yields_bind fun _ => yields_pure (by rcases listens with rfl | rfl <;> rfl)

theorem fits_startListening {kind : Kind} (listens : kind = .listen ∨ kind = .listenTree)
    (target : Target) : Yields (startListening visit target) (Move.Fits kind) :=
  yields_bind fun _ => yields_bind fun _ => fits_nextEvent visit listens _

theorem fits_waitUntil (time : Float) : Yields (waitUntil time) (Move.Fits .wait) := by
  refine yields_bind fun now => yields_pure ?_
  split <;> trivial

theorem fits_delayUntil (time : Float) : Yields (delayUntil time) (Move.Fits .delay) := by
  refine yields_bind fun now => yields_pure ?_
  split
  · trivial
  · rfl

theorem fits_leaf {kind : Kind} {x : TickM Step} (leaf : leaf? visit kind = some x) :
    Yields (start visit kind) (Move.Fits kind) := by
  rw [start_of_leaf leaf]
  refine yields_map fun s step t played => ?_
  obtain ⟨verdict, rfl⟩ := leaf?_yields leaf s step t played
  trivial

/-- A node begins with a move that fits its kind. -/
theorem fits_start {kind : Kind} (builtin : ∀ e, kind ≠ .extension e) (alone : kind ≠ .parallel) :
    Yields (start visit kind) (Move.Fits kind) := by
  cases kind with
  | sequence => exact yields_pure (fits_nextChild visit (.inl rfl) _ 0)
  | selector => exact yields_pure (fits_nextChild visit (.inr rfl) _ 0)
  | parallel => exact absurd rfl alone
  | ifElse => exact yields_pure (Nat.zero_le 2)
  | loop => exact yields_bind fun it => fits_startRound visit (.inl rfl) it
  | foreach => exact yields_bind fun it => fits_startRound visit (.inr rfl) it
  | once =>
    exact yields_bind fun _ => yields_ite (fun _ => yields_pure trivial) fun _ => yields_pure rfl
  | timeout => exact yields_bind fun _ => yields_pure rfl
  | delay => exact yields_bind fun _ => fits_delayUntil _
  | listen => exact yields_bind fun _ => fits_startListening visit (.inl rfl) _
  | listenTree => exact yields_bind fun _ => fits_startListening visit (.inr rfl) _
  | wait => exact yields_bind fun _ => yields_bind fun _ => fits_waitUntil _
  | extension e => exact absurd rfl (builtin e)
  | inverter | alwaysSuccess | alwaysFail | alwaysRunning | assert | repeatUntil =>
    exact yields_pure rfl
  | check | isNull | notNull | isStatus | calculate | constant | push | clear | log | now =>
    exact fits_leaf visit rfl

/-- A node that runs with no child active goes on with a move that fits its kind. -/
theorem fits_goOn {kind : Kind} {memory : Memory} (rests : RestsWith kind memory) :
    Yields (goOn visit kind memory) (Move.Fits kind) := by
  cases memory with
  | nothing => cases kind <;> first | exact rests.elim | exact yields_pure rfl
  | round it =>
    have iterates : kind = .loop ∨ kind = .foreach := by cases kind <;> simp_all [RestsWith]
    exact fits_startRound visit iterates it
  | attempts count => cases kind <;> first | exact rests.elim | exact yields_pure rfl
  | mailbox listener =>
    have listens : kind = .listen ∨ kind = .listenTree := by cases kind <;> simp_all [RestsWith]
    exact fits_nextEvent visit listens listener
  | «until» time =>
    have waits : kind = .wait ∨ kind = .delay := by cases kind <;> simp_all [RestsWith]
    rcases waits with rfl | rfl
    · exact fits_waitUntil time
    · exact fits_delayUntil time

/-- Heeding a verdict in a round comes to a move that fits an iterating node. -/
theorem fits_heedInRound {kind : Kind} (iterates : kind = .loop ∨ kind = .foreach) {memory : Memory}
    {i : Nat} (waits : WaitsWith kind memory i) (verdict : Verdict) :
    (heedInRound visit memory i verdict).Fits kind := by
  cases memory with
  | round it =>
    cases verdict with
    | success => exact fits_nextInRound iterates (by rcases iterates with rfl | rfl <;> exact waits) _
    | failure => trivial
  | _ => trivial

/-- Heeding an attempt comes to a move that fits a repeating node. -/
theorem fits_heedAttempt (wanted : Verdict) (memory : Memory) (verdict : Verdict) :
    (heedAttempt visit wanted memory verdict).Fits (.repeatUntil wanted) := by
  cases memory with
  | attempts count =>
    rw [heedAttempt]
    split
    · trivial
    · split <;> trivial
  | _ => trivial

/-- Heeding a verdict on an event comes to a move that fits a listening node. -/
theorem fits_heedEvent {kind : Kind} (listens : kind = .listen ∨ kind = .listenTree)
    (memory : Memory) (verdict : Verdict) :
    Yields (heedEvent visit memory verdict) (Move.Fits kind) := by
  cases memory with
  | mailbox listener =>
    refine yields_ite (fun _ => yields_bind fun _ => yields_pure trivial) fun _ => ?_
    exact fits_nextEvent visit listens listener
  | _ => exact yields_pure trivial

/-- A node heeds the verdict of a child with a move that fits its kind. -/
theorem fits_heed {kind : Kind} {memory : Memory} {i : Nat} (waits : WaitsWith kind memory i)
    (verdict : Verdict) : Yields (heed visit kind memory i verdict) (Move.Fits kind) := by
  cases kind with
  | sequence =>
    refine yields_pure ?_
    split
    · trivial
    · exact fits_nextChild visit (.inl rfl) _ _
  | selector =>
    refine yields_pure ?_
    split
    · trivial
    · exact fits_nextChild visit (.inr rfl) _ _
  | ifElse =>
    refine yields_pure ?_
    split
    · exact fits_chosenChild visit verdict
    · trivial
  | loop => exact yields_pure (fits_heedInRound visit (.inl rfl) waits verdict)
  | foreach => exact yields_pure (fits_heedInRound visit (.inr rfl) waits verdict)
  | assert =>
    cases verdict with
    | success => exact yields_pure trivial
    | failure => exact yields_throw _
  | repeatUntil wanted => exact yields_pure (fits_heedAttempt visit wanted memory verdict)
  | once => exact yields_bind fun _ => yields_pure trivial
  | listen => exact fits_heedEvent visit (.inl rfl) memory verdict
  | listenTree => exact fits_heedEvent visit (.inr rfl) memory verdict
  | _ => exact yields_pure trivial

/-- A Once node ends with its child. -/
theorem once_heeded {kind : Kind} (memory : Memory) (i : Nat) (verdict : Verdict) :
    Yields (heed visit kind memory i verdict) fun move =>
      kind = .once → ∀ i memory, move ≠ .enter i memory := by
  by_cases once : kind = .once
  · rw [once]
    exact yields_bind fun _ => yields_pure nofun
  · exact fun _ _ _ _ same => absurd same once

/-! ### States -/

mutual

/-- What is completed elsewhere does not matter. -/
theorem Sound.mono {completed later : List Nat} : ∀ {node : Node} {state : Active},
    (∀ id ∈ node.ids, id ∈ later → id ∈ completed) → Sound completed node state →
      Sound later node state
  | _, .resting _, _, rests => rests
  | node, .over _ _ _, sub, ⟨waits, once, child, here, below⟩ =>
    ⟨waits, fun kind member => once kind (sub _ node.id_mem_ids member), child, here,
      below.mono fun id member =>
        sub id (Node.ids_child_subset (List.mem_of_getElem? here) member)⟩
  | node, .beside _, sub, ⟨kind, each⟩ =>
    ⟨kind, SoundShares.mono (fun id member => sub id (node.idsAll_children_subset member)) each⟩

theorem SoundShare.mono {completed later : List Nat} : ∀ {node : Node} {share : Share},
    (∀ id ∈ node.ids, id ∈ later → id ∈ completed) → SoundShare completed node share →
      SoundShare later node share
  | _, .settled _, _, _ => trivial
  | _, .active _, sub, sound => Sound.mono sub sound

theorem SoundShares.mono {completed later : List Nat} : ∀ {nodes : List Node} {shares : List Share},
    (∀ id ∈ Node.idsAll nodes, id ∈ later → id ∈ completed) → SoundShares completed nodes shares →
      SoundShares later nodes shares
  | [], [], _, _ => trivial
  | _ :: _, _ :: _, sub, ⟨first, rest⟩ =>
    ⟨SoundShare.mono (fun id member => sub id (List.mem_append_left _ member)) first,
      SoundShares.mono (fun id member => sub id (List.mem_append_right _ member)) rest⟩

end

/-- A report that leaves a sound state, if any. -/
def SoundReport (completed : List Nat) (node : Node) : Report → Prop
  | .done _ => True
  | .running state => Sound completed node state

/-- There is nothing unsound about a node that is not active. -/
theorem sound_none (completed : List Nat) (node : Node) :
    ∀ a ∈ (none : Option Active), Sound completed node a :=
  fun a member => absurd member (Option.not_mem_none a)

/-- A tick of the node leaves a sound state if it goes on from one. -/
def KeepsSound (node : Node) : Prop :=
  ∀ (state : Option Active) (path : Path) (s : Scene),
    (∀ a ∈ state, Sound s.actor.completed node a) →
      Gives (tick node state path) s fun report t =>
        SoundReport t.actor.completed node report ∧ Effects node.ids s t

theorem gives_effects {α : Type} {ids : List Nat} {x : TickM α} (h : Changes ids x) (s : Scene) :
    Gives x s fun _ t => Effects ids s t := by
  intro a t played
  have effects := h s
  rw [played] at effects
  exact effects

section

variable {node : Node} {path : Path} (nodup : node.ids.Nodup)
  (below : ∀ child ∈ node.children, KeepsSound child)

include nodup

omit below in
/-- A node does not complete while its children are ticked. -/
theorem notMem_completed {child : Node} (member : child ∈ node.children) {s t : Scene}
    (effects : Effects child.ids s t) (waiting : node.id ∉ s.actor.completed) :
    node.id ∉ t.actor.completed := by
  intro completed
  rcases List.mem_append.mp (effects.completed_subset completed) with before | own
  · exact waiting before
  · exact Node.id_notMem_children nodup (Node.ids_subset_of_mem member own)

include below

/-- Turns lead to a sound report. -/
theorem drive_sound (turns : Nat) (move : Move) (fits : move.Fits node.kind) (s : Scene)
    (once : node.kind = .once → ∀ i memory, move = .enter i memory → node.id ∉ s.actor.completed) :
    Gives (drive (visitAt node path) (node.children.map tick) turns move) s fun report t =>
      SoundReport t.actor.completed node report := by
  induction turns generalizing move s with
  | zero => cases move <;> exact gives_pure (by trivial)
  | succ turns ih =>
    cases move with
    | finish verdict => exact gives_pure trivial
    | rest memory => exact gives_pure fits
    | enter i memory =>
      rw [drive, List.getElem?_map]
      rcases here : node.children[i]? with _ | child
      · exact gives_throw _
      · have member := List.mem_of_getElem? here
        refine gives_bind (below child member none path s (sound_none _ _)) fun report t ticked => ?_
        obtain ⟨sound, effects⟩ := ticked
        cases report with
        | running state =>
          refine gives_pure ⟨fits, fun kind => ?_, child, here, sound⟩
          exact notMem_completed nodup member effects (once kind i memory rfl)
        | done verdict =>
          refine gives_bind (P := fun move t => move.Fits node.kind ∧ (node.kind = .once →
            ∀ i memory, move ≠ .enter i memory)) ?_ fun move u heeded =>
              ih move heeded.1 u fun kind i memory entered => absurd entered (heeded.2 kind i memory)
          exact (fits_heed (visitAt node path) fits verdict t).and
            (once_heeded (visitAt node path) memory i verdict t)

theorem carryOut_sound (move : Move) (fits : move.Fits node.kind) (s : Scene)
    (once : node.kind = .once → ∀ i memory, move = .enter i memory → node.id ∉ s.actor.completed) :
    Gives (carryOut (visitAt node path) (node.children.map tick) move) s fun report t =>
      SoundReport t.actor.completed node report :=
  fun report t played => drive_sound nodup below _ move fits s once report t played

end

/-! ### Children beside each other -/

/-- What the children of a Parallel node go on from. -/
abbrev SoundBefore (completed : List Nat) : List Node → List (Option Share) → Prop :=
  List.Forall₂ fun node share => ∀ a ∈ share, SoundShare completed node a

theorem soundBefore_none (completed : List Nat) :
    ∀ nodes : List Node, SoundBefore completed nodes (nodes.map fun _ => none)
  | [] => List.Forall₂.nil
  | _ :: rest =>
    List.Forall₂.cons (fun a member => absurd member (Option.not_mem_none a)) (soundBefore_none completed rest)

theorem soundBefore_some {completed : List Nat} : ∀ {nodes : List Node} {shares : List Share},
    SoundShares completed nodes shares → SoundBefore completed nodes (shares.map some)
  | [], [], _ => List.Forall₂.nil
  | _ :: _, _ :: _, ⟨first, rest⟩ =>
    List.Forall₂.cons (fun _ same => Option.mem_some.mp same ▸ first) (soundBefore_some rest)

/-- Shares stay sound while no node of theirs is memorized. -/
theorem SoundBefore.mono {completed later : List Nat} {nodes : List Node}
    {shares : List (Option Share)} (h : SoundBefore completed nodes shares)
    (sub : ∀ id ∈ Node.idsAll nodes, id ∈ later → id ∈ completed) : SoundBefore later nodes shares := by
  induction h with
  | nil => exact List.Forall₂.nil
  | cons first _ ih =>
    refine List.Forall₂.cons (fun a member => (first a member).mono fun id inside => ?_) (ih fun id inside => ?_)
    · exact sub id (List.mem_append_left _ inside)
    · exact sub id (List.mem_append_right _ inside)

/-- What other nodes complete leaves these as they are. -/
theorem SoundBefore.after {s t : Scene} {nodes : List Node} {shares : List (Option Share)}
    (h : SoundBefore s.actor.completed nodes shares) {ids : List Nat} (effects : Effects ids s t)
    (apart : ∀ a ∈ ids, ∀ b ∈ Node.idsAll nodes, a ≠ b) : SoundBefore t.actor.completed nodes shares := by
  refine h.mono fun id inside member => ?_
  rcases List.mem_append.mp (effects.completed_subset member) with before | own
  · exact before
  · exact absurd rfl (apart id own id inside)

/-- A branch leads to a sound share. -/
theorem tickShare_sound (visit : Visit) {child : Node} (keeps : KeepsSound child) (share : Option Share)
    (s : Scene) (sound : ∀ a ∈ share, SoundShare s.actor.completed child a) :
    Gives (tickShare visit (tick child) share) s fun share t =>
      SoundShare t.actor.completed child share ∧ Effects child.ids s t := by
  have beside (state : Option Active) (sound : ∀ a ∈ state, Sound s.actor.completed child a) :
      Gives (tickBeside visit (tick child) state) s fun share t =>
        SoundShare t.actor.completed child share ∧ Effects child.ids s t := by
    refine gives_bind (gives_rethrow _ (keeps state [] s sound)) fun report t ticked => ?_
    obtain ⟨sound, effects⟩ := ticked
    refine gives_pure ⟨?_, effects⟩
    cases report <;> exact sound
  rcases share with _ | (verdict | state)
  · exact beside none (sound_none _ _)
  · exact gives_pure ⟨trivial, .refl⟩
  · exact beside (some state) fun a same => Option.mem_some.mp same ▸ sound _ rfl

/-- The children of a Parallel node do not come in each other's way. -/
theorem tickShares_sound (visit : Visit) {nodes : List Node} (nodup : (Node.idsAll nodes).Nodup)
    (keeps : ∀ child ∈ nodes, KeepsSound child) (builtin : ∀ child ∈ nodes, child.Every IsBuiltin)
    (shares : List (Option Share)) (s : Scene) (sound : SoundBefore s.actor.completed nodes shares) :
    Gives (tickShares visit (nodes.map tick) shares) s fun shares t =>
      SoundShares t.actor.completed nodes shares := by
  induction nodes generalizing shares s with
  | nil =>
    cases sound
    exact gives_pure trivial
  | cons child rest ih =>
    cases sound with
    | cons first later =>
    rw [Node.idsAll, List.flatMap_cons, List.nodup_append] at nodup
    obtain ⟨_, restNodup, apart⟩ := nodup
    refine gives_bind (tickShare_sound visit (keeps child List.mem_cons_self) _ s first)
      fun share t ticked => ?_
    obtain ⟨sound, effects⟩ := ticked
    have untouched := SoundBefore.after later effects apart
    have builtinRest := fun n member => builtin n (List.mem_cons_of_mem child member)
    have ticked := ih restNodup (fun n member => keeps n (List.mem_cons_of_mem _ member)) builtinRest _ t
      untouched
    have restEffects (shares : List (Option Share)) :=
      gives_effects (changes_tickNodes visit builtinRest shares) t
    refine gives_bind (ticked.and (restEffects _)) fun shares u after => ?_
    obtain ⟨later, effects⟩ := after
    refine gives_pure ⟨sound.mono fun id inside member => ?_, later⟩
    rcases List.mem_append.mp (effects.completed_subset member) with before | other
    · exact before
    · exact absurd rfl (apart id inside id other)

/-! ### Nodes -/

variable {path : Path}

theorem noteDebug_actor (s : Scene) (n : Note) : (s.noteDebug n).actor = s.actor := by
  unfold Scene.noteDebug
  split <;> rfl

/-- The scene once an execution is recorded. -/
def recorded (visit : Visit) (report : Report) (s : Scene) : Scene :=
  (s.noteDebug (.left visit.node.name visit.node.id report.status)).updateActor fun actor =>
    { actor with last := report.status }

@[simp] theorem recorded_completed (visit : Visit) (report : Report) (s : Scene) :
    (recorded visit report s).actor.completed = s.actor.completed := by
  rw [recorded, Scene.updateActor, noteDebug_actor]

theorem gives_act {visit : Visit} {x : TickM Report} {s : Scene} {Q : Report → Scene → Prop}
    (h : ∀ t, t.actor = s.actor → Gives x t fun report u => Q report (recorded visit report u)) :
    Gives (act visit x) s Q := by
  refine gives_bind (P := fun _ t => t.actor = s.actor) ?_ fun _ t same => ?_
  · intro _ t played
    cases played
    exact noteDebug_actor s _
  refine gives_bind (h t same) fun report u related => ?_
  intro r v played
  cases played
  exact related

/-- An execution leaves a sound state if what is executed does. -/
theorem act_sound {visit : Visit} {node : Node} {x : TickM Report} {s : Scene}
    (h : ∀ t, t.actor = s.actor → Gives x t fun report t => SoundReport t.actor.completed node report) :
    Gives (act visit x) s fun report t => SoundReport t.actor.completed node report :=
  gives_act fun t same => (h t same).mono fun report u sound => by
    rw [recorded_completed]
    exact sound

theorem expire_sound {visit : Visit} (state : Active) {node : Node} (s : Scene) :
    Gives (expire visit state) s fun report t => SoundReport t.actor.completed node report := by
  refine (?_ : Yields (expire visit state) fun report => report = .done .failure) s |>.mono ?_
  · refine yields_bind fun _ => yields_bind fun _ => yields_bind fun _ s => gives_act fun _ _ => ?_
    exact gives_bind (P := fun _ _ => True) (fun _ _ _ => trivial) fun _ _ _ => gives_pure rfl
  · rintro _ t rfl
    trivial

/-- Children side by side lead to a sound report. -/
theorem tickAllBeside_sound {node : Node} (nodup : node.ids.Nodup) (builtin : node.Every IsBuiltin)
    (kind : node.kind = .parallel) (below : ∀ child ∈ node.children, KeepsSound child)
    (shares : List (Option Share)) (s : Scene)
    (sound : SoundBefore s.actor.completed node.children shares) :
    Gives (tickAllBeside (visitAt node path) (node.children.map tick) shares) s fun report t =>
      SoundReport t.actor.completed node report := by
  refine gives_bind (tickShares_sound (visitAt node path) (Node.nodup_idsAll_children nodup) below
    (fun _ member => builtin.child member) shares s sound) fun shares t sound => gives_pure ?_
  split
  · trivial
  · exact ⟨kind, sound⟩

/-- A node begins in a scene in which a Once node may enter its child. -/
theorem start_open {kind : Kind} (visit : Visit) (s : Scene) :
    Gives (start visit kind) s fun move t => kind = .once → ∀ i memory, move = .enter i memory →
      visit.node.id ∉ t.actor.completed := by
  by_cases once : kind = .once
  · rw [once, start]
    refine gives_bind (P := fun actor t => actor = t.actor) (fun _ _ played => by cases played; rfl)
      fun actor t same => ?_
    rw [same]
    split
    · refine gives_pure fun _ i memory entered => ?_
      cases entered
    · rename_i waiting
      exact gives_pure fun _ _ _ _ => waiting
  · exact fun _ _ _ same => absurd same once

/-- A visit leads to a sound report. -/
theorem visitNode_sound {node : Node} (nodup : node.ids.Nodup) (builtin : node.Every IsBuiltin)
    (below : ∀ child ∈ node.children, KeepsSound child) (state : Option Active) (s : Scene)
    (sound : ∀ a ∈ state, Sound s.actor.completed node a) :
    Gives (visitNode (visitAt node path) (node.children.map tick) state) s fun report t =>
      SoundReport t.actor.completed node report := by
  rcases state with _ | (memory | ⟨memory, i, state⟩ | shares)
  · rw [visitNode]
    split
    · rename_i kind
      refine act_sound fun t _ => ?_
      rw [List.map_map]
      exact tickAllBeside_sound nodup builtin kind below _ t (soundBefore_none _ _)
    · rename_i alone
      -- A Once node that has completed is refused at the start, so it is open when it enters its child.
      refine act_sound fun t _ => gives_bind ((fits_start (visitAt node path) builtin.self alone t).and
        (start_open (visitAt node path) t)) fun move u both => ?_
      exact carryOut_sound nodup below move both.1 u both.2
  · have rests := sound _ rfl
    rw [visitNode]
    refine act_sound fun t _ => gives_bind (fits_goOn (visitAt node path) rests t)
      fun move u fits => carryOut_sound nodup below move fits u ?_
    intro kind
    simp only [Sound, kind] at rests
    cases memory <;> exact rests.elim
  · obtain ⟨waits, once, child, here, sound⟩ := sound _ rfl
    have member := List.mem_of_getElem? here
    have entered : (node.children.map tick)[i]? = some (tick child) := by
      rw [List.getElem?_map, here]
      rfl
    rw [visitNode, entered]
    refine gives_bind (P := fun _ t => t = s) (fun _ _ played => by cases played; rfl)
      fun now t same => ?_
    rw [same]
    split
    · exact expire_sound state s
    · refine gives_bind (below child member (some state) path s fun _ same =>
        Option.mem_some.mp same ▸ sound) fun report t ticked => ?_
      obtain ⟨sound, effects⟩ := ticked
      cases report with
      | running state =>
        refine gives_bind (P := fun _ u => u.actor.completed = t.actor.completed)
          (fun _ _ played => by cases played; rfl) fun _ u unchanged => gives_pure ?_
        rw [unchanged]
        refine ⟨waits, fun kind => ?_, child, here, sound⟩
        -- The child may have memorized nodes of its own, but not this one, since ids are not repeated.
        exact notMem_completed nodup member effects (once kind)
      | done verdict =>
        refine act_sound fun u _ => gives_bind ((fits_heed (visitAt node path) waits verdict u).and
          (once_heeded (visitAt node path) memory i verdict u)) fun move v heeded => ?_
        exact carryOut_sound nodup below move heeded.1 v fun kind i memory entered =>
          absurd entered (heeded.2 kind i memory)
  · obtain ⟨kind, sound⟩ := sound _ rfl
    rw [visitNode]
    refine act_sound fun t same => ?_
    exact tickAllBeside_sound nodup builtin kind below _ t (soundBefore_some (by rw [same]; exact sound))

/-- Every tick that goes on from a sound state leaves one. -/
theorem keepsSound (node : Node) (builtin : node.Every IsBuiltin) (nodup : node.ids.Nodup) :
    KeepsSound node := by
  induction node using Node.induct with
  | step node ih =>
    intro state path s sound
    refine Gives.and ?_ (gives_effects (changes_tick node builtin state path) s)
    rw [tick_eq]
    exact visitNode_sound nodup builtin (fun child member => ih child member (builtin.child member)
      (Node.nodup_ids_of_mem (Node.nodup_idsAll_children nodup) member)) state s sound

/-- What a tick reports is recorded as what was reported last. -/
theorem tick_last (node : Node) (state : Option Active) (path : Path) (s : Scene) :
    Gives (tick node state path) s fun report t => t.actor.last = report.status := by
  have recorded {x : TickM Report} (s : Scene) : Gives (act (visitAt node (path ++ [node.id])) x) s
      fun report t => t.actor.last = report.status := gives_act fun _ _ _ _ _ => rfl
  have trivially {α : Type} (x : TickM α) (s : Scene) : Gives x s fun _ _ => True :=
    fun _ _ _ => trivial
  rw [tick_eq]
  rcases state with _ | (memory | ⟨memory, i, state⟩ | shares)
  · rw [visitNode]
    split <;> exact recorded s
  · exact recorded s
  · rw [visitNode]
    refine gives_bind (trivially _ s) fun now t _ => ?_
    split
    · exact gives_bind (trivially _ t) fun _ _ _ => gives_bind (trivially _ _) fun _ _ _ =>
        gives_bind (trivially _ _) fun _ u _ => recorded u
    · split
      · exact gives_throw _
      · refine gives_bind (trivially _ t) fun report u _ => ?_
        cases report with
        | running state =>
          refine gives_bind (P := fun _ v => v.actor.last = .running) (fun _ _ played => ?_)
            fun _ v last => gives_pure last
          cases played
          rfl
        | done verdict => exact recorded u
  · exact recorded s

end BehaviorTree.Descent
