import BehaviorTree.Proofs.Descent.Calls
import BehaviorTree.Proofs.Descent.Sound

/-!
Which report is recorded. In the course of a tick nodes are turned to and report, one within another. At each of
these instants the status that is recorded is the one that was reported last, whichever node reported it and
whether or not it runs on; a tick that is cut short leaves it at that.
-/

namespace BehaviorTree.Descent

open TickM

/-- An instant in the course of a run. -/
inductive Instant where
  /-- A node is turned to. -/
  | begun (call : Call)
  /-- It has reported. -/
  | ended (call : Call) (status : Status)

namespace Call

/-- The scene that a call leaves. -/
def left (call : Call) : Scene := ((tick call.node call.state call.path).play call.scene).2

/-- The report of a call, unless it is cut short. -/
def ended (call : Call) : List Instant :=
  match call.result with
  | .ok report => [.ended call report.status]
  | .error _ => []

end Call

namespace Instant

/-- The scene at an instant. -/
def scene : Instant → Scene
  | begun call => call.scene
  | ended call _ => call.left

/-- The status that is reported at an instant, if a call ends at it. -/
def status? : Instant → Option Status
  | begun _ => none
  | ended _ status => some status

end Instant

mutual

/-- All instants within a tick of a node. -/
def instantsWithin : Node → Option Active → Path → Scene → List Instant
  | ⟨id, kind, name, desc, args, input, output, children⟩, state, path, s =>
    (inner (visitAt ⟨id, kind, name, desc, args, input, output, children⟩ (path ++ [id])) s state).flatMap
      fun call => .begun call :: (instantsAmong children call.child call ++ call.ended)

/-- The instants within a call for one of several nodes. -/
def instantsAmong : List Node → Nat → Call → List Instant
  | [], _, _ => []
  | node :: _, 0, call => instantsWithin node call.state call.path call.scene
  | _ :: rest, i + 1, call => instantsAmong rest i call

end

/-- The instants of a call, from the first to the last. -/
def Call.instants (call : Call) : List Instant :=
  .begun call :: (instantsWithin call.node call.state call.path call.scene ++ call.ended)

theorem instantsAmong_eq {call : Call} : ∀ {nodes : List Node} {i : Nat}, nodes[i]? = some call.node →
    instantsAmong nodes i call = instantsWithin call.node call.state call.path call.scene
  | node :: _, 0, here => by
    rw [List.getElem?_cons_zero, Option.some.injEq] at here
    rw [instantsAmong, here]
  | _ :: rest, i + 1, here => by
    rw [instantsAmong]
    exact instantsAmong_eq (by simpa using here)

/-- The instants within a tick are those of the ticks that the node makes itself. -/
theorem instantsWithin_eq (node : Node) (state : Option Active) (path : Path) (s : Scene) :
    instantsWithin node state path s = (inner (visitAt node (path ++ [node.id])) s state).flatMap Call.instants := by
  obtain ⟨id, kind, name, desc, args, input, output, children⟩ := node
  rw [instantsWithin]
  refine List.flatMap_congr fun call member => ?_
  exact congrArg (fun within => .begun call :: (within ++ call.ended)) (instantsAmong_eq (child_inner member))

/-! ### The status reported last -/

/-- The status that was reported last, given the one from before. -/
def latest (last : Status) (instants : List Instant) : Status :=
  instants.foldl (fun last instant => instant.status?.getD last) last

@[simp] theorem latest_nil (last : Status) : latest last [] = last := rfl

@[simp] theorem latest_cons (last : Status) (instant : Instant) (rest : List Instant) :
    latest last (instant :: rest) = latest (instant.status?.getD last) rest := rfl

@[simp] theorem latest_append (last : Status) (instants more : List Instant) :
    latest last (instants ++ more) = latest (latest last instants) more := List.foldl_append

/-- At every instant the status that was reported last is recorded. -/
def Follows : Status → List Instant → Prop
  | _, [] => True
  | last, instant :: rest =>
    instant.scene.actor.last = instant.status?.getD last ∧ Follows (instant.status?.getD last) rest

theorem follows_append {last : Status} {instants more : List Instant} :
    Follows last (instants ++ more) ↔ Follows last instants ∧ Follows (latest last instants) more := by
  induction instants generalizing last with
  | nil => simp [Follows]
  | cons instant rest ih => simp [Follows, ih, and_assoc]

theorem Follows.at {last : Status} {earlier later : List Instant} {instant : Instant}
    (follows : Follows last (earlier ++ instant :: later)) :
    instant.scene.actor.last = latest last (earlier ++ [instant]) := by
  have here := (follows_append.mp follows).2.1
  rw [here, latest_append]
  rfl

/-! ### Rules -/

section

variable {α β : Type}

/-- A computation that leaves alone what is recorded. -/
def Mute (x : TickM α) : Prop := ∀ s, (x.play s).2.actor.last = s.actor.last

theorem mute_pure (a : α) : Mute (pure a : TickM α) := fun _ => rfl

theorem mute_fail (visit : Visit) (error : RunError) : Mute (visit.fail error : TickM α) := fun _ => rfl

theorem mute_bind {x : TickM α} {f : α → TickM β} (first : Mute x) (next : ∀ a, Mute (f a)) : Mute (x >>= f) := by
  intro s
  have before := first s
  rw [play_bind]
  rcases played : x.play s with ⟨fault | a, t⟩
  · rw [played] at before
    exact before
  · rw [played] at before
    exact (next a t).trans before

theorem mute_map {g : α → β} {x : TickM α} (mute : Mute x) : Mute (g <$> x) := by
  intro s
  rw [play_map]
  exact mute s

theorem mute_ite {p : Prop} [Decidable p] {x y : TickM α} (hx : Mute x) (hy : Mute y) :
    Mute (if p then x else y) := by
  split
  · exact hx
  · exact hy

theorem mute_actor : Mute TickM.actor := fun _ => rfl

theorem mute_now : Mute TickM.now := fun _ => rfl

theorem mute_note (n : Note) : Mute (TickM.note n) := fun _ => rfl

theorem mute_updateContext (f : Context → Context) : Mute (TickM.updateContext f) := fun _ => rfl

theorem mute_updateActor {g : Actor → Actor} (same : ∀ actor, (g actor).last = actor.last) :
    Mute (TickM.updateActor g) := fun s => same s.actor

variable (visit : Visit)

theorem mute_input (i : Nat) : Mute (visit.input? i) := fun _ => rfl

theorem mute_output (i : Nat) : Mute (visit.output? i) := fun _ => rfl

theorem last_setOutput (node : Node) (i : Nat) (v : Value) (actor : Actor) :
    (actor.setOutput node i v).last = actor.last := by
  rw [Actor.setOutput]
  split <;> rfl

theorem mute_setOutput (i : Nat) (v : Value) : Mute (visit.setOutput i v) :=
  mute_updateActor (last_setOutput visit.node i v)

theorem mute_evaluate (arg : String) : Mute (visit.evaluate arg) := by
  intro s
  rw [visit.play_evaluate]
  split <;> rfl

theorem mute_takeEvent (listener : Nat) : Mute (Visit.takeEvent listener) := by
  intro s
  rcases waiting : s.context.queue listener with _ | ⟨event, rest⟩
  · rw [Visit.play_takeEvent_nil waiting]
  · rw [Visit.play_takeEvent_cons waiting]
    rfl

theorem mute_writeArguments (args : List Value) : Mute (visit.writeArguments args) := by
  refine mute_updateActor fun actor => ?_
  induction args.zipIdx generalizing actor with
  | nil => rfl
  | cons pair rest ih => exact (ih _).trans (last_setOutput visit.node pair.2 pair.1 actor)

theorem mute_removeAll (names : List String) :
    Mute (TickM.updateActor fun actor => names.foldl Actor.remove actor) := by
  refine mute_updateActor fun actor => ?_
  induction names generalizing actor with
  | nil => rfl
  | cons name rest ih => exact ih (actor.remove name)

theorem mute_nextEvent (listener : Nat) : Mute (nextEvent visit listener) := by
  refine mute_bind (mute_takeEvent listener) fun event => ?_
  rcases event with _ | args
  · exact mute_pure _
  · exact mute_bind (mute_writeArguments visit args) fun _ => mute_pure _

theorem mute_startListening (target : Target) : Mute (startListening visit target) := by
  intro s
  simp only [startListening, play_bind, play_get, play_set]
  exact mute_nextEvent visit _ _

theorem mute_listening : Mute (do startListening visit (← whom visit)) := by
  refine mute_bind ?_ fun target => mute_startListening visit target
  unfold whom
  split
  · refine mute_bind (mute_input visit 0) fun v => ?_
    split <;> exact mute_pure _
  · exact mute_bind mute_actor fun _ => mute_pure _

theorem mute_firstRound : Mute (firstRound visit) := by
  unfold firstRound
  split <;> exact mute_bind (mute_input visit 0) fun _ => mute_pure _

theorem mute_startRound (it : Visit.Iteration) : Mute (startRound visit it) := by
  refine mute_ite (mute_pure _) (mute_bind ?_ fun _ => mute_pure _)
  unfold writeRound
  split
  · exact mute_setOutput visit 0 _
  · split
    · exact mute_bind (mute_setOutput visit 0 _) fun _ => mute_setOutput visit 1 _
    · exact mute_pure _

theorem mute_waitUntil (time : Float) : Mute (waitUntil time) := mute_bind mute_now fun _ => mute_pure _

theorem mute_delayUntil (time : Float) : Mute (delayUntil time) := mute_bind mute_now fun _ => mute_pure _

/-- The start of a node records no status. -/
theorem mute_start {kind : Kind} (builtin : ∀ e, kind ≠ .extension e) : Mute (start visit kind) := by
  cases kind with
  | loop => exact mute_bind (mute_firstRound visit) fun it => mute_startRound visit it
  | foreach => exact mute_bind (mute_firstRound visit) fun it => mute_startRound visit it
  | once => exact mute_bind mute_actor fun _ => mute_ite (mute_pure _) (mute_pure _)
  | timeout => exact mute_bind mute_now fun _ => mute_pure _
  | delay => exact mute_bind mute_now fun _ => mute_delayUntil _
  | listen => exact mute_listening visit
  | listenTree => exact mute_listening visit
  | wait => exact mute_bind (mute_input visit 0) fun _ => mute_bind mute_now fun _ => mute_waitUntil _
  | check => exact mute_map (mute_bind (mute_evaluate visit _) fun _ => mute_pure _)
  | isNull => exact mute_map (mute_bind (mute_input visit 0) fun _ => mute_pure _)
  | notNull => exact mute_map (mute_bind (mute_input visit 0) fun _ => mute_pure _)
  | isStatus => exact mute_map (mute_bind mute_actor fun _ => mute_pure _)
  | calculate =>
    exact mute_map (mute_bind (mute_evaluate visit _) fun _ =>
      mute_bind (mute_setOutput visit 0 _) fun _ => mute_pure _)
  | constant => exact mute_map (mute_bind (mute_setOutput visit 0 _) fun _ => mute_pure _)
  | push =>
    refine mute_map (mute_bind (mute_input visit 0) fun _ => mute_bind (mute_output visit 0) fun v => ?_)
    split
    · exact mute_bind (mute_setOutput visit 0 _) fun _ => mute_pure _
    · exact mute_pure _
  | clear =>
    refine mute_map (mute_bind (mute_removeAll _) fun _ => ?_)
    split
    · exact mute_bind (mute_updateActor fun _ => rfl) fun _ => mute_pure _
    · exact mute_pure _
  | log => exact mute_map (mute_bind mute_actor fun _ => mute_bind (mute_note _) fun _ => mute_pure _)
  | now => exact mute_map (mute_bind mute_now fun _ => mute_bind (mute_setOutput visit 0 _) fun _ => mute_pure _)
  | extension e => exact absurd rfl (builtin e)
  | _ => exact mute_pure _

theorem mute_goOn (kind : Kind) (memory : Memory) : Mute (goOn visit kind memory) := by
  cases memory with
  | nothing => exact mute_pure _
  | round it => exact mute_startRound visit it
  | attempts count => exact mute_pure _
  | mailbox listener => exact mute_nextEvent visit listener
  | «until» time => exact mute_ite (mute_waitUntil time) (mute_delayUntil time)

theorem mute_heedEvent (memory : Memory) (verdict : Verdict) : Mute (heedEvent visit memory verdict) := by
  cases memory with
  | mailbox listener =>
    refine mute_ite ?_ (mute_nextEvent visit listener)
    exact mute_bind (mute_updateContext _) fun _ => mute_pure _
  | _ => exact mute_pure _

/-- Heeding a verdict records no status. -/
theorem mute_heed (kind : Kind) (memory : Memory) (child : Nat) (verdict : Verdict) :
    Mute (heed visit kind memory child verdict) := by
  cases kind with
  | once => exact mute_bind (mute_updateActor fun _ => rfl) fun _ => mute_pure _
  | assert =>
    cases verdict with
    | success => exact mute_pure _
    | failure => exact mute_fail visit _
  | listen => exact mute_heedEvent visit memory verdict
  | listenTree => exact mute_heedEvent visit memory verdict
  | _ => exact mute_pure _

end

/-! ### Ticks -/

section

variable {α β : Type} {x : TickM α} {s : Scene} {instants more : List Instant}

/-- In the course of a computation these instants pass, and what was reported last is recorded at each of them and
when it ends, however it ends. -/
structure Tracks (x : TickM α) (s : Scene) (instants : List Instant) : Prop where
  left : (x.play s).2.actor.last = latest s.actor.last instants
  follows : Follows s.actor.last instants

theorem Mute.tracks (mute : Mute x) (s : Scene) : Tracks x s [] := ⟨mute s, trivial⟩

/-- What happens first is tracked first. -/
theorem tracks_bind {f : α → TickM β} (first : Tracks x s instants)
    (cut : ∀ fault t, x.play s = (.error fault, t) → more = [])
    (next : ∀ a t, x.play s = (.ok a, t) → Tracks (f a) t more) : Tracks (x >>= f) s (instants ++ more) := by
  obtain ⟨left, follows⟩ := first
  rcases played : x.play s with ⟨fault | a, t⟩
  · rw [played] at left
    rw [cut fault t played, List.append_nil]
    exact ⟨by rw [play_bind, played]; exact left, follows⟩
  · rw [played] at left
    obtain ⟨left', follows'⟩ := next a t played
    constructor
    · rw [play_bind, played, latest_append, ← left]
      exact left'
    · exact follows_append.mpr ⟨follows, left ▸ follows'⟩

/-- What keeps quiet may come first. -/
theorem Mute.tracks_bind {f : α → TickM β} (mute : Mute x)
    (cut : ∀ fault t, x.play s = (.error fault, t) → instants = [])
    (next : ∀ a t, x.play s = (.ok a, t) → Tracks (f a) t instants) : Tracks (x >>= f) s instants :=
  Descent.tracks_bind (mute.tracks s) cut next

theorem tracks_map {g : α → β} (tracks : Tracks x s instants) : Tracks (g <$> x) s instants := by
  refine ⟨?_, tracks.follows⟩
  rw [play_map]
  exact tracks.left

theorem tracks_rethrow (handle : Fault → Fault) (tracks : Tracks x s instants) :
    Tracks (tryCatch x fun fault => throw (handle fault)) s instants := by
  refine ⟨?_, tracks.follows⟩
  have left := tracks.left
  rw [play_tryCatch]
  rcases played : x.play s with ⟨fault | a, t⟩ <;> rw [played] at left <;> exact left

end

/-- In the course of a call its instants pass. -/
def Call.Tracked (call : Call) : Prop := Tracks (tick call.node call.state call.path) call.scene call.instants

section

variable {node : Node} (path : Path) (below : ∀ call : Call, call.node ∈ node.children → call.Tracked)

include below

/-- Turns go through the instants of the calls in them. -/
theorem tracks_drive (turns : Nat) (move : Move) (before s : Scene) :
    Tracks (drive (visitAt node path) (node.children.map tick) turns move) s
      ((entries (visitAt node path) turns move before s).flatMap Call.instants) := by
  induction turns generalizing move before s with
  | zero => cases move <;> exact (mute_pure _).tracks s
  | succ turns ih =>
    cases move with
    | finish verdict => exact (mute_pure _).tracks s
    | rest memory => exact (mute_pure _).tracks s
    | enter i memory =>
      rw [entries, drive, visitAt_node, List.getElem?_map]
      rcases here : node.children[i]? with _ | child
      · exact (mute_fail _ _).tracks s
      · have ticked := below ⟨i, child, none, path, memory, before, s⟩ (List.mem_of_getElem? here)
        simp only [Option.map_some, visitAt_path, List.flatMap_cons]
        refine tracks_bind ticked (fun fault t played => ?_) fun report t played => ?_
        · rw [played]
          rfl
        · rw [played]
          cases report with
          | running state => exact (mute_pure _).tracks t
          | done verdict =>
            simp only
            refine (mute_heed _ _ memory i verdict).tracks_bind (fun fault u heeded => ?_) fun move u heeded => ?_
            · rw [heeded]
              rfl
            · rw [heeded]
              exact ih move t u

/-- A rule and the move it comes to go through the instants of the calls in it. -/
theorem tracks_rule {x : TickM Move} (mute : Mute x) (s : Scene) :
    Tracks (do carryOut (visitAt node path) (node.children.map tick) (← x)) s
      ((entriesOf (visitAt node path) x s).flatMap Call.instants) := by
  refine mute.tracks_bind (fun fault t decided => ?_) fun move t decided => ?_
  · rw [entriesOf, decided]
    rfl
  · have carried : (carryOut (visitAt node path) (node.children.map tick) move).play t = _ :=
      play_bind_ok (play_context t) _
    obtain ⟨left, follows⟩ := tracks_drive path below (turns (visitAt node path) t.context move) move s t
    rw [entriesOf, decided]
    exact ⟨by rw [carried]; exact left, follows⟩

end

/-! ### Children beside each other -/

/-- A branch goes through the instants of its call. -/
theorem tracks_share (visit : Visit) {child : Node} (tracked : ∀ call : Call, call.node = child → call.Tracked)
    (i : Nat) (share : Option Share) (s : Scene) :
    Tracks (tickShare visit (tick child) share) s ((callBeside i child s share).flatMap Call.instants) := by
  have beside (state : Option Active) :
      Tracks (tickBeside visit (tick child) state) s
        (([⟨i, child, state, [], .nothing, s, s⟩] : List Call).flatMap Call.instants) := by
    have ticked := tracks_rethrow (fun fault => ⟨fault.error, visit.path.length⟩)
      (tracked ⟨i, child, state, [], .nothing, s, s⟩ rfl)
    exact tracks_bind ticked (fun _ _ _ => rfl) fun report t _ => (mute_pure _).tracks t
  rcases share with _ | (verdict | state)
  · exact beside none
  · exact (mute_pure _).tracks s
  · exact beside (some state)

/-- Children side by side go through the instants of each in turn. -/
theorem tracks_shares (visit : Visit) {nodes : List Node} (tracked : ∀ call : Call, call.node ∈ nodes → call.Tracked)
    (i : Nat) (shares : List (Option Share)) (s : Scene) :
    Tracks (tickShares visit (nodes.map tick) shares) s
      ((entriesBeside visit i nodes shares s).flatMap Call.instants) := by
  induction nodes generalizing i shares s with
  | nil => cases shares <;> exact (mute_pure _).tracks s
  | cons child rest ih =>
    rcases shares with _ | ⟨share, shares⟩
    · exact (mute_pure _).tracks s
    rw [List.map_cons, tickShares, entriesBeside, List.flatMap_append]
    have first := tracks_share visit (fun call same => tracked call (same ▸ List.mem_cons_self)) i share s
    refine tracks_bind first (fun fault t ticked => ?_) fun share t ticked => ?_
    · rw [ticked]
      rfl
    · rw [ticked]
      have later := ih (fun call member => tracked call (List.mem_cons_of_mem _ member)) (i + 1) shares t
      exact tracks_map later

/-! ### Nodes -/

/-- Besides, what comes of an execution is recorded. -/
structure Reports (x : TickM Report) (s : Scene) (instants : List Instant) : Prop where
  follows : Follows s.actor.last instants
  value : ∀ report t, x.play s = (.ok report, t) → t.actor.last = report.status
  fault : ∀ fault t, x.play s = (.error fault, t) → t.actor.last = latest s.actor.last instants

theorem last_begun (visit : Visit) (s : Scene) : (begun visit s).actor.last = s.actor.last := by
  rw [begun, noteDebug_actor]

/-- A visit begins and ends around the instants within it. -/
theorem reports_act {visit : Visit} {x : TickM Report} {s : Scene} {instants : List Instant}
    (tracks : Tracks x (begun visit s) instants) : Reports (act visit x) s instants := by
  obtain ⟨left, follows⟩ := tracks
  rw [last_begun] at left follows
  have begins : (act visit x).play s = _ := play_bind_ok (play_noteDebug _ s) _
  refine ⟨follows, fun report t played => ?_, fun fault t played => ?_⟩ <;> rw [begins, play_bind] at played <;>
    rw [begun] at left <;> rcases executed : x.play (s.noteDebug _) with ⟨other | done, u⟩ <;>
    rw [executed] at played left
  · cases played
  · cases played
    rfl
  · cases played
    exact left
  · cases played

/-- A node whose deadline has come reports that it has failed. -/
theorem reports_expire (visit : Visit) (state : Active) (s : Scene) : Reports (expire visit state) s [] where
  follows := trivial
  value report t played := by
    cases played
    rfl
  fault fault t played := by cases played

theorem tracks_allBeside {node : Node} (path : Path) (below : ∀ call : Call, call.node ∈ node.children → call.Tracked)
    (shares : List (Option Share)) (s : Scene) :
    Tracks (tickAllBeside (visitAt node path) (node.children.map tick) shares) s
      ((entriesBeside (visitAt node path) 0 node.children shares s).flatMap Call.instants) :=
  tracks_map (tracks_shares (visitAt node path) below 0 shares s)

/-- A node whose child is active passes on that the child runs, and is executed once it has completed. -/
theorem reports_over {node : Node} (path : Path) (below : ∀ call : Call, call.node ∈ node.children → call.Tracked)
    (memory : Memory) (i : Nat) (state : Active) (s : Scene) :
    Reports (visitNode (visitAt node path) (node.children.map tick) (some (.over memory i state))) s
      ((inner (visitAt node path) s (some (.over memory i state))).flatMap Call.instants) := by
  have looks : (visitNode (visitAt node path) (node.children.map tick) (some (.over memory i state))).play s = _ :=
    play_bind_ok (play_now s) _
  rw [inner, visitAt_node, visitAt_path]
  rw [visitAt_node, visitAt_path, List.getElem?_map] at looks
  by_cases late : (armed? node.kind memory).any (· ≤ s.context.clock)
  · rw [if_pos late] at looks ⊢
    obtain ⟨follows, value, fault⟩ := reports_expire (visitAt node path) state s
    exact ⟨follows, fun report t played => value report t (looks ▸ played),
      fun other t played => fault other t (looks ▸ played)⟩
  rw [if_neg late] at looks ⊢
  rcases here : node.children[i]? with _ | child
  · rw [here] at looks
    refine ⟨trivial, fun report t played => ?_, fun fault t played => ?_⟩ <;> rw [looks] at played <;> cases played
    rfl
  rw [here, Option.map_some] at looks
  obtain ⟨left, follows⟩ := below ⟨i, child, some state, path, memory, s, s⟩ (List.mem_of_getElem? here)
  simp only [play_bind] at looks
  simp only [List.flatMap_cons]
  rcases ticked : (tick child (some state) path).play s with ⟨fault | (verdict | active), t⟩ <;>
    rw [ticked] at looks left <;> simp only [List.flatMap_nil, List.append_nil] at looks ⊢
  · refine ⟨follows, fun report u played => ?_, fun other u played => ?_⟩ <;> rw [looks] at played <;> cases played
    exact left
  · obtain ⟨follows', value, fault⟩ := reports_act (tracks_rule path below
      (mute_heed (visitAt node path) node.kind memory i verdict) (begun (visitAt node path) t))
    rw [left] at follows' fault
    refine ⟨follows_append.mpr ⟨follows, follows'⟩, fun report u played => value report u (looks ▸ played), ?_⟩
    intro other u played
    rw [latest_append]
    exact fault other u (looks ▸ played)
  · refine ⟨follows, fun report u played => ?_, fun other u played => ?_⟩ <;> rw [looks] at played <;> cases played
    rfl

theorem reports_visitNode {node : Node} (path : Path) (builtin : IsBuiltin node)
    (below : ∀ call : Call, call.node ∈ node.children → call.Tracked) (state : Option Active) (s : Scene) :
    Reports (visitNode (visitAt node path) (node.children.map tick) state) s
      ((inner (visitAt node path) s state).flatMap Call.instants) := by
  rcases state with _ | (memory | ⟨memory, i, state⟩ | shares)
  · rw [inner, visitNode, visitAt_node]
    by_cases parallel : node.kind = .parallel
    · rw [if_pos parallel, if_pos parallel, List.map_map]
      exact reports_act (tracks_allBeside path below _ _)
    · rw [if_neg parallel, if_neg parallel]
      exact reports_act (tracks_rule path below (mute_start _ builtin) _)
  · exact reports_act (tracks_rule path below (mute_goOn _ node.kind memory) _)
  · exact reports_over path below memory i state s
  · exact reports_act (tracks_allBeside path below _ _)

/-- In the course of every call the status that was reported last is recorded. -/
theorem Call.tracked (call : Call) (builtin : call.node.Every IsBuiltin) : call.Tracked := by
  generalize same : call.node = node at builtin
  induction node using Node.induct generalizing call with
  | step node ih =>
    subst same
    have below (inside : Call) (member : inside.node ∈ call.node.children) : inside.Tracked :=
      ih inside.node member inside rfl (builtin.child member)
    obtain ⟨follows, value, fault⟩ :=
      reports_visitNode (call.path ++ [call.node.id]) builtin.self below call.state call.scene
    rw [← tick_eq] at value fault
    rw [← instantsWithin_eq] at follows fault
    have left : call.left = ((tick call.node call.state call.path).play call.scene).2 := rfl
    rw [Call.Tracked, Call.instants, Call.ended, Call.result]
    rcases ticked : (tick call.node call.state call.path).play call.scene with ⟨raised | report, t⟩
    · have last := fault raised t ticked
      exact ⟨by rw [ticked, List.append_nil]; exact last, rfl, by rw [List.append_nil]; exact follows⟩
    · have last := value report t ticked
      rw [ticked] at left
      refine ⟨?_, rfl, follows_append.mpr ⟨follows, ?_, trivial⟩⟩
      · rw [ticked, latest_cons, latest_append]
        exact last
      · rw [Instant.scene, left]
        exact last

end BehaviorTree.Descent
