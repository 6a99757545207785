import BehaviorTree.Proofs.Descent.Onward
import BehaviorTree.Proofs.Descent.Serving
import BehaviorTree.Proofs.Descent.Simulation
import Mathlib.Data.List.Induction

/-!
What a listening node does within one tick. Whenever it turns to its child it does so for one listener,
which it has opened when it was entered, and remembers since. A node that listens once is done when its
child is.
-/

namespace BehaviorTree

/-! ### Arguments -/

/-- The last entry of a name is the one that counts. -/
theorem Fields.get?_foldl_set {α : Type} (fields : Fields α) (entries : List (String × α)) (name : String) :
    (entries.foldl (fun fields entry => fields.set entry.1 entry.2) fields).get? name =
      ((entries.filter fun entry => entry.1 = name).getLast?.map Prod.snd).or (fields.get? name) := by
  induction entries using List.reverseRecOn with
  | nil => rfl
  | append_singleton entries entry ih =>
    rw [List.foldl_append, List.foldl_cons, List.foldl_nil, get?_set, ih, List.filter_append]
    by_cases same : entry.1 = name
    · have last : [entry].filter (fun entry => entry.1 = name) = [entry] := by simp [same]
      rw [if_pos same, last, List.getLast?_concat]
      rfl
    · have last : [entry].filter (fun entry => entry.1 = name) = [] := by simp [same]
      rw [if_neg same, last, List.append_nil]

/-- The variables that the outputs of a node are wired to, with the arguments at their places. -/
def Node.wired (node : Node) (args : List Value) : List (String × Value) :=
  args.zipIdx.filterMap fun arg => (node.outputVar? arg.2).map fun name => (name, arg.1)

/-- The arguments of an event go to the variables wired to the output slots, in order. -/
theorem Actor.writeArguments_wired (node : Node) (args : List Value) (actor : Actor) :
    actor.writeArguments node args =
      { actor with vars := (node.wired args).foldl (fun vars entry => vars.set entry.1 entry.2) actor.vars } := by
  rw [Actor.writeArguments, Node.wired]
  induction args.zipIdx generalizing actor with
  | nil => rfl
  | cons arg rest ih =>
    obtain ⟨v, k⟩ := arg
    rcases wired : node.outputVar? k with _ | name
    · have same : actor.setOutput node k v = actor := by rw [Actor.setOutput, wired]
      rw [List.filterMap_cons_none (by rw [wired]; rfl), List.foldl_cons, ih]
      simp only [same]
    · have set : actor.setOutput node k v = actor.set name v := by rw [Actor.setOutput, wired]
      rw [List.filterMap_cons_some (b := (name, v)) (by rw [wired]; rfl), List.foldl_cons, ih]
      simp only [set]
      rfl

namespace Descent

open TickM

/-- The arguments of an event are written, in order, to the variables wired at their places. -/
structure Call.Writes (node : Node) (args : List Value) (call : Call) : Prop where
  actor : call.scene.actor = { call.before.actor with
    vars := (node.wired args).foldl (fun vars entry => vars.set entry.1 entry.2) call.before.actor.vars }
  /-- No other variable is written. -/
  get? : ∀ name, call.scene.actor.get? name =
    (((node.wired args).filter fun entry => entry.1 = name).getLast?.map Prod.snd).or (call.before.actor.get? name)

/-- A call that serves an event finds its arguments in the wired variables. -/
theorem Call.Serves.writes {node : Node} {listener : Nat} {call : Call} (serves : call.Serves node listener)
    (enters : call.Enters listener) : ∃ args, call.event? listener = some args ∧ call.Writes node args := by
  obtain ⟨args, rest, waiting, entered⟩ := serves.handed
  have written : call.scene.actor = call.before.actor.writeArguments node args := by rw [entered]; rfl
  rw [Actor.writeArguments_wired] at written
  refine ⟨args, by rw [call.event?_of_enters enters, waiting]; rfl, written, fun name => ?_⟩
  rw [written]
  exact Fields.get?_foldl_set _ _ name

/-! ### Sound calls -/

section

variable {visit : Visit} {call : Call}

/-- A child is entered afresh by a rule. -/
theorem state_entries {turns : Nat} {move : Move} {before s : Scene}
    (member : call ∈ entries visit turns move before s) : call.state = none := by
  induction turns generalizing move before s with
  | zero => cases move <;> cases member
  | succ turns ih =>
    cases move with
    | finish | rest => cases member
    | enter i memory =>
      rw [entries] at member
      split at member
      · cases member
      · rcases List.mem_cons.mp member with rfl | member
        · rfl
        · split at member
          · split at member
            · exact ih member
            · cases member
          · cases member

theorem state_entriesOf {rule : TickM Move} {s : Scene} (member : call ∈ entriesOf visit rule s) :
    call.state = none := by
  rw [entriesOf] at member
  split at member
  · exact state_entries member
  · cases member

/-- Children ticked side by side are called in sound states. -/
theorem sound_entriesBeside {nodes : List Node} {shares : List (Option Share)} (sound : SoundBefore [] nodes shares)
    {i : Nat} {s : Scene} (member : call ∈ entriesBeside visit i nodes shares s) :
    ∀ state ∈ call.state, Sound [] call.node state := by
  induction sound generalizing i s with
  | nil => cases member
  | @cons node share nodes shares first _ ih =>
    rcases List.mem_append.mp member with here | later
    · intro state active
      rcases share with _ | (verdict | state')
      · rw [List.mem_singleton.mp here] at active
        cases active
      · cases here
      · rw [List.mem_singleton.mp here] at active ⊢
        cases active
        exact first _ rfl
    · split at later
      · exact ih later
      · cases later

/-- The children of a node go on from sound states if the node does. -/
theorem sound_inner {s : Scene} {state : Option Active} (sound : ∀ a ∈ state, Sound [] visit.node a)
    (member : call ∈ inner visit s state) : ∀ a ∈ call.state, Sound [] call.node a := by
  have fresh (entered : call.state = none) : ∀ a ∈ call.state, Sound [] call.node a := by
    rw [entered]
    rintro a ⟨⟩
  rcases state with _ | (memory | ⟨memory, i, state⟩ | shares)
  · rw [inner] at member
    split at member
    · exact sound_entriesBeside (soundBefore_none [] visit.node.children) member
    · exact fresh (state_entriesOf member)
  · exact fresh (state_entriesOf member)
  · obtain ⟨-, -, child, here, below⟩ := sound _ rfl
    rw [inner] at member
    split at member
    · cases member
    · rw [here] at member
      rcases List.mem_cons.mp member with rfl | member
      · rintro a ⟨⟩
        exact below
      · split at member
        · exact fresh (state_entriesOf member)
        · cases member
  · exact sound_entriesBeside (soundBefore_some (sound _ rfl).2) member

end

/-- All ticks within a tick go on from sound states. -/
theorem sound_calls (node : Node) {state : Option Active} {path : Path} {s : Scene}
    (sound : ∀ a ∈ state, Sound [] node a) :
    ∀ call ∈ calls node state path s, ∀ a ∈ call.state, Sound [] call.node a := by
  induction node using Node.induct generalizing state path s with
  | step node ih =>
    intro call member
    rw [calls_eq] at member
    obtain ⟨made, there, member⟩ := List.mem_flatMap.mp member
    have own := sound_inner (show ∀ a ∈ state, Sound [] (visitAt node (path ++ [node.id])).node a from sound) there
    rcases List.mem_cons.mp member with rfl | within
    · exact own
    · exact ih made.node (List.mem_of_getElem? (child_inner there)) own call within

theorem Call.made_subset_within (call : Call) : call.made ⊆ call.within := by
  intro made member
  rw [Call.within, calls_eq]
  exact List.mem_flatMap.mpr ⟨made, member, List.mem_cons_self⟩

/-- With a tick, those that it makes are within the same tick. -/
theorem made_mem_calls (node : Node) {state : Option Active} {path : Path} {s : Scene} :
    ∀ call ∈ calls node state path s, ∀ made ∈ call.made, made ∈ calls node state path s := by
  induction node using Node.induct generalizing state path s with
  | step node ih =>
    intro call member made makes
    rw [calls_eq] at member ⊢
    obtain ⟨outer, there, member⟩ := List.mem_flatMap.mp member
    refine List.mem_flatMap.mpr ⟨outer, there, List.mem_cons_of_mem _ ?_⟩
    rcases List.mem_cons.mp member with rfl | within
    · exact call.made_subset_within makes
    · exact ih outer.node (List.mem_of_getElem? (child_inner there)) call within made makes

/-! ### Events of one listener -/

/-- A move by which the child is entered for a listener, if it is entered at all. -/
def Move.Hears (listener : Nat) : Move → Prop
  | .enter _ memory => memory = .mailbox listener
  | _ => True

/-- The listener whose events a call is about: the one that is opened, or the one remembered. -/
def Call.heard? (call : Call) : Option Nat :=
  match call.state with
  | none => some call.listener
  | some (.resting (.mailbox listener)) => some listener
  | some (.over (.mailbox listener) _ _) => some listener
  | _ => none

/-- Going on to the next event, a node still hears with the same listener. -/
theorem hears_nextEvent (visit : Visit) (listener : Nat) (s : Scene) :
    Gives (nextEvent visit listener) s fun move _ => move.Hears listener := by
  intro move t played
  rcases waiting : s.context.queue listener with _ | ⟨args, rest⟩
  · rw [play_nextEvent_nil waiting] at played
    cases played
    trivial
  · rw [play_nextEvent_cons waiting] at played
    cases played
    rfl

section

variable (visit : Visit) {listener : Nat} {call : Call} (listens : Listens visit.node)

include listens

/-- Heeding a verdict on an event, a node still hears with the same listener. -/
theorem hears_heed (i : Nat) (verdict : Verdict) (s : Scene) :
    Gives (heed visit visit.node.kind (.mailbox listener) i verdict) s fun move _ => move.Hears listener := by
  rw [heed_of_listening listens, heedEvent]
  split
  · intro move t played
    cases played
    trivial
  · exact hears_nextEvent visit listener s

/-- The calls for events remember the listener. -/
theorem hears_entries {turns : Nat} {move : Move} (hears : move.Hears listener) {before s : Scene}
    (member : call ∈ entries visit turns move before s) : call.memory = .mailbox listener := by
  induction turns generalizing move before s with
  | zero => cases move <;> cases member
  | succ turns ih =>
    cases move with
    | finish | rest => cases member
    | enter i memory =>
      cases hears
      rw [entries] at member
      split at member
      · cases member
      · rcases List.mem_cons.mp member with rfl | member
        · rfl
        · split at member
          · split at member
            · rename_i heeded
              exact ih (hears_heed visit listens i _ _ _ _ heeded) member
            · cases member
          · cases member

theorem hears_entriesOf {rule : TickM Move} {s : Scene} (hears : Gives rule s fun move _ => move.Hears listener)
    (member : call ∈ entriesOf visit rule s) : call.memory = .mailbox listener := by
  rw [entriesOf] at member
  split at member
  · rename_i played
    exact hears_entries visit listens (hears _ _ played) member
  · cases member

theorem hears_start (s : Scene) :
    Gives (start visit visit.node.kind) s fun move _ => move.Hears (s.issued + 1) := by
  intro move t played
  rw [start_of_listens listens, play_bind_ok (play_whom_of_listens visit listens s), play_startListening] at played
  exact hears_nextEvent visit _ _ move t played

end

/-- A listening node turns to its child for the events of one listener. -/
theorem heard_of_listens {call : Call} (listens : Listens call.node) (sound : ∀ a ∈ call.state, Sound [] call.node a) :
    ∃ listener, call.heard? = some listener ∧ ∀ made ∈ call.made, made.memory = .mailbox listener := by
  obtain ⟨i, node, state, path, memory, before, s⟩ := call
  rcases state with _ | (memory | ⟨memory, i, state⟩ | shares)
  · refine ⟨s.issued + 1, rfl, fun made member => ?_⟩
    have alone : node.kind ≠ .parallel := by rcases listens with kind | kind <;> rw [kind] <;> decide
    rw [Call.made, inner, visitAt_node, if_neg alone] at member
    rw [← issued_noteDebug s]
    exact hears_entriesOf (visitAt node _) listens (hears_start (visitAt node _) listens _) member
  · obtain ⟨listener, rfl, -⟩ := listens.rests (sound _ rfl)
    exact ⟨listener, rfl, fun made member =>
      hears_entriesOf (visitAt node _) listens (hears_nextEvent _ listener _) member⟩
  · obtain ⟨waits, -, child, here, -⟩ := sound _ rfl
    obtain ⟨listener, rfl, -⟩ := listens.waits waits
    refine ⟨listener, rfl, fun made member => ?_⟩
    rw [Call.made, inner, visitAt_node, here] at member
    split at member
    · cases member
    · rcases List.mem_cons.mp member with rfl | member
      · rfl
      · split at member
        · exact hears_entriesOf (visitAt node _) listens (hears_heed (visitAt node _) listens i _ _) member
        · cases member
  · have parallel := (sound _ rfl).1
    rcases listens with kind | kind <;> exact absurd (parallel.symm.trans kind) (by decide)

/-! ### Listening once -/

theorem entries_finish (visit : Visit) (turns : Nat) (verdict : Verdict) (before s : Scene) :
    entries visit turns (.finish verdict) before s = [] := by
  cases turns <;> rfl

section

variable {node : Node} {path : Path} {listener : Nat} {made : Call} {verdict : Verdict} (listens : Listens node)
  (isOnce : node.isOnce)

include listens isOnce

theorem play_heed_of_once (i : Nat) (verdict : Verdict) (s : Scene) :
    (heed (visitAt node path) node.kind (.mailbox listener) i verdict).play s =
      (.ok (.finish verdict), s.unsubscribe listener) := by
  rw [heed_of_listens listens, heedEvent, if_pos (by exact isOnce)]
  rfl

/-- A verdict on an event that ends the turns is the node's own. -/
theorem result_drive {turns : Nat} {move : Move} (hears : move.Hears listener) {before s : Scene}
    (member : made ∈ entries (visitAt node path) turns move before s) (ended : made.result = .ok (.done verdict)) :
    ((drive (visitAt node path) (node.children.map tick) turns move).play s).1 = .ok (.done verdict) := by
  rcases turns with _ | turns
  · cases move <;> cases member
  cases move with
  | finish | rest => cases member
  | enter i memory =>
    cases hears
    rw [entries, visitAt_node] at member
    rw [drive, List.getElem?_map]
    rcases here : node.children[i]? with _ | child
    · rw [here] at member
      cases member
    · rw [here, visitAt_path] at member
      rw [Option.map_some, visitAt_path, play_bind]
      rcases ticked : (tick child none path).play s with ⟨fault | (verdict' | state), t⟩
      · simp only [ticked] at member
        rw [List.mem_singleton.mp member, Call.result, ticked] at ended
        cases ended
      · simp only [ticked] at member
        simp only [play_heed_of_once listens isOnce, entries_finish] at member
        rw [List.mem_singleton.mp member, Call.result, ticked] at ended
        cases ended
        simp only [visitAt_node]
        rw [play_bind_ok (play_heed_of_once listens isOnce i verdict t)]
        cases turns <;> rfl
      · simp only [ticked] at member
        rw [List.mem_singleton.mp member, Call.result, ticked] at ended
        cases ended

/-- The same for a rule and the move that it comes to. -/
theorem result_rule {rule : TickM Move} {s : Scene} (hears : Gives rule s fun move _ => move.Hears listener)
    (member : made ∈ entriesOf (visitAt node path) rule s) (ended : made.result = .ok (.done verdict)) :
    ((do carryOut (visitAt node path) (node.children.map tick) (← rule) : TickM Report).play s).1 =
      .ok (.done verdict) := by
  rw [entriesOf] at member
  rw [play_bind]
  split at member
  · rename_i played
    rw [played]
    exact result_drive listens isOnce (hears _ _ played) member ended
  · cases member

end

/-- A node that listens once completes as its child does. -/
theorem result_of_once {call made : Call} {verdict : Verdict} (listens : Listens call.node) (isOnce : call.node.isOnce)
    (sound : ∀ a ∈ call.state, Sound [] call.node a) (member : made ∈ call.made)
    (ended : made.result = .ok (.done verdict)) : call.result = .ok (.done verdict) := by
  obtain ⟨i, node, state, path, memory, before, s⟩ := call
  rw [Call.result, tick_eq]
  rcases state with _ | (memory | ⟨memory, i, state⟩ | shares)
  · have alone : node.kind ≠ .parallel := by rcases listens with kind | kind <;> rw [kind] <;> decide
    rw [Call.made, inner, visitAt_node, if_neg alone] at member
    rw [visitNode, visitAt_node, if_neg alone, (play_act _ _ _).1]
    exact result_rule listens isOnce (hears_start (visitAt node _) listens _) member ended
  · obtain ⟨listener, rfl, -⟩ := listens.rests (sound _ rfl)
    rw [visitNode, (play_act _ _ _).1]
    exact result_rule listens isOnce (hears_nextEvent _ listener _) member ended
  · obtain ⟨waits, -, child, here, -⟩ := sound _ rfl
    obtain ⟨listener, rfl, -⟩ := listens.waits waits
    rw [Call.made, inner, visitAt_node, here] at member
    have ticks : (node.children.map tick)[i]? = some (tick child) := by rw [List.getElem?_map, here]; rfl
    rw [visitNode_early rfl ticks, play_bind]
    split at member
    · cases member
    rcases ticked : (tick child (some state) (path ++ [node.id])).play s with ⟨fault | (verdict' | state'), t⟩
    · simp only [visitAt_path, ticked] at member
      rw [List.mem_singleton.mp member, Call.result, ticked] at ended
      cases ended
    · simp only [visitAt_path, ticked] at member
      have heeded (s : Scene) :
          (heed (visitAt node (path ++ [node.id])) node.kind (.mailbox listener) i verdict').play s =
            (.ok (.finish verdict'), s.unsubscribe listener) := play_heed_of_once listens isOnce i verdict' s
      simp only [entriesOf, heeded, entries_finish] at member
      rw [List.mem_singleton.mp member, Call.result, ticked] at ended
      cases ended
      simp only
      rw [(play_act _ _ _).1, play_bind_ok (heeded _), carryOut, play_bind_ok (play_context _)]
      generalize turns _ _ _ = turns
      cases turns <;> rfl
    · simp only [visitAt_path, ticked] at member
      rw [List.mem_singleton.mp member, Call.result, ticked] at ended
      cases ended
  · have parallel := (sound _ rfl).1
    rcases listens with kind | kind <;> exact absurd (parallel.symm.trans kind) (by decide)

end Descent
end BehaviorTree
