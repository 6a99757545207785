import BehaviorTree.Proofs.Descent.Continuing

/-!
The ticks within a tick are those that are made on the stack. A node that is entered afresh is ticked, one that goes on
has the frames of its saved state resumed, and what comes of that is what is told of the call.
-/

namespace BehaviorTree.Descent

namespace Call

/-- What is done on the stack when a call is made. -/
def enacted (call : Call) : TickM Outcome :=
  match call.state with
  | none => call.node.tick call.path
  | some state => resumeAt (frames call.node state) call.path

/-- What comes of a call is what comes of it on the stack. -/
def Genuine (call : Call) : Prop :=
  call.enacted.play call.scene = (call.result.map (Report.outcome call.node), call.left)

/-- A call goes on from a state that its node can be in. -/
def GoesOnSoundly (call : Call) : Prop := ∀ state ∈ call.state, Sound call.scene.actor.completed call.node state

/-- A call of a node that is well built, from a state that it can be in. -/
structure Proper (call : Call) : Prop where
  shaped : call.node.Every Node.Shaped
  nodup : call.node.ids.Nodup
  sound : call.GoesOnSoundly

theorem Proper.builtin {call : Call} (proper : call.Proper) : call.node.Every IsBuiltin :=
  proper.shaped.mono fun _ shaped => shaped.builtin

theorem Proper.genuine {call : Call} (proper : call.Proper) : call.Genuine := by
  obtain ⟨fresh, resumes⟩ := simulated call.node proper.shaped proper.nodup
  rw [Genuine, enacted, result, left]
  rcases saved : call.state with _ | state
  · simp only
    rw [fresh]
    exact TickM.play_map _ _ _
  · exact (resumes state call.path call.scene (proper.sound state saved)).trans (TickM.play_map _ _ _)

end Call

section

variable {visit : Visit} {s : Scene} {made : List Call}

theorem soundly_of_fresh (fresh : ∀ call ∈ made, call.state = none) : ∀ call ∈ made, call.GoesOnSoundly := by
  intro call member state saved
  rw [fresh call member] at saved
  cases saved

/-- What the children of a Parallel node complete leaves those after them as they are. -/
theorem InRow.soundly {i : Nat} {nodes : List Node} {shares : List (Option Share)} {ended : Upshot (List Share)}
    (nodup : (Node.idsAll nodes).Nodup) (builtin : ∀ child ∈ nodes, child.Every IsBuiltin)
    (inRow : InRow visit i nodes shares s made ended) (sound : SoundBefore s.actor.completed nodes shares) :
    ∀ call ∈ made, call.GoesOnSoundly := by
  have own {child : Node} {state : Option Active} {completed : List Nat}
      (first : ∀ share ∈ state.map Share.active, SoundShare completed child share) :
      ∀ saved ∈ state, Sound completed child saved := by
    rintro saved rfl
    exact first _ rfl
  induction inRow with
  | nil => exact fun _ member => absurd member List.not_mem_nil
  | settled verdict others ih =>
    cases sound with
    | cons _ later =>
    rw [Node.idsAll, List.flatMap_cons, List.nodup_append] at nodup
    exact ih nodup.2.1 (List.forall_mem_cons.mp builtin).2 later
  | faulty state came =>
    cases sound with
    | cons first later => exact List.forall_mem_singleton.mpr (own first)
  | reported state came others ih =>
    cases sound with
    | cons first later =>
    rw [Node.idsAll, List.flatMap_cons, List.nodup_append] at nodup
    obtain ⟨mine, theirs⟩ := List.forall_mem_cons.mp builtin
    have effects := gives_effects (changes_tick _ mine state []) _ _ _ came
    exact List.forall_mem_cons.mpr ⟨own first, ih nodup.2.1 theirs (SoundBefore.after later effects nodup.2.2)⟩

/-- A call that goes on from a sound state makes calls that do. -/
theorem Ticked.soundly {node : Node} {path : Path} {state : Option Active} {upshot : Upshot Report}
    (nodup : node.ids.Nodup)
    (builtin : node.Every IsBuiltin) (ticked : Ticked (visitAt node path) state s made upshot)
    (sound : ∀ saved ∈ state, Sound s.actor.completed node saved) : ∀ call ∈ made, call.GoesOnSoundly := by
  have waited {memory : Memory} {i : Nat} {saved : Active} {child : Node} (here : node.children[i]? = some child)
      (sound : Sound s.actor.completed node (.over memory i saved)) : Sound s.actor.completed child saved := by
    obtain ⟨-, -, child', there, below⟩ := sound
    exact Option.some.inj (here.symm.trans there) ▸ below
  have begins : (begun (visitAt node path) s).actor.completed = s.actor.completed := by
    rw [begun, noteDebug_actor]
  have below := Node.nodup_idsAll_children nodup
  have others : ∀ child ∈ node.children, child.Every IsBuiltin := fun child member => builtin.child member
  cases ticked with
  | entered _ ruled | rested ruled => exact soundly_of_fresh ruled.fresh
  | enteredBeside kind inRow => exact inRow.soundly below others (soundBefore_none _ _)
  | beside inRow =>
    refine inRow.soundly below others ?_
    rw [begins]
    exact soundBefore_some (sound _ rfl).2
  | expired | missing => exact fun _ member => absurd member List.not_mem_nil
  | faulty early here | runs early here =>
    refine List.forall_mem_singleton.mpr ?_
    rintro _ ⟨⟩
    exact waited here (sound _ rfl)
  | back early here came ruled =>
    refine List.forall_mem_cons.mpr ⟨?_, soundly_of_fresh ruled.fresh⟩
    rintro _ ⟨⟩
    exact waited here (sound _ rfl)

end

namespace Call.Proper

theorem made {call made : Call} (proper : call.Proper) (member : made ∈ call.made) : made.Proper where
  shaped := proper.shaped.child (mem_made member)
  nodup := Node.nodup_ids_of_mem (Node.nodup_idsAll_children proper.nodup) (mem_made member)
  sound := call.ticked.soundly proper.nodup proper.builtin proper.sound made member

/-- All that is called within a call is called in the same manner. -/
theorem all {call : Call} (proper : call.Proper) : ∀ other ∈ call.all, other.Proper := by
  induction call using Call.induct with
  | step call ih =>
    intro other member
    rcases mem_all.mp member with rfl | ⟨made, inside, within⟩
    · exact proper
    · exact ih made inside (proper.made inside) other within

end Call.Proper

end BehaviorTree.Descent
