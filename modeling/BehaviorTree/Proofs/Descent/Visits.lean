import BehaviorTree.Proofs.Descent.Attending
import BehaviorTree.Proofs.Descent.Course

/-!
A run as one node sees it. Between the ticks of a node, and before the first and after the last of them, other nodes
are ticked; what they do to a scene they do under ids of their own.
-/

namespace BehaviorTree.Descent

open TickM

/-- What happens to a scene while the node with this id is not ticked. -/
def Elsewhere (id : Nat) : Scene → Scene → Prop :=
  Relation.ReflTransGen fun s t => ∃ ids, id ∉ ids ∧ Effect ids s t

theorem Effects.elsewhere {ids : List Nat} {id : Nat} {s t : Scene} (effects : Effects ids s t) (apart : id ∉ ids) :
    Elsewhere id s t := Relation.ReflTransGen.mono (fun _ _ effect => ⟨ids, apart, effect⟩) _ _ effects

namespace Elsewhere

variable {id : Nat} {s t : Scene}

theorem clock (elsewhere : Elsewhere id s t) : t.context.clock = s.context.clock := by
  induction elsewhere with
  | refl => rfl
  | tail _ last ih =>
    obtain ⟨ids, -, effect⟩ := last
    exact effect.clock.trans ih

/-- Whether the node has completed as a Once node stays the same. -/
theorem completed (elsewhere : Elsewhere id s t) : id ∈ t.actor.completed ↔ id ∈ s.actor.completed := by
  induction elsewhere with
  | refl => rfl
  | tail _ last ih =>
    obtain ⟨ids, apart, effect⟩ := last
    refine Iff.trans ⟨fun member => ?_, fun member => effect.completed_mono member⟩ ih
    exact (List.mem_append.mp (effect.completed_subset member)).resolve_right apart

end Elsewhere

/-- From one scene to another, a node is ticked in these calls and not otherwise. -/
inductive Visits (node : Node) : Scene → List Call → Scene → Prop
  | done {s t : Scene} (elsewhere : Elsewhere node.id s t) : Visits node s [] t
  | tick {s t : Scene} {call : Call} {calls : List Call} (elsewhere : Elsewhere node.id s call.scene)
      (own : call.node.id = node.id) (later : Visits node call.left calls t) : Visits node s (call :: calls) t

namespace Visits

variable {node : Node} {s t u : Scene} {calls more : List Call}

theorem after (elsewhere : Elsewhere node.id s t) (visits : Visits node t calls u) : Visits node s calls u := by
  cases visits with
  | done further => exact .done (elsewhere.trans further)
  | tick further own later => exact .tick (elsewhere.trans further) own later

theorem append (visits : Visits node s calls t) (later : Visits node t more u) : Visits node s (calls ++ more) u := by
  induction visits with
  | done elsewhere => exact later.after elsewhere
  | tick elsewhere own _ ih => exact .tick elsewhere own (ih later)

theorem ahead (visits : Visits node s calls t) (elsewhere : Elsewhere node.id t u) : Visits node s calls u :=
  List.append_nil calls ▸ visits.append (.done elsewhere)

/-- The clock stands still if it does so while the node is ticked. -/
theorem clock (visits : Visits node s calls t)
    (still : ∀ call ∈ calls, call.left.context.clock = call.scene.context.clock) :
    ∀ call ∈ calls, call.scene.context.clock = s.context.clock := by
  induction visits with
  | done => exact fun _ member => absurd member List.not_mem_nil
  | tick elsewhere own _ ih =>
    obtain ⟨first, others⟩ := List.forall_mem_cons.mp still
    refine List.forall_mem_cons.mpr ⟨elsewhere.clock, fun call member => ?_⟩
    exact (ih others call member).trans (first.trans elsewhere.clock)

end Visits

/-! ### Ticks -/

section

variable {visit : Visit} {node : Node} {s : Scene} {made : List Call} {upshot : Upshot Report}
  (other : node.id ≠ visit.node.id)
  (below : ∀ call : Call, call.node ∈ visit.node.children →
    Visits node call.scene (ticksOf node (call :: call.within)) call.left)

theorem elsewhere_of_changes {α : Type} {ids : List Nat} {x : TickM α} (changes : Changes ids x) (apart : node.id ∉ ids)
    {result : Except Fault α} {t : Scene} (played : x.play s = (result, t)) : Elsewhere node.id s t := by
  have effects := (changes s).elsewhere apart
  rwa [played] at effects

theorem elsewhere_noteDebug (id : Nat) (s : Scene) {n : Note} (ofNode : n.told? = none) :
    Elsewhere id s (s.noteDebug n) := by
  have changes : Changes [] (noteDebug n) := changes_noteDebug n ofNode
  exact (changes s).elsewhere List.not_mem_nil

theorem elsewhere_begun (visit : Visit) (s : Scene) : Elsewhere node.id s (begun visit s) :=
  elsewhere_noteDebug node.id s rfl

theorem elsewhere_concluded (visit : Visit) (upshot : Upshot Report) :
    Elsewhere node.id upshot.2 (concluded visit upshot).2 := by
  obtain ⟨fault | report, t⟩ := upshot
  · exact .refl
  · exact (elsewhere_noteDebug node.id t rfl).tail ⟨[], List.not_mem_nil, .report _ _⟩

/-- A node whose deadline has come ticks no other. -/
theorem elsewhere_expire (visit : Visit) (state : Active) (s : Scene) :
    Elsewhere node.id s ((expire visit state).play s).2 := by
  have changes : Changes [] (expire visit state) := changes_expire visit state
  exact (changes s).elsewhere List.not_mem_nil

theorem upshot_snd {call : Call} {result : Except Fault Report} {t : Scene} (came : call.upshot = (result, t)) :
    call.left = t := congrArg Prod.snd came

/-- A call, and those that follow it. -/
theorem Visits.call {call : Call} {result : Except Fault Report} {t u : Scene} {more : List Call}
    (came : call.upshot = (result, t)) (visits : Visits node call.scene (ticksOf node (call :: call.within)) call.left)
    (later : Visits node t (ticksOf node (spread more)) u) :
    Visits node call.scene (ticksOf node (spread (call :: more))) u := by
  rw [spread_cons, ← List.cons_append, ticksOf_append]
  rw [upshot_snd came] at visits
  exact visits.append later

include other below

/-- From one end of a course to the other a node is ticked in its calls and not otherwise. -/
theorem Course.visits {turns : Nat} {move : Move} {before : Scene}
    (course : Course visit turns move before s made upshot) : Visits node s (ticksOf node (spread made)) upshot.2 := by
  have apart : node.id ∉ [visit.node.id] := fun member => other (List.mem_singleton.mp member)
  have heeds (kind : Kind) (memory : Memory) (i : Nat) (verdict : Verdict) :
      Changes [visit.node.id] (heed visit kind memory i verdict) :=
    changes_heed visit (List.mem_singleton_self _) kind memory i verdict
  induction course with
  | finish | rest | spent | missing => exact .done .refl
  | faulty here came | runs here came =>
    exact .call came (below _ (List.mem_of_getElem? here)) (.done .refl)
  | raised here came heeded =>
    refine .call came (below _ (List.mem_of_getElem? here)) (.done ?_)
    exact elsewhere_of_changes (heeds _ _ _ _) apart heeded
  | onward here came heeded _ ih =>
    refine .call came (below _ (List.mem_of_getElem? here)) (ih.after ?_)
    exact elsewhere_of_changes (heeds _ _ _ _) apart heeded

theorem Ruled.visits {rule : TickM Move} (changes : Changes [visit.node.id] rule)
    (ruled : Ruled visit rule s made upshot) : Visits node s (ticksOf node (spread made)) upshot.2 := by
  have apart : node.id ∉ [visit.node.id] := fun member => other (List.mem_singleton.mp member)
  cases ruled with
  | raised decided => exact .done (elsewhere_of_changes changes apart decided)
  | carried decided course => exact (course.visits other below).after (elsewhere_of_changes changes apart decided)

omit other below in
/-- The same for children side by side. -/
theorem InRow.visits {i : Nat} {nodes : List Node} {shares : List (Option Share)} {ended : Upshot (List Share)}
    (below : ∀ call : Call, call.node ∈ nodes → Visits node call.scene (ticksOf node (call :: call.within)) call.left)
    (inRow : InRow visit i nodes shares s made ended) : Visits node s (ticksOf node (spread made)) ended.2 := by
  induction inRow with
  | nil => exact .done .refl
  | settled _ _ ih => exact ih fun call member => below call (List.mem_cons_of_mem _ member)
  | faulty state came => exact .call came (below _ List.mem_cons_self) (.done .refl)
  | reported state came _ ih =>
    exact .call came (below _ List.mem_cons_self) (ih fun call member => below call (List.mem_cons_of_mem _ member))

/-- A node that is ticked once more, after which its report is recorded. -/
theorem Ticked.visits (builtin : ∀ e, visit.node.kind ≠ .extension e) {before : Option Active}
    (ticked : Ticked visit before s made upshot) : Visits node s (ticksOf node (spread made)) upshot.2 := by
  have apart : node.id ∉ [visit.node.id] := fun member => other (List.mem_singleton.mp member)
  cases ticked with
  | entered alone ruled =>
    exact ((ruled.visits other below (changes_start visit builtin)).after (elsewhere_begun visit s)).ahead
      (elsewhere_concluded visit _)
  | rested ruled =>
    exact ((ruled.visits other below (changes_goOn visit _ _)).after (elsewhere_begun visit s)).ahead
      (elsewhere_concluded visit _)
  | enteredBeside kind inRow =>
    exact ((inRow.visits below).after (elsewhere_begun visit s)).ahead (elsewhere_concluded visit (_, _))
  | beside inRow =>
    exact ((inRow.visits below).after (elsewhere_begun visit s)).ahead (elsewhere_concluded visit (_, _))
  | expired => exact .done (elsewhere_expire visit _ s)
  | missing => exact .done .refl
  | faulty early here came => exact .call came (below _ (List.mem_of_getElem? here)) (.done .refl)
  | runs early here came =>
    refine .call came (below _ (List.mem_of_getElem? here)) (.done ?_)
    exact .single ⟨[], List.not_mem_nil, .report _ _⟩
  | back early here came ruled =>
    refine .call came (below _ (List.mem_of_getElem? here)) ?_
    exact ((ruled.visits other below (changes_heed visit (List.mem_singleton_self _) _ _ _ _)).after
      (elsewhere_begun visit _)).ahead (elsewhere_concluded visit _)

end

/-- What a node sees of a call. -/
theorem Call.visits (call : Call) (builtin : call.node.Every IsBuiltin) (nodup : call.node.ids.Nodup) (node : Node) :
    Visits node call.scene (ticksOf node (call :: call.within)) call.left := by
  generalize same : call.node = root at builtin nodup
  induction root using Node.induct generalizing call with
  | step root ih =>
    subst same
    by_cases own : call.node.id = node.id
    · have none : ticksOf node call.within = [] := by
        refine ticksOf_eq_nil fun inside member same => Node.id_notMem_children nodup ?_
        exact own.trans same.symm ▸ id_calls _ _ _ _ inside member
      have single : ticksOf node (call :: call.within) = [call] := by
        rw [ticksOf, List.filter_cons_of_pos (by simpa using own)]
        exact congrArg (call :: ·) none
      rw [single]
      exact .tick .refl own (.done .refl)
    · have inner : ticksOf node (call :: call.within) = ticksOf node (spread call.made) := by
        rw [ticksOf, List.filter_cons_of_neg (by simpa using own), Call.within_eq]
        rfl
      rw [inner]
      have plain : ∀ e, call.visit.node.kind ≠ .extension e := builtin.self
      refine call.ticked.visits (fun same => own same.symm) (fun child member => ?_) plain
      exact ih child.node member child rfl (builtin.child member)
        (Node.nodup_ids_of_mem (Node.nodup_idsAll_children nodup) member)

end BehaviorTree.Descent
