import BehaviorTree.Proofs.Descent.Course
import Mathlib.Data.List.Nodup

/-!
The parts of a saved state: what each of the active nodes below has saved itself. A tick that goes on from a saved
state goes on with its parts, each at the first tick of its node and no later one; what a tick saves consists of what
the last ticks of the nodes have left; and a part that is not gone on with is one that a Timeout node has given up.
-/

namespace BehaviorTree.Descent

/-- The state of a child that is still active. -/
def Share.state? : Share → Option Active
  | settled _ => none
  | active state => some state

/-- What a node has saved of one of its children. -/
def Active.child? : Active → Nat → Option Active
  | .resting _, _ => none
  | .over _ i state, k => if k = i then some state else none
  | .beside shares, k => shares[k]?.bind Share.state?

/-- A node that is active in a saved state, and what it has saved itself. -/
inductive Part : Node → Active → Node → Active → Prop
  | self (node : Node) (whole : Active) : Part node whole node whole
  | child {node child part : Node} {whole state saved : Active} {i : Nat} (here : node.children[i]? = some child)
      (kept : whole.child? i = some state) (inner : Part child state part saved) : Part node whole part saved

/-- The deadline that an active node has armed, if it waits for a child. -/
def Active.deadline? (kind : Kind) : Active → Option Float
  | .over memory _ _ => armed? kind memory
  | _ => none

/-- The deadline of an active node has come. -/
def Active.IsDue (node : Node) (state : Active) (now : Float) : Prop := (state.deadline? node.kind).any (· ≤ now) = true

namespace Part

variable {node part : Node} {whole saved : Active}

theorem mem_preorder (inner : Part node whole part saved) : part ∈ node.preorder := by
  induction inner with
  | self node whole => exact node.self_mem_preorder
  | child here _ _ ih => exact Node.mem_preorder_of_child (List.mem_of_getElem? here) ih

theorem trans {third : Node} {kept : Active} (outer : Part node whole part saved) (inner : Part part saved third kept) :
    Part node whole third kept := by
  induction outer with
  | self node whole => exact inner
  | child here below _ ih => exact .child here below (ih inner)

end Part

/-! ### One tick -/

/-- How ticks that a node makes one after the other go with what comes of its own tick. -/
structure Consecutive (made : List Call) (result : Except Fault Report) : Prop where
  order : made.Pairwise fun call _ => ∃ verdict, call.result = .ok (.done verdict)
  sound : ∀ report, result = .ok report → ∀ call ∈ made, ∃ report, call.result = .ok report
  leaves : ∀ report, result = .ok report → ∀ call ∈ made, ∀ state, call.result = .ok (.running state) →
    ∃ whole, report = .running whole ∧ whole.child? call.child = some state
  left : ∀ whole, result = .ok (.running whole) → ∀ i state, whole.child? i = some state →
    ∃ call ∈ made, call.child = i ∧ call.result = .ok (.running state)

namespace Consecutive

variable {made : List Call} {call : Call} {result : Except Fault Report}

theorem nil (none : ∀ whole, result = .ok (.running whole) → ∀ i, whole.child? i = none) : Consecutive [] result where
  order := .nil
  sound _ _ _ member := absurd member List.not_mem_nil
  leaves _ _ _ member := absurd member List.not_mem_nil
  left whole same i state here := by
    rw [none whole same i] at here
    cases here

theorem cut (call : Call) (fault : Fault) : Consecutive [call] (.error fault) where
  order := List.pairwise_singleton _ _
  sound := by rintro _ ⟨⟩
  leaves := by rintro _ ⟨⟩
  left := by rintro _ ⟨⟩

theorem runs {state : Active} (came : call.result = .ok (.running state)) (memory : Memory) :
    Consecutive [call] (.ok (.running (.over memory call.child state))) where
  order := List.pairwise_singleton _ _
  sound report _ other member := by
    rw [List.mem_singleton.mp member]
    exact ⟨_, came⟩
  leaves report same other member saved left := by
    cases same
    rw [List.mem_singleton.mp member] at left ⊢
    cases left.symm.trans came
    exact ⟨_, rfl, if_pos rfl⟩
  left whole same i saved here := by
    cases same
    rw [Active.child?] at here
    split at here
    · cases here
      exact ⟨call, List.mem_singleton_self call, (‹i = call.child›).symm, came⟩
    · cases here

theorem cons {verdict : Verdict} (came : call.result = .ok (.done verdict)) (later : Consecutive made result) :
    Consecutive (call :: made) result where
  order := .cons (fun _ _ => ⟨verdict, came⟩) later.order
  sound report same := List.forall_mem_cons.mpr ⟨⟨_, came⟩, later.sound report same⟩
  leaves report same other member state left := by
    rcases List.mem_cons.mp member with rfl | member
    · cases came.symm.trans left
    · exact later.leaves report same other member state left
  left whole same i state here := by
    obtain ⟨other, member, found⟩ := later.left whole same i state here
    exact ⟨other, List.mem_cons_of_mem _ member, found⟩

end Consecutive

section

variable {visit : Visit} {s : Scene} {made : List Call} {upshot : Upshot Report}

theorem upshot_fst {call : Call} {result : Except Fault Report} {t : Scene} (came : call.upshot = (result, t)) :
    call.result = result := congrArg Prod.fst came

theorem concluded_fst (visit : Visit) (upshot : Upshot Report) : (concluded visit upshot).1 = upshot.1 := by
  obtain ⟨fault | report, t⟩ := upshot <;> rfl

theorem Course.fresh {turns : Nat} {move : Move} {before : Scene}
    (course : Course visit turns move before s made upshot) : ∀ call ∈ made, call.state = none := by
  induction course with
  | finish | rest | spent | missing => exact fun _ member => absurd member List.not_mem_nil
  | faulty | runs | raised => exact List.forall_mem_singleton.mpr rfl
  | onward _ _ _ _ ih => exact List.forall_mem_cons.mpr ⟨rfl, ih⟩

/-- In a course every call but the last completes, and what the last one leaves is all that remains. -/
theorem Course.consecutive {turns : Nat} {move : Move} {before : Scene}
    (course : Course visit turns move before s made upshot) : Consecutive made upshot.1 := by
  induction course with
  | finish | spent | missing => exact .nil (by rintro _ ⟨⟩)
  | rest =>
    refine .nil ?_
    rintro _ ⟨⟩ i
    rfl
  | faulty | raised => exact .cut _ _
  | runs here came => exact .runs (upshot_fst came) _
  | onward here came _ _ ih => exact .cons (upshot_fst came) ih

theorem Ruled.fresh {rule : TickM Move} (ruled : Ruled visit rule s made upshot) :
    ∀ call ∈ made, call.state = none := by
  cases ruled with
  | raised => exact fun _ member => absurd member List.not_mem_nil
  | carried _ course => exact course.fresh

theorem Ruled.consecutive {rule : TickM Move} (ruled : Ruled visit rule s made upshot) :
    Consecutive made upshot.1 := by
  cases ruled with
  | raised => exact .nil (by rintro _ ⟨⟩)
  | carried _ course => exact course.consecutive

end

/-! ### Children beside each other -/

/-- How the ticks of the children of a Parallel node, from the `i`-th on, go with what the children had saved and with
what becomes of them. -/
structure Alongside (i : Nat) (nodes : List Node) (shares : List (Option Share)) (made : List Call)
    (after : List Share) : Prop where
  sound : ∀ call ∈ made, ∃ report, call.result = .ok report
  leaves : ∀ call ∈ made, ∀ state, call.result = .ok (.running state) →
    ∃ k, call.child = i + k ∧ after[k]? = some (.active state)
  left : ∀ (k : Nat) state, after[k]? = some (.active state) →
    ∃ call ∈ made, call.child = i + k ∧ call.result = .ok (.running state)
  turns : ∀ (k : Nat) child state, nodes[k]? = some child → shares[k]? = some (some (.active state)) →
    ∃ call ∈ made, call.child = i + k ∧ call.state = some state

section

variable {visit : Visit} {i : Nat} {nodes : List Node} {shares : List (Option Share)} {s : Scene} {made : List Call}
  {ended : Upshot (List Share)}

/-- Calls in a row are of later and later children. -/
theorem InRow.child_lt (inRow : InRow visit i nodes shares s made ended) :
    (∀ call ∈ made, i ≤ call.child) ∧ made.Pairwise fun a b => a.child < b.child := by
  induction inRow with
  | nil => exact ⟨fun _ member => absurd member List.not_mem_nil, .nil⟩
  | settled _ _ ih => exact ⟨fun call member => Nat.le_of_succ_le (ih.1 call member), ih.2⟩
  | faulty => exact ⟨List.forall_mem_singleton.mpr (Nat.le_refl _), List.pairwise_singleton _ _⟩
  | reported state came others ih =>
    exact ⟨List.forall_mem_cons.mpr ⟨Nat.le_refl _, fun call member => Nat.le_of_succ_le (ih.1 call member)⟩,
      .cons (fun call member => ih.1 call member) ih.2⟩

/-- A child goes on from what it has saved. -/
theorem InRow.goesOn (inRow : InRow visit i nodes shares s made ended) :
    ∀ call ∈ made, ∀ state, call.state = some state →
      ∃ k, call.child = i + k ∧ shares[k]? = some (some (.active state)) := by
  have first {i : Nat} {state : Option Active} {saved : Active} {shares : List (Option Share)}
      (same : state = some saved) :
      ∃ k, i = i + k ∧ (state.map Share.active :: shares)[k]? = some (some (.active saved)) :=
    ⟨0, rfl, by rw [same]; rfl⟩
  have next {i : Nat} {call : Call} {state : Active} {share : Option Share} {shares : List (Option Share)} :
      (∃ k, call.child = i + 1 + k ∧ shares[k]? = some (some (.active state))) →
        ∃ k, call.child = i + k ∧ (share :: shares)[k]? = some (some (.active state)) :=
    fun ⟨k, same, here⟩ => ⟨k + 1, by omega, here⟩
  induction inRow with
  | nil => exact fun _ member => absurd member List.not_mem_nil
  | settled _ _ ih => exact fun call member state same => next (ih call member state same)
  | faulty => exact List.forall_mem_singleton.mpr fun saved same => first same
  | reported state came others ih =>
    exact List.forall_mem_cons.mpr
      ⟨fun saved same => first same, fun call member state same => next (ih call member state same)⟩

theorem ok_of_map {α β : Type} {f : α → β} {result : Except Fault α} {b : β} (same : result.map f = .ok b) :
    ∃ a, result = .ok a ∧ f a = b := by
  rcases result with fault | a
  · cases same
  · exact ⟨a, rfl, Except.ok.inj same⟩

namespace Alongside

variable {after : List Share}

theorem nil (none : nodes = [] ∨ shares = []) : Alongside i nodes shares [] [] where
  sound _ member := absurd member List.not_mem_nil
  leaves _ member := absurd member List.not_mem_nil
  left k state here := by cases here
  turns k child state here kept := by
    rcases none with rfl | rfl
    · cases here
    · cases kept

theorem settled (later : Alongside (i + 1) nodes shares made after) (child : Node) (verdict : Verdict) :
    Alongside i (child :: nodes) (some (.settled verdict) :: shares) made (.settled verdict :: after) where
  sound := later.sound
  leaves call member state came := by
    obtain ⟨k, same, here⟩ := later.leaves call member state came
    exact ⟨k + 1, by omega, here⟩
  left k state here := by
    rcases k with _ | k
    · cases here
    · obtain ⟨call, member, same, came⟩ := later.left k state here
      exact ⟨call, member, by omega, came⟩
  turns k other state here kept := by
    rcases k with _ | k
    · cases kept
    · obtain ⟨call, member, same, goesOn⟩ := later.turns k other state here kept
      exact ⟨call, member, by omega, goesOn⟩

theorem reported (later : Alongside (i + 1) nodes shares made after) {call : Call} {report : Report}
    (own : call.child = i) (came : call.result = .ok report) :
    Alongside i (call.node :: nodes) (call.state.map .active :: shares) (call :: made) (report.share :: after) where
  sound := List.forall_mem_cons.mpr ⟨⟨report, came⟩, later.sound⟩
  leaves other member state left := by
    rcases List.mem_cons.mp member with rfl | member
    · cases came.symm.trans left
      exact ⟨0, own, rfl⟩
    · obtain ⟨k, same, here⟩ := later.leaves other member state left
      exact ⟨k + 1, by omega, here⟩
  left k state here := by
    rcases k with _ | k
    · rcases report with verdict | saved <;> cases here
      exact ⟨call, List.mem_cons_self, own, came⟩
    · obtain ⟨other, member, same, left⟩ := later.left k state here
      exact ⟨other, List.mem_cons_of_mem _ member, by omega, left⟩
  turns k child state here kept := by
    rcases k with _ | k
    · rcases goesOn : call.state with _ | saved <;> rw [goesOn] at kept <;> cases kept
      exact ⟨call, List.mem_cons_self, own, goesOn⟩
    · obtain ⟨other, member, same, goesOn⟩ := later.turns k child state here kept
      exact ⟨other, List.mem_cons_of_mem _ member, by omega, goesOn⟩

end Alongside

/-- Shares after a row are those that the calls in it have reported. -/
theorem InRow.alongside (inRow : InRow visit i nodes shares s made ended) {after : List Share}
    (same : ended.1 = .ok after) : Alongside i nodes shares made after := by
  induction inRow generalizing after with
  | nil _ none =>
    cases same
    exact .nil none
  | settled verdict _ ih =>
    obtain ⟨rest, later, rfl⟩ := ok_of_map same
    exact (ih later).settled _ verdict
  | faulty => cases same
  | reported state came others ih =>
    obtain ⟨rest, later, rfl⟩ := ok_of_map same
    exact (ih later).reported rfl (upshot_fst came)

end

/-- How the ticks that a node makes go with what it goes on from and with what comes of its own tick. -/
structure Composed (node : Node) (before : Option Active) (now : Float) (made : List Call)
    (result : Except Fault Report) : Prop where
  /-- A child goes on from what the node has saved of it. -/
  goesOn : ∀ call ∈ made, ∀ state, call.state = some state → before.bind (·.child? call.child) = some state
  /-- A child that is ticked again is ticked afresh, and has completed before. -/
  order : made.Pairwise fun a b => a.child = b.child → b.state = none ∧ ∃ verdict, a.result = .ok (.done verdict)
  sound : ∀ report, result = .ok report → ∀ call ∈ made, ∃ report, call.result = .ok report
  /-- A child that runs is saved. -/
  leaves : ∀ report, result = .ok report → ∀ call ∈ made, ∀ state, call.result = .ok (.running state) →
    ∃ whole, report = .running whole ∧ whole.child? call.child = some state
  /-- What is saved of a child is what its tick has left. -/
  left : ∀ whole, result = .ok (.running whole) → ∀ i state, whole.child? i = some state →
    ∃ call ∈ made, call.child = i ∧ call.result = .ok (.running state)
  /-- Unless a deadline has come, what has been saved of a child is gone on with. -/
  turns : ∀ report, result = .ok report → ∀ whole ∈ before, ¬ whole.IsDue node now → ∀ i child state,
    node.children[i]? = some child → whole.child? i = some state → ∃ call ∈ made, call.child = i ∧ call.state = some state

section

variable {visit : Visit} {s : Scene} {made : List Call} {upshot : Upshot Report}

/-- What a rule leaves is composed of what its calls have reported. -/
theorem Ruled.composed {rule : TickM Move} (ruled : Ruled visit rule s made upshot) (node : Node)
    {before : Option Active} (none : ∀ whole ∈ before, ∀ i, whole.child? i = none) (now : Float) :
    Composed node before now made upshot.1 where
  goesOn call member state same := by
    rw [ruled.fresh call member] at same
    cases same
  order := by
    refine ruled.consecutive.order.imp_of_mem fun {a b} first later done _ => ⟨ruled.fresh b later, done⟩
  sound := ruled.consecutive.sound
  leaves := ruled.consecutive.leaves
  left := ruled.consecutive.left
  turns report _ whole member _ i child state _ kept := by
    rw [none whole member i] at kept
    cases kept

/-- The node goes on with the child that it waits for. -/
theorem composed_over {memory : Memory} {i : Nat} {state : Active} {child : Node} {path : Path} {now : Float}
    {more : List Call} {result : Except Fault Report}
    (consecutive : Consecutive (⟨i, child, some state, path, memory, s, s⟩ :: more) result)
    (fresh : ∀ call ∈ more, call.state = none) :
    Composed visit.node (some (.over memory i state)) now (⟨i, child, some state, path, memory, s, s⟩ :: more) result where
  goesOn := by
    refine List.forall_mem_cons.mpr ⟨fun saved same => ?_, fun call member saved same => ?_⟩
    · cases same
      exact if_pos rfl
    · rw [fresh call member] at same
      cases same
  order := by
    obtain ⟨first, later⟩ := List.pairwise_cons.mp consecutive.order
    exact .cons (fun call member _ => ⟨fresh call member, first call member⟩)
      (later.imp_of_mem fun {a b} _ member done _ => ⟨fresh b member, done⟩)
  sound := consecutive.sound
  leaves := consecutive.leaves
  left := consecutive.left
  turns report _ whole member _ k other saved here kept := by
    cases Option.mem_some.mp member
    rw [Active.child?] at kept
    split at kept
    · cases kept
      exact ⟨_, List.mem_cons_self, (‹k = i›).symm, rfl⟩
    · cases kept

theorem attended_running {shares : List Share} {report : Report} (same : attended shares = report) {k : Nat}
    {state : Active} (here : shares[k]? = some (.active state)) : report = .running (.beside shares) := by
  subst same
  refine if_neg fun all => ?_
  cases List.all_eq_true.mp all _ (List.mem_of_getElem? here)

/-- What a row leaves is composed of what its calls have reported. -/
theorem InRow.composed {shares : List (Option Share)} {ended : Upshot (List Share)}
    (inRow : InRow visit 0 visit.node.children shares s made ended) {before : Option Active}
    (same : ∀ (k : Nat) state, shares[k]? = some (some (.active state)) → before.bind (·.child? k) = some state)
    (turns : ∀ whole ∈ before, ∀ k state, whole.child? k = some state → shares[k]? = some (some (.active state)))
    (now : Float) : Composed visit.node before now made (ended.1.map attended) where
  goesOn call member state goesOn := by
    obtain ⟨k, own, here⟩ := inRow.goesOn call member state goesOn
    rw [own, Nat.zero_add]
    exact same k state here
  order := inRow.child_lt.2.imp fun {a b} lt same => absurd same (Nat.ne_of_lt lt)
  sound report reported := by
    obtain ⟨after, ended, -⟩ := ok_of_map reported
    exact (inRow.alongside ended).sound
  leaves report reported call member state came := by
    obtain ⟨after, ended, attends⟩ := ok_of_map reported
    obtain ⟨k, own, here⟩ := (inRow.alongside ended).leaves call member state came
    rw [own, Nat.zero_add]
    exact ⟨_, attended_running attends here, by rw [Active.child?, here]; rfl⟩
  left whole reported i state kept := by
    obtain ⟨after, ended, attends⟩ := ok_of_map reported
    rw [attended] at attends
    split at attends <;> cases attends
    obtain ⟨share, here, active⟩ := Option.bind_eq_some_iff.mp kept
    rcases share with verdict | other <;> cases active
    obtain ⟨call, member, own, came⟩ := (inRow.alongside ended).left i state here
    exact ⟨call, member, by rw [own, Nat.zero_add], came⟩
  turns report reported whole member _ i child state here kept := by
    obtain ⟨after, ended, -⟩ := ok_of_map reported
    obtain ⟨call, member, own, goesOn⟩ :=
      (inRow.alongside ended).turns i child state here (turns whole member i state kept)
    exact ⟨call, member, by rw [own, Nat.zero_add], goesOn⟩

/-- What a tick leaves is composed of what its calls have reported. -/
theorem Ticked.composed {before : Option Active} (ticked : Ticked visit before s made upshot) :
    Composed visit.node before s.context.clock made upshot.1 := by
  have nothing {whole : Active} {P : Prop} : whole ∈ (none : Option Active) → P := by rintro ⟨⟩
  cases ticked with
  | entered alone ruled =>
    rw [concluded_fst]
    exact ruled.composed _ (fun _ => nothing) _
  | rested ruled =>
    rw [concluded_fst]
    refine ruled.composed _ (fun whole member i => ?_) _
    cases Option.mem_some.mp member
    rfl
  | enteredBeside kind inRow =>
    rw [concluded_fst]
    refine inRow.composed (fun k state here => ?_) (fun _ => nothing) _
    rw [List.getElem?_map] at here
    obtain ⟨child, -, same⟩ := Option.map_eq_some_iff.mp here
    cases same
  | @beside shares =>
    rename_i inRow
    rw [concluded_fst]
    refine inRow.composed (fun k state here => ?_) (fun whole member k state kept => ?_) _
    · rw [List.getElem?_map] at here
      obtain ⟨share, found, same⟩ := Option.map_eq_some_iff.mp here
      cases same
      exact (congrArg (·.bind Share.state?) found).trans rfl
    · cases Option.mem_some.mp member
      obtain ⟨share, found, active⟩ := Option.bind_eq_some_iff.mp kept
      rcases share with verdict | other <;> cases active
      rw [List.getElem?_map, found]
      rfl
  | expired late =>
    have single : Consecutive [] (.ok (.done .failure)) := .nil (by rintro _ ⟨⟩)
    exact ⟨fun _ member => absurd member List.not_mem_nil, .nil, single.sound, single.leaves, single.left,
      fun _ _ whole member early => by cases Option.mem_some.mp member; exact absurd late early⟩
  | missing fault early absent =>
    have single : Consecutive [] (.error fault) := .nil (by rintro _ ⟨⟩)
    exact ⟨fun _ member => absurd member List.not_mem_nil, .nil, single.sound, single.leaves, single.left,
      by rintro _ ⟨⟩⟩
  | faulty early here came =>
    exact composed_over (.cut _ _) fun _ member => absurd member List.not_mem_nil
  | runs early here came =>
    exact composed_over (.runs (upshot_fst came) _) fun _ member => absurd member List.not_mem_nil
  | back early here came ruled =>
    rw [concluded_fst]
    exact composed_over (.cons (upshot_fst came) ruled.consecutive) ruled.fresh

end

/-- How a call goes with the calls that it makes. -/
theorem Call.composed (call : Call) :
    Composed call.node call.state call.scene.context.clock call.made call.result := call.ticked.composed

end BehaviorTree.Descent
