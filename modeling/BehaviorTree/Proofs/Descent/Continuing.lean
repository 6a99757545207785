import BehaviorTree.Proofs.Descent.Parts
import BehaviorTree.Proofs.Descent.Visits

/-!
How all the ticks within a tick go with what is saved before and after it. A node that goes on does so from what was
saved of it, and in its first tick; one that reports that it runs is not ticked any more; what is saved is what
running nodes have left; and of what was saved all is gone on with, except where a deadline has come.
-/

namespace BehaviorTree.Descent

/-- A number tells in which of the subtrees it is. -/
theorem index_unique {nodes : List Node} (nodup : (Node.idsAll nodes).Nodup) {i j id : Nat} {first other : Node}
    (here : nodes[i]? = some first) (there : nodes[j]? = some other) (inside : id ∈ first.ids)
    (inside' : id ∈ other.ids) : i = j := by
  have disjoint := List.pairwise_iff_getElem.mp (List.nodup_flatMap.mp nodup).2
  obtain ⟨lt, rfl⟩ := List.getElem?_eq_some_iff.mp here
  obtain ⟨lt', rfl⟩ := List.getElem?_eq_some_iff.mp there
  rcases Nat.lt_trichotomy i j with less | same | more
  · exact absurd inside' (disjoint i j lt lt' less inside)
  · exact same
  · exact absurd inside (disjoint j i lt' lt more inside')

/-- No node is below itself. -/
theorem not_below_self {node child : Node} (nodup : node.ids.Nodup) (member : child ∈ node.children) :
    node.id ∉ child.ids := by
  rw [Node.ids_eq, List.nodup_cons] at nodup
  exact fun inside => nodup.1 (Node.ids_subset_of_mem member inside)

/-- What is saved of a child is saved by its parent. -/
theorem Part.child?_eq {root node child : Node} {whole state saved : Active} (outer : Part root whole node state)
    (nodup : root.ids.Nodup) {j : Nat} (here : node.children[j]? = some child) (inner : Part root whole child saved) :
    state.child? j = some saved := by
  have above {top : Node} (inside : child ∈ top.preorder) : child.id ∈ top.ids :=
    Node.ids_subset_of_mem_preorder inside child.id_mem_ids
  induction outer with
  | self node whole =>
    have member := List.mem_of_getElem? here
    cases inner with
    | self => exact absurd child.id_mem_ids (not_below_self nodup member)
    | @child _ other _ _ next _ i there kept inner =>
      obtain rfl := index_unique (Node.nodup_idsAll_children nodup) there here (above inner.mem_preorder) child.id_mem_ids
      obtain rfl := Option.some.inj (there.symm.trans here)
      cases inner with
      | self => exact kept
      | child below _ inner =>
        have once := Node.nodup_ids_of_mem (Node.nodup_idsAll_children nodup) member
        exact absurd (above inner.mem_preorder) (not_below_self once (List.mem_of_getElem? below))
  | @child root top _ whole next _ i there kept outer ih =>
    have inside : child ∈ top.preorder :=
      Node.mem_preorder_trans outer.mem_preorder
        (Node.mem_preorder_of_child (List.mem_of_getElem? here) child.self_mem_preorder)
    cases inner with
    | self => exact absurd (above inside) (not_below_self nodup (List.mem_of_getElem? there))
    | @child _ other _ _ _ _ k below saves inner =>
      obtain rfl := index_unique (Node.nodup_idsAll_children nodup) below there (above inner.mem_preorder) (above inside)
      obtain rfl := Option.some.inj (below.symm.trans there)
      obtain rfl := Option.some.inj (saves.symm.trans kept)
      exact ih (Node.nodup_ids_of_mem (Node.nodup_idsAll_children nodup) (List.mem_of_getElem? there)) here inner

namespace Call

/-- A call and all the calls within it. -/
def all (call : Call) : List Call := call :: call.within

theorem child_made {call made : Call} (member : made ∈ call.made) :
    call.node.children[made.child]? = some made.node := child_inner member

theorem mem_made {call made : Call} (member : made ∈ call.made) : made.node ∈ call.node.children :=
  List.mem_of_getElem? (child_made member)

/-- What holds of a call when it holds of those that it makes holds of every call. -/
theorem induct {P : Call → Prop} (step : ∀ call, (∀ made ∈ call.made, P made) → P call) (call : Call) : P call := by
  generalize same : call.node = node
  induction node using Node.induct generalizing call with
  | step node ih =>
    subst same
    exact step call fun made member => ih made.node (mem_made member) made rfl

theorem mem_all {call other : Call} : other ∈ call.all ↔ other = call ∨ ∃ made ∈ call.made, other ∈ made.all := by
  rw [all, List.mem_cons, within_eq, spread, List.mem_flatMap]
  rfl

variable {call other : Call}

theorem self_mem_all (call : Call) : call ∈ call.all := List.mem_cons_self

theorem mem_preorder_all (member : other ∈ call.all) : other.node ∈ call.node.preorder := by
  induction call using Call.induct with
  | step call ih =>
    rcases mem_all.mp member with rfl | ⟨made, inside, within⟩
    · exact other.node.self_mem_preorder
    · exact Node.mem_preorder_of_child (mem_made inside) (ih made inside within)

theorem id_all (member : other ∈ call.all) : other.node.id ∈ call.node.ids := id_call_or_within member

/-- A node goes on from a part of what its call goes on from. -/
theorem goesOn (call : Call) : ∀ other ∈ call.all, ∀ state, other.state = some state →
    ∃ whole, call.state = some whole ∧ Part call.node whole other.node state := by
  induction call using Call.induct with
  | step call ih =>
    intro other member state saved
    rcases mem_all.mp member with rfl | ⟨made, inside, within⟩
    · exact ⟨state, saved, .self _ _⟩
    · obtain ⟨below, own, part⟩ := ih made inside other within state saved
      obtain ⟨whole, there, kept⟩ := Option.bind_eq_some_iff.mp (call.composed.goesOn made inside below own)
      exact ⟨whole, there, .child (child_made inside) kept part⟩

/-- A call that is not cut short makes none that are. -/
theorem sound (call : Call) {report : Report} (came : call.result = .ok report) :
    ∀ other ∈ call.all, ∃ report, other.result = .ok report := by
  induction call using Call.induct generalizing report with
  | step call ih =>
    intro other member
    rcases mem_all.mp member with rfl | ⟨made, inside, within⟩
    · exact ⟨report, came⟩
    · obtain ⟨below, came⟩ := call.composed.sound report came made inside
      exact ih made inside came other within

/-- What a running node leaves is part of what its call leaves, which runs too. -/
theorem leaves (call : Call) {report : Report} (came : call.result = .ok report) :
    ∀ other ∈ call.all, ∀ state, other.result = .ok (.running state) →
      ∃ whole, report = .running whole ∧ Part call.node whole other.node state := by
  induction call using Call.induct generalizing report with
  | step call ih =>
    intro other member state left
    rcases mem_all.mp member with rfl | ⟨made, inside, within⟩
    · cases came.symm.trans left
      exact ⟨state, rfl, .self _ _⟩
    · obtain ⟨below, found⟩ := call.composed.sound report came made inside
      obtain ⟨saved, rfl, part⟩ := ih made inside found other within state left
      obtain ⟨whole, same, kept⟩ := call.composed.leaves report came made inside saved found
      exact ⟨whole, same, .child (child_made inside) kept part⟩

/-- All nodes that are ticked in a call that completes complete. -/
theorem done_of_done (call : Call) {verdict : Verdict} (came : call.result = .ok (.done verdict)) :
    ∀ other ∈ call.all, ∃ verdict, other.result = .ok (.done verdict) := by
  intro other member
  obtain ⟨report, found⟩ := call.sound came other member
  rcases report with verdict | state
  · exact ⟨verdict, found⟩
  · obtain ⟨whole, same, -⟩ := call.leaves came other member state found
    cases same

/-- Each part of what a call leaves has been left by its node. -/
theorem left_of_part (call : Call) {whole : Active} (came : call.result = .ok (.running whole)) {node : Node}
    {state : Active} (part : Part call.node whole node state) :
    ∃ other ∈ call.all, other.node = node ∧ other.result = .ok (.running state) := by
  induction call using Call.induct generalizing whole with
  | step call ih =>
    rcases part with _ | ⟨here, kept, inner⟩
    · exact ⟨call, call.self_mem_all, rfl, came⟩
    · obtain ⟨made, inside, rfl, found⟩ := call.composed.left whole came _ _ kept
      cases here.symm.trans (child_made inside)
      obtain ⟨other, within, own, left⟩ := ih made inside found inner
      exact ⟨other, mem_all.mpr (.inr ⟨made, inside, within⟩), own, left⟩

/-- A node that is ticked again is ticked afresh, and has completed before. -/
theorem order (call : Call) (nodup : call.node.ids.Nodup) :
    call.all.Pairwise fun a b =>
      a.node.id = b.node.id → b.state = none ∧ ∃ verdict, a.result = .ok (.done verdict) := by
  induction call using Call.induct with
  | step call ih =>
    have unique := Node.nodup_idsAll_children nodup
    rw [all, List.pairwise_cons]
    refine ⟨fun other member same => ?_, ?_⟩
    · exact absurd (same ▸ id_calls _ _ _ _ other member) (Node.id_notMem_children nodup)
    rw [within_eq, spread, List.pairwise_flatMap]
    refine ⟨fun made inside => ih made inside (Node.nodup_ids_of_mem unique (mem_made inside)), ?_⟩
    refine call.composed.order.imp_of_mem fun {a b} first later again x within y within' same => ?_
    have own : a.child = b.child :=
      index_unique unique (child_made first) (child_made later) (id_all within) (same ▸ id_all within')
    obtain ⟨fresh, verdict, came⟩ := again own
    refine ⟨Option.eq_none_iff_forall_ne_some.mpr fun state saved => ?_, a.done_of_done came x within⟩
    obtain ⟨whole, there, -⟩ := b.goesOn y within' state saved
    cases fresh.symm.trans there

/-- The clock stands still during a tick. -/
theorem clock_all (call : Call) (builtin : call.node.Every IsBuiltin) (nodup : call.node.ids.Nodup) :
    ∀ other ∈ call.all, other.scene.context.clock = call.scene.context.clock := by
  intro other member
  refine (call.visits builtin nodup other.node).clock (fun inside ticked => ?_) other ?_
  · have below := mem_preorder_all (List.mem_of_mem_filter ticked)
    exact (changes_tick inside.node (builtin.below below) inside.state inside.path inside.scene).clock
  · exact List.mem_filter.mpr ⟨member, by simp⟩

/-- A part of what a call goes on from is gone on with, unless a deadline has come above it. -/
theorem turns (call : Call) (builtin : call.node.Every IsBuiltin) (nodup : call.node.ids.Nodup) {report : Report}
    (came : call.result = .ok report) {whole : Active} (before : call.state = some whole) {node : Node}
    {state : Active} (part : Part call.node whole node state) :
    (∃ other ∈ call.all, other.node = node ∧ other.state = some state) ∨
      ∃ outer saved, Part call.node whole outer saved ∧ saved.IsDue outer call.scene.context.clock ∧
        node.id ∈ Node.idsAll outer.children := by
  induction call using Call.induct generalizing whole report with
  | step call ih =>
    rcases part with _ | ⟨here, kept, inner⟩
    · exact .inl ⟨call, call.self_mem_all, rfl, before⟩
    by_cases due : whole.IsDue call.node call.scene.context.clock
    · refine .inr ⟨call.node, whole, .self _ _, due, ?_⟩
      exact Node.ids_subset_of_mem (List.mem_of_getElem? here) (List.mem_map_of_mem inner.mem_preorder)
    obtain ⟨made, inside, rfl, saved⟩ := call.composed.turns report came whole before due _ _ _ here kept
    cases here.symm.trans (child_made inside)
    obtain ⟨below, found⟩ := call.composed.sound report came made inside
    have unique := Node.nodup_ids_of_mem (Node.nodup_idsAll_children nodup) (mem_made inside)
    rcases ih made inside (builtin.child (mem_made inside)) unique found saved inner with
      ⟨other, within, own⟩ | ⟨outer, held, part, due, above⟩
    · exact .inl ⟨other, mem_all.mpr (.inr ⟨made, inside, within⟩), own⟩
    · have still := call.clock_all builtin nodup made (mem_all.mpr (.inr ⟨made, inside, made.self_mem_all⟩))
      exact .inr ⟨outer, held, .child here kept part, still ▸ due, above⟩

end Call
end BehaviorTree.Descent
