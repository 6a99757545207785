import BehaviorTree.Tree.Basic

/-!
A node and all below it. Statements about trees go by induction on the node; what holds of every
node of a tree holds of every node below a child; and when no two nodes of a tree have the same
id, the trees below two children have no id in common, and none of them has the id of their parent.
-/

namespace BehaviorTree.Node

mutual

theorem induct {P : Node → Prop} (step : ∀ node, (∀ child ∈ node.children, P child) → P node) :
    ∀ node, P node
  | ⟨_, _, _, _, _, _, _, children⟩ => step _ (inductAll step children)

theorem inductAll {P : Node → Prop} (step : ∀ node, (∀ child ∈ node.children, P child) → P node) :
    ∀ children : List Node, ∀ child ∈ children, P child
  | [], _, h => absurd h List.not_mem_nil
  | node :: rest, child, h => by
      rcases List.mem_cons.mp h with same | h
      · rw [same]
        exact induct step node
      · exact inductAll step rest child h

end

theorem preorderAll_eq : ∀ children : List Node, preorderAll children = children.flatMap preorder
  | [] => rfl
  | node :: rest => by rw [preorderAll, preorderAll_eq rest, List.flatMap_cons]

theorem preorder_eq (node : Node) : node.preorder = node :: node.children.flatMap preorder := by
  obtain ⟨id, kind, name, desc, args, input, output, children⟩ := node
  rw [preorder, preorderAll_eq]

theorem self_mem_preorder (node : Node) : node ∈ node.preorder := by
  rw [preorder_eq]
  exact List.mem_cons_self

/-- A property of a node and all below it. -/
def Every (P : Node → Prop) (node : Node) : Prop := ∀ n ∈ node.preorder, P n

theorem Every.self {P : Node → Prop} {node : Node} (h : node.Every P) : P node :=
  h node (by rw [preorder_eq]; exact List.mem_cons_self)

theorem mem_preorder_of_child {node child n : Node} (h : child ∈ node.children)
    (below : n ∈ child.preorder) : n ∈ node.preorder := by
  rw [preorder_eq]
  exact List.mem_cons_of_mem _ (List.mem_flatMap.mpr ⟨child, h, below⟩)

theorem Every.child {P : Node → Prop} {node child : Node} (h : node.Every P)
    (member : child ∈ node.children) : child.Every P :=
  fun n below => h n (mem_preorder_of_child member below)

/-- A property of a node and of all below it. -/
theorem Every.intro {P : Node → Prop} {node : Node} (self : P node)
    (below : ∀ child ∈ node.children, child.Every P) : node.Every P := by
  intro n member
  rw [preorder_eq] at member
  rcases List.mem_cons.mp member with rfl | member
  · exact self
  · obtain ⟨child, inside, member⟩ := List.mem_flatMap.mp member
    exact below child inside n member

theorem Every.mono {P Q : Node → Prop} {node : Node} (h : node.Every P) (sub : ∀ n, P n → Q n) :
    node.Every Q := fun n member => sub n (h n member)

/-- What holds of all nodes of a tree holds of all nodes of a subtree. -/
theorem Every.below {P : Node → Prop} {node n : Node} (h : node.Every P) (member : n ∈ node.preorder) :
    n.Every P := by
  induction node using Node.induct with
  | step node ih =>
    rw [preorder_eq] at member
    rcases List.mem_cons.mp member with rfl | member
    · exact h
    · obtain ⟨child, inside, member⟩ := List.mem_flatMap.mp member
      exact ih child inside (h.child inside) member

theorem mem_preorder_trans {root node n : Node} (inside : node ∈ root.preorder) (below : n ∈ node.preorder) :
    n ∈ root.preorder :=
  have all : root.Every (· ∈ root.preorder) := fun _ member => member
  all.below inside n below

/-! ### Ids -/

/-- The ids of a node and all below it. -/
def ids (node : Node) : List Nat := node.preorder.map Node.id

/-- The ids of several nodes and all below them. -/
def idsAll (nodes : List Node) : List Nat := nodes.flatMap ids

theorem idsAll_single (node : Node) : idsAll [node] = node.ids := by
  simp only [idsAll, List.flatMap_cons, List.flatMap_nil, List.append_nil]

theorem ids_eq (node : Node) : node.ids = node.id :: idsAll node.children := by
  simp only [ids, idsAll, preorder_eq node, List.map_cons, List.map_flatMap]
  rfl

theorem id_mem_ids (node : Node) : node.id ∈ node.ids := by
  rw [ids_eq]
  exact List.mem_cons_self

theorem ids_subset_of_mem {child : Node} {nodes : List Node} (h : child ∈ nodes) :
    child.ids ⊆ idsAll nodes := fun _ m => List.mem_flatMap.mpr ⟨child, h, m⟩

theorem idsAll_children_subset (node : Node) : idsAll node.children ⊆ node.ids := by
  rw [ids_eq]
  exact List.subset_cons_self _ _

theorem ids_child_subset {node child : Node} (h : child ∈ node.children) : child.ids ⊆ node.ids :=
  fun _ m => idsAll_children_subset node (ids_subset_of_mem h m)

theorem ids_subset_of_mem_preorder {node n : Node} (below : n ∈ node.preorder) : n.ids ⊆ node.ids := by
  intro id member
  obtain ⟨other, inside, rfl⟩ := List.mem_map.mp member
  exact List.mem_map_of_mem (mem_preorder_trans below inside)

/-- What is below a node of a tree is below the root. -/
theorem idsAll_subset_of_mem_preorder {node n : Node} (below : n ∈ node.preorder) :
    idsAll n.children ⊆ idsAll node.children := by
  rw [preorder_eq] at below
  rcases List.mem_cons.mp below with rfl | below
  · exact List.Subset.refl _
  · obtain ⟨child, member, inside⟩ := List.mem_flatMap.mp below
    exact List.Subset.trans n.idsAll_children_subset
      (List.Subset.trans (ids_subset_of_mem_preorder inside) (ids_subset_of_mem member))

theorem nodup_idsAll_children {node : Node} (h : node.ids.Nodup) : (idsAll node.children).Nodup := by
  rw [ids_eq] at h
  exact h.of_cons

theorem id_notMem_children {node : Node} (h : node.ids.Nodup) : node.id ∉ idsAll node.children := by
  rw [ids_eq] at h
  exact (List.nodup_cons.mp h).1

/-- Where numbers do not repeat they do not repeat below a child. -/
theorem nodup_ids_of_mem {child : Node} {nodes : List Node} (h : (idsAll nodes).Nodup)
    (member : child ∈ nodes) : child.ids.Nodup := by
  induction nodes with
  | nil => exact absurd member List.not_mem_nil
  | cons node rest ih =>
    rw [idsAll, List.flatMap_cons, List.nodup_append] at h
    rcases List.mem_cons.mp member with rfl | member
    · exact h.1
    · exact ih h.2.1 member

/-- Where numbers do not repeat siblings have different ones. -/
theorem nodup_map_id {nodes : List Node} (h : (idsAll nodes).Nodup) : (nodes.map Node.id).Nodup := by
  induction nodes with
  | nil => exact List.nodup_nil
  | cons node rest ih =>
    rw [idsAll, List.flatMap_cons, List.nodup_append] at h
    rw [List.map_cons, List.nodup_cons]
    refine ⟨fun again => ?_, ih h.2.1⟩
    obtain ⟨other, member, same⟩ := List.mem_map.mp again
    refine h.2.2 node.id node.id_mem_ids node.id ?_ rfl
    exact ids_subset_of_mem member (same ▸ other.id_mem_ids)

/-- Where numbers do not repeat they do not repeat in a subtree. -/
theorem nodup_ids_of_mem_preorder {node n : Node} (h : node.ids.Nodup) (below : n ∈ node.preorder) :
    n.ids.Nodup := by
  induction node using Node.induct with
  | step node ih =>
    rw [preorder_eq] at below
    rcases List.mem_cons.mp below with rfl | below
    · exact h
    · obtain ⟨child, member, inside⟩ := List.mem_flatMap.mp below
      exact ih child member (nodup_ids_of_mem (nodup_idsAll_children h) member) inside

end BehaviorTree.Node
