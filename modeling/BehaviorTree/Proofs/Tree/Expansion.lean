import BehaviorTree.Proofs.Returns
import BehaviorTree.Proofs.Tree.Preorder
import BehaviorTree.Tree.Load
import Mathlib

/-!
What a loaded tree consists of. The source of a node stands for a node of its kind if its name is registered,
with the nodes that its children stand for below it; otherwise it stands for the node that the root of the
first tree of that name stands for. A loaded tree is what the root of its source stands for, with its nodes
numbered from one on, every node before its children, and this leaves nothing open. It holds for any table of
kinds and whatever is asked of the nodes when they are checked.
-/

namespace BehaviorTree

open Node (idsAll)

/-! ### Expansion -/

/-- The node is of a kind and has all else but its number and its children from its source. -/
structure Node.Reads (node : Node) (kind : Kind) (data : NodeSource) : Prop where
  kind : node.kind = kind
  name : node.name = data.name
  desc : node.desc = data.desc
  args : node.args = data.args
  input : node.input = Loader.wire data.input
  output : node.output = Loader.wire data.output

mutual

/-- The source of a node stands for this node, whatever numbers are given out. -/
inductive Expands (registry : Registry) (source : Source) : NodeSource → Node → Prop
  | kind {data : NodeSource} {kind : Kind} {node : Node} (registered : registry.get? data.name = some kind)
      (reads : node.Reads kind data) (children : ExpandsAll registry source data.children node.children) :
      Expands registry source data node
  | reference {data : NodeSource} {tree : TreeSource} {node : Node}
      (unregistered : registry.get? data.name = none) (found : source.find? data.name = some tree)
      (root : Expands registry source tree.root node) : Expands registry source data node

/-- The children that are not disabled stand for these nodes, in order. -/
inductive ExpandsAll (registry : Registry) (source : Source) : List NodeSource → List Node → Prop
  | nil : ExpandsAll registry source [] []
  | skip {child : NodeSource} {rest : List NodeSource} {nodes : List Node} (disabled : child.disabled = true)
      (others : ExpandsAll registry source rest nodes) : ExpandsAll registry source (child :: rest) nodes
  | cons {child : NodeSource} {rest : List NodeSource} {node : Node} {nodes : List Node}
      (enabled : child.disabled = false) (first : Expands registry source child node)
      (others : ExpandsAll registry source rest nodes) : ExpandsAll registry source (child :: rest) (node :: nodes)

end

section

variable {registry : Registry} {source : Source}

/-- Nodes of the same kind, with the same from a source and the same number, differ in their children at most. -/
theorem Node.Reads.unique {a b : Node} {kind : Kind} {data : NodeSource} (reads : a.Reads kind data)
    (reads' : b.Reads kind data) (id : a.id = b.id) (children : a.children = b.children) : a = b := by
  obtain ⟨k, n, d, g, i, o⟩ := reads
  obtain ⟨k', n', d', g', i', o'⟩ := reads'
  cases a
  cases b
  simp_all

/-- A source stands for one node only, but for the numbers: what two such nodes have is as much, and with the
same numbers they are the same. -/
theorem Expands.unique {data : NodeSource} {a : Node} (expands : Expands registry source data a) :
    ∀ b, Expands registry source data b → a.ids.length = b.ids.length ∧ (a.ids = b.ids → a = b) := by
  refine @Expands.rec registry source
    (fun data a _ => ∀ b, Expands registry source data b → a.ids.length = b.ids.length ∧ (a.ids = b.ids → a = b))
    (fun datas as _ => ∀ bs, ExpandsAll registry source datas bs →
      (idsAll as).length = (idsAll bs).length ∧ (idsAll as = idsAll bs → as = bs))
    ?kind ?reference ?nil ?skip ?cons data a expands
  case kind =>
    rintro data kind a registered reads - ih b other
    cases other with
    | kind registered' reads' children' =>
      rw [registered, Option.some.injEq] at registered'
      obtain ⟨much, same⟩ := ih _ children'
      rw [Node.ids_eq, Node.ids_eq, List.length_cons, List.length_cons, much, List.cons.injEq]
      exact ⟨rfl, fun ids => reads.unique (registered' ▸ reads') ids.1 (same ids.2)⟩
    | reference unregistered => rw [registered] at unregistered; cases unregistered
  case reference =>
    rintro data tree a unregistered found - ih b other
    cases other with
    | kind registered => rw [registered] at unregistered; cases unregistered
    | reference _ found' root =>
      rw [found, Option.some.injEq] at found'
      exact ih b (found' ▸ root)
  case nil =>
    rintro bs other
    cases other
    exact ⟨rfl, fun _ => rfl⟩
  case skip =>
    rintro child rest as disabled - ih bs other
    cases other with
    | skip _ others => exact ih bs others
    | cons enabled => rw [disabled] at enabled; cases enabled
  case cons =>
    rintro child rest a as enabled - - ih ihs bs other
    cases other with
    | skip disabled => rw [disabled] at enabled; cases enabled
    | cons _ first others =>
      obtain ⟨much, same⟩ := ih _ first
      obtain ⟨more, sames⟩ := ihs _ others
      simp only [idsAll, List.flatMap_cons, List.length_append] at more ⊢
      refine ⟨by rw [much, more], fun ids => ?_⟩
      obtain ⟨here, later⟩ := List.append_inj ids much
      rw [same here, sames later]

/-- Every node is of a registered kind. -/
theorem Expands.registered {data : NodeSource} {node : Node} (expands : Expands registry source data node) :
    node.Every fun n => ∃ name, registry.get? name = some n.kind := by
  refine @Expands.rec registry source
    (fun _ node _ => node.Every fun n => ∃ name, registry.get? name = some n.kind)
    (fun _ nodes _ => ∀ node ∈ nodes, node.Every fun n => ∃ name, registry.get? name = some n.kind)
    ?kind ?reference ?nil ?skip ?cons data node expands
  case kind =>
    rintro data kind node registered reads - below
    exact .intro ⟨_, reads.kind ▸ registered⟩ below
  case reference =>
    rintro data tree node - - - ih
    exact ih
  case nil => rintro node ⟨⟩
  case skip =>
    rintro child rest nodes - - ih
    exact ih
  case cons =>
    rintro child rest node nodes - - - first others
    exact List.forall_mem_cons.mpr ⟨first, others⟩

end

/-! ### Numbers -/

/-- The nodes have the numbers that were given out between these states, in order. -/
structure Numbered (s : LoadState) (nodes : List Node) (t : LoadState) : Prop where
  ordered : s.nextId ≤ t.nextId
  numbered : idsAll nodes = List.range' s.nextId (t.nextId - s.nextId)

namespace Numbered

variable {s t u : LoadState}

theorem none (s : LoadState) : Numbered s [] s where
  ordered := Nat.le_refl _
  numbered := by rw [Nat.sub_self]; rfl

theorem cons {node : Node} {nodes : List Node} (first : Numbered s [node] t) (rest : Numbered t nodes u) :
    Numbered s (node :: nodes) u where
  ordered := Nat.le_trans first.ordered rest.ordered
  numbered := by
    have joined : idsAll (node :: nodes) = idsAll [node] ++ idsAll nodes := by
      simp only [idsAll, List.flatMap_cons, List.flatMap_nil, List.append_nil]
    have next : t.nextId = s.nextId + (t.nextId - s.nextId) := by have := first.ordered; omega
    have count : t.nextId - s.nextId + (u.nextId - t.nextId) = u.nextId - s.nextId := by
      have := first.ordered
      have := rest.ordered
      omega
    rw [joined, first.numbered, rest.numbered, ← count, ← List.range'_append_1, ← next]

/-- A node that takes the next number before its children are loaded. -/
theorem parent {node : Node} {children : List Node}
    (below : Numbered { s with nextId := s.nextId + 1 } children t) (id : node.id = s.nextId)
    (above : node.children = children) (next : u.nextId = t.nextId) : Numbered s [node] u where
  ordered := by
    have : s.nextId + 1 ≤ t.nextId := below.ordered
    omega
  numbered := by
    have count : u.nextId - s.nextId = t.nextId - (s.nextId + 1) + 1 := by
      have : s.nextId + 1 ≤ t.nextId := below.ordered
      omega
    rw [Node.idsAll_single, Node.ids_eq, id, above, below.numbered, count, List.range'_succ]

end Numbered

/-! ### Loading -/

namespace Loader

variable {loader : Loader} {opened : List String} {data : NodeSource}

theorem loadNode_kind {kind : Kind} (known : loader.registry.get? data.name = some kind) :
    loadNode loader opened data = (do
      let id ← takeId
      let children ← loadChildren loader opened data.children
      loader.assemble kind data id children) := by
  rw [loadNode, known]

/-- A name that neither the registry nor the source knows is missing. -/
theorem loadNode_missing (unknown : loader.registry.get? data.name = none)
    (absent : loader.source.find? data.name = none) :
    loadNode loader opened data = throw (.missingNode data.name) := by
  rw [loadNode, unknown]
  simp only
  split
  · rfl
  · rename_i found
    rw [absent] at found
    cases found

/-- A name of a tree stands for its root, unless the tree is being taken in already. -/
theorem loadNode_tree (unknown : loader.registry.get? data.name = none) {tree : TreeSource}
    (found : loader.source.find? data.name = some tree) :
    loadNode loader opened data = if data.name ∈ opened then throw (.infiniteRecursion data.name)
      else loadNode loader (data.name :: opened) tree.root := by
  rw [loadNode, unknown]
  simp only
  split
  · rename_i absent
    rw [found] at absent
    cases absent
  · rename_i found'
    rw [found] at found'
    cases found'
    rfl

/-- What holds of an action for a node or for children holds of loading them if it holds in each way that loading
goes. A node of a registered kind is put together from its children. A name that is not registered is not found, is
open already, or leads to the root of its tree. -/
theorem load_induct (loader : Loader) {P : List String → NodeSource → LoadM Node → Prop}
    {Q : List String → List NodeSource → LoadM (List Node) → Prop}
    (registered : ∀ opened data kind, loader.registry.get? data.name = some kind →
      Q opened data.children (loadChildren loader opened data.children) →
      P opened data (do
        let id ← takeId
        let children ← loadChildren loader opened data.children
        loader.assemble kind data id children))
    (missing : ∀ opened data, loader.registry.get? data.name = none → loader.source.find? data.name = none →
      P opened data (throw (.missingNode data.name)))
    (again : ∀ opened data tree, loader.registry.get? data.name = none →
      loader.source.find? data.name = some tree → data.name ∈ opened →
      P opened data (throw (.infiniteRecursion data.name)))
    (reference : ∀ opened data tree, loader.registry.get? data.name = none →
      loader.source.find? data.name = some tree → data.name ∉ opened →
      P (data.name :: opened) tree.root (loadNode loader (data.name :: opened) tree.root) →
      P opened data (loadNode loader (data.name :: opened) tree.root))
    (nil : ∀ opened, Q opened [] (pure []))
    (skip : ∀ opened child rest, child.disabled = true → Q opened rest (loadChildren loader opened rest) →
      Q opened (child :: rest) (loadChildren loader opened rest))
    (cons : ∀ opened child rest, child.disabled = false → P opened child (loadNode loader opened child) →
      Q opened rest (loadChildren loader opened rest) →
      Q opened (child :: rest) (do
        let node ← loadNode loader opened child
        let nodes ← loadChildren loader opened rest
        return node :: nodes)) :
    (∀ opened data, P opened data (loadNode loader opened data)) ∧
      ∀ opened children, Q opened children (loadChildren loader opened children) := by
  refine Loader.loadNode.mutual_induct loader (fun opened data => P opened data (loadNode loader opened data))
    (fun opened children => Q opened children (loadChildren loader opened children))
    ?registered ?missing ?again ?reference ?nil ?skip ?cons
  case registered =>
    intro opened data kind known below
    rw [loadNode_kind known]
    exact registered opened data kind known below
  case missing =>
    intro opened data unknown absent
    rw [loadNode_missing unknown absent]
    exact missing opened data unknown absent
  case again =>
    intro opened data unknown tree found inside
    rw [loadNode_tree unknown found, if_pos inside]
    exact again opened data tree unknown found inside
  case reference =>
    intro opened data unknown tree found fresh root
    rw [loadNode_tree unknown found, if_neg fresh]
    exact reference opened data tree unknown found fresh root
  case nil =>
    intro opened
    rw [loadChildren]
    exact nil opened
  case skip =>
    intro opened child rest disabled others
    rw [loadChildren, if_pos disabled]
    exact skip opened child rest disabled others
  case cons =>
    intro opened child rest enabled first others
    rw [loadChildren, if_neg enabled]
    exact cons opened child rest (Bool.eq_false_iff.mpr enabled) first others

theorem run_checked (loader : Loader) (node : Node) (s : LoadState) :
    (loader.checked node).run.run s =
      (match ((loader.check node).run.run s.cache).1 with
        | .ok _ => .ok ()
        | .error error => .error (.init error node.name node.id),
        { s with cache := ((loader.check node).run.run s.cache).2 }) := by
  have opened : (loader.checked node).run.run s =
      ((match ((loader.check node).run.run s.cache).1 with
        | .ok _ => pure ()
        | .error error => throw (.init error node.name node.id) : LoadM Unit)).run.run
          { s with cache := ((loader.check node).run.run s.cache).2 } := rfl
  rw [opened]
  rcases ((loader.check node).run.run s.cache).1 with _ | _ <;> rfl

theorem returns_checked {node : Node} {s t : LoadState} (h : Returns (loader.checked node) s () t) :
    t.nextId = s.nextId ∧ Returns (loader.check node) s.cache () t.cache := by
  rw [Returns, run_checked] at h
  rcases passed : (loader.check node).run.run s.cache with ⟨_ | _, cache⟩ <;> rw [passed] at h <;> cases h
  exact ⟨rfl, passed⟩

/-- What is put together from a source and children, and passes the checks if the loader lets it; a strict
loader may refuse what is not declared. -/
theorem assemble_cases (loader : Loader) (kind : Kind) (data : NodeSource) (id : Nat)
    (children : List Node) :
    ∃ node : Node, (node.Reads kind data ∧ node.id = id ∧ node.children = children) ∧
      ((∃ error, (∀ name, error ≠ .infiniteRecursion name) ∧
          loader.assemble kind data id children = throw error) ∨
        loader.assemble kind data id children = do
          loader.checked node
          return node) := by
  refine ⟨{ id, kind, name := data.name, desc := data.desc, args := data.args
            input := wire data.input, output := wire data.output, children },
    ⟨⟨rfl, rfl, rfl, rfl, rfl, rfl⟩, rfl, rfl⟩, ?_⟩
  unfold assemble
  split
  · split
    · rename_i arg _
      exact .inl ⟨.unknownArg data.name arg, fun _ => LoadError.noConfusion, rfl⟩
    · rename_i slot _
      exact .inl ⟨.slotUnmatch data.name slot, fun _ => LoadError.noConfusion, rfl⟩
    · exact .inr rfl
  · exact .inr rfl

/-- A node that is assembled has the data it was given and passes the check. -/
theorem returns_assemble {kind : Kind} {id : Nat} {children : List Node} {s t : LoadState}
    {node : Node} (h : Returns (loader.assemble kind data id children) s node t) :
    (node.Reads kind data ∧ node.id = id ∧ node.children = children) ∧ t.nextId = s.nextId ∧
      Returns (loader.check node) s.cache () t.cache := by
  obtain ⟨node', parts, ⟨error, -, refused⟩ | passed⟩ := assemble_cases loader kind data id children
  · rw [refused] at h
    cases h
  · rw [passed] at h
    obtain ⟨_, u, checks, rest⟩ := returns_bind h
    obtain ⟨rfl, rfl⟩ := returns_pure rest
    exact ⟨parts, returns_checked checks⟩

/-- What is loaded is what its source stands for, and takes the numbers from the next one on. -/
theorem returns_expands (loader : Loader) :
    (∀ opened data s node t, Returns (loadNode loader opened data) s node t →
      Numbered s [node] t ∧ Expands loader.registry loader.source data node) ∧
    ∀ opened children s nodes t, Returns (loadChildren loader opened children) s nodes t →
      Numbered s nodes t ∧ ExpandsAll loader.registry loader.source children nodes := by
  refine load_induct loader
    (P := fun opened data load => ∀ s node t, Returns load s node t →
      Numbered s [node] t ∧ Expands loader.registry loader.source data node)
    (Q := fun opened children load => ∀ s nodes t, Returns load s nodes t →
      Numbered s nodes t ∧ ExpandsAll loader.registry loader.source children nodes)
    ?registered ?missing ?again ?reference ?nil ?skip ?cons
  case registered =>
    intro opened data kind known ih s node t returned
    obtain ⟨id, u, taken, returned⟩ := returns_bind returned
    obtain ⟨children, v, below, assembled⟩ := returns_bind returned
    obtain ⟨⟨reads, id, rfl⟩, next, -⟩ := returns_assemble assembled
    cases taken
    obtain ⟨numbered, expands⟩ := ih _ node.children v below
    exact ⟨numbered.parent id rfl next, .kind known reads expands⟩
  case missing =>
    intro opened data unknown absent s node t returned
    exact (not_returns_throw returned).elim
  case again =>
    intro opened data tree unknown found inside s node t returned
    exact (not_returns_throw returned).elim
  case reference =>
    intro opened data tree unknown found fresh ih s node t returned
    obtain ⟨numbered, expands⟩ := ih s node t returned
    exact ⟨numbered, .reference unknown found expands⟩
  case nil =>
    intro opened s nodes t returned
    obtain ⟨rfl, rfl⟩ := returns_pure returned
    exact ⟨.none _, .nil⟩
  case skip =>
    intro opened child rest disabled ih s nodes t returned
    obtain ⟨numbered, expands⟩ := ih s nodes t returned
    exact ⟨numbered, .skip disabled expands⟩
  case cons =>
    intro opened child rest enabled ih ihs s nodes t returned
    obtain ⟨node, u, first, returned⟩ := returns_bind returned
    obtain ⟨others, v, later, returned⟩ := returns_bind returned
    obtain ⟨rfl, rfl⟩ := returns_pure returned
    obtain ⟨numbered, expands⟩ := ih s node u first
    obtain ⟨more, all⟩ := ihs u others _ later
    exact ⟨numbered.cons more, .cons enabled expands all⟩

end Loader

namespace Source

variable {source : Source} {check : Node → CheckM Unit} {registry : Registry} {cache : ExprCache}
variable {name : String} {strict : Bool}

/-- A tree is loaded from the first tree of that name, whose root is loaded. -/
theorem returns_load {tree : Tree} (loaded : (source.loadWith check registry cache name strict).1 = .ok tree) :
    ∃ main state, source.find? name = some main ∧ tree.name = main.name ∧ tree.desc = main.desc ∧
      Returns (Loader.loadNode { registry, source, strict, check } [main.name] main.root)
        { nextId := 1, cache } tree.root state ∧
      (source.loadWith check registry cache name strict).2 = state.cache := by
  rcases found : source.find? name with _ | main
  · rw [loadWith, found] at loaded
    cases loaded
  · rcases ran : (Loader.loadNode { registry, source, strict, check } [main.name] main.root).run.run
      { nextId := 1, cache } with ⟨error | root, state⟩
    · simp only [loadWith, found, ran] at loaded
      cases loaded
    · simp only [loadWith, found, ran] at loaded ⊢
      cases loaded
      exact ⟨main, state, rfl, rfl, rfl, ran, rfl⟩

end Source

/-! ### What is loaded -/

/-- The nodes of a tree are numbered from one on, and found by their numbers. -/
structure Tree.Listed (tree : Tree) : Prop where
  ids : tree.nodes.map Node.id = List.range' 1 tree.nodes.length
  found : ∀ i (inside : i < tree.nodes.length), tree.find? (i + 1) = some tree.nodes[i]
  absent : ∀ id, id = 0 ∨ tree.nodes.length < id → tree.find? id = none

/-- Nodes that are numbered in order are found where they stand. -/
theorem Node.find?_of_range {nodes : List Node} {first count : Nat}
    (numbered : nodes.map Node.id = List.range' first count) (i : Nat) :
    nodes.find? (fun node => node.id = first + i) = nodes[i]? := by
  induction nodes generalizing first count i with
  | nil => rfl
  | cons node rest ih =>
    obtain _ | count := count
    · cases numbered
    rw [List.map_cons, List.range'_succ, List.cons.injEq] at numbered
    obtain ⟨here, later⟩ := numbered
    obtain _ | i := i
    · rw [List.find?_cons_of_pos (by simpa using here)]
      rfl
    · rw [List.find?_cons_of_neg (by simp [here]), List.getElem?_cons_succ, ← ih later i]
      congr 2
      funext other
      rw [Nat.add_assoc, Nat.add_comm 1]

/-- Numbers in pre-order from one on list a tree. -/
theorem Tree.Listed.of_range {tree : Tree} {count : Nat} (numbered : tree.root.ids = List.range' 1 count) :
    tree.Listed := by
  have length : tree.nodes.length = count := by
    rw [← List.length_map Node.id, Tree.nodes, ← Node.ids, numbered, List.length_range']
  refine ⟨?_, fun i inside => ?_, fun id outside => List.find?_eq_none.mpr fun node member => ?_⟩
  · rw [length]
    exact numbered
  · rw [← List.getElem?_eq_getElem inside, Nat.add_comm]
    exact Node.find?_of_range numbered i
  · have given : node.id ∈ List.range' 1 count := numbered ▸ List.mem_map_of_mem member
    rw [List.mem_range'_1] at given
    rw [decide_eq_true_eq]
    omega

/-- A tree that is loaded is what the root of the first tree of its name stands for, with the numbers from one
on; no other node is. -/
theorem Source.load_expands {source : Source} {check : Node → CheckM Unit} {registry : Registry}
    {cache : ExprCache} {name : String} {strict : Bool} {tree : Tree}
    (loaded : (source.loadWith check registry cache name strict).1 = .ok tree) :
    ∃ main, source.find? name = some main ∧ tree.name = main.name ∧ tree.desc = main.desc ∧
      Expands registry source main.root tree.root ∧ tree.Listed ∧
      ∀ root, Expands registry source main.root root →
        ({ tree with root } : Tree).Listed → root = tree.root := by
  obtain ⟨main, state, found, named, described, returned, -⟩ := returns_load loaded
  obtain ⟨numbered, expands⟩ := (Loader.returns_expands _).1 _ _ _ _ _ returned
  have ids := numbered.numbered
  rw [Node.idsAll_single] at ids
  have listed : tree.Listed := .of_range ids
  refine ⟨main, found, named, described, expands, listed, fun root other also => ?_⟩
  obtain ⟨much, same⟩ := expands.unique root other
  rw [Node.ids, Node.ids, List.length_map, List.length_map] at much
  refine (same ?_).symm
  exact listed.ids.trans ((congrArg (List.range' 1) much).trans also.ids.symm)

/-- A round that takes the same tree in twice, with something disabled in between. -/
def roundSource : Source :=
  [{ name := "round", desc := "Twice around."
     root :=
      { name := "Sequence"
        children := [{ name := "hush" }, { name := "unknown", disabled := true }, { name := "hush" }] } },
    { name := "hush"
      root := { name := "Sequence", children := [{ name := "Clear", output := ["", "alarm"] }] } },
    { name := "hush", root := { name := "round" } }]

/-- What the tree that is taken in becomes, with these numbers. -/
def hush (id : Nat) : Node :=
  { id, kind := .sequence, name := "Sequence", desc := "", args := [], input := [], output := []
    children :=
      [{ id := id + 1, kind := .clear, name := "Clear", desc := "", args := [], input := []
         output := [none, some "alarm"], children := [] }] }

def round : Tree where
  name := "round"
  desc := "Twice around."
  root :=
    { id := 1, kind := .sequence, name := "Sequence", desc := "", args := [], input := [], output := []
      children := [hush 2, hush 4] }

theorem load_round : roundSource.loadWith Node.check Registry.builtin [] "round" true = (.ok round, []) := by
  cbv

theorem load_expands_round :
    (roundSource.loadWith Node.check Registry.builtin [] "round" true).1 = .ok round ∧
      ∃ main, roundSource.find? "round" = some main ∧ round.name = main.name ∧ round.desc = main.desc ∧
        Expands Registry.builtin roundSource main.root round.root ∧ round.Listed ∧
        ∀ root, Expands Registry.builtin roundSource main.root root →
          ({ round with root } : Tree).Listed → root = round.root :=
  have loaded : (roundSource.loadWith Node.check Registry.builtin [] "round" true).1 = .ok round := by
    rw [load_round]
  ⟨loaded, Source.load_expands loaded⟩

end BehaviorTree
