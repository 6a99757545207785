import BehaviorTree.Proofs.Tree.Acceptance
import Mathlib

/-!
Where the nodes of a loaded tree come from. A line leads from the root of the source to each of them: from a node
to a child that is not disabled, or from a reference to the root of its tree. Disabled children and all below them
may as well not be written. The roots of trees are not looked at in this way: the root of the loaded tree, and
that of a tree that it takes in, becomes a node even if it is disabled.
-/

namespace BehaviorTree

/-! ### Lines -/

mutual

/-- The lines that lead from a node to those that it stands for, in the order in which these are numbered. -/
inductive Lines (registry : Registry) (source : Source) : NodeSource → List (List NodeSource) → Prop
  | kind {data : NodeSource} {kind : Kind} {lines : List (List NodeSource)}
      (registered : registry.get? data.name = some kind) (children : LinesAll registry source data.children lines) :
      Lines registry source data ([data] :: lines.map (data :: ·))
  | reference {data : NodeSource} {tree : TreeSource} {lines : List (List NodeSource)}
      (unregistered : registry.get? data.name = none) (found : source.find? data.name = some tree)
      (root : Lines registry source tree.root lines) : Lines registry source data (lines.map (data :: ·))

/-- The lines from the children that are not disabled, those from the first one first. -/
inductive LinesAll (registry : Registry) (source : Source) : List NodeSource → List (List NodeSource) → Prop
  | nil : LinesAll registry source [] []
  | skip {child : NodeSource} {rest : List NodeSource} {lines : List (List NodeSource)}
      (disabled : child.disabled = true) (others : LinesAll registry source rest lines) :
      LinesAll registry source (child :: rest) lines
  | cons {child : NodeSource} {rest : List NodeSource} {lines more : List (List NodeSource)}
      (enabled : child.disabled = false) (first : Lines registry source child lines)
      (others : LinesAll registry source rest more) : LinesAll registry source (child :: rest) (lines ++ more)

end

/-- The line ends with the source of the node. -/
def EndsIn (registry : Registry) (line : List NodeSource) (node : Node) : Prop :=
  ∃ data kind, line.getLast? = some data ∧ registry.get? data.name = some kind ∧ node.Reads kind data

/-- The one source comes right before the other one in a line. -/
inductive Precedes (registry : Registry) (source : Source) : NodeSource → NodeSource → Prop
  | child {data child : NodeSource} {kind : Kind} (registered : registry.get? data.name = some kind)
      (member : child ∈ data.children) (enabled : child.disabled = false) : Precedes registry source data child
  | root {data : NodeSource} {tree : TreeSource} (unregistered : registry.get? data.name = none)
      (found : source.find? data.name = some tree) : Precedes registry source data tree.root

section

variable {registry : Registry} {source : Source}

theorem EndsIn.cons {line : List NodeSource} {node : Node} (ends : EndsIn registry line node) (data : NodeSource) :
    EndsIn registry (data :: line) node := by
  obtain ⟨last, kind, is_last, registered, reads⟩ := ends
  refine ⟨last, kind, ?_, registered, reads⟩
  rw [List.getLast?_cons, is_last]
  rfl

/-- What a source stands for has a line to each of its nodes. -/
theorem Expands.lines {data : NodeSource} {node : Node} (expands : Expands registry source data node) :
    ∃ lines, Lines registry source data lines ∧ List.Forall₂ (EndsIn registry) lines node.preorder := by
  refine @Expands.rec registry source
    (fun data node _ => ∃ lines, Lines registry source data lines ∧
      List.Forall₂ (EndsIn registry) lines node.preorder)
    (fun children nodes _ => ∃ lines, LinesAll registry source children lines ∧
      List.Forall₂ (EndsIn registry) lines (nodes.flatMap Node.preorder))
    ?kind ?reference ?nil ?skip ?cons data node expands
  case kind =>
    rintro data kind node registered reads - ⟨lines, children, ends⟩
    refine ⟨_, .kind registered children, ?_⟩
    rw [Node.preorder_eq]
    refine .cons ⟨data, kind, rfl, registered, reads⟩ ?_
    rw [List.forall₂_map_left_iff]
    exact ends.imp fun _ _ ends => ends.cons data
  case reference =>
    rintro data tree node unregistered found - ⟨lines, root, ends⟩
    refine ⟨_, .reference unregistered found root, ?_⟩
    rw [List.forall₂_map_left_iff]
    exact ends.imp fun _ _ ends => ends.cons data
  case nil => exact ⟨[], .nil, .nil⟩
  case skip =>
    rintro child rest nodes disabled - ⟨lines, others, ends⟩
    exact ⟨lines, .skip disabled others, ends⟩
  case cons =>
    rintro child rest node nodes enabled - - ⟨lines, first, ends⟩ ⟨more, others, ends'⟩
    refine ⟨lines ++ more, .cons enabled first others, ?_⟩
    rw [List.flatMap_cons]
    exact List.rel_append ends ends'

/-- Every line goes from its start one step at a time. -/
theorem Lines.stepwise {data : NodeSource} {lines : List (List NodeSource)} (h : Lines registry source data lines) :
    ∀ line ∈ lines, ∃ rest, line = data :: rest ∧ line.IsChain (Precedes registry source) := by
  refine @Lines.rec registry source
    (fun data lines _ => ∀ line ∈ lines, ∃ rest, line = data :: rest ∧ line.IsChain (Precedes registry source))
    (fun children lines _ => ∀ line ∈ lines, ∃ child ∈ children, child.disabled = false ∧
      ∃ rest, line = child :: rest ∧ line.IsChain (Precedes registry source))
    ?kind ?reference ?nil ?skip ?cons data lines h
  case kind =>
    rintro data kind lines registered - ih line member
    obtain rfl | member := List.mem_cons.mp member
    · exact ⟨[], rfl, .singleton data⟩
    · obtain ⟨below, inside, rfl⟩ := List.mem_map.mp member
      obtain ⟨child, among, enabled, rest, rfl, chain⟩ := ih below inside
      exact ⟨_, rfl, .cons_cons (.child registered among enabled) chain⟩
  case reference =>
    rintro data tree lines unregistered found - ih line member
    obtain ⟨below, inside, rfl⟩ := List.mem_map.mp member
    obtain ⟨rest, rfl, chain⟩ := ih below inside
    exact ⟨_, rfl, .cons_cons (.root unregistered found) chain⟩
  case nil => rintro line ⟨⟩
  case skip =>
    rintro child rest lines - - ih line member
    obtain ⟨other, inside, others⟩ := ih line member
    exact ⟨other, List.mem_cons_of_mem _ inside, others⟩
  case cons =>
    rintro child rest lines more enabled - - ih ihs line member
    obtain member | member := List.mem_append.mp member
    · exact ⟨child, List.mem_cons_self, enabled, ih line member⟩
    · obtain ⟨other, inside, others⟩ := ihs line member
      exact ⟨other, List.mem_cons_of_mem _ inside, others⟩

/-- Every source in a line after the first one comes right after another one. -/
theorem exists_precedes {start : NodeSource} {rest : List NodeSource}
    (chain : (start :: rest).IsChain (Precedes registry source)) :
    ∀ data ∈ rest, ∃ before ∈ start :: rest, Precedes registry source before data := by
  induction rest generalizing start with
  | nil => rintro data ⟨⟩
  | cons next others ih =>
    rw [List.isChain_cons_cons] at chain
    intro data member
    obtain rfl | member := List.mem_cons.mp member
    · exact ⟨start, List.mem_cons_self, chain.1⟩
    · obtain ⟨before, inside, precedes⟩ := ih chain.2 data member
      exact ⟨before, List.mem_cons_of_mem _ inside, precedes⟩

theorem Precedes.reaches {before data : NodeSource} (precedes : Precedes registry source before data) :
    Reaches registry source before data := by
  cases precedes with
  | child registered member enabled => exact .child registered member enabled (.self data)
  | root unregistered found => exact .tree unregistered found (.self _)

/-- Expanding the start of a line comes to all that is in it. -/
theorem reaches_of_chain {start : NodeSource} {rest : List NodeSource}
    (chain : (start :: rest).IsChain (Precedes registry source)) :
    ∀ data ∈ start :: rest, Reaches registry source start data := by
  induction rest generalizing start with
  | nil =>
    intro data member
    rw [List.mem_singleton.mp member]
    exact .self start
  | cons next others ih =>
    rw [List.isChain_cons_cons] at chain
    intro data member
    obtain rfl | member := List.mem_cons.mp member
    · exact .self data
    · exact chain.1.reaches.trans (ih chain.2 data member)

theorem Lines.ne_nil {data : NodeSource} {lines : List (List NodeSource)} (h : Lines registry source data lines) :
    lines ≠ [] := by
  refine @Lines.rec registry source (fun _ lines _ => lines ≠ []) (fun _ _ _ => True) ?kind ?reference ?nil ?skip ?cons
    data lines h
  case kind => exact fun _ _ _ => List.cons_ne_nil _ _
  case reference => exact fun _ _ _ ih => by simpa using ih
  case nil => trivial
  case skip => exact fun _ _ _ => trivial
  case cons => exact fun _ _ _ _ _ => trivial

/-- The lines from several nodes are those from each of them that is not disabled. -/
theorem LinesAll.part {children : List NodeSource} {lines : List (List NodeSource)}
    (h : LinesAll registry source children lines) {child : NodeSource} (member : child ∈ children)
    (enabled : child.disabled = false) : ∃ part, Lines registry source child part ∧ part ⊆ lines := by
  induction children generalizing lines with
  | nil => cases member
  | cons first rest ih =>
    cases h with
    | skip disabled others =>
      obtain rfl | member := List.mem_cons.mp member
      · rw [disabled] at enabled; cases enabled
      · exact ih others member
    | cons _ here others =>
      obtain rfl | member := List.mem_cons.mp member
      · exact ⟨_, here, List.subset_append_left _ _⟩
      · obtain ⟨part, lines, inside⟩ := ih others member
        exact ⟨part, lines, List.subset_append_of_subset_right _ inside⟩

/-- Whatever the expansion comes to is in one of the lines. -/
theorem Reaches.mem_line {data met : NodeSource} (reaches : Reaches registry source data met)
    {lines : List (List NodeSource)} (h : Lines registry source data lines) : ∃ line ∈ lines, met ∈ line := by
  induction reaches generalizing lines with
  | self data =>
    obtain ⟨line, member⟩ := List.exists_mem_of_ne_nil lines h.ne_nil
    obtain ⟨rest, rfl, -⟩ := h.stepwise line member
    exact ⟨_, member, List.mem_cons_self⟩
  | child registered member enabled _ ih =>
    cases h with
    | kind _ children =>
      obtain ⟨part, below, inside⟩ := children.part member enabled
      obtain ⟨line, there, found⟩ := ih below
      exact ⟨_, List.mem_cons_of_mem _ (List.mem_map_of_mem (inside there)), List.mem_cons_of_mem _ found⟩
    | reference unregistered => rw [registered] at unregistered; cases unregistered
  | tree unregistered found _ ih =>
    cases h with
    | kind registered => rw [unregistered] at registered; cases registered
    | reference _ found' root =>
      rw [found, Option.some.injEq] at found'
      obtain ⟨line, there, member⟩ := ih (found' ▸ root)
      exact ⟨_, List.mem_map_of_mem there, List.mem_cons_of_mem _ member⟩

end

/-! ### Leaving out what is disabled -/

mutual

/-- The node without the disabled ones below it, itself not disabled. -/
def NodeSource.pruned : NodeSource → NodeSource
  | ⟨id, name, desc, args, input, output, children, _⟩ =>
    ⟨id, name, desc, args, input, output, prunedAll children, false⟩

/-- The nodes of a list that are not disabled, each pruned. -/
def NodeSource.prunedAll : List NodeSource → List NodeSource
  | [] => []
  | child :: rest => if child.disabled then prunedAll rest else pruned child :: prunedAll rest

end

/-- A tree without the disabled nodes below its root. -/
def TreeSource.pruned (tree : TreeSource) : TreeSource := { tree with root := tree.root.pruned }

/-- A source without the disabled nodes below its roots. -/
def Source.pruned (source : Source) : Source := source.map TreeSource.pruned

@[simp] theorem NodeSource.pruned_name (data : NodeSource) : data.pruned.name = data.name := by
  cases data; rfl

@[simp] theorem NodeSource.pruned_children (data : NodeSource) : data.pruned.children = prunedAll data.children := by
  cases data; rfl

theorem Source.find?_pruned (source : Source) (name : String) :
    source.pruned.find? name = (source.find? name).map TreeSource.pruned := by
  rw [Source.find?, Source.pruned, List.find?_map]
  rfl

namespace Loader

/-- The loader for the source without what is disabled. -/
def pruned (loader : Loader) : Loader := { loader with source := loader.source.pruned }

theorem assemble_pruned (loader : Loader) (kind : Kind) (data : NodeSource) (id : Nat) (children : List Node) :
    loader.pruned.assemble kind data.pruned id children = loader.assemble kind data id children := by
  cases data; rfl

/-- A reference leads to the same tree, without what is disabled in it. -/
theorem find?_pruned_name (loader : Loader) (data : NodeSource) :
    loader.pruned.source.find? data.pruned.name = (loader.source.find? data.name).map TreeSource.pruned := by
  rw [data.pruned_name]
  exact Source.find?_pruned loader.source data.name

/-- The loader does the same without the disabled nodes. -/
theorem load_pruned (loader : Loader) :
    (∀ opened data, loadNode loader.pruned opened data.pruned = loadNode loader opened data) ∧
    ∀ opened children, loadChildren loader.pruned opened (NodeSource.prunedAll children) =
      loadChildren loader opened children := by
  refine load_induct loader
    (P := fun opened data load => loadNode loader.pruned opened data.pruned = load)
    (Q := fun opened children load => loadChildren loader.pruned opened (NodeSource.prunedAll children) = load)
    ?registered ?missing ?again ?reference ?nil ?skip ?cons
  case registered =>
    intro opened data kind known ih
    have known' : loader.pruned.registry.get? data.pruned.name = some kind := data.pruned_name ▸ known
    rw [loadNode_kind known']
    simp only [NodeSource.pruned_children, ih, assemble_pruned]
  case missing =>
    intro opened data unknown absent
    have absent' : loader.pruned.source.find? data.pruned.name = none := by
      rw [find?_pruned_name, absent, Option.map_none]
    rw [loadNode_missing (data.pruned_name ▸ unknown) absent', data.pruned_name]
  case again =>
    intro opened data tree unknown found inside
    have found' : loader.pruned.source.find? data.pruned.name = some tree.pruned := by
      rw [find?_pruned_name, found, Option.map_some]
    rw [loadNode_tree (data.pruned_name ▸ unknown) found', data.pruned_name, if_pos inside]
  case reference =>
    intro opened data tree unknown found fresh ih
    have found' : loader.pruned.source.find? data.pruned.name = some tree.pruned := by
      rw [find?_pruned_name, found, Option.map_some]
    rw [loadNode_tree (data.pruned_name ▸ unknown) found', data.pruned_name, if_neg fresh]
    exact ih
  case nil =>
    intro opened
    rw [NodeSource.prunedAll, loadChildren]
  case skip =>
    intro opened child rest disabled ih
    rw [NodeSource.prunedAll, if_pos disabled, ih]
  case cons =>
    intro opened child rest enabled ih ihs
    have awake : child.pruned.disabled = false := by cases child; rfl
    rw [NodeSource.prunedAll, if_neg (Bool.eq_false_iff.mp enabled), loadChildren,
      if_neg (Bool.eq_false_iff.mp awake), ih, ihs]

end Loader

namespace Source

/-- A source loads the same without its disabled nodes. -/
theorem loadWith_pruned (source : Source) (check : Node → CheckM Unit) (registry : Registry) (cache : ExprCache)
    (name : String) (strict : Bool) :
    source.pruned.loadWith check registry cache name strict = source.loadWith check registry cache name strict := by
  rw [loadWith, loadWith, find?_pruned]
  rcases source.find? name with _ | main
  · rfl
  · have same := (Loader.load_pruned { registry, source, strict, check }).1 [main.name] main.root
    simp only [Option.map_some]
    rw [show Loader.loadNode { registry, source := source.pruned, strict, check } [main.pruned.name] main.pruned.root =
      Loader.loadNode { registry, source, strict, check } [main.name] main.root from same]
    rfl

/-- The first tree of that name, or one that it takes in. -/
def Opens (registry : Registry) (source : Source) (main tree : TreeSource) : Prop :=
  tree = main ∨ ∃ other, TakesIn registry source main.root other ∧ source.find? other = some tree

variable {source : Source} {registry : Registry} {main : TreeSource} {lines : List (List NodeSource)}

/-- A disabled source is in a line as a root only. -/
theorem root_of_disabled (h : Lines registry source main.root lines) {line : List NodeSource} (there : line ∈ lines)
    {data : NodeSource} (member : data ∈ line) (disabled : data.disabled = true) :
    ∃ tree, Opens registry source main tree ∧ data = tree.root := by
  obtain ⟨rest, rfl, chain⟩ := h.stepwise line there
  obtain rfl | later := List.mem_cons.mp member
  · exact ⟨main, .inl rfl, rfl⟩
  · obtain ⟨before, inside, precedes⟩ := exists_precedes chain data later
    cases precedes with
    | child _ _ enabled => rw [disabled] at enabled; cases enabled
    | root unregistered found =>
      exact ⟨_, .inr ⟨_, ⟨before, reaches_of_chain chain before inside, unregistered, rfl⟩, found⟩, rfl⟩

/-- The root of every tree that is opened is in a line. -/
theorem root_mem_line (h : Lines registry source main.root lines) {tree : TreeSource}
    (opens : Opens registry source main tree) : ∃ line ∈ lines, tree.root ∈ line := by
  obtain rfl | ⟨_, ⟨met, reaches, unregistered, rfl⟩, found⟩ := opens
  · exact (Reaches.self tree.root).mem_line h
  · exact (reaches.trans (.tree unregistered found (.self _))).mem_line h

/-- Disabled children and all below them may as well not be written. The nodes of a loaded tree come from sources
that are not disabled, and that nothing disabled leads to, but for roots: if the root of the tree, or of one that
it takes in, is disabled, then nodes come from it, and only then. -/
theorem load_disabled (source : Source) (check : Node → CheckM Unit) (registry : Registry) (cache : ExprCache)
    (name : String) (strict : Bool) :
    source.pruned.loadWith check registry cache name strict = source.loadWith check registry cache name strict ∧
    ∀ tree, (source.loadWith check registry cache name strict).1 = .ok tree →
      ∃ main lines, source.find? name = some main ∧ Lines registry source main.root lines ∧
        List.Forall₂ (EndsIn registry) lines tree.nodes ∧
        (∀ line ∈ lines, ∀ data ∈ line, data.disabled = true →
          ∃ tree', Opens registry source main tree' ∧ data = tree'.root) ∧
        ((∀ line ∈ lines, ∀ data ∈ line, data.disabled = false) ↔
          ∀ tree', Opens registry source main tree' → tree'.root.disabled = false) := by
  refine ⟨loadWith_pruned source check registry cache name strict, fun tree loaded => ?_⟩
  obtain ⟨main, state, found, -, -, returned, -⟩ := returns_load loaded
  obtain ⟨lines, h, ends⟩ := ((Loader.returns_expands _).1 _ _ _ _ _ returned).2.lines
  refine ⟨main, lines, found, h, ends, fun line there data member => root_of_disabled h there member, ?_⟩
  constructor
  · intro enabled tree' opens
    obtain ⟨line, there, member⟩ := root_mem_line h opens
    exact enabled line there _ member
  · intro roots line there data member
    by_contra disabled
    obtain ⟨tree', opens, rfl⟩ := root_of_disabled h there member (Bool.not_eq_false _ ▸ disabled)
    exact disabled (roots tree' opens)

end Source

/-! ### Dawn -/

/-- Forgets the dreams, the alarm being out of order; the tree that does so is disabled as a whole. -/
def dawnSource : Source :=
  [{ name := "dawn"
     root :=
      { name := "Sequence"
        children := [{ name := "forget" }, { name := "Clear", output := ["alarm"], disabled := true }] } },
    { name := "forget", root := { name := "Clear", output := ["dreams"], disabled := true } }]

def dawn : Tree where
  name := "dawn"
  desc := ""
  root :=
    { id := 1, kind := .sequence, name := "Sequence", desc := "", args := [], input := [], output := []
      children :=
        [{ id := 2, kind := .clear, name := "Clear", desc := "", args := [], input := [], output := [some "dreams"]
           children := [] }] }

theorem load_dawn : dawnSource.loadWith Node.check Registry.builtin [] "dawn" true = (.ok dawn, []) := by
  cbv

/-- The disabled root that is taken in becomes a node, the disabled child does not. -/
theorem Source.load_disabled_dawn :
    (dawnSource.loadWith Node.check Registry.builtin [] "dawn" true).1 = .ok dawn ∧
      ∃ main lines, dawnSource.find? "dawn" = some main ∧ Lines Registry.builtin dawnSource main.root lines ∧
        List.Forall₂ (EndsIn Registry.builtin) lines dawn.nodes ∧
        ∃ line ∈ lines, ∃ data ∈ line, data.disabled = true := by
  have loaded : (dawnSource.loadWith Node.check Registry.builtin [] "dawn" true).1 = .ok dawn := by rw [load_dawn]
  obtain ⟨main, lines, found, h, ends, -, all⟩ :=
    (load_disabled dawnSource Node.check Registry.builtin [] "dawn" true).2 dawn loaded
  refine ⟨loaded, main, lines, found, h, ends, ?_⟩
  cases found
  have opens : Opens Registry.builtin dawnSource dawnSource[0] dawnSource[1] :=
    .inr ⟨"forget", ⟨_, .child (by rfl) List.mem_cons_self rfl (.self _), by rfl, rfl⟩, rfl⟩
  by_contra none
  have enabled := all.mp (fun line there data member => by
    by_contra disabled
    exact none ⟨line, there, data, member, Bool.not_eq_false _ ▸ disabled⟩) _ opens
  cases enabled

end BehaviorTree
