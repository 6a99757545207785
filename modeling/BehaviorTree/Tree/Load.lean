import BehaviorTree.Registry
import BehaviorTree.Tree.Check

/-!
Loading a tree from a source. A node whose name is registered becomes a node of that kind; any
other name refers to a tree of the source, whose root takes the node's place. Nodes are numbered
as they are met, a node before its children. A tree that would take its own place is refused, so
loading ends: going into a tree uses up its name, going into a child shortens the source.
-/

namespace BehaviorTree

/-- Why a tree cannot be loaded. -/
inductive LoadError where
  | missingTree (name : String)
  | missingNode (node : String)
  | infiniteRecursion (node : String)
  | init (error : InitError) (node : String) (id : Nat)
  | unknownArg (node arg : String)
  | slotUnmatch (node slot : String)
deriving DecidableEq, Repr

def LoadError.message : LoadError → String
  | .missingTree name => "The tree " ++ Text.quoted name ++ " does not exist"
  | .missingNode node => "Node type or subtree name not found " ++ Text.quoted node
  | .infiniteRecursion node => "Subtree " ++ Text.quoted node ++ " includes itself"
  | .init error node id => error.message ++ " (node " ++ node ++ " #" ++ toString id ++ ")"
  | .unknownArg node arg => "Node " ++ node ++ " does not declare argument " ++ Text.quoted arg
  | .slotUnmatch node slot => "Node " ++ node ++ " does not declare slot " ++ Text.quoted slot

/-- What loading carries along: the number of the next node and the expressions read. -/
structure LoadState where
  nextId : Nat
  cache : ExprCache

/-- Loading counts the nodes and fills the cache, also when it fails. -/
abbrev LoadM := ExceptT LoadError (StateM LoadState)

/-- What loading is given. -/
structure Loader where
  registry : Registry
  source : Source
  strict : Bool
  /-- What is asked of a node once it is put together. -/
  check : Node → CheckM Unit := Node.check

namespace Loader

/-- The number of the next node, which is used up. -/
def takeId : LoadM Nat := do
  let state ← get
  set { state with nextId := state.nextId + 1 }
  return state.nextId

/-- An empty variable name leaves a slot unwired. -/
def wire (vars : List String) : List (Option String) :=
  vars.map fun var => if var = "" then none else some var

/-- Runs the checks of a node. -/
def checked (loader : Loader) (node : Node) : LoadM Unit := do
  let state ← get
  let (result, cache) := (loader.check node).run.run state.cache
  set { state with cache }
  match result with
  | .ok _ => pure ()
  | .error error => throw (.init error node.name node.id)

/-- The node for its source, once its children are loaded. -/
def assemble (loader : Loader) (kind : Kind) (data : NodeSource) (id : Nat)
    (children : List Node) : LoadM Node := do
  let node : Node :=
    { id, kind, name := data.name, desc := data.desc, args := data.args
      input := wire data.input, output := wire data.output, children }
  if loader.strict then
    match data.undeclared? kind.declaration with
    | some (.arg name) => throw (.unknownArg data.name name)
    | some (.variable name) => throw (.slotUnmatch data.name name)
    | none => pure ()
  loader.checked node
  return node

/-- Trees of the source that are not being expanded. -/
def unopened (source : Source) (opened : List String) : Nat :=
  (source.filter fun tree => tree.name ∉ opened).length

theorem filter_notMem_cons (source : Source) (opened : List String) (name : String) :
    (source.filter fun tree => tree.name ∉ name :: opened) =
      (source.filter fun tree => tree.name ∉ opened).filter fun tree => tree.name ≠ name := by
  simp only [List.filter_filter]
  congr 1
  funext tree
  simp

/-- Opening a tree leaves fewer to be opened. -/
theorem unopened_lt {source : Source} {opened : List String} {name : String} {tree : TreeSource}
    (found : source.find? name = some tree) (fresh : name ∉ opened) :
    unopened source (name :: opened) < unopened source opened := by
  have named : tree.name = name := by simpa using List.find?_some found
  have member : tree ∈ source := List.mem_of_find?_eq_some found
  unfold unopened
  rw [filter_notMem_cons]
  apply List.length_filter_lt_length_iff_exists.2
  exact ⟨tree, List.mem_filter.2 ⟨member, by simpa [named] using fresh⟩, by simp [named]⟩

end Loader

namespace NodeSource

theorem size_pos (n : NodeSource) : 0 < n.size := by cases n; simp [size]

theorem sizeAll_children_lt (n : NodeSource) : sizeAll n.children < n.size := by
  cases n; simp [size]

end NodeSource

namespace Loader

mutual

/-- Loads a node, given the names of the trees that it is being expanded in. -/
def loadNode (loader : Loader) (opened : List String) (data : NodeSource) : LoadM Node :=
  match loader.registry.get? data.name with
  | some kind => do
    let id ← takeId
    let children ← loadChildren loader opened data.children
    loader.assemble kind data id children
  | none =>
    match _found : loader.source.find? data.name with
    | none => throw (.missingNode data.name)
    | some tree =>
      if _fresh : data.name ∈ opened then throw (.infiniteRecursion data.name)
      else loadNode loader (data.name :: opened) tree.root
termination_by (unopened loader.source opened, data.size, 0)
decreasing_by
  · exact Prod.Lex.right _ (Prod.Lex.left _ _ (NodeSource.sizeAll_children_lt data))
  · exact Prod.Lex.left _ _ (unopened_lt _found _fresh)

/-- Loads the children that are not disabled. -/
def loadChildren (loader : Loader) (opened : List String) (children : List NodeSource) :
    LoadM (List Node) :=
  match children with
  | [] => return []
  | child :: rest =>
    if child.disabled then loadChildren loader opened rest
    else do
      let node ← loadNode loader opened child
      return node :: (← loadChildren loader opened rest)
termination_by (unopened loader.source opened, NodeSource.sizeAll children, 1)
decreasing_by
  · apply Prod.Lex.right; apply Prod.Lex.left
    have := NodeSource.size_pos child
    simp only [NodeSource.sizeAll]; omega
  · apply Prod.Lex.right
    by_cases alone : NodeSource.sizeAll rest = 0
    · have same : NodeSource.sizeAll (child :: rest) = child.size := by
        simp only [NodeSource.sizeAll]; omega
      rw [same]; apply Prod.Lex.right; omega
    · apply Prod.Lex.left; simp only [NodeSource.sizeAll]; omega
  · apply Prod.Lex.right; apply Prod.Lex.left
    have := NodeSource.size_pos child
    simp only [NodeSource.sizeAll]; omega

end

end Loader

namespace Source

/-- Loads the tree of that name, with these checks of its nodes. The cache holds what was read even
if loading fails. -/
def loadWith (source : Source) (check : Node → CheckM Unit) (registry : Registry) (cache : ExprCache)
    (name : String) (strict : Bool) : Except LoadError Tree × ExprCache :=
  match source.find? name with
  | none => (.error (.missingTree name), cache)
  | some main =>
    let loader : Loader := { registry, source, strict, check }
    let (result, state) := (loader.loadNode [main.name] main.root).run.run { nextId := 1, cache }
    (result.map fun root => { name := main.name, desc := main.desc, root }, state.cache)

/-- Loads the tree of that name, whose nodes are checked as their kinds ask. -/
def load (source : Source) (registry : Registry) (cache : ExprCache) (name : String) (strict : Bool) :
    Except LoadError Tree × ExprCache :=
  source.loadWith Node.check registry cache name strict

end Source

end BehaviorTree
