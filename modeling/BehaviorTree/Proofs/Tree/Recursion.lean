import BehaviorTree.Proofs.Tree.Expansion
import Mathlib

/-!
Trees that take one another in. Loading follows the references of a tree into the trees that they name, and
ends all the same: calls are within one another no deeper than the source has nodes written in it. It reports
a recursion exactly where there is one. A name that it reports lies on a circle of references that the loaded
tree leads to, and a tree that leads to such a circle is never loaded; trees that are merely taken in more than
once are not in the way.
-/

namespace BehaviorTree

open Relation (ReflTransGen TransGen)

/-! ### References -/

/-- A node that is met in loading another one without going into other trees: that node itself, or one that is
met in a child, unless that is disabled. -/
inductive Meets (registry : Registry) : NodeSource → NodeSource → Prop
  | self (data : NodeSource) : Meets registry data data
  | child {data child met : NodeSource} {kind : Kind} (registered : registry.get? data.name = some kind)
      (member : child ∈ data.children) (enabled : child.disabled = false) (inside : Meets registry child met) :
      Meets registry data met

/-- A node that is not of a registered kind is met, so that its name refers to a tree. -/
def Names (registry : Registry) (data : NodeSource) (name : String) : Prop :=
  ∃ met, Meets registry data met ∧ registry.get? met.name = none ∧ met.name = name

/-- The first tree of the one name refers to the other one. -/
def Refers (registry : Registry) (source : Source) (a b : String) : Prop :=
  ∃ tree, source.find? a = some tree ∧ Names registry tree.root b

/-- The tree of the one name leads to the other name, which leads to itself again. -/
structure Circular (registry : Registry) (source : Source) (start name : String) : Prop where
  reached : ReflTransGen (Refers registry source) start name
  circle : TransGen (Refers registry source) name name

section

variable {registry : Registry} {source : Source} {data : NodeSource} {name : String}

theorem Names.self (unregistered : registry.get? data.name = none) : Names registry data data.name :=
  ⟨data, .self data, unregistered, rfl⟩

theorem Names.child {child : NodeSource} {kind : Kind} (registered : registry.get? data.name = some kind)
    (member : child ∈ data.children) (enabled : child.disabled = false) (names : Names registry child name) :
    Names registry data name := by
  obtain ⟨met, meets, rest⟩ := names
  exact ⟨met, .child registered member enabled meets, rest⟩

/-- A reference names itself only. -/
theorem Names.eq_self (names : Names registry data name) (unregistered : registry.get? data.name = none) :
    name = data.name := by
  obtain ⟨met, meets, -, rfl⟩ := names
  cases meets with
  | self => rfl
  | child registered => rw [unregistered] at registered; cases registered

/-- A node of a registered kind names what its children name. -/
theorem Names.of_registered {kind : Kind} (names : Names registry data name)
    (registered : registry.get? data.name = some kind) :
    ∃ child ∈ data.children, child.disabled = false ∧ Names registry child name := by
  obtain ⟨met, meets, unregistered, named⟩ := names
  cases meets with
  | self => rw [unregistered] at registered; cases registered
  | child _ member enabled inside => exact ⟨_, member, enabled, met, inside, unregistered, named⟩

end

/-! ### What is reported -/

namespace Loader

variable {loader : Loader} {opened : List String}

/-- Assembling a node never finds a recursion. -/
theorem not_raises_assemble {kind : Kind} {data : NodeSource} {id : Nat} {children : List Node} {s : LoadState}
    {name : String} : ¬ Raises (loader.assemble kind data id children) s (.infiniteRecursion name) := by
  intro raised
  obtain ⟨node, -, ⟨error, other, refused⟩ | passed⟩ := assemble_cases loader kind data id children
  · rw [refused] at raised
    exact other name (Except.error.inj raised)
  · rw [passed] at raised
    obtain checks | ⟨_, _, -, never⟩ := raises_bind raised
    · rw [Raises, run_checked] at checks
      split at checks <;> cases checks
    · cases never

/-- A recursion is reported for a name that is led to from here, and that is open or leads to itself. -/
theorem raises_recursion (loader : Loader) :
    (∀ opened data s name, Raises (loadNode loader opened data) s (.infiniteRecursion name) →
      ∃ first, Names loader.registry data first ∧ ReflTransGen (Refers loader.registry loader.source) first name ∧
        (name ∈ opened ∨ TransGen (Refers loader.registry loader.source) name name)) ∧
    ∀ opened children s name, Raises (loadChildren loader opened children) s (.infiniteRecursion name) →
      ∃ child ∈ children, child.disabled = false ∧ ∃ first, Names loader.registry child first ∧
        ReflTransGen (Refers loader.registry loader.source) first name ∧
        (name ∈ opened ∨ TransGen (Refers loader.registry loader.source) name name) := by
  refine load_induct loader
    (P := fun opened data load => ∀ s name, Raises load s (.infiniteRecursion name) →
      ∃ first, Names loader.registry data first ∧ ReflTransGen (Refers loader.registry loader.source) first name ∧
        (name ∈ opened ∨ TransGen (Refers loader.registry loader.source) name name))
    (Q := fun opened children load => ∀ s name, Raises load s (.infiniteRecursion name) →
      ∃ child ∈ children, child.disabled = false ∧ ∃ first, Names loader.registry child first ∧
        ReflTransGen (Refers loader.registry loader.source) first name ∧
        (name ∈ opened ∨ TransGen (Refers loader.registry loader.source) name name))
    ?registered ?missing ?again ?reference ?nil ?skip ?cons
  case registered =>
    intro opened data kind known ih s name raised
    obtain never | ⟨id, u, -, raised⟩ := raises_bind raised
    · cases never
    obtain below | ⟨children, v, -, raised⟩ := raises_bind raised
    · obtain ⟨child, member, enabled, first, names, rest⟩ := ih u name below
      exact ⟨first, names.child known member enabled, rest⟩
    · exact (not_raises_assemble raised).elim
  case missing =>
    intro opened data unknown absent s name raised
    cases raised
  case again =>
    intro opened data tree unknown found inside s name raised
    cases raised
    exact ⟨data.name, .self unknown, .refl, .inl inside⟩
  case reference =>
    intro opened data tree unknown found fresh ih s name raised
    obtain ⟨first, names, leads, again⟩ := ih s name raised
    have onward : TransGen (Refers loader.registry loader.source) data.name name :=
      .head' ⟨tree, found, names⟩ leads
    refine ⟨data.name, .self unknown, onward.to_reflTransGen, ?_⟩
    -- The name just opened is led to from itself; another open one was open before.
    obtain within | circle := again
    · obtain rfl | within := List.mem_cons.mp within
      · exact .inr onward
      · exact .inl within
    · exact .inr circle
  case nil =>
    intro opened s name raised
    cases raised
  case skip =>
    intro opened child rest disabled ih s name raised
    obtain ⟨other, member, others⟩ := ih s name raised
    exact ⟨other, List.mem_cons_of_mem _ member, others⟩
  case cons =>
    intro opened child rest enabled ih ihs s name raised
    obtain here | ⟨node, u, -, raised⟩ := raises_bind raised
    · exact ⟨child, List.mem_cons_self, enabled, ih s name here⟩
    obtain later | ⟨others, v, -, never⟩ := raises_bind raised
    · obtain ⟨other, member, others⟩ := ihs u name later
      exact ⟨other, List.mem_cons_of_mem _ member, others⟩
    · cases never

/-- What is loaded leads to nothing that is open, and to nothing that leads to itself. -/
theorem returns_acyclic (loader : Loader) :
    (∀ opened data s node t, Returns (loadNode loader opened data) s node t →
      ∀ first name, Names loader.registry data first →
        ReflTransGen (Refers loader.registry loader.source) first name →
        name ∉ opened ∧ ¬ TransGen (Refers loader.registry loader.source) name name) ∧
    ∀ opened children s nodes t, Returns (loadChildren loader opened children) s nodes t →
      ∀ child ∈ children, child.disabled = false → ∀ first name, Names loader.registry child first →
        ReflTransGen (Refers loader.registry loader.source) first name →
        name ∉ opened ∧ ¬ TransGen (Refers loader.registry loader.source) name name := by
  refine load_induct loader
    (P := fun opened data load => ∀ s node t, Returns load s node t →
      ∀ first name, Names loader.registry data first →
        ReflTransGen (Refers loader.registry loader.source) first name →
        name ∉ opened ∧ ¬ TransGen (Refers loader.registry loader.source) name name)
    (Q := fun opened children load => ∀ s nodes t, Returns load s nodes t →
      ∀ child ∈ children, child.disabled = false → ∀ first name, Names loader.registry child first →
        ReflTransGen (Refers loader.registry loader.source) first name →
        name ∉ opened ∧ ¬ TransGen (Refers loader.registry loader.source) name name)
    ?registered ?missing ?again ?reference ?nil ?skip ?cons
  case registered =>
    intro opened data kind known ih s node t returned first name names
    obtain ⟨id, u, -, returned⟩ := returns_bind returned
    obtain ⟨children, v, below, -⟩ := returns_bind returned
    obtain ⟨child, member, enabled, names⟩ := names.of_registered known
    exact ih u children v below child member enabled first name names
  case missing =>
    intro opened data unknown absent s node t returned
    exact (not_returns_throw returned).elim
  case again =>
    intro opened data tree unknown found inside s node t returned
    exact (not_returns_throw returned).elim
  case reference =>
    intro opened data tree unknown found fresh ih s node t returned first name names leads
    -- All that this tree refers to was loaded with its name open.
    have further : ∀ other, TransGen (Refers loader.registry loader.source) data.name other →
        other ∉ data.name :: opened ∧ ¬ TransGen (Refers loader.registry loader.source) other other := by
      intro other onward
      obtain ⟨next, ⟨tree', found', names⟩, leads⟩ := TransGen.head'_iff.mp onward
      rw [found, Option.some.injEq] at found'
      subst found'
      exact ih s node t returned next other names leads
    obtain rfl := names.eq_self unknown
    obtain rfl | onward := Relation.reflTransGen_iff_eq_or_transGen.mp leads
    · exact ⟨fresh, fun circle => (further _ circle).1 List.mem_cons_self⟩
    · obtain ⟨outside, open_⟩ := further name onward
      exact ⟨fun inside => outside (List.mem_cons_of_mem _ inside), open_⟩
  case nil =>
    intro opened s nodes t returned child member
    cases member
  case skip =>
    intro opened child rest disabled ih s nodes t returned other member enabled
    obtain rfl | member := List.mem_cons.mp member
    · rw [disabled] at enabled; cases enabled
    · exact ih s nodes t returned other member enabled
  case cons =>
    intro opened child rest enabled ih ihs s nodes t returned other member
    obtain ⟨node, u, here, returned⟩ := returns_bind returned
    obtain ⟨others, v, later, -⟩ := returns_bind returned
    obtain rfl | member := List.mem_cons.mp member
    · exact fun _ => ih s node u here
    · exact ihs u others v later other member

end Loader

/-! ### How deep loading goes -/

/-- Number of nodes written in the trees of a source. -/
def Source.written (source : Source) : Nat := NodeSource.sizeAll (source.map TreeSource.root)

namespace Source

theorem written_cons (tree : TreeSource) (rest : Source) :
    written (tree :: rest) = tree.root.size + written rest := rfl

/-- Taking trees away adds nothing to what is written. -/
theorem written_filter_le (source : Source) (keep : TreeSource → Bool) :
    written (source.filter keep) ≤ source.written := by
  induction source with
  | nil => exact Nat.le_refl _
  | cons tree rest ih =>
    by_cases kept : keep tree
    · rw [List.filter_cons_of_pos kept, written_cons, written_cons]
      exact Nat.add_le_add_left ih _
    · rw [List.filter_cons_of_neg kept, written_cons]
      exact Nat.le_add_left_of_le ih

/-- A tree that is left out takes its nodes with it. -/
theorem written_filter_add_le {source : Source} {keep : TreeSource → Bool} {tree : TreeSource}
    (member : tree ∈ source) (out : keep tree = false) :
    written (source.filter keep) + tree.root.size ≤ source.written := by
  induction source with
  | nil => cases member
  | cons first rest ih =>
    obtain rfl | member := List.mem_cons.mp member
    · rw [List.filter_cons_of_neg (by simp [out]), written_cons, Nat.add_comm]
      exact Nat.add_le_add_left (written_filter_le rest keep) _
    · have fewer := ih member
      by_cases kept : keep first
      · rw [List.filter_cons_of_pos kept, written_cons, written_cons]
        omega
      · rw [List.filter_cons_of_neg kept, written_cons]
        omega

end Source

/-- Loading that may come to nothing. -/
abbrev BoundedM := ExceptT LoadError (StateT LoadState Option)

/-- A step of loading that makes no calls. -/
def LoadM.bounded {α : Type} (x : LoadM α) : BoundedM α := ExceptT.mk fun s => some (x.run.run s)

namespace LoadM

variable {α β : Type}

theorem bounded_bind (x : LoadM α) (f : α → LoadM β) :
    (x >>= f).bounded = x.bounded >>= fun a => (f a).bounded := by
  funext s
  have here : (x >>= f).bounded s = some ((x >>= f).run.run s) := rfl
  have there : (x.bounded >>= fun a => (f a).bounded) s =
      ExceptT.bindCont (fun a => (f a).bounded) (x.run.run s).1 (x.run.run s).2 := rfl
  rw [here, there, run_bind_eq]
  rcases x.run.run s with ⟨_ | _, _⟩ <;> rfl

theorem bounded_pure (a : α) : (pure a : LoadM α).bounded = pure a := rfl

theorem bounded_throw (error : LoadError) : (throw error : LoadM α).bounded = throw error := rfl

end LoadM

namespace Loader

/-- Loads a node with calls within one another to that depth; it comes to nothing if they go deeper. -/
def loadWithin (loader : Loader) : Nat → List String → NodeSource → BoundedM Node
  | 0, _, _ => ExceptT.mk fun _ => none
  | depth + 1, opened, data =>
    match loader.registry.get? data.name with
    | some kind => do
      let id ← takeId.bounded
      let children ← (data.children.filter fun child => !child.disabled).mapM (loader.loadWithin depth opened)
      (loader.assemble kind data id children).bounded
    | none =>
      match loader.source.find? data.name with
      | none => throw (.missingNode data.name)
      | some tree =>
        if data.name ∈ opened then throw (.infiniteRecursion data.name)
        else loader.loadWithin depth (data.name :: opened) tree.root

/-- The nodes written in the trees that are not being expanded. -/
def unopenedSize (source : Source) (opened : List String) : Nat :=
  Source.written (source.filter fun tree => tree.name ∉ opened)

/-- Going into a tree uses up its nodes. -/
theorem unopenedSize_cons_le {source : Source} {opened : List String} {name : String} {tree : TreeSource}
    (found : source.find? name = some tree) (fresh : name ∉ opened) :
    unopenedSize source (name :: opened) + tree.root.size ≤ unopenedSize source opened := by
  have named : tree.name = name := by simpa using List.find?_some found
  have inside : tree ∈ source.filter fun t => t.name ∉ opened :=
    List.mem_filter.mpr ⟨List.mem_of_find?_eq_some found, by simpa [named] using fresh⟩
  unfold unopenedSize
  rw [filter_notMem_cons]
  exact Source.written_filter_add_le inside (by simp [named])

/-- No more depth is needed than nodes are left to be met. -/
theorem loadWithin_eq (loader : Loader) :
    (∀ opened data depth, unopenedSize loader.source opened + data.size ≤ depth →
      loader.loadWithin depth opened data = (loadNode loader opened data).bounded) ∧
    ∀ opened children depth, unopenedSize loader.source opened + NodeSource.sizeAll children ≤ depth →
      (children.filter fun child => !child.disabled).mapM (loader.loadWithin depth opened) =
        (loadChildren loader opened children).bounded := by
  refine load_induct loader
    (P := fun opened data load => ∀ depth, unopenedSize loader.source opened + data.size ≤ depth →
      loader.loadWithin depth opened data = load.bounded)
    (Q := fun opened children load => ∀ depth,
      unopenedSize loader.source opened + NodeSource.sizeAll children ≤ depth →
      (children.filter fun child => !child.disabled).mapM (loader.loadWithin depth opened) = load.bounded)
    ?registered ?missing ?again ?reference ?nil ?skip ?cons
  case registered =>
    intro opened data kind known ih depth enough
    have less := NodeSource.sizeAll_children_lt data
    obtain _ | depth := depth
    · omega
    rw [loadWithin, known, LoadM.bounded_bind]
    simp only [LoadM.bounded_bind, ih depth (by omega)]
  case missing =>
    intro opened data unknown absent depth enough
    have := data.size_pos
    obtain _ | depth := depth
    · omega
    rw [loadWithin, unknown, LoadM.bounded_throw]
    simp only [absent]
  case again =>
    intro opened data tree unknown found inside depth enough
    have := data.size_pos
    obtain _ | depth := depth
    · omega
    rw [loadWithin, unknown, LoadM.bounded_throw]
    simp only [found, if_pos inside]
  case reference =>
    intro opened data tree unknown found fresh ih depth enough
    have := data.size_pos
    -- Opening a tree takes its size off what is yet to be opened.
    have fewer := unopenedSize_cons_le found fresh
    obtain _ | depth := depth
    · omega
    rw [loadWithin, unknown]
    simp only [found, if_neg fresh]
    exact ih depth (by omega)
  case nil =>
    intro opened depth enough
    rfl
  case skip =>
    intro opened child rest disabled ih depth enough
    rw [NodeSource.sizeAll] at enough
    rw [List.filter_cons_of_neg (by simp [disabled])]
    exact ih depth (by omega)
  case cons =>
    intro opened child rest enabled ih ihs depth enough
    rw [NodeSource.sizeAll] at enough
    rw [List.filter_cons_of_pos (by simp [enabled]), List.mapM_cons,
      ih depth (by omega), ihs depth (by omega)]
    simp only [LoadM.bounded_bind, LoadM.bounded_pure]

end Loader

namespace Source

/-- Loads the tree of that name with calls within one another to that depth; it comes to nothing if they go
deeper. -/
def loadWithin (source : Source) (check : Node → CheckM Unit) (registry : Registry) (cache : ExprCache)
    (name : String) (strict : Bool) (depth : Nat) : Option (Except LoadError Tree × ExprCache) :=
  match source.find? name with
  | none => some (.error (.missingTree name), cache)
  | some main => do
    let loader : Loader := { registry, source, strict, check }
    let (result, state) ← (loader.loadWithin depth [main.name] main.root).run.run { nextId := 1, cache }
    return (result.map fun root => { name := main.name, desc := main.desc, root }, state.cache)

section

variable (source : Source) (check : Node → CheckM Unit) (registry : Registry) (cache : ExprCache)
variable (name : String) (strict : Bool)

/-- As much depth as there is written is enough to load. -/
theorem loadWithin_of_written {depth : Nat} (enough : source.written ≤ depth) :
    source.loadWithin check registry cache name strict depth =
      some (source.loadWith check registry cache name strict) := by
  rw [loadWithin, loadWith]
  rcases found : source.find? name with _ | main
  · rfl
  · have named : main.name = name := by simpa using List.find?_some found
    have fewer : Loader.unopenedSize source [main.name] + main.root.size ≤ Loader.unopenedSize source [] :=
      Loader.unopenedSize_cons_le (named ▸ found) List.not_mem_nil
    have all : Loader.unopenedSize source [] = source.written := by
      rw [Loader.unopenedSize, List.filter_eq_self.mpr fun _ _ => by simp]
    simp only
    rw [(Loader.loadWithin_eq _).1 _ _ depth (show Loader.unopenedSize source [main.name] + _ ≤ _ by omega)]
    rfl

/-- A recursion that is reported is there. -/
theorem circular_of_raised {other : String}
    (raised : (source.loadWith check registry cache name strict).1 = .error (.infiniteRecursion other)) :
    Circular registry source name other := by
  rcases found : source.find? name with _ | main
  · rw [loadWith, found] at raised
    cases raised
  · have named : main.name = name := by simpa using List.find?_some found
    have within : Raises (Loader.loadNode { registry, source, strict, check } [main.name] main.root)
        { nextId := 1, cache } (.infiniteRecursion other) := by
      rcases ran : (Loader.loadNode { registry, source, strict, check } [main.name] main.root).run.run
        { nextId := 1, cache } with ⟨error | root, state⟩
      · simp only [loadWith, found, ran] at raised
        cases raised
        exact congrArg Prod.fst ran
      · simp only [loadWith, found, ran] at raised
        cases raised
    obtain ⟨first, names, leads, again⟩ := (Loader.raises_recursion _).1 _ _ _ _ within
    have onward : TransGen (Refers registry source) name other := .head' ⟨main, found, names⟩ leads
    refine ⟨onward.to_reflTransGen, ?_⟩
    obtain within | circle := again
    · rw [List.mem_singleton.mp within, named] at onward ⊢
      exact onward
    · exact circle

/-- What is loaded leads to no circle. -/
theorem not_circular_of_loaded {other : String} {tree : Tree}
    (loaded : (source.loadWith check registry cache name strict).1 = .ok tree) :
    ¬ Circular registry source name other := by
  rintro ⟨reached, circle⟩
  obtain ⟨main, state, found, -, -, returned, -⟩ := returns_load loaded
  have named : main.name = name := by simpa using List.find?_some found
  have further : ∀ next, TransGen (Refers registry source) name next →
      next ≠ name ∧ ¬ TransGen (Refers registry source) next next := by
    intro next onward
    obtain ⟨first, ⟨main', found', names⟩, leads⟩ := TransGen.head'_iff.mp onward
    rw [found, Option.some.injEq] at found'
    subst found'
    obtain ⟨outside, open_⟩ := (Loader.returns_acyclic _).1 _ _ _ _ _ returned first next names leads
    exact ⟨fun same => outside (by rw [same, named]; exact List.mem_cons_self), open_⟩
  obtain rfl | onward := Relation.reflTransGen_iff_eq_or_transGen.mp reached
  · exact (further _ circle).1 rfl
  · exact (further _ onward).2 circle

/-- Loading ends, with no more depth than nodes are written in the source. A recursion that it reports is a
circle of references that the tree leads to, and no tree that leads to one is loaded. -/
theorem load_recursion :
    (∀ depth, source.written ≤ depth → source.loadWithin check registry cache name strict depth =
      some (source.loadWith check registry cache name strict)) ∧
    (∀ other, (source.loadWith check registry cache name strict).1 = .error (.infiniteRecursion other) →
      Circular registry source name other) ∧
    ∀ other, Circular registry source name other →
      ∀ tree, (source.loadWith check registry cache name strict).1 ≠ .ok tree :=
  ⟨fun _ enough => loadWithin_of_written source check registry cache name strict enough,
    fun _ raised => circular_of_raised source check registry cache name strict raised,
    fun _ circular _ loaded => not_circular_of_loaded source check registry cache name strict loaded circular⟩

end

end Source

/-- Two trees that take each other in. -/
def chaseSource : Source :=
  [{ name := "chase", root := { name := "Sequence", children := [{ name := "Clear" }, { name := "flee" }] } },
    { name := "flee", root := { name := "Inverter", children := [{ name := "chase" }] } }]

theorem load_chase : chaseSource.loadWith Node.check Registry.builtin [] "chase" true =
    (.error (.infiniteRecursion "chase"), []) := by
  cbv

/-- The trees that take each other in are found out; the one that takes another in twice is not in a circle. -/
theorem load_recursion_chase :
    chaseSource.loadWithin Node.check Registry.builtin [] "chase" true 5 =
        some (.error (.infiniteRecursion "chase"), []) ∧
      Circular Registry.builtin chaseSource "chase" "chase" ∧
      ∀ other, ¬ Circular Registry.builtin roundSource "round" other := by
  have spec := chaseSource.load_recursion Node.check Registry.builtin [] "chase" true
  rw [load_chase] at spec
  refine ⟨spec.1 5 (by decide), spec.2.1 "chase" rfl, fun other circular => ?_⟩
  exact (roundSource.load_recursion Node.check Registry.builtin [] "round" true).2.2 other circular round
    (by rw [load_round])

end BehaviorTree
