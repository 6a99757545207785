import BehaviorTree.Proofs.Tree.Fitting
import BehaviorTree.Proofs.Tree.Recursion
import Mathlib

/-!
Which sources are accepted. Expanding a tree comes to the nodes that are written in it, but for what is disabled,
and to those of the trees that it takes in. It is loaded exactly if every name on the way is that of a kind or of
a tree, no tree takes itself in, and every node fits its kind; a strict loader asks moreover that every node
declares what it has. Being strict makes no difference to what is loaded.
-/

namespace BehaviorTree

open Relation (ReflTransGen TransGen)

/-! ### What an expansion comes to -/

/-- Expanding the one node comes to the other one. -/
inductive Reaches (registry : Registry) (source : Source) : NodeSource → NodeSource → Prop
  | self (data : NodeSource) : Reaches registry source data data
  | child {data child met : NodeSource} {kind : Kind} (registered : registry.get? data.name = some kind)
      (member : child ∈ data.children) (enabled : child.disabled = false)
      (inside : Reaches registry source child met) : Reaches registry source data met
  | tree {data met : NodeSource} {tree : TreeSource} (unregistered : registry.get? data.name = none)
      (found : source.find? data.name = some tree) (inside : Reaches registry source tree.root met) :
      Reaches registry source data met

/-- Expanding the node comes to a reference to that name. -/
def TakesIn (registry : Registry) (source : Source) (data : NodeSource) (name : String) : Prop :=
  ∃ met, Reaches registry source data met ∧ registry.get? met.name = none ∧ met.name = name

section

variable {registry : Registry} {source : Source} {data met : NodeSource} {name other : String}

theorem Reaches.trans {last : NodeSource} (first : Reaches registry source data met)
    (second : Reaches registry source met last) : Reaches registry source data last := by
  induction first with
  | self => exact second
  | child registered member enabled _ ih => exact .child registered member enabled (ih second)
  | tree unregistered found _ ih => exact .tree unregistered found (ih second)

/-- A node of a registered kind comes to itself and to what its children come to. -/
theorem reaches_registered_iff {kind : Kind} (registered : registry.get? data.name = some kind) :
    Reaches registry source data met ↔
      met = data ∨ ∃ child ∈ data.children, child.disabled = false ∧ Reaches registry source child met := by
  constructor
  · intro reaches
    cases reaches with
    | self => exact .inl rfl
    | child _ member enabled inside => exact .inr ⟨_, member, enabled, inside⟩
    | tree unregistered => rw [registered] at unregistered; cases unregistered
  · rintro (rfl | ⟨child, member, enabled, inside⟩)
    · exact .self met
    · exact .child registered member enabled inside

/-- A reference to a tree comes to itself and to what the root of the tree comes to. -/
theorem reaches_reference_iff {tree : TreeSource} (unregistered : registry.get? data.name = none)
    (found : source.find? data.name = some tree) :
    Reaches registry source data met ↔ met = data ∨ Reaches registry source tree.root met := by
  constructor
  · intro reaches
    cases reaches with
    | self => exact .inl rfl
    | child registered => rw [unregistered] at registered; cases registered
    | tree _ found' inside =>
      rw [found, Option.some.injEq] at found'
      exact .inr (found' ▸ inside)
  · rintro (rfl | inside)
    · exact .self met
    · exact .tree unregistered found inside

theorem Meets.reaches (meets : Meets registry data met) : Reaches registry source data met := by
  induction meets with
  | self data => exact .self data
  | child registered member enabled _ ih => exact .child registered member enabled ih

/-- The trees that a node takes in are those that the names in it lead to. -/
theorem takesIn_iff : TakesIn registry source data other ↔
    ∃ first, Names registry data first ∧ ReflTransGen (Refers registry source) first other := by
  constructor
  · rintro ⟨met, reaches, unregistered, rfl⟩
    induction reaches with
    | self data => exact ⟨data.name, .self unregistered, .refl⟩
    | child registered member enabled _ ih =>
      obtain ⟨first, names, leads⟩ := ih unregistered
      exact ⟨first, names.child registered member enabled, leads⟩
    | tree reference found _ ih =>
      obtain ⟨first, names, leads⟩ := ih unregistered
      exact ⟨_, .self reference, .head ⟨_, found, names⟩ leads⟩
  · rintro ⟨first, names, leads⟩
    induction leads using ReflTransGen.head_induction_on generalizing data with
    | refl =>
      obtain ⟨met, meets, unregistered, named⟩ := names
      exact ⟨met, meets.reaches, unregistered, named⟩
    | head refers _ ih =>
      obtain ⟨met, meets, reference, rfl⟩ := names
      obtain ⟨tree, found, further⟩ := refers
      obtain ⟨last, reaches, unregistered, named⟩ := ih further
      exact ⟨last, meets.reaches.trans (.tree reference found reaches), unregistered, named⟩

/-- Names are reached through inlined subtrees just when they are taken in. -/
theorem transGen_refers_iff : TransGen (Refers registry source) name other ↔
    ∃ tree, source.find? name = some tree ∧ TakesIn registry source tree.root other := by
  rw [TransGen.head'_iff]
  constructor
  · rintro ⟨first, ⟨tree, found, names⟩, leads⟩
    exact ⟨tree, found, takesIn_iff.mpr ⟨first, names, leads⟩⟩
  · rintro ⟨tree, found, takes⟩
    obtain ⟨first, names, leads⟩ := takesIn_iff.mp takes
    exact ⟨first, ⟨tree, found, names⟩, leads⟩

end

/-! ### Loading -/

namespace Loader

/-- What is loaded does not depend on what has been read before. -/
abbrev Fresh (s : LoadState) : Prop := s.cache.Genuine

/-- A node that an expansion comes to is no obstacle, given the names of the trees that it stands in. -/
structure Sound (loader : Loader) (opened : List String) (met : NodeSource) : Prop where
  fits : ∀ kind, loader.registry.get? met.name = some kind → met.Fits kind
  declares : loader.strict = true → ∀ kind, loader.registry.get? met.name = some kind → met.Declares kind.declaration
  outside : loader.registry.get? met.name = none → met.name ∉ opened
  known : loader.registry.get? met.name = none → ∃ tree, loader.source.find? met.name = some tree ∧
    ¬ TakesIn loader.registry loader.source tree.root met.name

variable {loader : Loader} {opened : List String} {data : NodeSource}

theorem decides_takeId : Decides Fresh takeId True :=
  ⟨fun _ fresh => fresh, fun s _ => iff_of_true ⟨s.nextId, _, rfl⟩ trivial⟩

/-- What the check of a node decides, the loader decides by it. -/
theorem decides_checked {node : Node} {P : Prop} (h : Decides ExprCache.Genuine (loader.check node) P) :
    Decides Fresh (loader.checked node) P := by
  refine ⟨fun s fresh => ?_, fun s fresh => ?_⟩
  · rw [run_checked]
    exact h.keeps s.cache fresh
  · rw [← h.returns s.cache fresh]
    constructor
    · rintro ⟨_, t, returned⟩
      exact ⟨(), t.cache, (returns_checked returned).2⟩
    · rintro ⟨_, cache, returned⟩
      refine ⟨(), { s with cache }, ?_⟩
      rw [Returns, run_checked, show (loader.check node).run.run s.cache = (.ok (), cache) from returned]

/-- Putting a node together asks that the node fits, and that it declares what it has if the loader is strict. -/
theorem decides_assemble (checks : loader.check = Node.check) {kind : Kind} (builtin : ∀ e, kind ≠ .extension e)
    (id : Nat) {children : List Node} (count : children.length = data.enabled.length) :
    Decides Fresh (loader.assemble kind data id children)
      ((loader.strict = true → data.Declares kind.declaration) ∧ data.Fits kind) := by
  let node : Node :=
    { id, kind, name := data.name, desc := data.desc, args := data.args
      input := wire data.input, output := wire data.output, children }
  have fits : Decides Fresh (loader.checked node >>= fun _ => pure node) (data.Fits kind) := by
    have check : Decides ExprCache.Genuine (loader.check node) (data.Fits kind) := by
      rw [checks]
      exact Node.decides_check builtin ⟨rfl, rfl, rfl, rfl, rfl, rfl⟩ count
    exact (decides_bind (decides_checked check) fun _ _ _ _ _ => decides_pure node).of_iff (and_iff_left trivial)
  unfold assemble
  rcases strict : loader.strict with _ | _
  · simp only [Bool.false_eq_true, if_false, false_implies, true_and]
    exact fits
  · simp only [if_true, true_implies]
    have declared : data.undeclared? kind.declaration = none ↔ _ := NodeSource.undeclared?_eq_none_iff _
    rcases found : data.undeclared? kind.declaration with _ | undeclared
    · exact fits.of_iff (iff_and_self.mpr fun _ => declared.mp found)
    · have refused : ¬ data.Declares kind.declaration := by rw [← declared, found]; nofun
      rcases undeclared with arg | slot
      · exact (decides_throw _).of_iff (iff_of_false not_false fun both => refused both.1)
      · exact (decides_throw _).of_iff (iff_of_false not_false fun both => refused both.1)

/-- Each child that is not disabled becomes one node. -/
theorem length_of_expandsAll {registry : Registry} {source : Source} {children : List NodeSource} {nodes : List Node}
    (expands : ExpandsAll registry source children nodes) :
    nodes.length = (children.filter fun child => !child.disabled).length := by
  induction children generalizing nodes with
  | nil => cases expands; rfl
  | cons child rest ih =>
    cases expands with
    | skip disabled others => rw [List.filter_cons_of_neg (by simp [disabled])]; exact ih others
    | cons enabled _ others =>
      rw [List.filter_cons_of_pos (by simp [enabled]), List.length_cons, List.length_cons, ih others]

/-- A registered node is sound just if it fits and declares what it has. -/
theorem sound_registered_iff {kind : Kind} (known : loader.registry.get? data.name = some kind) :
    Sound loader opened data ↔ (loader.strict = true → data.Declares kind.declaration) ∧ data.Fits kind := by
  constructor
  · intro sound
    exact ⟨fun strict => sound.declares strict kind known, sound.fits kind known⟩
  · rintro ⟨declares, fits⟩
    refine ⟨fun other also => ?_, fun strict other also => ?_, fun unknown => ?_, fun unknown => ?_⟩
    · rw [known, Option.some.injEq] at also
      exact also ▸ fits
    · rw [known, Option.some.injEq] at also
      exact also ▸ declares strict
    · rw [known] at unknown; cases unknown
    · rw [known] at unknown; cases unknown

/-- A reference is sound just if its tree is not open and does not take itself in. -/
theorem sound_reference_iff {tree : TreeSource} (unknown : loader.registry.get? data.name = none)
    (found : loader.source.find? data.name = some tree) :
    Sound loader opened data ↔
      data.name ∉ opened ∧ ¬ TakesIn loader.registry loader.source tree.root data.name := by
  constructor
  · intro sound
    obtain ⟨tree', found', apart⟩ := sound.known unknown
    rw [found, Option.some.injEq] at found'
    exact ⟨sound.outside unknown, found' ▸ apart⟩
  · rintro ⟨outside, apart⟩
    refine ⟨fun kind known => ?_, fun _ kind known => ?_, fun _ => outside, fun _ => ⟨tree, found, apart⟩⟩
    · rw [unknown] at known; cases known
    · rw [unknown] at known; cases known

/-- One more open tree is one more name that must not be come to. -/
theorem sound_cons_iff {name : String} {met : NodeSource} :
    Sound loader (name :: opened) met ↔
      Sound loader opened met ∧ (loader.registry.get? met.name = none → met.name ≠ name) := by
  constructor
  · intro sound
    refine ⟨⟨sound.fits, sound.declares, fun unknown inside => ?_, sound.known⟩, fun unknown same => ?_⟩
    · exact sound.outside unknown (List.mem_cons_of_mem _ inside)
    · exact sound.outside unknown (same ▸ List.mem_cons_self)
  · rintro ⟨sound, apart⟩
    refine ⟨sound.fits, sound.declares, fun unknown inside => ?_, sound.known⟩
    obtain same | inside := List.mem_cons.mp inside
    · exact apart unknown same
    · exact sound.outside unknown inside

/-- Loading comes to an end with a node exactly if all that the expansion comes to is sound. -/
theorem decides_load (loader : Loader) (builtin : loader.Builtin) :
    (∀ opened data, Decides Fresh (loadNode loader opened data)
      (∀ met, Reaches loader.registry loader.source data met → Sound loader opened met)) ∧
    ∀ opened children, Decides Fresh (loadChildren loader opened children)
      (∀ child ∈ children, child.disabled = false →
        ∀ met, Reaches loader.registry loader.source child met → Sound loader opened met) := by
  refine load_induct loader
    (P := fun opened data load => Decides Fresh load
      (∀ met, Reaches loader.registry loader.source data met → Sound loader opened met))
    (Q := fun opened children load => Decides Fresh load
      (∀ child ∈ children, child.disabled = false →
        ∀ met, Reaches loader.registry loader.source child met → Sound loader opened met))
    ?registered ?missing ?again ?reference ?nil ?skip ?cons
  case registered =>
    intro opened data kind known ih
    have assembled : ∀ id s children t, Fresh s → Returns (loadChildren loader opened data.children) s children t →
        Decides Fresh (loader.assemble kind data id children) _ := fun id s children t _ returned =>
      decides_assemble builtin.checks (builtin.kinds _ kind known) id
        (length_of_expandsAll ((returns_expands loader).2 _ _ _ _ _ returned).2)
    -- The children are decided first: a node is checked only when all below it have been loaded.
    refine (decides_bind decides_takeId fun _ id _ _ _ => decides_bind ih (assembled id)).of_iff ?_
    simp only [true_and, reaches_registered_iff known]
    rw [← sound_registered_iff known]
    constructor
    · rintro ⟨below, here⟩ met (rfl | ⟨child, member, enabled, inside⟩)
      · exact here
      · exact below child member enabled met inside
    · intro all
      exact ⟨fun child member enabled met inside => all met (.inr ⟨child, member, enabled, inside⟩), all data (.inl rfl)⟩
  case missing =>
    intro opened data unknown absent
    refine (decides_throw _).of_iff (iff_of_false not_false fun all => ?_)
    obtain ⟨tree, found, -⟩ := (all data (.self data)).known unknown
    rw [absent] at found
    cases found
  case again =>
    intro opened data tree unknown found inside
    refine (decides_throw _).of_iff (iff_of_false not_false fun all => ?_)
    exact (all data (.self data)).outside unknown inside
  case reference =>
    intro opened data tree unknown found fresh ih
    -- Below the reference the name is open as well, and that is all that soundness says about it.
    refine ih.of_iff ?_
    simp only [reaches_reference_iff unknown found, sound_cons_iff]
    constructor
    · rintro below met (rfl | inside)
      · refine (sound_reference_iff unknown found).mpr ⟨fresh, ?_⟩
        rintro ⟨again, inside, unregistered, named⟩
        exact (below again inside).2 unregistered named
      · exact (below met inside).1
    · intro all met inside
      refine ⟨all met (.inr inside), fun unregistered named => ?_⟩
      exact ((sound_reference_iff unknown found).mp (all data (.inl rfl))).2 ⟨met, inside, unregistered, named⟩
  case nil =>
    intro opened
    exact (decides_pure []).of_iff (by simp)
  case skip =>
    intro opened child rest disabled ih
    exact ih.of_iff (by simp [disabled])
  case cons =>
    intro opened child rest enabled ih ihs
    refine (decides_bind ih fun _ node _ _ _ =>
      decides_bind ihs fun _ nodes _ _ _ => decides_pure (node :: nodes)).of_iff ?_
    simp [enabled]

end Loader

/-! ### Sources that are accepted -/

namespace Source

/-- Expanding the tree of that name comes to the node. -/
def ComesTo (registry : Registry) (source : Source) (name : String) (met : NodeSource) : Prop :=
  ∃ main, source.find? name = some main ∧ Reaches registry source main.root met

/-- The tree of that name can be loaded. -/
structure Loadable (registry : Registry) (source : Source) (name : String) : Prop where
  exist : ∃ main, source.find? name = some main
  known : ∀ met, ComesTo registry source name met → registry.get? met.name = none →
    ∃ tree, source.find? met.name = some tree
  acyclic : ∀ other, ¬ Circular registry source name other
  fits : ∀ met kind, ComesTo registry source name met → registry.get? met.name = some kind → met.Fits kind

/-- The nodes of the tree of that name declare all that they have. -/
def Declared (registry : Registry) (source : Source) (name : String) : Prop :=
  ∀ met kind, ComesTo registry source name met → registry.get? met.name = some kind → met.Declares kind.declaration

section

variable {source : Source} {registry : Registry} {name : String} {main : TreeSource}

/-- A tree that leads to no circle neither comes to its own name nor takes in a tree that does, and conversely. -/
theorem not_circular_iff (found : source.find? name = some main) : (∀ other, ¬ Circular registry source name other) ↔
    ∀ met, Reaches registry source main.root met → registry.get? met.name = none →
      met.name ≠ name ∧ ∀ tree, source.find? met.name = some tree → ¬ TakesIn registry source tree.root met.name := by
  constructor
  · intro acyclic met reaches unregistered
    have taken : TransGen (Refers registry source) name met.name :=
      transGen_refers_iff.mpr ⟨main, found, met, reaches, unregistered, rfl⟩
    refine ⟨fun same => acyclic name ⟨.refl, same ▸ taken⟩, fun tree found' again => ?_⟩
    exact acyclic met.name ⟨taken.to_reflTransGen, transGen_refers_iff.mpr ⟨tree, found', again⟩⟩
  · rintro apart other ⟨reached, circle⟩
    obtain rfl | onward := Relation.reflTransGen_iff_eq_or_transGen.mp reached
    · obtain ⟨tree, found', met, reaches, unregistered, named⟩ := transGen_refers_iff.mp circle
      rw [found, Option.some.injEq] at found'
      exact (apart met (found' ▸ reaches) unregistered).1 named
    · obtain ⟨tree, found', met, reaches, unregistered, rfl⟩ := transGen_refers_iff.mp onward
      rw [found, Option.some.injEq] at found'
      obtain ⟨tree', found'', again⟩ := transGen_refers_iff.mp circle
      exact (apart met (found' ▸ reaches) unregistered).2 tree' found'' again

/-- Nothing is in the way of a loader exactly if the tree can be loaded and, for a strict one, is declared. -/
theorem sound_iff (found : source.find? name = some main) (strict : Bool) :
    (∀ met, Reaches registry source main.root met →
        Loader.Sound { registry, source, strict } [main.name] met) ↔
      source.Loadable registry name ∧ (strict = true → source.Declared registry name) := by
  have named : main.name = name := by simpa using List.find?_some found
  have within {met : NodeSource} (comes : ComesTo registry source name met) :
      Reaches registry source main.root met := by
    obtain ⟨main', found', reaches⟩ := comes
    rw [found, Option.some.injEq] at found'
    exact found' ▸ reaches
  rw [named]
  constructor
  · intro sound
    refine ⟨⟨⟨main, found⟩, fun met comes unregistered => ?_, ?_, fun met kind comes known => ?_⟩,
      fun is_strict met kind comes known => ?_⟩
    · obtain ⟨tree, found', -⟩ := (sound met (within comes)).known unregistered
      exact ⟨tree, found'⟩
    · refine (not_circular_iff found).mpr fun met reaches unregistered => ⟨fun same => ?_, fun tree found' => ?_⟩
      · exact (sound met reaches).outside unregistered (List.mem_singleton.mpr same)
      · obtain ⟨tree', found'', apart⟩ := (sound met reaches).known unregistered
        have same : some tree = some tree' := found'.symm.trans found''
        exact Option.some.inj same ▸ apart
    · exact (sound met (within comes)).fits kind known
    · exact (sound met (within comes)).declares is_strict kind known
  · rintro ⟨loadable, declared⟩ met reaches
    have comes : ComesTo registry source name met := ⟨main, found, reaches⟩
    have apart := (not_circular_iff found).mp loadable.acyclic met reaches
    refine ⟨fun kind known => loadable.fits met kind comes known,
      fun is_strict kind known => declared is_strict met kind comes known, fun unregistered inside => ?_,
      fun unregistered => ?_⟩
    · exact (apart unregistered).1 (List.mem_singleton.mp inside)
    · obtain ⟨tree, found'⟩ := loadable.known met comes unregistered
      exact ⟨tree, found', (apart unregistered).2 tree found'⟩

end

variable (source : Source) (name : String) {cache : ExprCache}

/-- A tree is loaded exactly if it can be loaded, and is declared if the loader is strict. -/
theorem loads_iff (genuine : cache.Genuine) (strict : Bool) :
    (∃ tree, (source.load Registry.builtin cache name strict).1 = .ok tree) ↔
      source.Loadable Registry.builtin name ∧ (strict = true → source.Declared Registry.builtin name) := by
  rcases found : source.find? name with _ | main
  · refine iff_of_false ?_ fun both => ?_
    · rintro ⟨tree, loaded⟩
      rw [load, loadWith, found] at loaded
      cases loaded
    · obtain ⟨main, found'⟩ := both.1.exist
      rw [found] at found'
      cases found'
  · rw [← sound_iff found strict, ← ((Loader.decides_load _ (source.builtin_loader strict)).1 [main.name]
      main.root).returns { nextId := 1, cache } genuine]
    constructor
    · rintro ⟨tree, loaded⟩
      obtain ⟨main', state, found', -, -, returned, -⟩ := returns_load loaded
      rw [found, Option.some.injEq] at found'
      exact ⟨tree.root, state, found' ▸ returned⟩
    · rintro ⟨root, state, returned⟩
      refine ⟨⟨main.name, main.desc, root⟩, ?_⟩
      rw [load, loadWith, found]
      simp only
      rw [show (Loader.loadNode { registry := Registry.builtin, source, strict } [main.name] main.root).run.run
        { nextId := 1, cache } = (.ok root, state) from returned]
      rfl

theorem genuine_load (genuine : cache.Genuine) (strict : Bool) :
    (source.load Registry.builtin cache name strict).2.Genuine := by
  rw [load, loadWith]
  rcases source.find? name with _ | main
  · exact genuine
  · exact ((Loader.decides_load _ (source.builtin_loader strict)).1 [main.name] main.root).keeps
      { nextId := 1, cache } genuine

/-- What is loaded under a name does not depend on the checks of the nodes, nor on what has been read before. -/
theorem load_unique {source : Source} {registry : Registry} {name : String} {check check' : Node → CheckM Unit}
    {cache cache' : ExprCache} {strict strict' : Bool} {tree tree' : Tree}
    (loaded : (source.loadWith check registry cache name strict).1 = .ok tree)
    (loaded' : (source.loadWith check' registry cache' name strict').1 = .ok tree') : tree = tree' := by
  obtain ⟨main, state, found, named, described, returned, -⟩ := returns_load loaded
  obtain ⟨main', state', found', named', described', returned', -⟩ := returns_load loaded'
  obtain rfl : main = main' := Option.some.inj (found.symm.trans found')
  obtain ⟨numbered, expands⟩ := (Loader.returns_expands _).1 _ _ _ _ _ returned
  obtain ⟨numbered', expands'⟩ := (Loader.returns_expands _).1 _ _ _ _ _ returned'
  have ids := numbered.numbered
  have ids' := numbered'.numbered
  rw [Node.idsAll_single] at ids ids'
  obtain ⟨much, same⟩ := expands.unique tree'.root expands'
  -- both are numbered from one on, and have as many nodes
  have root : tree.root = tree'.root := by
    refine same ?_
    rw [ids, ids', List.length_range', List.length_range'] at much
    rw [ids, ids', much]
  cases tree
  cases tree'
  simp_all

end Source
end BehaviorTree
