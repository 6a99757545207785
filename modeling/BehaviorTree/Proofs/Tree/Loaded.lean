import BehaviorTree.Proofs.Tree.Admitted
import BehaviorTree.Proofs.Tree.Expansion
import Mathlib

/-!
Loaded trees. A tree that a loader with built-in kinds accepts has nothing but admitted nodes, no two
of them with the same id. Loading only adds to the cache of expressions, whether it succeeds or not.
-/

namespace BehaviorTree

open ExprCache (Kept)
open Node (Admitted)

/-! ### The built-in kinds -/

namespace Registry

theorem get?_register (registry : Registry) (kind : Kind) (name : String) :
    Fields.get? (registry.register kind) name =
      if kind.declaration.name = name then some kind else Fields.get? registry name :=
  Fields.get?_set _ _ _ _

/-- Who is known after a registration was known before or has been registered. -/
theorem mem_of_get?_registerAll {kinds : List Kind} {registry : Registry} {name : String} {kind : Kind}
    (h : Fields.get? (registry.registerAll kinds) name = some kind) :
    Fields.get? registry name = some kind ∨ kind ∈ kinds := by
  induction kinds generalizing registry with
  | nil => exact .inl h
  | cons first rest ih =>
    rcases ih h with found | member
    · rw [get?_register] at found
      split at found
      · cases found
        exact .inr List.mem_cons_self
      · exact .inl found
    · exact .inr (List.mem_cons_of_mem _ member)

/-- The registry of the built-in types has no others. -/
theorem builtin_of_get? {name : String} {kind : Kind} (h : Fields.get? builtin name = some kind) :
    ∀ e, kind ≠ .extension e := by
  rcases mem_of_get?_registerAll h with found | member
  · cases found
  · exact (Kind.mem_builtins_iff kind).mp member

end Registry

/-! ### Keeping the cache, and checking -/

namespace Loader

/-- Loading keeps what is in the cache. -/
abbrev Keeps {α : Type} (x : LoadM α) : Prop := Leads (fun s t => Kept s.cache t.cache) x

theorem keeps_bind {α β : Type} {x : LoadM α} {f : α → LoadM β} (hx : Keeps x)
    (hf : ∀ a, Keeps (f a)) : Keeps (x >>= f) := leads_bind (fun h g => h.trans g) hx hf

theorem keeps_throw {α : Type} (error : LoadError) : Keeps (throw error : LoadM α) :=
  fun s => .refl s.cache

/-- The nodes that are loaded are checked as their kinds ask, and there are built-in kinds only. -/
structure Builtin (loader : Loader) : Prop where
  checks : loader.check = Node.check
  kinds : ∀ name kind, loader.registry.get? name = some kind → ∀ e, kind ≠ .extension e

variable {loader : Loader}

theorem keeps_checked (builtin : loader.Builtin) (node : Node) : Keeps (loader.checked node) := by
  intro s
  rw [run_checked, builtin.checks]
  exact Node.leads_check node s.cache

theorem keeps_assemble (builtin : loader.Builtin) (kind : Kind) (data : NodeSource) (id : Nat)
    (children : List Node) : Keeps (loader.assemble kind data id children) := by
  obtain ⟨node, _, ⟨error, _, refused⟩ | passed⟩ := assemble_cases loader kind data id children
  · rw [refused]
    exact keeps_throw error
  · rw [passed]
    exact keeps_bind (keeps_checked builtin node) fun _ s => .refl s.cache

/-- Loading a node or children keeps the cache, and gives admitted nodes only. -/
theorem load_spec (loader : Loader) (builtin : loader.Builtin) :
    (∀ opened data, Keeps (loadNode loader opened data) ∧
      ∀ s node t, Returns (loadNode loader opened data) s node t → node.Every (Admitted t.cache)) ∧
    ∀ opened children, Keeps (loadChildren loader opened children) ∧
      ∀ s nodes t, Returns (loadChildren loader opened children) s nodes t →
        ∀ node ∈ nodes, node.Every (Admitted t.cache) := by
  refine load_induct loader
    (P := fun _ _ load => Keeps load ∧ ∀ s node t, Returns load s node t → node.Every (Admitted t.cache))
    (Q := fun _ _ load => Keeps load ∧
      ∀ s nodes t, Returns load s nodes t → ∀ node ∈ nodes, node.Every (Admitted t.cache))
    ?registered ?missing ?again ?reference ?nil ?skip ?cons
  case registered =>
    rintro opened data kind known ⟨keeps, admitted⟩
    refine ⟨keeps_bind (fun s => .refl s.cache) fun id => keeps_bind keeps fun children =>
      keeps_assemble builtin kind data id children, fun s node t returned => ?_⟩
    obtain ⟨id, u, -, returned⟩ := returns_bind returned
    obtain ⟨children, v, below, assembled⟩ := returns_bind returned
    obtain ⟨⟨reads, -, rfl⟩, -, passed⟩ := returns_assemble assembled
    rw [builtin.checks] at passed
    have kept : Kept v.cache t.cache := (Node.leads_check node).of_returns passed
    refine .intro (Node.admitted_of_check (reads.kind ▸ builtin.kinds _ kind known) passed)
      fun child inside => ?_
    exact (admitted u node.children v below child inside).mono fun _ admitted => admitted.kept kept
  case missing =>
    intro opened data unknown absent
    exact ⟨keeps_throw _, fun s node t returned => (not_returns_throw returned).elim⟩
  case again =>
    intro opened data tree unknown found inside
    exact ⟨keeps_throw _, fun s node t returned => (not_returns_throw returned).elim⟩
  case reference =>
    intro opened data tree unknown found fresh ih
    exact ih
  case nil =>
    intro opened
    refine ⟨fun s => .refl s.cache, fun s nodes t returned node member => ?_⟩
    obtain ⟨rfl, rfl⟩ := returns_pure returned
    cases member
  case skip =>
    intro opened child rest disabled ih
    exact ih
  case cons =>
    rintro opened child rest enabled ⟨keeps, admitted⟩ ⟨keepsRest, admittedRest⟩
    refine ⟨keeps_bind keeps fun node => keeps_bind keepsRest fun nodes s => .refl s.cache,
      fun s nodes t returned => ?_⟩
    obtain ⟨node, u, first, returned⟩ := returns_bind returned
    obtain ⟨others, v, later, returned⟩ := returns_bind returned
    obtain ⟨rfl, rfl⟩ := returns_pure returned
    have kept : Kept u.cache _ := keepsRest.of_returns later
    exact List.forall_mem_cons.mpr ⟨(admitted s node u first).mono fun _ admitted => admitted.kept kept,
      admittedRest u others _ later⟩

end Loader

namespace Source

variable (source : Source) (cache : ExprCache) (name : String) (strict : Bool)

theorem builtin_loader :
    ({ registry := Registry.builtin, source, strict } : Loader).Builtin :=
  ⟨rfl, fun _ _ known => Registry.builtin_of_get? known⟩

/-- Loading keeps what is in the cache, whether it succeeds or not. -/
theorem kept_load : Kept cache (source.load Registry.builtin cache name strict).2 := by
  rw [load, loadWith]
  rcases source.find? name with _ | main
  · exact .refl cache
  · exact ((Loader.load_spec _ (source.builtin_loader strict)).1 [main.name] main.root).1
      { nextId := 1, cache }

/-- A loaded tree of the built-in types has admitted nodes only, with an id each. -/
theorem admitted_load {tree : Tree}
    (loaded : (source.load Registry.builtin cache name strict).1 = .ok tree) :
    tree.root.Every (Admitted (source.load Registry.builtin cache name strict).2) ∧
      tree.root.ids.Nodup := by
  obtain ⟨main, state, -, -, -, returned, left⟩ := returns_load loaded
  rw [show (source.load Registry.builtin cache name strict).2 = state.cache from left]
  refine ⟨((Loader.load_spec _ (source.builtin_loader strict)).1 [main.name] main.root).2 _ _ _ returned, ?_⟩
  have numbered := ((Loader.returns_expands _).1 [main.name] main.root _ _ _ returned).1.numbered
  rw [Node.idsAll_single] at numbered
  exact numbered ▸ List.nodup_range'

end Source

/-! ### A patrol -/

/-- A tree that clears its variables and then does so again in every second tick. -/
def patrolSource : Source :=
  [{ name := "patrol"
     root :=
      { name := "Sequence"
        children := [{ name := "Clear" }, { name := "AlwaysRunning", children := [{ name := "Clear" }] }] } }]

/-- A leaf that clears variables. -/
def clearLeaf (id : Nat) : Node :=
  { id, kind := .clear, name := "Clear", desc := "", args := [], input := [], output := []
    children := [] }

def patrol : Tree where
  name := "patrol"
  desc := ""
  root :=
    { id := 1, kind := .sequence, name := "Sequence", desc := "", args := [], input := [], output := []
      children :=
        [clearLeaf 2,
          { id := 3, kind := .alwaysRunning, name := "AlwaysRunning", desc := "", args := [], input := []
            output := [], children := [clearLeaf 4] }] }

theorem load_patrol : patrolSource.load Registry.builtin [] "patrol" true = (.ok patrol, []) := by
  cbv

/-! ### A watch -/

/-- A tree that clears its variables whenever a bell rings; who has rung it is kept meanwhile. -/
def watchSource : Source :=
  [{ name := "watch"
     root :=
      { name := "Listen", args := [("event", .text "bell")], output := ["who"]
        children := [{ name := "Clear" }] } }]

def watch : Tree where
  name := "watch"
  desc := ""
  root :=
    { id := 1, kind := .listen, name := "Listen", desc := "", args := [("event", .text "bell")]
      input := [], output := ["who"], children := [clearLeaf 2] }

theorem load_watch : watchSource.load Registry.builtin [] "watch" true = (.ok watch, []) := by
  cbv

/-- Listens for a bell and looks whether it is the captain who has rung it. -/
def sentrySource : Source :=
  [{ name := "sentry"
     root :=
      { name := "Listen", args := [("event", .text "bell")], output := ["who"]
        children := [{ name := "Check", args := [("value", .text "who.rank == 'captain'")] }] } }]

def sentry : Tree where
  name := "sentry"
  desc := ""
  root :=
    { id := 1, kind := .listen, name := "Listen", desc := "", args := [("event", .text "bell")], input := []
      output := [some "who"]
      children :=
        [{ id := 2, kind := .check, name := "Check", desc := "", args := [("value", .text "who.rank == 'captain'")]
           input := [], output := [], children := [] }] }

theorem load_sentry : sentrySource.load Registry.builtin [] "sentry" true =
    (.ok sentry,
      [("who.rank == 'captain'", .binary .eq (.member (.var "who") "rank") (.literal (.text "captain")))]) := by
  cbv

end BehaviorTree
