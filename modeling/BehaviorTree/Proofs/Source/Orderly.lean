import BehaviorTree.Source.Codec
import Mathlib

/-!
What every source is like, wherever it comes from: the entries of an object and the arguments of a node stand in
the order of their names, each name once, and the numbers an editor gives to nodes have 32 bits. Whatever is
read is of this form, so it may be assumed of any source.
-/

namespace BehaviorTree

open Document

/-! ### Entries in order -/

namespace Fields

variable {α : Type} {fields : Fields α}

/-- Names that strictly increase. -/
def Ordered (fields : Fields α) : Prop := fields.names.Pairwise (· < ·)

theorem mem_set {key : String} {value : α} {entry : String × α} (member : entry ∈ fields.set key value) :
    entry = (key, value) ∨ entry ∈ fields := by
  induction fields with
  | nil => exact .inl (List.mem_singleton.mp member)
  | cons first rest ih =>
    obtain ⟨name, old⟩ := first
    simp only [set] at member
    split at member
    · exact (List.mem_cons.mp member).imp_right (List.mem_cons_of_mem _)
    · split at member
      · exact List.mem_cons.mp member
      · rcases List.mem_cons.mp member with rfl | later
        · exact .inr List.mem_cons_self
        · exact (ih later).imp_right (List.mem_cons_of_mem _)

theorem Ordered.nil : Ordered ([] : Fields α) := List.Pairwise.nil

/-- Writing an entry keeps the order. -/
theorem Ordered.set (ordered : Ordered fields) (key : String) (value : α) : Ordered (fields.set key value) := by
  induction fields with
  | nil => exact List.pairwise_singleton _ _
  | cons first rest ih =>
    obtain ⟨name, old⟩ := first
    have ⟨least, later⟩ := List.pairwise_cons.mp ordered
    simp only [Fields.set]
    split
    case isTrue same => exact same ▸ ordered
    case isFalse other =>
      split
      case isTrue before =>
        refine List.pairwise_cons.mpr ⟨fun other member => ?_, ordered⟩
        rcases List.mem_cons.mp member with rfl | member
        · exact before
        · exact before.trans (least other member)
      case isFalse notBefore =>
        refine List.pairwise_cons.mpr ⟨fun other' member => ?_, ih later⟩
        obtain ⟨entry, written, rfl⟩ := List.mem_map.mp member
        rcases mem_set written with rfl | old
        · exact lt_of_le_of_ne (not_lt.mp notBefore) other
        · exact least _ (List.mem_map_of_mem old)

/-- An entry whose name comes after all others is written at the end. -/
theorem set_of_last {key : String} (last : ∀ name ∈ fields.names, name < key) (value : α) :
    fields.set key value = fields ++ [(key, value)] := by
  induction fields with
  | nil => rfl
  | cons first rest ih =>
    obtain ⟨name, old⟩ := first
    have before : name < key := last name List.mem_cons_self
    rw [set, if_neg before.ne, if_neg before.asymm, ih fun other member => last other (List.mem_cons_of_mem _ member),
      List.cons_append]

end Fields

/-! ### Values -/

namespace Value

/-- A value every object in which has its entries in order. -/
inductive Orderly : Value → Prop where
  | null : Orderly null
  | bool (b : Bool) : Orderly (bool b)
  | number (x : Float) : Orderly (number x)
  | text (s : String) : Orderly (text s)
  | array {items : List Value} (each : ∀ v ∈ items, Orderly v) : Orderly (array items)
  | object {fields : Fields Value} (ordered : fields.Ordered) (each : ∀ entry ∈ fields, Orderly entry.2) :
    Orderly (object fields)

attribute [simp] Orderly.null Orderly.bool Orderly.number Orderly.text

@[simp] theorem orderly_array {items : List Value} : (array items).Orderly ↔ ∀ v ∈ items, v.Orderly :=
  ⟨fun | .array each => each, .array⟩

@[simp] theorem orderly_object {fields : Fields Value} :
    (object fields).Orderly ↔ fields.Ordered ∧ ∀ entry ∈ fields, entry.2.Orderly :=
  ⟨fun | .object ordered each => ⟨ordered, each⟩, fun ⟨ordered, each⟩ => .object ordered each⟩

theorem Orderly.set {fields : Fields Value} (orderly : Orderly (.object fields)) (key : String) {v : Value}
    (value : Orderly v) : Orderly (.object (fields.set key v)) := by
  have ⟨ordered, each⟩ := orderly_object.mp orderly
  refine .object (ordered.set key v) fun entry member => ?_
  rcases Fields.mem_set member with rfl | member
  · exact value
  · exact each entry member

mutual

/-- Objects that are read have their fields in the order of the names. -/
theorem orderly_of_datum : ∀ (d : Datum) {v : Value}, ofDatum? d = some v → v.Orderly
  | .null, _, rfl => .null
  | .bool b, _, rfl => .bool b
  | .int _, _, rfl => .number _
  | .float x, _, rfl => .number x
  | .text s, _, rfl => .text s
  | .list items, _, found => by
    rw [ofDatum?] at found
    obtain ⟨values, reads, rfl⟩ := Option.map_eq_some_iff.mp found
    exact .array (orderly_of_data items reads)
  | .map entries, _, found => by
    rw [ofDatum?] at found
    obtain ⟨fields, reads, rfl⟩ := Option.map_eq_some_iff.mp found
    exact orderly_of_entries entries (.object .nil (List.forall_mem_nil _)) reads

theorem orderly_of_data : ∀ (items : List Datum) {values : List Value}, ofData? items = some values →
    ∀ v ∈ values, v.Orderly
  | [], _, rfl => nofun
  | d :: rest, _, found => by
    simp only [ofData?, Option.bind_eq_bind, Option.bind_eq_some_iff, Option.pure_def, Option.some.injEq] at found
    obtain ⟨v, first, values, later, rfl⟩ := found
    exact List.forall_mem_cons.mpr ⟨orderly_of_datum d first, orderly_of_data rest later⟩

/-- Entries are added one by one, so the order is kept. -/
theorem orderly_of_entries : ∀ (entries : List (Datum × Datum)) {before fields : Fields Value},
    Orderly (.object before) → ofEntries? entries before = some fields → Orderly (.object fields)
  | [], _, _, orderly, rfl => orderly
  | (key, d) :: rest, _, _, orderly, found => by
    cases key <;> simp only [ofEntries?, reduceCtorEq] at found
    simp only [Option.bind_eq_bind, Option.bind_eq_some_iff] at found
    obtain ⟨v, value, later⟩ := found
    exact orderly_of_entries rest (orderly.set _ (orderly_of_datum d value)) later

end

end Value

/-! ### Nodes and trees -/

/-- A node whose arguments are in order and whose number has 32 bits, and so below it. -/
inductive NodeSource.Orderly : NodeSource → Prop where
  | mk {n : NodeSource} (id : ∀ k, n.id = some k → k < Number.twoTo 32) (args : Value.Orderly (.object n.args))
    (children : ∀ child ∈ n.children, child.Orderly) : n.Orderly

@[simp] theorem NodeSource.orderly_mk {id : Option Nat} {name desc : String} {args : Fields Value}
    {input output : List String} {children : List NodeSource} {disabled : Bool} :
    NodeSource.Orderly ⟨id, name, desc, args, input, output, children, disabled⟩ ↔
      (∀ k, id = some k → k < Number.twoTo 32) ∧ Value.Orderly (.object args) ∧
        ∀ child ∈ children, child.Orderly :=
  ⟨fun | .mk id args children => ⟨id, args, children⟩, fun ⟨id, args, children⟩ => .mk id args children⟩

namespace Source

/-- A source all nodes of which are in order. -/
def Orderly (source : Source) : Prop := ∀ tree ∈ source, tree.root.Orderly

/-- What a list is read as, item by item. -/
theorem mapM_eq_some_iff {α β : Type} {f : α → Option β} : ∀ {items : List α} {results : List β},
    items.mapM f = some results ↔ List.Forall₂ (fun item result => f item = some result) items results
  | [], results => by simp [eq_comm]
  | item :: rest, results => by
    simp only [List.mapM_cons, Option.bind_eq_bind, Option.bind_eq_some_iff, Option.pure_def, Option.some.injEq,
      mapM_eq_some_iff, List.forall₂_cons_left_iff]
    constructor
    · rintro ⟨first, one, later, many, rfl⟩
      exact ⟨first, later, one, many, rfl⟩
    · rintro ⟨first, later, one, many, rfl⟩
      exact ⟨first, one, later, many, rfl⟩

theorem mem_of_mapM {α β : Type} {f : α → Option β} {items : List α} {results : List β}
    (read : items.mapM f = some results) {result : β} (member : result ∈ results) :
    ∃ item ∈ items, f item = some result := by
  induction mapM_eq_some_iff.mp read with
  | nil => cases member
  | cons one many ih =>
    rcases List.mem_cons.mp member with rfl | member
    · exact ⟨_, List.mem_cons_self, one⟩
    · obtain ⟨item, among, reads⟩ := ih (mapM_eq_some_iff.mpr many) member
      exact ⟨item, List.mem_cons_of_mem _ among, reads⟩

/-- A field is its default, or it is read. -/
theorem fieldOr_cases {α : Type} {default x : α} {read : Datum → Option α} {field : Option Datum}
    (found : fieldOr default read field = some x) : x = default ∨ ∃ d, read d = some x := by
  rcases field with _ | d
  · exact .inl (Option.some.inj found).symm
  · exact .inr ⟨d, found⟩

/-- A number that is read is one of 32 bits. -/
theorem id_of_nodeId {d : Datum} {id : Option Nat} (read : nodeId? d = some id) :
    ∀ k, id = some k → k < Number.twoTo 32 := by
  rintro k rfl
  unfold nodeId? at read
  split at read
  · cases read
  · split at read
    case isTrue range =>
      cases read
      omega
    · cases read
  · cases read

theorem orderly_of_args {d : Datum} {args : Fields Value} (read : args? d = some args) :
    Value.Orderly (.object args) := by
  unfold args? at read
  split at read
  · exact Value.orderly_of_entries _ (.object .nil (List.forall_mem_nil _)) read
  · cases read

/-- Nodes that are read are orderly. -/
theorem orderly_of_node (fuel : Nat) {d : Datum} {n : NodeSource} (read : node? fuel d = some n) : n.Orderly := by
  induction fuel generalizing d n with
  | zero => cases read
  | succ fuel ih =>
    simp only [node?, Option.bind_eq_bind, Option.bind_eq_some_iff] at read
    obtain ⟨fields, -, read⟩ := read
    split at read
    case h_2 => cases read
    case h_1 =>
      simp only [Option.bind_eq_some_iff, Option.pure_def, Option.some.injEq] at read
      obtain ⟨id, number, name, -, desc, -, args, entries, input, -, output, -, children, below, disabled, -, rfl⟩ :=
        read
      refine .mk ?_ ?_ ?_
      · rcases fieldOr_cases number with rfl | ⟨d, number⟩
        · exact nofun
        · exact id_of_nodeId number
      · rcases fieldOr_cases entries with rfl | ⟨d, entries⟩
        · exact .object .nil (List.forall_mem_nil _)
        · exact orderly_of_args entries
      · rcases fieldOr_cases below with rfl | ⟨d, below⟩
        · exact nofun
        · split at below
          · intro child member
            obtain ⟨d, -, read⟩ := mem_of_mapM below member
            exact ih read
          · cases below

/-- Trees that are read are orderly. -/
theorem orderly_of_tree {d : Datum} {tree : TreeSource} (read : tree? d = some tree) : tree.root.Orderly := by
  simp only [tree?, Option.bind_eq_bind, Option.bind_eq_some_iff] at read
  obtain ⟨fields, -, read⟩ := read
  split at read
  · simp only [Option.bind_eq_some_iff, Option.pure_def, Option.some.injEq] at read
    obtain ⟨name, -, desc, -, root, read, rfl⟩ := read
    exact orderly_of_node _ read
  · cases read

/-- Whatever is read is in order. -/
theorem orderly_of_datum {d : Datum} {source : Source} (read : ofDatum? d = some source) : source.Orderly := by
  unfold ofDatum? at read
  dsimp only at read
  split at read
  case h_1 trees many =>
    cases read
    split at many
    · intro tree member
      obtain ⟨d, -, read⟩ := mem_of_mapM many member
      exact orderly_of_tree read
    · cases many
  case h_2 =>
    obtain ⟨tree, single, rfl⟩ := Option.map_eq_some_iff.mp read
    exact List.forall_mem_singleton.mpr (orderly_of_tree single)

end Source
end BehaviorTree
