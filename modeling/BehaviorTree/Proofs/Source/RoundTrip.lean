import BehaviorTree.Proofs.Source.Orderly

/-!
Writing a source and reading it again. What has its default is left out, values carry no mark of their kind, and
a list of trees is told from a single one by trial; nothing is lost by any of this, as long as every number has a
written form.
-/

namespace BehaviorTree

open Document

namespace Value

/-! ### Values -/

mutual

/-- All numbers in a value. -/
def numbers : Value → List Float
  | null => []
  | bool _ => []
  | number x => [x]
  | text _ => []
  | array items => numbersIn items
  | object fields => numbersAt fields

/-- Numbers within the items of an array. -/
def numbersIn : List Value → List Float
  | [] => []
  | v :: rest => numbers v ++ numbersIn rest

/-- Numbers within the fields of an object. -/
def numbersAt : List (String × Value) → List Float
  | [] => []
  | (_, v) :: rest => numbers v ++ numbersAt rest

end

theorem numbers_array (items : List Value) : (array items).numbers = items.flatMap numbers := by
  rw [numbers]
  induction items with
  | nil => rfl
  | cons v rest ih => rw [numbersIn, ih, List.flatMap_cons]

theorem numbers_object (fields : Fields Value) :
    (object fields).numbers = fields.flatMap fun entry => entry.2.numbers := by
  rw [numbers]
  induction fields with
  | nil => rfl
  | cons entry rest ih => rw [numbersAt, ih, List.flatMap_cons]

/-- A value all numbers in which have a written form. -/
def Finite (v : Value) : Prop := ∀ x ∈ v.numbers, x.isFinite = true

theorem Finite.item {items : List Value} (finite : Finite (.array items)) {v : Value} (member : v ∈ items) :
    v.Finite := fun x inside =>
  finite x (by rw [numbers_array]; exact List.mem_flatMap.mpr ⟨v, member, inside⟩)

theorem Finite.entry {fields : Fields Value} (finite : Finite (.object fields)) {entry : String × Value}
    (member : entry ∈ fields) : entry.2.Finite := fun x inside =>
  finite x (by rw [numbers_object]; exact List.mem_flatMap.mpr ⟨entry, member, inside⟩)

/-- Only the one that is not a number differs from itself, and it is not finite. -/
theorem beq_self_of_isFinite {x : Float} (finite : x.isFinite = true) : (x == x) = true := by
  have unpacked : x.isFinite = x.toModel.unpack.isFinite := rfl
  have number : x.toModel.unpack ≠ .notANumber := by
    intro same
    rw [unpacked, same] at finite
    cases finite
  exact (Float.Model.UnpackedFloat.beq_iff_ne_notANumber_and_eq _ _).mpr ⟨number, number, .inl rfl⟩

theorem ofData?_toData {items : List Value} (each : ∀ v ∈ items, ofDatum? v.toDatum = some v) :
    ofData? (toData items) = some items := by
  induction items with
  | nil => rfl
  | cons v rest ih =>
    have ⟨first, later⟩ := List.forall_mem_cons.mp each
    simp [toData, ofData?, first, ih later]

/-- Written entries are read one after the other, each behind those before it. -/
theorem ofEntries?_toEntries (before : Fields Value) {fields : Fields Value}
    (ordered : Fields.Ordered (before ++ fields)) (each : ∀ entry ∈ fields, ofDatum? entry.2.toDatum = some entry.2) :
    ofEntries? (toEntries fields) before = some (before ++ fields) := by
  induction fields generalizing before with
  | nil => rw [toEntries, ofEntries?, List.append_nil]
  | cons entry rest ih =>
    obtain ⟨name, v⟩ := entry
    have ⟨first, later⟩ := List.forall_mem_cons.mp each
    have last : ∀ other ∈ before.names, other < name := by
      rw [Fields.Ordered, Fields.names, List.map_append] at ordered
      exact fun other member => (List.pairwise_append.mp ordered).2.2 other member name List.mem_cons_self
    have placed : (before ++ [(name, v)]) ++ rest = before ++ (name, v) :: rest := by simp
    simp only [toEntries, ofEntries?, first, Option.bind_eq_bind, Option.bind_some, Fields.set_of_last last]
    rw [ih _ (placed ▸ ordered) later, placed]

/-- The kind of a value shows in what is written of it. -/
theorem ofDatum?_toDatum {v : Value} (orderly : v.Orderly) (finite : v.Finite) : ofDatum? v.toDatum = some v := by
  induction orderly with
  | null | bool | text => rfl
  | number x =>
    have written : x.isFinite = true := finite x (List.mem_singleton.mpr rfl)
    rw [toDatum, if_pos written, ofDatum?]
  | array _ ih =>
    rw [toDatum, ofDatum?, ofData?_toData fun v member => ih v member (finite.item member), Option.map_some]
  | object ordered _ ih =>
    have reads := ofEntries?_toEntries [] ordered fun entry member => ih entry member (finite.entry member)
    rw [toDatum, ofDatum?, reads, Option.map_some, List.nil_append]

theorem sameItems_self {items : List Value} (each : ∀ v ∈ items, v.same v = true) :
    sameItems items items = true := by
  induction items with
  | nil => rfl
  | cons v rest ih =>
    have ⟨first, later⟩ := List.forall_mem_cons.mp each
    rw [sameItems, first, ih later, Bool.and_self]

theorem sameFields_self {fields : Fields Value} (each : ∀ entry ∈ fields, entry.2.same entry.2 = true) :
    sameFields fields fields = true := by
  induction fields with
  | nil => rfl
  | cons entry rest ih =>
    have ⟨first, later⟩ := List.forall_mem_cons.mp each
    rw [sameFields, first, ih later, beq_self_eq_true, Bool.and_self, Bool.and_self]

theorem same_self {v : Value} (orderly : v.Orderly) (finite : v.Finite) : v.same v = true := by
  induction orderly with
  | null => rfl
  | bool | text => simp [same]
  | number x => exact beq_self_of_isFinite (finite x (List.mem_singleton.mpr rfl))
  | array _ ih => exact sameItems_self fun v member => ih v member (finite.item member)
  | object _ _ ih => exact sameFields_self fun entry member => ih entry member (finite.entry member)

end Value

namespace NodeSource

mutual

/-- All numbers in the arguments of a node and of the nodes below it. -/
def numbers : NodeSource → List Float
  | ⟨_, _, _, args, _, _, children, _⟩ => Value.numbersAt args ++ numbersIn children

/-- Numbers within the arguments of a list of nodes. -/
def numbersIn : List NodeSource → List Float
  | [] => []
  | n :: rest => numbers n ++ numbersIn rest

end

/-- All numbers of a node are finite. -/
def Finite (n : NodeSource) : Prop := ∀ x ∈ n.numbers, x.isFinite = true

theorem numbersIn_eq (nodes : List NodeSource) : numbersIn nodes = nodes.flatMap numbers := by
  induction nodes with
  | nil => rfl
  | cons n rest ih => rw [numbersIn, ih, List.flatMap_cons]

theorem numbers_eq (n : NodeSource) :
    n.numbers = (Value.object n.args).numbers ++ n.children.flatMap numbers := by
  cases n
  rw [numbers, numbersIn_eq, Value.numbers]

theorem Finite.args {n : NodeSource} (finite : n.Finite) : Value.Finite (.object n.args) := fun x inside =>
  finite x (by rw [numbers_eq]; exact List.mem_append_left _ inside)

theorem Finite.child {n child : NodeSource} (finite : n.Finite) (member : child ∈ n.children) : child.Finite :=
  fun x inside => finite x (by
    rw [numbers_eq]
    exact List.mem_append_right _ (List.mem_flatMap.mpr ⟨child, member, inside⟩))

theorem sameAll_self {nodes : List NodeSource} (each : ∀ n ∈ nodes, n.same n = true) :
    sameAll nodes nodes = true := by
  induction nodes with
  | nil => rfl
  | cons n rest ih =>
    have ⟨first, later⟩ := List.forall_mem_cons.mp each
    rw [sameAll, first, ih later, Bool.and_self]

/-- An orderly finite node is the same as itself. -/
theorem same_self {n : NodeSource} (orderly : n.Orderly) (finite : n.Finite) : n.same n = true := by
  induction orderly with
  | @mk n _ args _ ih =>
    have entries : Value.sameFields n.args n.args = true := Value.same_self args finite.args
    have below : sameAll n.children n.children = true :=
      sameAll_self fun child member => ih child member (finite.child member)
    obtain ⟨id, name, desc, args, input, output, children, disabled⟩ := n
    simp only [same, beq_self_eq_true, Bool.and_true, entries, below]

end NodeSource

namespace Source

/-! ### Records -/

/-- What is written of a record, field by field. -/
def present (fields : List (String × Option Datum)) : List (String × Datum) :=
  fields.flatMap fun (name, d) => (d.map (name, ·)).toList

/-- A field that is left out when the condition fails. -/
def fieldIf (condition : Bool) (d : Datum) : Option Datum := if condition then some d else none

theorem entryIf_eq (condition : Bool) (name : String) (d : Datum) :
    entryIf condition name d = ((fieldIf condition d).map (name, ·)).toList := by
  cases condition <;> rfl

/-- An entry whose field comes next is put there. -/
theorem recordEntries_next {names : List String} {before : List (Option Datum)} {name : String}
    (next : names.idxOf name = before.length) (d : Datum) (entries : List (Datum × Datum)) (later : Nat) :
    recordEntries names ((.text name, d) :: entries) (before ++ List.replicate (later + 1) none) =
      recordEntries names entries (before ++ [some d] ++ List.replicate later none) := by
  have free : (before ++ List.replicate (later + 1) none)[before.length]? = some none := by simp
  have filled : (before ++ List.replicate (later + 1) none).set before.length (some d) =
      before ++ [some d] ++ List.replicate later none := by
    rw [List.set_append_right _ _ le_rfl, Nat.sub_self, List.replicate_succ, List.set_cons_zero, List.append_assoc,
      List.singleton_append]
  simp only [recordEntries, next, Option.bind_eq_bind, Option.bind_some, free, filled]

/-- The fields that are present in a record are found, each in its place. -/
theorem recordEntries_present (before : List (String × Option Datum)) {rest : List (String × Option Datum)}
    (nodup : ((before ++ rest).map Prod.fst).Nodup) :
    recordEntries ((before ++ rest).map Prod.fst) ((present rest).map fun (key, d) => (.text key, d))
      (before.map Prod.snd ++ List.replicate rest.length none) = some ((before ++ rest).map Prod.snd) := by
  induction rest generalizing before with
  | nil => simp [present, recordEntries]
  | cons field rest ih =>
    obtain ⟨name, d⟩ := field
    have shift : before ++ (name, d) :: rest = (before ++ [(name, d)]) ++ rest := by simp
    have moved : (before ++ [(name, d)]).map Prod.snd = before.map Prod.snd ++ [d] := List.map_append
    have reads := ih _ (shift ▸ nodup)
    rw [← shift, moved] at reads
    rw [← reads]
    rcases d with _ | d
    · rw [List.append_assoc]
      rfl
    · have new : name ∉ before.map Prod.fst := by
        rw [List.map_append, List.nodup_append'] at nodup
        exact fun member => nodup.2.2 member List.mem_cons_self
      have next : ((before ++ (name, some d) :: rest).map Prod.fst).idxOf name = (before.map Prod.snd).length := by
        rw [List.map_append, List.idxOf_append_of_notMem new, List.map_cons, List.idxOf_cons_self, List.length_map,
          List.length_map, Nat.add_zero]
      exact recordEntries_next next d _ rest.length

/-- A record is read as it was written, field by field. -/
theorem recordFields?_present {fields : List (String × Option Datum)} (nodup : (fields.map Prod.fst).Nodup) :
    recordFields? (fields.map Prod.fst) (.record (present fields)) = some (fields.map Prod.snd) := by
  rw [Datum.record, recordFields?, List.length_map]
  exact recordEntries_present [] nodup

/-- A field is left out only where the default stands for it. -/
theorem fieldOr_fieldIf {α : Type} {default x : α} {read : Datum → Option α} {condition : Bool} {d : Datum}
    (omitted : condition = false → x = default) (written : read d = some x) :
    fieldOr default read (fieldIf condition d) = some x := by
  cases condition
  · exact congrArg some (omitted rfl).symm
  · exact written

theorem mapM_map {α β : Type} {write : α → β} {read : β → Option α} {items : List α}
    (each : ∀ item ∈ items, read (write item) = some item) : (items.map write).mapM read = some items := by
  rw [mapM_eq_some_iff, List.forall₂_map_left_iff, List.forall₂_same]
  exact each

theorem texts?_map (texts : List String) : texts? (.list (texts.map .text)) = some texts :=
  mapM_map fun _ _ => rfl

/-! ### Sizes -/

/-- The items of a list are smaller than it. -/
theorem size_lt_list {d : Datum} {items : List Datum} (member : d ∈ items) : d.size < (Datum.list items).size := by
  rw [Datum.size]
  induction items with
  | nil => cases member
  | cons first rest ih =>
    rw [Datum.sizeAll]
    rcases List.mem_cons.mp member with rfl | member
    · omega
    · have := ih member
      omega

/-- The fields of a record are smaller than it. -/
theorem size_lt_record {name : String} {d : Datum} {entries : List (String × Datum)}
    (member : (name, d) ∈ entries) : d.size < (Datum.record entries).size := by
  rw [Datum.record, Datum.size]
  induction entries with
  | nil => cases member
  | cons first rest ih =>
    obtain ⟨key, other⟩ := first
    rw [List.map_cons, Datum.sizeEntries]
    rcases List.mem_cons.mp member with same | member
    · cases same
      omega
    · have := ih member
      omega

theorem mem_present {fields : List (String × Option Datum)} {name : String} {d : Datum}
    (member : (name, some d) ∈ fields) : (name, d) ∈ present fields :=
  List.mem_flatMap.mpr ⟨_, member, List.mem_singleton.mpr rfl⟩

/-! ### Nodes -/

/-- The fields of a node, as they are written. -/
def nodeFields (n : NodeSource) : List (String × Option Datum) := [
  ("id", n.id.map fun k => .int (.ofNat k)),
  ("name", some (.text n.name)),
  ("desc", fieldIf (n.desc ≠ "") (.text n.desc)),
  ("args", fieldIf (!n.args.isEmpty) (.map (Value.toEntries n.args))),
  ("input", fieldIf (!n.input.isEmpty) (.list (n.input.map .text))),
  ("output", fieldIf (!n.output.isEmpty) (.list (n.output.map .text))),
  ("children", fieldIf (!n.children.isEmpty) (.list (n.children.map nodeDatum))),
  ("disabled", fieldIf n.disabled (.bool true))]

theorem nodeData_eq (nodes : List NodeSource) : nodeData nodes = nodes.map nodeDatum := by
  induction nodes with
  | nil => rfl
  | cons n rest ih => rw [nodeData, ih, List.map_cons]

theorem nodeDatum_eq (n : NodeSource) : nodeDatum n = .record (present (nodeFields n)) := by
  obtain ⟨id, name, desc, args, input, output, children, disabled⟩ := n
  cases id <;> simp [nodeDatum, present, nodeFields, entryIf_eq, nodeData_eq]

theorem nodup_nodeFields (n : NodeSource) : ((nodeFields n).map Prod.fst).Nodup := by
  rw [show (nodeFields n).map Prod.fst = nodeFieldNames from rfl]
  decide

theorem size_child_lt {n child : NodeSource} (member : child ∈ n.children) :
    (nodeDatum child).size < (nodeDatum n).size := by
  have parent : n.children ≠ [] := List.ne_nil_of_mem member
  have written : ("children", Datum.list (n.children.map nodeDatum)) ∈ present (nodeFields n) :=
    mem_present (by simp [nodeFields, fieldIf, parent])
  rw [nodeDatum_eq n]
  exact (size_lt_list (List.mem_map_of_mem member)).trans (size_lt_record written)

theorem nodeId?_ofNat {k : Nat} (range : k < Number.twoTo 32) : nodeId? (.int (.ofNat k)) = some (some k) := by
  have value : (Whole.ofNat k).toInt = k := rfl
  simp only [nodeId?, value]
  rw [if_pos ⟨Int.natCast_nonneg k, Int.ofNat_lt.mpr range⟩, Int.toNat_natCast]

/-- A node that was written is read back. -/
theorem node?_nodeDatum {n : NodeSource} (orderly : n.Orderly) (finite : n.Finite) {fuel : Nat}
    (enough : (nodeDatum n).size ≤ fuel) : node? fuel (nodeDatum n) = some n := by
  induction fuel generalizing n with
  | zero =>
    rw [nodeDatum_eq, Datum.record, Datum.size] at enough
    omega
  | succ fuel ih =>
    obtain ⟨ids, args, below⟩ := orderly
    have id : fieldOr none nodeId? (n.id.map fun k => .int (.ofNat k)) = some n.id := by
      rcases number : n.id with _ | k
      · rfl
      · rw [Option.map_some, fieldOr, nodeId?_ofNat (ids k number)]
    have desc : fieldOr "" textOf? (fieldIf (n.desc ≠ "") (.text n.desc)) = some n.desc :=
      fieldOr_fieldIf (by simp) rfl
    have entries : fieldOr [] args? (fieldIf (!n.args.isEmpty) (.map (Value.toEntries n.args))) = some n.args := by
      refine fieldOr_fieldIf (by simp) ?_
      have reads := Value.ofDatum?_toDatum args finite.args
      simpa [Value.toDatum, Value.ofDatum?, args?] using reads
    have input : fieldOr [] texts? (fieldIf (!n.input.isEmpty) (.list (n.input.map .text))) = some n.input :=
      fieldOr_fieldIf (by simp) (texts?_map _)
    have output : fieldOr [] texts? (fieldIf (!n.output.isEmpty) (.list (n.output.map .text))) = some n.output :=
      fieldOr_fieldIf (by simp) (texts?_map _)
    have children : (n.children.map nodeDatum).mapM (node? fuel) = some n.children := by
      refine mapM_map fun child member => ih (below child member) (finite.child member) ?_
      exact Nat.le_of_lt_succ ((size_child_lt member).trans_le enough)
    have disabled : fieldOr false flag? (fieldIf n.disabled (.bool true)) = some n.disabled := by
      cases n.disabled <;> rfl
    rw [node?, nodeDatum_eq, show nodeFieldNames = (nodeFields n).map Prod.fst from rfl,
      recordFields?_present (nodup_nodeFields n)]
    simp only [nodeFields, List.map_cons, List.map_nil, Option.bind_eq_bind, Option.bind_some,
      Option.bind_eq_some_iff]
    exact ⟨_, id, _, rfl, _, desc, _, entries, _, input, _, output, _, fieldOr_fieldIf (by simp) children, _, disabled,
      by cases n; rfl⟩

/-! ### Trees -/

/-- The fields of a tree, as they are written. -/
def treeFields (tree : TreeSource) : List (String × Option Datum) := [
  ("name", some (.text tree.name)),
  ("desc", fieldIf (tree.desc ≠ "") (.text tree.desc)),
  ("root", some (nodeDatum tree.root))]

theorem treeDatum_eq (tree : TreeSource) : treeDatum tree = .record (present (treeFields tree)) := by
  simp [treeDatum, present, treeFields, entryIf_eq]

theorem nodup_treeFields (tree : TreeSource) : ((treeFields tree).map Prod.fst).Nodup := by
  rw [show (treeFields tree).map Prod.fst = treeFieldNames from rfl]
  decide

/-- A tree that was written is read back. -/
theorem tree?_treeDatum {tree : TreeSource} (orderly : tree.root.Orderly) (finite : tree.root.Finite) :
    tree? (treeDatum tree) = some tree := by
  have desc : fieldOr "" textOf? (fieldIf (tree.desc ≠ "") (.text tree.desc)) = some tree.desc :=
    fieldOr_fieldIf (by simp) rfl
  have root : node? (nodeDatum tree.root).size (nodeDatum tree.root) = some tree.root :=
    node?_nodeDatum orderly finite le_rfl
  rw [tree?, treeDatum_eq, show treeFieldNames = (treeFields tree).map Prod.fst from rfl,
    recordFields?_present (nodup_treeFields tree)]
  simp only [treeFields, List.map_cons, List.map_nil, Option.bind_eq_bind, Option.bind_some,
    Option.bind_eq_some_iff]
  exact ⟨_, rfl, _, desc, _, root, rfl⟩

/-! ### One tree or many -/

theorem ofDatum?_of_many {items : List Datum} {trees : List TreeSource} (many : items.mapM tree? = some trees) :
    ofDatum? (.list items) = some trees := by
  rw [ofDatum?]
  simp only [many]

/-- A list of one item is no tree, so it is read as that item. -/
theorem ofDatum?_singleton (d : Datum) : ofDatum? (.list [d]) = (tree? d).map fun tree => [tree] := by
  rcases found : tree? d with _ | tree
  · have many : [d].mapM tree? = none := by rw [List.mapM_cons, found]; rfl
    have single : tree? (.list [d]) = none := rfl
    rw [ofDatum?]
    simp only [many, single, Option.map_none]
  · have many : [d].mapM tree? = some [tree] := by rw [List.mapM_cons, found]; rfl
    exact ofDatum?_of_many many

/-- A tree that is written as the list of its fields has a text at its head, which is no tree. -/
theorem mapM_of_tree {items : List Datum} {tree : TreeSource} (single : tree? (.list items) = some tree) :
    items.mapM tree? = none := by
  rcases items with _ | ⟨first, rest⟩
  · cases single
  · simp only [tree?, Option.bind_eq_bind, Option.bind_eq_some_iff] at single
    obtain ⟨fields, listed, single⟩ := single
    rw [recordFields?] at listed
    split at listed
    case isFalse => cases listed
    case isTrue =>
      cases listed
      split at single
      case h_2 => cases single
      case h_1 name desc root fields =>
        obtain ⟨s, text, -⟩ := Option.bind_eq_some_iff.mp single
        obtain rfl : first = name := Option.some.inj (List.cons.inj fields).1
        cases first <;> cases text
        rfl

/-- What is read as a tree is not read as a list of trees. -/
theorem ofDatum?_of_tree {d : Datum} {tree : TreeSource} (single : tree? d = some tree) :
    ofDatum? d = some [tree] := by
  cases d with
  | list items =>
    rw [ofDatum?]
    simp only [mapM_of_tree single, single, Option.map_some]
  | map entries => exact congrArg (Option.map fun tree => [tree]) single
  | null | bool | int | float | text => cases single

theorem ofDatum?_treeDatum (tree : TreeSource) :
    ofDatum? (treeDatum tree) = (tree? (treeDatum tree)).map fun tree => [tree] := rfl

/-! ### Sources -/

/-- All numbers in the arguments of a source. -/
def numbers (source : Source) : List Float := source.flatMap fun tree => tree.root.numbers

/-- All numbers of a source are finite. -/
def Finite (source : Source) : Prop := ∀ x ∈ source.numbers, x.isFinite = true

theorem Finite.tree {source : Source} (finite : source.Finite) {tree : TreeSource} (member : tree ∈ source) :
    tree.root.Finite := fun x inside => finite x (List.mem_flatMap.mpr ⟨tree, member, inside⟩)

theorem ofDatum?_toDatum {source : Source} (orderly : source.Orderly) (finite : source.Finite) :
    ofDatum? source.toDatum = some source :=
  ofDatum?_of_many (mapM_map fun tree member => tree?_treeDatum (orderly tree member) (finite.tree member))

theorem same_self {source : Source} (orderly : source.Orderly) (finite : source.Finite) :
    source.same source = true := by
  induction source with
  | nil => rfl
  | cons tree rest ih =>
    have later := ih (fun other member => orderly other (List.mem_cons_of_mem _ member))
      fun x inside => finite x (List.mem_append_right _ inside)
    have root := NodeSource.same_self (orderly tree List.mem_cons_self) (finite.tree List.mem_cons_self)
    rw [same, TreeSource.same, beq_self_eq_true, beq_self_eq_true, root, later]
    rfl

theorem survives_of_finite {source : Source} (orderly : source.Orderly) (finite : source.Finite) :
    source.survives = true := by
  rw [survives, ofDatum?_toDatum orderly finite]
  exact same_self orderly finite

/-- What was read, from whatever document, is read again from what is written of it. -/
theorem survives_of_datum {d : Datum} {source : Source} (found : ofDatum? d = some source)
    (finite : source.Finite) : source.survives = true :=
  survives_of_finite (orderly_of_datum found) finite

/-- A source all numbers in which are finite is read as it was written, and what is read is equal to it. One tree
may be written alone or as a list of one: both are read the same, whatever is in the tree and however it is
written. -/
theorem reads_as_written :
    (∀ source : Source, source.Orderly → source.Finite →
      ofDatum? source.toDatum = some source ∧ source.survives = true) ∧
    (∀ tree : TreeSource, ofDatum? (treeDatum tree) = ofDatum? (toDatum [tree])) ∧
    ∀ (d : Datum) (tree : TreeSource), tree? d = some tree →
      ofDatum? d = some [tree] ∧ ofDatum? (.list [d]) = some [tree] := by
  refine ⟨fun source orderly finite => ?_, fun tree => ?_, fun d tree single => ?_⟩
  · exact ⟨ofDatum?_toDatum orderly finite, survives_of_finite orderly finite⟩
  · rw [ofDatum?_treeDatum, toDatum, List.map_singleton, ofDatum?_singleton]
  · exact ⟨ofDatum?_of_tree single, by rw [ofDatum?_singleton, single, Option.map_some]⟩

/-- Two trees with what writing and reading treat apart: fields at their defaults and others, empty collections,
null and minus zero. -/
def voyage : Source := [
  { name := "main"
    desc := "two legs"
    root := {
      id := some 7
      name := "Sequence"
      children := [
        { name := "Let"
          args := [("cargo", .object [("crates", .array [.null, .object [], .array []]), ("weight", .number (-0.0))])]
          input := ["", "hp"]
          disabled := true },
        { id := some 0, name := "patrol", desc := "home" }] } },
  { name := "patrol", root := { name := "Wait", args := [("time", .number 1.5)], output := ["left"] } }]

theorem reads_as_written_voyage :
    ofDatum? voyage.toDatum = some voyage ∧ voyage.survives = true ∧
      ofDatum? (.list [.text "home", .text "", .list [.null, .text "Wait"]]) =
        some [{ name := "home", root := { name := "Wait" } }] := by
  have orderly : voyage.Orderly := by
    simp +decide [voyage, Orderly, Fields.Ordered]
  have finite : voyage.Finite := by
    unfold Finite
    decide
  have read := reads_as_written.1 voyage orderly finite
  exact ⟨read.1, read.2, (reads_as_written.2.2 _ _ rfl).1⟩

end Source
end BehaviorTree
