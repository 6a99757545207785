import BehaviorTree.Document.Reader
import BehaviorTree.Source.Basic

/-!
Sources as documents. A record is written as a mapping that leaves out what has its default; it
may also be written as the list of its fields in order. A source is written as a list of trees and
may be a single tree. Reading checks the kind of everything it knows and passes over entries it
does not know.
-/

namespace BehaviorTree

open Document

namespace Value

mutual

/-- A value as a datum. A number that is not finite has no written form and becomes null. -/
def toDatum : Value → Datum
  | null => .null
  | bool b => .bool b
  | number x => if x.isFinite then .float x else .null
  | text s => .text s
  | array items => .list (toData items)
  | object fields => .map (toEntries fields)

def toData : List Value → List Datum
  | [] => []
  | v :: rest => toDatum v :: toData rest

/-- The fields of an object as entries. -/
def toEntries : List (String × Value) → List (Datum × Datum)
  | [] => []
  | (name, v) :: rest => (.text name, toDatum v) :: toEntries rest

end

mutual

/-- The value of a datum; the last entry of a key counts, and every key has to be a text. -/
def ofDatum? : Datum → Option Value
  | .null => some null
  | .bool b => some (bool b)
  | .int n => some (ofInt n.toInt)
  | .float x => some (number x)
  | .text s => some (text s)
  | .list items => (ofData? items).map array
  | .map entries => (ofEntries? entries []).map object

/-- Values of a list of data, if each is one. -/
def ofData? : List Datum → Option (List Value)
  | [] => some []
  | d :: rest => do return (← ofDatum? d) :: (← ofData? rest)

/-- Fields of the entries, if every key is a text; a later entry of a name takes the place of an
earlier. -/
def ofEntries? : List (Datum × Datum) → Fields Value → Option (Fields Value)
  | [], fields => some fields
  | (.text name, d) :: rest, fields => do ofEntries? rest (fields.set name (← ofDatum? d))
  | _ :: _, _ => none

end

end Value

namespace Source

/-- Sorts the entries of a record under its field names: a field may be named or given by its
position from zero, and none may come twice. -/
def recordEntries (names : List String) :
    List (Datum × Datum) → List (Option Datum) → Option (List (Option Datum))
  | [], found => some found
  | (key, d) :: rest, found => do
    let place ←
      match key with
      | .text name => some (names.idxOf name)
      | .int n => n.position?
      | _ => none
    match found[place]? with
    | some (some _) => none
    | some none => recordEntries names rest (found.set place (some d))
    | none => recordEntries names rest found

/-- The data of a record's fields, in the order of the names. -/
def recordFields? (names : List String) (d : Datum) : Option (List (Option Datum)) :=
  match d with
  | .map entries => recordEntries names entries (List.replicate names.length none)
  | .list items =>
    if items.length ≤ names.length then
      some (items.map some ++ List.replicate (names.length - items.length) none)
    else none
  | _ => none

def textOf? : Datum → Option String
  | .text s => some s
  | _ => none

/-- A field that may be missing but, when present, has to be readable. -/
def fieldOr {α : Type} (default : α) (read : Datum → Option α) : Option Datum → Option α
  | none => some default
  | some d => read d

/-- A datum that is a list of texts. -/
def texts? : Datum → Option (List String)
  | .list items => items.mapM textOf?
  | _ => none

def flag? : Datum → Option Bool
  | .bool b => some b
  | _ => none

/-- A node number has 32 bits; null stands for none. -/
def nodeId? : Datum → Option (Option Nat)
  | .null => some none
  | .int n =>
    if 0 ≤ n.toInt ∧ n.toInt < Number.twoTo 32 then some (some n.toInt.toNat) else none
  | _ => none

/-- A datum that is a mapping from names to values. -/
def args? : Datum → Option (Fields Value)
  | .map entries => Value.ofEntries? entries []
  | _ => none

/-- What a record of a node can hold. -/
def nodeFieldNames : List String :=
  ["id", "name", "desc", "args", "input", "output", "children", "disabled"]

/-- What a record of a tree can hold. -/
def treeFieldNames : List String := ["name", "desc", "root"]

/-- Reads a node; `fuel` bounds how deep nodes are nested in it, and its size is enough. -/
def node? : Nat → Datum → Option NodeSource
  | 0, _ => none
  | fuel + 1, d => do
    match ← recordFields? nodeFieldNames d with
    | [id, some name, desc, args, input, output, children, disabled] =>
      let id ← fieldOr none nodeId? id
      let name ← textOf? name
      let desc ← fieldOr "" textOf? desc
      let args ← fieldOr [] args? args
      let input ← fieldOr [] texts? input
      let output ← fieldOr [] texts? output
      let children ← fieldOr [] (fun d => match d with
        | .list items => items.mapM (node? fuel)
        | _ => none) children
      let disabled ← fieldOr false flag? disabled
      return { id, name, desc, args, input, output, children, disabled }
    | _ => none

/-- Reads the record of a tree. -/
def tree? (d : Datum) : Option TreeSource := do
  match ← recordFields? treeFieldNames d with
  | [some name, desc, some root] =>
    let name ← textOf? name
    let desc ← fieldOr "" textOf? desc
    let root ← node? root.size root
    return { name, desc, root }
  | _ => none

/-- A list is read as a list of trees, and where that fails as one tree. -/
def ofDatum? (d : Datum) : Option Source :=
  let many :=
    match d with
    | .list items => items.mapM tree?
    | _ => none
  match many with
  | some trees => some trees
  | none => (tree? d).map fun tree => [tree]

/-- Reads a source from its text. -/
def read (text : String) : Option Source := (Document.read text).bind ofDatum?

/-- An entry that is left out when the condition fails. -/
def entryIf (condition : Bool) (name : String) (d : Datum) : List (String × Datum) :=
  if condition then [(name, d)] else []

mutual

/-- The record of a node, in which what has its default is left out. -/
def nodeDatum : NodeSource → Datum
  | ⟨id, name, desc, args, input, output, children, disabled⟩ =>
    .record (
      (match id with
        | some n => [("id", .int (.ofNat n))]
        | none => []) ++
      [("name", .text name)] ++
      entryIf (desc ≠ "") "desc" (.text desc) ++
      entryIf (!args.isEmpty) "args" (.map (Value.toEntries args)) ++
      entryIf (!input.isEmpty) "input" (.list (input.map .text)) ++
      entryIf (!output.isEmpty) "output" (.list (output.map .text)) ++
      entryIf (!children.isEmpty) "children" (.list (nodeData children)) ++
      entryIf disabled "disabled" (.bool true))

def nodeData : List NodeSource → List Datum
  | [] => []
  | n :: rest => nodeDatum n :: nodeData rest

end

/-- The record of a tree. -/
def treeDatum (tree : TreeSource) : Datum :=
  .record ([("name", .text tree.name)] ++ entryIf (tree.desc ≠ "") "desc" (.text tree.desc) ++
    [("root", nodeDatum tree.root)])

/-- A source as a list of its trees. -/
def toDatum (source : Source) : Datum := .list (source.map treeDatum)

/-- Whether writing the source and reading it again gives an equal one. -/
def survives (source : Source) : Bool :=
  match ofDatum? source.toDatum with
  | some again => Source.same again source
  | none => false

end Source
end BehaviorTree
