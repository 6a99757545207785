import BehaviorTree.Document.Datum
import BehaviorTree.Document.Writer
import BehaviorTree.Fields
import BehaviorTree.Kind.Declaration

/-!
The table of node types by name. A type that is registered under a taken name replaces the former
one. Declarations are listed and exported in the order of their names.
-/

namespace BehaviorTree

/-- Kinds by the name in their declaration. -/
abbrev Registry := Fields Kind

namespace Registry

/-- A registry that knows no kind. -/
def empty : Registry := []

/-- Enters a kind under its name, in the place of another of that name. -/
def register (registry : Registry) (kind : Kind) : Registry :=
  Fields.set registry kind.declaration.name kind

/-- Enters kinds in turn. -/
def registerAll (registry : Registry) (kinds : List Kind) : Registry :=
  kinds.foldl register registry

/-- The registry of the built-in types. -/
def builtin : Registry := registerAll empty Kind.builtins

/-- The built-in types with the usual extensions. -/
def usual : Registry := registerAll builtin (Extension.usual.map .extension)

/-- What the kinds of a registry declare, in their order. -/
def declarations (registry : Registry) : List Declaration :=
  registry.map fun entry => entry.2.declaration

end Registry

open Document

/-- A slot in the listing of a registry. -/
def Slot.toDatum (s : Slot) : Datum :=
  .record [("name", .text s.name), ("optional", .bool s.optional), ("variadic", .bool s.variadic)]

/-- An argument in the listing of a registry. -/
def Arg.toDatum (a : Arg) : Datum :=
  .record [("name", .text a.name), ("type", .text a.type.title), ("desc", .text a.desc),
    ("optional", .bool a.optional)]

/-- A declaration for editors; the longer description is left out when there is none. -/
def Declaration.toDatum (d : Declaration) : Datum :=
  .record (
    [("name", .text d.name), ("type", .text d.role.title), ("desc", .text d.desc)] ++
    (if d.doc = "" then [] else [("doc", .text d.doc)]) ++
    [("input", .list (d.input.map Slot.toDatum)), ("output", .list (d.output.map Slot.toDatum)),
      ("args", .list (d.args.map Arg.toDatum))])

/-- All declarations as one document. -/
def Registry.exported (registry : Registry) : String :=
  Document.write (.list (registry.declarations.map Declaration.toDatum))

end BehaviorTree
