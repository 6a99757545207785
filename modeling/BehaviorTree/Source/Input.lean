import BehaviorTree.Source.Codec

/-!
The forms in which a host hands over a source.
-/

namespace BehaviorTree

/-- The forms in which a source can be given. -/
inductive SourceInput where
  | text (s : String)
  | data (d : Document.Datum)
  | trees (source : Source)

/-- Why a source cannot be read. -/
inductive SourceError where
  | unreadableText
  | unreadableData
deriving DecidableEq, Repr

/-- The source that is given. -/
def SourceInput.read : SourceInput → Except SourceError Source
  | text s =>
    match Source.read s with
    | some source => .ok source
    | none => .error .unreadableText
  | data d =>
    match Source.ofDatum? d with
    | some source => .ok source
    | none => .error .unreadableData
  | trees source => .ok source

end BehaviorTree
