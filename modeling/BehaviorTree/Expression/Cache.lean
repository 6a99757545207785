import BehaviorTree.Expression.Reader

/-!
Expressions that have been read, by their source text. A text is read once; later users of the
same text share the result. Texts that are no expressions are not kept.
-/

namespace BehaviorTree

/-- Expressions that have been read, by their text. -/
abbrev ExprCache := Fields Expr

/-- The expression of a source text and the cache that holds it. -/
def ExprCache.compile (cache : ExprCache) (code : String) : Except ExprError Expr × ExprCache :=
  match Fields.get? cache code with
  | some e => (.ok e, cache)
  | none =>
    match Expr.read code with
    | .ok e => (.ok e, Fields.set cache code e)
    | .error error => (.error error, cache)

end BehaviorTree
