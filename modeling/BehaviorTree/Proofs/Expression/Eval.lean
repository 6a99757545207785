import BehaviorTree.Expression.Eval

/-!
What can go wrong when an expression is evaluated: a member of null is asked for, or an operator
meets operands that it has no meaning for. The text has been read by then.
-/

namespace BehaviorTree

/-- An error of an evaluation; that of a text that is no expression is none. -/
def ExprError.OfValue : ExprError → Prop
  | .malformed .. => False
  | .nullAccess _ => True
  | .undefinedOperator .. => True

namespace Expr

/-- An evaluation that fails does so on a value. -/
def Evaluates {α : Type} (x : Except ExprError α) : Prop := ∀ error, x = .error error → error.OfValue

variable {α β : Type}

theorem evaluates_ok (a : α) : Evaluates (.ok a) := nofun

theorem evaluates_bind {x : Except ExprError α} {f : α → Except ExprError β} (hx : Evaluates x)
    (hf : ∀ a, Evaluates (f a)) : Evaluates (x >>= f) := by
  rcases x with error | a
  · intro error' same
    cases same
    exact hx error rfl
  · exact hf a

theorem evaluates_readMember (v : Value) (field : String) : Evaluates (readMember v field) := by
  intro error failed
  cases v <;> cases failed
  trivial

/-- Selecting by a key fails, if at all, on a value. -/
theorem evaluates_readIndex (v key : Value) : Evaluates (readIndex v key) := by
  intro error failed
  cases v with
  | array items =>
    rw [readIndex] at failed
    split at failed <;> cases failed
  | null =>
    cases failed
    trivial
  | _ => cases failed

theorem evaluates_applyUnary (op : UnaryOp) (v : Value) : Evaluates (applyUnary op v) := by
  intro error failed
  cases op <;> cases v <;> cases failed <;> trivial

theorem evaluates_applyBinary (op : BinaryOp) (a b : Value) : Evaluates (applyBinary op a b) := by
  intro error failed
  rw [applyBinary] at failed
  split at failed <;> cases failed
  trivial

mutual

/-- Evaluation fails, if at all, on a value. -/
theorem evaluates_eval (scope : Scope) : ∀ e : Expr, Evaluates (e.eval scope)
  | .literal v => by
    rw [eval]
    exact evaluates_ok v
  | .var name => by
    rw [eval]
    exact evaluates_ok _
  | .array items => by
    rw [eval]
    exact evaluates_bind (evaluates_evalAll scope items) fun _ => evaluates_ok _
  | .member object field => by
    rw [eval]
    exact evaluates_bind (evaluates_eval scope object) fun v => evaluates_readMember v field
  | .index object key => by
    rw [eval]
    exact evaluates_bind (evaluates_eval scope key) fun k =>
      evaluates_bind (evaluates_eval scope object) fun v => evaluates_readIndex v k
  | .unary op operand => by
    rw [eval]
    exact evaluates_bind (evaluates_eval scope operand) fun v => evaluates_applyUnary op v
  | .binary op lhs rhs => by
    have left := evaluates_eval scope lhs
    have right := evaluates_eval scope rhs
    have both (op : BinaryOp) : Evaluates (lhs.eval scope >>= fun a => rhs.eval scope >>= applyBinary op a) :=
      evaluates_bind left fun a => evaluates_bind right fun b => evaluates_applyBinary op a b
    cases op with
    | and =>
      rw [eval]
      refine evaluates_bind left fun a => ?_
      split
      · exact right
      · exact evaluates_ok a
    | or =>
      rw [eval]
      refine evaluates_bind left fun a => ?_
      split
      · exact evaluates_ok a
      · exact right
    | _ =>
      rw [eval] <;> first | exact both _ | nofun
  | .conditional test yes no => by
    rw [eval]
    refine evaluates_bind (evaluates_eval scope test) fun v => ?_
    split
    · exact evaluates_eval scope yes
    · exact evaluates_eval scope no

theorem evaluates_evalAll (scope : Scope) : ∀ items : List Expr, Evaluates (evalAll scope items)
  | [] => by
    rw [evalAll]
    exact evaluates_ok []
  | e :: rest => by
    rw [evalAll]
    exact evaluates_bind (evaluates_eval scope e) fun _ =>
      evaluates_bind (evaluates_evalAll scope rest) fun _ => evaluates_ok _

end

end Expr
end BehaviorTree
